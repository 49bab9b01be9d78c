import PacketDraft.Description.Tables
import PacketDraft.Protocol.Registry

/-!
# Protocols from descriptions

Builds the types that the tables of a description declare, starting from the packets. A type is built
once; whatever it is made of is built before it.
-/

namespace PacketDraft.Description

open Document Protocol

/-- The tables, and the protocol that is built from them. -/
structure Workshop where
  tables : Tables := {}
  store : Store := .initial

/-- A step of building. -/
abbrev Build (α : Type) : Type :=
  Attempt Workshop α

namespace Build

variable {α : Type}

/-- A change of the protocol. -/
def change (c : Change α) : Build α := fun w =>
  let (result, store) := c w.store
  (result, { w with store })

/-- A step of collecting declarations. -/
def collect (c : Attempt Tables α) : Build α := fun w =>
  let (result, tables) := c w.tables
  (result, { w with tables })

/-- A question to the tables. -/
def consult (f : Tables → Except Fault α) : Build α :=
  Attempt.ask fun w => f w.tables

end Build

open Build

/-- How a type is built from its name. -/
abbrev Builder : Type :=
  String → Build TypeRef

/-- The units that are numbers of bits or bytes; a field may also have none. -/
def isPlainUnit : Option String → Bool
  | none => true
  | some unit => unit ∈ ["bits", "bit", "bytes", "byte"]

/-- The units that are numbers of bytes. -/
def isByteUnit (unit : Option String) : Bool :=
  unit = some "byte" || unit = some "bytes"

namespace Tables

/-- The structure under a name. -/
def getStruct (t : Tables) (name : String) : Except Fault StructRow :=
  match t.structs.lookup name with
  | some row => .ok row
  | none => .error .notFound

/-- The field that a label in a formula stands for. The label `this` stands for the whole object, and
so for no field. -/
def resolveLabel (t : Tables) (struct label : String) : Except Fault String :=
  if label = "this" then .ok "SelfExpression()"
  else do
    let row ← t.getStruct struct
    let name := fieldName label
    return (row.aliases.lookup name).getD name

/-- The structure that a field consists of. -/
def structOfField (t : Tables) (struct label name : String) : Except Fault String :=
  if label = "this" then .error .inapplicable
  else do
    let row ← t.getStruct struct
    match row.fields.lookup (fieldName name) with
    | none => throw .notFound
    | some field =>
      match field.title.units with
      | none => throw .wrongKind
      | some unit => typeName unit

/-- Takes back the constraint of a field. -/
def dropConstraint (struct label : String) (t : Tables) : Tables :=
  { t with
    structs := t.structs.map fun (s, row) =>
      if s = struct then
        (s, { row with fields := row.fields.map fun (l, f) =>
          if l = label then (l, { f with title := { f.title with constraint := none } })
          else (l, f) })
      else (s, row) }

end Tables

/-- The access to a field by the label that a formula uses. -/
def buildAccess (struct label : String) : Build Expr := do
  let name ← consult (·.resolveLabel struct label)
  return .field .self name

/-- The expression that a formula in the description of a structure stands for. -/
def buildExpr (build : Builder) (struct : String) : Formula → Build Expr
  | .number n => do
    let t ← build "Number"
    return .const t (.int n)
  | .field label => do
    let access ← buildAccess struct label
    return .method access "to_number" []
  | .sizeOf label => do
    let access ← buildAccess struct label
    return .method access "size" []
  | .member label inner => do
    let name ← consult (·.resolveLabel struct label)
    let innerStruct ← consult (·.structOfField struct label name)
    let innerName ← consult (·.resolveLabel innerStruct inner)
    return .method (.field (.field .self name) innerName) "to_number" []
  | .binary op left right => do
    let left ← buildExpr build struct left
    let right ← buildExpr build struct right
    return .method left op.method [("other", right)]

/-- The expression of a formula that may be missing. -/
def buildExpr? (build : Builder) (struct : String) : Option Formula → Build (Option Expr)
  | none => pure none
  | some f => do
    let e ← buildExpr build struct f
    return some e

/-- The size of an array that a constraint gives, if it says that the size of the field equals it. -/
def statedSize? (label : String) : Option Expr → Option Expr
  | some (.method (.method (.field .self name) "size" _) "eq" ((_, size) :: _)) =>
    if name = label then some size else none
  | _ => none

/-- The name of a type that belongs to a field. -/
def memberTypeName (struct label : String) : String :=
  struct ++ "_" ++ label

/-- Registers a type that was just made. -/
def register (make : Change TypeRef) : Build TypeRef :=
  change do
    let t ← make
    addType t
    return t

/-- The type of a field whose unit is a type. An array without a length may have its size in its
constraint, which is then taken back. -/
def buildUnitType (build : Builder) (struct unit : String) (title : FieldTitle) :
    Build TypeRef := do
  if title.isArray then
    let constraint ← buildExpr? build struct title.constraint
    let size := statedSize? title.fullLabel constraint
    if size.isSome then
      Attempt.update fun w =>
        { w with tables := w.tables.dropConstraint struct title.fullLabel }
    let unitName ← Attempt.ofExcept (typeName unit)
    let element ← build unitName
    register (makeArray (some (memberTypeName struct title.fullLabel)) element none size)
  else
    let unitName ← Attempt.ofExcept (typeName unit)
    build unitName

/-- A size in bits, given a size in the unit of a field. -/
def sizeInBits (build : Builder) (unit : Option String) : Option Expr → Build (Option Expr)
  | some (.const t (.int n)) =>
    if isByteUnit unit then do
      let number ← build "Number"
      return some (.const number (.int (n * 8)))
    else pure (some (.const t (.int n)))
  | some e =>
    if isByteUnit unit then do
      let number ← build "Number"
      return some (.method e "multiply" [("other", .const number (.int 8))])
    else pure (some e)
  | none => pure none

/-- Whether a size is the constant one. -/
def isOne : Expr → Bool
  | .const _ v => v.equals (.int 1)
  | _ => false

/-- Several values of a type are an array. -/
def repeated (struct label : String) (t : TypeRef) (count : Option Expr) : Build TypeRef := do
  let representable ← Attempt.read (·.store.isRepresentable t)
  match count with
  | some e =>
    if !isOne e && representable then
      register (makeArray (some (memberTypeName struct label)) t (some e) none)
    else return t
  | none => return t

/-- The action that stores a value in a new field of the context. -/
def buildStored (build : Builder) (struct : String) (formula : Formula) (name : String) :
    Build Expr := do
  let number ← build "Number"
  change (addSlot .context (fieldName name) number)
  let value ← buildExpr build struct formula
  return .method (.ctx (fieldName name) .context) "set" [("value", value)]

/-- The fields, constraints and actions of a structure. -/
structure Parts where
  fields : List Field := []
  constraints : List Expr := []
  actions : List Expr := []

/-- The constraint of a field as the tables have it now. -/
def Tables.constraintOf (t : Tables) (struct label : String) : Option Formula := do
  let row ← t.structs.lookup struct
  let field ← row.fields.lookup label
  field.title.constraint

/-- Adds a field of a structure to its parts. -/
def buildField (build : Builder) (struct : String) (row : FieldRow) (parts : Parts) :
    Build Parts := do
  let title := row.title
  let label := title.fullLabel
  let unitType ← match title.units with
    | some unit =>
      if isPlainUnit (some unit) then pure .absent else buildUnitType build struct unit title
    | none => pure .absent
  let size ← buildExpr? build struct title.size
  let constraint ← Attempt.read fun w => w.tables.constraintOf struct label
  let constraint ← buildExpr? build struct constraint
  let type ←
    if isPlainUnit title.units then do
      let bits ← sizeInBits build title.units size
      register (makeBitString (some (memberTypeName struct label)) bits)
    else repeated struct label unitType size
  let presence ← match title.presence with
    | some formula => buildExpr build struct formula
    | none => do
      let boolean ← build "Boolean"
      pure (.const boolean (.flag true))
  let action ← match row.stored with
    | some (formula, name) => do
      let action ← buildStored build struct formula name
      pure (some action)
    | none => pure none
  let field ← Attempt.ofExcept (makeField label type (some presence))
  return {
    fields := parts.fields ++ [field]
    constraints := parts.constraints ++ constraint.toList
    actions := parts.actions ++ action.toList }

/-- Adds the fields of a structure to its parts, in their order. -/
def buildFields (build : Builder) (struct : String) : List FieldRow → Parts → Build Parts
  | [], parts => pure parts
  | row :: rows, parts => do
    let parts ← buildField build struct row parts
    buildFields build struct rows parts

def buildStruct (build : Builder) (name : String) (row : StructRow) : Build TypeRef := do
  let parts ← buildFields build name (row.fields.map (·.2)) {}
  register (makeStruct (some name) parts.fields parts.constraints parts.actions)

/-- Builds types one after the other. -/
def buildTypes (build : Builder) : List String → Build (List TypeRef)
  | [] => pure []
  | name :: names => do
    let t ← build name
    let rest ← buildTypes build names
    return t :: rest

/-- Builds the function of a conversion that an enumeration takes part in. -/
def buildConversion (build : Builder) : Option (String × String) → Build Unit
  | some (_, function) => do
    let _ ← build function
    return ()
  | none => pure ()

def buildEnum (build : Builder) (name : String) (variants : List String) : Build TypeRef := do
  let types ← buildTypes build variants
  let t ← register (makeEnum (some name) types)
  let serialise ← Attempt.read (·.tables.serialiseTo.lookup name)
  buildConversion build serialise
  let parse ← Attempt.read (·.tables.parseFrom.lookup name)
  buildConversion build parse
  return t

/-- Builds the types of parameters. -/
def buildParameters (build : Builder) : List (String × String) → Build (List Parameter)
  | [] => pure []
  | (name, type) :: rest => do
    let typeKey ← Attempt.ofExcept (typeName type)
    let t ← build typeKey
    let rest ← buildParameters build rest
    return ⟨name, t⟩ :: rest

def buildFunction (build : Builder) (name : String) (signature : Sentence.Signature) :
    Build TypeRef := do
  let parameters ← buildParameters build signature.parameters
  let resultKey ← Attempt.ofExcept (typeName signature.result)
  let result ← build resultKey
  register (makeFunction (some name) parameters result)

/-- The primitive type under a name. -/
def primitive? : String → Option TypeRef
  | "Number" => some .number
  | "Boolean" => some .boolean
  | "Nothing" => some .nothing
  | _ => none

/-- The type under a name: a registered one, or one that is described, or a primitive one. `depth`
bounds how deep types nest; a type within itself cannot be built. -/
def buildWithin : Nat → Builder
  | 0, _ => Attempt.fail .endless
  | depth + 1, name => do
    let build := buildWithin depth
    let w ← Attempt.read id
    match w.store.types.lookup name with
    | some t => return t
    | none =>
      match w.tables.structs.lookup name, w.tables.enums.lookup name,
        w.tables.functions.lookup name, primitive? name with
      | some row, _, _, _ => buildStruct build name row
      | none, some variants, _, _ => buildEnum build name variants
      | none, none, some signature, _ => buildFunction build name signature
      | none, none, none, some t => return t
      | none, none, none, none => Attempt.fail (.unknownType name)

/-- Types that are not built yet nest at most as deep as there are descriptions. -/
def Tables.depth (t : Tables) : Nat :=
  t.structs.length + t.enums.length + t.functions.length + 2

/-- The type under a name. -/
def buildType (name : String) : Build TypeRef := do
  let depth ← Attempt.read (·.tables.depth)
  buildWithin depth name

/-- Builds a packet. -/
def buildPacket (name : String) : Build Unit := do
  let _ ← buildType name
  change (definePdu name)

/-- Builds the protocol that the tables declare. -/
def buildTables : Build Unit := do
  match ← Attempt.read (·.tables.pdus) with
  | none => Attempt.fail .inapplicable
  | some pdus =>
    Attempt.each buildPacket pdus
    let name ← Attempt.read (·.tables.protocolName)
    change (setProtocolName (name.getD ""))

/-- Builds the protocol that a document describes. Where there is no document, nothing is declared. -/
def buildProtocol (document : Option Element) : Build Unit := do
  match document with
  | some document => collect (Tables.noteDocument document)
  | none => pure ()
  buildTables

end PacketDraft.Description
