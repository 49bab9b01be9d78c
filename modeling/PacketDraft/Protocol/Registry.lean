import PacketDraft.Protocol.Construct
import PacketDraft.Text.Case

/-!
# The registry of a protocol

A protocol registers types under their names, in order, and names the types that are packets. It has
a context, which holds the size of the data that is parsed, and the type of such data.
-/

namespace PacketDraft.Protocol

open Attempt Text

/-- A primitive type with its traits. -/
def primitiveEntry (t : TypeRef) (group : Nat) (form : Form) (size : Option Expr)
    (traits : List Trait) : Entry where
  form
  name := none
  size
  methods := (traits.flatMap (·.methods)).filterMap fun m =>
    ((m.instantiate [("T", t)]).toOption).map fun method => (m.name, method)
  group

/-- The name of the context field with the size of the data. -/
def dataSize : String :=
  "data_size"

/-- The size of the data that is parsed. -/
def dataSizeExpr : Expr :=
  .ctx dataSize .context

namespace Store

/-- The primitive types, a protocol with nothing in it, and its context. -/
def foundation : Store where
  entries :=
    [primitiveEntry .number 0 .number none
       [Trait.value, Trait.equality, Trait.ordinal, Trait.arithmeticOps],
     primitiveEntry .boolean 1 .boolean none [Trait.value, Trait.equality, Trait.booleanOps],
     primitiveEntry .nothing 2 .nothing (some (constantSize (.int 0))) [Trait.sized],
     { form := .protocol, name := some "Protocol", group := 3 },
     { form := .context, name := some "Context", group := 4 }]
  groups :=
    [{ traits := [Trait.value, Trait.equality, Trait.ordinal, Trait.arithmeticOps] },
     { traits := [Trait.value, Trait.equality, Trait.booleanOps] },
     { traits := [Trait.sized] },
     {},
     { slots := [(dataSize, .number)] }]
  types := [("Context", .context)]
  pdus := []

/-- Whether a type is registered under a name. -/
def hasType (s : Store) (name : String) : Bool :=
  (s.types.lookup name).isSome

/-- The type under a name that has to be registered. -/
def getType (s : Store) (name : String) : Except Fault TypeRef :=
  match s.types.lookup name with
  | some t => .ok t
  | none => .error .requirement

/-- The type that is looked up under a name. -/
def lookUp (s : Store) (name : String) : Except Fault TypeRef :=
  match s.types.lookup name with
  | some t => .ok t
  | none => .error .notFound

/-- Whether a name is listed as that of a function. Functions are registered as types, so none is. -/
def hasFunction (_ : Store) (_ : String) : Bool :=
  false

/-- The signature of a registered function. -/
def getFunction (s : Store) (name : String) : Except Fault Signature := do
  let t ← s.lookUp name
  match s.signature? t with
  | some f => return f
  | none => throw .requirement

/-- Whether a type can be sent. -/
def isRepresentable (s : Store) (t : TypeRef) : Bool :=
  (s.entryOf t).any (·.form.isRepresentable)

/-- The name of the protocol. -/
def protocolName (s : Store) : String :=
  (s.name? .protocol).getD ""

end Store

/-- Registers a type under its name. -/
def addType (t : TypeRef) : Change Unit := do
  match ← read (·.name? t) with
  | none => fail .inapplicable
  | some name =>
    let taken ← read (·.hasType name)
    if taken then fail (.typing (.typeTwice name))
    update fun s => { s with types := s.types ++ [(name, t)] }

/-- Makes a registered type a packet. -/
def definePdu (name : String) : Change Unit := do
  let t ← ask (·.getType name)
  let representable ← read (·.isRepresentable t)
  if !representable then fail .requirement
  update fun s => { s with pdus := s.pdus ++ [name] }

/-- The name of a protocol that has none yet. -/
def unnamed : String :=
  "Protocol"

/-- Names the protocol, once. -/
def setProtocolName (name : String) : Change Unit := do
  let present ← read (·.protocolName)
  if present ≠ unnamed then fail (.typing .protocolNamed)
  update (·.modifyEntry .protocol fun e => { e with name := some name })

/-- The store of a new protocol. -/
def Store.initial : Store :=
  ((do
    let t ← makeBitString (some "DataUnit") (some dataSizeExpr)
    addType t : Change Unit) Store.foundation).2

/-- The signature of a function that takes one thing from another. -/
def conversion (name : String) (source : TypeRef) (wrapper : String) (target : TypeRef) :
    Change Signature := do
  let result ← makeOption (some wrapper) target
  let name ← ofExcept (checkName (.function [] .absent) (some name))
  return ⟨name, [⟨"from", source⟩], result⟩

/-- Gives a type the functions that parse and serialise it, where it has none. -/
def completeFunctions (t : TypeRef) (e : Entry) : Change Unit := do
  let name := lowered e.shownName
  if e.parseFrom.isNone then
    let unit ← ask (·.getType "DataUnit")
    let f ← conversion ("parse_to_" ++ name) unit "PTReturn" t
    update (·.modifyEntry t fun e => { e with parseFrom := some f })
  if e.serialiseTo.isNone then
    let unit ← ask (·.getType "DataUnit")
    let f ← conversion ("serialise_from_" ++ name) t "STReturn" unit
    update (·.modifyEntry t fun e => { e with serialiseTo := some f })

/-- The sum of the sizes of fields that have one, and the type of the one field that has none. -/
structure SizeSum where
  sum : Option Expr := none
  unsized : Option TypeRef := none

/-- Takes one more field into account. -/
def SizeSum.add (owner : String) (acc : SizeSum) (type : TypeRef) (size : Option Expr) :
    Except Fault SizeSum :=
  match size, acc.sum, acc.unsized with
  | some size, some sum, _ => do
    let sum ← addSizes sum size
    return { acc with sum := some sum }
  | some size, none, _ => .ok { acc with sum := some size }
  | none, _, none => .ok { acc with unsized := some type }
  | none, _, some _ => .error (.typing (.severalOpenFields owner))

/-- Adds up the sizes of fields. -/
def Store.sumSizes (s : Store) (owner : String) : SizeSum → List Field → Except Fault SizeSum
  | acc, [] => .ok acc
  | acc, f :: fs => do
    let size ← s.sizeOf f.type
    let acc ← acc.add owner f.type size
    sumSizes s owner acc fs

/-- Gives the one field of a structure that has no size what the other fields leave over. -/
def completeSizes (e : Entry) : Change Unit := do
  let total ← ask fun s => s.sumSizes e.shownName {} (s.members e).fields
  match total.unsized, total.sum with
  | some t, some sum => setSize t (some (.method dataSizeExpr "minus" [("other", sum)]))
  | _, _ => pure ()

/-- Completes one type. -/
def completeType (t : TypeRef) : Change Unit := do
  match ← read (·.entryOf t) with
  | none => pure ()
  | some e =>
    if e.form.isParsed then
      completeFunctions t e
      match e.form with
      | .struct => completeSizes e
      | _ => pure ()

/-- Completes all registered types in their order. -/
def synthesise : Change Unit := do
  let types ← read (·.types)
  each completeType (types.map (·.2))

end PacketDraft.Protocol
