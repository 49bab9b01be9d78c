import PacketDraft.Protocol.Change
import PacketDraft.Protocol.Trait
import PacketDraft.Protocol.Typing

/-!
# Making and extending types

Types are made with the traits that belong to their form. Later they can implement further traits,
and structures and contexts gain fields.
-/

namespace PacketDraft.Protocol

open Attempt

/-- The type that a type variable stands for. -/
def resolve (vars : List (String × TypeRef)) : TypeRef → Except Fault TypeRef
  | .var name =>
    match vars.lookup name with
    | some t => .ok t
    | none => .error .notFound
  | t => .ok t

/-- The valid name of a type of a form. -/
def checkName (form : Form) : Option String → Except Fault String
  | none => .error (.typing .unnamedType)
  | some name =>
    let valid := match form with
      | .function _ _ => isMemberName name
      | _ => isTypeName name
    if valid then .ok name else .error (.typing (.malformedType name))

/-- A method with all its type variables replaced. It is made as a function, under a valid name. -/
def Signature.instantiate (vars : List (String × TypeRef)) (m : Signature) :
    Except Fault Signature := do
  let result ← resolve vars m.result
  let parameters ← m.parameters.mapM fun p => do
    let type ← resolve vars p.type
    return { p with type }
  let name ← checkName (.function parameters result) m.name
  return { name, parameters, result }

/-- Adds one method of a trait to a type. -/
def implementMethod (t : TypeRef) (vars : List (String × TypeRef)) (m : Signature) :
    Change Unit := do
  let taken ← read fun s => (s.entryOf t).any fun e => (e.methods.lookup m.name).isSome
  if taken then
    let shown ← read (·.shown t)
    fail (.typing (.methodTwice shown m.name))
  let method ← ofExcept (m.instantiate vars)
  update (·.modifyEntry t fun e => { e with methods := e.methods ++ [(m.name, method)] })

/-- Adds the methods of a trait to a type, and then the trait. In the methods `T` stands for the type
itself unless `vars` says otherwise. Methods that were added before a fault stay. -/
def implementTrait (t : TypeRef) (trait : Trait) (vars : List (String × TypeRef)) :
    Change Unit := do
  match ← read (·.entryOf t) with
  | none => fail .inapplicable
  | some e =>
    if e.form.isPrimitive then fail (.typing (.primitiveTrait trait.name))
    let present ← read fun s => (s.traits t).any (s.sameTrait · trait)
    if present then
      let shown ← read (·.shown t)
      fail (.typing (.traitTwice shown trait.name))
    each (implementMethod t (vars ++ [("T", t)])) trait.methods
    update (·.modifyMembers t fun ms => { ms with traits := ms.traits ++ [trait] })

/-- Makes a type without traits. -/
def makeType (form : Form) (name : Option String) (size : Option Expr) : Change TypeRef := do
  let name ← ofExcept (checkName form name)
  let n ← read (·.entries.length)
  update (·.push form name size)
  return .id n

/-- The size of a representable type. -/
def Store.sizeOf (s : Store) (t : TypeRef) : Except Fault (Option Expr) :=
  match s.entryOf t with
  | some e => if e.form.isRepresentable then .ok e.size else .error .inapplicable
  | none => .error .inapplicable

/-- Gives a type a size. -/
def setSize (t : TypeRef) (size : Option Expr) : Change Unit :=
  update (·.modifyEntry t fun e => { e with size })

def makeBitString (name : Option String) (size : Option Expr) : Change TypeRef := do
  let t ← makeType .bitString name size
  implementTrait t Trait.sized []
  implementTrait t Trait.value []
  implementTrait t Trait.equality []
  implementTrait t Trait.numberRepresentable []
  return t

/-- An optional value is as long as the value. -/
def makeOption (name : Option String) (reference : TypeRef) : Change TypeRef := do
  let size ← ask (·.sizeOf reference)
  let t ← makeType (.option reference) name size
  implementTrait t Trait.sized []
  return t

/-- An array of sized elements with a length is as long as its elements. -/
def makeArray (name : Option String) (element : TypeRef) (length size : Option Expr) :
    Change TypeRef := do
  let t ← makeType (.array element length) name none
  implementTrait t Trait.sized []
  implementTrait t Trait.equality []
  implementTrait t Trait.indexCollection [("ET", element)]
  setSize t size
  match length with
  | none => return t
  | some length =>
    match ← ask (·.sizeOf element) with
    | none => return t
    | some elementSize =>
      setSize t (some (.method elementSize "mul" [("other", length)]))
      return t

/-- A size that is known. -/
def constantSize (value : Literal) : Expr :=
  .const .number value

/-- Two sizes added up; constants are added at once. -/
def addSizes (a b : Expr) : Except Fault Expr :=
  match a, b with
  | .const _ x, .const _ y => do
    let sum ← x.add y
    return constantSize sum
  | a, b => .ok (.method a "plus" [("other", b)])

/-- A field with a valid name. It is always there if nothing else is said. -/
def makeField (name : String) (type : TypeRef) (presence : Option Expr) : Except Fault Field :=
  if isMemberName name then
    .ok ⟨name, type, presence.getD (.const .boolean (.flag true))⟩
  else .error (.typing (.malformedField name))

/-- Adds a field to a structure. Its size counts if it has one. -/
def addStructField (t : TypeRef) (e : Entry) (field : Field) : Change Unit := do
  let fields ← read fun s => (s.members e).fields
  if fields.any (·.name = field.name) then
    fail (.typing (.structFieldTwice e.shownName field.name))
  let fieldSize ← ask (·.sizeOf field.type)
  match e.size, fieldSize with
  | some size, some fieldSize =>
    let sum ← ofExcept (addSizes size fieldSize)
    setSize t (some sum)
  | _, _ => pure ()
  update (·.modifyMembers t fun ms => { ms with fields := ms.fields ++ [field] })

/-- Adds a field to a context. -/
def addSlot (t : TypeRef) (name : String) (type : TypeRef) : Change Unit := do
  match ← read (·.entryOf t) with
  | some e =>
    match e.form with
    | .context =>
      let slots ← read fun s => (s.members e).slots
      if (slots.lookup name).isSome then
        fail (.typing (.contextFieldTwice e.shownName name))
      update (·.modifyMembers t fun ms => { ms with slots := ms.slots ++ [(name, type)] })
    | _ => fail .inapplicable
  | none => fail .inapplicable

/-- Adds a field to a structure or a context. -/
def addField (t : TypeRef) (field : Field) : Change Unit := do
  match ← read (·.entryOf t) with
  | some e =>
    match e.form with
    | .struct => addStructField t e field
    | .context => addSlot t field.name field.type
    | _ => fail .inapplicable
  | none => fail .inapplicable

/-- Adds to a structure an expression of a type that is asked for. -/
def addTyped (wanted : TypeRef) (refuse : String → TypeFault)
    (add : Expr → Members → Members) (t : TypeRef) (e : Expr) : Change Unit := do
  let isStruct ← read (·.isStruct t)
  if !isStruct then fail .inapplicable
  let result ← ask (·.resultType t e)
  let fits ← read (·.same result wanted)
  if !fits then
    let shown ← read (·.shown result)
    fail (.typing (refuse shown))
  update (·.modifyMembers t (add e))

/-- Adds a constraint to a structure. -/
def addConstraint : TypeRef → Expr → Change Unit :=
  addTyped .boolean .notConstraint fun e ms => { ms with constraints := ms.constraints ++ [e] }

/-- Adds an action to a structure. -/
def addAction : TypeRef → Expr → Change Unit :=
  addTyped .nothing .notAction fun e ms => { ms with actions := ms.actions ++ [e] }

def makeStruct (name : Option String) (fields : List Field) (constraints actions : List Expr) :
    Change TypeRef := do
  let t ← makeType .struct name none
  implementTrait t Trait.sized []
  setSize t (some (constantSize (.int 0)))
  each (addField t) fields
  each (addConstraint t) constraints
  each (addAction t) actions
  implementTrait t Trait.equality []
  return t

def makeEnum (name : Option String) (variants : List TypeRef) : Change TypeRef := do
  let t ← makeType (.enum variants) name none
  implementTrait t Trait.sized []
  return t

def makeFunction (name : Option String) (parameters : List Parameter) (result : TypeRef) :
    Change TypeRef :=
  makeType (.function parameters result) name none

def makeContext (name : Option String) : Change TypeRef :=
  makeType .context name none

/-- Makes a type like another one under a name of its own, with further traits. It has its own methods
and shares the members with the other type. -/
def derive (source : TypeRef) (name : String) (traits : List Trait) : Change TypeRef := do
  match ← read (·.entryOf source) with
  | none => fail .inapplicable
  | some e =>
    if e.form.isPrimitive then fail .inapplicable
    let n ← read (·.entries.length)
    update (·.pushSharing { e with name := some name })
    each (fun trait => implementTrait (.id n) trait []) traits
    return .id n

/-- Makes a type the child of another. -/
def setParent (t parent : TypeRef) : Change Unit := do
  match ← read (·.entryOf t) with
  | none => fail .inapplicable
  | some _ => update (·.modifyEntry t fun e => { e with parent })

end PacketDraft.Protocol
