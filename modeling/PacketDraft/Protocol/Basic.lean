import PacketDraft.Protocol.Literal

/-!
# Types, expressions and the store

A protocol consists of types. Each type has a number in a store, under which it can be changed later:
traits are added to it, and a structure gains fields, constraints and actions.
-/

namespace PacketDraft.Protocol

/-- What can stand where a type is expected. -/
inductive TypeRef where
  /-- No type. -/
  | absent
  /-- A type variable of a trait. -/
  | var (name : String)
  /-- A type of the store. -/
  | id (n : Nat)
  deriving DecidableEq, Repr

/-- Expressions for sizes, constraints, conditions and actions. -/
inductive Expr where
  | const (type : TypeRef) (value : Literal)
  /-- The object that the expression is about. -/
  | self
  | field (target : Expr) (name : String)
  /-- A field of the context. -/
  | ctx (name : String) (context : TypeRef)
  | ifelse (condition whenTrue whenFalse : Expr)
  | arg (name : String) (value : Expr)
  | method (target : Expr) (name : String) (args : List (String × Expr))
  | func (function : TypeRef) (args : List (String × Expr))
  deriving Repr

instance : Inhabited Expr := ⟨.self⟩

/-- A named parameter of a function. -/
structure Parameter where
  name : String
  type : TypeRef
  deriving DecidableEq, Repr

/-- Name, parameters and result of a function or method. -/
structure Signature where
  name : String
  parameters : List Parameter
  result : TypeRef
  deriving DecidableEq, Repr

/-- A named group of methods. In them, type variables stand for types that are known where the trait
is implemented. -/
structure Trait where
  name : String
  methods : List Signature
  deriving DecidableEq, Repr

/-- The forms of types, with what is fixed when a type is made. -/
inductive Form where
  | number
  | boolean
  | nothing
  | bitString
  | option (reference : TypeRef)
  | array (element : TypeRef) (length : Option Expr)
  | struct
  | enum (variants : List TypeRef)
  | function (parameters : List Parameter) (result : TypeRef)
  | context
  | protocol
  deriving Repr

namespace Form

/-- How a form is called when a type is shown. -/
def label : Form → String
  | .number => "Number"
  | .boolean => "Boolean"
  | .nothing => "Nothing"
  | .bitString => "BitString"
  | .option _ => "Option"
  | .array _ _ => "Array"
  | .struct => "Struct"
  | .enum _ => "Enum"
  | .function _ _ => "Function"
  | .context => "Context"
  | .protocol => "Protocol"

/-- The types that are there from the start and cannot be changed. -/
def isPrimitive : Form → Bool
  | .number | .boolean | .nothing => true
  | _ => false

/-- The types of data that can be sent; they have a size or can get one. -/
def isRepresentable : Form → Bool
  | .nothing | .bitString | .option _ | .array _ _ | .struct | .enum _ => true
  | _ => false

/-- The types that functions parse and serialise. -/
def isParsed : Form → Bool
  | .array _ _ | .struct | .enum _ => true
  | _ => false

end Form

/-- A field of a structure. -/
structure Field where
  name : String
  type : TypeRef
  /-- Whether the field is there. -/
  presence : Expr
  deriving Repr

/-- What a type gains in the course of time. A type shares it with the types derived from it. -/
structure Members where
  traits : List Trait := []
  /-- The fields of a structure. -/
  fields : List Field := []
  /-- The fields of a context. -/
  slots : List (String × TypeRef) := []
  constraints : List Expr := []
  actions : List Expr := []
  deriving Repr

/-- A type of the store. -/
structure Entry where
  form : Form
  /-- Primitive types have no name of their own. -/
  name : Option String
  parent : TypeRef := .absent
  size : Option Expr := none
  methods : List (String × Signature) := []
  parseFrom : Option Signature := none
  serialiseTo : Option Signature := none
  /-- The number of its members in the store. -/
  group : Nat
  deriving Repr

/-- All types that were made, and those of them that are registered under their names. -/
structure Store where
  entries : List Entry
  groups : List Members
  types : List (String × TypeRef)
  /-- The names of the types that are packets. -/
  pdus : List String
  deriving Repr

/-- The types that every store starts with. -/
def TypeRef.number : TypeRef := .id 0
def TypeRef.boolean : TypeRef := .id 1
def TypeRef.nothing : TypeRef := .id 2
def TypeRef.protocol : TypeRef := .id 3
def TypeRef.context : TypeRef := .id 4
def TypeRef.dataUnit : TypeRef := .id 5

namespace Store

/-- The type under a reference. -/
def entryOf (s : Store) : TypeRef → Option Entry
  | .id n => s.entries[n]?
  | _ => none

/-- The members of a type. -/
def members (s : Store) (e : Entry) : Members :=
  (s.groups[e.group]?).getD {}

/-- The traits that a type implements. -/
def traits (s : Store) (t : TypeRef) : List Trait :=
  match s.entryOf t with
  | some e => (s.members e).traits
  | none => []

/-- The name of a type. -/
def name? (s : Store) : TypeRef → Option String
  | .absent => none
  | .var name => some name
  | .id n => (s.entries[n]?).bind (·.name)

end Store

/-- The name of a type as it is shown. -/
def Entry.shownName (e : Entry) : String :=
  e.name.getD "None"

end PacketDraft.Protocol
