import PacketDraft.Protocol.Basic

/-!
# Questions about types

Equality of types and expressions, methods that a type has or inherits, and the arguments that a
function accepts.
-/

namespace PacketDraft.Protocol

open Text (quoted)

namespace Store

/-- A type as it is shown in messages. -/
def shown (s : Store) : TypeRef → String
  | .absent => "None"
  | .var name => "TypeVariable(name=" ++ quoted name ++ ")"
  | .id n =>
    match s.entries[n]? with
    | some e =>
      let traits := " ".intercalate ((s.members e).traits.map (·.name))
      e.form.label ++ "<" ++ e.name.getD "" ++ "::" ++ traits ++ ">"
    | none => "None"

/-- Whether two lists have the same length and agree place by place. -/
def allAgree {α : Type} (agree : α → α → Bool) (xs ys : List α) : Bool :=
  xs.length = ys.length && (xs.zip ys).all fun (x, y) => agree x y

/-- Whether two types are the same. Functions are the same when their signatures are; `depth` bounds
how deep functions nest in signatures. -/
def sameWithin (s : Store) : Nat → TypeRef → TypeRef → Bool
  | depth + 1, .id m, .id n =>
    m = n ||
      match s.entries[m]?, s.entries[n]? with
      | some ⟨.function ps r, name, _, _, _, _, _, _⟩, some ⟨.function qs t, name', _, _, _, _, _, _⟩ =>
        name = name'
          && allAgree (fun (p q : Parameter) => p.name = q.name && sameWithin s depth p.type q.type)
            ps qs
          && sameWithin s depth r t
      | _, _ => false
  | _, a, b => a = b

/-- Whether two types are the same. The signature of a function mentions only older types. -/
def same (s : Store) (a b : TypeRef) : Bool :=
  s.sameWithin s.entries.length a b

/-- Whether two signatures are the same. -/
def sameSignature (s : Store) (a b : Signature) : Bool :=
  a.name = b.name
    && allAgree (fun (p q : Parameter) => p.name = q.name && s.same p.type q.type)
      a.parameters b.parameters
    && s.same a.result b.result

/-- Whether two traits are the same. -/
def sameTrait (s : Store) (a b : Trait) : Bool :=
  a.name = b.name && allAgree s.sameSignature a.methods b.methods

mutual

/-- Whether two expressions are the same. -/
def sameExpr (s : Store) : Expr → Expr → Bool
  | .const t v, .const u w => s.same t u && v.equals w
  | .self, .self => true
  | .field a m, .field b n => sameExpr s a b && m = n
  | .ctx m c, .ctx n d => s.same c d && m = n
  | .ifelse a b c, .ifelse a' b' c' => sameExpr s a a' && sameExpr s b b' && sameExpr s c c'
  | .arg m a, .arg n b => m = n && sameExpr s a b
  | .method a m xs, .method b n ys => sameExpr s a b && m = n && sameArgs s xs ys
  | .func f xs, .func g ys => s.same f g && sameArgs s xs ys
  | _, _ => false

/-- Whether two lists of arguments are the same. -/
def sameArgs (s : Store) : List (String × Expr) → List (String × Expr) → Bool
  | [], [] => true
  | (m, a) :: xs, (n, b) :: ys => m = n && sameExpr s a b && sameArgs s xs ys
  | _, _ => false

end

/-- The types that a type descends from, nearest first; `depth` bounds their number. -/
def ancestorsWithin (s : Store) : Nat → TypeRef → Except Fault (List TypeRef)
  | 0, _ => .ok []
  | depth + 1, t =>
    match s.entryOf t with
    | none => .error .inapplicable
    | some e =>
      match e.parent with
      | .absent => .ok []
      | parent => do
        let rest ← ancestorsWithin s depth parent
        return parent :: rest

/-- Whether a type descends from another. -/
def isA (s : Store) (t other : TypeRef) : Except Fault Bool := do
  let ancestors ← s.ancestorsWithin (s.entries.length + 1) t
  return ancestors.any (s.same · other)

/-- The method that a type has or inherits; `depth` bounds the number of types that are asked. -/
def methodWithin (s : Store) (name : String) : Nat → TypeRef → Except Fault (Option Signature)
  | 0, _ => .ok none
  | depth + 1, t =>
    match s.entryOf t with
    | none => .error .inapplicable
    | some e =>
      match e.methods.lookup name, e.parent with
      | some m, _ => .ok (some m)
      | none, .absent => .ok none
      | none, parent => methodWithin s name depth parent

/-- The method of a type. -/
def getMethod (s : Store) (t : TypeRef) (name : String) : Except Fault Signature := do
  match ← s.methodWithin name (s.entries.length + 1) t with
  | some m => return m
  | none => throw (.typing (.noMethod (s.shown t) name))

/-- Whether a function accepts arguments of these types. Surplus parameters and surplus arguments are
not looked at. -/
def accepts (s : Store) (function : String) :
    List Parameter → List (String × TypeRef) → Except Fault Bool
  | [], _ => .ok true
  | _, [] => .ok true
  | p :: ps, (name, t) :: args =>
    match p.type, t with
    | .var _, _ => .error (.typing (.parameterOpen function))
    | _, .var _ => if p.name = name then accepts s function ps args else .ok false
    | _, _ => do
      if p.name ≠ name then return false
      if s.same p.type t then accepts s function ps args
      else if ← s.isA t p.type then accepts s function ps args
      else return false

end Store

/-- Whether a function is a method. -/
def Signature.isMethod (f : Signature) : Except Fault Bool :=
  match f.parameters with
  | [] => .error .outOfRange
  | p :: _ => .ok (p.name = "self")

namespace Store

/-- Whether a function is a method that accepts arguments of these types on an object of a type. -/
def methodAccepts (s : Store) (f : Signature) (self : TypeRef) (args : List (String × TypeRef)) :
    Except Fault Bool := do
  if ← f.isMethod then s.accepts f.name f.parameters (("self", self) :: args)
  else return false

/-- The signature of a type that is a function. -/
def signature? (s : Store) (t : TypeRef) : Option Signature :=
  match s.entryOf t with
  | some e =>
    match e.form with
    | .function parameters result => some ⟨e.shownName, parameters, result⟩
    | _ => none
  | none => none

/-- The type of a field of a structure or a context. -/
def fieldType (s : Store) (t : TypeRef) (name : String) : Except Fault TypeRef :=
  match s.entryOf t with
  | none => .error .inapplicable
  | some e =>
    let found :=
      match e.form with
      | .struct => some (((s.members e).fields.find? (·.name = name)).map (·.type))
      | .context => some ((s.members e).slots.lookup name)
      | _ => none
    match found with
    | none => .error .inapplicable
    | some none => .error (.typing (.noField e.shownName name))
    | some (some type) => .ok type

/-- The signature of a type that has to be a function. -/
def neededSignature (s : Store) (t : TypeRef) : Except Fault Signature :=
  match s.signature? t with
  | some f => .ok f
  | none => .error .inapplicable

/-- The names of the fields of a structure or a context. -/
def fieldNames (s : Store) (t : TypeRef) : Except Fault (List String) :=
  match s.entryOf t with
  | none => .error .inapplicable
  | some e =>
    match e.form with
    | .struct => .ok ((s.members e).fields.map (·.name))
    | .context => .ok ((s.members e).slots.map (·.1))
    | _ => .error .inapplicable

/-- Whether a type is a structure. -/
def isStruct (s : Store) (t : TypeRef) : Bool :=
  match s.entryOf t with
  | some ⟨.struct, _, _, _, _, _, _, _⟩ => true
  | _ => false

end Store

end PacketDraft.Protocol
