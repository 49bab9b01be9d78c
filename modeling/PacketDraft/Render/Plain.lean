import PacketDraft.Protocol.Registry
import PacketDraft.Protocol.Show

/-!
# Plain descriptions

A description lists the types of a protocol, one line for each type and further lines for fields,
constraints and actions.
-/

namespace PacketDraft.Render.Plain

open Protocol
open Text (quoted)

mutual

/-- The text of an expression. -/
def expr (s : Store) : Expr → Except Fault String
  | .const _ v => .ok v.asText
  | .self => .ok "Self"
  | .field target name => do
    let target ← expr s target
    return target ++ "." ++ name
  | .ctx name _ => .ok ("Context." ++ name)
  | .ifelse condition whenTrue whenFalse => do
    let condition ← expr s condition
    let whenTrue ← expr s whenTrue
    let whenFalse ← expr s whenFalse
    return "(" ++ condition ++ ") ? " ++ whenTrue ++ " : " ++ whenFalse
  | .arg name value => do
    let value ← expr s value
    return name ++ "=" ++ value
  | .method target name args => do
    let target ← expr s target
    let args ← arguments s args
    return target ++ "." ++ name ++ "(" ++ ",".intercalate args ++ ")"
  | .func function args => do
    let args ← arguments s args
    match s.name? function with
    | some name => return name ++ "([" ++ ", ".intercalate (args.map quoted) ++ "])"
    | none => throw .inapplicable

/-- The texts of arguments, each with its name. -/
def arguments (s : Store) : List (String × Expr) → Except Fault (List String)
  | [] => .ok []
  | (name, value) :: args => do
    let value ← expr s value
    let rest ← arguments s args
    return (name ++ "=" ++ value) :: rest

end

/-- A size, which may be missing. -/
def size (s : Store) : Option Expr → Except Fault String
  | some e => expr s e
  | none => .ok "None"

/-- A line for something that a type has. -/
def itemLine (kind text : String) : String :=
  "\t" ++ kind ++ " (" ++ text ++ ")"

/-- The line of a type. -/
def typeLine (s : Store) (t : TypeRef) (e : Entry) : String :=
  e.form.label ++ " (" ++ s.shown t ++ ")"

/-- The lines of a structure. -/
def structLines (s : Store) (t : TypeRef) (e : Entry) : Except Fault (List String) := do
  let ms := s.members e
  let constraints ← ms.constraints.mapM (expr s)
  return typeLine s t e
    :: ms.fields.map (fun f => itemLine "Field" f.name)
    ++ constraints.map (itemLine "Constraint")
    ++ ms.actions.map fun a => itemLine "Action" (s.shownExpr a)

/-- The lines of a context. -/
def contextLines (s : Store) (t : TypeRef) (e : Entry) : List String :=
  typeLine s t e :: (s.members e).slots.map fun (name, _) => itemLine "Field" name

/-- The lines of the protocol as a whole: its context, and its name. -/
def protocolLines (s : Store) (name : String) : List String :=
  (match s.entryOf .context with
    | some e => contextLines s .context e
    | none => [])
    ++ ["Protocol (" ++ name ++ ")\n"]

/-- The lines of a type. -/
def typeLines (s : Store) (t : TypeRef) : Except Fault (List String) :=
  match s.entryOf t with
  | none => .error .inapplicable
  | some e =>
    match e.form with
    | .bitString => do
      let size ← size s e.size
      return [typeLine s t e ++ " [size: " ++ size ++ " bits]"]
    | .struct => structLines s t e
    | .array _ _ | .enum _ | .function _ _ => .ok [typeLine s t e]
    | .context => .ok (contextLines s t e)
    | .protocol => .ok (protocolLines s e.shownName)
    | _ => .error .inapplicable

/-- A value that stands by itself. -/
def value (v : Literal) : String :=
  v.asText

/-- The files of a description. -/
def files (lines : List String) : List (String × String) :=
  [("description.txt", "\n".intercalate lines)]

end PacketDraft.Render.Plain
