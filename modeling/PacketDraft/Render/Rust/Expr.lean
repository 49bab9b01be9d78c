import PacketDraft.Protocol.Registry
import PacketDraft.Text.Integer
import PacketDraft.Text.Search

/-!
# Expressions in Rust

A size or a condition becomes a number or a piece of program text, in which `self(name)` refers to a
field of the structure that is parsed.
-/

namespace PacketDraft.Render.Rust

open Protocol Text

/-- What an expression becomes. -/
inductive Rendered where
  | absent
  | number (n : Int)
  | text (s : String)
  deriving DecidableEq, Repr

/-- A rendered expression within a larger one. -/
def Rendered.shown : Rendered → String
  | .absent => "None"
  | .number n => toString n
  | .text s => s

/-- The whole number that a constant stands for. -/
def wholeNumber : Literal → Except Fault Int
  | .int n => .ok n
  | .flag b => .ok (if b then 1 else 0)
  | .real x =>
    match x.truncate? with
    | some n => .ok n
    | none => .error .badValue
  | .text s =>
    match readInt? s.toList with
    | some n => .ok n
    | none => .error .badValue
  | .nothing => .error .wrongKind

/-- The operators of methods with one argument. -/
def binaryOperator? : String → Option String
  | "multiply" => some "*"
  | "divide" => some "/"
  | "minus" => some "-"
  | "ge" => some " >= "
  | "gt" => some " > "
  | "eq" => some " == "
  | "ne" => some " != "
  | "plus" => some " + "
  | "and" => some " && "
  | "or" => some " || "
  | _ => none

/-- The first argument of an operation. -/
def firstArgument : List Rendered → Except Fault String
  | a :: _ => .ok a.shown
  | [] => .error .outOfRange

/-- A method on a target. Methods without an operator come to nothing. -/
def operation (target : Rendered) (name : String) (args : List Rendered) :
    Except Fault Rendered :=
  match binaryOperator? name with
  | some op => do
    let arg ← firstArgument args
    return .text ("(" ++ target.shown ++ op ++ arg ++ ")")
  | none =>
    if name = "pow" then do
      let arg ← firstArgument args
      return .text ("(" ++ target.shown ++ ".pow(" ++ arg ++ "))")
    else if name = "to_number" then .ok (.text target.shown)
    else .ok (.text "")

mutual

/-- What an expression becomes. -/
def expr (s : Store) : Expr → Except Fault Rendered
  | .const t v =>
    if s.same t .number then do
      let n ← wholeNumber v
      return .number n
    else .ok (.text v.asText)
  | .self => .ok (.text "self")
  | .field target name => do
    let target ← expr s target
    if target = .text "self" then return .text ("self(" ++ name ++ ")") else return .absent
  | .ctx name _ => .ok (.text ("context." ++ name ++ " as usize"))
  | .ifelse condition whenTrue whenFalse => do
    let _ ← expr s condition
    let _ ← expr s whenTrue
    let _ ← expr s whenFalse
    return .text ""
  | .arg _ value => expr s value
  | .method target name args => do
    let target ← expr s target
    let args ← arguments s args
    operation target name args
  | .func function args => do
    let _ ← arguments s args
    if (s.name? function).isNone then throw .inapplicable
    return .text ""

/-- What arguments become; their names are left out. -/
def arguments (s : Store) : List (String × Expr) → Except Fault (List Rendered)
  | [] => .ok []
  | (_, value) :: args => do
    let value ← expr s value
    let rest ← arguments s args
    return value :: rest

end

/-- A value that stands by itself has no place in the source. -/
def value (_ : Literal) : String :=
  ""

/-- A size, which may be missing. -/
def size (s : Store) : Option Expr → Except Fault Rendered
  | some e => expr s e
  | none => .ok .absent

/-- A piece of rendered text: a character, or a reference to a field. -/
inductive Piece where
  | char (c : Char)
  | ref (name : List Char)
  deriving DecidableEq, Repr

/-- The reference at the start of a text, and what follows it. -/
def reference? (cs : List Char) : Option (List Char × List Char) := do
  let inside ← after? "self(".toList cs
  match inside.dropWhile isWordChar with
  | ')' :: rest => some (inside.takeWhile isWordChar, rest)
  | _ => none

/-- The pieces of a text that has at most `length` characters. -/
def piecesWithin : Nat → List Char → List Piece
  | 0, _ => []
  | _, [] => []
  | length + 1, c :: cs =>
    match reference? (c :: cs) with
    | some (name, rest) => .ref name :: piecesWithin length rest
    | none => .char c :: piecesWithin length cs

/-- The pieces of a text. -/
def pieces (text : String) : List Piece :=
  piecesWithin text.toList.length text.toList

/-- The fields that a text refers to, in order. -/
def references (text : String) : List String :=
  (pieces text).filterMap fun
    | .ref name => some (String.ofList name)
    | .char _ => none

/-- The text with every reference written as the name of the field and `suffix`. -/
def resolved (suffix text : String) : String :=
  String.ofList ((pieces text).flatMap fun
    | .ref name => name ++ suffix.toList
    | .char c => [c])

/-- The text within parentheses. -/
def unwrapped (text : String) : String :=
  if text.toList.head? = some '(' && text.toList.getLast? = some ')' then
    String.ofList text.toList.tail.dropLast
  else text

end PacketDraft.Render.Rust
