import PacketDraft.Render.Rust.Expr

/-!
# Rust source in the making

A sheet collects the source of a parser, chunk by chunk.
-/

namespace PacketDraft.Render.Rust

open Text Protocol

/-- The chunks written so far, and for parser functions the fields whose values they take beside
the input; the latest entry for a function counts. -/
structure Sheet where
  chunks : List String := []
  inputs : List (String × List String) := []
  deriving DecidableEq, Repr

/-- Something that writes on a sheet. -/
abbrev Writing (α : Type) : Type :=
  Attempt Sheet α

/-- Writes chunks. -/
def put (chunks : List String) : Writing Unit :=
  Attempt.update fun s => { s with chunks := s.chunks ++ chunks }

/-- Fails if a chunk is just this name. -/
def requireNew (name : String) : Writing Unit := do
  let taken ← Attempt.read (·.chunks.contains name)
  if taken then Attempt.fail .requirement

/-- Notes the fields that a parser function takes. -/
def noteInputs (function : String) (fields : List String) : Writing Unit :=
  Attempt.update fun s => { s with inputs := (function, fields) :: s.inputs }

/-- The name of a type in Rust: words without separators, each with a capital letter. -/
def camelCase (name : String) : String :=
  String.ofList
    ((titleCase (replaceChar '_' ' ' (replaceChar '-' ' ' name.toList))).filter (· != ' '))

/-- The name of a value in Rust: lower case, with low lines for blanks and hyphens. -/
def snakeCase (name : String) : String :=
  lowered (String.ofList (replaceChar '-' '_' (replaceChar ' ' '_' name.toList)))

/-- The least integer width that holds a number of bits; wider ones than 128 bits do not exist. -/
def integerWidth : Option Int → Nat
  | none => 8
  | some n => if n ≤ 8 then 8 else if n ≤ 16 then 16 else if n ≤ 32 then 32 else if n ≤ 64 then 64 else 128

/-- The name of a type that is made by a description; other types are called `nothing`. -/
def typeNameOf (s : Store) (t : TypeRef) : String :=
  match s.entryOf t with
  | some e => if e.form.isPrimitive then "nothing" else e.shownName
  | none => "nothing"

/-- The parameters of a parser function besides input and context. -/
def inputParameters (fields : List String) : String :=
  ", ".intercalate (fields.map (· ++ ": usize"))

/-- The result type of a parser function. -/
def parserResult (type : String) : String :=
  "(IResult<(&'a [u8], usize), " ++ type ++ ">, &'a mut Context)"

end PacketDraft.Render.Rust
