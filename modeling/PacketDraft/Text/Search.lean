/-!
# Finding and replacing parts of a text

A part is searched from the left; occurrences do not overlap. An empty part occurs nowhere.
-/

namespace PacketDraft.Text

/-- What follows `part` at the start of a text. -/
def after? (part text : List Char) : Option (List Char) :=
  part.isPrefixOf? text

/-- The text before and after the first occurrence of a part. -/
def cut? (part : List Char) : List Char → Option (List Char × List Char)
  | [] => none
  | c :: cs =>
    if part = [] then none
    else match after? part (c :: cs) with
      | some rest => some ([], rest)
      | none => (cut? part cs).map fun (a, b) => (c :: a, b)

/-- Where a part first occurs. -/
def index? (part text : List Char) : Option Nat :=
  (cut? part text).map (·.1.length)

/-- Whether a part occurs. -/
def occursIn (part text : List Char) : Bool :=
  (cut? part text).isSome

/-- Replacement that stands `skip` characters inside an occurrence already replaced. -/
def replaceFrom (part new : List Char) : Nat → List Char → List Char
  | _, [] => []
  | skip + 1, _ :: cs => replaceFrom part new skip cs
  | 0, c :: cs =>
    if part ≠ [] ∧ (after? part (c :: cs)).isSome then new ++ replaceFrom part new (part.length - 1) cs
    else c :: replaceFrom part new 0 cs

/-- The text with every occurrence of `part` replaced. -/
def replace (part new text : List Char) : List Char :=
  replaceFrom part new 0 text

/-- `replace` on strings. -/
def replaced (part new text : String) : String :=
  String.ofList (replace part.toList new.toList text.toList)

/-- The text with one character put for another. -/
def replaceChar (old new : Char) (cs : List Char) : List Char :=
  cs.map fun c => if c = old then new else c

/-- Whether a text ends with a part. -/
def endsWith (part text : List Char) : Bool :=
  part.isSuffixOf text

end PacketDraft.Text
