import PacketDraft.Fault
import PacketDraft.Text.Blank
import PacketDraft.Text.Case
import PacketDraft.Text.Search

/-!
# Names

Descriptions use phrases as names. Here phrases become singular, and turn into the names of fields
and types.
-/

namespace PacketDraft.Description

open Text

/-- A phrase without one final `s`. -/
def stem (phrase : List Char) : Except Fault (List Char) :=
  match phrase.getLast? with
  | none => .error .outOfRange
  | some 's' => .ok phrase.dropLast
  | some _ => .ok phrase

/-- The field name of a label: lower case, with low lines for blanks. -/
def fieldName (label : String) : String :=
  String.ofList (replaceChar ' ' '_' (lower label.toList))

/-- The letters of a type name: the words of a phrase joined by low lines, the first letter in title
case and all others lowered, hyphens as low lines. -/
def typeLetters (phrase : List Char) : List Char :=
  replaceChar '-' '_' (replaceChar ' ' '_' (capitalize (squeeze phrase)))

/-- The type name of a phrase; a phrase that starts with a digit gets a `T` in front. -/
def typeName (phrase : String) : Except Fault String :=
  match phrase.toList with
  | [] => .error .outOfRange
  | c :: cs =>
    .ok (String.ofList (typeLetters (if isDigitLike c then 'T' :: c :: cs else c :: cs)))

end PacketDraft.Description
