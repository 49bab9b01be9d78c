/-!
# Valid names

Names of types begin with an upper case letter, those of functions, methods and fields with a lower
case letter. At least one letter, digit, dollar sign or low line follows, and perhaps a newline.
-/

namespace PacketDraft.Protocol

/-- The characters that follow the first one of a name. -/
def isNameChar (c : Char) : Bool :=
  ('A' ≤ c && c ≤ 'Z') || ('a' ≤ c && c ≤ 'z') || ('0' ≤ c && c ≤ '9') || c == '$' || c == '_'

/-- A text without one final newline. -/
def dropFinalNewline (cs : List Char) : List Char :=
  if cs.getLast? = some '\n' then cs.dropLast else cs

/-- Whether a text is a name whose first character is of a class. -/
def isNameFrom (first : Char → Bool) : List Char → Bool
  | [] => false
  | c :: cs =>
    let rest := dropFinalNewline cs
    first c && !rest.isEmpty && rest.all isNameChar

/-- Whether a text is the name of a type. -/
def isTypeName (name : String) : Bool :=
  isNameFrom (fun c => 'A' ≤ c && c ≤ 'Z') name.toList

/-- Whether a text is the name of a function, a method or a field. -/
def isMemberName (name : String) : Bool :=
  isNameFrom (fun c => 'a' ≤ c && c ≤ 'z') name.toList

end PacketDraft.Protocol
