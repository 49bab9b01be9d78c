import PacketDraft.Description.Formula

/-!
# Declaration sentences

Sentences in running text that introduce a packet, list the variants of an enumeration, store a
value, define a function or name the protocol. Most may follow other words in the same paragraph.
-/

namespace PacketDraft.Description

open Grammar Grammar.Parser

namespace Sentence

/-- Words that come before the sentence: any words but the ones that start it. -/
def leadIn {α : Type} (starts : List String) (gap : Parser α) : Parser Unit := do
  let _ ← maybe (many1 (do
    let w ← word
    if starts.contains (String.ofList w) then never else
      let _ ← gap
      pure ()))
  return ()

/-- `An ` or `A ` at the start of a sentence, after any blanks. -/
def article : Parser String :=
  token "An " <|> token "A "

/-- `an ` or `a ` within a sentence, after any blanks. -/
def innerArticle : Parser String :=
  token "an " <|> token "a "

/-- Other words, then the article of a sentence. -/
def opening : Parser Unit := do
  leadIn ["An", "A"] (maybe (lit " "))
  let _ ← article
  return ()

/-- `A Name is formatted as follows`, then anything. -/
def preamble : Parser String := do
  leadIn ["An", "A"] blanks
  let _ ← article
  let name ← phrase
  let _ ← token "is"
  blanks
  let _ ← token "formatted"
  blanks
  let _ ← token "as"
  blanks
  let _ ← token "follows"
  let _ ← remainder
  return name

/-- `a First, a Second, or a Third`. -/
def variants : Parser (List String) := do
  let _ ← innerArticle
  let first ← phrase
  let rest ← many (do
    let _ ← lit ", "
    let _ ← maybe (lit "or ")
    let _ ← innerArticle
    phrase)
  return first :: rest

/-- `A Name is one of: a First, a Second, or a Third.` -/
def enumOfMany : Parser (String × List String) := do
  opening
  let name ← phrase
  let _ ← token "is one of: "
  let names ← variants
  let _ ← token "."
  return (name, names)

/-- `A Name is either a First or a Second.` -/
def enumOfTwo : Parser (String × List String) := do
  opening
  let name ← phrase
  let _ ← token "is either "
  let _ ← innerArticle
  let first ← phrase
  let _ ← lit "or "
  let _ ← innerArticle
  let second ← phrase
  let _ ← token "."
  return (name, [first, second])

/-- An enumeration and its variants. -/
def enumeration : Parser (String × List String) :=
  enumOfTwo <|> enumOfMany

/-- `On receipt, the value of formula is stored as Name.`, when the text ends that way. -/
def contextUse : Parser (Option (Formula × String)) := do
  leadIn ["On"] (maybe (lit " "))
  maybe (do
    let _ ← lit "On receipt, the value of "
    let formula ← Formula.formula
    let _ ← lit " is stored as "
    let name ← phrase
    let _ ← lit "."
    return (formula, name))

/-- `The name function is defined as:` -/
def functionIntroduction : Parser String := do
  leadIn ["The"] (maybe (lit " "))
  let _ ← lit "The "
  let name ← shortLabel
  let _ ← token "function is defined as:"
  return name

/-- `name: Type` -/
def parameter : Parser (String × String) := do
  let name ← shortLabel
  let _ ← lit ": "
  let type ← phrase
  return (name, type)

/-- Parameters between commas. -/
def parameters : Parser (List (String × String)) := do
  let first ← parameter
  let rest ← many (do let _ ← lit ","; blanks; parameter)
  return first :: rest

/-- Name, parameters and result of a function. -/
structure Signature where
  name : String
  parameters : List (String × String)
  result : String
  deriving DecidableEq, Repr

/-- `func name(first: Type, second: Type) -> Type`, then anything. -/
def signature : Parser Signature := do
  let _ ← lit "func "
  let name ← shortLabel
  let _ ← lit "("
  let params ← parameters
  let _ ← lit ")"
  blanks
  let _ ← lit "->"
  blanks
  let result ← phrase
  let _ ← remainder
  return ⟨name, params, result⟩

/-- Names between commas. -/
def commaList : Parser (List String) := do
  let first ← phrase
  let rest ← many (do let _ ← lit ", "; phrase)
  return first :: rest

/-- The function by which one type is made from another. -/
structure Conversion where
  source : String
  target : String
  function : String
  deriving DecidableEq, Repr

/-- `using the name function.`, then anything. -/
def usingClause : Parser String := do
  let _ ← lit "using the "
  let name ← shortLabel
  let _ ← lit " function."
  let _ ← remainder
  return name

/-- `A Source is serialised to a Target using the name function.` -/
def serialisation : Parser Conversion := do
  opening
  let source ← phrase
  let _ ← token "is serialised to "
  let _ ← innerArticle
  let target ← phrase
  let function ← usingClause
  return ⟨source, target, function⟩

/-- `A Target is parsed from a Source using the name function.` -/
def parsing : Parser Conversion := do
  opening
  let target ← phrase
  let _ ← token "is parsed from "
  let _ ← innerArticle
  let source ← phrase
  let function ← usingClause
  return ⟨source, target, function⟩

/-- Names between commas, each perhaps after `and `. -/
def packetList : Parser (List String) := do
  let first ← phrase
  let rest ← many (do
    let _ ← lit ","
    blanks
    let _ ← maybe (lit "and ")
    phrase)
  return first :: rest

/-- Words of a fixed text, each followed by any blanks. -/
def fixed : List String → Parser Unit
  | [] => pure ()
  | w :: ws => do
    let _ ← lit w
    blanks
    fixed ws

/-- `This document describes the Name protocol. The Name protocol uses First, and Second.` -/
def protocolDefinition : Parser (String × List String) := do
  leadIn ["The", "This"] blanks
  fixed ["This", "document", "describes", "the"]
  let name ← phrase
  blanks
  fixed ["protocol.", "The"]
  let _ ← phrase
  blanks
  fixed ["protocol", "uses"]
  let packets ← packetList
  let _ ← lit "."
  return (name, packets)

end Sentence

end PacketDraft.Description
