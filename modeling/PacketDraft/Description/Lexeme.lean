import PacketDraft.Grammar.Reply
import PacketDraft.Description.Name

/-!
# Words of a description

Character classes, words, numbers and phrases that name things. Only ASCII characters take part.
-/

namespace PacketDraft.Description

open Grammar Grammar.Parser Text

def isLower (c : Char) : Bool :=
  'a' ≤ c && c ≤ 'z'

def isUpper (c : Char) : Bool :=
  'A' ≤ c && c ≤ 'Z'

def isLetter (c : Char) : Bool :=
  isLower c || isUpper c

def isDigit (c : Char) : Bool :=
  '0' ≤ c && c ≤ '9'

/-- The visible ASCII characters that are neither letter nor digit. -/
def isPunctuation (c : Char) : Bool :=
  '!' ≤ c && c ≤ '~' && !isLetter c && !isDigit c

/-- The characters of running text. -/
def isVisible (c : Char) : Bool :=
  isLetter c || isPunctuation c || isDigit c

/-- The characters of a label. -/
def isLabelChar (c : Char) : Bool :=
  isLetter c || isDigit c || c == '_'

/-- The characters of a name in running text. -/
def isPhraseChar (c : Char) : Bool :=
  isLabelChar c || c == '-'

/-- The value of a digit string. -/
def digitsValue (ds : List Char) : Nat :=
  ds.foldl (fun n d => 10 * n + (d.toNat - '0'.toNat)) 0

/-- A decimal number. -/
def number : Parser Nat := do
  let ds ← run1 isDigit
  return digitsValue ds

/-- A word of running text, punctuation included. -/
def word : Parser (List Char) :=
  run1 isVisible

/-- One word of a label. -/
def labelWord : Parser (List Char) :=
  run1 isLabelChar

/-- A word of letters, digits, low lines and hyphens. -/
def hyphenated : Parser (List Char) :=
  run1 isPhraseChar

/-- An upper case letter, then lower case letters and punctuation. -/
def capitalised : Parser (List Char) := do
  let c ← satisfy isUpper
  let cs ← run fun c => isLower c || isPunctuation c
  return c :: cs

/-- Words that end a name. -/
def reserved : List String :=
  ["is", "protocol", "PDUs", "and", "or", "using"]

/-- One word of a name. -/
def phraseWord : Parser (List Char) := do
  let w ← hyphenated
  if reserved.contains (String.ofList w) then never else return w

/-- Words up to the next reserved one, with the blanks between and after them. -/
def phraseText : Parser (List Char) :=
  matched (many (do let _ ← phraseWord; blanks))

/-- A name in running text, made singular. -/
def phrase : Parser String := do
  let text ← phraseText
  let name ← ofExcept (stem (strip text))
  return String.ofList name

/-- A label of several words, each with at most one blank after it. -/
def label : Parser String := do
  let text ← matched (many (do let _ ← labelWord; maybe (lit " ")))
  return String.ofList (strip text)

/-- A label of one word. -/
def shortLabel : Parser String :=
  String.ofList <$> labelWord

/-- Label words with their blanks, joined by one more blank each. -/
def labelWords : Parser (List Char) := do
  let ws ← many (matched (do let _ ← labelWord; blanks))
  return [' '].intercalate ws

/-- Options between commas, the blanks within each squeezed. -/
def optionList : Parser (List String) := do
  let first ← labelWords
  let rest ← many (do let _ ← lit ","; blanks; labelWords)
  return (first :: rest).map fun o => String.ofList (squeeze o)

end PacketDraft.Description
