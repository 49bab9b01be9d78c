import PacketDraft.Text.CaseTable

/-!
# Lower, title and upper case

A capital sigma at the end of a word becomes a final sigma when it is lowered; all other letters are
mapped one by one, some to several characters.
-/

namespace PacketDraft.Text

/-- The character at the place that the first fitting run gives, else the character itself. -/
def mapByRuns (runs : List CaseRun) (c : Char) : Char :=
  match runs.findSome? (·.image? c.toNat) with
  | some n => Char.ofNat n
  | none => c

/-- Letters that have a case. -/
def isCased (c : Char) : Bool :=
  inClass casedBounds c.toNat

/-- The lower case of one character, whatever stands around it. -/
def lowerChar (c : Char) : List Char :=
  if c.toNat = 0x130 then ['i', Char.ofNat 0x307] else [mapByRuns lowerRuns c]

/-- The title case of one character. -/
def titleChar (c : Char) : List Char :=
  match titleExpansions.lookup c.toNat with
  | some ns => ns.map Char.ofNat
  | none => [mapByRuns titleRuns c]

/-- The upper case of a character of a title case. -/
def capitalChar (c : Char) : List Char :=
  match iotaRuns.findSome? (·.image? c.toNat) with
  | some n => [Char.ofNat n, Char.ofNat 921]
  | none => [mapByRuns (capitalRuns ++ titleRuns) c]

/-- The upper case of one character. -/
def upperChar (c : Char) : List Char :=
  (titleChar c).flatMap capitalChar

/-- Characters that count neither as a part of a word nor as its end. -/
def isCaseIgnorable (c : Char) : Bool :=
  inClass ignorableBounds c.toNat

/-- Whether a text meets a letter with a case, ignorable characters passed over. -/
def meetsCased (cs : List Char) : Bool :=
  (cs.dropWhile isCaseIgnorable).head?.any isCased

/-- The lower case of a character in its place. The characters before it are given from the nearest
one backwards. -/
def lowerBetween (before : List Char) (c : Char) (after : List Char) : List Char :=
  if c.toNat = 0x3a3 then
    let endsWord := meetsCased before && !meetsCased after
    [Char.ofNat (if endsWord then 0x3c2 else 0x3c3)]
  else lowerChar c

/-- Lower case from some point of a text on, given the characters before it, backwards. -/
def lowerFrom (before : List Char) : List Char → List Char
  | [] => []
  | c :: cs => lowerBetween before c cs ++ lowerFrom (c :: before) cs

/-- The text in lower case. -/
def lower (cs : List Char) : List Char :=
  lowerFrom [] cs

/-- Title case from some point of a text on: a letter after a letter is lowered, every other one
gets its title case. The characters before the point are given backwards. -/
def titleFrom (before : List Char) : List Char → List Char
  | [] => []
  | c :: cs =>
    (if before.head?.any isCased then lowerBetween before c cs else titleChar c)
      ++ titleFrom (c :: before) cs

/-- The text with every first letter of a run of letters in title case and all others lowered. -/
def titleCase (cs : List Char) : List Char :=
  titleFrom [] cs

/-- The text with its first character in title case and all others lowered. -/
def capitalize : List Char → List Char
  | [] => []
  | c :: cs => titleChar c ++ lowerFrom [c] cs

/-- The text in upper case, letter by letter. -/
def upper (cs : List Char) : List Char :=
  cs.flatMap upperChar

/-- `lower` on strings. -/
def lowered (s : String) : String :=
  String.ofList (lower s.toList)

/-- Digits in the widest sense: superscripts and circled digits count. -/
def isDigitLike (c : Char) : Bool :=
  inClass digitBounds c.toNat

/-- Digits of the decimal systems. -/
def isDecimal (c : Char) : Bool :=
  inClass decimalBounds c.toNat

/-- Characters of a word in program text: letters, numerals and the low line. -/
def isWordChar (c : Char) : Bool :=
  c == '_' || inClass alphanumericBounds c.toNat

end PacketDraft.Text
