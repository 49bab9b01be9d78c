import PacketDraft.Text.Search

/-!
# Markup tokens

A markup text is a sequence of tags, texts, comments and instructions. A reference to a character and a
literal section are text. Names are taken as they are written; what their prefixes stand for is settled
when the tree is put together.
-/

namespace PacketDraft.Markup

open Text (after? cut? occursIn)

/-- A tag, a text, or something that is neither. -/
inductive Token where
  | opening (name : String) (attributes : List (String × String)) (closed : Bool)
  | closing (name : String)
  /-- Text; `literal` if it is written as it is, without a reference or a section. -/
  | text (content : List Char) (literal : Bool)
  | comment (content : List Char)
  | instruction (content : List Char)
  /-- A declaration of the document's type. -/
  | declaration
  deriving DecidableEq, Repr

/-! ## Characters -/

/-- Whether a number lies in one of the ranges. -/
def inRanges (ranges : List (Nat × Nat)) (n : Nat) : Bool :=
  ranges.any fun (low, high) => low ≤ n && n ≤ high

/-- Characters that may stand in a markup text. -/
def isAllowed (c : Char) : Bool :=
  inRanges [(0x9, 0xA), (0xD, 0xD), (0x20, 0xD7FF), (0xE000, 0xFFFD), (0x10000, 0x10FFFF)] c.toNat

/-- White space between the parts of a tag. -/
def isSpace (c : Char) : Bool :=
  c = ' ' || c = '\t' || c = '\n' || c = '\r'

/-- Characters that a name may start with. -/
def startsName (c : Char) : Bool :=
  c = ':' || c = '_' || c.isAlpha ||
    inRanges [(0xC0, 0xD6), (0xD8, 0xF6), (0xF8, 0x2FF), (0x370, 0x37D), (0x37F, 0x1FFF),
      (0x200C, 0x200D), (0x2070, 0x218F), (0x2C00, 0x2FEF), (0x3001, 0xD7FF), (0xF900, 0xFDCF),
      (0xFDF0, 0xFFFD), (0x10000, 0xEFFFF)] c.toNat

/-- Characters that a name may go on with. -/
def continuesName (c : Char) : Bool :=
  startsName c || c = '-' || c = '.' || c.isDigit ||
    inRanges [(0xB7, 0xB7), (0x300, 0x36F), (0x203F, 0x2040)] c.toNat

/-- Without the white space at the start. -/
def skipSpace (cs : List Char) : List Char :=
  cs.dropWhile isSpace

/-- A name, and what follows it. -/
def name? : List Char → Option (List Char × List Char)
  | [] => none
  | c :: cs =>
    if startsName c then some (c :: cs.takeWhile continuesName, cs.dropWhile continuesName) else none

/-! ## References -/

/-- The value of a digit in a base of at most sixteen. -/
def digitIn? (base : Nat) (c : Char) : Option Nat :=
  let value :=
    if c.isDigit then some (c.toNat - '0'.toNat)
    else if 'a' ≤ c && c ≤ 'f' then some (c.toNat - 'a'.toNat + 10)
    else if 'A' ≤ c && c ≤ 'F' then some (c.toNat - 'A'.toNat + 10)
    else none
  value.filter (· < base)

/-- The number that digits stand for. -/
def numberIn? (base : Nat) (digits : List Char) : Option Nat :=
  if digits = [] then none
  else digits.foldl (fun n c => do return (← n) * base + (← digitIn? base c)) (some 0)

/-- The character of a number, if it may stand in a markup text. -/
def character? (n : Nat) : Option Char :=
  if n.isValidChar then some (Char.ofNat n) |>.filter isAllowed else none

/-- The characters that have names. -/
def namedCharacters : List (String × Char) :=
  [("lt", '<'), ("gt", '>'), ("amp", '&'), ("quot", Char.ofNat 0x22), ("apos", Char.ofNat 0x27)]

/-- What the inside of a reference stands for. -/
def referred? : List Char → Option Char
  | '#' :: 'x' :: digits => numberIn? 16 digits >>= character?
  | '#' :: digits => numberIn? 10 digits >>= character?
  | name => namedCharacters.lookup (String.ofList name)

/-- The character of a reference, read behind its ampersand, and what follows. -/
def reference? (cs : List Char) : Option (Char × List Char) := do
  let (inside, rest) ← cut? [';'] cs
  return (← referred? inside, rest)

/-! ## Tags -/

/-- The value of an attribute up to its quote, and what follows. White space becomes blanks; what a
reference stands for is taken as it is. -/
def value? (quote : Char) : Nat → List Char → Option (List Char × List Char)
  | 0, _ => none
  | _, [] => none
  | fuel + 1, c :: cs =>
    if c = quote then some ([], cs)
    else if c = '<' then none
    else if c = '&' then do
      let (referred, rest) ← reference? cs
      let (value, rest) ← value? quote fuel rest
      return (referred :: value, rest)
    else do
      let (value, rest) ← value? quote fuel cs
      return ((if isSpace c then ' ' else c) :: value, rest)

/-- An attribute, and what follows it. -/
def setting? (cs : List Char) : Option ((String × String) × List Char) := do
  let (name, rest) ← name? cs
  match skipSpace rest with
  | '=' :: rest =>
    match skipSpace rest with
    | quote :: rest =>
      if quote = Char.ofNat 0x22 || quote = Char.ofNat 0x27 then
        let (value, rest) ← value? quote (rest.length + 1) rest
        return ((String.ofList name, String.ofList value), rest)
      else none
    | [] => none
  | _ => none

/-- Attributes, each behind white space, and what follows the last one and the white space there. -/
def settings? : Nat → List Char → Option (List (String × String) × List Char)
  | 0, _ => none
  | fuel + 1, cs =>
    let rest := skipSpace cs
    match rest with
    | c :: _ =>
      if startsName c then
        if rest.length = cs.length then none
        else do
          let (first, rest) ← setting? rest
          let (others, rest) ← settings? fuel rest
          return (first :: others, rest)
      else some ([], rest)
    | [] => some ([], [])

/-- An opening tag behind its bracket. -/
def opening? (cs : List Char) : Option (Token × List Char) := do
  let (name, rest) ← name? cs
  let (attributes, rest) ← settings? (rest.length + 1) rest
  match rest with
  | '>' :: rest => return (.opening (String.ofList name) attributes false, rest)
  | '/' :: '>' :: rest => return (.opening (String.ofList name) attributes true, rest)
  | _ => none

/-- A closing tag behind its bracket and slash. -/
def closing? (cs : List Char) : Option (Token × List Char) := do
  let (name, rest) ← name? cs
  match skipSpace rest with
  | '>' :: rest => return (.closing (String.ofList name), rest)
  | _ => none

/-! ## Other tokens -/

/-- A comment behind its start. Two hyphens end it and have no other place in it. -/
def comment? (cs : List Char) : Option (Token × List Char) := do
  let (content, rest) ← cut? ['-', '-'] cs
  match rest with
  | '>' :: rest => return (.comment content, rest)
  | _ => none

/-- An instruction behind its start. Its name has no prefix, and one name is reserved. -/
def instruction? (cs : List Char) : Option (Token × List Char) := do
  let (name, rest) ← name? cs
  if name.contains ':' || name.map Char.toLower = ['x', 'm', 'l'] then none
  else
    let (content, after) ← cut? ['?', '>'] rest
    if content = [] || content.head?.any isSpace then return (.instruction (skipSpace content), after)
    else none

/-- The rest of a type declaration, which may hold quoted text. -/
def declaration? (quote : Option Char) : List Char → Option (List Char)
  | [] => none
  | c :: cs =>
    match quote with
    | some q => declaration? (if c = q then none else some q) cs
    | none =>
      if c = '>' then some cs
      else if c = '<' || c = '[' then none
      else declaration? (if c = Char.ofNat 0x22 || c = Char.ofNat 0x27 then some c else none) cs

/-- What starts with an opening bracket, read behind it. -/
def bracketed? (cs : List Char) : Option (Token × List Char) :=
  match cs with
  | '/' :: rest => closing? rest
  | '?' :: rest => instruction? rest
  | '!' :: rest =>
    match after? ['-', '-'] rest with
    | some rest => comment? rest
    | none =>
      match after? "[CDATA[".toList rest with
      | some rest => (cut? "]]>".toList rest).map fun (content, rest) => (.text content false, rest)
      | none =>
        match after? "DOCTYPE".toList rest with
        | some rest => (declaration? none rest).map fun rest => (.declaration, rest)
        | none => none
  | _ => opening? cs

/-- Whether a character ends plain text. -/
def endsText (c : Char) : Bool :=
  c = '<' || c = '&'

/-- The first token of a text that is not empty, and what follows. -/
def token? (c : Char) (cs : List Char) : Option (Token × List Char) :=
  if c = '<' then bracketed? cs
  else if c = '&' then (reference? cs).map fun (c, rest) => (.text [c] false, rest)
  else
    let run := c :: cs.takeWhile fun c => !endsText c
    if occursIn "]]>".toList run then none
    else some (.text run true, cs.dropWhile fun c => !endsText c)

/-- The tokens of a text, if it consists of tokens; there are no more of them than characters. -/
def tokensWithin : Nat → List Char → Option (List Token)
  | _, [] => some []
  | 0, _ => none
  | fuel + 1, c :: cs => do
    let (first, rest) ← token? c cs
    let others ← tokensWithin fuel rest
    return first :: others

/-- The tokens of a text whose characters are all allowed. -/
def tokens? (cs : List Char) : Option (List Token) :=
  if cs.all isAllowed then tokensWithin cs.length cs else none

end PacketDraft.Markup
