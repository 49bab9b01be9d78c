/-!
# Blanks

White space between words: which characters count, and how a text is trimmed and cut at them.
-/

namespace PacketDraft.Text

/-- Blanks are the Unicode white space characters and the four information separators. -/
def isBlank (c : Char) : Bool :=
  let n := c.toNat
  (9 ≤ n && n ≤ 13) || (28 ≤ n && n ≤ 32) || n == 0x85 || n == 0xa0 || n == 0x1680 ||
    (0x2000 ≤ n && n ≤ 0x200a) || n == 0x2028 || n == 0x2029 || n == 0x202f || n == 0x205f ||
    n == 0x3000

/-- The text without the characters of a class at either end. -/
def trim (p : Char → Bool) (cs : List Char) : List Char :=
  ((cs.dropWhile p).reverse.dropWhile p).reverse

/-- The text without blanks at either end. -/
def strip (cs : List Char) : List Char :=
  trim isBlank cs

/-- The words of a text: its longest parts without blanks. -/
def words (cs : List Char) : List (List Char) :=
  (cs.splitOnP isBlank).filter (· ≠ [])

/-- The number of blanks that a text starts with. -/
def indentation (cs : List Char) : Nat :=
  (cs.takeWhile isBlank).length

/-- The words of a text with one blank between neighbours. -/
def squeeze (cs : List Char) : List Char :=
  [' '].intercalate (words cs)

/-- `strip` on strings. -/
def stripped (s : String) : String :=
  String.ofList (strip s.toList)

end PacketDraft.Text
