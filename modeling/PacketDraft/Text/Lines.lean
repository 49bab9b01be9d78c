/-!
# Lines

Ways to cut a text into lines: after each newline, with or without the line ends of other systems
counted as newlines, and at every character that ends a line, which is then dropped.
-/

namespace PacketDraft.Text

/-- Lines end with the character that ends them; a rest without one is a last line. -/
def linesBy (isEnd : Char → Bool) : List Char → List (List Char)
  | [] => []
  | c :: cs =>
    if isEnd c then [c] :: linesBy isEnd cs
    else match linesBy isEnd cs with
      | [] => [[c]]
      | l :: ls => (c :: l) :: ls

/-- Lines that keep their newline. -/
def linesKeeping (cs : List Char) : List (List Char) :=
  linesBy (· == '\n') cs

/-- Carriage returns, with or without a newline, become newlines. -/
def plainNewlines : List Char → List Char
  | [] => []
  | '\r' :: '\n' :: cs => '\n' :: plainNewlines cs
  | '\r' :: cs => '\n' :: plainNewlines cs
  | c :: cs => c :: plainNewlines cs

/-- Characters that end a line: line feed, vertical tab, form feed, carriage return, the file, group
and record separators, next line, and the line and paragraph separators. -/
def endsLine (c : Char) : Bool :=
  let n := c.toNat
  (10 ≤ n && n ≤ 13) || (28 ≤ n && n ≤ 30) || n == 0x85 || n == 0x2028 || n == 0x2029

/-- Lines without their ends; a carriage return and the newline after it are one end. -/
def linesDropping (cs : List Char) : List (List Char) :=
  (linesBy endsLine (plainNewlines cs)).map (·.filter fun c => !endsLine c)

end PacketDraft.Text
