import PacketDraft.Text.Blank

/-!
# Pages

A memo is printed on pages of 56 lines, with a running header and a footer. Here the pages are taken
off and repeated blank lines with them.
-/

namespace PacketDraft.Memo

open Text

/-- The number of lines on a page. -/
def pageLength : Nat :=
  56

/-- The place on its page at which a paragraph may run on over the break. -/
def lastBodyPlace : Nat :=
  52

/-- Whether the lines around a page break, given the last place before it, are indented alike. -/
def continuesAt (lines : List String) (i : Nat) : Bool :=
  match lines[i - 1]?, lines[i + 8]? with
  | some before, some next => indentation before.toList == indentation next.toList
  | _, _ => false

/-- Whether a line belongs to the body of its page. -/
def isBody (lines : List String) (i : Nat) : Bool :=
  let place := i % pageLength
  if place = lastBodyPlace then !continuesAt lines i else 3 ≤ place && place < lastBodyPlace

/-- The body lines of all pages. -/
def withoutPageBreaks (lines : List String) : List String :=
  lines.zipIdx.filterMap fun (line, i) => if isBody lines i then some line else none

/-- The line that holds nothing. -/
def emptyLine : String :=
  "\n"

/-- The lines without empty ones that follow an empty one, given whether the line before is empty. -/
def squeezeAfter (emptyBefore : Bool) : List String → List String
  | [] => []
  | line :: lines =>
    if line = emptyLine then
      if emptyBefore then squeezeAfter true lines else line :: squeezeAfter true lines
    else line :: squeezeAfter false lines

/-- The lines without empty ones at the start and without repeated empty ones. -/
def squeezeEmptyLines (lines : List String) : List String :=
  squeezeAfter true lines

/-- The text of a memo without its pages. -/
def bodyText (lines : List String) : String :=
  String.join (squeezeEmptyLines (withoutPageBreaks lines))

end PacketDraft.Memo
