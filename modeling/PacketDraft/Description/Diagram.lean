import PacketDraft.Description.Lexeme

/-!
# Packet diagrams

A diagram is a header, a ruler of `+-+-`, and rows closed by further rulers. Cells are closed by
`|`, `:`, `...` or `+`; a cell of `2w - 1` characters is `w` bits wide, and a cell that ends in `:` or
`...` has no fixed width.
-/

namespace PacketDraft.Description

open Grammar Grammar.Parser Text

/-- The width of a field in a diagram. -/
inductive Width where
  | bits (n : Int)
  | unfixed
  deriving DecidableEq, Repr

/-- A piece of a row: the text of a cell, what closes it, and its width in bits. -/
structure Cell where
  text : List Char
  closing : String
  width : Int
  deriving DecidableEq, Repr

/-- A field of a diagram: its width and its label. -/
abbrev DiagramField := Width × String

namespace Diagram

/-- A ruler after any blanks. -/
def ruler : Parser String := do
  blanks
  let text ← matched (do let _ ← many1 (lit "+-"); maybe (lit "+"))
  return String.ofList text

/-- One character of a row: not a `+` that starts a ruler. -/
def rowChar : Parser Char :=
  satisfy (· != '+') <|> do
    let c ← satisfy (· == '+')
    absent (lit "-")
    return c

/-- A row and the ruler below it. -/
def row : Parser (List Char) := do
  blanks
  let cs ← many1 rowChar
  let _ ← ruler
  return cs

/-- The rows of a diagram, without blanks around each. -/
def rows : Parser (List (List Char)) := do
  blanks
  let _ ← run1 (· != '+')
  let _ ← ruler
  let rs ← many row
  let _ ← remainder
  return rs.map strip

/-- A character that closes no cell. -/
def isCellChar (c : Char) : Bool :=
  !(['|', ':', '.', '+'].contains c)

/-- A cell and what closes it. -/
def cell : Parser Cell := do
  let text ← run isCellChar
  let closing ← lit "|" <|> lit ":" <|> lit "..." <|> lit "+"
  return ⟨trim (· == ' ') text, closing, (text.length + 1) / 2⟩

/-- The field that a cell of a single line stands for. -/
def fieldOfCell (c : Cell) : DiagramField :=
  (if c.closing = "..." then .unfixed else .bits c.width, String.ofList (strip c.text))

/-- A row of one line. -/
def oneLine : Parser (List DiagramField) := do
  blanks
  let _ ← lit "|" <|> lit ":"
  let cells ← many cell
  blanks
  return cells.map fieldOfCell

/-- The greatest of some widths. -/
def widest : List Int → Except Fault Int
  | [] => .error .badValue
  | w :: ws => .ok (ws.foldl max w)

/-- The one field that cells on several lines stand for. Its label is the text of all of them; its
width is the widest cell once for every line of the label. -/
def joinCells (cells : List Cell) : Except Fault DiagramField := do
  let text := [' '].intercalate ((cells.map (·.text)).filter (· ≠ []))
  let label := String.ofList (strip text)
  if cells.any fun c => c.closing = ":" || c.closing = "..." then
    return (.unfixed, label)
  else
    let w ← widest (cells.map (·.width))
    return (.bits (w * (text.count '\n' + 1)), label)

/-- A row of several lines that is a single field. -/
def severalLines : Parser (List DiagramField) := do
  blanks
  let _ ← lit "|" <|> lit ":" <|> lit "+"
  blanks
  let cells ← many cell
  blanks
  let field ← ofExcept (joinCells cells)
  return [field]

/-- Single lines one after the other. -/
def lineByLine : Parser (List (List DiagramField)) :=
  many1 oneLine

/-- Pieces of the same fields on several lines put together: widths are those of the first line, and
labels are joined downwards. -/
def stack : List (List DiagramField) → Except Fault (List DiagramField)
  | [] => .ok []
  | first :: below =>
    first.zipIdx.mapM fun ((width, label), j) => do
      let pieces ← below.mapM fun fields =>
        match fields[j]? with
        | some (_, piece) => pure piece
        | none => throw .outOfRange
      return (width, String.join (label :: pieces))

/-- The fields of a row. A row whose first line is one cell is one field, whatever its number of
lines; else each line holds a piece of every field. -/
def rowFields (text : List Char) : Except Fault (List DiagramField) :=
  match text.splitOn '\n' with
  | [] => .error .outOfRange
  | [line] => if line = [] then .error .outOfRange else oneLine.parse text
  | first :: rest =>
    match first.getLast? with
    | none => .error .outOfRange
    | some closing =>
      if first.count '|' = (if closing = '|' then 2 else 1) then severalLines.parse text
      else do
        let lines ← (first :: rest).mapM fun line => oneLine.parse line
        stack lines

/-- The fields of a diagram, row by row. -/
def fields (art : List Char) : Except Fault (List DiagramField) := do
  let rs ← rows.parse (strip art)
  let fs ← rs.mapM rowFields
  return fs.flatten

/-- Fields without the pieces that only draw the box: unlabelled ones of a counted width and labels
between two `+`. A label with a `:` makes its field variable. -/
def withoutFrames {ω : Type} (isCount : ω → Bool) (unfixed : ω) (fs : List (Option (ω × String))) :
    List (ω × String) :=
  (fs.filterMap id).filterMap fun (width, label) =>
    let (width, label) :=
      if label.toList.contains ':' then
        (unfixed, String.ofList (strip (label.toList.filter (· != ':'))))
      else (width, label)
    if label = "" && isCount width then none
    else if label.toList.head? = some '+' && label.toList.getLast? = some '+' then none
    else some (width, label)

end Diagram

end PacketDraft.Description
