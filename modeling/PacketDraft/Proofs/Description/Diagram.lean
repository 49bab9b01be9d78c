import PacketDraft.Description.Diagram
import PacketDraft.Proofs.Grammar.Reading
import PacketDraft.Proofs.Sequence
import PacketDraft.Proofs.Text.Blank

/-!
# Reading back packet diagrams

A diagram is drawn from a header, a ruler, and rows with a ruler below each. A row has one or more
lines; every cell is `2w - 1` characters wide on each of them and shows its label on one. The main
statement is `fields_drawn`: a drawn diagram gives back its cells with their widths in bits, and a
cell that is the whole of a row is as wide as all of its lines together.
-/

namespace PacketDraft.Description.Diagram

open Grammar Grammar.Parser Text List

/-! ## Drawings -/

/-- A cell of a row with a number of lines, one of which shows its label. -/
structure DrawnCell (lines : Nat) where
  width : Nat
  label : String
  /-- The line with the label. -/
  line : Fin lines
  /-- The number of blanks before the label. -/
  indent : Nat
  wide : 1 ≤ width
  fits : indent + label.toList.length ≤ 2 * width - 1
  stripped : Trimmed isBlank label.toList
  plain : ∀ c ∈ label.toList, c ∉ ['\n', '|', ':', '.', '+']

/-- A row of cells. -/
structure DrawnRow where
  lines : Nat
  cells : List (DrawnCell lines)
  nonempty : cells ≠ []

/-- A ruler: `+-` once or more often, and `+`. -/
def rulerText (more : Nat) : List Char :=
  (List.replicate (more + 1) ['+', '-']).flatten ++ ['+']

/-- A header, the length of the ruler below it, and rows, each with the length of its ruler. -/
structure Drawing where
  header : List Char
  top : Nat
  rows : List (DrawnRow × Nat)
  /-- Blanks behind the last ruler. -/
  ending : List Char
  headed : ∃ c ∈ header, isBlank c = false
  plain : '+' ∉ header
  blank : ∀ c ∈ ending, isBlank c = true

namespace DrawnCell

variable {lines : Nat} (c : DrawnCell lines)

/-- The part of the label on a line. -/
def piece (i : Nat) : List Char :=
  if i = c.line then c.label.toList else []

/-- What stands in a cell on a line. -/
def textAt (i : Nat) : List Char :=
  if i = c.line then
    List.replicate c.indent ' '
      ++ (c.label.toList ++ List.replicate (2 * c.width - 1 - c.indent - c.label.toList.length) ' ')
  else List.replicate (2 * c.width - 1) ' '

end DrawnCell

namespace DrawnRow

variable (r : DrawnRow)

/-- A line of a row: its cells, each closed by a bar, behind a first bar. -/
def lineText (i : Nat) : List Char :=
  '|' :: r.cells.flatMap fun c => c.textAt i ++ ['|']

/-- The lines of a row. -/
def text : List Char :=
  ['\n'].intercalate ((List.range r.lines).map r.lineText)

/-- The fields of a row. A cell that has a row to itself goes on from line to line. -/
def fields : List DiagramField :=
  match r.cells with
  | [c] => [(.bits (r.lines * c.width), c.label)]
  | cells => cells.map fun c => (.bits c.width, c.label)

end DrawnRow

/-- Rows with their rulers, each behind a newline. -/
def rowsText (rows : List (DrawnRow × Nat)) : List Char :=
  rows.flatMap fun row => '\n' :: (row.1.text ++ '\n' :: rulerText row.2)

/-- A drawing line by line. -/
def Drawing.text (d : Drawing) : List Char :=
  d.header ++ '\n' :: (rulerText d.top ++ (rowsText d.rows ++ d.ending))

/-! ## Cells -/

namespace DrawnCell

variable {lines : Nat} (c : DrawnCell lines)

theorem length_textAt (i : Nat) : (c.textAt i).length = 2 * c.width - 1 := by
  have fits := c.fits
  unfold textAt
  split
  · simp only [length_append, length_replicate]
    omega
  · exact length_replicate

/-- Blanks stand around the part of the label. -/
theorem textAt_eq (i : Nat) : ∃ before after,
    c.textAt i = List.replicate before ' ' ++ (c.piece i ++ List.replicate after ' ') := by
  unfold textAt piece
  split
  · exact ⟨_, _, rfl⟩
  · exact ⟨2 * c.width - 1, 0, by simp⟩

theorem trimmed_piece (i : Nat) : Trimmed isBlank (c.piece i) := by
  unfold piece
  split
  · exact c.stripped
  · exact ⟨by simp, by simp⟩

theorem plain_piece (i : Nat) : ∀ d ∈ c.piece i, d ∉ ['\n', '|', ':', '.', '+'] := by
  unfold piece
  split
  · exact c.plain
  · simp

theorem plain_textAt (i : Nat) : ∀ d ∈ c.textAt i, d ∉ ['\n', '|', ':', '.', '+'] := by
  obtain ⟨before, after, text⟩ := c.textAt_eq i
  rw [text]
  intro d mem
  rw [mem_append, mem_append] at mem
  rcases mem with left | label | right
  · rw [eq_of_mem_replicate left]
    decide
  · exact c.plain_piece i d label
  · rw [eq_of_mem_replicate right]
    decide

end DrawnCell

theorem isCellChar_of_not_mem {d : Char} (h : d ∉ ['\n', '|', ':', '.', '+']) :
    isCellChar d = true := by
  simp only [mem_cons, not_mem_nil, or_false, not_or] at h
  simp [isCellChar, h]

theorem mem_replicate_blank {n : Nat} : ∀ c ∈ List.replicate n ' ', (c == ' ') = true := by
  intro c mem
  rw [eq_of_mem_replicate mem]
  rfl

theorem trim_blanks {cs : List Char} (trimmed : Trimmed isBlank cs) (before after : Nat) :
    trim (· == ' ') (List.replicate before ' ' ++ (cs ++ List.replicate after ' ')) = cs := by
  refine trim_around mem_replicate_blank mem_replicate_blank (trimmed.mono fun c blank => ?_)
  rw [beq_iff_eq.mp blank]
  decide

/-- The cell that a text before a bar stands for. -/
def cellOf (text : List Char) : Cell :=
  ⟨trim (· == ' ') text, "|", (text.length + 1) / 2⟩

theorem cell_append {text : List Char} (chars : ∀ c ∈ text, isCellChar c = true)
    (rest : List Char) : cell (text ++ '|' :: rest) = .done (cellOf text) rest := by
  have body : run isCellChar (text ++ '|' :: rest) = .done text ('|' :: rest) :=
    run_append chars (forall_head_cons (by decide))
  have bar : lit "|" ('|' :: rest) = .done "|" rest := lit_of_eq rfl
  unfold cell
  rw [bind_done body, bind_done (orElse_done bar)]
  rfl

theorem cell_nil : cell [] = .unfit := by
  decide

/-- Texts with a bar behind each are read as cells one after the other. -/
theorem many_cell {texts : List (List Char)} (chars : ∀ t ∈ texts, ∀ c ∈ t, isCellChar c = true) :
    many cell (texts.flatMap (· ++ ['|'])) = .done (texts.map cellOf) [] := by
  refine many_of_steps ?_ cell_nil
  induction texts with
  | nil => exact .refl []
  | cons t texts ih =>
    have first := chars t mem_cons_self
    have more := ih fun u mem => chars u (mem_cons_of_mem t mem)
    rw [flatMap_cons, append_assoc, singleton_append, map_cons]
    refine .cons (cell_append first _) ?_ more
    rw [length_append, length_cons]
    omega

/-! ## Lines -/

namespace DrawnRow

variable (r : DrawnRow)

theorem chars_textAt (i : Nat) :
    ∀ t ∈ r.cells.map (·.textAt i), ∀ c ∈ t, isCellChar c = true := by
  intro t mem
  obtain ⟨c, -, rfl⟩ := mem_map.mp mem
  exact fun d letter => isCellChar_of_not_mem (c.plain_textAt i d letter)

end DrawnRow

namespace DrawnCell

variable {lines : Nat} (c : DrawnCell lines)

theorem trim_textAt (i : Nat) : trim (· == ' ') (c.textAt i) = c.piece i := by
  obtain ⟨before, after, text⟩ := c.textAt_eq i
  rw [text, trim_blanks (c.trimmed_piece i)]

theorem width_textAt (i : Nat) : (cellOf (c.textAt i)).width = c.width := by
  have wide := c.wide
  show ((c.textAt i).length + 1 : Int) / 2 = c.width
  rw [c.length_textAt]
  omega

theorem fieldOfCell_textAt (i : Nat) :
    fieldOfCell (cellOf (c.textAt i)) = (.bits c.width, String.ofList (c.piece i)) := by
  have label : strip (cellOf (c.textAt i)).text = c.piece i := by
    rw [cellOf, c.trim_textAt]
    exact trim_of_trimmed (c.trimmed_piece i)
  have closing : (cellOf (c.textAt i)).closing ≠ "..." := by
    simp [cellOf]
  rw [fieldOfCell, if_neg closing, c.width_textAt, label]

end DrawnCell

/-- A line is read cell by cell. -/
theorem oneLine_lineText (r : DrawnRow) (i : Nat) : oneLine.parse (r.lineText i)
    = .ok (r.cells.map fun c => (.bits c.width, String.ofList (c.piece i))) := by
  have start : blanks (r.lineText i) = .done () (r.lineText i) :=
    blanks_of_head (forall_head_cons (by decide))
  have bar : lit "|" (r.lineText i) = .done "|" (r.cells.flatMap fun c => c.textAt i ++ ['|']) :=
    lit_of_eq rfl
  have cells := many_cell (r.chars_textAt i)
  rw [flatMap_map] at cells
  have values : ((r.cells.map (·.textAt i)).map cellOf).map fieldOfCell
      = r.cells.map fun c => (.bits c.width, String.ofList (c.piece i)) := by
    rw [map_map, map_map]
    exact map_congr_left fun c _ => c.fieldOfCell_textAt i
  refine parse_done ?_
  unfold oneLine
  rw [bind_done start, bind_done (orElse_done bar), bind_done cells, bind_done (blanks_eq []),
    values]
  rfl

/-! ## A cell that has its row to itself -/

/-- The greatest width is the one that is among the widths and bounds all of them. -/
theorem widest_eq {w : Int} {ws : List Int} (mem : w ∈ ws) (le : ∀ x ∈ ws, x ≤ w) :
    widest ws = .ok w := by
  have fold : ∀ (ws : List Int) (x : Int), w = x ∨ w ∈ ws → x ≤ w → (∀ y ∈ ws, y ≤ w) →
      widest (x :: ws) = .ok w := by
    intro ws
    induction ws with
    | nil =>
      intro x attained _ _
      rcases attained with rfl | none
      · rfl
      · cases none
    | cons y ws ih =>
      intro x attained below bound
      have first := bound y mem_cons_self
      refine ih _ ?_ (by omega) fun z later => bound z (mem_cons_of_mem y later)
      rcases attained with rfl | attained
      · exact .inl (by omega)
      · rcases mem_cons.mp attained with rfl | later
        · exact .inl (by omega)
        · exact .inr later
  cases ws with
  | nil => cases mem
  | cons x ws =>
    exact fold ws x (mem_cons.mp mem) (le x mem_cons_self)
      fun y later => le y (mem_cons_of_mem x later)

/-- Only newlines in the pieces count, as the pieces have blanks between them. -/
theorem count_newline_intercalate (pieces : List (List Char)) :
    ([' '].intercalate pieces).count '\n' = pieces.flatten.count '\n' := by
  induction pieces with
  | nil => rfl
  | cons piece pieces ih =>
    cases pieces with
    | nil => simp
    | cons next pieces =>
      rw [intercalate_cons_cons, count_append, count_append, ih, flatten_cons,
        count_append]
      simp

/-- Pieces on lines of their own, with a piece for each newline between them. -/
def stacked : List (List Char) → List (List Char)
  | [] => []
  | first :: below => first :: below.flatMap fun piece => [['\n'], piece]

theorem filter_newlines (n : Nat) :
    ((List.replicate n []).flatMap fun piece => [['\n'], piece]).filter (· ≠ [])
      = List.replicate n ['\n'] := by
  induction n with
  | zero => rfl
  | succ n ih =>
    rw [replicate_succ, flatMap_cons, filter_append, ih, replicate_succ]
    rfl

/-- A label on one of several lines, without the empty pieces on the others. -/
theorem filter_stacked (above below : Nat) (label : List Char) :
    (stacked (List.replicate above [] ++ label :: List.replicate below [])).filter (· ≠ [])
      = List.replicate above ['\n']
        ++ ([label].filter (· ≠ []) ++ List.replicate below ['\n']) := by
  cases above with
  | zero =>
    rw [replicate_zero, nil_append, stacked, ← singleton_append, filter_append,
      filter_newlines]
    rfl
  | succ above =>
    have line : [['\n'], label].filter (· ≠ []) = ['\n'] :: [label].filter (· ≠ []) :=
      filter_cons_of_pos (by simp)
    rw [replicate_succ, cons_append, stacked, filter_cons_of_neg (by simp),
      flatMap_append, flatMap_cons, filter_append, filter_append,
      filter_newlines, filter_newlines, line, replicate_succ', append_assoc,
      singleton_append, cons_append]

/-- The text of a label on one of several lines, as it is joined. -/
def joined (above below : Nat) (label : List Char) : List Char :=
  [' '].intercalate
    ((stacked (List.replicate above [] ++ label :: List.replicate below [])).filter (· ≠ []))

theorem count_joined {label : List Char} (plain : '\n' ∉ label) (above below : Nat) :
    (joined above below label).count '\n' = above + below := by
  have own : ([label].filter (· ≠ [])).flatten.count '\n' = 0 := by
    by_cases empty : label = []
    · simp [empty]
    · simp [empty, count_eq_zero_of_not_mem plain]
  unfold joined
  rw [filter_stacked, count_newline_intercalate, flatten_append, flatten_append,
    count_append, count_append, own]
  simp

theorem isBlank_of_mem_newlines {n : Nat} {piece : List Char}
    (mem : piece ∈ List.replicate n ['\n']) : ∀ c ∈ piece, isBlank c = true := by
  rw [eq_of_mem_replicate mem]
  intro c letter
  rw [mem_singleton.mp letter]
  decide

theorem isBlank_of_mem_space {c : Char} (mem : c ∈ [' ']) : isBlank c = true := by
  rw [mem_singleton.mp mem]
  decide

theorem strip_joined {label : List Char} (trimmed : Trimmed isBlank label) (above below : Nat) :
    strip (joined above below label) = label := by
  unfold joined
  rw [filter_stacked]
  by_cases empty : label = []
  · subst empty
    have blank : ∀ c ∈ [' '].intercalate
        (List.replicate above ['\n'] ++ List.replicate below ['\n']), isBlank c = true := by
      intro c mem
      rcases mem_intercalate mem with gap | ⟨piece, listed, letter⟩
      · exact isBlank_of_mem_space gap
      · rcases mem_append.mp listed with before | after
        · exact isBlank_of_mem_newlines before c letter
        · exact isBlank_of_mem_newlines after c letter
    have nothing : strip (_ ++ ([] ++ [])) = [] := trim_around blank (by simp) trimmed
    rwa [append_nil, append_nil] at nothing
  · rw [filter_cons_of_pos (by simpa using empty), filter_nil, singleton_append,
      intercalate_append_cons]
    refine trim_around (fun c mem => ?_) (fun c mem => ?_) trimmed
    · obtain ⟨piece, listed, letter⟩ := mem_flatMap.mp mem
      rcases mem_append.mp letter with own | gap
      · exact isBlank_of_mem_newlines listed c own
      · exact isBlank_of_mem_space gap
    · obtain ⟨piece, listed, letter⟩ := mem_flatMap.mp mem
      rcases mem_append.mp letter with gap | own
      · exact isBlank_of_mem_space gap
      · exact isBlank_of_mem_newlines listed c own

theorem map_range_succ {α : Type} (f : Nat → α) (n : Nat) :
    (List.range (n + 1)).map f = f 0 :: (List.range n).map fun i => f (i + 1) := by
  rw [range_succ_eq_map, map_cons, map_map]
  rfl

/-- Values that differ from one another at a single place. -/
theorem map_range_single {α : Type} {f : Nat → α} {y : α} {a n : Nat} (lt : a < n)
    (other : ∀ i, i ≠ a → f i = y) :
    (List.range n).map f = List.replicate a y ++ f a :: List.replicate (n - 1 - a) y := by
  obtain ⟨b, rfl⟩ : ∃ b, n = a + (b + 1) := ⟨n - 1 - a, by omega⟩
  have before : (List.range a).map f = List.replicate a y := by
    refine eq_replicate_iff.mpr ⟨by simp, fun x mem => ?_⟩
    obtain ⟨i, listed, rfl⟩ := mem_map.mp mem
    exact other i (by have := mem_range.mp listed; omega)
  have after : (List.range b).map (fun i => f (a + (i + 1))) = List.replicate b y := by
    refine eq_replicate_iff.mpr ⟨by simp, fun x mem => ?_⟩
    obtain ⟨i, -, rfl⟩ := mem_map.mp mem
    exact other _ (by omega)
  have length : a + (b + 1) - 1 - a = b := by omega
  rw [range_add, map_append, before, map_map, map_range_succ, length, ← after]
  rfl

namespace DrawnCell

variable {lines : Nat} (c : DrawnCell lines)

theorem pieces_eq : (List.range lines).map c.piece
    = List.replicate c.line [] ++ c.label.toList :: List.replicate (lines - 1 - c.line) [] := by
  have shown : c.piece c.line = c.label.toList := if_pos rfl
  have hidden : ∀ i : Nat, i ≠ c.line → c.piece i = [] := fun i other => if_neg other
  rw [map_range_single c.line.isLt hidden, shown]

/-- What is left of a cell's text when blanks before it are passed over. -/
theorem trim_dropWhile_textAt (i : Nat) :
    trim (· == ' ') ((c.textAt i).dropWhile isBlank) = c.piece i := by
  obtain ⟨before, after, text⟩ := c.textAt_eq i
  have blank : ∀ {n : Nat}, ∀ d ∈ List.replicate n ' ', isBlank d = true := by
    intro n d mem
    rw [eq_of_mem_replicate mem]
    decide
  rw [text, dropWhile_append_of_pos blank]
  cases piece : c.piece i with
  | nil =>
    have none : (List.replicate after ' ' ++ []).dropWhile isBlank = [] :=
      dropWhile_append_of_pos blank
    rw [append_nil] at none
    rw [nil_append, none]
    rfl
  | cons d ds =>
    have trimmed : Trimmed isBlank (d :: ds) := piece ▸ c.trimmed_piece i
    have kept : (d :: ds ++ List.replicate after ' ').dropWhile isBlank
        = d :: ds ++ List.replicate after ' ' := dropWhile_of_head trimmed.first
    rw [kept]
    exact trim_blanks trimmed 0 after

end DrawnCell

/-- Bars and newlines between texts on lines of their own close cells. -/
theorem intercalate_barred {texts : List (List Char)} (nonempty : texts ≠ []) :
    ['\n'].intercalate (texts.map fun t => '|' :: (t ++ ['|']))
      = '|' :: (stacked texts).flatMap (· ++ ['|']) := by
  cases texts with
  | nil => exact absurd rfl nonempty
  | cons first below =>
    have line : ∀ t, [['\n'], t].flatMap (· ++ ['|']) = ['\n'] ++ '|' :: (t ++ ['|']) := by simp
    simp only [map_cons, intercalate_cons, stacked, flatMap_cons, flatMap_map,
      flatMap_assoc, line, cons_append]

theorem map_text_stacked (texts : List (List Char)) :
    ((stacked texts).map cellOf).map Cell.text = stacked (texts.map (trim (· == ' '))) := by
  have newline : (cellOf ['\n']).text = ['\n'] := by decide
  cases texts with
  | nil => rfl
  | cons first below =>
    simp only [stacked, map_cons, map_flatMap, map_nil, newline, flatMap_map]
    rfl

theorem mem_stacked {first t : List Char} {below : List (List Char)}
    (mem : t ∈ stacked (first :: below)) : t = first ∨ t = ['\n'] ∨ t ∈ below := by
  rcases mem_cons.mp mem with head | later
  · exact .inl head
  · obtain ⟨u, listed, pair⟩ := mem_flatMap.mp later
    rcases mem_cons.mp pair with newline | same
    · exact .inr (.inl newline)
    · exact .inr (.inr (mem_singleton.mp same ▸ listed))

namespace DrawnCell

variable {n : Nat} (c : DrawnCell (n + 2))

/-- The texts of a cell below its first line. -/
def below : List (List Char) :=
  (List.range (n + 1)).map fun i => c.textAt (i + 1)

theorem map_textAt : (List.range (n + 2)).map c.textAt = c.textAt 0 :: c.below :=
  map_range_succ c.textAt (n + 1)

/-- The first line of a cell may have lost blanks, the others give its width. -/
theorem widest_stacked {first : List Char} (short : first.length ≤ 2 * c.width - 1) :
    widest (((stacked (first :: c.below)).map cellOf).map Cell.width) = .ok c.width := by
  have wide := c.wide
  refine widest_eq ?_ fun x mem => ?_
  · have second : c.textAt 1 ∈ c.below := mem_map.mpr ⟨0, by simp, rfl⟩
    have inside : c.textAt 1 ∈ stacked (first :: c.below) :=
      mem_cons_of_mem first (mem_flatMap.mpr ⟨_, second, by simp⟩)
    rw [map_map]
    exact mem_map.mpr ⟨_, inside, c.width_textAt 1⟩
  · rw [map_map] at mem
    obtain ⟨t, inside, rfl⟩ := mem_map.mp mem
    rcases mem_stacked inside with rfl | rfl | later
    · show ((t.length + 1 : Int)) / 2 ≤ c.width
      omega
    · show (1 : Int) ≤ c.width
      omega
    · obtain ⟨i, -, rfl⟩ := mem_map.mp later
      exact Int.le_of_eq (c.width_textAt (i + 1))

theorem joinCells_stacked {first : List Char} (short : first.length ≤ 2 * c.width - 1)
    (shown : trim (· == ' ') first = c.piece 0) :
    joinCells ((stacked (first :: c.below)).map cellOf)
      = .ok (.bits (((n + 2 : Nat) : Int) * c.width), c.label) := by
  have line := c.line.isLt
  have pieces : (first :: c.below).map (trim (· == ' ')) = (List.range (n + 2)).map c.piece := by
    have later : c.below.map (trim (· == ' '))
        = (List.range (n + 1)).map fun i => c.piece (i + 1) := by
      rw [below, map_map]
      exact map_congr_left fun i _ => c.trim_textAt (i + 1)
    rw [map_cons, later, shown, ← map_range_succ c.piece]
  have text : [' '].intercalate
      ((((stacked (first :: c.below)).map cellOf).map Cell.text).filter (· ≠ []))
      = joined c.line (n + 1 - c.line) c.label.toList := by
    rw [map_text_stacked, pieces, c.pieces_eq]
    rfl
  have barred : ((stacked (first :: c.below)).map cellOf).any
      (fun c => c.closing = ":" || c.closing = "...") = false := by
    rw [any_map]
    exact any_eq_false.mpr fun t _ => by simp [cellOf]
  have newlines : (joined c.line (n + 1 - c.line) c.label.toList).count '\n' = n + 1 := by
    rw [count_joined fun mem => c.plain _ mem (by simp)]
    omega
  unfold joinCells
  rw [text, barred, c.widest_stacked short]
  simp only [strip_joined c.stripped, newlines, String.ofList_toList]
  rw [if_neg (by simp), Int.mul_comm]
  rfl

/-- A cell over several lines is read as one field. -/
theorem severalLines_stacked :
    severalLines.parse ('|' :: (stacked (c.textAt 0 :: c.below)).flatMap (· ++ ['|']))
      = .ok [(.bits (((n + 2 : Nat) : Int) * c.width), c.label)] := by
  have start (rest : List Char) : blanks ('|' :: rest) = .done () ('|' :: rest) :=
    blanks_of_head (forall_head_cons (by decide))
  have bar (rest : List Char) : lit "|" ('|' :: rest) = .done "|" rest := lit_of_eq rfl
  -- blanks before the label are lost when it stands on the first line
  have next : blanks ((stacked (c.textAt 0 :: c.below)).flatMap (· ++ ['|']))
      = .done () ((stacked ((c.textAt 0).dropWhile isBlank :: c.below)).flatMap (· ++ ['|'])) := by
    rw [blanks_eq, stacked, flatMap_cons, append_assoc, singleton_append,
      dropWhile_append_of_head (forall_head_cons (by decide)), stacked, flatMap_cons,
      append_assoc, singleton_append]
  have chars : ∀ t ∈ stacked ((c.textAt 0).dropWhile isBlank :: c.below), ∀ d ∈ t,
      isCellChar d = true := by
    intro t mem d letter
    rcases mem_stacked mem with rfl | rfl | later
    · have inside := (dropWhile_sublist isBlank).subset letter
      exact isCellChar_of_not_mem (c.plain_textAt 0 d inside)
    · rw [mem_singleton.mp letter]
      decide
    · obtain ⟨i, -, rfl⟩ := mem_map.mp later
      exact isCellChar_of_not_mem (c.plain_textAt (i + 1) d letter)
  have short : ((c.textAt 0).dropWhile isBlank).length ≤ 2 * c.width - 1 := by
    rw [← c.length_textAt 0]
    exact (dropWhile_sublist isBlank).length_le
  have field := c.joinCells_stacked short (c.trim_dropWhile_textAt 0)
  refine parse_done ?_
  unfold severalLines
  rw [bind_done (start _), bind_done (orElse_done (bar _)), bind_done next,
    bind_done (many_cell chars), bind_done (blanks_eq []), field]
  rfl

end DrawnCell

/-! ## Several cells on several lines -/

/-- The pieces of a label below each other are the label. -/
theorem DrawnCell.join_pieces {n : Nat} (c : DrawnCell (n + 1)) :
    String.join (String.ofList (c.piece 0)
      :: (List.range n).map fun i => String.ofList (c.piece (i + 1))) = c.label := by
  have texts : ((List.range (n + 1)).map fun i => String.ofList (c.piece i)).flatMap String.toList
      = ((List.range (n + 1)).map c.piece).flatten := by
    rw [flatMap_map, flatMap_def]
    simp only [String.toList_ofList]
  rw [← map_range_succ fun i => String.ofList (c.piece i), ← String.toList_inj,
    String.toList_join, texts, c.pieces_eq, flatten_append, flatten_cons,
    flatten_replicate_nil, flatten_replicate_nil, nil_append, append_nil]

/-- Lines put below each other give the fields with their whole labels. -/
theorem stack_lines {n : Nat} (cells : List (DrawnCell (n + 1))) :
    stack ((List.range (n + 1)).map fun i =>
      cells.map fun c => (Width.bits c.width, String.ofList (c.piece i)))
      = .ok (cells.map fun c => (.bits c.width, c.label)) := by
  have fields : cells.map (fun c => (Width.bits c.width, c.label))
      = cells.zipIdx.map fun p => (Width.bits p.1.width, p.1.label) := by
    calc cells.map (fun c => (Width.bits c.width, c.label))
        = (cells.zipIdx.map Prod.fst).map fun c => (Width.bits c.width, c.label) := by
          rw [zipIdx_map_fst]
      _ = cells.zipIdx.map fun p => (Width.bits p.1.width, p.1.label) := map_map
  rw [map_range_succ, stack, zipIdx_map, mapM_map, fields]
  refine mapM_ok fun p mem => ?_
  have place : cells[p.2]? = some p.1 := mem_zipIdx_iff_getElem?.mp mem
  simp only [Function.comp_apply, Prod.map, id_eq]
  rw [mapM_map, mapM_ok (g := fun i => String.ofList (p.1.piece (i + 1)))]
  · rw [← p.1.join_pieces]
    rfl
  · intro i _
    rw [Function.comp_apply, List.getElem?_map, place]
    rfl

/-! ## Rows -/

theorem rowFields_line {text line : List Char} (split : text.splitOn '\n' = [line])
    (nonempty : line ≠ []) : rowFields text = oneLine.parse text := by
  unfold rowFields
  rw [split]
  exact if_neg nonempty

theorem rowFields_lines {text first second : List Char} {lines rest : List (List Char)}
    (split : text.splitOn '\n' = lines) (several : lines = first :: second :: rest)
    (closed : first.getLast? = some '|') :
    rowFields text = if first.count '|' = 2 then severalLines.parse text
      else lines.mapM oneLine.parse >>= stack := by
  unfold rowFields
  rw [split, several]
  simp only [closed]
  rfl

namespace DrawnRow

variable (r : DrawnRow)

theorem plain_lineText {d : Char} (other : d ∈ ['\n', ':', '.', '+']) (i : Nat) :
    d ∉ r.lineText i := by
  intro mem
  rcases mem_cons.mp mem with rfl | inside
  · exact absurd other (by decide)
  · obtain ⟨c, -, closed⟩ := mem_flatMap.mp inside
    rcases mem_append.mp closed with letter | bar
    · refine c.plain_textAt i d letter ?_
      rcases mem_cons.mp other with rfl | other
      · exact mem_cons_self
      · exact mem_cons_of_mem _ (mem_cons_of_mem _ other)
    · rw [mem_singleton.mp bar] at other
      exact absurd other (by decide)

theorem count_lineText (i : Nat) : (r.lineText i).count '|' = r.cells.length + 1 := by
  have cell : ∀ c ∈ r.cells, (c.textAt i ++ ['|']).count '|' = 1 := by
    intro c _
    have none : (c.textAt i).count '|' = 0 :=
      count_eq_zero_of_not_mem fun mem => c.plain_textAt i _ mem (by simp)
    rw [count_append, none]
    rfl
  have counts : r.cells.map (List.count '|' ∘ fun c => c.textAt i ++ ['|'])
      = r.cells.map fun _ => 1 := map_congr_left cell
  unfold lineText
  rw [count_cons_self, count_flatMap, counts]
  simp

theorem getLast?_lineText (i : Nat) : (r.lineText i).getLast? = some '|' := by
  unfold lineText
  rw [List.getLast?_cons, List.getLast?_flatMap]
  simp only [List.getLast?_concat]
  cases r.cells.reverse with
  | nil => rfl
  | cons c cs => rfl

theorem lines_pos : 0 < r.lines := by
  obtain ⟨c, -⟩ := exists_mem_of_ne_nil r.cells r.nonempty
  exact Nat.lt_of_le_of_lt (Nat.zero_le _) c.line.isLt

theorem splitOn_text : r.text.splitOn '\n' = (List.range r.lines).map r.lineText := by
  have pos := r.lines_pos
  refine splitOn_intercalate '\n' (fun line mem => ?_) (by simp; omega)
  obtain ⟨i, -, rfl⟩ := mem_map.mp mem
  exact r.plain_lineText (by simp) i

/-- A row of one line has the width of each cell as it is drawn. -/
theorem fields_one (cells : List (DrawnCell 1)) (nonempty : cells ≠ []) :
    fields ⟨1, cells, nonempty⟩ = cells.map fun c => (.bits c.width, c.label) := by
  match cells with
  | [c] =>
    show [(Width.bits (1 * c.width), c.label)] = [(.bits c.width, c.label)]
    rw [Int.one_mul]
  | _ :: _ :: _ => rfl

theorem rowFields_one (cells : List (DrawnCell 1)) (nonempty : cells ≠ []) :
    rowFields (text ⟨1, cells, nonempty⟩) = .ok (fields ⟨1, cells, nonempty⟩) := by
  have shown : ∀ c ∈ cells,
      (Width.bits c.width, String.ofList (c.piece 0)) = (.bits c.width, c.label) := by
    intro c _
    have line : (0 : Nat) = c.line := by omega
    rw [DrawnCell.piece, if_pos line, String.ofList_toList]
  have line : text ⟨1, cells, nonempty⟩ = lineText ⟨1, cells, nonempty⟩ 0 :=
    intercalate_singleton
  rw [rowFields_line (splitOn_text _) (by simp [lineText]), line, oneLine_lineText, fields_one,
    map_congr_left shown]

theorem rowFields_several {n : Nat} (cells : List (DrawnCell (n + 2))) (nonempty : cells ≠ []) :
    rowFields (text ⟨n + 2, cells, nonempty⟩) = .ok (fields ⟨n + 2, cells, nonempty⟩) := by
  rw [rowFields_lines (splitOn_text _) ((map_range_succ _ _).trans (by rw [map_range_succ]))
    (getLast?_lineText _ 0), count_lineText]
  match cells with
  | [c] =>
    have line : ∀ i, lineText ⟨n + 2, [c], nonempty⟩ i = '|' :: (c.textAt i ++ ['|']) := by
      intro i
      exact congrArg ('|' :: ·) (flatMap_singleton ..)
    have whole : text ⟨n + 2, [c], nonempty⟩
        = '|' :: (stacked (c.textAt 0 :: c.below)).flatMap (· ++ ['|']) := by
      rw [← c.map_textAt, ← intercalate_barred (by simp), map_map]
      exact congrArg _ (map_congr_left fun i _ => line i)
    rw [if_pos (by simp), whole, c.severalLines_stacked]
    rfl
  | c :: d :: cells =>
    have lines : ((List.range (n + 2)).map (lineText ⟨n + 2, c :: d :: cells, nonempty⟩)).mapM
          oneLine.parse
        = .ok ((List.range (n + 2)).map fun i => (c :: d :: cells).map fun c =>
          (.bits c.width, String.ofList (c.piece i))) := by
      rw [mapM_map]
      exact mapM_ok fun i _ => oneLine_lineText _ i
    rw [if_neg (by simp), lines]
    exact stack_lines (c :: d :: cells)

/-- A row is read with all of its lines. -/
theorem rowFields_text : rowFields r.text = .ok r.fields := by
  have pos := r.lines_pos
  obtain ⟨lines, cells, nonempty⟩ := r
  match lines with
  | 1 => exact rowFields_one cells nonempty
  | n + 2 => exact rowFields_several cells nonempty

end DrawnRow

/-! ## Diagrams -/

namespace DrawnRow

variable (r : DrawnRow)

theorem head?_text : r.text.head? = some '|' := by
  obtain ⟨n, lines⟩ : ∃ n, r.lines = n + 1 := ⟨r.lines - 1, by have := r.lines_pos; omega⟩
  unfold text
  rw [lines, map_range_succ, intercalate_cons]
  rfl

theorem getLast?_text : r.text.getLast? = some '|' := by
  obtain ⟨n, lines⟩ : ∃ n, r.lines = n + 1 := ⟨r.lines - 1, by have := r.lines_pos; omega⟩
  unfold text
  rw [lines, range_succ, map_append, map_singleton, intercalate_append_cons,
    flatMap_nil, append_nil, List.getLast?_append, r.getLast?_lineText]
  rfl

theorem plain_text : ∀ c ∈ r.text, c ≠ '+' := by
  rintro c mem rfl
  rcases mem_intercalate mem with newline | ⟨line, listed, inside⟩
  · exact absurd newline (by decide)
  · obtain ⟨i, -, rfl⟩ := mem_map.mp listed
    exact r.plain_lineText (by simp) i inside

/-- The newline before a ruler is no part of the row above. -/
theorem strip_text : strip (r.text ++ ['\n']) = r.text := by
  have trimmed : Trimmed isBlank r.text := by
    constructor
    · rw [r.head?_text]
      rintro c ⟨⟩
      decide
    · rw [r.getLast?_text]
      rintro c ⟨⟩
      decide
  have newline : ∀ c ∈ ['\n'], isBlank c = true := by
    intro c mem
    rw [mem_singleton.mp mem]
    decide
  exact trim_append trimmed newline

end DrawnRow

theorem getLast?_rulerText (more : Nat) : (rulerText more).getLast? = some '+' :=
  List.getLast?_concat ..

theorem ruler_text (more : Nat) {rest : List Char} (stop : ∀ c ∈ rest.head?, c ≠ '-') :
    ruler (rulerText more ++ rest) = .done (String.ofList (rulerText more)) rest := by
  have dashes : ∀ n : Nat, Steps (lit "+-") ((List.replicate n ['+', '-']).flatten ++ '+' :: rest)
      (List.replicate n "+-") ('+' :: rest) := by
    intro n
    induction n with
    | zero => exact .refl _
    | succ n ih =>
      have first : lit "+-" ('+' :: '-' :: ((List.replicate n ['+', '-']).flatten ++ '+' :: rest))
          = .done "+-" ((List.replicate n ['+', '-']).flatten ++ '+' :: rest) := lit_of_eq rfl
      exact .cons first (by simp) ih
  have closing : lit "+-" ('+' :: rest) = .unfit := by
    refine lit_unfit fun tail same => ?_
    have dash : rest = '-' :: tail := (List.cons.inj same).2
    subst dash
    exact stop '-' rfl rfl
  have last : lit "+" ('+' :: rest) = .done "+" rest := lit_of_eq rfl
  have start : blanks (rulerText more ++ rest) = .done () (rulerText more ++ rest) :=
    blanks_of_head (forall_head_cons (by decide))
  have whole : (do let _ ← many1 (lit "+-"); maybe (lit "+")) (rulerText more ++ rest)
      = .done (some "+") rest := by
    have text : rulerText more ++ rest
        = (List.replicate (more + 1) ['+', '-']).flatten ++ '+' :: rest := by
      rw [rulerText, append_assoc, singleton_append]
    rw [text, bind_done (many1_of_steps (dashes (more + 1)) closing), maybe_done last]
  unfold ruler
  rw [bind_done start, bind_done (matched_append whole)]
  rfl

theorem steps_rowChar {cs : List Char} (plain : ∀ c ∈ cs, c ≠ '+') (rest : List Char) :
    Steps rowChar (cs ++ rest) cs rest := by
  induction cs with
  | nil => exact .refl rest
  | cons c cs ih =>
    have first : rowChar (c :: (cs ++ rest)) = .done c (cs ++ rest) :=
      orElse_done (satisfy_of (by simpa using plain c mem_cons_self) _)
    exact .cons first (by simp) (ih fun d later => plain d (mem_cons_of_mem c later))

theorem rowChar_ruler (rest : List Char) : rowChar ('+' :: '-' :: rest) = .unfit := by
  have plain : satisfy (· != '+') ('+' :: '-' :: rest) = .unfit :=
    satisfy_unfit (forall_head_cons (by decide))
  have plus : satisfy (· == '+') ('+' :: '-' :: rest) = .done '+' ('-' :: rest) :=
    satisfy_of (by decide) _
  have dash : absent (lit "-") ('-' :: rest) = .unfit := by
    have found : lit "-" ('-' :: rest) = .done "-" rest := lit_of_eq rfl
    simp only [absent, found]
  unfold rowChar
  rw [orElse_unfit plain, bind_done plus, bind_unfit dash]

theorem row_text (r : DrawnRow) (more : Nat) {rest : List Char}
    (stop : ∀ c ∈ rest.head?, c ≠ '-') :
    row ('\n' :: (r.text ++ '\n' :: (rulerText more ++ rest))) = .done (r.text ++ ['\n']) rest := by
  obtain ⟨cs, text⟩ := List.head?_eq_some_iff.mp r.head?_text
  have start : blanks ('\n' :: (r.text ++ '\n' :: (rulerText more ++ rest)))
      = .done () ((r.text ++ ['\n']) ++ (rulerText more ++ rest)) := by
    rw [blanks_eq, dropWhile_cons_of_pos (by decide), append_assoc, text,
      cons_append, dropWhile_cons_of_neg (by decide)]
    rfl
  have chars : ∀ c ∈ r.text ++ ['\n'], c ≠ '+' := by
    intro c mem
    rcases mem_append.mp mem with inside | newline
    · exact r.plain_text c inside
    · rw [mem_singleton.mp newline]
      decide
  have body : many1 rowChar ((r.text ++ ['\n']) ++ (rulerText more ++ rest))
      = .done (r.text ++ ['\n']) (rulerText more ++ rest) := by
    have steps := steps_rowChar chars (rulerText more ++ rest)
    rw [text] at steps ⊢
    exact many1_of_steps steps (rowChar_ruler _)
  unfold row
  rw [bind_done start, bind_done body, bind_done (ruler_text more stop)]
  rfl

theorem head?_rowsText (rows : List (DrawnRow × Nat)) : ∀ c ∈ (rowsText rows).head?, c ≠ '-' := by
  cases rows with
  | nil => simp [rowsText]
  | cons row rows => exact forall_head_cons (by decide)

theorem steps_row (rows : List (DrawnRow × Nat)) :
    Steps row (rowsText rows) (rows.map fun r => r.1.text ++ ['\n']) [] := by
  induction rows with
  | nil => exact .refl []
  | cons r rows ih =>
    have text : rowsText (r :: rows)
        = '\n' :: (r.1.text ++ '\n' :: (rulerText r.2 ++ rowsText rows)) := by
      rw [rowsText, flatMap_cons, cons_append, append_assoc, cons_append]
      rfl
    rw [text, map_cons]
    refine .cons (row_text r.1 r.2 (head?_rowsText rows)) ?_ ih
    simp only [length_cons, length_append]
    omega

namespace Drawing

variable (d : Drawing)

/-- A drawing without blanks around it. -/
def core : List Char :=
  d.header.dropWhile isBlank ++ '\n' :: (rulerText d.top ++ rowsText d.rows)

theorem text_eq : d.text = d.header.takeWhile isBlank ++ (d.core ++ d.ending) := by
  unfold text core
  rw [append_assoc, ← append_assoc (d.header.takeWhile isBlank),
    takeWhile_append_dropWhile, cons_append, append_assoc]

/-- The first character of a header that is not blank. -/
theorem dropWhile_header : ∃ c cs, d.header.dropWhile isBlank = c :: cs ∧ isBlank c = false := by
  cases visible : d.header.dropWhile isBlank with
  | nil =>
    obtain ⟨c, mem, other⟩ := d.headed
    rw [← takeWhile_append_dropWhile (p := isBlank) (l := d.header), visible,
      append_nil] at mem
    rw [all_eq_true.mp all_takeWhile c mem] at other
    cases other
  | cons c cs =>
    have first := List.head?_dropWhile_not isBlank d.header
    rw [visible] at first
    exact ⟨c, cs, rfl, first⟩

theorem trimmed_core : Trimmed isBlank d.core := by
  obtain ⟨c, cs, visible, first⟩ := d.dropWhile_header
  have last : d.core.getLast? = some '+' := by
    unfold core rowsText
    rw [List.getLast?_append, List.getLast?_cons, List.getLast?_append, List.getLast?_flatMap,
      getLast?_rulerText]
    cases d.rows.reverse with
    | nil => rfl
    | cons row rows =>
      rw [List.findSome?_cons, List.getLast?_cons, List.getLast?_append, List.getLast?_cons,
        getLast?_rulerText]
      rfl
  constructor
  · unfold core
    rw [visible]
    exact forall_head_cons first
  · rw [last]
    rintro c ⟨⟩
    decide

end Drawing

/-- The rows of a drawing are found between its rulers. -/
theorem rows_text (d : Drawing) :
    rows.parse (strip d.text) = .ok (d.rows.map fun r => r.1.text) := by
  have stripped : strip d.text = d.core := by
    rw [d.text_eq]
    exact trim_around (all_eq_true.mp all_takeWhile) d.blank d.trimmed_core
  have start : blanks d.core = .done () d.core := blanks_of_head d.trimmed_core.first
  have header : run1 (· != '+') d.core
      = .done (d.header.dropWhile isBlank ++ ['\n']) (rulerText d.top ++ rowsText d.rows) := by
    have text : d.core
        = (d.header.dropWhile isBlank ++ ['\n']) ++ (rulerText d.top ++ rowsText d.rows) := by
      rw [append_assoc]
      rfl
    rw [text]
    refine run1_append (by simp) (fun c mem => ?_) (forall_head_cons (by decide))
    rcases mem_append.mp mem with inside | newline
    · refine bne_iff_ne.mpr ?_
      rintro rfl
      exact d.plain ((dropWhile_sublist isBlank).subset inside)
    · rw [mem_singleton.mp newline]
      decide
  have top := ruler_text d.top (head?_rowsText d.rows)
  have rest := many_of_steps (steps_row d.rows) (by decide)
  have strips : (d.rows.map fun r => r.1.text ++ ['\n']).map strip
      = d.rows.map fun r => r.1.text := by
    rw [map_map]
    exact map_congr_left fun r _ => r.1.strip_text
  have none : remainder [] = .done [] [] := rfl
  rw [stripped, ← strips]
  refine parse_done ?_
  unfold rows
  rw [bind_done start, bind_done header, bind_done top, bind_done rest, bind_done none]
  rfl

/-- Each drawn cell is read back with its width and label, row by row. -/
theorem fields_drawn (d : Drawing) :
    fields d.text = .ok (d.rows.flatMap fun row => row.1.fields) := by
  have each : (d.rows.map fun r => r.1.text).mapM rowFields
      = .ok (d.rows.map fun r => r.1.fields) := by
    rw [mapM_map]
    exact mapM_ok fun row _ => row.1.rowFields_text
  unfold fields
  rw [rows_text, flatMap_def]
  simp only [bind, Except.bind, each]
  rfl

/-- A row of two cells, the first of them without a label, and a row of one cell on two lines. -/
example : ∃ d : Drawing, String.ofList d.text
      = " 0 1\n+-+-+\n| |T|\n+-+-+\n|   |\n|Tag|\n+-+-+\n" ∧
    (d.rows.flatMap fun row => row.1.fields) = [(.bits 1, ""), (.bits 1, "T"), (.bits 4, "Tag")] :=
  let blank : DrawnCell 1 :=
    { width := 1, label := "", line := 0, indent := 0, wide := by decide, fits := by decide
      stripped := ⟨by simp, by simp⟩, plain := by simp }
  let t : DrawnCell 1 :=
    { width := 1, label := "T", line := 0, indent := 0, wide := by decide, fits := by decide
      stripped := ⟨by simp; decide, by simp; decide⟩, plain := by simp }
  let tag : DrawnCell 2 :=
    { width := 2, label := "Tag", line := 1, indent := 0, wide := by decide, fits := by decide
      stripped := ⟨by simp; decide, by simp; decide⟩, plain := by simp }
  ⟨{ header := " 0 1".toList
     top := 1
     rows := [(⟨1, [blank, t], by decide⟩, 1), (⟨2, [tag], by decide⟩, 1)]
     ending := ['\n']
     headed := ⟨'0', by decide, by decide⟩
     plain := by decide
     blank := by simp; decide }, by decide⟩

end PacketDraft.Description.Diagram
