import PacketDraft.Memo.Grammar
import PacketDraft.Proofs.Description.Lexeme
import PacketDraft.Proofs.Memo.Outline

/-!
# Reading back numbered sections

A section is written as a heading with a dotted number and a title, an empty line, and paragraphs
with an empty line behind each. The main statement is `middle_written`: sections that start at depth
1 and go down by one level at a time are read as trees with these sections in pre-order, each with
its title and its paragraphs as they stand.
-/

namespace PacketDraft.Memo

open Grammar Grammar.Parser Document Text List
open Description (isLower isUpper isLetter isPunctuation isVisible isDigit digitsValue
  number number_unfit isLabelChar isBlank_of_isLabelChar)

variable {c : Char} {rest : List Char}

/-! ## Sections in writing -/

/-- Characters of a class with blanks between and behind them. -/
structure SpacedText (p : Char → Bool) where
  first : Char
  rest : List Char
  starts : p first = true
  spaced : ∀ c ∈ rest, p c = true ∨ c = ' '

def SpacedText.text {p : Char → Bool} (t : SpacedText p) : List Char :=
  t.first :: t.rest

/-- A line of text behind three blanks or more. -/
structure WrittenLine where
  /-- The number of blanks beyond three. -/
  indent : Nat
  words : SpacedText isVisible

def WrittenLine.text (l : WrittenLine) : List Char :=
  ' ' :: ' ' :: ' ' :: (List.replicate l.indent ' ' ++ (l.words.text ++ ['\n']))

/-- Lines of text, the first of which starts with a letter. -/
structure WrittenParagraph where
  first : WrittenLine
  more : List WrittenLine
  letter : isLetter first.words.first = true

namespace WrittenParagraph

def text (p : WrittenParagraph) : List Char :=
  (p.first :: p.more).flatMap WrittenLine.text

/-- The text as it stands, with its blanks and newlines. -/
def element (p : WrittenParagraph) : Element :=
  .node .t [("content", .many [.text (some (String.ofList p.text))])]
    [("anchor", .absent), ("hangText", .absent), ("keepWithNext", .absent),
      ("keepWithPrevious", .absent)]

end WrittenParagraph

/-- A dotted number, a title, and paragraphs. -/
structure WrittenSection where
  numbers : List (List Char)
  /-- The number of blanks before the title. -/
  gap : Nat
  title : SpacedText isWordChar
  paragraphs : List WrittenParagraph
  numbered : numbers ≠ []
  digits : ∀ ds ∈ numbers, ds ≠ [] ∧ ∀ c ∈ ds, isDigit c = true

namespace WrittenSection

variable (s : WrittenSection)

/-- A section is as deep as its number is long. -/
def depth : Int :=
  s.numbers.length

/-- The heading behind its number, with the end of its line. -/
def titleLine : List Char :=
  List.replicate s.gap ' ' ++ (s.title.text ++ ['\n'])

def text : List Char :=
  (s.numbers.flatMap (· ++ ['.'])) ++ (s.titleLine
    ++ '\n' :: s.paragraphs.flatMap fun p => p.text ++ ['\n'])

/-- A section with its title and paragraphs, and sections in it. -/
def element (inner : List Element) : Element :=
  .node .section
    [("name", .one (.node .name [("content", .many [.text (some (String.ofList s.title.text))])] [])),
      ("content", .many (s.paragraphs.map WrittenParagraph.element)), ("sections", .many inner)]
    [("anchor", .absent), ("numbered", .flag true), ("removeInRFC", .flag false),
      ("title", .absent), ("toc", .text "default")]

end WrittenSection

/-- Sections that start at depth 1 and go down by one level at a time. -/
structure WrittenMiddle where
  sections : List WrittenSection
  top : sections.head?.map WrittenSection.depth = some 1
  steps : Stepwise (sections.map WrittenSection.depth)

def WrittenMiddle.text (m : WrittenMiddle) : List Char :=
  m.sections.flatMap WrittenSection.text

/-! ## Characters -/

theorem isVisible_range (visible : isVisible c = true) : 33 ≤ c.toNat ∧ c.toNat ≤ 126 := by
  simp only [isVisible, isPunctuation, isLetter, isLower, isUpper, isDigit, Bool.or_eq_true,
    Bool.and_eq_true, decide_eq_true_eq, Char.le_def, UInt32.le_iff_toNat_le] at visible
  have code : c.toNat = c.val.toNat := rfl
  simp only [code]
  simp at visible
  omega

theorem ne_of_isVisible {d : Char} (visible : isVisible c = true) (other : isVisible d = false) :
    c ≠ d := by
  rintro rfl
  rw [visible] at other
  cases other

theorem isVisible_of_isWordChar (word : isWordChar c = true) : isVisible c = true := by
  unfold isVisible
  unfold isWordChar at word
  rw [word]
  rfl

theorem isDigit_of_isWordChar (word : isWordChar c = true) : isDigit c = false := by
  cases digit : isDigit c with
  | false => rfl
  | true =>
    simp only [isWordChar, isPunctuation, isLetter, isLower, isUpper, isDigit,
      Bool.or_eq_true, Bool.and_eq_true, decide_eq_true_eq, Char.le_def,
      UInt32.le_iff_toNat_le] at word digit
    simp at word digit
    omega

theorem isBlank_of_isVisible (visible : isVisible c = true) : isBlank c = false := by
  have range := isVisible_range visible
  simp only [isBlank]
  simp
  omega

/-! ## Lines -/

theorem spaced_append {p : Char → Bool} (t : SpacedText p)
    (stop : ∀ c ∈ rest.head?, (p c || c == ' ') = false) :
    spaced p (t.text ++ rest) = .done t.text rest := by
  have all : ∀ c ∈ t.text, (p c || c == ' ') = true := by
    intro c mem
    rcases mem_cons.mp mem with rfl | later
    · rw [t.starts]
      rfl
    · rcases t.spaced c later with own | rfl
      · rw [own]
        rfl
      · exact Bool.or_true _
  have whole := run_append all stop
  unfold SpacedText.text at whole ⊢
  rw [cons_append] at whole ⊢
  rw [spaced, if_pos t.starts, whole]

theorem spaces_append (n : Nat) (stop : ∀ c ∈ rest.head?, c ≠ ' ') :
    spaces (List.replicate n ' ' ++ rest) = .done (List.replicate n ' ') rest := by
  refine run_append (fun c mem => ?_) fun c head => ?_
  · rw [eq_of_mem_replicate mem]
    rfl
  · exact beq_eq_false_iff_ne.mpr (stop c head)

theorem spaces_none {s : List Char} (stop : ∀ c ∈ s.head?, c ≠ ' ') : spaces s = .done [] s :=
  run_none fun c head => beq_eq_false_iff_ne.mpr (stop c head)

theorem newline_cons (rest : List Char) : newline ('\n' :: rest) = .done "\n" rest :=
  lit_of_eq rfl

/-- A text of a class without blanks and newlines, and the end of its line. -/
theorem words_newline {p : Char → Bool} (t : SpacedText p) (visible : p '\n' = false)
    (rest : List Char) :
    spaced p (t.text ++ '\n' :: rest) = .done t.text ('\n' :: rest) := by
  refine spaced_append t (forall_head_cons ?_)
  rw [visible]
  decide

theorem WrittenLine.text_append (l : WrittenLine) (rest : List Char) : l.text ++ rest
    = ' ' :: ' ' :: ' ' :: (List.replicate l.indent ' ' ++ (l.words.text ++ '\n' :: rest)) := by
  simp [text]

theorem paragraphLine_append (l : WrittenLine) (rest : List Char) :
    paragraphLine (l.text ++ rest) = .done (String.ofList l.text) rest := by
  have start : tab (l.text ++ rest)
      = .done "   " (List.replicate l.indent ' ' ++ (l.words.text ++ '\n' :: rest)) := by
    rw [l.text_append]
    exact lit_of_eq rfl
  have more : spaces (List.replicate l.indent ' ' ++ (l.words.text ++ '\n' :: rest))
      = .done (List.replicate l.indent ' ') (l.words.text ++ '\n' :: rest) :=
    spaces_append l.indent (forall_head_cons (ne_of_isVisible l.words.starts (by decide)))
  have text : "   " ++ String.ofList (List.replicate l.indent ' ' ++ l.words.text) ++ "\n"
      = String.ofList l.text := by
    rw [← String.toList_inj]
    simp only [String.toList_append, String.toList_ofList]
    show [' ', ' ', ' '] ++ (List.replicate l.indent ' ' ++ l.words.text) ++ ['\n'] = l.text
    simp [WrittenLine.text]
  unfold paragraphLine
  rw [bind_done start, bind_done more, bind_done (words_newline l.words (by decide) rest),
    bind_done (newline_cons rest), ← text]
  rfl

theorem paragraphLine_unfit {s : List Char} (start : ∀ c ∈ s.head?, c ≠ ' ') :
    paragraphLine s = .unfit :=
  bind_unfit (lit_unfit_of_first rfl start)

theorem steps_paragraphLine (ls : List WrittenLine) (rest : List Char) :
    Steps paragraphLine (ls.flatMap WrittenLine.text ++ rest)
      (ls.map fun l => String.ofList l.text) rest := by
  induction ls with
  | nil => exact .refl rest
  | cons l ls ih =>
    rw [flatMap_cons, append_assoc, map_cons]
    refine .cons (paragraphLine_append l _) ?_ ih
    simp only [WrittenLine.text, length_append, length_cons]
    omega

theorem paragraph_append (p : WrittenParagraph) (stop : ∀ c ∈ rest.head?, c ≠ ' ') :
    paragraph (p.text ++ rest) = .done p.element rest := by
  have lines := many1_of_steps (steps_paragraphLine (p.first :: p.more) rest)
    (paragraphLine_unfit stop)
  have text : String.join ((p.first :: p.more).map fun l => String.ofList l.text)
      = String.ofList p.text := by
    rw [← String.toList_inj, String.toList_join, flatMap_map]
    simp only [String.toList_ofList]
    rfl
  unfold paragraph WrittenParagraph.element
  rw [← text]
  unfold WrittenParagraph.text
  rw [bind_done lines]
  rfl

theorem paragraph_unfit {s : List Char} (start : ∀ c ∈ s.head?, c ≠ ' ') : paragraph s = .unfit :=
  bind_unfit (bind_unfit (paragraphLine_unfit start))

/-! ## What is no diagram -/

/-- Where no digit 0 stands there is no count of bits. -/
theorem bitRuler_unfit {s : List Char} (visible : ∀ c ∈ s.head?, isBlank c = false)
    (other : ∀ c ∈ s.head?, c ≠ '0') : bitRuler s = .unfit := by
  have token_unfit : ∀ {text : String} {cs : List Char}, text.toList = '0' :: cs →
      token text s = .unfit := by
    intro text cs start
    unfold token
    rw [bind_done (blanks_of_head visible), lit_unfit_of_first start other]
  unfold bitRuler
  rw [orElse_unfit (token_unfit rfl), orElse_unfit (token_unfit rfl),
    orElse_unfit (token_unfit rfl), token_unfit rfl]

/-- A digit 0 alone is the shortest count of bits. -/
theorem bitRuler_zero {s : List Char} (next : ∀ c ∈ s.head?, c ≠ ' ') :
    bitRuler ('0' :: s) = .done "0" s := by
  have start : blanks ('0' :: s) = .done () ('0' :: s) :=
    blanks_of_head (forall_head_cons (by decide))
  have token_unfit : ∀ {text : String} {cs : List Char}, text.toList = '0' :: ' ' :: cs →
      token text ('0' :: s) = .unfit := by
    intro text cs first
    unfold token
    rw [bind_done start, lit_unfit_of_second first next]
  have zero : token "0" ('0' :: s) = .done "0" s := by
    unfold token
    rw [bind_done start]
    exact lit_of_eq rfl
  unfold bitRuler
  rw [orElse_unfit (token_unfit rfl), orElse_unfit (token_unfit rfl),
    orElse_unfit (token_unfit rfl), zero]

/-- Neither kind of header starts with a character that is no colon, blank or 0. -/
theorem header_unfit {s : List Char} (visible : ∀ c ∈ s.head?, isBlank c = false)
    (noZero : ∀ c ∈ s.head?, c ≠ '0') (noColon : ∀ c ∈ s.head?, c ≠ ':') :
    (plainRuler <|> titledRuler) s = .unfit := by
  have noSpace : ∀ c ∈ s.head?, c ≠ ' ' := by
    rintro c head rfl
    exact absurd (visible ' ' head) (by decide)
  have colons : run (· == ':') s = .done [] s :=
    run_none fun c head => beq_eq_false_iff_ne.mpr (noColon c head)
  have plain : plainRuler s = .unfit := by
    refine bind_unfit (matched_unfit ?_)
    rw [bind_done colons, bind_done (spaces_none noSpace), bitRuler_unfit visible noZero]
  have titled : titledRuler s = .unfit :=
    bind_unfit (matched_unfit (bind_unfit (lit_unfit_of_first rfl noColon)))
  exact orElse_both_unfit plain titled

theorem diagram_unfit {s : List Char} (header : diagramHeader s = .unfit) : diagram s = .unfit :=
  bind_unfit header

/-- A letter behind blanks starts no diagram. -/
theorem diagram_unfit_of_letter (n : Nat) (letter : isLetter c = true) (s : List Char) :
    diagram (List.replicate n ' ' ++ c :: s) = .unfit := by
  have visible : isVisible c = true := by
    simp [isVisible, letter]
  have noColon : c ≠ ':' := by
    rintro rfl
    exact absurd letter (by decide)
  have noZero : c ≠ '0' := by
    rintro rfl
    exact absurd letter (by decide)
  have spaced : spaces (List.replicate n ' ' ++ c :: s) = .done (List.replicate n ' ') (c :: s) :=
    spaces_append n (forall_head_cons (ne_of_isVisible visible (by decide)))
  have header : (plainRuler <|> titledRuler) (c :: s) = .unfit :=
    header_unfit (forall_head_cons (isBlank_of_isVisible visible)) (forall_head_cons noZero)
      (forall_head_cons noColon)
  refine diagram_unfit ?_
  unfold diagramHeader
  rw [bind_done spaced, bind_unfit header]

/-- Digits before a full stop start no diagram. -/
theorem diagram_unfit_of_digit (digit : isDigit c = true) {s : List Char}
    (next : ∀ d ∈ s.head?, d ≠ ' ' ∧ d ≠ '\n') : diagram (c :: s) = .unfit := by
  have visible : isVisible c = true := by
    simp [isVisible, digit]
  have noColon : ∀ d ∈ (c :: s).head?, d ≠ ':' := by
    refine forall_head_cons ?_
    rintro rfl
    exact absurd digit (by decide)
  have noSpace : ∀ d ∈ (c :: s).head?, d ≠ ' ' :=
    forall_head_cons (ne_of_isVisible visible (by decide))
  refine diagram_unfit ?_
  unfold diagramHeader
  rw [bind_done (spaces_none noSpace)]
  by_cases zero : c = '0'
  · subst zero
    have colons : run (· == ':') ('0' :: s) = .done [] ('0' :: s) :=
      run_none fun c head => beq_eq_false_iff_ne.mpr (noColon c head)
    have ruler : (do let _ ← run (· == ':'); let _ ← spaces; bitRuler) ('0' :: s)
        = .done "0" s := by
      rw [bind_done colons, bind_done (spaces_none noSpace),
        bitRuler_zero fun c head => (next c head).1]
    have text : matched (do let _ ← run (· == ':'); let _ ← spaces; bitRuler) ('0' :: s)
        = .done ['0'] s := matched_append (s := ['0']) ruler
    have plain : plainRuler ('0' :: s) = .done "0" s := by
      unfold plainRuler
      rw [bind_done text]
      rfl
    have stop : newline s = .unfit := lit_unfit_of_first rfl fun c head => (next c head).2
    rw [bind_done (orElse_done plain), bind_unfit stop]
  · have header : (plainRuler <|> titledRuler) (c :: s) = .unfit :=
      header_unfit (forall_head_cons (isBlank_of_isVisible visible)) (forall_head_cons zero) noColon
    rw [bind_unfit header]

theorem diagram_nil : diagram [] = .unfit := by
  have header : (plainRuler <|> titledRuler) [] = .unfit :=
    header_unfit (by simp) (by simp) (by simp)
  refine diagram_unfit ?_
  unfold diagramHeader
  rw [bind_done (spaces_none (by simp)), bind_unfit header]

/-! ## Blocks -/

/-- A paragraph or a diagram, and an empty line. -/
def block : Parser Element := do
  let block ← diagram <|> paragraph
  let _ ← newline
  return block

theorem block_append (p : WrittenParagraph) (rest : List Char) :
    block (p.text ++ '\n' :: rest) = .done p.element rest := by
  have words : p.text ++ '\n' :: rest = List.replicate (p.first.indent + 3) ' '
      ++ p.first.words.first :: (p.first.words.rest
        ++ '\n' :: (p.more.flatMap WrittenLine.text ++ '\n' :: rest)) := by
    rw [WrittenParagraph.text, flatMap_cons, append_assoc, p.first.text_append]
    rfl
  have noDiagram : diagram (p.text ++ '\n' :: rest) = .unfit := by
    rw [words]
    exact diagram_unfit_of_letter _ p.letter _
  have text := paragraph_append p (forall_head_cons (s := rest) (by decide : '\n' ≠ ' '))
  have read : (diagram <|> paragraph) (p.text ++ '\n' :: rest)
      = .done p.element ('\n' :: rest) := by
    rw [orElse_unfit noDiagram, text]
  unfold block
  rw [bind_done read, bind_done (newline_cons rest)]
  rfl

theorem block_unfit {s : List Char} (noDiagram : diagram s = .unfit)
    (start : ∀ c ∈ s.head?, c ≠ ' ') : block s = .unfit :=
  bind_unfit (orElse_both_unfit noDiagram (paragraph_unfit start))

theorem steps_block (ps : List WrittenParagraph) (rest : List Char) :
    Steps block ((ps.flatMap fun p => p.text ++ ['\n']) ++ rest)
      (ps.map WrittenParagraph.element) rest := by
  induction ps with
  | nil => exact .refl rest
  | cons p ps ih =>
    rw [flatMap_cons, append_assoc, append_assoc, singleton_append,
      map_cons]
    refine .cons (block_append p _) ?_ ih
    simp only [length_append, length_cons]
    omega

/-! ## Sections -/

theorem numbering_append {ds : List Char} (nonempty : ds ≠ []) (digits : ∀ c ∈ ds, isDigit c = true)
    (rest : List Char) : numbering (ds ++ '.' :: rest) = .done () rest := by
  have value : number (ds ++ '.' :: rest) = .done (digitsValue ds) ('.' :: rest) := by
    have read := run1_append nonempty digits
      (forall_head_cons (s := rest) (by decide : isDigit '.' = false))
    unfold number
    rw [bind_done read]
    rfl
  have stop : lit "." ('.' :: rest) = .done "." rest := lit_of_eq rfl
  unfold numbering
  rw [bind_done value, bind_done stop]
  rfl

theorem steps_numbering {numbers : List (List Char)}
    (digits : ∀ ds ∈ numbers, ds ≠ [] ∧ ∀ c ∈ ds, isDigit c = true) (rest : List Char) :
    Steps numbering (numbers.flatMap (· ++ ['.']) ++ rest) (numbers.map fun _ => ()) rest := by
  induction numbers with
  | nil => exact .refl rest
  | cons ds numbers ih =>
    have own := digits ds mem_cons_self
    have later := ih fun es mem => digits es (mem_cons_of_mem ds mem)
    rw [flatMap_cons, append_assoc, append_assoc, singleton_append,
      map_cons]
    refine .cons (numbering_append own.1 own.2 _) ?_ later
    simp only [length_append, length_cons]
    omega

namespace WrittenSection

variable (s : WrittenSection)

theorem headingTitle_append (rest : List Char) :
    headingTitle (s.titleLine ++ rest) = .done (String.ofList s.title.text) rest := by
  have text : s.titleLine ++ rest
      = List.replicate s.gap ' ' ++ (s.title.text ++ '\n' :: rest) := by
    simp [titleLine]
  have first : ∀ c ∈ (s.title.text ++ '\n' :: rest).head?, c ≠ ' ' :=
    forall_head_cons (ne_of_isVisible (isVisible_of_isWordChar s.title.starts) (by decide))
  rw [text]
  unfold headingTitle
  rw [bind_done (spaces_append s.gap first), bind_done (words_newline s.title (by decide) rest),
    bind_done (newline_cons rest)]
  rfl

theorem sectionHeading_append (rest : List Char) :
    sectionHeading (s.numbers.flatMap (· ++ ['.']) ++ (s.titleLine ++ rest))
      = .done (s.depth, String.ofList s.title.text) rest := by
  have stop : numbering (s.titleLine ++ rest) = .unfit := by
    refine bind_unfit (number_unfit ?_)
    unfold titleLine
    cases s.gap with
    | zero => exact forall_head_cons (isDigit_of_isWordChar s.title.starts)
    | succ n => exact forall_head_cons (by decide)
  have numbers : many1 numbering (s.numbers.flatMap (· ++ ['.']) ++ (s.titleLine ++ rest))
      = .done (s.numbers.map fun _ => ()) (s.titleLine ++ rest) := by
    have steps := steps_numbering s.digits (s.titleLine ++ rest)
    obtain ⟨ds, more, numbers⟩ := exists_cons_of_ne_nil s.numbered
    rw [numbers] at steps ⊢
    exact many1_of_steps steps stop
  unfold sectionHeading
  rw [bind_done numbers, bind_done (s.headingTitle_append rest), length_map]
  rfl

/-- A section without those in it. -/
def own : Element :=
  sectionOf (String.ofList s.title.text) (s.paragraphs.map WrittenParagraph.element)

theorem headedSection_append (stop : block rest = .unfit) :
    headedSection (s.text ++ rest) = .done (s.depth, s.own) rest := by
  have text : s.text ++ rest = s.numbers.flatMap (· ++ ['.']) ++ (s.titleLine
      ++ '\n' :: ((s.paragraphs.flatMap fun p => p.text ++ ['\n']) ++ rest)) := by
    simp [WrittenSection.text]
  have content := many_of_steps (steps_block s.paragraphs rest) stop
  rw [text]
  unfold headedSection
  rw [bind_done (s.sectionHeading_append _)]
  show (newline >>= fun _ => many block >>= fun content =>
    pure (s.depth, sectionOf (String.ofList s.title.text) content)) _ = _
  rw [bind_done (newline_cons _), bind_done content]
  rfl

/-- A section starts with a digit, and a digit or a full stop follows. -/
theorem text_eq_cons : ∃ c d t, s.text = c :: d :: t ∧ isDigit c = true ∧ isVisible d = true := by
  obtain ⟨ds, more, numbers⟩ := exists_cons_of_ne_nil s.numbered
  obtain ⟨nonempty, digits⟩ := s.digits ds (numbers ▸ mem_cons_self)
  obtain ⟨c, cs, rfl⟩ := exists_cons_of_ne_nil nonempty
  have first := digits c mem_cons_self
  unfold text
  rw [numbers]
  cases cs with
  | nil => exact ⟨c, '.', _, rfl, first, by decide⟩
  | cons d cs =>
    have second := digits d (mem_cons_of_mem c mem_cons_self)
    exact ⟨c, d, _, rfl, first, by simp [isVisible, second]⟩

theorem one_le_depth : 1 ≤ s.depth := by
  have pos := length_pos_iff.mpr s.numbered
  unfold depth
  omega

end WrittenSection

/-- The paragraphs of a section end where another section starts, or nothing. -/
theorem block_sections (sections : List WrittenSection) :
    block (sections.flatMap WrittenSection.text) = .unfit := by
  cases sections with
  | nil => exact block_unfit diagram_nil (by simp)
  | cons s sections =>
    obtain ⟨c, d, t, text, digit, next⟩ := s.text_eq_cons
    have visible : isVisible c = true := by simp [isVisible, digit]
    rw [flatMap_cons, text, cons_append, cons_append]
    exact block_unfit
      (diagram_unfit_of_digit digit (forall_head_cons
        ⟨ne_of_isVisible next (by decide), ne_of_isVisible next (by decide)⟩))
      (forall_head_cons (ne_of_isVisible visible (by decide)))

theorem headedSection_nil : headedSection [] = .unfit :=
  bind_unfit (bind_unfit (bind_unfit (bind_unfit (number_unfit (by simp)))))

theorem steps_headedSection (sections : List WrittenSection) :
    Steps headedSection (sections.flatMap WrittenSection.text)
      (sections.map fun s => (s.depth, s.own)) [] := by
  induction sections with
  | nil => exact .refl []
  | cons s sections ih =>
    obtain ⟨c, d, t, text, -, -⟩ := s.text_eq_cons
    rw [flatMap_cons, map_cons]
    refine .cons (s.headedSection_append (block_sections sections)) ?_ ih
    rw [text]
    simp only [length_append, length_cons]
    omega

/-- Sections are read as trees with the sections in pre-order. -/
theorem middle_written (m : WrittenMiddle) : ∃ f : Forest WrittenSection,
    f.preorder 1 = (m.sections.map fun s => (s.depth, s)) ∧
    middle.parse m.text
      = .ok (.node .middle [("content", .many (f.build WrittenSection.element))] []) := by
  obtain ⟨s, more, sections⟩ : ∃ s more, m.sections = s :: more := by
    cases sections : m.sections with
    | nil =>
      have top := m.top
      rw [sections] at top
      cases top
    | cons s more => exact ⟨s, more, rfl⟩
  have first : ∀ a ∈ m.sections.head?, a.depth = 1 := by
    intro a head
    have top := m.top
    rw [Option.mem_def.mp head] at top
    exact Option.some.inj top
  obtain ⟨f, preorder⟩ := exists_preorder WrittenSection.depth m.sections 1 m.steps first
    fun a _ => a.one_le_depth
  refine ⟨f, preorder, ?_⟩
  have read : many1 headedSection m.text
      = .done (m.sections.map fun s => (s.depth, s.own)) [] := by
    have steps := steps_headedSection m.sections
    unfold WrittenMiddle.text
    rw [sections] at steps ⊢
    exact many1_of_steps steps headedSection_nil
  have headed : (f.map WrittenSection.own).preorder 1
      = m.sections.map fun s => (s.depth, s.own) := by
    rw [f.preorder_map, preorder, map_map]
    rfl
  have nested : outline (m.sections.map fun s => (s.depth, s.own))
      = .ok (f.build WrittenSection.element) := by
    have trees := outline_preorder (f := f.map WrittenSection.own) (by simp [headed, sections])
      (by rw [headed, map_map]; exact m.steps)
    rwa [headed, f.build_map] at trees
  refine parse_done ?_
  unfold middle
  rw [bind_done read, nested]
  rfl

/-- A section with one line of text. -/
def scopeSection : WrittenSection where
  numbers := [['1']]
  gap := 1
  title := ⟨'S', "cope".toList, by decide, by simp; decide⟩
  paragraphs := [⟨⟨0, 'F', "or 2 hosts.".toList, by decide, by simp; decide⟩, [], by decide⟩]
  numbered := by decide
  digits := by simp; decide

/-- A section with two lines of text. -/
def termsSection : WrittenSection where
  numbers := [['1'], ['1']]
  gap := 1
  title := ⟨'T', "erms".toList, by decide, by simp; decide⟩
  paragraphs := [⟨⟨0, 'S', "ee".toList, by decide, by simp; decide⟩,
    [⟨2, 'b', "elow.".toList, by decide, by simp; decide⟩], by decide⟩]
  numbered := by decide
  digits := by simp; decide

theorem middle_written_scope :
    middle.parse "1. Scope\n\n   For 2 hosts.\n\n1.1. Terms\n\n   See\n     below.\n\n".toList
      = .ok (.node .middle
          [("content", .many [scopeSection.element [termsSection.element []]])] []) := by
  let m : WrittenMiddle := ⟨[scopeSection, termsSection], by decide, by decide⟩
  have text : "1. Scope\n\n   For 2 hosts.\n\n1.1. Terms\n\n   See\n     below.\n\n".toList
      = m.text := by decide
  obtain ⟨f, preorder, read⟩ := middle_written m
  have preorder : f.preorder 1 = [(1, scopeSection), (2, termsSection)] := preorder
  have tree : f = .tree scopeSection (.tree termsSection .none .none) .none := by
    rcases f with _ | ⟨a, _ | ⟨b, _ | _, _ | _⟩, _ | _⟩ <;> simp_all [Forest.preorder]
  rw [text, read, tree]
  rfl

end PacketDraft.Memo
