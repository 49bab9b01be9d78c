import PacketDraft.Description.Title
import PacketDraft.Proofs.Description.Words
import PacketDraft.Proofs.Formula.RoundTrip

/-!
# Reading back field titles

A title is written from its labels and, in one of four forms, from what it tells about the field.
The grammar tries seven forms one after the other, most of which start alike. The main statement is
`title_written`: whatever parts are left out, the form that was written is the first one that fits,
and it gives back all that was written.
-/

namespace PacketDraft.Description

open Grammar Grammar.Parser Text List FieldTitle

variable {rest : List Char}

/-! ## Written titles -/

/-- A formula with the number of further pairs of parentheses around each of its parts. -/
structure WrittenFormula where
  formula : Formula
  writable : formula.isWritable
  extra : List Formula.Side → Nat

def WrittenFormula.text (f : WrittenFormula) : List Char :=
  f.formula.written f.extra wholeHeight

/-- The units of a size that is a number of bits or bytes. -/
inductive CountUnit where
  | bits | bit | bytes | byte
  deriving DecidableEq, Repr

def CountUnit.name : CountUnit → String
  | bits => "bits"
  | bit => "bit"
  | bytes => "bytes"
  | byte => "byte"

/-- The label of a field, and its abbreviation. -/
structure WrittenLabels where
  full : Words isLabel
  short : Option { name : String // isLabel name }

/-- The abbreviation in parentheses. -/
def shortText : Option { name : String // isLabel name } → List Char
  | some name => " (".toList ++ (name.val.toList ++ [')'])
  | none => []

def WrittenLabels.text (l : WrittenLabels) : List Char :=
  l.full.text ++ shortText l.short

/-- What a title tells about a field by its labels alone. -/
def WrittenLabels.field (l : WrittenLabels) : FieldTitle where
  fullLabel := l.full.fieldName
  shortLabel := l.short.map fun name => String.ofList (name.val.toList.map Char.toLower)

/-- What follows the labels in a title. -/
inductive TitleBody where
  | nothing
  | variableLength
  | sized (size : WrittenFormula) (unit : CountUnit) (options : Option Options)
      (constraint presence : Option WrittenFormula)
  | array (element : Words isPhraseWord)
  | constrainedArray (element : Words isPhraseWord) (constraint : WrittenFormula)
      (presence : Option WrittenFormula)

def optionsText : Option Options → List Char
  | some options => " (".toList ++ (options.text ++ [')'])
  | none => []

def constraintText : Option WrittenFormula → List Char
  | some f => "; ".toList ++ f.text
  | none => []

def presenceText : Option WrittenFormula → List Char
  | some f => "; present only when ".toList ++ f.text
  | none => []

def TitleBody.text : TitleBody → List Char
  | .nothing => ".".toList
  | .variableLength => ": variable length.".toList
  | .sized size unit options constraint presence =>
    ": ".toList ++ size.text ++ " ".toList ++ unit.name.toList ++ optionsText options
      ++ constraintText constraint ++ presenceText presence ++ ".".toList
  | .array element => ": [".toList ++ element.text ++ "].".toList
  | .constrainedArray element constraint presence =>
    ": [".toList ++ element.text ++ "]".toList ++ constraintText (some constraint)
      ++ presenceText presence ++ ".".toList

/-- A title by its parts. -/
structure WrittenTitle where
  labels : WrittenLabels
  body : TitleBody

def WrittenTitle.text (t : WrittenTitle) : List Char :=
  t.labels.text ++ t.body.text

/-- What a title tells about a field. -/
def WrittenTitle.field (t : WrittenTitle) : FieldTitle :=
  match t.body with
  | .nothing | .variableLength => t.labels.field
  | .sized size unit options constraint presence =>
    { t.labels.field with
      options := options.map Options.list
      size := some size.formula
      units := some unit.name
      constraint := constraint.map WrittenFormula.formula
      presence := presence.map WrittenFormula.formula }
  | .array element => { t.labels.field with units := some element.singular, isArray := true }
  | .constrainedArray element constraint presence =>
    { t.labels.field with
      units := some element.singular
      constraint := some constraint.formula
      presence := presence.map WrittenFormula.formula
      isArray := true }

/-! ## Labels -/

theorem ofLabels_text (l : WrittenLabels) :
    ofLabels (String.ofList l.full.text, l.short.map (·.val)) = l.field := by
  have full := fieldName_text l.full
  have short : (l.short.map (·.val)).map fieldName
      = l.short.map fun name => String.ofList (name.val.toList.map Char.toLower) := by
    rw [Option.map_map]
    refine Option.map_congr fun name _ => ?_
    have single := fieldName_text ⟨[name.val], by simp, by simpa using name.property⟩
    simpa [Words.text, spaced_singleton, Words.fieldName] using single
  unfold ofLabels WrittenLabels.field
  rw [full, short]

theorem labels_text (l : WrittenLabels) (stop : ∀ c ∈ rest.head?, c = ':' ∨ c = '.') :
    FieldTitle.labels (l.text ++ rest)
      = .done (String.ofList l.full.text, l.short.map (·.val)) rest := by
  have visible : ∀ more : List Char,
      blanks (l.full.text ++ more) = .done () (l.full.text ++ more) := by
    intro more
    obtain ⟨c, cs, start, w, mem, letter⟩ := l.full.starts visible_isLabel
    rw [start]
    exact blanks_of_head (forall_head_cons ((visible_isLabel w (l.full.all w mem)).2 c letter))
  unfold FieldTitle.labels WrittenLabels.text
  rw [append_assoc, bind_done (visible _)]
  cases l.short with
  | none =>
    have ends : ∀ c ∈ rest.head?, isLabelChar c = false ∧ c ≠ ' ' := by
      intro c head
      rcases stop c head with rfl | rfl <;> decide
    have noParen : lit "(" rest = .unfit := by
      refine lit_unfit_of_first rfl fun c head => ?_
      rcases stop c head with rfl | rfl <;> decide
    have label : label (l.full.text ++ (shortText none ++ rest))
        = .done (String.ofList l.full.text) rest := label_text l.full (.inl rfl) ends
    rw [bind_done label, bind_done (maybe_unfit (bind_unfit noParen))]
    rfl
  | some name =>
    have text : l.full.text ++ (shortText (some name) ++ rest)
        = l.full.text ++ ([' '] ++ '(' :: (name.val.toList ++ ')' :: rest)) := by
      simp [shortText]
    have label : label (l.full.text ++ ([' '] ++ '(' :: (name.val.toList ++ ')' :: rest)))
        = .done (String.ofList l.full.text) ('(' :: (name.val.toList ++ ')' :: rest)) :=
      label_text l.full (.inr rfl) (forall_head_cons (by decide))
    have opening : lit "(" ('(' :: (name.val.toList ++ ')' :: rest))
        = .done "(" (name.val.toList ++ ')' :: rest) := lit_of_eq rfl
    have inner : shortLabel (name.val.toList ++ ')' :: rest) = .done name.val (')' :: rest) :=
      shortLabel_append name.property (forall_head_cons (by decide))
    have closing : lit ")" (')' :: rest) = .done ")" rest := lit_of_eq rfl
    have group : (do
        let _ ← lit "("
        let short ← shortLabel
        let _ ← lit ")"
        return short : Parser String) ('(' :: (name.val.toList ++ ')' :: rest))
          = .done name.val rest := by
      rw [bind_done opening, bind_done inner, bind_done closing]
      rfl
    rw [text, bind_done label, bind_done (maybe_done group)]
    rfl

/-! ## Parts of a title -/

namespace WrittenFormula

variable (f : WrittenFormula)

theorem read (ends : Formula.Ends wholeHeight rest) :
    Formula.formula (f.text ++ rest) = .done f.formula rest :=
  Formula.formula_append f.formula f.extra f.writable ends

theorem visible : ∀ c ∈ f.text, isBlank c = false :=
  (f.formula.spelling_written f.writable f.extra (Nat.le_refl wholeHeight)).visible

/-- Up to the first blank behind it, the text of a formula is one word. -/
theorem eq_word {word more : List Char} {ending : Char} (noBlank : ∀ c ∈ word, c ≠ ' ')
    (stop : ∀ c ∈ rest.head?, c = ' ') (visibleEnding : ending ≠ ' ')
    (equal : f.text ++ ending :: rest = word ++ ' ' :: more) : f.text ++ [ending] = word := by
  have taken := congrArg (List.takeWhile (· != ' ')) equal
  have left : (f.text ++ [ending] ++ rest).takeWhile (· != ' ') = f.text ++ [ending] := by
    refine takeWhile_append_stop (fun c mem => ?_) fun c head => by simp [stop c head]
    rw [bne_iff_ne]
    rintro rfl
    rcases mem_append.mp mem with own | last
    · exact absurd (f.visible ' ' own) (by decide)
    · exact visibleEnding (mem_singleton.mp last).symm
  have right : (word ++ ' ' :: more).takeWhile (· != ' ') = word :=
    takeWhile_append_stop (fun c mem => by simpa using noBlank c mem)
      (forall_head_cons (by decide))
  rw [append_assoc, singleton_append] at left
  rwa [left, right] at taken

end WrittenFormula

/-- The full stop of a title ends every formula: nothing is left that it could be a member of. -/
theorem ends_stop : Formula.Ends wholeHeight ['.'] := by
  refine Formula.ends_of_first ⟨forall_head_cons (by decide), forall_head_cons (by decide), ?_⟩
    (forall_head_cons (by decide))
  intro inner equal
  cases (List.cons.inj equal).2
  simp

theorem ends_semicolon (rest : List Char) : Formula.Ends wholeHeight (';' :: rest) :=
  Formula.ends_of_first (.cons (by decide) (by decide) (by decide)) (forall_head_cons (by decide))

/-- The text behind a constraint: the condition for presence, if there is one, and a full stop. -/
def closingText (presence : Option WrittenFormula) : List Char :=
  presenceText presence ++ ".".toList

theorem closingText_some (f : WrittenFormula) : closingText (some f)
    = ';' :: ' ' :: ("present only when ".toList ++ (f.text ++ ".".toList)) := by
  unfold closingText presenceText
  rw [append_assoc]
  rfl

theorem closingText_ends (presence : Option WrittenFormula) :
    Formula.Ends wholeHeight (closingText presence) := by
  cases presence with
  | none => exact ends_stop
  | some f =>
    rw [closingText_some]
    exact ends_semicolon _

theorem presenceClause_text (presence : Option WrittenFormula) :
    presenceClause (closingText presence)
      = .done (presence.map WrittenFormula.formula) ".".toList := by
  cases presence with
  | none =>
    have noPresence : lit "; present only when " ['.'] = .unfit :=
      lit_unfit_of_head rfl (by decide)
    exact maybe_unfit (bind_unfit noPresence)
  | some f =>
    have clause : lit "; present only when " (closingText (some f))
        = .done "; present only when " (f.text ++ ['.']) :=
      lit_of_eq (append_assoc ..)
    refine maybe_done ?_
    rw [bind_done clause]
    exact f.read ends_stop

/-- A constraint is not taken for a condition for presence, which starts with a word of its own. -/
theorem presenceClause_constraint (f : WrittenFormula) (presence : Option WrittenFormula) :
    presenceClause ("; ".toList ++ (f.text ++ closingText presence))
      = .done none ("; ".toList ++ (f.text ++ closingText presence)) := by
  have word : ∀ c ∈ "present".toList, c ≠ ' ' := by
    have none : "present".toList.all (· != ' ') = true := by decide
    intro c mem
    simpa using all_eq_true.mp none c mem
  refine maybe_unfit (bind_unfit (lit_unfit fun more equal => ?_))
  have equal : f.text ++ closingText presence
      = "present".toList ++ ' ' :: ("only when ".toList ++ more) :=
    (List.cons.inj (List.cons.inj equal).2).2
  -- The constraint would be the word `present` without its last letter.
  cases presence with
  | none =>
    have whole := f.eq_word word (by simp) (by decide) equal
    have last := congrArg List.getLast? whole
    rw [List.getLast?_concat] at last
    exact absurd last (by decide)
  | some g =>
    rw [closingText_some] at equal
    have whole := f.eq_word word (forall_head_cons rfl) (by decide) equal
    have last := congrArg List.getLast? whole
    rw [List.getLast?_concat] at last
    exact absurd last (by decide)

theorem optionGroup_text (options : Option Options) (stop : ∀ c ∈ rest.head?, c = ';' ∨ c = '.') :
    optionGroup (optionsText options ++ rest)
      = .done (options.map Options.list) rest := by
  unfold optionGroup
  cases options with
  | none =>
    have visible : ∀ c ∈ rest.head?, isBlank c = false := by
      intro c head
      rcases stop c head with rfl | rfl <;> decide
    have noParen : lit "(" rest = .unfit := by
      refine lit_unfit_of_first rfl fun c head => ?_
      rcases stop c head with rfl | rfl <;> decide
    show (blanks >>= _) rest = _
    rw [bind_done (blanks_of_head visible)]
    exact maybe_unfit (bind_unfit noParen)
  | some options =>
    have text : optionsText (some options) ++ rest
        = ' ' :: '(' :: (options.text ++ ')' :: rest) := by
      simp [optionsText]
    have gap : blanks (' ' :: '(' :: (options.text ++ ')' :: rest))
        = .done () ('(' :: (options.text ++ ')' :: rest)) :=
      blanks_space (forall_head_cons (by decide))
    have opening : lit "(" ('(' :: (options.text ++ ')' :: rest))
        = .done "(" (options.text ++ ')' :: rest) := lit_of_eq rfl
    have closing : lit ")" (')' :: rest) = .done ")" rest := lit_of_eq rfl
    rw [text, bind_done gap]
    refine maybe_done ?_
    rw [bind_done opening, bind_done (optionList_text options (forall_head_cons (by decide))),
      bind_done closing]
    rfl

/-- The unit that is written is the first one that fits, as no letter follows it. -/
theorem unit_name (u : CountUnit) (stop : ∀ c ∈ rest.head?, c ≠ 's') :
    FieldTitle.unit (u.name.toList ++ rest) = .done u.name rest := by
  have done : lit u.name (u.name.toList ++ rest) = .done u.name rest := lit_append _ _
  have other : ∀ {name : String} {d e : Char} {ds s : List Char}, name.toList = 'b' :: d :: ds →
      e ≠ d → lit name ('b' :: e :: s) = .unfit := by
    intro name d e ds s start differs
    refine lit_unfit fun more equal => ?_
    rw [start] at equal
    exact differs (List.cons.inj (List.cons.inj equal).2).1
  have plural : ∀ {name : String} (letters : List Char), name.toList = letters ++ ['s'] →
      lit name (letters ++ rest) = .unfit := by
    intro name letters longer
    refine lit_unfit fun more equal => ?_
    rw [longer, append_assoc] at equal
    have next := append_cancel_left equal
    exact stop 's' (by rw [next]; rfl) rfl
  cases u with
  | bits => exact orElse_done done
  | bytes =>
    refine (orElse_unfit (other rfl (by decide))).trans ?_
    exact orElse_done done
  | bit =>
    refine (orElse_unfit (plural "bit".toList rfl)).trans ?_
    refine (orElse_unfit (other rfl (by decide))).trans ?_
    exact orElse_done done
  | byte =>
    refine (orElse_unfit (other rfl (by decide))).trans ?_
    refine (orElse_unfit (plural "byte".toList rfl)).trans ?_
    refine (orElse_unfit (other rfl (by decide))).trans ?_
    exact orElse_done done

/-! ## The forms of a title -/

/-- All that follows the options of a field with a size. -/
def tailText (constraint presence : Option WrittenFormula) : List Char :=
  constraintText constraint ++ closingText presence

theorem tailText_some (constraint : WrittenFormula) (presence : Option WrittenFormula) :
    tailText (some constraint) presence
      = "; ".toList ++ (constraint.text ++ closingText presence) :=
  append_assoc ..

theorem tailText_head (constraint presence : Option WrittenFormula) :
    ∀ c ∈ (tailText constraint presence).head?, c = ';' ∨ c = '.' := by
  unfold tailText
  cases constraint with
  | some f => exact forall_head_cons (.inl rfl)
  | none =>
    cases presence with
    | none => exact forall_head_cons (.inr rfl)
    | some g =>
      rw [closingText_some]
      exact forall_head_cons (.inl rfl)

theorem unit_stops (options : Option Options) (constraint presence : Option WrittenFormula) :
    ∀ c ∈ (optionsText options ++ tailText constraint presence).head?, c ≠ 's' := by
  cases options with
  | some options => exact forall_head_cons (by decide)
  | none =>
    intro c head
    rcases tailText_head constraint presence c head with rfl | rfl <;> decide

theorem sized_eq (size : WrittenFormula) (unit : CountUnit) (options : Option Options)
    (constraint presence : Option WrittenFormula) :
    (TitleBody.sized size unit options constraint presence).text
      = ": ".toList ++ (size.text ++ (" ".toList ++ (unit.name.toList
        ++ (optionsText options ++ tailText constraint presence)))) := by
  unfold TitleBody.text tailText closingText
  generalize ": ".toList = opening, " ".toList = gap, ".".toList = stop
  simp only [append_assoc]

theorem CountUnit.name_starts (unit : CountUnit) :
    ∃ letters, unit.name.toList = 'b' :: letters := by
  cases unit <;> exact ⟨_, rfl⟩

theorem constrainedArray_eq (element : Words isPhraseWord) (constraint : WrittenFormula)
    (presence : Option WrittenFormula) :
    (TitleBody.constrainedArray element constraint presence).text
      = ": [".toList ++ (element.text ++ ("]".toList ++ tailText (some constraint) presence)) := by
  unfold TitleBody.text tailText closingText
  generalize ": [".toList = opening, "]".toList = closing, ".".toList = stop
  simp only [append_assoc]

/-- A unit ends the size before it: no operator starts like a unit. -/
theorem ends_unit (unit : CountUnit) (rest : List Char) :
    Formula.Ends wholeHeight (" ".toList ++ (unit.name.toList ++ rest)) := by
  obtain ⟨letters, start⟩ := unit.name_starts
  rw [start]
  refine Formula.ends_of_first (.cons (by decide) (by decide) (by decide)) ?_
  show ∀ c ∈ ((' ' :: 'b' :: (letters ++ rest)).dropWhile isBlank).head?, _
  rw [dropWhile_cons_of_pos (by decide), dropWhile_cons_of_neg (by decide)]
  exact forall_head_cons (by decide)

section Forms

variable (l : WrittenLabels)

/-- What a form reads behind the labels where a colon follows them. -/
theorem afterLabels {α : Type} (form : String × Option String → Parser α) (rest : List Char) :
    (FieldTitle.labels >>= form) (l.text ++ (": ".toList ++ rest))
      = form (String.ofList l.full.text, l.short.map (·.val)) (": ".toList ++ rest) := by
  have colon : ∀ c ∈ (": ".toList ++ rest).head?, c = ':' ∨ c = '.' := forall_head_cons (.inl rfl)
  exact bind_done (labels_text l colon)

theorem nameOnly_done : nameOnly (l.text ++ ".".toList) = .done l.field [] := by
  have ends : ∀ c ∈ ".".toList.head?, c = ':' ∨ c = '.' := forall_head_cons (.inr rfl)
  have stop : lit "." ".".toList = .done "." [] := lit_of_eq rfl
  unfold nameOnly
  rw [bind_done (labels_text l ends), bind_done stop, ofLabels_text]
  rfl

/-- A title that goes on behind its labels is none of labels only. -/
theorem nameOnly_unfit (rest : List Char) :
    nameOnly (l.text ++ (": ".toList ++ rest)) = .unfit := by
  have noStop : lit "." (": ".toList ++ rest) = .unfit := lit_unfit_of_head rfl (by decide)
  unfold nameOnly
  rw [afterLabels, bind_unfit noStop]

theorem variableLength_done :
    variableLength (l.text ++ (": ".toList ++ "variable length.".toList))
      = .done l.field [] := by
  have length : lit ": variable length" (": ".toList ++ "variable length.".toList)
      = .done ": variable length" ".".toList := lit_of_eq rfl
  have stop : lit "." ".".toList = .done "." [] := lit_of_eq rfl
  unfold variableLength
  rw [afterLabels, bind_done length, bind_done stop, ofLabels_text]
  rfl

theorem variableLength_unfit (other : ∀ more, rest ≠ "variable".toList ++ (" length".toList ++ more)) :
    variableLength (l.text ++ (": ".toList ++ rest)) = .unfit := by
  have noLength : lit ": variable length" (": ".toList ++ rest) = .unfit := by
    refine lit_unfit fun more equal => ?_
    exact other more (List.cons.inj (List.cons.inj equal).2).2
  unfold variableLength
  rw [afterLabels, bind_unfit noLength]

/-- Also a size called `variable` is followed by its unit. -/
theorem sized_ne_variable (size : WrittenFormula) (unit : CountUnit) (rest more : List Char) :
    size.text ++ (" ".toList ++ (unit.name.toList ++ rest))
      ≠ "variable".toList ++ (" length".toList ++ more) := by
  intro equal
  obtain ⟨letters, start⟩ := unit.name_starts
  have word : "variable".toList.all (· != ' ') = true := by decide
  have noBlank : ∀ c ∈ size.text, (c != ' ') = true := by
    intro c mem
    rw [bne_iff_ne]
    rintro rfl
    exact absurd (size.visible ' ' mem) (by decide)
  have left : (size.text ++ ' ' :: 'b' :: (letters ++ rest)).dropWhile (· != ' ')
      = ' ' :: 'b' :: (letters ++ rest) :=
    dropWhile_append_stop noBlank (forall_head_cons (by decide))
  have right : ("variable".toList ++ ' ' :: 'l' :: ("ength".toList ++ more)).dropWhile (· != ' ')
      = ' ' :: 'l' :: ("ength".toList ++ more) :=
    dropWhile_append_stop (all_eq_true.mp word) (forall_head_cons (by decide))
  rw [start] at equal
  have same : ' ' :: 'b' :: (letters ++ rest) = ' ' :: 'l' :: ("ength".toList ++ more) :=
    left.symm.trans ((congrArg (List.dropWhile (· != ' ')) equal).trans right)
  exact absurd (List.cons.inj (List.cons.inj same).2).1 (by decide)

section Sized

variable (size : WrittenFormula) (unit : CountUnit) (options : Option Options)

theorem sized_done (presence : Option WrittenFormula) :
    sized (l.text ++ (TitleBody.sized size unit options none presence).text)
      = .done (WrittenTitle.mk l (.sized size unit options none presence)).field [] := by
  have stop : lit "." ".".toList = .done "." [] := lit_of_eq rfl
  have group := optionGroup_text options (tailText_head none presence)
  have clause : presenceClause (tailText none presence) = _ :=
    presenceClause_text presence
  rw [sized_eq]
  unfold sized
  rw [afterLabels, bind_done (lit_append _ _), bind_done (size.read (ends_unit unit _)),
    bind_done (lit_append _ _), bind_done (unit_name unit (unit_stops options none presence)),
    bind_done group, bind_done clause, bind_done stop, ofLabels_text]
  rfl

/-- A title with a constraint is none without: its constraint is no condition for presence. -/
theorem sized_unfit (constraint : WrittenFormula) (presence : Option WrittenFormula) :
    sized (l.text ++ (TitleBody.sized size unit options (some constraint) presence).text)
      = .unfit := by
  have group := optionGroup_text options (tailText_head (some constraint) presence)
  have noStop : lit "." ("; ".toList ++ (constraint.text ++ closingText presence)) = .unfit :=
    lit_unfit_of_head rfl (by decide)
  rw [sized_eq]
  unfold sized
  rw [afterLabels, bind_done (lit_append _ _), bind_done (size.read (ends_unit unit _)),
    bind_done (lit_append _ _),
    bind_done (unit_name unit (unit_stops options (some constraint) presence)), bind_done group,
    tailText_some, bind_done (presenceClause_constraint constraint presence), bind_unfit noStop]

theorem sizedConstrained_done (constraint : WrittenFormula) (presence : Option WrittenFormula) :
    sizedConstrained
        (l.text ++ (TitleBody.sized size unit options (some constraint) presence).text)
      = .done (WrittenTitle.mk l (.sized size unit options (some constraint) presence)).field
          [] := by
  have stop : lit "." ".".toList = .done "." [] := lit_of_eq rfl
  have group := optionGroup_text options (tailText_head (some constraint) presence)
  rw [sized_eq]
  unfold sizedConstrained
  rw [afterLabels, bind_done (lit_append _ _),
    bind_done (maybe_done (size.read (ends_unit unit _))), bind_done (lit_append _ _),
    bind_done (unit_name unit (unit_stops options (some constraint) presence)), bind_done group,
    tailText_some, bind_done (lit_append _ _),
    bind_done (constraint.read (closingText_ends presence)),
    bind_done (presenceClause_text presence), bind_done stop, ofLabels_text]
  rfl

end Sized

section Array

variable (element : Words isPhraseWord)

/-- No formula starts with a bracket, so that a title with an element type has no size. -/
theorem sized_bracket (rest : List Char) :
    sized (l.text ++ (": ".toList ++ '[' :: rest)) = .unfit := by
  unfold sized
  rw [afterLabels, bind_done (lit_append _ _), bind_unfit (Formula.formula_unfit (by decide))]

theorem sizedConstrained_bracket (rest : List Char) :
    sizedConstrained (l.text ++ (": ".toList ++ '[' :: rest)) = .unfit := by
  have noBlank : lit " " ('[' :: rest) = .unfit := lit_unfit_of_head rfl (by decide)
  unfold sizedConstrained
  rw [afterLabels, bind_done (lit_append _ _),
    bind_done (maybe_unfit (Formula.formula_unfit (by decide))), bind_unfit noBlank]

theorem constrained_bracket (rest : List Char) :
    constrained (l.text ++ (": ".toList ++ '[' :: rest)) = .unfit := by
  unfold constrained
  rw [afterLabels, bind_done (lit_append _ _), bind_unfit (Formula.formula_unfit (by decide))]

/-- A title with an element type is read by one of the two forms that have one. -/
theorem title_bracket (rest : List Char) :
    title (l.text ++ (": ".toList ++ '[' :: rest))
      = (array <|> arrayConstrained)
          (l.text ++ (": ".toList ++ '[' :: rest)) := by
  have noVariable : ∀ more, '[' :: rest ≠ "variable".toList ++ (" length".toList ++ more) := by
    intro more equal
    exact absurd (List.cons.inj equal).1 (by decide)
  refine (orElse_unfit (nameOnly_unfit l ('[' :: rest))).trans ?_
  refine (orElse_unfit (variableLength_unfit l noVariable)).trans ?_
  refine (orElse_unfit (sized_bracket l rest)).trans ?_
  refine (orElse_unfit (sizedConstrained_bracket l rest)).trans ?_
  exact orElse_unfit (constrained_bracket l rest)

theorem elementType_text (rest : List Char) :
    elementType (": ".toList ++ '[' :: (element.text ++ ']' :: rest))
      = .done element.singular rest := by
  have opening : lit ": [" (": ".toList ++ '[' :: (element.text ++ ']' :: rest))
      = .done ": [" (element.text ++ ']' :: rest) := lit_of_eq rfl
  have closing : lit "]" (']' :: rest) = .done "]" rest := lit_of_eq rfl
  unfold elementType
  rw [bind_done opening, bind_done (phrase_text element (forall_head_cons (by decide))),
    bind_done closing]
  rfl

theorem array_done :
    array (l.text ++ (": ".toList ++ '[' :: (element.text ++ ']' :: ".".toList)))
      = .done (WrittenTitle.mk l (.array element)).field [] := by
  have stop : lit "." ".".toList = .done "." [] := lit_of_eq rfl
  unfold array
  rw [afterLabels, bind_done (elementType_text element _), bind_done stop, ofLabels_text]
  rfl

theorem array_unfit (rest : List Char) :
    array (l.text ++ (": ".toList ++ '[' :: (element.text ++ ']' :: ';' :: rest)))
      = .unfit := by
  have noStop : lit "." (';' :: rest) = .unfit := lit_unfit_of_head rfl (by decide)
  unfold array
  rw [afterLabels, bind_done (elementType_text element _), bind_unfit noStop]

theorem arrayConstrained_done (constraint : WrittenFormula) (presence : Option WrittenFormula) :
    arrayConstrained (l.text ++ (": ".toList ++ '[' :: (element.text
        ++ ']' :: ';' :: ' ' :: (constraint.text ++ closingText presence))))
      = .done (WrittenTitle.mk l (.constrainedArray element constraint presence)).field [] := by
  have stop : lit "." ".".toList = .done "." [] := lit_of_eq rfl
  have gap : lit "; " (';' :: ' ' :: (constraint.text ++ closingText presence))
      = .done "; " (constraint.text ++ closingText presence) := lit_of_eq rfl
  unfold arrayConstrained
  rw [afterLabels, bind_done (elementType_text element _), bind_done gap,
    bind_done (constraint.read (closingText_ends presence)),
    bind_done (presenceClause_text presence), bind_done stop, ofLabels_text]
  rfl

end Array

end Forms

/-- Reading a title that was written gives back the field it tells about: the labels in lower case
with low lines for blanks, and every part that was not left out. -/
theorem title_written (t : WrittenTitle) : FieldTitle.title.parse t.text = .ok t.field := by
  obtain ⟨l, body⟩ := t
  refine parse_done ?_
  show FieldTitle.title (l.text ++ body.text) = .done (WrittenTitle.mk l body).field []
  cases body with
  | nothing => exact orElse_done (nameOnly_done l)
  | variableLength =>
    refine (orElse_unfit (nameOnly_unfit l "variable length.".toList)).trans ?_
    exact orElse_done (variableLength_done l)
  | sized size unit options constraint presence =>
    have text := sized_eq size unit options constraint presence
    have noName := nameOnly_unfit l (size.text ++ (" ".toList ++ (unit.name.toList
      ++ (optionsText options ++ tailText constraint presence))))
    have noVariable := variableLength_unfit l (sized_ne_variable size unit
      (optionsText options ++ tailText constraint presence))
    rw [← text] at noName noVariable
    refine (orElse_unfit noName).trans ((orElse_unfit noVariable).trans ?_)
    cases constraint with
    | none => exact orElse_done (sized_done l size unit options presence)
    | some constraint =>
      refine (orElse_unfit (sized_unfit l size unit options constraint presence)).trans ?_
      exact orElse_done (sizedConstrained_done l size unit options constraint presence)
  | array element =>
    have text : (TitleBody.array element).text
        = ": ".toList ++ '[' :: (element.text ++ ']' :: ".".toList) :=
      append_assoc ..
    rw [text, title_bracket]
    exact orElse_done (array_done l element)
  | constrainedArray element constraint presence =>
    have text : (TitleBody.constrainedArray element constraint presence).text
        = ": ".toList ++ '[' :: (element.text
          ++ ']' :: ';' :: ' ' :: (constraint.text ++ closingText presence)) := by
      rw [constrainedArray_eq, tailText_some]
      rfl
    rw [text, title_bracket, orElse_unfit (array_unfit l element _)]
    exact arrayConstrained_done l element constraint presence

/-- A title with all its parts. -/
example : ∃ t : WrittenTitle, String.ofList t.text
    = "Next Hop (NH): 16 bits (raw, no pad); NH>0; present only when T==1." :=
  let size : WrittenFormula := ⟨.number 16, rfl, fun _ => 0⟩
  let positive : WrittenFormula :=
    ⟨.binary .gt (.field "NH") (.number 0), by decide, fun _ => 0⟩
  let typed : WrittenFormula :=
    ⟨.binary .eq (.field "T") (.number 1), by decide, fun _ => 0⟩
  let options : Options :=
    ⟨⟨["raw"], by decide, by decide⟩, [⟨["no", "pad"], by decide, by decide⟩]⟩
  ⟨{ labels := ⟨⟨["Next", "Hop"], by decide, by decide⟩, some ⟨"NH", by decide⟩⟩
     body := .sized size .bits (some options) (some positive) (some typed) }, by decide⟩

end PacketDraft.Description
