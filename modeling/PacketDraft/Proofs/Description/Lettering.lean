import PacketDraft.Proofs.Description.Moves
import PacketDraft.Proofs.Grammar.Results
import PacketDraft.Proofs.Render.Expressions
import PacketDraft.Proofs.Render.Names

/-!
# The letters of declared names

Labels are made of letters, digits and low lines, so that the names of fields are words in lower case;
phrases have neither parentheses nor brackets. What is read as a formula or a title has such names
only, and so have the tables of a whole document.
-/

namespace PacketDraft.Description

open Document Grammar Grammar.Parser Text List
open Protocol (isNameChar)
open Render.Rust (Mild mildFrom_of_forall)

variable {rows : List FieldRow} {content : List Element} {sentence : String}

/-! ## Characters -/

/-- A word without capital letters. -/
def Lowercase (name : String) : Prop :=
  ∀ c ∈ name.toList, isNameChar c = true ∧ isCapital c = false

theorem Lowercase.mild {name : String} (small : Lowercase name) : Mild name := by
  refine mildFrom_of_forall (fun c mem => ⟨?_, ?_⟩) _
  · rintro rfl
    exact absurd (small _ mem).1 (by decide)
  · rintro rfl
    exact absurd (small _ mem).1 (by decide)

/-- The characters that a label is made of. -/
def isLabelText (c : Char) : Bool :=
  isLabelChar c || c == ' '

theorem toNat_lt_of_isLabelText {c : Char} (own : isLabelText c = true) : c.toNat < 128 := by
  simp only [isLabelText, isLabelChar, isLetter, isLower, isUpper, isDigit, Bool.or_eq_true,
    Bool.and_eq_true, decide_eq_true_eq, beq_iff_eq, Char.le_def, UInt32.le_iff_toNat_le] at own
  change c.val.toNat < 128
  rcases own with (((lower | upper) | digit) | rfl) | rfl
  · have last : ('z').val.toNat = 122 := rfl
    omega
  · have last : ('Z').val.toNat = 90 := rfl
    omega
  · have last : ('9').val.toNat = 57 := rfl
    omega
  · decide
  · decide

/-- The field name of a label is a word in lower case. -/
theorem lowercase_fieldName {label : String} (own : ∀ c ∈ label.toList, isLabelText c = true) :
    Lowercase (fieldName label) := by
  intro d mem
  rw [fieldName, String.toList_ofList,
    lower_of_ascii fun c mem => toNat_lt_of_isLabelText (own c mem), replaceChar, map_map] at mem
  obtain ⟨c, listed, rfl⟩ := mem_map.mp mem
  exact of_ascii (P := fun c => isLabelText c = true →
    let d := if c.toLower = ' ' then '_' else c.toLower
    isNameChar d = true ∧ isCapital d = false) (by decide +kernel)
    (toNat_lt_of_isLabelText (own c listed)) (own c listed)

/-- A phrase without openings is such a field name. -/
theorem mild_fieldName {phrase : String} (closed : ∀ c ∈ phrase.toList, c ≠ '(' ∧ c ≠ '<') :
    Mild (fieldName phrase) := by
  refine mildFrom_of_forall (fun d mem => ?_) _
  rw [fieldName, String.toList_ofList] at mem
  obtain ⟨c, lowered, rfl⟩ := mem_map.mp mem
  split
  · decide
  · rcases mem_lowerFrom lowered with ⟨old, -⟩ | far
    · exact closed c old
    · constructor
      · rintro rfl
        exact absurd far (by decide)
      · rintro rfl
        exact absurd far (by decide)

theorem mem_of_mem_strip {cs : List Char} {c : Char} (mem : c ∈ strip cs) : c ∈ cs := by
  rw [strip, trim, mem_reverse] at mem
  have mem := (dropWhile_sublist isBlank).subset mem
  rw [mem_reverse] at mem
  exact (dropWhile_sublist isBlank).subset mem

/-! ## Words and formulas -/

theorem yields_shortLabel :
    Yields (fun label : String => ∀ c ∈ label.toList, isLabelText c = true) shortLabel := by
  refine (yields_run1 isLabelChar).map fun cs own c mem => ?_
  rw [String.toList_ofList] at mem
  simp [isLabelText, own c mem]

theorem reads_labelText :
    Reads (fun c => isLabelText c = true) (many (do let _ ← labelWord; maybe (lit " "))) := by
  refine Reads.many (Reads.bind (reads_run1 fun c own => ?_) fun _ => (reads_lit ?_).maybe)
  · simp [isLabelText, own]
  · simp [isLabelText]

theorem yields_label :
    Yields (fun label : String => ∀ c ∈ label.toList, isLabelText c = true) label := by
  refine reads_labelText.matched.bind fun cs own => yields_pure fun c mem => ?_
  rw [String.toList_ofList] at mem
  exact own c (mem_of_mem_strip mem)

theorem not_opening_of_isPhraseChar {c : Char} (own : isPhraseChar c = true) :
    c ≠ '(' ∧ c ≠ '<' := by
  constructor
  · rintro rfl
    exact absurd own (by decide)
  · rintro rfl
    exact absurd own (by decide)

theorem not_opening_of_isBlank {c : Char} (own : isBlank c = true) : c ≠ '(' ∧ c ≠ '<' := by
  constructor
  · rintro rfl
    exact absurd own (by decide)
  · rintro rfl
    exact absurd own (by decide)

theorem mem_of_mem_stem {cs ds : List Char} (known : stem cs = .ok ds) : ∀ c ∈ ds, c ∈ cs := by
  unfold stem at known
  split at known
  · cases known
  · cases known
    exact fun c mem => (dropLast_sublist cs).subset mem
  · cases known
    exact fun _ => id

theorem reads_phraseText : Reads (fun c => isPhraseChar c = true ∨ isBlank c = true)
    (many (do let _ ← phraseWord; blanks)) := by
  refine Reads.many (Reads.bind (Reads.bind (reads_run1 fun c => .inl) fun w => ?_) fun _ =>
    reads_blanks fun c => .inr)
  split
  · exact reads_never
  · exact reads_pure w

/-- A phrase has no openings. -/
theorem yields_phrase :
    Yields (fun phrase : String => ∀ c ∈ phrase.toList, c ≠ '(' ∧ c ≠ '<') phrase := by
  refine reads_phraseText.matched.bind fun cs letters => ?_
  have own : ∀ c ∈ cs, c ≠ '(' ∧ c ≠ '<' := fun c mem =>
    (letters c mem).elim not_opening_of_isPhraseChar not_opening_of_isBlank
  refine (yields_ofExcept (P := fun ds => ∀ c ∈ ds, c ≠ '(' ∧ c ≠ '<') fun ds known c mem => ?_).bind
    fun ds own' => yields_pure fun c mem => ?_
  · exact own c (mem_of_mem_strip (mem_of_mem_stem known c mem))
  · rw [String.toList_ofList] at mem
    exact own' c mem

namespace Formula

variable {N : String → Prop}

theorem spells_chained {left f : Formula} {rest : List (String × Formula)} (first : left.Spells N)
    (others : ∀ x ∈ rest, x.2.Spells N) (chain : left.chained rest = .ok f) : f.Spells N := by
  replace chain : rest.foldlM (operate .binary) left = .ok f := chain
  induction rest generalizing left with
  | nil =>
    cases chain
    exact first
  | cons x rest ih =>
    obtain ⟨symbol, right⟩ := x
    rw [forall_mem_cons] at others
    rw [foldlM_cons] at chain
    obtain ⟨g, one, chain⟩ := exceptBind_eq_ok.mp chain
    refine ih ?_ others.2 chain
    rw [operate] at one
    split at one
    · cases one
      exact ⟨first, others.1⟩
    · cases one

/-- The right side of an operation is an operand. -/
theorem yields_operation {operand : Parser Formula} (yields : Yields (Spells N) operand)
    (symbol meant : String) :
    Yields (fun x : String × Formula => x.2.Spells N) (operation symbol meant operand) :=
  yields_skip fun _ => yields_skip fun _ => yields_skip fun _ => yields.bind fun _ own =>
    yields_pure own

theorem yields_ranked {operand : Parser Formula}
    {tail : Parser Formula → Parser (String × Formula)} (yields : Yields (Spells N) operand)
    (tails : Yields (fun x => x.2.Spells N) (tail operand)) :
    Yields (Spells N) (ranked operand tail) :=
  yields.bind fun _ first => tails.many.bind fun _ others =>
    yields_ofExcept fun _ chain => spells_chained first others chain

/-- What is made of operands by operations of all ranks. -/
theorem yields_equalityOf {value : Parser Formula} (yields : Yields (Spells N) value) :
    Yields (Spells N) (equalityOf value) := by
  have pow : Yields (Spells N) (powOf value) :=
    yields_ranked yields (yields_skip fun _ => yields_skip fun _ => yields.bind fun _ own =>
      yields_pure own)
  have product : Yields (Spells N) (productOf value) :=
    yields_ranked pow ((yields_operation pow _ _).orElse ((yields_operation pow _ _).orElse
      (yields_operation pow _ _)))
  have sum : Yields (Spells N) (sumOf value) :=
    yields_ranked product ((yields_operation product _ _).orElse (yields_operation product _ _))
  have order : Yields (Spells N) (orderOf value) :=
    yields_ranked sum ((yields_operation sum _ _).orElse ((yields_operation sum _ _).orElse
      ((yields_operation sum _ _).orElse (yields_operation sum _ _))))
  have logic : Yields (Spells N) (logicOf value) :=
    yields_ranked order ((yields_operation order _ _).orElse ((yields_operation order _ _).orElse
      (yields_operation order _ _)))
  exact yields_ranked logic ((yields_operation logic _ _).orElse (yields_operation logic _ _))

/-- Operands have names of labels, however deep they are in parentheses. -/
theorem yields_valueWithin (depth : Nat) : Yields (Spells Mild) (valueWithin depth) := by
  induction depth with
  | zero => exact yields_never
  | succ depth ih =>
    have named := yields_shortLabel
    refine (Yields.map (yields_any _) fun _ _ => trivial).orElse (Yields.orElse ?_ (Yields.orElse ?_
      (Yields.orElse ?_ ?_)))
    · exact yields_skip fun _ => yields_skip fun _ => (yields_equalityOf ih).bind fun _ own =>
        yields_skip fun _ => yields_skip fun _ => yields_pure own
    · exact yields_skip fun _ => named.bind fun _ own => yields_skip fun _ =>
        yields_pure (lowercase_fieldName own).mild
    · exact named.bind fun _ own => yields_skip fun _ => named.bind fun _ own' =>
        yields_pure ⟨(lowercase_fieldName own).mild, (lowercase_fieldName own').mild⟩
    · exact named.map fun _ own => (lowercase_fieldName own).mild

theorem yields_formula : Yields (Spells Mild) formula :=
  fun s => yields_equalityOf (yields_valueWithin (s.length + 1)) s

end Formula

/-! ## Titles -/

/-- The label of a field is a word in lower case, and its formulas have the names of labels. A field
with a count is no array without one. -/
structure FieldTitle.Lettered (title : FieldTitle) : Prop where
  label : Lowercase title.fullLabel
  size : ∀ formula ∈ title.size, formula.Spells Mild
  constraint : ∀ formula ∈ title.constraint, formula.Spells Mild
  presence : ∀ formula ∈ title.presence, formula.Spells Mild
  single : title.size.isSome = true → title.isArray = false

namespace FieldTitle

theorem yields_labels :
    Yields (fun ls : String × Option String => Lowercase (ofLabels ls).fullLabel) labels :=
  yields_skip fun _ => yields_label.bind fun _ own => yields_skip fun _ =>
    yields_pure (lowercase_fieldName own)

theorem yields_presenceClause :
    Yields (fun presence => ∀ formula ∈ presence, formula.Spells Mild) presenceClause :=
  (yields_skip fun _ => Formula.yields_formula).maybe

/-- Titles in all forms are lettered. -/
theorem yields_title : Yields Lettered title := by
  have formula := Formula.yields_formula
  have presence := yields_presenceClause
  have labels := yields_labels
  have own : ∀ {f : Formula}, f.Spells Mild → ∀ x ∈ some f, x.Spells Mild := by
    rintro f spells x ⟨⟩
    exact spells
  refine Yields.orElse ?_ (Yields.orElse ?_ (Yields.orElse ?_ (Yields.orElse ?_ (Yields.orElse ?_
    (Yields.orElse ?_ ?_)))))
  · exact labels.bind fun _ label => yields_skip fun _ => yields_pure
      ⟨label, by simp [ofLabels], by simp [ofLabels], by simp [ofLabels], by simp [ofLabels]⟩
  · exact labels.bind fun _ label => yields_skip fun _ => yields_skip fun _ => yields_pure
      ⟨label, by simp [ofLabels], by simp [ofLabels], by simp [ofLabels], by simp [ofLabels]⟩
  · exact labels.bind fun _ label => yields_skip fun _ => formula.bind fun _ size =>
      yields_skip fun _ => yields_skip fun _ => yields_skip fun _ => presence.bind fun _ present =>
        yields_skip fun _ => yields_pure ⟨label, own size, by simp [ofLabels], present, fun _ => rfl⟩
  · refine labels.bind fun _ label => yields_skip fun _ => formula.maybe.bind fun size? sized =>
      yields_skip fun _ => yields_skip fun _ => yields_skip fun _ => yields_skip fun _ =>
        formula.bind fun _ constrained => presence.bind fun _ present => yields_skip fun _ => ?_
    cases size? with
    | none => exact yields_abort _
    | some size => exact yields_pure ⟨label, sized, own constrained, present, fun _ => rfl⟩
  · exact labels.bind fun _ label => yields_skip fun _ => formula.bind fun _ constrained =>
      yields_skip fun _ => yields_skip fun _ => presence.bind fun _ present =>
        yields_pure ⟨label, by simp [ofLabels], own constrained, present, by simp [ofLabels]⟩
  · exact labels.bind fun _ label => yields_skip fun _ => yields_skip fun _ => yields_pure
      ⟨label, by simp [ofLabels], by simp [ofLabels], by simp [ofLabels], by simp [ofLabels]⟩
  · exact labels.bind fun _ label => yields_skip fun _ => yields_skip fun _ =>
      formula.bind fun _ constrained => presence.bind fun _ present => yields_skip fun _ =>
        yields_pure ⟨label, by simp [ofLabels], own constrained, present, by simp [ofLabels]⟩

end FieldTitle

theorem yields_contextUse : Yields (fun use : Option (Formula × String) =>
    ∀ action ∈ use, action.1.Spells Mild ∧ Mild (fieldName action.2)) Sentence.contextUse :=
  yields_skip fun _ => (yields_skip fun _ => Formula.yields_formula.bind fun _ spells =>
    yields_skip fun _ => yields_phrase.bind fun _ closed => yields_skip fun _ =>
      yields_pure ⟨spells, mild_fieldName closed⟩).maybe

/-! ## Tables -/

/-- The names in the description of a field are as they should be. -/
structure FieldRow.Lettered (f : FieldRow) : Prop where
  title : f.title.Lettered
  stored : ∀ action ∈ f.stored, action.1.Spells Mild ∧ Mild (fieldName action.2)

/-- So are those in the description of a structure. -/
structure StructRow.Lettered (row : StructRow) : Prop where
  aliases : ∀ p ∈ row.aliases, Lowercase p.2
  fields : ∀ p ∈ row.fields, p.2.Lettered

theorem forall_mem_put {α : Type} {P : String × α → Prop} {key : String} {value : α}
    {rows : List (String × α)} (own : P (key, value)) (others : ∀ p ∈ rows, P p) :
    ∀ p ∈ Table.put key value rows, P p := by
  induction rows with
  | nil => exact forall_mem_singleton.mpr own
  | cons row rows ih =>
    rw [forall_mem_cons] at others
    unfold Table.put
    split
    · next same =>
      subst same
      exact forall_mem_cons.mpr ⟨own, others.2⟩
    · exact forall_mem_cons.mpr ⟨others.1, ih others.2⟩

theorem StructRow.Lettered.add {row : StructRow} {f : FieldRow} (lettered : row.Lettered)
    (own : f.Lettered) : (row.add f).Lettered where
  aliases := by
    unfold StructRow.add
    dsimp only
    split
    · exact forall_mem_put own.title.label lettered.aliases
    · exact lettered.aliases
  fields := forall_mem_put own lettered.fields

theorem lettered_ofFields (own : ∀ f ∈ rows, f.Lettered) : (StructRow.ofFields rows).Lettered := by
  have start : StructRow.Lettered {} := ⟨by simp, by simp⟩
  unfold StructRow.ofFields
  generalize ({} : StructRow) = row at start
  induction rows generalizing row with
  | nil => exact start
  | cons f rows ih =>
    rw [forall_mem_cons] at own
    exact ih own.2 _ (start.add own.1)

theorem Yields.reading? {α : Type} {P : α → Prop} {p : Parser α} {text : String} {a : α}
    (yields : Yields P p) (read : reading? p text = some a) : P a := by
  unfold Description.reading? at read
  cases whole : p.parse (strip text.toList) with
  | error e =>
    rw [whole] at read
    cases read
  | ok b =>
    rw [whole] at read
    cases read
    exact yields.parse whole

theorem lettered_definedField {term description : Element} {f : FieldRow}
    (known : definedField? term description = some f) : f.Lettered := by
  obtain ⟨items, -, known⟩ := Option.bind_eq_some_iff.mp known
  obtain ⟨first, -, known⟩ := Option.bind_eq_some_iff.mp known
  obtain ⟨text, -, known⟩ := Option.bind_eq_some_iff.mp known
  obtain ⟨title, read, known⟩ := Option.bind_eq_some_iff.mp known
  cases known
  refine ⟨Yields.reading? FieldTitle.yields_title read, fun action stored => ?_⟩
  obtain ⟨items, -, stored⟩ := Option.bind_eq_some_iff.mp stored
  obtain ⟨last, -, stored⟩ := Option.bind_eq_some_iff.mp stored
  obtain ⟨text, -, stored⟩ := Option.bind_eq_some_iff.mp stored
  obtain ⟨use, read, stored⟩ := Option.bind_eq_some_iff.mp stored
  exact Yields.reading? yields_contextUse read action stored

theorem lettered_describedFields {i : Nat} (known : describedFields? content i = some rows) :
    ∀ f ∈ rows, f.Lettered := by
  obtain ⟨below, -, known⟩ := Option.bind_eq_some_iff.mp known
  obtain ⟨inner, -, known⟩ := Option.bind_eq_some_iff.mp known
  split at known
  · obtain ⟨items, -, known⟩ := Option.bind_eq_some_iff.mp known
    obtain ⟨first, -, known⟩ := Option.bind_eq_some_iff.mp known
    obtain ⟨pieces, -, known⟩ := Option.bind_eq_some_iff.mp known
    refine Tables.forall_of_mapM known fun text f own => ?_
    obtain ⟨title, read, own⟩ := Option.bind_eq_some_iff.mp own
    cases own
    exact ⟨Yields.reading? FieldTitle.yields_title read, by simp⟩
  · obtain ⟨list, -, known⟩ := Option.bind_eq_some_iff.mp known
    split at known
    · split at known
      · exact Tables.forall_of_mapM known fun p f own => lettered_definedField own
      · cases known
    · cases known
      simp

/-- A name that is made of a phrase. -/
def IsPhrased (name : String) : Prop :=
  ∃ phrase, typeName phrase = .ok name

namespace Tables

/-- All structures and enumerations have the names of phrases, and so have the variants of
enumerations; functions and the names in structures are in lower case. -/
structure Lettered (t : Tables) : Prop where
  structs : ∀ p ∈ t.structs, IsPhrased p.1 ∧ p.2.Lettered
  enums : ∀ p ∈ t.enums, IsPhrased p.1 ∧ ∀ v ∈ p.2, IsPhrased v
  functions : ∀ p ∈ t.functions, Lowercase p.1

theorem forall_mem_noteIn {α : Type} {P : String × α → Prop} {found : Option (String × α)}
    {rows : List (String × α)} (own : ∀ p ∈ found, P p) (others : ∀ p ∈ rows, P p) :
    ∀ p ∈ noteIn found rows, P p := by
  cases found with
  | none => exact others
  | some p => exact forall_mem_put (own p rfl) others

theorem lettered_describedStruct {i : Nat} {p : String × StructRow}
    (known : p ∈ describedStruct? content i sentence) : IsPhrased p.1 ∧ p.2.Lettered := by
  obtain ⟨name, -, known⟩ := Option.bind_eq_some_iff.mp known
  obtain ⟨below, -, known⟩ := Option.bind_eq_some_iff.mp known
  obtain ⟨art, -, known⟩ := Option.bind_eq_some_iff.mp known
  obtain ⟨diagram, -, known⟩ := Option.bind_eq_some_iff.mp known
  obtain ⟨fields, described, known⟩ := Option.bind_eq_some_iff.mp known
  obtain ⟨key, named, known⟩ := Option.bind_eq_some_iff.mp known
  cases known
  exact ⟨⟨name, toOption_typeName named⟩, lettered_ofFields (lettered_describedFields described)⟩

theorem phrased_describedEnum {p : String × List String} (known : p ∈ describedEnum? sentence) :
    IsPhrased p.1 ∧ ∀ v ∈ p.2, IsPhrased v := by
  obtain ⟨⟨name, phrases⟩, -, known⟩ := Option.bind_eq_some_iff.mp known
  obtain ⟨variants, named, known⟩ := Option.bind_eq_some_iff.mp known
  obtain ⟨key, own, known⟩ := Option.bind_eq_some_iff.mp known
  cases known
  exact ⟨⟨name, toOption_typeName own⟩, mapM_typeName named⟩

theorem lowercase_describedFunction {i : Nat} {p : String × Sentence.Signature}
    (known : p ∈ describedFunction? content i sentence) : Lowercase p.1 := by
  obtain ⟨name, read, known⟩ := Option.bind_eq_some_iff.mp known
  obtain ⟨below, -, known⟩ := Option.bind_eq_some_iff.mp known
  obtain ⟨art, -, known⟩ := Option.bind_eq_some_iff.mp known
  obtain ⟨signature, -, known⟩ := Option.bind_eq_some_iff.mp known
  cases known
  have own : Yields (fun name : String => ∀ c ∈ name.toList, isLabelText c = true)
      Sentence.functionIntroduction :=
    yields_skip fun _ => yields_skip fun _ => yields_shortLabel.bind fun _ small =>
      yields_skip fun _ => yields_pure small
  exact lowercase_fieldName (Yields.reading? own read)

theorem stable_lettered : Stable Lettered := by
  intro content i sentence t lettered
  have noted : Lettered { t with
      structs := noteIn (describedStruct? content i sentence) t.structs
      functions := noteIn (describedFunction? content i sentence) t.functions
      enums := noteIn (describedEnum? sentence) t.enums
      serialiseTo := noteIn (describedConversion? Sentence.serialisation sentence) t.serialiseTo
      parseFrom := noteIn (describedConversion? Sentence.parsing sentence) t.parseFrom } :=
    ⟨forall_mem_noteIn (fun _ => lettered_describedStruct) lettered.structs,
      forall_mem_noteIn (fun _ => phrased_describedEnum) lettered.enums,
      forall_mem_noteIn (fun _ => lowercase_describedFunction) lettered.functions⟩
  unfold note noteProtocol
  split
  · exact noted
  · exact ⟨noted.structs, noted.enums, noted.functions⟩

theorem lettered_noteDocument {document : Element} {t : Tables}
    (noted : noteDocument document {} = (.ok (), t)) : t.Lettered :=
  (noteDocument_keeps stable_lettered document).of_eq noted ⟨by simp, by simp, by simp⟩

theorem Lettered.struct {t : Tables} (lettered : t.Lettered) {name : String} {row : StructRow}
    (described : t.structs.lookup name = some row) : IsPhrased name ∧ row.Lettered :=
  lettered.structs _ (Protocol.Store.mem_of_lookup described)

/-- Lettered tables have mild names. -/
theorem Lettered.trims {t : Tables} (lettered : t.Lettered) : t.Trims Mild t where
  labels _ := rfl
  enums := rfl
  functions := rfl
  pdus := rfl
  whole := ⟨_, rfl⟩
  spells name row described := by
    have own := (lettered.struct described).2
    refine ⟨fun p mem => (own.aliases p mem).mild, fun p mem => ?_⟩
    have field := own.fields p mem
    exact ⟨field.title.size, field.title.constraint, field.title.presence, field.stored⟩

/-- The labels of described structures are words in lower case. -/
theorem Lettered.hasLabel {t : Tables} (lettered : t.Lettered) {struct label : String}
    (field : t.HasLabel struct label) : IsPhrased struct ∧ Lowercase label := by
  obtain ⟨row, described, mem⟩ := field
  obtain ⟨phrased, own⟩ := lettered.struct described
  obtain ⟨p, listed, rfl⟩ := mem_map.mp mem
  exact ⟨phrased, (own.fields p listed).title.label⟩

end Tables

end PacketDraft.Description
