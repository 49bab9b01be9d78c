import PacketDraft.Proofs.Description.Lexeme
import PacketDraft.Proofs.Text.Blank
import PacketDraft.Proofs.Text.Case

/-!
# Texts of several words

Labels, names of types and options are words with one blank between neighbours. Each is read back
from its text: a label up to the first character that cannot belong to it, the name of a type in the
singular, and options between commas.
-/

namespace PacketDraft.Description

open Grammar Grammar.Parser Text List

variable {rest : List Char} {ws : List String}

/-- One or more words of a kind. -/
structure Words (isWord : String → Bool) where
  list : List String
  nonempty : list ≠ []
  all : ∀ w ∈ list, isWord w = true

/-- Words with one blank between neighbours. -/
def spaced (words : List String) : List Char :=
  [' '].intercalate (words.map String.toList)

/-- The text of some words. -/
def Words.text {isWord : String → Bool} (ws : Words isWord) : List Char :=
  spaced ws.list

/-- Whether a text can be a word of the name of a type. -/
def isPhraseWord (w : String) : Bool :=
  !w.toList.isEmpty && w.toList.all isPhraseChar && !reserved.contains w

/-- The field name of a label: its words in lower case with low lines between them. -/
def Words.fieldName (ws : Words isLabel) : String :=
  String.ofList (['_'].intercalate (ws.list.map fun w => w.toList.map Char.toLower))

/-- The name of a type without a final `s`. -/
def Words.singular (ws : Words isPhraseWord) : String :=
  String.ofList (if ws.text.getLast? = some 's' then ws.text.dropLast else ws.text)

/-- Words are not empty and have no blanks in them. -/
def Visible (isWord : String → Bool) : Prop :=
  ∀ w, isWord w = true → w.toList ≠ [] ∧ ∀ c ∈ w.toList, isBlank c = false

theorem visible_isLabel : Visible isLabel := fun _ label =>
  ⟨isLabel_ne_nil label, fun _ mem => isBlank_of_isLabelChar (isLabelChar_of_mem label mem)⟩

theorem isBlank_of_isPhraseChar {c : Char} (h : isPhraseChar c = true) : isBlank c = false := by
  simp only [isPhraseChar, Bool.or_eq_true, beq_iff_eq] at h
  rcases h with label | rfl
  · exact isBlank_of_isLabelChar label
  · decide

theorem isPhraseWord_iff {w : String} : isPhraseWord w = true ↔
    w.toList ≠ [] ∧ (∀ c ∈ w.toList, isPhraseChar c = true) ∧ reserved.contains w = false := by
  simp [isPhraseWord, and_assoc]

theorem visible_isPhraseWord : Visible isPhraseWord := by
  intro w word
  obtain ⟨nonempty, chars, -⟩ := isPhraseWord_iff.mp word
  exact ⟨nonempty, fun c mem => isBlank_of_isPhraseChar (chars c mem)⟩

theorem spaced_singleton (w : String) : spaced [w] = w.toList := by
  simp [spaced]

theorem spaced_cons_cons (w next : String) (ws : List String) :
    spaced (w :: next :: ws) = w.toList ++ ' ' :: spaced (next :: ws) := by
  simp only [spaced, map_cons, intercalate_cons_cons, append_assoc,
    singleton_append]

section Visible

variable {isWord : String → Bool} {α : Type}

/-- A text of words starts with a character of its first word. -/
theorem spaced_starts (visible : Visible isWord) {w : String} (word : isWord w = true)
    (ws : List String) : ∃ c cs, spaced (w :: ws) = c :: cs ∧ c ∈ w.toList := by
  obtain ⟨nonempty, -⟩ := visible w word
  obtain ⟨c, cs, letters⟩ := exists_cons_of_ne_nil nonempty
  cases ws with
  | nil => exact ⟨c, cs, by rw [spaced_singleton, letters], by simp [letters]⟩
  | cons next ws =>
    exact ⟨c, _, by rw [spaced_cons_cons, letters, cons_append], by simp [letters]⟩

/-- A text of words ends with a character of its last word. -/
theorem getLast?_spaced (visible : Visible isWord) (all : ∀ w ∈ ws, isWord w = true) {c : Char}
    (last : c ∈ (spaced ws).getLast?) : ∃ w ∈ ws, c ∈ w.toList := by
  induction ws with
  | nil => cases last
  | cons w ws ih =>
    cases ws with
    | nil =>
      rw [spaced_singleton] at last
      exact ⟨w, mem_cons_self, mem_of_mem_getLast? last⟩
    | cons next ws =>
      have nextWord := all next (by simp)
      obtain ⟨d, ds, start, -⟩ := spaced_starts visible nextWord ws
      have shift : (spaced (w :: next :: ws)).getLast? = (spaced (next :: ws)).getLast? := by
        rw [spaced_cons_cons, start, List.getLast?_append_cons, List.getLast?_cons_cons]
      rw [shift] at last
      obtain ⟨u, mem, letter⟩ := ih (fun u mem => all u (mem_cons_of_mem w mem)) last
      exact ⟨u, mem_cons_of_mem w mem, letter⟩

theorem Words.starts (visible : Visible isWord) (ws : Words isWord) :
    ∃ c cs, ws.text = c :: cs ∧ ∃ w ∈ ws.list, c ∈ w.toList := by
  obtain ⟨w, more, list⟩ := exists_cons_of_ne_nil ws.nonempty
  obtain ⟨c, cs, start, letter⟩ := spaced_starts visible (ws.all w (by simp [list])) more
  exact ⟨c, cs, by rw [Words.text, list, start], w, by simp [list], letter⟩

theorem Words.trimmed (visible : Visible isWord) (ws : Words isWord) :
    Trimmed isBlank ws.text := by
  refine ⟨fun c head => ?_, fun c last => ?_⟩
  · obtain ⟨d, ds, start, w, mem, letter⟩ := ws.starts visible
    rw [start] at head
    cases head
    exact (visible w (ws.all w mem)).2 c letter
  · obtain ⟨w, mem, letter⟩ := getLast?_spaced visible ws.all last
    exact (visible w (ws.all w mem)).2 c letter

/-- Words are read one after the other if each of them is, before a blank and another word as well
as before the rest of the text. -/
theorem steps_spaced (visible : Visible isWord) {p : Parser α} {P : String → α → Prop}
    {left : List Char} (less : left.length ≤ rest.length)
    (inner : ∀ w, isWord w = true → ∀ c s, isBlank c = false →
      ∃ a, p (w.toList ++ ' ' :: c :: s) = .done a (c :: s) ∧ P w a)
    (last : ∀ w, isWord w = true → ∃ a, p (w.toList ++ rest) = .done a left ∧ P w a)
    (nonempty : ws ≠ []) (all : ∀ w ∈ ws, isWord w = true) :
    ∃ as, Steps p (spaced ws ++ rest) as left ∧ List.Forall₂ P ws as := by
  induction ws with
  | nil => exact absurd rfl nonempty
  | cons w ws ih =>
    have word := all w mem_cons_self
    have size : 0 < w.toList.length := length_pos_iff.mpr (visible w word).1
    cases ws with
    | nil =>
      obtain ⟨a, read, fits⟩ := last w word
      refine ⟨[a], ?_, .cons fits .nil⟩
      rw [spaced_singleton]
      refine .cons read ?_ (.refl left)
      rw [length_append]
      omega
    | cons next ws =>
      obtain ⟨as, steps, fit⟩ := ih (by simp) fun u mem => all u (mem_cons_of_mem w mem)
      obtain ⟨c, cs, start, letter⟩ := spaced_starts visible (all next (by simp)) ws
      obtain ⟨a, read, fits⟩ :=
        inner w word c (cs ++ rest) ((visible next (all next (by simp))).2 c letter)
      rw [start, cons_append] at steps
      refine ⟨a :: as, ?_, .cons fits fit⟩
      rw [spaced_cons_cons, start, append_assoc, cons_append, cons_append]
      refine .cons read ?_ steps
      simp only [length_append, length_cons]
      omega

end Visible

/-! ## Labels -/

theorem labelWord_append {w : String} (label : isLabel w)
    (stop : ∀ c ∈ rest.head?, isLabelChar c = false) :
    labelWord (w.toList ++ rest) = .done w.toList rest :=
  run1_append (isLabel_ne_nil label) (fun _ mem => isLabelChar_of_mem label mem) stop

theorem labelWord_unfit {s : List Char} (h : ∀ c ∈ s.head?, isLabelChar c = false) :
    labelWord s = .unfit :=
  run1_unfit h

/-- A label is read up to the first character that cannot belong to it; one blank at its end is
passed over. -/
theorem label_text (ws : Words isLabel) {gap : List Char} (gaps : gap = [] ∨ gap = [' '])
    (stop : ∀ c ∈ rest.head?, isLabelChar c = false ∧ c ≠ ' ') :
    label (ws.text ++ (gap ++ rest)) = .done (String.ofList ws.text) rest := by
  have noLabel : ∀ c ∈ rest.head?, isLabelChar c = false := fun c head => (stop c head).1
  have blank : ∀ s, lit " " (' ' :: s) = .done " " s := fun s => lit_of_eq rfl
  have word : ∀ {w : String} (s : List Char), isLabel w →
      (do let _ ← labelWord; maybe (lit " ") : Parser (Option String)) (w.toList ++ ' ' :: s)
        = .done (some " ") s := by
    intro w s label
    rw [bind_done (labelWord_append label (forall_head_cons (by decide))),
      maybe_done (blank s)]
  obtain ⟨as, steps, -⟩ : ∃ as, Steps (do let _ ← labelWord; maybe (lit " "))
      (ws.text ++ (gap ++ rest)) as rest ∧ List.Forall₂ (fun _ _ => True) ws.list as := by
    refine steps_spaced visible_isLabel (by simp) ?_ ?_ ws.nonempty ws.all
    · intro w label c s _
      exact ⟨some " ", word (c :: s) label, trivial⟩
    · intro w label
      rcases gaps with rfl | rfl
      · refine ⟨none, ?_, trivial⟩
        have noBlank : lit " " rest = .unfit :=
          lit_unfit_of_first rfl fun c head => (stop c head).2
        rw [nil_append, bind_done (labelWord_append label noLabel), maybe_unfit noBlank]
      · exact ⟨some " ", word rest label, trivial⟩
  have all := many_of_steps steps (bind_unfit (labelWord_unfit noLabel))
  have trimmed : strip (ws.text ++ gap) = ws.text := by
    have around : trim isBlank ([] ++ (ws.text ++ gap)) = ws.text := by
      refine trim_around (by simp) ?_ (ws.trimmed visible_isLabel)
      rcases gaps with rfl | rfl
      · simp
      · simp [isBlank]
    exact around
  unfold label
  rw [← append_assoc] at all ⊢
  rw [bind_done (matched_append all), trimmed]
  rfl

/-! ## Field names -/

theorem toNat_lt_of_isLabelChar {c : Char} (h : isLabelChar c = true) : c.toNat < 128 := by
  simp only [isLabelChar, isLetter, isLower, isUpper, isDigit, Bool.or_eq_true, Bool.and_eq_true,
    decide_eq_true_eq, Char.le_def, UInt32.le_iff_toNat_le, beq_iff_eq] at h
  have code : c.toNat = c.val.toNat := rfl
  rcases h with h | rfl
  · simp at h
    omega
  · decide

theorem mem_spaced {c : Char} (mem : c ∈ spaced ws) : c = ' ' ∨ ∃ w ∈ ws, c ∈ w.toList := by
  rcases mem_intercalate mem with between | ⟨piece, listed, inside⟩
  · exact .inl (mem_singleton.mp between)
  · obtain ⟨w, word, rfl⟩ := mem_map.mp listed
    exact .inr ⟨w, word, inside⟩

theorem map_spaced (f : Char → Char) (ws : List String) :
    (spaced ws).map f = [f ' '].intercalate (ws.map fun w => w.toList.map f) := by
  induction ws with
  | nil => rfl
  | cons w ws ih =>
    cases ws with
    | nil => simp [spaced]
    | cons next ws =>
      rw [spaced_cons_cons, map_append, map_cons, ih, map_cons, map_cons,
        map_cons, intercalate_cons_cons, append_assoc, singleton_append]

/-- The field name of a label is that of its words. -/
theorem fieldName_text (ws : Words isLabel) :
    fieldName (String.ofList ws.text) = ws.fieldName := by
  have ascii : ∀ c ∈ ws.text, c.toNat < 128 := by
    intro c mem
    rcases mem_spaced mem with rfl | ⟨w, listed, letter⟩
    · decide
    · exact toNat_lt_of_isLabelChar (isLabelChar_of_mem (ws.all w listed) letter)
  have noBlank : ∀ n < 128, (Char.ofNat n).toLower = ' ' → Char.ofNat n = ' ' := by decide +kernel
  have letters : ∀ w ∈ ws.list, ∀ c ∈ w.toList,
      (if c.toLower = ' ' then '_' else c.toLower) = c.toLower := by
    intro w listed c letter
    have label := isLabelChar_of_mem (ws.all w listed) letter
    refine if_neg fun blank => ?_
    have same := noBlank c.toNat (toNat_lt_of_isLabelChar label)
    rw [Char.ofNat_toNat] at same
    rw [same blank] at label
    exact absurd label (by decide)
  have words : (ws.list.map fun w =>
        w.toList.map fun c => if c.toLower = ' ' then '_' else c.toLower)
      = ws.list.map fun w => w.toList.map Char.toLower :=
    map_congr_left fun w listed => map_congr_left (letters w listed)
  unfold fieldName Words.fieldName replaceChar
  rw [String.toList_ofList, lower_of_ascii ascii, map_map, Words.text]
  exact congrArg String.ofList ((map_spaced _ ws.list).trans (by rw [← words]; rfl))

/-! ## Names of types -/

theorem phraseWord_append {w : String} (word : isPhraseWord w = true)
    (stop : ∀ c ∈ rest.head?, isPhraseChar c = false) :
    phraseWord (w.toList ++ rest) = .done w.toList rest := by
  obtain ⟨nonempty, chars, free⟩ := isPhraseWord_iff.mp word
  have read : hyphenated (w.toList ++ rest) = .done w.toList rest :=
    run1_append nonempty chars stop
  unfold phraseWord
  rw [bind_done read, String.ofList_toList, free]
  rfl

theorem phraseWord_unfit {s : List Char} (h : ∀ c ∈ s.head?, isPhraseChar c = false) :
    phraseWord s = .unfit :=
  bind_unfit (run1_unfit h)

theorem stem_text (ws : Words isPhraseWord) : stem ws.text = .ok ws.singular.toList := by
  obtain ⟨c, cs, start, -⟩ := ws.starts visible_isPhraseWord
  have last : ws.text.getLast? = some ((c :: cs).getLast (cons_ne_nil c cs)) := by
    rw [start, List.getLast?_eq_some_getLast]
  unfold stem Words.singular
  rw [String.toList_ofList, last]
  split
  · next h => cases h
  · next h => rw [if_pos h]
  · next d other h =>
    have noS : some ((c :: cs).getLast (cons_ne_nil c cs)) ≠ some 's' := by
      intro ending
      exact other (Option.some.inj (h.symm.trans ending))
    rw [if_neg noS]

/-- A name of a type is read up to the first text behind it that is no word of a name, with the blanks
in between, and made singular. -/
theorem phrase_before (ws : Words isPhraseWord) {gap : List Char} (gaps : ∀ c ∈ gap, isBlank c = true)
    (ends : ∀ c ∈ (gap ++ rest).head?, isPhraseChar c = false)
    (noBlank : ∀ c ∈ rest.head?, isBlank c = false) (noWord : phraseWord rest = .unfit) :
    phrase (ws.text ++ (gap ++ rest)) = .done ws.singular rest := by
  obtain ⟨as, steps, -⟩ : ∃ as, Steps (do let _ ← phraseWord; blanks)
      (ws.text ++ (gap ++ rest)) as rest ∧ List.Forall₂ (fun _ _ => True) ws.list as := by
    refine steps_spaced visible_isPhraseWord (by simp) ?_ ?_ ws.nonempty ws.all
    · intro w word c s visible
      refine ⟨(), ?_, trivial⟩
      have blank : blanks (' ' :: c :: s) = .done () (c :: s) :=
        blanks_space (forall_head_cons visible)
      rw [bind_done (phraseWord_append word (forall_head_cons (by decide))), blank]
    · intro w word
      refine ⟨(), ?_, trivial⟩
      rw [bind_done (phraseWord_append word ends), blanks_append gaps noBlank]
  have all := many_of_steps steps (bind_unfit noWord)
  rw [← append_assoc] at all ⊢
  have text : phraseText (ws.text ++ gap ++ rest) = .done (ws.text ++ gap) rest :=
    matched_append all
  have trimmed : strip (ws.text ++ gap) = ws.text :=
    trim_append (ws.trimmed visible_isPhraseWord) gaps
  unfold phrase
  rw [bind_done text, trimmed, stem_text]
  show Reply.done (String.ofList ws.singular.toList) rest = _
  rw [String.ofList_toList]

/-- A name of a type is read up to the first character that cannot belong to it, and made
singular. -/
theorem phrase_text (ws : Words isPhraseWord)
    (stop : ∀ c ∈ rest.head?, isPhraseChar c = false ∧ isBlank c = false) :
    phrase (ws.text ++ rest) = .done ws.singular rest := by
  have noWord : ∀ c ∈ rest.head?, isPhraseChar c = false := fun c head => (stop c head).1
  have noBlank : ∀ c ∈ rest.head?, isBlank c = false := fun c head => (stop c head).2
  have noGap : ∀ c ∈ ([] : List Char), isBlank c = true := by simp
  exact phrase_before ws noGap noWord noBlank (phraseWord_unfit noWord)

/-! ## Options -/

/-- Options between commas. -/
structure Options where
  first : Words isLabel
  more : List (Words isLabel)

/-- The text of options, with a blank behind each comma. -/
def Options.text (os : Options) : List Char :=
  os.first.text ++ os.more.flatMap fun o => ',' :: ' ' :: o.text

/-- The options one by one. -/
def Options.list (os : Options) : List String :=
  (os.first :: os.more).map fun o => String.ofList o.text

/-- Blanks around single words are squeezed. -/
theorem squeeze_pieces {pieces : List (List Char)}
    (single : List.Forall₂ (fun w piece => words piece = [w.toList]) ws pieces) :
    squeeze ([' '].intercalate pieces) = spaced ws := by
  have all : pieces.flatMap words = ws.map String.toList := by
    induction single with
    | nil => rfl
    | cons one _ ih => rw [flatMap_cons, map_cons, one, ih, singleton_append]
  unfold squeeze
  rw [words_intercalate, all]
  rfl

theorem labelWords_text (ws : Words isLabel)
    (stop : ∀ c ∈ rest.head?, isLabelChar c = false ∧ isBlank c = false) :
    ∃ text, labelWords (ws.text ++ rest) = .done text rest ∧ squeeze text = ws.text := by
  have noLabel : ∀ c ∈ rest.head?, isLabelChar c = false := fun c head => (stop c head).1
  have noBlank : ∀ c ∈ rest.head?, isBlank c = false := fun c head => (stop c head).2
  have single : ∀ {w : String}, isLabel w → words w.toList = [w.toList] := fun label =>
    words_of_visible (visible_isLabel _ label).1 (visible_isLabel _ label).2
  obtain ⟨pieces, steps, parts⟩ : ∃ pieces,
      Steps (matched (do let _ ← labelWord; blanks)) (ws.text ++ rest) pieces rest ∧
      List.Forall₂ (fun w piece => words piece = [w.toList]) ws.list pieces := by
    refine steps_spaced visible_isLabel (Nat.le_refl _) ?_ ?_ ws.nonempty ws.all
    · intro w label c s visible
      have gap : blanks (' ' :: c :: s) = .done () (c :: s) :=
        blanks_space (forall_head_cons visible)
      refine ⟨w.toList ++ [' '], ?_, ?_⟩
      · have read : (do let _ ← labelWord; blanks : Parser Unit) (w.toList ++ [' '] ++ c :: s)
            = .done () (c :: s) := by
          rw [append_assoc, singleton_append,
            bind_done (labelWord_append label (forall_head_cons (by decide))), gap]
        have text := matched_append read
        rwa [append_assoc, singleton_append] at text
      · rw [words_append_blank (by decide), single label]
        rfl
    · intro w label
      have read : (do let _ ← labelWord; blanks : Parser Unit) (w.toList ++ rest)
          = .done () rest := by
        rw [bind_done (labelWord_append label noLabel), blanks_of_head noBlank]
      exact ⟨w.toList, matched_append read, single label⟩
  have all := many_of_steps steps (matched_unfit (bind_unfit (labelWord_unfit noLabel)))
  refine ⟨[' '].intercalate pieces, ?_, squeeze_pieces parts⟩
  unfold labelWords
  rw [bind_done all]
  rfl

/-- One more option behind a comma. -/
def nextOption : Parser (List Char) := do
  let _ ← lit ","
  blanks
  labelWords

theorem nextOption_text (ws : Words isLabel)
    (stop : ∀ c ∈ rest.head?, isLabelChar c = false ∧ isBlank c = false) :
    ∃ text, nextOption (',' :: ' ' :: (ws.text ++ rest)) = .done text rest ∧
      squeeze text = ws.text := by
  obtain ⟨c, cs, start, w, mem, letter⟩ := ws.starts visible_isLabel
  have visible : isBlank c = false := (visible_isLabel w (ws.all w mem)).2 c letter
  have comma : lit "," (',' :: ' ' :: (ws.text ++ rest)) = .done "," (' ' :: (ws.text ++ rest)) :=
    lit_of_eq rfl
  have gap : blanks (' ' :: (ws.text ++ rest)) = .done () (ws.text ++ rest) := by
    rw [start]
    exact blanks_space (forall_head_cons visible)
  obtain ⟨text, read, squeezed⟩ := labelWords_text ws stop
  refine ⟨text, ?_, squeezed⟩
  unfold nextOption
  rw [bind_done comma, bind_done gap, read]

/-- No option goes on where further options, or the rest of the text, begin. -/
theorem head?_moreOptions (more : List (Words isLabel))
    (stop : ∀ c ∈ rest.head?, isLabelChar c = false ∧ isBlank c = false) :
    ∀ c ∈ ((more.flatMap fun o => ',' :: ' ' :: o.text) ++ rest).head?,
      isLabelChar c = false ∧ isBlank c = false := by
  cases more with
  | nil => exact stop
  | cons _ _ => exact forall_head_cons (by decide)

/-- Options behind commas are read one after the other. -/
theorem steps_nextOption (more : List (Words isLabel))
    (stop : ∀ c ∈ rest.head?, isLabelChar c = false ∧ isBlank c = false) :
    ∃ texts, Steps nextOption ((more.flatMap fun o => ',' :: ' ' :: o.text) ++ rest) texts rest ∧
      texts.map squeeze = more.map Words.text := by
  induction more with
  | nil => exact ⟨[], .refl rest, rfl⟩
  | cons o more ih =>
    obtain ⟨texts, steps, squeezed⟩ := ih
    obtain ⟨text, read, own⟩ := nextOption_text o (head?_moreOptions more stop)
    refine ⟨text :: texts, ?_, by rw [map_cons, map_cons, own, squeezed]⟩
    rw [flatMap_cons, cons_append, cons_append, cons_append, cons_append,
      append_assoc]
    refine .cons read ?_ steps
    simp only [length_append, length_cons]
    omega

/-- Options are read up to the first character that is neither a part of them nor a comma. -/
theorem optionList_text (os : Options)
    (stop : ∀ c ∈ rest.head?, isLabelChar c = false ∧ isBlank c = false ∧ c ≠ ',') :
    optionList (os.text ++ rest) = .done os.list rest := by
  have ends : ∀ c ∈ rest.head?, isLabelChar c = false ∧ isBlank c = false :=
    fun c head => ⟨(stop c head).1, (stop c head).2.1⟩
  obtain ⟨texts, steps, squeezed⟩ := steps_nextOption os.more ends
  have noComma : lit "," rest = .unfit := lit_unfit_of_first rfl fun c head => (stop c head).2.2
  obtain ⟨first, read, own⟩ := labelWords_text os.first (head?_moreOptions os.more ends)
  have values : (first :: texts).map (fun o => String.ofList (squeeze o)) = os.list := by
    have all : (first :: texts).map squeeze = (os.first :: os.more).map Words.text := by
      rw [map_cons, map_cons, own, squeezed]
    have strings := congrArg (List.map String.ofList) all
    rwa [map_map, map_map] at strings
  have more : many nextOption _ = .done texts rest := many_of_steps steps (bind_unfit noComma)
  show (labelWords >>= fun first => many nextOption >>= fun texts =>
    pure ((first :: texts).map fun o => String.ofList (squeeze o))) (os.text ++ rest) = _
  rw [Options.text, append_assoc, bind_done read, bind_done more, values]
  rfl

end PacketDraft.Description
