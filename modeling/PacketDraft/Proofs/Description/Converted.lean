import PacketDraft.Proofs.Description.Lettering
import PacketDraft.Proofs.Description.Words
import PacketDraft.Proofs.Protocol.Naming

/-!
# Names made of labels and phrases

Labels become names of fields, and phrases become names of types. All characters of such a name are
valid in their places if the label or the phrase starts with a letter; a digit at the start of a phrase
gets a letter in front. But a valid name has at least two characters, so that nothing can be made under
the name of a single letter.
-/

namespace PacketDraft.Description

open Grammar Grammar.Parser Text Protocol List

variable {cs : List Char} {first : Char}

/-! ## Characters -/

section Characters

variable {c : Char}

theorem isLabelChar_of_isLetter (letter : isLetter c = true) : isLabelChar c = true := by
  simp [isLabelChar, letter]

theorem toNat_lt_of_isPhraseChar (own : isPhraseChar c = true ∨ c = ' ') : c.toNat < 128 := by
  rcases own with phrase | rfl
  · rcases Bool.or_eq_true_iff.mp phrase with label | hyphen
    · exact toNat_lt_of_isLabelChar label
    · rw [beq_iff_eq.mp hyphen]
      decide
  · decide

/-- The two cases of a letter, which is no digit. -/
theorem cases_of_isLetter (letter : isLetter c = true) :
    isLower c.toLower = true ∧ isUpper c.toUpper = true ∧ isDigitLike c = false :=
  of_ascii (P := fun c => isLetter c = true →
    isLower c.toLower = true ∧ isUpper c.toUpper = true ∧ isDigitLike c = false) (by decide +kernel)
    (toNat_lt_of_isLabelChar (isLabelChar_of_isLetter letter)) letter

theorem isDigitLike_of_isDigit (digit : isDigit c = true) : isDigitLike c = true :=
  of_ascii (P := fun c => isDigit c = true → isDigitLike c = true) (by decide +kernel)
    (toNat_lt_of_isLabelChar (isLabelChar_of_isDigit digit)) digit

end Characters

/-- All that a parser reads of a text that it reads to its end. -/
theorem matched_eq_done {α : Type} {p : Parser α} {text : List Char}
    (done : matched p text = .done cs []) : cs = text := by
  unfold matched at done
  split at done
  · cases done
    simp
  · cases done
  · cases done

/-! ## Labels -/

theorem parse_label {text : List Char} {value : String} (read : label.parse text = .ok value) :
    value.toList = strip text ∧ ∀ c ∈ text, isLabelText c = true := by
  obtain ⟨cs, rest, done, last⟩ := bind_eq_done (parse_eq_ok read)
  cases last
  obtain rfl := matched_eq_done done
  exact ⟨String.toList_ofList, reads_labelText.matched _ _ _ done⟩

/-- The field name of a text that starts with a letter is valid if a character follows. -/
theorem isMemberName_fieldName {source : String} (own : ∀ c ∈ source.toList, isLabelText c = true)
    (starts : source.toList.head? = some first) (letter : isLetter first = true) :
    isMemberName (fieldName source) = true ↔ 2 ≤ source.length := by
  obtain ⟨rest, letters⟩ := List.head?_eq_some_iff.mp starts
  have small := (cases_of_isLetter letter).1
  have other : first.toLower ≠ ' ' := by
    intro same
    rw [same] at small
    exact absurd small (by decide)
  have name : (fieldName source).toList = first.toLower
      :: replaceChar ' ' '_' (rest.map Char.toLower) := by
    rw [fieldName, String.toList_ofList,
      lower_of_ascii fun c mem => toNat_lt_of_isLabelText (own c mem), letters]
    simp [replaceChar, other]
  have valid : ∀ d ∈ replaceChar ' ' '_' (rest.map Char.toLower), isNameChar d = true := by
    intro d mem
    apply (lowercase_fieldName own d _).1
    rw [name]
    exact mem_cons_of_mem _ mem
  have length : source.length = rest.length + 1 := by
    rw [← String.length_toList, letters, length_cons]
  unfold isMemberName
  rw [name, isNameFrom_cons valid, length]
  change (isLower first.toLower && _) = true ↔ _
  cases rest with
  | nil => simp [replaceChar]
  | cons next rest => simp [replaceChar, small]

/-! ## Phrases -/

theorem parse_phrase {text : List Char} {value : String} (read : phrase.parse text = .ok value) :
    stem (strip text) = .ok value.toList ∧
      ∀ c ∈ text, isPhraseChar c = true ∨ isBlank c = true := by
  obtain ⟨cs, rest, done, later⟩ := bind_eq_done (parse_eq_ok read)
  obtain ⟨name, rest', stemmed, last⟩ := bind_eq_done later
  cases last
  cases singular : stem (strip cs) with
  | error e =>
    rw [singular] at stemmed
    cases stemmed
  | ok ds =>
    rw [singular] at stemmed
    cases stemmed
    obtain rfl := matched_eq_done done
    refine ⟨?_, reads_phraseText.matched _ _ _ done⟩
    rw [singular, String.toList_ofList]

/-- A phrase in the singular starts as the phrase does, if anything is left of it. -/
theorem stem_strip_cons {ds : List Char} (visible : isBlank first = false)
    (singular : stem (strip (first :: cs)) = .ok ds) (some : ds ≠ []) :
    ∃ rest, ds = first :: rest ∧ ∀ d ∈ rest, d ∈ cs := by
  have inside : ∀ d ∈ (cs.reverse.dropWhile isBlank).reverse, d ∈ cs := by
    intro d mem
    rw [mem_reverse] at mem
    exact mem_reverse.mp ((dropWhile_sublist isBlank).subset mem)
  rw [strip_cons visible] at singular
  generalize (cs.reverse.dropWhile isBlank).reverse = rest at singular inside
  unfold stem at singular
  split at singular
  · cases singular
  · cases singular
    cases rest with
    | nil => exact absurd rfl some
    | cons next rest =>
      refine ⟨(next :: rest).dropLast, rfl, fun d mem => ?_⟩
      exact inside d ((dropLast_sublist _).subset mem)
  · cases singular
    exact ⟨rest, rfl, inside⟩

/-- Behind the first letter of the name of a type, blanks and hyphens become low lines. -/
theorem isNameChar_of_mem_joined (own : ∀ c ∈ cs, isPhraseChar c = true ∨ c = ' ') :
    ∀ d ∈ replaceChar '-' '_' (replaceChar ' ' '_' (cs.map Char.toLower)), isNameChar d = true := by
  intro d mem
  rw [replaceChar, replaceChar, map_map, map_map] at mem
  obtain ⟨c, listed, rfl⟩ := mem_map.mp mem
  exact of_ascii (P := fun c => isPhraseChar c = true ∨ c = ' ' →
    isNameChar (if (if c.toLower = ' ' then '_' else c.toLower) = '-' then '_'
      else if c.toLower = ' ' then '_' else c.toLower) = true) (by decide +kernel)
    (toNat_lt_of_isPhraseChar (own c listed)) (own c listed)

/-- The name of a type that starts with a letter is valid if a visible character follows. -/
theorem isTypeName_typeLetters (letter : isLetter first = true)
    (own : ∀ c ∈ cs, isPhraseChar c = true ∨ isBlank c = true) :
    isTypeName (String.ofList (typeLetters (first :: cs))) = true ↔ ∃ d ∈ cs, isBlank d = false := by
  have label := isLabelChar_of_isLetter letter
  have capital := (cases_of_isLetter letter).2.1
  obtain ⟨rest, squeezed, ends, visible⟩ := squeeze_cons (isBlank_of_isLabelChar label) cs
  have joins : ∀ c ∈ rest, isPhraseChar c = true ∨ c = ' ' := by
    intro c mem
    rcases visible c mem with space | ⟨inside, shows⟩
    · exact .inr space
    · exact .inl ((own c inside).resolve_right (by simp [shows]))
  have letters : typeLetters (first :: cs)
      = first.toUpper :: replaceChar '-' '_' (replaceChar ' ' '_' (rest.map Char.toLower)) := by
    have space : first.toUpper ≠ ' ' := by
      intro same
      rw [same] at capital
      exact absurd capital (by decide)
    have hyphen : first.toUpper ≠ '-' := by
      intro same
      rw [same] at capital
      exact absurd capital (by decide)
    unfold typeLetters
    rw [squeezed, capitalize, titleChar_of_ascii (toNat_lt_of_isLabelChar label),
      lowerFrom_of_ascii fun c mem => toNat_lt_of_isPhraseChar (joins c mem)]
    simp [replaceChar, space, hyphen]
  have more : (∃ d ∈ cs, isBlank d = false) ↔ rest ≠ [] := by
    rw [ne_eq, ends]
    simp
  unfold isTypeName
  rw [String.toList_ofList, letters, isNameFrom_cons (isNameChar_of_mem_joined joins), more]
  change (isUpper first.toUpper && _) = true ↔ _
  cases rest with
  | nil => simp [replaceChar]
  | cons next rest => simp [replaceChar, capital]

/-- The name of a type that is made of a phrase: with a digit in front, it is always valid. -/
theorem isTypeName_typeName_iff {value : String} (letters : value.toList = first :: cs)
    (own : ∀ c ∈ cs, isPhraseChar c = true ∨ isBlank c = true)
    (start : isLetter first = true ∨ isDigit first = true) :
    ∃ name, typeName value = .ok name ∧
      (isTypeName name = true ↔ isDigit first = true ∨ ∃ d ∈ cs, isBlank d = false) := by
  unfold typeName
  rw [letters]
  by_cases digit : isDigit first = true
  · have label := isLabelChar_of_isDigit digit
    have whole : ∀ c ∈ first :: cs, isPhraseChar c = true ∨ isBlank c = true :=
      forall_mem_cons.mpr ⟨.inl (by simp [isPhraseChar, label]), own⟩
    refine ⟨_, rfl, ?_⟩
    rw [if_pos (isDigitLike_of_isDigit digit), isTypeName_typeLetters (by decide) whole]
    apply iff_of_true
    · exact ⟨first, mem_cons_self, isBlank_of_isLabelChar label⟩
    · exact .inl digit
  · have letter := start.resolve_right digit
    refine ⟨_, rfl, ?_⟩
    rw [if_neg (by simp [(cases_of_isLetter letter).2.2]), isTypeName_typeLetters letter own]
    simp [digit]

/-! ## What can be made -/

/-- A field can be made under the name of a label that starts with a letter exactly if this is not the
only character, and likewise for the text that the label was read from. Bit strings and structures can
be made under the name of a phrase that starts with a letter or a digit exactly if it is a digit or
another visible character follows. -/
theorem made_of_converted_iff {text : String} {first : Char}
    (starts : text.toList.head? = some first) :
    (∀ value, label.parse text.toList = .ok value → isLetter first = true →
      ∀ source ∈ [text, value], ∀ type presence,
        (∃ field, makeField (fieldName source) type presence = .ok field ∧
          field.name = fieldName source) ↔ 2 ≤ source.length) ∧
    ∀ value, phrase.parse text.toList = .ok value → isLetter first = true ∨ isDigit first = true →
      value ≠ "" → ∃ name, typeName value = .ok name ∧ ∀ s size,
        ((∃ s', makeBitString (some name) size s = (.ok (.id s.entries.length), s')) ↔
          isDigit first = true ∨ ∃ d ∈ value.toList.tail, isBlank d = false) ∧
        ((∃ s', makeStruct (some name) [] [] [] s = (.ok (.id s.entries.length), s')) ↔
          isDigit first = true ∨ ∃ d ∈ value.toList.tail, isBlank d = false) := by
  obtain ⟨cs, letters⟩ := List.head?_eq_some_iff.mp starts
  constructor
  · intro value read letter source listed type presence
    obtain ⟨stripped, own⟩ := parse_label read
    have visible := isBlank_of_isLabelChar (isLabelChar_of_isLetter letter)
    rw [makeField_ok_iff]
    rcases mem_pair.mp listed with rfl | rfl
    · exact isMemberName_fieldName own starts letter
    · apply isMemberName_fieldName _ _ letter
      · intro c mem
        rw [stripped] at mem
        exact own c (mem_of_mem_strip mem)
      · rw [stripped, letters, strip_cons visible]
        rfl
  · intro value read start some
    obtain ⟨singular, own⟩ := parse_phrase read
    have label : isLabelChar first = true :=
      start.elim isLabelChar_of_isLetter isLabelChar_of_isDigit
    rw [letters] at singular own
    obtain ⟨rest, shape, inside⟩ := stem_strip_cons (isBlank_of_isLabelChar label) singular
      (by simpa using some)
    have own' : ∀ c ∈ rest, isPhraseChar c = true ∨ isBlank c = true := fun c mem =>
      own c (mem_cons_of_mem _ (inside c mem))
    obtain ⟨name, known, valid⟩ := isTypeName_typeName_iff shape own' start
    refine ⟨name, known, fun s size => ?_⟩
    rw [makeBitString_ok_iff, makeStruct_ok_iff, shape, tail_cons]
    exact ⟨valid, valid⟩

/-- A label of two words, and a phrase that becomes their singular. -/
theorem made_of_converted_iff_ids :
    label.parse "X ids".toList = .ok "X ids" ∧
    phrase.parse "X ids".toList = .ok "X id" ∧
    (∃ field, makeField (fieldName "X ids") .number none = .ok field ∧
      field.name = fieldName "X ids") ∧
    ∃ name, typeName "X id" = .ok name ∧ ∀ s size,
      ∃ s', makeBitString (some name) size s = (.ok (.id s.entries.length), s') := by
  have labelled : label.parse "X ids".toList = .ok "X ids" := rfl
  have named : phrase.parse "X ids".toList = .ok "X id" := rfl
  have starts : "X ids".toList.head? = some 'X' := rfl
  obtain ⟨fields, types⟩ := made_of_converted_iff starts
  have field := (fields "X ids" labelled rfl "X ids" (by simp) .number none).mpr (by decide)
  obtain ⟨name, known, made⟩ := types "X id" named (.inl rfl) (by simp)
  refine ⟨labelled, named, field, name, known, fun s size => ?_⟩
  exact (made s size).1.mpr (.inr ⟨'d', by simp, by simp [isBlank]⟩)

/-- No field can be made under the name of a label of one letter, and no type under that of a phrase
of one letter. -/
theorem single_letters_refused :
    label.parse "A".toList = .ok "A" ∧
    makeField (fieldName "A") .number none = .error (.typing (.malformedField "a")) ∧
    phrase.parse "As".toList = .ok "A" ∧ typeName "A" = .ok "A" ∧
    checkName .bitString (some "A") = .error (.typing (.malformedType "A")) ∧
    checkName .struct (some "A") = .error (.typing (.malformedType "A")) := by
  have letter : isLetter 'A' = true := rfl
  have field : fieldName "A" = "a" := by
    have lowered : lower "A".toList = ['a'] := lower_of_ascii (by simp)
    rw [fieldName, lowered]
    rfl
  have type : typeName "A" = .ok "A" := by
    have squeezed : squeeze ['A'] = ['A'] := rfl
    have title : titleChar 'A' = ['A'] := titleChar_of_ascii (by decide)
    have letters : typeLetters ['A'] = ['A'] := by
      rw [typeLetters, squeezed, capitalize, title]
      rfl
    show Except.ok (String.ofList (typeLetters (if isDigitLike 'A' then _ else ['A']))) = _
    rw [(cases_of_isLetter letter).2.2, if_neg (by simp), letters]
  rw [field]
  exact ⟨rfl, rfl, rfl, type, rfl, rfl⟩

end PacketDraft.Description
