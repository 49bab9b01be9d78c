import PacketDraft.Description.Lexeme
import PacketDraft.Proofs.Grammar.Reading

/-!
# Reading words and numbers

A label or a number is read up to the first character that cannot belong to it.
-/

namespace PacketDraft.Description

open Grammar Grammar.Parser Text

/-- Whether a text is one word of letters, digits and low lines. -/
def isLabel (name : String) : Bool :=
  !name.toList.isEmpty && name.toList.all isLabelChar

/-- Whether a text starts with a digit. -/
def startsWithDigit (name : String) : Bool :=
  name.toList.head?.any isDigit

theorem isLabel_ne_nil {name : String} (label : isLabel name) : name.toList ≠ [] := by
  intro empty
  simp [isLabel, empty] at label

theorem isLabelChar_of_mem {name : String} (label : isLabel name) {c : Char}
    (mem : c ∈ name.toList) : isLabelChar c = true := by
  simp only [isLabel, Bool.and_eq_true, List.all_eq_true] at label
  exact label.2 c mem

theorem isLabelChar_of_isDigit {c : Char} (digit : isDigit c = true) : isLabelChar c = true := by
  simp [isLabelChar, digit]

theorem isBlank_of_isLabelChar {c : Char} (h : isLabelChar c = true) : isBlank c = false := by
  simp only [isLabelChar, isLetter, isLower, isUpper, isDigit, Bool.or_eq_true, Bool.and_eq_true,
    decide_eq_true_eq, Char.le_def, UInt32.le_iff_toNat_le, beq_iff_eq] at h
  have code : c.toNat = c.val.toNat := rfl
  simp only [isBlank, code]
  rcases h with h | rfl
  · simp at h ⊢
    omega
  · decide

theorem isDigit_of_mem_toDigits {n : Nat} {c : Char} (mem : c ∈ Nat.toDigits 10 n) :
    isDigit c = true := by
  have digit := Nat.isDigit_of_mem_toDigits (by decide) (by decide) mem
  simpa [Char.isDigit, isDigit, Char.le_def] using digit

theorem digitsValue_toDigits (n : Nat) : digitsValue (Nat.toDigits 10 n) = n := by
  have value := Nat.ofDigitChars_ten_toDigits (n := n)
  rwa [Nat.ofDigitChars_eq_foldl] at value

theorem number_of_digits {ds rest : List Char} (nonempty : ds ≠ [])
    (digits : ∀ c ∈ ds, isDigit c = true) (stop : ∀ c ∈ rest.head?, isDigit c = false) :
    number (ds ++ rest) = .done (digitsValue ds) rest :=
  bind_done (run1_append nonempty digits stop)

theorem number_unfit {s : List Char} (h : ∀ c ∈ s.head?, isDigit c = false) :
    number s = .unfit :=
  bind_unfit (run1_unfit h)

theorem shortLabel_append {name : String} {rest : List Char} (label : isLabel name)
    (stop : ∀ c ∈ rest.head?, isLabelChar c = false) :
    shortLabel (name.toList ++ rest) = .done name rest := by
  have word : labelWord (name.toList ++ rest) = .done name.toList rest :=
    run1_append (isLabel_ne_nil label) (fun _ mem => isLabelChar_of_mem label mem) stop
  have read := map_done (f := String.ofList) word
  rwa [String.ofList_toList] at read

theorem shortLabel_unfit {s : List Char} (h : ∀ c ∈ s.head?, isLabelChar c = false) :
    shortLabel s = .unfit :=
  map_unfit (run1_unfit h)

end PacketDraft.Description
