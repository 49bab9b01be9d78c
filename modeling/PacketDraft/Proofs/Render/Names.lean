import PacketDraft.Proofs.Render.Mentions
import PacketDraft.Proofs.Text.Capitals
import PacketDraft.Proofs.Text.Case
import PacketDraft.Render.Rust.Sheet

/-!
# Names in a source

The names of types are words, and stay words in lower case and without low lines. Names that have
their only capital letter in front are told apart by their lower case.
-/

namespace PacketDraft.Render.Rust

open Protocol (isNameChar)
open Text List

/-- A name of letters, digits, dollar signs and low lines. -/
def IsWord (name : String) : Prop :=
  ∀ c ∈ name.toList, isNameChar c = true

instance (name : String) : Decidable (IsWord name) :=
  List.decidableBAll (fun c => isNameChar c = true) name.toList

section Characters

variable {c : Char}

theorem toNat_lt_of_isNameChar (name : isNameChar c = true) : c.toNat < 128 := by
  simp only [isNameChar, Bool.or_eq_true, Bool.and_eq_true, decide_eq_true_eq, beq_iff_eq,
    Char.le_def, UInt32.le_iff_toNat_le] at name
  change c.val.toNat < 128
  rcases name with (((upper | lower) | digit) | rfl) | rfl
  · have last : ('Z').val.toNat = 90 := rfl
    omega
  · have last : ('z').val.toNat = 122 := rfl
    omega
  · have last : ('9').val.toNat = 57 := rfl
    omega
  · decide
  · decide

theorem isNameChar_of_isCapital (capital : isCapital c = true) : isNameChar c = true := by
  unfold isCapital at capital
  unfold isNameChar
  rw [capital]
  rfl

theorem isNameChar_toLower (name : isNameChar c = true) : isNameChar c.toLower = true :=
  of_ascii (P := fun c => isNameChar c = true → isNameChar c.toLower = true) (by decide +kernel)
    (toNat_lt_of_isNameChar name) name

/-- Both cases of a character of a name that is no low line are such characters. -/
theorem isNameChar_cases {d : Char} (name : isNameChar c = true) (other : c ≠ '_')
    (cased : d = c.toLower ∨ d = c.toUpper) : isNameChar d = true ∧ d ≠ '_' := by
  have entry := of_ascii (P := fun c => isNameChar c = true → c ≠ '_' →
    (isNameChar c.toLower = true ∧ c.toLower ≠ '_') ∧ isNameChar c.toUpper = true ∧ c.toUpper ≠ '_')
    (by decide +kernel) (toNat_lt_of_isNameChar name)
  rcases cased with rfl | rfl
  · exact (entry name other).1
  · exact (entry name other).2

theorem toLower_of_not_isCapital (name : isNameChar c = true) (other : isCapital c = false) :
    c.toLower = c :=
  of_ascii (P := fun c => isCapital c = false → c.toLower = c) (by decide +kernel)
    (toNat_lt_of_isNameChar name) other

theorem toUpper_toLower (capital : isCapital c = true) : c.toLower.toUpper = c :=
  of_ascii (P := fun c => isCapital c = true → c.toLower.toUpper = c) (by decide +kernel)
    (toNat_lt_of_isNameChar (isNameChar_of_isCapital capital)) capital

end Characters

/-! ## Words -/

section Words

variable {name : String}

theorem toList_lowered (word : IsWord name) :
    (lowered name).toList = name.toList.map Char.toLower := by
  rw [lowered, String.toList_ofList]
  exact lower_of_ascii fun c mem => toNat_lt_of_isNameChar (word c mem)

theorem isWord_lowered (word : IsWord name) : IsWord (lowered name) := by
  intro d mem
  rw [toList_lowered word] at mem
  obtain ⟨c, own, rfl⟩ := mem_map.mp mem
  exact isNameChar_toLower (word c own)

theorem replaceChar_of_isWord (word : IsWord name) {old : Char} (other : isNameChar old = false)
    (new : Char) : replaceChar old new name.toList = name.toList := by
  refine (map_congr_left fun c mem => if_neg ?_).trans (map_id _)
  rintro rfl
  rw [word _ mem] at other
  cases other

/-- A word has no blanks and hyphens to be replaced. -/
theorem snakeCase_of_isWord (word : IsWord name) : snakeCase name = lowered name := by
  unfold snakeCase
  rw [replaceChar_of_isWord word (by decide), replaceChar_of_isWord word (by decide),
    String.ofList_toList]

/-- The name of a type in a source has no low lines. -/
theorem letters_camelCase (word : IsWord name) :
    ∀ c ∈ (camelCase name).toList, isNameChar c = true ∧ c ≠ '_' := by
  intro d mem
  unfold camelCase at mem
  rw [String.toList_ofList, replaceChar_of_isWord word (by decide), mem_filter] at mem
  obtain ⟨listed, visible⟩ := mem
  have ascii : ∀ c ∈ replaceChar '_' ' ' name.toList, c.toNat < 128 := by
    intro c mem
    obtain ⟨e, own, rfl⟩ := mem_map.mp mem
    split
    · decide
    · exact toNat_lt_of_isNameChar (word e own)
  obtain ⟨c, own, cased⟩ := mem_titleFrom_of_ascii ascii listed
  obtain ⟨e, old, rfl⟩ := mem_map.mp own
  split at cased
  · have blank : d = ' ' := by
      rcases cased with rfl | rfl <;> decide
    simp [blank] at visible
  · next other => exact isNameChar_cases (word e old) other cased

end Words

/-! ## Capitalised names -/

/-- A word with its only capital letter in front. -/
def Capitalised (name : String) : Prop :=
  ∃ first rest, name.toList = first :: rest ∧ isCapital first = true ∧
    ∀ c ∈ rest, isNameChar c = true ∧ isCapital c = false

section Capitalised

variable {name other : String}

theorem Capitalised.isWord (capitalised : Capitalised name) : IsWord name := by
  obtain ⟨first, rest, letters, capital, later⟩ := capitalised
  intro c mem
  rw [letters] at mem
  rcases mem_cons.mp mem with rfl | mem
  · exact isNameChar_of_isCapital capital
  · exact (later c mem).1

/-- The lower case of a capitalised name gives the name back. -/
theorem Capitalised.lowered_injective (capitalised : Capitalised name)
    (capitalised' : Capitalised other) (same : lowered name = lowered other) : name = other := by
  have lists := congrArg String.toList same
  rw [toList_lowered capitalised.isWord, toList_lowered capitalised'.isWord] at lists
  obtain ⟨first, rest, letters, capital, later⟩ := capitalised
  obtain ⟨first', rest', letters', capital', later'⟩ := capitalised'
  have unmoved : ∀ cs : List Char, (∀ c ∈ cs, isNameChar c = true ∧ isCapital c = false) →
      cs.map Char.toLower = cs := by
    intro cs small
    refine (map_congr_left fun c mem => ?_).trans (map_id _)
    exact toLower_of_not_isCapital (small c mem).1 (small c mem).2
  rw [letters, letters', map_cons, map_cons, unmoved rest later, unmoved rest' later']
    at lists
  obtain ⟨heads, tails⟩ := List.cons.inj lists
  have heads : first = first' := by
    rw [← toUpper_toLower capital, heads, toUpper_toLower capital']
  apply String.toList_injective
  rw [letters, letters', heads, tails]

end Capitalised

end PacketDraft.Render.Rust
