import Mathlib.Data.List.Infix
import PacketDraft.Text.Search

/-!
# Where a part occurs in a text

Replacement leaves alone what holds no start of the part. So it can be told piece by piece, if the
places are known where the part occurs.
-/

namespace PacketDraft.Text

open List

/-- The number of places where a part stands in a text; occurrences may overlap. -/
def occurrences (part : List Char) : List Char → Nat
  | [] => 0
  | c :: cs => (if part <+: c :: cs then 1 else 0) + occurrences part cs

/-- Nowhere in `before` does a part start that ends there or goes on into `rest`. -/
def Free (part before rest : List Char) : Prop :=
  ∀ x, x ≠ [] → x <:+ before → ¬ part <+: x ++ rest

variable {part new before rest : List Char} {c : Char}

theorem free_nil : Free part [] rest :=
  fun _ some suffix => absurd (suffix_nil.mp suffix) some

theorem free_cons : Free part (c :: before) rest ↔
    ¬ part <+: c :: (before ++ rest) ∧ Free part before rest := by
  constructor
  · intro free
    exact ⟨free _ (by simp) suffix_rfl, fun x some suffix =>
      free x some (suffix.trans (suffix_cons c before))⟩
  · rintro ⟨own, free⟩ x some suffix
    rcases suffix_cons_iff.mp suffix with rfl | suffix
    · exact own
    · exact free x some suffix

theorem free_append {before' : List Char} : Free part (before ++ before') rest ↔
    Free part before (before' ++ rest) ∧ Free part before' rest := by
  induction before with
  | nil => simp [free_nil]
  | cons c before ih => rw [cons_append, free_cons, free_cons, ih, append_assoc, and_assoc]

/-- A part does not start where its first character is missing. -/
theorem free_of_head {cs : List Char} (other : ∀ d ∈ before, d ≠ c) : Free (c :: cs) before rest := by
  rintro x some suffix start
  obtain ⟨d, x, rfl⟩ := exists_cons_of_ne_nil some
  rw [cons_append, cons_prefix_cons] at start
  exact other d (suffix.subset mem_cons_self) start.1.symm

/-! ## Counting -/

theorem occurrences_le_append : occurrences part rest ≤ occurrences part (before ++ rest) := by
  induction before with
  | nil => exact Nat.le_refl _
  | cons c before ih =>
    rw [cons_append, occurrences]
    omega

theorem free_of_occurrences_eq (same : occurrences part (before ++ rest) = occurrences part rest) :
    Free part before rest := by
  induction before with
  | nil => exact free_nil
  | cons c before ih =>
    rw [cons_append, occurrences] at same
    have le : occurrences part rest ≤ occurrences part (before ++ rest) := occurrences_le_append
    refine free_cons.mpr ⟨fun start => ?_, ih (by omega)⟩
    rw [if_pos start] at same
    omega

theorem occurrences_part_append (some : part ≠ []) :
    occurrences part rest + 1 ≤ occurrences part (part ++ rest) := by
  obtain ⟨c, cs, rfl⟩ := exists_cons_of_ne_nil some
  have le : occurrences (c :: cs) rest ≤ occurrences (c :: cs) (cs ++ rest) := occurrences_le_append
  rw [cons_append, occurrences, if_pos (cons_prefix_cons.mpr ⟨rfl, prefix_append cs rest⟩)]
  omega

/-! ## Replacing -/

theorem after?_isSome : (after? part rest).isSome = true ↔ part <+: rest := by
  rw [after?, isSome_isPrefixOf?_eq_isPrefixOf, isPrefixOf_iff_prefix]

theorem replaceFrom_free (free : Free part before rest) :
    replaceFrom part new 0 (before ++ rest) = before ++ replaceFrom part new 0 rest := by
  induction before with
  | nil => rfl
  | cons c before ih =>
    obtain ⟨own, free⟩ := free_cons.mp free
    rw [cons_append, replaceFrom, if_neg, ih free, cons_append]
    rintro ⟨-, start⟩
    exact own (after?_isSome.mp start)

theorem replaceFrom_skip (before rest : List Char) :
    replaceFrom part new before.length (before ++ rest) = replaceFrom part new 0 rest := by
  induction before with
  | nil => rfl
  | cons c before ih => rw [length_cons, cons_append, replaceFrom, ih]

theorem replaceFrom_part (some : part ≠ []) :
    replaceFrom part new 0 (part ++ rest) = new ++ replaceFrom part new 0 rest := by
  obtain ⟨c, cs, rfl⟩ := exists_cons_of_ne_nil some
  rw [cons_append, replaceFrom, if_pos ⟨some, after?_isSome.mpr (prefix_append (c :: cs) rest)⟩,
    length_cons, Nat.add_sub_cancel, replaceFrom_skip]

/-- A text of pieces keeps them when a part is replaced, if the part stands at the start of some
pieces and nowhere else. -/
theorem replace_flatMap {α : Type} {f g : α → List Char} {xs : List α} (some : part ≠ [])
    (pieces : ∀ x rest, x :: rest <:+ xs → ∃ more, Free part more (rest.flatMap f) ∧
      (f x = more ∧ g x = more ∨ f x = part ++ more ∧ g x = new ++ more)) :
    replace part new (xs.flatMap f) = xs.flatMap g := by
  unfold replace
  induction xs with
  | nil => rfl
  | cons x xs ih =>
    have later := ih fun y rest suffix => pieces y rest (suffix.trans (suffix_cons x xs))
    obtain ⟨more, free, ⟨own, own'⟩ | ⟨own, own'⟩⟩ := pieces x xs suffix_rfl
    · rw [flatMap_cons, flatMap_cons, own, own', replaceFrom_free free, later]
    · rw [flatMap_cons, flatMap_cons, own, own', append_assoc, replaceFrom_part some,
        replaceFrom_free free, later, append_assoc]

end PacketDraft.Text
