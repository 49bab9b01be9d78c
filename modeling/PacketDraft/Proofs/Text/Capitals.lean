import Mathlib.Data.List.Basic
import PacketDraft.Text.Case

/-!
# Capital letters

Lowering a text leaves no capital letter from `A` to `Z` in it, and adds no character before `a`. So
a text with its first letter in title case and all others lowered has at most one such capital, in
front. Newlines are not made by changing the case.
-/

namespace PacketDraft.Text

open List

/-- The letters from `A` to `Z`. -/
def isCapital (c : Char) : Bool :=
  'A' ≤ c && c ≤ 'Z'

theorem isCapital_iff {c : Char} : isCapital c = true ↔ 65 ≤ c.toNat ∧ c.toNat ≤ 90 := by
  simp only [isCapital, Bool.and_eq_true, decide_eq_true_eq, Char.le_def, UInt32.le_iff_toNat_le]
  exact Iff.rfl

theorem toNat_ofNat {n : Nat} (valid : n.isValidChar) : (Char.ofNat n).toNat = n := by
  unfold Char.ofNat
  rw [dif_pos valid]
  rfl

/-- Where the images of a run lie: at `low` or above, and where there are characters. -/
def CaseRun.reaches (low : Nat) (r : CaseRun) : Bool :=
  decide ((low : Int) ≤ r.first + r.shift) &&
    (decide (r.last + r.shift < 0xd800) ||
      (decide (0xdfff < r.first + r.shift) && decide (r.last + r.shift < 0x110000)))

theorem CaseRun.reaches_image {r : CaseRun} {low n m : Nat} (reaches : r.reaches low = true)
    (image : r.image? n = some m) : m.isValidChar ∧ low ≤ m := by
  simp only [CaseRun.reaches, Bool.and_eq_true, Bool.or_eq_true, decide_eq_true_eq] at reaches
  simp only [image?, Option.ite_none_right_eq_some, Option.some.injEq] at image
  obtain ⟨⟨lower, upper, -⟩, rfl⟩ := image
  refine ⟨?_, by omega⟩
  rcases reaches.2 with below | above
  · exact .inl (by omega)
  · exact .inr (by omega)

/-- The images of runs that reach so far lie as far. -/
theorem mapByRuns_cases {runs : List CaseRun} {low : Nat}
    (reach : ∀ r ∈ runs, r.reaches low = true) (c : Char) :
    (runs.findSome? (·.image? c.toNat) = none ∧ mapByRuns runs c = c) ∨
      low ≤ (mapByRuns runs c).toNat := by
  unfold mapByRuns
  cases found : runs.findSome? (·.image? c.toNat) with
  | none => exact .inl ⟨rfl, rfl⟩
  | some m =>
    obtain ⟨r, listed, image⟩ := exists_of_findSome?_eq_some found
    obtain ⟨valid, far⟩ := CaseRun.reaches_image (reach r listed) image
    refine .inr ?_
    show low ≤ (Char.ofNat m).toNat
    rw [toNat_ofNat valid]
    exact far

/-- A lowered character is the character itself, which is no capital then, or comes after `Z`. -/
theorem mem_lowerChar {c d : Char} (mem : d ∈ lowerChar c) :
    d = c ∧ isCapital c = false ∨ 97 ≤ d.toNat := by
  unfold lowerChar at mem
  split at mem
  · rcases mem_cons.mp mem with rfl | mem
    · exact .inr (by decide)
    · rw [mem_singleton.mp mem]
      exact .inr (by decide)
  · rw [mem_singleton.mp mem]
    have reach : ∀ r ∈ lowerRuns, r.reaches 97 = true := by decide +kernel
    rcases mapByRuns_cases reach c with ⟨unmoved, same⟩ | far
    · refine .inl ⟨same, ?_⟩
      rw [Bool.eq_false_iff, ne_eq, isCapital_iff]
      rintro ⟨low, high⟩
      have moved : ∀ n < 91, 65 ≤ n → lowerRuns.findSome? (·.image? n) ≠ none := by
        decide +kernel
      exact moved c.toNat (by omega) low unmoved
    · exact .inr far

theorem mem_lowerFrom {cs before : List Char} {d : Char} (mem : d ∈ lowerFrom before cs) :
    d ∈ cs ∧ isCapital d = false ∨ 97 ≤ d.toNat := by
  induction cs generalizing before with
  | nil => cases mem
  | cons c cs ih =>
    rcases mem_append.mp mem with own | later
    · unfold lowerBetween at own
      split at own
      · rw [mem_singleton.mp own]
        split
        · exact .inr (by decide)
        · exact .inr (by decide)
      · rcases mem_lowerChar own with ⟨rfl, other⟩ | far
        · exact .inl ⟨mem_cons_self, other⟩
        · exact .inr far
    · exact (ih later).imp_left fun ⟨old, other⟩ => ⟨mem_cons_of_mem c old, other⟩

theorem not_isCapital_of_mem_lowerFrom {cs before : List Char} {d : Char}
    (mem : d ∈ lowerFrom before cs) : isCapital d = false := by
  rcases mem_lowerFrom mem with ⟨-, other⟩ | far
  · exact other
  · rw [Bool.eq_false_iff, ne_eq, isCapital_iff]
    omega

/-- Where the title case of a character is more than one, only the first can be a capital if it is
one. -/
theorem not_isCapital_of_mem_titleChar {c first d : Char} {rest : List Char}
    (title : titleChar c = first :: rest) (capital : isCapital first = true) (mem : d ∈ rest) :
    isCapital d = false := by
  unfold titleChar at title
  split at title
  · next ns found =>
    have entries : ∀ p ∈ titleExpansions, ∀ n ∈ p.2.head?, isCapital (Char.ofNat n) = true →
        ∀ m ∈ p.2.tail, isCapital (Char.ofNat m) = false := by
      decide +kernel
    obtain ⟨before, after, table, -⟩ := lookup_eq_some_iff.mp found
    have listed : (c.toNat, ns) ∈ titleExpansions := by simp [table]
    cases ns with
    | nil => cases title
    | cons n ns =>
      obtain ⟨rfl, rfl⟩ := List.cons.inj title
      obtain ⟨m, own, rfl⟩ := mem_map.mp mem
      exact entries _ listed n rfl capital m own
  · cases title
    cases mem

/-- After a capital, a capitalised text has no other one. -/
theorem not_isCapital_of_mem_capitalize {cs rest : List Char} {first d : Char}
    (shape : capitalize cs = first :: rest) (capital : isCapital first = true) (mem : d ∈ rest) :
    isCapital d = false := by
  cases cs with
  | nil => cases shape
  | cons c cs =>
    have shape : titleChar c ++ lowerFrom [c] cs = first :: rest := shape
    cases title : titleChar c with
    | nil =>
      rw [title, nil_append] at shape
      have lowered : isCapital first = false :=
        not_isCapital_of_mem_lowerFrom (shape ▸ mem_cons_self)
      rw [capital] at lowered
      cases lowered
    | cons head tail =>
      rw [title, cons_append] at shape
      obtain ⟨rfl, rfl⟩ := List.cons.inj shape
      rcases mem_append.mp mem with own | later
      · exact not_isCapital_of_mem_titleChar title capital own
      · exact not_isCapital_of_mem_lowerFrom later

/-- Where a capitalised text has a newline, the text has one. -/
theorem newline_mem_of_mem_capitalize {cs : List Char} (mem : '\n' ∈ capitalize cs) : '\n' ∈ cs := by
  cases cs with
  | nil => cases mem
  | cons c cs =>
    rcases mem_append.mp mem with own | later
    · have same : '\n' = c := by
        unfold titleChar at own
        split at own
        · next ns found =>
          have entries : ∀ p ∈ titleExpansions, '\n' ∉ p.2.map Char.ofNat := by decide +kernel
          obtain ⟨before, after, table, -⟩ := lookup_eq_some_iff.mp found
          have listed : (c.toNat, ns) ∈ titleExpansions := by simp [table]
          exact absurd own (entries _ listed)
        · have reach : ∀ r ∈ titleRuns, r.reaches 11 = true := by decide +kernel
          have image := mem_singleton.mp own
          rcases mapByRuns_cases reach c with ⟨-, same⟩ | far
          · exact image.trans same
          · rw [← image] at far
            exact absurd far (by decide)
      exact same ▸ mem_cons_self
    · rcases mem_lowerFrom later with ⟨old, -⟩ | far
      · exact mem_cons_of_mem c old
      · exact absurd far (by decide)

end PacketDraft.Text
