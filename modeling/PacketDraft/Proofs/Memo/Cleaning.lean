import Mathlib.Data.List.Destutter
import PacketDraft.Proofs.Memo.PageBreaks

/-!
# What is left of a memo

Cleaning a memo takes off the pages and squeezes the empty lines. Of the lines that hold something,
those in the body of a page are left, in their order. Of the empty lines single ones are left, each
behind a line that holds something, and squeezing them again changes nothing.
-/

namespace PacketDraft.Memo

open Text List

variable {lines : List String} {i : Nat}

/-! ## The bodies of the pages -/

/-- The places of body lines: on each page 3 to 51, and 52 unless the line eight places further on
is there and indented like the line before. -/
def InBody (lines : List String) (i : Nat) : Prop :=
  3 ≤ i % 56 ∧ i % 56 ≤ 51 ∨
    i % 56 = 52 ∧ ¬ ∃ inside : i + 8 < lines.length,
      indentation lines[i - 1].toList = indentation lines[i + 8].toList

theorem continuesAt_iff :
    continuesAt lines i = true ↔ ∃ inside : i + 8 < lines.length,
      indentation lines[i - 1].toList = indentation lines[i + 8].toList := by
  by_cases inside : i + 8 < lines.length
  · have before : i - 1 < lines.length := by omega
    simp [continuesAt, inside, before]
  · simp [continuesAt, inside]

theorem isBody_iff : isBody lines i = true ↔ InBody lines i := by
  by_cases last : i % 56 = 52
  · simp [isBody, InBody, pageLength, lastBodyPlace, last, ← continuesAt_iff]
  · rw [isBody_iff_of_ne last, InBody]
    omega

instance : DecidablePred (InBody lines) :=
  fun _ => decidable_of_iff _ isBody_iff

theorem withoutPageBreaks_eq_map (lines : List String) :
    withoutPageBreaks lines = (lines.zipIdx.filter fun p => InBody lines p.2).map Prod.fst := by
  rw [← filterMap_eq_map, filterMap_filter]
  refine filterMap_congr fun p _ => ?_
  simp [isBody_iff]

/-! ## The empty lines between them -/

/-- Lines that are not both empty. -/
def Parted (before line : String) : Prop :=
  ¬ (before = emptyLine ∧ line = emptyLine)

instance : DecidableRel Parted :=
  fun _ _ => inferInstanceAs (Decidable (¬ _))

/-- Squeezing compares a line with the one before it, dropped or not. It could as well compare it
with the last one that was kept: both are empty, or none is. -/
theorem cons_squeezeAfter (before : String) (lines : List String) :
    before :: squeezeAfter (before = emptyLine) lines = lines.destutter' Parted before := by
  induction lines generalizing before with
  | nil => rfl
  | cons line lines ih =>
    by_cases both : before = emptyLine ∧ line = emptyLine
    · -- A second empty line is dropped, and an empty one is still the last that was kept.
      rw [destutter'_cons_neg _ (not_not.mpr both), ← ih]
      simp [squeezeAfter, both]
    · rw [destutter'_cons_pos _ both, ← ih]
      by_cases empty : line = emptyLine
      · have full : before ≠ emptyLine := fun also => both ⟨also, empty⟩
        simp [squeezeAfter, empty, full]
      · simp [squeezeAfter, empty]

theorem cons_squeezeEmptyLines (lines : List String) :
    emptyLine :: squeezeEmptyLines lines = lines.destutter' Parted emptyLine := by
  rw [squeezeEmptyLines, ← cons_squeezeAfter, decide_eq_true rfl]

theorem isChain_squeezeEmptyLines (lines : List String) :
    (emptyLine :: squeezeEmptyLines lines).IsChain Parted := by
  rw [cons_squeezeEmptyLines]
  exact isChain_destutter' Parted lines emptyLine

/-- Lines are left alone if no two empty ones follow each other, and none comes first. -/
theorem squeezeEmptyLines_eq_self (parted : (emptyLine :: lines).IsChain Parted) :
    squeezeEmptyLines lines = lines := by
  have same := (cons_squeezeEmptyLines lines).trans (destutter'_of_isChain_cons lines Parted parted)
  exact (List.cons.inj same).2

theorem filter_squeezeAfter (emptyBefore : Bool) (lines : List String) :
    (squeezeAfter emptyBefore lines).filter (· ≠ emptyLine) = lines.filter (· ≠ emptyLine) := by
  fun_induction squeezeAfter emptyBefore lines with
  | case1 => rfl
  | case2 lines ih => simpa using ih
  | case3 _ lines _ ih => simpa using ih
  | case4 _ line lines full ih => simpa [full] using ih

/-! ## Both together -/

/-- Cleaning keeps the lines that hold something in the bodies of the pages, and no others, in their
order. No empty line comes first and none follows another, and squeezing again changes nothing. -/
theorem cleanLines_keeps_bodies (lines : List String) :
    (cleanLines lines).filter (· ≠ emptyLine)
        = (lines.zipIdx.filter fun p => p.1 ≠ emptyLine ∧ InBody lines p.2).map Prod.fst ∧
      (cleanLines lines).head? ≠ some emptyLine ∧
      (cleanLines lines).IsChain Parted ∧
      ∀ given, squeezeEmptyLines (squeezeEmptyLines given) = squeezeEmptyLines given := by
  have parted : (emptyLine :: cleanLines lines).IsChain Parted := isChain_squeezeEmptyLines _
  refine ⟨?_, ?_, parted.tail, fun given => ?_⟩
  · calc (cleanLines lines).filter (· ≠ emptyLine)
        = (withoutPageBreaks lines).filter (· ≠ emptyLine) := filter_squeezeAfter true _
      _ = _ := by simp [withoutPageBreaks_eq_map, filter_map, filter_filter, Function.comp_def]
  · intro first
    obtain ⟨rest, starts⟩ := head?_eq_some_iff.mp first
    rw [starts] at parted
    exact (isChain_cons_cons.mp parted).1 ⟨rfl, rfl⟩
  · exact squeezeEmptyLines_eq_self (isChain_squeezeEmptyLines given)

end PacketDraft.Memo
