import Mathlib.Data.List.Forall2
import PacketDraft.Fault

/-!
# Computations one after the other

What is known of a list of computations, each of which gives a value or a fault, and which end at the
first fault.
-/

namespace PacketDraft

open List

/-- What comes after a computation starts from its value. -/
theorem exceptBind_eq_ok {ε α β : Type} {x : Except ε α} {f : α → Except ε β} {b : β} :
    (x >>= f) = .ok b ↔ ∃ a, x = .ok a ∧ f a = .ok b := by
  cases x with
  | error e =>
    constructor
    · intro impossible
      cases impossible
    · rintro ⟨_, impossible, _⟩
      cases impossible
  | ok a =>
    constructor
    · intro rest
      exact ⟨a, rfl, rest⟩
    · rintro ⟨_, first, rest⟩
      cases first
      exact rest

/-- What is listed is related to something. -/
theorem exists_of_forall₂ {α β : Type} {S : α → β → Prop} {xs : List α} {ys : List β} {x : α}
    (related : List.Forall₂ S xs ys) (mem : x ∈ xs) : ∃ y ∈ ys, S x y := by
  induction related with
  | nil => cases mem
  | cons first _ ih =>
    rcases mem_cons.mp mem with rfl | later
    · exact ⟨_, mem_cons_self, first⟩
    · obtain ⟨y, mem', same⟩ := ih later
      exact ⟨y, mem_cons_of_mem _ mem', same⟩

variable {α β : Type} {f : α → Except Fault β} {xs : List α} {ys : List β}

/-- There is a result for each value, or a fault. -/
theorem mapM_eq_ok_iff : xs.mapM f = .ok ys ↔ List.Forall₂ (fun x y => f x = .ok y) xs ys := by
  induction xs generalizing ys with
  | nil =>
    rw [mapM_nil, forall₂_nil_left_iff]
    simp [Pure.pure, Except.pure, eq_comm]
  | cons x xs ih =>
    simp only [mapM_cons, exceptBind_eq_ok, ih, forall₂_cons_left_iff]
    constructor
    · rintro ⟨y, first, ys, rest, same⟩
      cases same
      exact ⟨y, ys, first, rest, rfl⟩
    · rintro ⟨y, ys, first, rest, rfl⟩
      exact ⟨y, first, ys, rest, rfl⟩

theorem mapM_ok {g : α → β} (each : ∀ x ∈ xs, f x = .ok (g x)) : xs.mapM f = .ok (xs.map g) := by
  rw [mapM_eq_ok_iff, forall₂_map_right_iff, forall₂_same]
  exact each

theorem exists_mapM_forall₂ {R : α → β → Prop} (each : ∀ x ∈ xs, ∃ y, f x = .ok y ∧ R x y) :
    ∃ ys, xs.mapM f = .ok ys ∧ List.Forall₂ R xs ys := by
  induction xs with
  | nil => exact ⟨[], rfl, .nil⟩
  | cons x xs ih =>
    rw [forall_mem_cons] at each
    obtain ⟨y, first, related⟩ := each.1
    obtain ⟨ys, rest, all⟩ := ih each.2
    refine ⟨y :: ys, ?_, .cons related all⟩
    rw [mapM_cons, first, rest]
    rfl

theorem exists_mapM (each : ∀ x ∈ xs, ∃ y, f x = .ok y) : ∃ ys, xs.mapM f = .ok ys := by
  obtain ⟨ys, mapped, -⟩ := exists_mapM_forall₂ (R := fun _ _ => True) fun x mem =>
    (each x mem).imp fun _ own => ⟨own, trivial⟩
  exact ⟨ys, mapped⟩

theorem exists_ok_of_mem {x : α} (mapped : xs.mapM f = .ok ys) (mem : x ∈ xs) : ∃ y, f x = .ok y := by
  obtain ⟨y, -, own⟩ := exists_of_forall₂ (mapM_eq_ok_iff.mp mapped) mem
  exact ⟨y, own⟩

theorem exists_of_mem_mapM {y : β} (mapped : xs.mapM f = .ok ys) (mem : y ∈ ys) :
    ∃ x ∈ xs, f x = .ok y :=
  exists_of_forall₂ (mapM_eq_ok_iff.mp mapped).flip mem

end PacketDraft
