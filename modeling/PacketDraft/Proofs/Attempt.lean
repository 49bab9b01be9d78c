import Mathlib.Logic.Relation
import PacketDraft.Attempt

/-!
# What attempts do

For each way of making an attempt, when it succeeds and with which value and state. `Keeps` is about
all outcomes: the states before and after are related, also where the attempt fails half way.
-/

namespace PacketDraft.Attempt

open Attempt

variable {σ α β : Type}

/-! ## Success -/

theorem bind_apply (x : Attempt σ α) (f : α → Attempt σ β) (s : σ) :
    (x >>= f) s = match x s with
      | (.ok a, t) => f a t
      | (.error e, t) => (.error e, t) := rfl

theorem andThen_assoc {γ : Type} (x : Attempt σ α) (f : α → Attempt σ β) (g : β → Attempt σ γ) :
    (x >>= f >>= g) = x >>= fun a => f a >>= g := by
  funext s
  rw [bind_apply, bind_apply, bind_apply]
  rcases x s with ⟨_ | a, t⟩
  · rfl
  · rfl

theorem andThen_done (x : Attempt σ α) : (x >>= pure) = x := by
  funext s
  rw [bind_apply]
  rcases x s with ⟨_ | a, t⟩
  · rfl
  · rfl

instance : LawfulMonad (Attempt σ) :=
  LawfulMonad.mk' (Attempt σ) (fun x => andThen_done x) (fun _ _ => rfl)
    fun x f g => andThen_assoc x f g

theorem bind_eq_ok {x : Attempt σ α} {f : α → Attempt σ β} {s t : σ} {b : β} :
    (x >>= f) s = (.ok b, t) ↔ ∃ a u, x s = (.ok a, u) ∧ f a u = (.ok b, t) := by
  rw [bind_apply]
  rcases x s with ⟨_ | a, u⟩
  · simp
  · constructor
    · intro rest
      exact ⟨a, u, rfl, rest⟩
    · rintro ⟨a', u', first, rest⟩
      cases first
      exact rest

theorem pure_eq_ok {s t : σ} {a b : α} :
    (pure a : Attempt σ α) s = (.ok b, t) ↔ a = b ∧ s = t := by
  show ((.ok a, s) : Except Fault α × σ) = (.ok b, t) ↔ _
  simp

theorem fail_ne_ok {s t : σ} {e : Fault} {b : α} : (fail e : Attempt σ α) s ≠ (.ok b, t) := by
  simp [fail]

theorem ask_eq_ok {f : σ → Except Fault α} {s t : σ} {a : α} :
    ask f s = (.ok a, t) ↔ f s = .ok a ∧ s = t := by
  simp [ask]

theorem read_eq_ok {f : σ → α} {s t : σ} {a : α} : read f s = (.ok a, t) ↔ f s = a ∧ s = t := by
  simp [read]

theorem update_eq_ok {f : σ → σ} {s t : σ} {a : Unit} : update f s = (.ok a, t) ↔ f s = t := by
  simp [update]

theorem ofExcept_eq_ok {x : Except Fault α} {s t : σ} {a : α} :
    (ofExcept x : Attempt σ α) s = (.ok a, t) ↔ x = .ok a ∧ s = t := by
  simp [ofExcept]

/-- Whatever an attempt gives back, it is this. -/
def Returns (a : α) (x : Attempt σ α) : Prop :=
  ∀ s b t, x s = (.ok b, t) → b = a

theorem returns_pure (a : α) : Returns a (pure a : Attempt σ α) :=
  fun _ _ _ outcome => (pure_eq_ok.mp outcome).1.symm

theorem Returns.bind {b : β} {x : Attempt σ α} {f : α → Attempt σ β}
    (rest : ∀ a, Returns b (f a)) : Returns b (x >>= f) := by
  intro s c t outcome
  obtain ⟨a, u, -, last⟩ := bind_eq_ok.mp outcome
  exact rest a u c t last

theorem eq_ok_of_isOk {x : Attempt σ Unit} {s : σ} (ok : (x s).1.isOk = true) :
    x s = (.ok (), (x s).2) := by
  rcases outcome : x s with ⟨_ | _, t⟩
  · simp [outcome, Except.isOk, Except.toBool] at ok
  · rfl

theorem read_bind (f : σ → α) (g : α → Attempt σ β) (s : σ) : (read f >>= g) s = g (f s) s := rfl

/-! ## All outcomes -/

/-- The states before and after an attempt are related, whether or not it succeeds. -/
def Keeps (R : σ → σ → Prop) (x : Attempt σ α) : Prop :=
  ∀ s, R s (x s).2

/-- A property that is not lost. -/
def Keeping (P : σ → Prop) (s t : σ) : Prop :=
  P s → P t

instance (P : σ → Prop) : IsPreorder σ (Keeping P) where
  refl _ := id
  trans _ _ _ first second := second ∘ first

variable {R : σ → σ → Prop}

section Reflexive

variable [Std.Refl R]

theorem keeps_pure (a : α) : Keeps R (pure a : Attempt σ α) :=
  fun s => refl_of R s

theorem keeps_fail (e : Fault) : Keeps R (fail e : Attempt σ α) :=
  fun s => refl_of R s

theorem keeps_ask (f : σ → Except Fault α) : Keeps R (ask f) :=
  fun s => refl_of R s

theorem keeps_read (f : σ → α) : Keeps R (read f) :=
  fun s => refl_of R s

theorem keeps_ofExcept (x : Except Fault α) : Keeps R (ofExcept x : Attempt σ α) :=
  fun s => refl_of R s

theorem keeps_fail_bind (e : Fault) (f : α → Attempt σ β) :
    Keeps R ((fail e : Attempt σ α) >>= f) :=
  fun s => refl_of R s

/-- Where a question has no answer, nothing changes. -/
theorem keeps_ask_bind {f : σ → Except Fault α} {g : α → Attempt σ β} {s : σ}
    (rest : ∀ a, f s = .ok a → R s (g a s).2) : R s ((ask f >>= g) s).2 := by
  rw [bind_apply, ask]
  cases answer : f s with
  | error e => exact refl_of R s
  | ok a => exact rest a answer

end Reflexive

theorem keeps_update {f : σ → σ} (h : ∀ s, R s (f s)) : Keeps R (update f) :=
  h

/-- Going on from the state in which an attempt succeeded. -/
theorem keeps_bind_at [IsTrans σ R] {x : Attempt σ α} {f : α → Attempt σ β} {s : σ}
    (first : R s (x s).2) (rest : ∀ a u, x s = (.ok a, u) → R u (f a u).2) :
    R s ((x >>= f) s).2 := by
  rw [bind_apply]
  rcases outcome : x s with ⟨_ | a, u⟩
  · rw [outcome] at first
    exact first
  · rw [outcome] at first
    exact trans_of R first (rest a u outcome)

theorem Keeps.bind [IsTrans σ R] {x : Attempt σ α} {f : α → Attempt σ β} (first : Keeps R x)
    (rest : ∀ a, Keeps R (f a)) : Keeps R (x >>= f) :=
  fun s => keeps_bind_at (first s) fun a u _ => rest a u

theorem Keeps.each [IsPreorder σ R] {f : α → Attempt σ Unit} {as : List α}
    (one : ∀ a ∈ as, Keeps R (f a)) : Keeps R (each f as) := by
  induction as with
  | nil => exact keeps_pure ()
  | cons a as ih =>
    exact (one a List.mem_cons_self).bind fun _ =>
      ih fun b mem => one b (List.mem_cons_of_mem a mem)

theorem Keeps.of_eq {x : Attempt σ α} {s t : σ} {r : Except Fault α} (keeps : Keeps R x)
    (outcome : x s = (r, t)) : R s t := by
  have related := keeps s
  rw [outcome] at related
  exact related

/-- Where all attempts succeed, each of them did in its turn. -/
theorem each_eq_ok_of_mem [IsPreorder σ R] {f : α → Attempt σ Unit} {as : List α} {s t : σ}
    (keeps : ∀ a, Keeps R (f a)) (outcome : each f as s = (.ok (), t)) {a : α}
    (mem : a ∈ as) : ∃ u v, R s u ∧ f a u = (.ok (), v) ∧ R v t := by
  induction as generalizing s with
  | nil => cases mem
  | cons b as ih =>
    obtain ⟨_, v, first, rest⟩ := bind_eq_ok.mp outcome
    rcases List.mem_cons.mp mem with rfl | later
    · exact ⟨s, v, refl_of R s, first, (Keeps.each fun a _ => keeps a).of_eq rest⟩
    · obtain ⟨u, v', before, own, after⟩ := ih rest later
      exact ⟨u, v', trans_of R ((keeps b).of_eq first) before, own, after⟩

theorem each_append_eq_ok {f : α → Attempt σ Unit} {as bs : List α} {s t : σ} :
    each f (as ++ bs) s = (.ok (), t) ↔
      ∃ u, each f as s = (.ok (), u) ∧ each f bs u = (.ok (), t) := by
  induction as generalizing s with
  | nil =>
    constructor
    · intro rest
      exact ⟨s, rfl, rest⟩
    · rintro ⟨u, first, rest⟩
      cases first
      exact rest
  | cons a as ih =>
    simp only [List.cons_append, each, bind_eq_ok, ih]
    constructor
    · rintro ⟨x, u, first, v, middle, last⟩
      exact ⟨v, ⟨x, u, first, middle⟩, last⟩
    · rintro ⟨v, ⟨x, u, first, middle⟩, last⟩
      exact ⟨x, u, first, v, middle, last⟩

/-- Attempts that find nothing to do leave the state alone, one after the other. -/
theorem each_eq_self {f : α → Attempt σ Unit} {as : List α} {s : σ}
    (idle : ∀ a ∈ as, f a s = (.ok (), s)) : each f as s = (.ok (), s) := by
  induction as with
  | nil => rfl
  | cons a as ih =>
    refine bind_eq_ok.mpr ⟨(), s, idle a List.mem_cons_self, ih fun b mem => ?_⟩
    exact idle b (List.mem_cons_of_mem a mem)

theorem keeps_guard {c : Prop} [Decidable c] {stop go : Attempt σ α}
    (stops : Keeps R stop) (goes : Keeps R go) : Keeps R (if c then stop else go) := by
  split
  · exact stops
  · exact goes

/-! ## All or nothing -/

/-- What came of an attempt: nothing has changed, or there was a change of this kind. -/
def Settled (C : σ → σ → Prop) (s : σ) (outcome : Except Fault Unit × σ) : Prop :=
  (∃ fault, outcome = (.error fault, s)) ∨ ∃ t, outcome = (.ok (), t) ∧ C s t

theorem settled_ask_bind {C : σ → σ → Prop} {f : σ → Except Fault α} {g : α → Attempt σ Unit}
    {s : σ} (rest : ∀ a, f s = .ok a → Settled C s (g a s)) : Settled C s ((ask f >>= g) s) := by
  rw [bind_apply, ask]
  cases answer : f s with
  | error fault => exact .inl ⟨fault, rfl⟩
  | ok a => exact rest a answer

/-- An attempt that fails without a change, or makes a change of this kind. -/
def AllOrNothing (C : σ → σ → Prop) (x : Attempt σ Unit) : Prop :=
  ∀ s, Settled C s (x s)

namespace AllOrNothing

variable {C : σ → σ → Prop} {x : Attempt σ Unit}

theorem keeps [Std.Refl R] (attempt : AllOrNothing C x) (le : ∀ s t, C s t → R s t) :
    Keeps R x := by
  intro s
  obtain ⟨fault, outcome⟩ | ⟨t, outcome, changed⟩ := attempt s
  · rw [outcome]
    exact refl_of R s
  · rw [outcome]
    exact le s t changed

theorem of_ok (attempt : AllOrNothing C x) {s t : σ} {done : Unit}
    (outcome : x s = (.ok done, t)) : C s t := by
  obtain ⟨fault, failed⟩ | ⟨u, succeeded, changed⟩ := attempt s
  · rw [failed] at outcome
    cases outcome
  · rw [succeeded] at outcome
    cases outcome
    exact changed

end AllOrNothing

end PacketDraft.Attempt
