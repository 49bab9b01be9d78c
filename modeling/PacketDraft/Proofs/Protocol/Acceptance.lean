import Mathlib.Data.List.Nodup
import Mathlib.Data.List.Perm.Subperm
import PacketDraft.Proofs.Protocol.Typing

/-!
# Accepted arguments

An argument fits a parameter if it has the name and the type of the parameter, or a type that descends
from it. A function looks at its parameters and at the arguments side by side, and stops where either
list ends. The main result says what is accepted, and when this is the same as a call with one fitting
argument for every parameter.
-/

namespace PacketDraft.Protocol

open List

namespace Store

/-! ## Descent -/

/-- The types that a type descends from, nearest first, up to one that has no parent. -/
inductive Lineage (s : Store) : TypeRef → List TypeRef → Prop
  | root {t : TypeRef} {e : Entry} (entry : s.entryOf t = some e) (orphan : e.parent = .absent) :
      Lineage s t []
  | child {t u : TypeRef} {e : Entry} {us : List TypeRef} (entry : s.entryOf t = some e)
      (parent : e.parent = u) (known : u ≠ .absent) (rest : Lineage s u us) : Lineage s t (u :: us)

namespace Lineage

variable {s : Store} {t u : TypeRef} {us vs : List TypeRef}

theorem unique (first : s.Lineage t us) (second : s.Lineage t vs) : us = vs := by
  induction first generalizing vs with
  | root entry orphan =>
    cases second with
    | root => rfl
    | child entry' parent known =>
      cases entry.symm.trans entry'
      exact absurd (parent.symm.trans orphan) known
  | child entry parent known _ ih =>
    cases second with
    | root entry' orphan =>
      cases entry.symm.trans entry'
      exact absurd (parent.symm.trans orphan) known
    | child entry' parent' _ rest' =>
      cases entry.symm.trans entry'
      cases parent.symm.trans parent'
      rw [ih rest']

section

variable (lineage : s.Lineage t us)

include lineage

/-- An ancestor has a shorter lineage. -/
theorem of_mem (mem : u ∈ us) : ∃ vs, s.Lineage u vs ∧ vs.length < us.length := by
  induction lineage with
  | root => cases mem
  | @child t u e us _ _ _ rest ih =>
    rcases mem_cons.mp mem with rfl | older
    · exact ⟨us, rest, Nat.lt_succ_self _⟩
    · obtain ⟨vs, own, shorter⟩ := ih older
      exact ⟨vs, own, Nat.lt_succ_of_lt shorter⟩

/-- No type is its own ancestor. -/
theorem nodup : (t :: us).Nodup := by
  induction lineage with
  | root => exact nodup_singleton _
  | @child t u e us entry parent known rest ih =>
    refine nodup_cons.mpr ⟨fun own => ?_, ih⟩
    have whole : s.Lineage t (u :: us) := .child entry parent known rest
    obtain ⟨vs, again, shorter⟩ := whole.of_mem own
    rw [again.unique whole] at shorter
    exact Nat.lt_irrefl _ shorter

theorem mem_ids : t :: us ⊆ (List.range s.entries.length).map .id := by
  have known : ∀ {t : TypeRef} {e : Entry}, s.entryOf t = some e →
      t ∈ (List.range s.entries.length).map TypeRef.id := by
    intro t e entry
    obtain ⟨n, rfl, bound⟩ := entryOf_eq_some entry
    exact mem_map_of_mem (mem_range.mpr bound)
  induction lineage with
  | root entry => exact cons_subset.mpr ⟨known entry, nil_subset _⟩
  | child entry _ _ _ ih => exact cons_subset.mpr ⟨known entry, ih⟩

/-- A lineage has no more types than the store. -/
theorem length_lt : us.length < s.entries.length := by
  have fits := (List.Nodup.subperm lineage.nodup lineage.mem_ids).length_le
  simp only [length_cons, length_map, length_range] at fits
  exact fits

theorem ancestorsWithin_eq {depth : Nat} (enough : us.length < depth) :
    s.ancestorsWithin depth t = .ok us := by
  induction lineage generalizing depth with
  | root entry orphan =>
    cases depth with
    | zero => exact absurd enough (Nat.not_lt_zero _)
    | succ depth => simp only [ancestorsWithin, entry, orphan]
  | @child t u e us entry parent known _ ih =>
    cases depth with
    | zero => exact absurd enough (Nat.not_lt_zero _)
    | succ depth =>
      have rest := ih (Nat.lt_of_succ_lt_succ enough)
      have step : s.ancestorsWithin (depth + 1) t
          = (do return u :: (← s.ancestorsWithin depth u)) := by
        cases u with
        | absent => exact absurd rfl known
        | var | id => simp only [ancestorsWithin, entry, parent]
      rw [step, rest]
      rfl

theorem isA_eq (other : TypeRef) : s.isA t other = .ok (us.any (s.same · other)) := by
  rw [isA, lineage.ancestorsWithin_eq (Nat.lt_succ_of_lt lineage.length_lt)]
  rfl

end

end Lineage

/-! ## Arguments one by one -/

/-- An argument that a parameter takes: it has its name, and its type or a type that descends from
it. -/
def Fits (s : Store) (p : Parameter) (a : String × TypeRef) : Prop :=
  p.name = a.1 ∧ (s.same p.type a.2 = true ∨
    ∃ us, s.Lineage a.2 us ∧ ∃ u ∈ us, s.same u p.type = true)

variable {s : Store} {function : String} {p : Parameter} {ps : List Parameter}
  {a : String × TypeRef} {args : List (String × TypeRef)} {us : List TypeRef}

theorem accepts_cons (closed : ∀ x, p.type ≠ .var x) (lineage : s.Lineage a.2 us) :
    s.accepts function (p :: ps) (a :: args)
      = if p.name = a.1 ∧ (s.same p.type a.2 || us.any (s.same · p.type)) = true then
          s.accepts function ps args
        else .ok false := by
  obtain ⟨given, type⟩ := p
  obtain ⟨name, t⟩ := a
  have descends := lineage.isA_eq type
  have known : ∃ n, t = .id n := by
    cases lineage with
    | root entry | child entry =>
      obtain ⟨n, own, -⟩ := entryOf_eq_some entry
      exact ⟨n, own⟩
  obtain ⟨n, rfl⟩ := known
  have answer : s.accepts function (⟨given, type⟩ :: ps) ((name, .id n) :: args)
      = (if given ≠ name then pure false
        else if s.same type (.id n) = true then s.accepts function ps args
        else do if ← s.isA (.id n) type then s.accepts function ps args else return false) := by
    cases type with
    | var x => exact absurd rfl (closed x)
    | absent => simp [accepts]
    | id m => simp [accepts]
  rw [answer, descends]
  by_cases named : given = name
  · by_cases own : s.same type (.id n) = true
    · simp [named, own]
    · cases us.any (s.same · type) <;>
        simp [named, own, bind, Except.bind, pure, Except.pure]
  · simp [named, pure, Except.pure]

theorem fits_iff (lineage : s.Lineage a.2 us) :
    s.Fits p a ↔ p.name = a.1 ∧ (s.same p.type a.2 || us.any (s.same · p.type)) = true := by
  refine and_congr_right fun _ => ?_
  rw [Bool.or_eq_true, any_eq_true]
  refine or_congr_right ⟨?_, fun inherited => ⟨us, lineage, inherited⟩⟩
  rintro ⟨vs, own, inherited⟩
  rwa [lineage.unique own]

/-- The arguments that are there fit the parameters in their places. -/
def AllFit (s : Store) (ps : List Parameter) (args : List (String × TypeRef)) : Prop :=
  ∀ x ∈ ps.zip args, s.Fits x.1 x.2

theorem allFit_cons : s.AllFit (p :: ps) (a :: args) ↔ s.Fits p a ∧ s.AllFit ps args := by
  simp [AllFit]

/-- Fitting arguments in the right number. -/
theorem forall₂_fits_iff :
    List.Forall₂ s.Fits ps args ↔ ps.length = args.length ∧ s.AllFit ps args := by
  rw [forall₂_iff_zip]
  exact and_congr_right fun _ => ⟨fun all x mem => all mem, fun all a b mem => all (a, b) mem⟩

/-- Arguments are looked at up to the end of the shorter list. -/
theorem accepts_eq_true_iff (function : String) (closed : ∀ p ∈ ps, ∀ x, p.type ≠ .var x)
    (resolved : ∀ a ∈ args, ∃ us, s.Lineage a.2 us) :
    (∃ answer, s.accepts function ps args = .ok answer) ∧
      (s.accepts function ps args = .ok true ↔ s.AllFit ps args) := by
  induction ps generalizing args with
  | nil => simp [accepts, AllFit]
  | cons p ps ih =>
    cases args with
    | nil => simp [accepts, AllFit]
    | cons a args =>
      rw [forall_mem_cons] at closed resolved
      obtain ⟨us, lineage⟩ := resolved.1
      obtain ⟨answered, rest⟩ := ih closed.2 resolved.2
      rw [accepts_cons closed.1 lineage, allFit_cons, fits_iff lineage]
      split
      · next fits => exact ⟨answered, rest.trans (and_iff_right fits).symm⟩
      · next misfit =>
        refine ⟨⟨false, rfl⟩, fun refused => ?_, fun fit => absurd fit.1 misfit⟩
        cases refused

/-! ## Invocations -/

theorem closedResult_eq_ok {fault : TypeFault} {r t : TypeRef} :
    closedResult fault r = .ok t ↔ r = t ∧ ∀ x, r ≠ .var x := by
  cases r <;> simp [closedResult]

theorem isMethod_of_fits {f : Signature} {u : TypeRef} {types : List (String × TypeRef)}
    (fit : s.AllFit f.parameters (("self", u) :: types)) :
    f.isMethod = .ok true ↔ f.parameters ≠ [] := by
  obtain ⟨name, ps, result⟩ := f
  cases ps with
  | nil => simp [Signature.isMethod]
  | cons p ps => simp [Signature.isMethod, (allFit_cons.mp fit).1.1]

/-- The type of a call of a function. -/
theorem resultType_func_iff_fits {f : Signature} {c g t : TypeRef} {xs : List (String × Expr)}
    {types : List (String × TypeRef)} (closed : ∀ p ∈ f.parameters, ∀ x, p.type ≠ .var x)
    (resolved : ∀ a ∈ types, ∃ us, s.Lineage a.2 us) (signature : s.signature? g = some f)
    (typed : s.argumentTypes c xs = .ok types) :
    s.resultType c (.func g xs) = .ok t ↔
      s.AllFit f.parameters types ∧ f.result = t ∧ ∀ x, f.result ≠ .var x := by
  rw [resultType_func_eq_ok]
  simp only [signature, typed, Option.some.injEq, Except.ok.injEq, exists_eq_left',
    (accepts_eq_true_iff _ closed resolved).2, closedResult_eq_ok]

/-- The type of a call of a method. The object is the first argument. -/
theorem resultType_method_iff_fits {m : Signature} {c u t : TypeRef} {target : Expr} {name : String}
    {xs : List (String × Expr)} {types : List (String × TypeRef)}
    (closed : ∀ p ∈ m.parameters, ∀ x, p.type ≠ .var x)
    (resolved : ∀ a ∈ ("self", u) :: types, ∃ us, s.Lineage a.2 us)
    (object : s.resultType c target = .ok u) (method : s.getMethod u name = .ok m)
    (typed : s.argumentTypes c xs = .ok types) :
    s.resultType c (.method target name xs) = .ok t ↔
      m.parameters ≠ [] ∧ s.AllFit m.parameters (("self", u) :: types) ∧ m.result = t ∧
        ∀ x, m.result ≠ .var x := by
  rw [resultType_method_eq_ok]
  simp only [object, method, typed, Except.ok.injEq, exists_eq_left', methodAccepts_eq_true,
    (accepts_eq_true_iff _ closed resolved).2, closedResult_eq_ok, and_assoc]
  constructor
  · rintro ⟨isMethod, fit, result⟩
    exact ⟨(isMethod_of_fits fit).mp isMethod, fit, result⟩
  · rintro ⟨some_, fit, result⟩
    exact ⟨(isMethod_of_fits fit).mpr some_, fit, result⟩

/-- What a function whose parameters are closed accepts: the arguments that are there have to fit the
parameters in their places, and that some are missing or too many goes unnoticed. Acceptance is
therefore exact if and only if the numbers agree or some argument does not fit; and a call has the
result type of the function, whatever the number of its arguments, as soon as those that are there
fit. -/
theorem acceptance_exact_iff (s : Store) (f : Signature) (args : List (String × TypeRef))
    (closed : ∀ p ∈ f.parameters, ∀ x, p.type ≠ .var x)
    (resolved : ∀ a ∈ args, ∃ us, s.Lineage a.2 us) :
    (∃ answer, s.accepts f.name f.parameters args = .ok answer) ∧
    (s.accepts f.name f.parameters args = .ok true ↔ s.AllFit f.parameters args) ∧
    ((s.accepts f.name f.parameters args = .ok true ↔ List.Forall₂ s.Fits f.parameters args) ↔
      f.parameters.length = args.length ∨ ¬ s.AllFit f.parameters args) ∧
    (∀ c g xs t, s.signature? g = some f → s.argumentTypes c xs = .ok args →
      (s.resultType c (.func g xs) = .ok t ↔
        s.AllFit f.parameters args ∧ f.result = t ∧ ∀ x, f.result ≠ .var x)) ∧
    (∀ c target name xs u types t, args = ("self", u) :: types → s.resultType c target = .ok u →
      s.getMethod u name = .ok f → s.argumentTypes c xs = .ok types →
      (s.resultType c (.method target name xs) = .ok t ↔
        f.parameters ≠ [] ∧ s.AllFit f.parameters args ∧ f.result = t ∧
          ∀ x, f.result ≠ .var x)) := by
  obtain ⟨answered, accepted⟩ := accepts_eq_true_iff f.name closed resolved
  refine ⟨answered, accepted, ?_, ?_, ?_⟩
  · rw [accepted, forall₂_fits_iff]
    tauto
  · intro c g xs t signature typed
    exact resultType_func_iff_fits closed resolved signature typed
  · rintro c target name xs u types t rfl object method typed
    exact resultType_method_iff_fits closed resolved object method typed

/-- Once booleans descend from numbers, one may be added to a number. -/
theorem acceptance_exact_child :
    let s := (setParent .boolean .number Store.initial).2
    let sum := Expr.method (.const .number (.int 1)) "plus" [("other", .const .boolean (.flag true))]
    s.Lineage .boolean [.number] ∧ s.same .number .boolean = false ∧
      s.accepts "plus" [⟨"self", .number⟩, ⟨"other", .number⟩]
        [("self", .number), ("other", .boolean)] = .ok true ∧
      s.resultType .absent sum = .ok .number := by
  intro s sum
  have number : s.Lineage .number [] := .root rfl rfl
  have boolean : s.Lineage .boolean [.number] := .child rfl rfl (by decide) number
  have fit : s.AllFit [⟨"self", .number⟩, ⟨"other", .number⟩]
      [("self", .number), ("other", .boolean)] := by
    refine allFit_cons.mpr ⟨⟨rfl, .inl rfl⟩, allFit_cons.mpr ⟨⟨rfl, .inr ?_⟩, by simp [AllFit]⟩⟩
    exact ⟨_, boolean, .number, by simp, rfl⟩
  obtain ⟨-, accepted, -, -, methods⟩ := acceptance_exact_iff s
    ⟨"plus", [⟨"self", .number⟩, ⟨"other", .number⟩], .number⟩
    [("self", .number), ("other", .boolean)] (by simp [TypeRef.number]) (by
      rintro a mem
      rcases mem_pair.mp mem with rfl | rfl
      · exact ⟨_, number⟩
      · exact ⟨_, boolean⟩)
  exact ⟨boolean, rfl, accepted.mpr fit,
    (methods .absent _ _ _ _ _ _ rfl rfl rfl rfl).mpr ⟨by simp, fit, rfl, by simp [TypeRef.number]⟩⟩

/-- A sum without a second summand is accepted and typed, and so is a call with one argument more than
there are parameters, although neither has one argument for every parameter. -/
theorem missing_and_surplus_arguments_accepted :
    Store.initial.getMethod .number "plus"
        = .ok ⟨"plus", [⟨"self", .number⟩, ⟨"other", .number⟩], .number⟩ ∧
      Store.initial.accepts "plus" [⟨"self", .number⟩, ⟨"other", .number⟩] [("self", .number)]
        = .ok true ∧
      Store.initial.resultType .absent (.method (.const .number (.int 1)) "plus" []) = .ok .number ∧
      Store.initial.accepts "check" [⟨"value", .number⟩] [("value", .number), ("mode", .boolean)]
        = .ok true ∧
      ¬ List.Forall₂ Store.initial.Fits [⟨"self", .number⟩, ⟨"other", .number⟩] [("self", .number)] ∧
      ¬ List.Forall₂ Store.initial.Fits [⟨"value", .number⟩]
        [("value", .number), ("mode", .boolean)] := by
  refine ⟨rfl, rfl, rfl, rfl, ?_, ?_⟩
  · simp
  · simp

end Store

end PacketDraft.Protocol
