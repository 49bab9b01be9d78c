import PacketDraft.Proofs.Protocol.Typing

/-!
# Runs

A protocol is worked on by calls, one after the other; a call that fails leaves what it has done
before. The main result: along a run no expression loses or changes its type, so that constraints,
which are checked when they are added, are conditions ever after, and actions stay actions.
-/

namespace PacketDraft.Protocol

open Attempt List Members

/-- The expressions of a type with the types that they have to have. -/
def Members.demands (ms : Members) : List (Expr × TypeRef) :=
  ms.constraints.map (·, .boolean) ++ ms.actions.map (·, .nothing)

namespace Store

/-- Constraints are conditions and actions have no value. -/
def WellTyped (s : Store) : Prop :=
  ∀ (n : Nat), ∀ d ∈ (s.membersAt n).demands, s.resultType (.id n) d.1 = .ok d.2

variable {s s' : Store} {t : TypeRef}

/-- Only functions are the same as others. -/
theorem eq_of_same {r : TypeRef} {e : Entry} (entry : s.entryOf t = some e)
    (form : ∀ ps u, e.form ≠ .function ps u) (same : s.same r t = true) : r = t := by
  unfold Store.same at same
  obtain ⟨n, rfl, -⟩ := entryOf_eq_some entry
  cases depth : s.entries.length with
  | zero => simpa [depth, sameWithin] using same
  | succ depth =>
    rw [depth] at same
    cases r with
    | absent => simp [sameWithin] at same
    | var name => simp [sameWithin] at same
    | id m =>
      rcases sameWithin_succ_eq_true.mp same with
        rfl | ⟨e₁, e₂, -, entry₂, -, ps, r, qs, u, -, function, -⟩
      · rfl
      · have same : some e = some e₂ := entry.symm.trans entry₂
        cases same
        exact absurd function (form qs u)

theorem Regular.eq_boolean (regular : s.Regular) {r : TypeRef} (same : s.same r .boolean = true) :
    r = .boolean := by
  obtain ⟨e, entry, form⟩ := regular.basic (.boolean, .boolean) (by simp [basis])
  exact eq_of_same entry (by simp [form]) same

theorem Regular.eq_nothing (regular : s.Regular) {r : TypeRef} (same : s.same r .nothing = true) :
    r = .nothing := by
  obtain ⟨e, entry, form⟩ := regular.basic (.nothing, .nothing) (by simp [basis])
  exact eq_of_same entry (by simp [form]) same

/-- Members change in one type only, so what is new there is all that is to be checked. -/
theorem WellTyped.demands_modifyMembers (typed : s.WellTyped) (regular : s.Regular)
    {f : Members → Members}
    (fits : ∀ ms, ∀ d ∈ (f ms).demands, d ∈ ms.demands ∨ s.resultType t d.1 = .ok d.2) (n : Nat) :
    ∀ d ∈ ((s.modifyMembers t f).membersAt n).demands, s.resultType (.id n) d.1 = .ok d.2 := by
  intro d mem
  cases entry : s.entryOf t with
  | none =>
    rw [modifyMembers_of_entryOf_none f entry] at mem
    exact typed n d mem
  | some e =>
    rw [regular.membersAt_modifyMembers f entry] at mem
    split at mem
    · next own =>
      subst own
      exact (fits _ d mem).elim (typed n d) id
    · exact typed n d mem

theorem mem_demands_constraint {ms : Members} {x : Expr} {d : Expr × TypeRef}
    (mem : d ∈ demands { ms with constraints := ms.constraints ++ [x] }) :
    d ∈ ms.demands ∨ d = (x, .boolean) := by
  simp only [demands, map_append, mem_append, map_singleton,
    mem_singleton] at mem ⊢
  tauto

theorem mem_demands_action {ms : Members} {x : Expr} {d : Expr × TypeRef}
    (mem : d ∈ demands { ms with actions := ms.actions ++ [x] }) :
    d ∈ ms.demands ∨ d = (x, .nothing) := by
  simp only [demands, map_append, mem_append, map_singleton,
    mem_singleton] at mem ⊢
  tauto

/-- Before an edit is made, all expressions that are there after it have their types. -/
theorem WellTyped.demands_edit (typed : s.WellTyped) (regular : s.Regular)
    {methods : List String} {fields : List Field} (edit : Edit methods fields t s s') (n : Nat) :
    ∀ d ∈ (s'.membersAt n).demands, s.resultType (.id n) d.1 = .ok d.2 := by
  cases edit with
  | method | size | parseFrom | serialiseTo =>
    rw [membersAt_modifyEntry]
    exact typed n
  | trait | field | slot =>
    refine typed.demands_modifyMembers regular (fun ms d mem => ?_) n
    exact .inl mem
  | @constraint x r struct result fits =>
    refine typed.demands_modifyMembers regular (fun ms d mem => ?_) n
    rcases mem_demands_constraint mem with old | rfl
    · exact .inl old
    · exact .inr (regular.eq_boolean fits ▸ result)
  | @action x r struct result fits =>
    refine typed.demands_modifyMembers regular (fun ms d mem => ?_) n
    rcases mem_demands_action mem with old | rfl
    · exact .inl old
    · exact .inr (regular.eq_nothing fits ▸ result)

theorem WellTyped.step (typed : s.WellTyped) (regular : s.Regular) (step : Step s s') :
    s'.WellTyped := by
  obtain ⟨later, regular'⟩ := regular.step step
  have before : ∀ n, ∀ d ∈ (s'.membersAt n).demands, s.resultType (.id n) d.1 = .ok d.2 := by
    cases step with
    | push form name size =>
      intro n
      rw [membersAt_push]
      exact typed n
    | edit methods fields edit => exact typed.demands_edit regular edit
    | register => exact typed
    | pdu => exact typed
    | rename name =>
      intro n
      rw [membersAt_modifyEntry]
      exact typed n
  intro n d mem
  exact regular.resultType_mono regular' later d.1 (before n d mem)

theorem WellTyped.steps (typed : s.WellTyped) (regular : s.Regular) (steps : Steps s s') :
    s'.WellTyped := by
  induction steps with
  | refl => exact typed
  | tail steps step ih => exact ih.step (regular.steps steps).2 step

theorem wellTyped_foundation : WellTyped .foundation := by
  intro n d mem
  have none : ∀ ms ∈ foundation.groups, ms.demands = [] := by
    simp [foundation, demands]
  unfold membersAt at mem
  cases found : foundation.groups[n]? with
  | none => simp [found, demands] at mem
  | some ms => simp [found, none ms (mem_of_getElem? found)] at mem

end Store

/-- The calls that change a protocol. -/
inductive Call where
  | bitString (name : Option String) (size : Option Expr)
  | option (name : Option String) (reference : TypeRef)
  | array (name : Option String) (element : TypeRef) (length size : Option Expr)
  | struct (name : Option String) (fields : List Field) (constraints actions : List Expr)
  | enum (name : Option String) (variants : List TypeRef)
  | function (name : Option String) (parameters : List Parameter) (result : TypeRef)
  | context (name : Option String)
  | implementTrait (t : TypeRef) (trait : Trait) (vars : List (String × TypeRef))
  | addField (t : TypeRef) (field : Field)
  | addSlot (t : TypeRef) (name : String) (type : TypeRef)
  | addConstraint (t : TypeRef) (x : Expr)
  | addAction (t : TypeRef) (x : Expr)
  | addType (t : TypeRef)
  | definePdu (name : String)
  | setProtocolName (name : String)
  | synthesise

namespace Call

/-- The store after a call, whether or not it fails. -/
def after (s : Store) : Call → Store
  | .bitString name size => (makeBitString name size s).2
  | .option name reference => (makeOption name reference s).2
  | .array name element length size => (makeArray name element length size s).2
  | .struct name fields constraints actions => (makeStruct name fields constraints actions s).2
  | .enum name variants => (makeEnum name variants s).2
  | .function name parameters result => (makeFunction name parameters result s).2
  | .context name => (makeContext name s).2
  | .implementTrait t trait vars => (Protocol.implementTrait t trait vars s).2
  | .addField t field => (Protocol.addField t field s).2
  | .addSlot t name type => (Protocol.addSlot t name type s).2
  | .addConstraint t x => (Protocol.addConstraint t x s).2
  | .addAction t x => (Protocol.addAction t x s).2
  | .addType t => (Protocol.addType t s).2
  | .definePdu name => (Protocol.definePdu name s).2
  | .setProtocolName name => (Protocol.setProtocolName name s).2
  | .synthesise => (Protocol.synthesise s).2

/-- The store after some calls on a new protocol. -/
def run (calls : List Call) : Store :=
  calls.foldl after .initial

theorem steps_after (s : Store) (call : Call) : Steps s (call.after s) := by
  cases call with
  | bitString name size => exact (makeBitString_makes name size).keeps s
  | option name reference => exact (makeOption_makes name reference).keeps s
  | array name element length size => exact (makeArray_makes name element length size).keeps s
  | struct name fields constraints actions =>
    exact (makeStruct_makes name fields constraints actions).keeps s
  | enum name variants => exact (makeEnum_makes name variants).keeps s
  | function name parameters result => exact (makeType_makes _ name none).keeps s
  | context name => exact (makeType_makes _ name none).keeps s
  | implementTrait t trait vars => exact implementTrait_steps t trait vars s
  | addField t field => exact addField_steps t field s
  | addSlot t name type => exact addSlot_steps t name type s
  | addConstraint t x => exact addConstraint_steps t x s
  | addAction t x => exact addAction_steps t x s
  | addType t => exact addType_steps t s
  | definePdu name => exact definePdu_steps name s
  | setProtocolName name => exact setProtocolName_steps name s
  | synthesise => exact completing_steps.keeps_synthesise s

theorem steps_foldl (s : Store) (calls : List Call) : Steps s (calls.foldl after s) := by
  induction calls generalizing s with
  | nil => exact .refl
  | cons call calls ih => exact (steps_after s call).trans (ih _)

theorem steps_run (calls : List Call) : Steps .foundation (run calls) :=
  steps_initial.trans (steps_foldl .initial calls)

/-- What an expression means never changes, and constraints and actions are what they have to be. -/
theorem typing_stable :
    (∀ (before later : List Call) (c : TypeRef) (x : Expr) (t : TypeRef),
      (run before).resultType c x = .ok t → (run (before ++ later)).resultType c x = .ok t) ∧
    ∀ (calls : List Call) (t : TypeRef) (e : Entry), (run calls).entryOf t = some e →
      (∀ x ∈ ((run calls).members e).constraints, (run calls).resultType t x = .ok .boolean) ∧
      ∀ x ∈ ((run calls).members e).actions, (run calls).resultType t x = .ok .nothing := by
  constructor
  · intro before later c x t typed
    have regular := (Store.regular_foundation.steps (steps_run before)).2
    have more : Steps (run before) (run (before ++ later)) := by
      rw [run, run, foldl_append]
      exact steps_foldl _ later
    obtain ⟨extends_, regular'⟩ := regular.steps more
    exact regular.resultType_mono regular' extends_ x typed
  · intro calls t e entry
    have regular := (Store.regular_foundation.steps (steps_run calls)).2
    have typed := Store.wellTyped_foundation.steps Store.regular_foundation (steps_run calls)
    obtain ⟨n, rfl, -⟩ := Store.entryOf_eq_some entry
    have own : (run calls).members e = (run calls).membersAt n := by
      rw [Store.members, regular.group n e entry, Store.membersAt]
    rw [own]
    constructor
    · intro x mem
      exact typed n (x, .boolean) (by simp [Members.demands, mem])
    · intro x mem
      exact typed n (x, .nothing) (by simp [Members.demands, mem])

/-- A structure with a constraint, and a call that fails after it has added one of two methods. -/
theorem typing_stable_halfway :
    let alike := Expr.method .self "eq" [("other", .self)]
    let before := [Call.struct (some "Pair") [] [] [], .addConstraint (.id 6) alike]
    let later := [Call.implementTrait (.id 6)
      ⟨"Extra", [Trait.method "twice" [] .number, Trait.method "size" [] .boolean]⟩ []]
    ((run before).resultType (.id 6) alike = .ok .boolean ∧
      (run (before ++ later)).resultType (.id 6) alike = .ok .boolean) ∧
    ∃ e, (run (before ++ later)).entryOf (.id 6) = some e ∧
      alike ∈ ((run (before ++ later)).members e).constraints ∧
      ∀ x ∈ ((run (before ++ later)).members e).constraints,
        (run (before ++ later)).resultType (.id 6) x = .ok .boolean := by
  intro alike before later
  have typed : (run before).resultType (.id 6) alike = .ok .boolean := rfl
  refine ⟨⟨typed, typing_stable.1 before later _ _ _ typed⟩, _, rfl, ?_, ?_⟩
  · exact mem_singleton.mpr rfl
  · exact (typing_stable.2 (before ++ later) (.id 6) _ rfl).1

end Call

end PacketDraft.Protocol
