import PacketDraft.Proofs.Protocol.Implementing

/-!
# Deriving a type

A derived type has its own name, methods and size, and shares the members with the type it is derived
from. What is its own can change without a trace in the other type. Whatever it gains, a trait, a
field, a constraint or an action, the other type gains too.
-/

namespace PacketDraft.Protocol

open Attempt List Store

/-! ## Extensions -/

/-- What can be added to a type. -/
inductive Extension where
  | trait (trait : Trait) (vars : List (String × TypeRef))
  | field (field : Field)
  | constraint (x : Expr)
  | action (x : Expr)

namespace Extension

/-- Adds it to a type. -/
def attempt (t : TypeRef) : Extension → Change Unit
  | .trait new vars => implementTrait t new vars
  | .field new => addField t new
  | .constraint x => addConstraint t x
  | .action x => addAction t x

/-- The members of a type of a form with one more. -/
def gain (form : Form) (ms : Members) : Extension → Members
  | .trait new _ => { ms with traits := ms.traits ++ [new] }
  | .field new =>
    match form with
    | .context => { ms with slots := ms.slots ++ [(new.name, new.type)] }
    | _ => { ms with fields := ms.fields ++ [new] }
  | .constraint x => { ms with constraints := ms.constraints ++ [x] }
  | .action x => { ms with actions := ms.actions ++ [x] }

/-- The store after a number of them were tried on a type. -/
def afterAll (t : TypeRef) (xs : List Extension) (s : Store) : Store :=
  xs.foldl (fun s x => (x.attempt t s).2) s

/-- Those of them that could be added. -/
def accepted (t : TypeRef) : List Extension → Store → List Extension
  | [], _ => []
  | x :: xs, s =>
    match x.attempt t s with
    | (.ok _, s') => x :: accepted t xs s'
    | (.error _, s') => accepted t xs s'

end Extension

/-- How many members there are. -/
def Members.count (ms : Members) : Nat :=
  ms.traits.length + ms.fields.length + ms.slots.length + ms.constraints.length + ms.actions.length

theorem Extension.count_gain (form : Form) (ms : Members) (x : Extension) :
    (x.gain form ms).count = ms.count + 1 := by
  cases x with
  | field field =>
    unfold gain Members.count
    cases form <;> simp <;> omega
  | _ =>
    simp [gain, Members.count]
    omega

theorem Extension.count_foldl_gain (form : Form) (ms : Members) (xs : List Extension) :
    (xs.foldl (gain form) ms).count = ms.count + xs.length := by
  induction xs generalizing ms with
  | nil => rfl
  | cons x xs ih =>
    rw [foldl_cons, ih, count_gain, length_cons]
    omega

/-- Members stay the same only if nothing is gained. -/
theorem Extension.foldl_gain_eq_iff {form : Form} {ms : Members} {added : List Trait}
    {xs : List Extension} :
    xs.foldl (gain form) { ms with traits := ms.traits ++ added } = ms ↔ added = [] ∧ xs = [] := by
  constructor
  · intro same
    have count := congrArg Members.count same
    rw [count_foldl_gain] at count
    simp only [Members.count, length_append] at count
    exact ⟨length_eq_zero_iff.mp (by omega), length_eq_zero_iff.mp (by omega)⟩
  · rintro ⟨rfl, rfl⟩
    rw [foldl_nil, append_nil]

/-! ## One extension -/

/-- What an attempt to extend the type `t` does: the other types stay as they are, the type itself
keeps its name and its members, and these gain something exactly if the attempt succeeds. -/
structure Extends (s : Store) (t : TypeRef) (e : Entry) (gain : Members → Members)
    (outcome : Except Fault Unit × Store) : Prop where
  others : ∀ u, t ≠ u → outcome.2.entryOf u = s.entryOf u
  own : ∃ e', outcome.2.entryOf t = some e' ∧ e'.form = e.form ∧ e'.name = e.name ∧
    e'.group = e.group
  members : outcome.2.members e = if outcome.1 = .ok () then gain (s.members e) else s.members e

section Extends

variable {s : Store} {t : TypeRef} {e : Entry} {gain : Members → Members}

section

variable (entry : s.entryOf t = some e)

include entry

theorem extends_refused (fault : Fault) :
    Extends s t e gain (.error fault, s) where
  others _ _ := rfl
  own := ⟨e, entry, rfl, rfl, rfl⟩
  members := by simp

theorem extends_modifyMembers (housed : e.group < s.groups.length) :
    Extends s t e gain (.ok (), s.modifyMembers t gain) where
  others u _ := s.entryOf_modifyMembers t gain u
  own := ⟨e, (s.entryOf_modifyMembers t gain t).trans entry, rfl, rfl, rfl⟩
  members := by
    rw [if_pos rfl]
    exact members_modifyMembers entry housed gain

theorem implementTrait_extends (other : e.form.isPrimitive = false)
    (housed : e.group < s.groups.length) (trait : Trait) (vars : List (String × TypeRef)) :
    Extends s t e (fun ms => { ms with traits := ms.traits ++ [trait] })
      (implementTrait t trait vars s) where
  others _ differs := implementTrait_entryOf_ne entry other trait vars differs
  own := by
    obtain ⟨more, after⟩ := implementTrait_entryOf entry other trait vars
    exact ⟨_, after, rfl, rfl, rfl⟩
  members := implementTrait_members entry other housed trait vars

theorem addStructField_extends (housed : e.group < s.groups.length) (field : Field) :
    Extends s t e (fun ms => { ms with fields := ms.fields ++ [field] })
      (addStructField t e field s) := by
  obtain ⟨fault, outcome⟩ | ⟨s', outcome, -, size, -, changed⟩ := addStructField_changes t e field s
  · rw [outcome]
    exact extends_refused entry fault
  · rw [outcome]
    obtain ⟨-, rfl⟩ | ⟨a, x, sum, -, -, -, rfl⟩ := changed
    · exact extends_modifyMembers entry housed
    · -- the size is the type's own, so that the members are those of the store before
      have sized := entryOf_modifyEntry_self (fun e => { e with size := some sum }) entry
      have there : e.group < (s.modifyEntry t fun e => { e with size := some sum }).groups.length := by
        rw [groups_modifyEntry]
        exact housed
      obtain ⟨others, own, members⟩ := extends_modifyMembers sized there
      refine ⟨fun u differs => ?_, own, ?_⟩
      · exact (others u differs).trans (entryOf_modifyEntry_ne _ differs)
      · rw [if_pos rfl] at members ⊢
        rw [members_modifyEntry] at members
        exact members

theorem addSlot_extends (housed : e.group < s.groups.length) (name : String) (type : TypeRef) :
    Extends s t e (fun ms => { ms with slots := ms.slots ++ [(name, type)] })
      (addSlot t name type s) := by
  obtain ⟨fault, outcome⟩ | ⟨s', outcome, -, -, -, -, rfl⟩ := addSlot_changes t name type s
  · rw [outcome]
    exact extends_refused entry fault
  · rw [outcome]
    exact extends_modifyMembers entry housed

theorem addTyped_extends (housed : e.group < s.groups.length) (wanted : TypeRef)
    (refuse : String → TypeFault) (add : Expr → Members → Members) (x : Expr) :
    Extends s t e (add x) (addTyped wanted refuse add t x s) := by
  obtain ⟨fault, outcome⟩ | ⟨s', outcome, r, -, -, -, rfl⟩ :=
    addTyped_changes wanted refuse add t x s
  · rw [outcome]
    exact extends_refused entry fault
  · rw [outcome]
    exact extends_modifyMembers entry housed

theorem addField_extends (housed : e.group < s.groups.length) (field : Field) :
    Extends s t e (fun ms => (Extension.field field).gain e.form ms) (addField t field s) := by
  unfold addField
  rw [read_bind, entry]
  dsimp only
  cases form : e.form with
  | struct => exact addStructField_extends entry housed field
  | context => exact addSlot_extends entry housed field.name field.type
  | _ => exact extends_refused entry _

theorem Extension.attempt_extends (other : e.form.isPrimitive = false)
    (housed : e.group < s.groups.length) (x : Extension) :
    Extends s t e (fun ms => x.gain e.form ms) (x.attempt t s) := by
  cases x with
  | trait trait vars => exact implementTrait_extends entry other housed trait vars
  | field field => exact addField_extends entry housed field
  | constraint x =>
    exact addTyped_extends entry housed .boolean .notConstraint
      (fun x ms => { ms with constraints := ms.constraints ++ [x] }) x
  | action x =>
    exact addTyped_extends entry housed .nothing .notAction
      (fun x ms => { ms with actions := ms.actions ++ [x] }) x

end

theorem Extension.attempt_resolves (x : Extension) : Resolves (fun _ => True) (x.attempt t) := by
  cases x with
  | trait trait vars => exact implementTrait_resolves (fun _ _ => trivial) trait fun _ _ => trivial
  | field field => exact addField_resolves field
  | constraint x =>
    unfold attempt addConstraint
    exact addTyped_resolves _ _ _ x
  | action x =>
    unfold attempt addAction
    exact addTyped_resolves _ _ _ x

end Extends

/-! ## Sharing -/

/-- A later store in which the type `derived` has a name of its own and shares the members of `e`. All
other types are what they were before. -/
structure Shares (before : Store) (derived : TypeRef) (e : Entry) (name : String) (s : Store) :
    Prop where
  resolved : s.Resolved fun _ => True
  others : ∀ u, derived ≠ u → s.entryOf u = before.entryOf u
  sharing : ∃ e', s.entryOf derived = some e' ∧ e'.form = e.form ∧ e'.name = some name ∧
    e'.group = e.group

section Shares

variable {before s : Store} {derived : TypeRef} {e : Entry} {name : String}

theorem Store.members_eq_of_group {e' : Entry} (same : e'.group = e.group) :
    s.members e' = s.members e := by
  unfold members
  rw [same]

section

variable (shares : Shares before derived e name s) (other : e.form.isPrimitive = false)

include shares other

/-- One extension of the derived type: the members gain it for both types. -/
theorem Shares.attempt (x : Extension) :
    Shares before derived e name (x.attempt derived s).2 ∧
      (x.attempt derived s).2.members e
        = if (x.attempt derived s).1 = .ok () then x.gain e.form (s.members e) else s.members e := by
  obtain ⟨e', entry, form, named, group⟩ := shares.sharing
  have housed := (shares.resolved.entryOf entry).1
  obtain ⟨others, ⟨e'', entry', form', named', group'⟩, members⟩ :=
    x.attempt_extends entry (form ▸ other) housed
  refine ⟨⟨x.attempt_resolves s shares.resolved, fun u differs => ?_, e'', entry', ?_, ?_, ?_⟩, ?_⟩
  · exact (others u differs).trans (shares.others u differs)
  · exact form'.trans form
  · exact named'.trans named
  · exact group'.trans group
  · rw [members_eq_of_group group, members_eq_of_group group, form] at members
    exact members

theorem Shares.afterAll (xs : List Extension) :
    Shares before derived e name (Extension.afterAll derived xs s) ∧
      (Extension.afterAll derived xs s).members e
        = (Extension.accepted derived xs s).foldl (Extension.gain e.form) (s.members e) := by
  induction xs generalizing s with
  | nil => exact ⟨shares, rfl⟩
  | cons x xs ih =>
    obtain ⟨shares', gained⟩ := shares.attempt other x
    obtain ⟨rest, members⟩ := ih shares'
    refine ⟨rest, ?_⟩
    unfold Extension.accepted
    show (Extension.afterAll derived xs (x.attempt derived s).2).members e = _
    rw [members]
    rcases outcome : x.attempt derived s with ⟨fault | done, s'⟩
    · rw [outcome] at gained
      rw [show s'.members e = s.members e by simpa using gained]
    · rw [outcome] at gained
      rw [show s'.members e = x.gain e.form (s.members e) by simpa using gained]
      rfl

/-- Traits that are all implemented by the derived type. -/
theorem Shares.traits {traits : List Trait} {s' : Store}
    (ok : each (fun trait => implementTrait derived trait []) traits s = (.ok (), s')) :
    Shares before derived e name s' ∧
      s'.members e = { s.members e with traits := (s.members e).traits ++ traits } := by
  induction traits generalizing s with
  | nil =>
    cases ok
    rw [append_nil]
    exact ⟨shares, rfl⟩
  | cons trait traits ih =>
    obtain ⟨done, s₁, first, rest⟩ := bind_eq_ok.mp ok
    obtain ⟨shares₁, gained⟩ := shares.attempt other (.trait trait [])
    rw [show (Extension.trait trait []).attempt derived s = (.ok (), s₁) from first] at shares₁ gained
    obtain ⟨shares', members⟩ := ih shares₁ rest
    refine ⟨shares', ?_⟩
    rw [members, gained, if_pos rfl]
    simp [Extension.gain]

end

/-- A new type that shares the members of another. -/
theorem shares_pushSharing {source : TypeRef} (resolved : s.Resolved fun _ => True)
    (entry : s.entryOf source = some e) (name : String) :
    Shares s (.id s.entries.length) e name (s.pushSharing { e with name := some name }) where
  resolved := resolved.pushSharing entry (some name)
  others u differs := by
    cases u with
    | id m =>
      have other : m ≠ s.entries.length := fun same => differs (congrArg TypeRef.id same.symm)
      show (s.entries ++ [_])[m]? = s.entries[m]?
      rcases Nat.lt_or_gt_of_ne other with old | beyond
      · exact List.getElem?_append_left old
      · have short : (s.entries ++ [{ e with name := some name }]).length ≤ m := by
          rw [length_append]
          exact beyond
        rw [List.getElem?_eq_none short, List.getElem?_eq_none (Nat.le_of_lt beyond)]
    | _ => rfl
  sharing := ⟨_, List.getElem?_concat_length .., rfl, rfl, rfl⟩

end Shares

/-! ## Derivations -/

/-- Something is done to some items one after the other until it fails. -/
theorem each_cases {σ α : Type} (f : α → Attempt σ Unit) (as : List α) (s : σ) :
    (∃ s', each f as s = (.ok (), s')) ∨
      ∃ done a rest s₁ fault s', as = done ++ a :: rest ∧ each f done s = (.ok (), s₁) ∧
        f a s₁ = (.error fault, s') ∧ each f as s = (.error fault, s') := by
  induction as generalizing s with
  | nil => exact .inl ⟨s, rfl⟩
  | cons a as ih =>
    have step : each f (a :: as) s = (f a >>= fun _ => each f as) s := rfl
    rw [bind_apply] at step
    rcases first : f a s with ⟨fault | done, s₁⟩
    · rw [first] at step
      exact .inr ⟨[], a, as, s, fault, s₁, rfl, rfl, first, step⟩
    · rw [first] at step
      rcases ih s₁ with ⟨s', ok⟩ | ⟨front, b, rest, s₂, fault, s', rfl, fine, failed, stopped⟩
      · exact .inl ⟨s', step.trans ok⟩
      · refine .inr ⟨a :: front, b, rest, s₂, fault, s', rfl, ?_, failed, step.trans stopped⟩
        exact bind_eq_ok.mpr ⟨done, s₁, first, fine⟩

section Derive

variable {s : Store} {source : TypeRef} {e : Entry}

section

variable (entry : s.entryOf source = some e) (other : e.form.isPrimitive = false)

include entry other

theorem derive_eq (name : String) (traits : List Trait) :
    derive source name traits s
      = (each (fun trait => implementTrait (.id s.entries.length) trait []) traits >>= fun _ =>
          pure (TypeRef.id s.entries.length)) (s.pushSharing { e with name := some name }) := by
  unfold derive
  rw [read_bind, entry]
  simp only [other, Bool.false_eq_true, if_false]
  rfl

theorem derive_ok {name : String} {traits : List Trait} {s' : Store}
    (ok : each (fun trait => implementTrait (.id s.entries.length) trait []) traits
      (s.pushSharing { e with name := some name }) = (.ok (), s')) :
    derive source name traits s = (.ok (.id s.entries.length), s') := by
  rw [derive_eq entry other, bind_apply, ok]
  rfl

theorem derive_error {name : String} {traits : List Trait} {s' : Store} {fault : Fault}
    (failed : each (fun trait => implementTrait (.id s.entries.length) trait []) traits
      (s.pushSharing { e with name := some name }) = (.error fault, s')) :
    derive source name traits s = (.error fault, s') := by
  rw [derive_eq entry other, bind_apply, failed]

end

/-- The traits up to the first that cannot be implemented are shared. -/
theorem derive_shares (resolved : s.Resolved fun _ => True) (entry : s.entryOf source = some e)
    (other : e.form.isPrimitive = false) (name : String) (traits : List Trait) :
    ∃ added refused, traits = added ++ refused ∧
      (derive source name added s).1 = .ok (.id s.entries.length) ∧
      (∀ trait ∈ refused.head?,
        (derive source name (added ++ [trait]) s).1 ≠ .ok (.id s.entries.length)) ∧
      Shares s (.id s.entries.length) e name (derive source name traits s).2 ∧
      (derive source name traits s).2.members e
        = { s.members e with traits := (s.members e).traits ++ added } := by
  have start := shares_pushSharing resolved entry name
  rcases each_cases (fun trait => implementTrait (.id s.entries.length) trait []) traits
    (s.pushSharing { e with name := some name }) with
    ⟨s', ok⟩ | ⟨added, trait, rest, s₁, fault, s', split, ok, failed, stopped⟩
  · have outcome := derive_ok entry other ok
    obtain ⟨shares, members⟩ := start.traits other ok
    refine ⟨traits, [], (append_nil _).symm, congrArg Prod.fst outcome, by simp, ?_, ?_⟩
    · rw [outcome]
      exact shares
    · rw [outcome]
      exact members
  · obtain ⟨shares, members⟩ := start.traits other ok
    -- the trait that is refused may leave methods, which are the derived type's own
    obtain ⟨shares', same⟩ := shares.attempt other (.trait trait [])
    rw [show (Extension.trait trait []).attempt (.id s.entries.length) s₁ = (.error fault, s')
      from failed] at shares' same
    have once : each (fun trait => implementTrait (.id s.entries.length) trait [])
        (added ++ [trait]) (s.pushSharing { e with name := some name }) = (.error fault, s') := by
      rw [each_append, bind_apply, ok]
      show (implementTrait (.id s.entries.length) trait [] >>= fun _ => pure ()) s₁ = _
      rw [bind_apply, failed]
    refine ⟨added, trait :: rest, split, congrArg Prod.fst (derive_ok entry other ok), ?_, ?_, ?_⟩
    · rintro _ ⟨⟩
      rw [derive_error entry other once]
      simp
    · rw [derive_error entry other stopped]
      exact shares'
    · rw [derive_error entry other stopped]
      exact same.trans members

end Derive

/-- A type is derived from another, and further extensions of the derived type are tried. The other
type keeps what is its own: name, methods and size. It gains the traits up to the first that the
derived type cannot implement, and all further extensions that succeed. So its members are what they
were exactly if no trait was implemented and no extension succeeded. -/
theorem source_gains_with_derived (acts : List Act) {source : TypeRef} {e : Entry}
    (entry : (Act.run acts).entryOf source = some e) (other : e.form.isPrimitive = false)
    (name : String) (traits : List Trait) (later : List Extension) :
    let s := Act.run acts
    let derived := TypeRef.id s.entries.length
    let s₁ := (derive source name traits s).2
    let s₂ := Extension.afterAll derived later s₁
    let gained := Extension.accepted derived later s₁
    s₁.entryOf source = some e ∧ s₂.entryOf source = some e ∧
    (∃ e', s₂.entryOf derived = some e' ∧ e'.name = some name ∧ s₂.members e' = s₂.members e) ∧
    ∃ added refused, traits = added ++ refused ∧
      (derive source name added s).1 = .ok derived ∧
      (∀ trait ∈ refused.head?, (derive source name (added ++ [trait]) s).1 ≠ .ok derived) ∧
      s₁.members e = { s.members e with traits := (s.members e).traits ++ added } ∧
      s₂.members e = gained.foldl (Extension.gain e.form) (s₁.members e) ∧
      (s₂.members e = s.members e ↔ added = [] ∧ gained = []) := by
  intro s derived s₁ s₂ gained
  have resolved : s.Resolved fun _ => True := Act.resolved_run (fun _ _ => trivial) acts (by simp)
  have differs : derived ≠ source := by
    obtain ⟨n, rfl, old⟩ := Store.entryOf_eq_some entry
    exact fun same => absurd (TypeRef.id.inj same) (Nat.ne_of_gt old)
  obtain ⟨added, refused, split, fine, stops, shares, members⟩ :=
    derive_shares resolved entry other name traits
  obtain ⟨shares', members'⟩ := shares.afterAll other later
  obtain ⟨e', entry', -, named, group⟩ := shares'.sharing
  refine ⟨(shares.others source differs).trans entry, (shares'.others source differs).trans entry,
    ⟨e', entry', named, Store.members_eq_of_group group⟩, added, refused, split, fine, stops, members,
    members', ?_⟩
  rw [members', members]
  exact Extension.foldl_gain_eq_iff

/-- The constraint is no condition and is refused; the trait and the field reach the structure that
another one is derived from. -/
theorem source_gains_with_derived_outer :
    let acts := [Act.call (.bitString (some "Code") (some (constantSize (.int 8)))),
      .call (.struct (some "Outer") [] [] [])]
    let later : List Extension := [.constraint (constantSize (.int 1)),
      .field ⟨"code", .id 6, .const .boolean (.flag true)⟩]
    let s₁ := (derive (.id 7) "Inner" [Trait.ordinal, Trait.equality] (Act.run acts)).2
    let s₂ := Extension.afterAll (.id 8) later s₁
    ∃ e, (Act.run acts).entryOf (.id 7) = some e ∧ e.form.isPrimitive = false ∧
      s₂.entryOf (.id 7) = some e ∧
      s₂.members e = (Extension.accepted (.id 8) later s₁).foldl (Extension.gain e.form)
        (s₁.members e) := by
  intro acts later s₁ s₂
  have entry : (Act.run acts).entryOf (.id 7) = some _ := rfl
  obtain ⟨-, kept, -, added, refused, -, -, -, -, members, -⟩ :=
    source_gains_with_derived acts entry rfl "Inner" [Trait.ordinal, Trait.equality] later
  exact ⟨_, entry, rfl, kept, members⟩

/-- A field that is added to the derived structure is one of the other structure too, which is as long
as before. -/
theorem derived_field_in_source :
    let acts := [Act.call (.bitString (some "Code") (some (constantSize (.int 8)))),
      .call (.struct (some "Outer") [] [] [])]
    let field : Field := ⟨"code", .id 6, .const .boolean (.flag true)⟩
    let s₁ := (derive (.id 7) "Inner" [Trait.ordinal] (Act.run acts)).2
    let s₂ := (addField (.id 8) field s₁).2
    ∃ e, (Act.run acts).entryOf (.id 7) = some e ∧ s₂.entryOf (.id 7) = some e ∧
      e.size = some (constantSize (.int 0)) ∧
      ((Act.run acts).members e).traits = [Trait.sized, Trait.equality] ∧
      ((Act.run acts).members e).fields = [] ∧
      (s₂.members e).traits = [Trait.sized, Trait.equality, Trait.ordinal] ∧
      (s₂.members e).fields = [field] :=
  ⟨_, rfl, rfl, rfl, rfl, rfl, rfl, rfl⟩

end PacketDraft.Protocol
