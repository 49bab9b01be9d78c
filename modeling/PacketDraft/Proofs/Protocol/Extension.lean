import Mathlib.Data.List.Basic
import PacketDraft.Proofs.Protocol.Step

/-!
# Extension

Steps only extend a store. A type keeps its form, its name and its members, methods and fields are
added at the end, and no type ever gets a parent. Only the protocol itself is renamed.
-/

namespace PacketDraft.Protocol

open List TypeRef

variable {e : Entry} {f : Entry → Entry}

/-- A type later on: methods may have been added, and the size may have changed. -/
structure Entry.Extends (e e' : Entry) : Prop where
  form : e'.form = e.form
  name : e.form = .protocol ∨ e'.name = e.name
  parent : e'.parent = e.parent
  group : e'.group = e.group
  methods : e.methods <+: e'.methods

/-- Members later on. -/
structure Members.Extends (ms ms' : Members) : Prop where
  fields : ms.fields <+: ms'.fields
  slots : ms.slots <+: ms'.slots

theorem Entry.Extends.refl (e : Entry) : e.Extends e :=
  ⟨rfl, .inr rfl, rfl, rfl, prefix_rfl⟩

theorem Entry.Extends.trans {e' e'' : Entry} (first : e.Extends e') (second : e'.Extends e'') :
    e.Extends e'' where
  form := second.form.trans first.form
  name := by
    rcases first.name with protocol | same
    · exact .inl protocol
    · rcases second.name with protocol | same'
      · exact .inl (first.form ▸ protocol)
      · exact .inr (same'.trans same)
  parent := second.parent.trans first.parent
  group := second.group.trans first.group
  methods := first.methods.trans second.methods

theorem Members.Extends.refl (ms : Members) : ms.Extends ms :=
  ⟨prefix_rfl, prefix_rfl⟩

theorem Members.Extends.trans {ms ms' ms'' : Members} (first : ms.Extends ms')
    (second : ms'.Extends ms'') : ms.Extends ms'' :=
  ⟨first.fields.trans second.fields, first.slots.trans second.slots⟩

namespace Store

/-- The members under a number. -/
def membersAt (s : Store) (g : Nat) : Members :=
  (s.groups[g]?).getD {}

/-- The fields of the context. -/
def contextSlots (s : Store) : List (String × TypeRef) :=
  (s.membersAt 4).slots

/-- The types that are always there, with their forms. -/
def basis : List (TypeRef × Form) :=
  [(.number, .number), (.boolean, .boolean), (.nothing, .nothing), (.protocol, .protocol),
   (.context, .context)]

/-- A store in which every type has its own members and no parent, and the types of the basis have
their forms. -/
structure Regular (s : Store) : Prop where
  aligned : s.groups.length = s.entries.length
  group : ∀ (n : Nat) (e : Entry), s.entries[n]? = some e → e.group = n
  parent : ∀ (n : Nat) (e : Entry), s.entries[n]? = some e → e.parent = .absent
  basic : ∀ b ∈ basis, ∃ e, s.entryOf b.1 = some e ∧ e.form = b.2

/-- A store later on. -/
structure Extends (s s' : Store) : Prop where
  entries : ∀ (n : Nat) (e : Entry), s.entries[n]? = some e →
    ∃ e', s'.entries[n]? = some e' ∧ e.Extends e'
  members : ∀ g, (s.membersAt g).Extends (s'.membersAt g)

variable {s s' s'' : Store}

theorem Extends.refl (s : Store) : s.Extends s :=
  ⟨fun _ e entry => ⟨e, entry, .refl e⟩, fun _ => .refl _⟩

theorem Extends.trans (first : s.Extends s') (second : s'.Extends s'') : s.Extends s'' where
  entries n e entry := by
    obtain ⟨e', entry', later⟩ := first.entries n e entry
    obtain ⟨e'', entry'', later'⟩ := second.entries n e' entry'
    exact ⟨e'', entry'', later.trans later'⟩
  members g := (first.members g).trans (second.members g)

theorem Extends.entryOf (extends_ : s.Extends s') {t : TypeRef} (entry : s.entryOf t = some e) :
    ∃ e', s'.entryOf t = some e' ∧ e.Extends e' := by
  obtain ⟨n, rfl, -⟩ := entryOf_eq_some entry
  exact extends_.entries n e entry

theorem Extends.length_le (extends_ : s.Extends s') : s.entries.length ≤ s'.entries.length := by
  by_contra shorter
  have bound : s'.entries.length < s.entries.length := Nat.lt_of_not_le shorter
  obtain ⟨e', entry', -⟩ := extends_.entries _ _ (List.getElem?_eq_getElem bound)
  exact absurd (List.getElem?_eq_some_iff.mp entry').1 (Nat.lt_irrefl _)

theorem Extends.members_of (extends_ : s.Extends s') {e' : Entry} (later : e.Extends e') :
    (s.members e).Extends (s'.members e') := by
  have own := extends_.members e.group
  show (s.membersAt e.group).Extends (s'.membersAt e'.group)
  rw [later.group]
  exact own

theorem Regular.parent_of (regular : s.Regular) {t : TypeRef} (entry : s.entryOf t = some e) :
    e.parent = .absent := by
  obtain ⟨n, rfl, -⟩ := entryOf_eq_some entry
  exact regular.parent n e entry

theorem regular_foundation : Regular .foundation where
  aligned := rfl
  group n e entry := by
    obtain ⟨bound, rfl⟩ := List.getElem?_eq_some_iff.mp entry
    exact (by decide : ∀ n (h : n < foundation.entries.length), foundation.entries[n].group = n)
      n bound
  parent n e entry :=
    (by decide : ∀ e ∈ foundation.entries, e.parent = .absent) e (mem_of_getElem? entry)
  basic := by simp [basis, entryOf, foundation, primitiveEntry, number, boolean,
    nothing, protocol, context]

/-! ## One step -/

theorem getElem?_modifyEntry {t : TypeRef} {n : Nat} (entry : s.entries[n]? = some e) :
    (s.modifyEntry t f).entries[n]? = some (if t = .id n then f e else e) := by
  cases t with
  | absent => exact entry
  | var name => exact entry
  | id m =>
    show (s.entries.modify m f)[n]? = _
    by_cases same : m = n
    · subst same
      rw [List.getElem?_modify_eq, entry, if_pos rfl]
      rfl
    · rw [List.getElem?_modify_ne _ _ same, entry, if_neg (by simpa using same)]

theorem length_modifyEntry (s : Store) (t : TypeRef) (f : Entry → Entry) :
    (s.modifyEntry t f).entries.length = s.entries.length := by
  cases t with
  | absent => rfl
  | var name => rfl
  | id n => exact length_modify ..

theorem entries_modifyMembers (s : Store) (t : TypeRef) (f : Members → Members) :
    (s.modifyMembers t f).entries = s.entries := by
  unfold modifyMembers
  split
  · rfl
  · rfl

theorem entryOf_modifyMembers (s : Store) (t : TypeRef) (f : Members → Members) (u : TypeRef) :
    (s.modifyMembers t f).entryOf u = s.entryOf u := by
  cases u with
  | absent => rfl
  | var name => rfl
  | id n =>
    show (s.modifyMembers t f).entries[n]? = s.entries[n]?
    rw [entries_modifyMembers]

theorem types_modifyMembers (s : Store) (t : TypeRef) (f : Members → Members) :
    (s.modifyMembers t f).types = s.types := by
  unfold modifyMembers
  split
  · rfl
  · rfl

theorem modifyMembers_of_entryOf_none {t : TypeRef} (f : Members → Members)
    (none : s.entryOf t = none) : s.modifyMembers t f = s := by
  rw [modifyMembers, none]

/-- Each type has its own members, so those of the other types do not change. -/
theorem Regular.membersAt_modifyMembers (regular : s.Regular) {t : TypeRef} (f : Members → Members)
    (entry : s.entryOf t = some e) (g : Nat) :
    (s.modifyMembers t f).membersAt g
      = if t = .id g then f (s.membersAt g) else s.membersAt g := by
  obtain ⟨n, rfl, bound⟩ := entryOf_eq_some entry
  have own : e.group = n := regular.group n e entry
  have there : n < s.groups.length := regular.aligned ▸ bound
  show ((s.modifyMembers (.id n) f).groups[g]?).getD {} = _
  rw [modifyMembers, entry]
  show ((s.groups.modify e.group f)[g]?).getD {} = _
  rw [own]
  by_cases same : n = g
  · subst same
    simp [membersAt, there]
  · rw [List.getElem?_modify_ne _ _ same, if_neg (by simpa using same), membersAt]

theorem membersAt_modifyEntry (s : Store) (t : TypeRef) (f : Entry → Entry) (g : Nat) :
    (s.modifyEntry t f).membersAt g = s.membersAt g := by
  rw [membersAt, membersAt, groups_modifyEntry]

/-- A new type has no members, like a type that is not there. -/
theorem membersAt_push (s : Store) (form : Form) (name : String) (size : Option Expr) (g : Nat) :
    (s.push form name size).membersAt g = s.membersAt g := by
  show ((s.groups ++ [({} : Members)])[g]?).getD {} = (s.groups[g]?).getD {}
  rcases Nat.lt_trichotomy g s.groups.length with below | rfl | above
  · rw [List.getElem?_append_left below]
  · simp
  · rw [List.getElem?_eq_none (by simp; omega),
      List.getElem?_eq_none (Nat.le_of_lt above)]

theorem extends_push (s : Store) (form : Form) (name : String) (size : Option Expr) :
    s.Extends (s.push form name size) where
  entries n e entry := by
    have bound := (List.getElem?_eq_some_iff.mp entry).1
    exact ⟨e, (List.getElem?_append_left bound).trans entry, .refl e⟩
  members g := by
    rw [membersAt_push]
    exact .refl _

theorem extends_modifyEntry {t : TypeRef} (later : ∀ e, s.entryOf t = some e → e.Extends (f e)) :
    s.Extends (s.modifyEntry t f) where
  entries n e entry := by
    refine ⟨_, getElem?_modifyEntry entry, ?_⟩
    split
    · next same =>
      subst same
      exact later e entry
    · exact .refl e
  members g := by
    rw [membersAt_modifyEntry]
    exact .refl _

theorem extends_modifyMembers (regular : s.Regular) {t : TypeRef} {f : Members → Members}
    (later : ∀ ms : Members, ms.Extends (f ms)) : s.Extends (s.modifyMembers t f) := by
  cases entry : s.entryOf t with
  | none =>
    rw [modifyMembers_of_entryOf_none f entry]
    exact .refl s
  | some e =>
    refine ⟨fun n e entry => ⟨e, ?_, .refl e⟩, fun g => ?_⟩
    · rw [entries_modifyMembers]
      exact entry
    · rw [regular.membersAt_modifyMembers f entry]
      split
      · exact later _
      · exact .refl _

/-- Later types have what earlier ones had, so only new types need to be looked at. -/
theorem Regular.of_extends (regular : s.Regular) (later : s.Extends s')
    (aligned : s'.groups.length = s'.entries.length)
    (fresh : ∀ (n : Nat) (e : Entry), s'.entries[n]? = some e → s.entries.length ≤ n →
      e.group = n ∧ e.parent = .absent) : s'.Regular := by
  have known : ∀ {n : Nat} {e' : Entry}, s'.entries[n]? = some e' → n < s.entries.length →
      e'.group = n ∧ e'.parent = .absent := by
    intro n e' entry' bound
    obtain ⟨e'', entry'', extends_⟩ := later.entries n _ (List.getElem?_eq_getElem bound)
    rw [entry'] at entry''
    cases entry''
    have entry := List.getElem?_eq_getElem bound
    exact ⟨extends_.group.trans (regular.group n _ entry),
      extends_.parent.trans (regular.parent n _ entry)⟩
  have all : ∀ {n : Nat} {e' : Entry}, s'.entries[n]? = some e' →
      e'.group = n ∧ e'.parent = .absent := by
    intro n e' entry'
    rcases Nat.lt_or_ge n s.entries.length with bound | new
    · exact known entry' bound
    · exact fresh n e' entry' new
  refine ⟨aligned, fun n e entry => (all entry).1, fun n e entry => (all entry).2, ?_⟩
  intro b mem
  obtain ⟨e, entry, form⟩ := regular.basic b mem
  obtain ⟨e', entry', extends_⟩ := later.entryOf entry
  exact ⟨e', entry', extends_.form.trans form⟩

theorem Regular.push (regular : s.Regular) (form : Form) (name : String) (size : Option Expr) :
    (s.push form name size).Regular := by
  refine regular.of_extends (extends_push s form name size) ?_ ?_
  · simp [Store.push, regular.aligned]
  · intro n e entry new
    have last : n = s.entries.length := by
      have bound := (List.getElem?_eq_some_iff.mp entry).1
      rw [Store.push, length_append] at bound
      exact Nat.le_antisymm (Nat.le_of_lt_succ bound) new
    subst last
    have entry : (s.entries ++ [_])[s.entries.length]? = some e := entry
    rw [List.getElem?_concat_length] at entry
    cases entry
    exact ⟨regular.aligned, rfl⟩

theorem Regular.modifyEntry (regular : s.Regular) {t : TypeRef}
    (later : ∀ e, s.entryOf t = some e → e.Extends (f e)) : (s.modifyEntry t f).Regular := by
  refine regular.of_extends (extends_modifyEntry later) ?_ ?_
  · rw [groups_modifyEntry, length_modifyEntry, regular.aligned]
  · intro n e entry new
    have bound := (List.getElem?_eq_some_iff.mp entry).1
    rw [length_modifyEntry] at bound
    exact absurd bound (Nat.not_lt.mpr new)

theorem Regular.modifyMembers (regular : s.Regular) {t : TypeRef} {f : Members → Members}
    (later : ∀ ms : Members, ms.Extends (f ms)) : (s.modifyMembers t f).Regular := by
  refine regular.of_extends (extends_modifyMembers regular later) ?_ ?_
  · rw [entries_modifyMembers, ← regular.aligned, Store.modifyMembers]
    split
    · exact length_modify ..
    · rfl
  · intro n e entry new
    rw [entries_modifyMembers] at entry
    exact absurd (List.getElem?_eq_some_iff.mp entry).1 (Nat.not_lt.mpr new)

/-- An edit changes a type or its members, and extends them. -/
theorem edit_cases {methods : List String} {fields : List Field} {t : TypeRef}
    (edit : Edit methods fields t s s') :
    (∃ f : Entry → Entry, s' = s.modifyEntry t f ∧ ∀ e : Entry, e.Extends (f e)) ∨
      ∃ f : Members → Members, s' = s.modifyMembers t f ∧
        ∀ ms : Members, ms.Extends (f ms) := by
  cases edit with
  | method m => exact .inl ⟨_, rfl, fun e => ⟨rfl, .inr rfl, rfl, rfl, prefix_append ..⟩⟩
  | size size => exact .inl ⟨_, rfl, fun e => ⟨rfl, .inr rfl, rfl, rfl, prefix_rfl⟩⟩
  | parseFrom f => exact .inl ⟨_, rfl, fun e => ⟨rfl, .inr rfl, rfl, rfl, prefix_rfl⟩⟩
  | serialiseTo f => exact .inl ⟨_, rfl, fun e => ⟨rfl, .inr rfl, rfl, rfl, prefix_rfl⟩⟩
  | trait trait => exact .inr ⟨_, rfl, fun ms => ⟨prefix_rfl, prefix_rfl⟩⟩
  | field => exact .inr ⟨_, rfl, fun ms => ⟨prefix_append .., prefix_rfl⟩⟩
  | slot => exact .inr ⟨_, rfl, fun ms => ⟨prefix_rfl, prefix_append ..⟩⟩
  | constraint => exact .inr ⟨_, rfl, fun ms => ⟨prefix_rfl, prefix_rfl⟩⟩
  | action => exact .inr ⟨_, rfl, fun ms => ⟨prefix_rfl, prefix_rfl⟩⟩

/-- A step extends a regular store, which stays regular. -/
theorem Regular.step (regular : s.Regular) (step : Step s s') : s.Extends s' ∧ s'.Regular := by
  cases step with
  | push form name size => exact ⟨extends_push s form name size, regular.push form name size⟩
  | edit methods fields edit =>
    rcases edit_cases edit with ⟨f, rfl, later⟩ | ⟨f, rfl, later⟩
    · exact ⟨extends_modifyEntry fun e _ => later e, regular.modifyEntry fun e _ => later e⟩
    · exact ⟨extends_modifyMembers regular later, regular.modifyMembers later⟩
  | register =>
    exact ⟨⟨(Extends.refl s).entries, (Extends.refl s).members⟩,
      ⟨regular.aligned, regular.group, regular.parent, regular.basic⟩⟩
  | pdu =>
    exact ⟨⟨(Extends.refl s).entries, (Extends.refl s).members⟩,
      ⟨regular.aligned, regular.group, regular.parent, regular.basic⟩⟩
  | rename name =>
    obtain ⟨e, entry, form⟩ := regular.basic (.protocol, .protocol) (by simp [basis])
    have later : ∀ e', s.entryOf .protocol = some e' →
        e'.Extends { e' with name := some name } := by
      intro e' entry'
      rw [entry] at entry'
      cases entry'
      exact ⟨rfl, .inl form, rfl, rfl, prefix_rfl⟩
    exact ⟨extends_modifyEntry later, regular.modifyEntry later⟩

theorem Regular.steps (regular : s.Regular) (steps : Steps s s') : s.Extends s' ∧ s'.Regular := by
  induction steps with
  | refl => exact ⟨.refl s, regular⟩
  | tail _ step ih =>
    obtain ⟨later, regular'⟩ := ih
    obtain ⟨later', regular''⟩ := regular'.step step
    exact ⟨later.trans later', regular''⟩

end Store

end PacketDraft.Protocol
