import PacketDraft.Proofs.Protocol.Making
import PacketDraft.Proofs.Protocol.Order
import PacketDraft.Render.Emission

/-!
# Closed registries

In a closed registry every type stands under its own name, behind the types that it is made of. From
this it follows that no type is a part of itself and that the dependency order names registered
types only, each name standing for the type that was reached. All of them but functions are written.
-/

namespace PacketDraft.Protocol

open List

/-- The types that are not registered under a name. -/
def primitives : List TypeRef :=
  [.number, .boolean, .nothing]

namespace Store

/-- The type at place `i` of the registry, or one that is to come there, may be made of `t`. -/
def Founds (s : Store) (i : Nat) (t : TypeRef) : Prop :=
  t ∈ primitives ∨ ∃ j < i, ∃ key, s.types[j]? = some (key, t)

/-- Every registered type but the context is made of earlier ones. -/
structure Founded (s : Store) : Prop where
  named : ∀ name t, (name, t) ∈ s.types →
    ∃ e, s.entryOf t = some e ∧ e.name = some name ∧ e.form.isListed = true
  distinct : (s.types.map (·.1)).Nodup
  context : ("Context", TypeRef.context) ∈ s.types
  parts : ∀ (i : Nat) (name : String) (t : TypeRef), s.types[i]? = some (name, t) →
    t ≠ .context → ∀ c ∈ s.components t, s.Founds i c

/-- Every registered type is made of earlier ones. -/
structure Closed (s : Store) : Prop extends Founded s where
  simple : ∀ c ∈ s.components .context, c ∈ primitives

variable {s : Store} {t c : TypeRef} {name : String}

theorem mem_of_lookup {α : Type} {xs : List (String × α)} {key : String} {value : α}
    (found : xs.lookup key = some value) : (key, value) ∈ xs := by
  obtain ⟨front, back, rfl, -⟩ := lookup_eq_some_iff.mp found
  simp

theorem lookup_of_mem {α : Type} {xs : List (String × α)} {key : String} {value : α}
    (distinct : (xs.map (·.1)).Nodup) (mem : (key, value) ∈ xs) :
    xs.lookup key = some value := by
  obtain ⟨front, back, rfl⟩ := append_of_mem mem
  refine lookup_eq_some_iff.mpr ⟨front, back, rfl, fun p inFront => ?_⟩
  rw [map_append, nodup_append] at distinct
  have other := distinct.2.2 p.1 (mem_map_of_mem inFront) key (by simp)
  simpa using Ne.symm other

theorem Founded.lookup (founded : s.Founded) (mem : (name, t) ∈ s.types) :
    s.types.lookup name = some t :=
  lookup_of_mem founded.distinct mem

/-- A type has one place in the registry. -/
theorem Founded.place_unique (founded : s.Founded) {i j : Nat} {key : String}
    (first : s.types[i]? = some (name, t)) (second : s.types[j]? = some (key, t)) : i = j := by
  obtain ⟨e, entry, named, -⟩ := founded.named name t (mem_of_getElem? first)
  obtain ⟨e', entry', named', -⟩ := founded.named key t (mem_of_getElem? second)
  rw [entry] at entry'
  cases entry'
  rw [named] at named'
  cases named'
  have bound := (List.getElem?_eq_some_iff.mp first).1
  refine (List.getElem?_inj (by simpa using bound) founded.distinct).mp ?_
  rw [List.getElem?_map, List.getElem?_map, first, second]

/-- The primitive types are not made of anything and are not named by the dependency order. -/
theorem Regular.primitive_form (regular : s.Regular) (mem : t ∈ primitives) :
    ∃ e, s.entryOf t = some e ∧ e.form.isPrimitive = true := by
  simp only [primitives, mem_cons, not_mem_nil, or_false] at mem
  rcases mem with rfl | rfl | rfl
  · obtain ⟨e, entry, form⟩ := regular.basic (.number, .number) (by simp [basis])
    exact ⟨e, entry, by rw [form]; rfl⟩
  · obtain ⟨e, entry, form⟩ := regular.basic (.boolean, .boolean) (by simp [basis])
    exact ⟨e, entry, by rw [form]; rfl⟩
  · obtain ⟨e, entry, form⟩ := regular.basic (.nothing, .nothing) (by simp [basis])
    exact ⟨e, entry, by rw [form]; rfl⟩

theorem Regular.not_lists (regular : s.Regular) (mem : t ∈ primitives) : ¬ s.Lists t name := by
  rintro ⟨e, entry, listed, -⟩
  obtain ⟨e', entry', primitive⟩ := regular.primitive_form mem
  rw [entry] at entry'
  cases entry'
  cases form : e.form <;> simp_all [Form.isListed, Form.isPrimitive]

theorem Regular.components_primitive (regular : s.Regular) (mem : t ∈ primitives) :
    ¬ s.PartOf c t := by
  intro part
  obtain ⟨name, lists⟩ := exists_lists_of_partOf part
  exact regular.not_lists mem lists

section

variable (closed : s.Closed)

include closed

theorem Closed.founds {i : Nat} (registered : s.types[i]? = some (name, t)) (part : s.PartOf c t) :
    s.Founds i c := by
  by_cases context : t = .context
  · subst context
    exact .inl (closed.simple c part)
  · exact closed.parts i name t registered context c part

/-- At any depth a type is made of earlier ones. -/
theorem Closed.founds_of_transGen (regular : s.Regular) {i : Nat}
    (registered : s.types[i]? = some (name, t)) (path : Relation.TransGen s.PartOf c t) :
    s.Founds i c := by
  induction path using Relation.TransGen.head_induction_on with
  | single part => exact closed.founds registered part
  | head part _ ih =>
    rcases ih with primitive | ⟨j, less, key, earlier⟩
    · exact absurd part (regular.components_primitive primitive)
    · rcases closed.founds earlier part with primitive | ⟨k, less', key', earlier'⟩
      · exact .inl primitive
      · exact .inr ⟨k, Nat.lt_trans less' less, key', earlier'⟩

theorem Closed.no_cycle (regular : s.Regular) (mem : (name, t) ∈ s.types) :
    ¬ Relation.TransGen s.PartOf t t := by
  intro cycle
  obtain ⟨i, registered⟩ := List.getElem?_of_mem mem
  rcases closed.founds_of_transGen regular registered cycle with
    primitive | ⟨j, less, key, earlier⟩
  · obtain ⟨e, entry, -, listed⟩ := closed.named name t mem
    exact regular.not_lists primitive ⟨e, entry, listed, rfl⟩
  · exact Nat.ne_of_lt less (closed.place_unique earlier registered)

/-- Whatever is needed is primitive or registered. -/
theorem Closed.registered_of_reachable (regular : s.Regular) (reachable : s.Reachable t) :
    t ∈ primitives ∨ ∃ name, (name, t) ∈ s.types := by
  induction reachable with
  | root mem =>
    rcases mem_append.mp mem with packet | context
    · obtain ⟨name, -, found⟩ := mem_filterMap.mp packet
      exact .inr ⟨name, mem_of_lookup found⟩
    · rw [mem_singleton.mp context]
      exact .inr ⟨"Context", closed.context⟩
  | part _ part ih =>
    rcases ih with primitive | ⟨name, mem⟩
    · exact absurd part (regular.components_primitive primitive)
    · obtain ⟨i, registered⟩ := List.getElem?_of_mem mem
      rcases closed.founds registered part with primitive | ⟨j, -, key, earlier⟩
      · exact .inl primitive
      · exact .inr ⟨key, mem_of_getElem? earlier⟩

/-- The name of a type that is needed stands for that type. -/
theorem Closed.lookup_of_lists (regular : s.Regular) (reachable : s.Reachable t)
    (lists : s.Lists t name) : s.types.lookup name = some t := by
  rcases closed.registered_of_reachable regular reachable with primitive | ⟨key, mem⟩
  · exact absurd lists (regular.not_lists primitive)
  · obtain ⟨e, entry, -, rfl⟩ := lists
    obtain ⟨e', entry', named, -⟩ := closed.named key t mem
    rw [entry] at entry'
    cases entry'
    rw [Entry.shownName, named]
    exact closed.lookup mem

theorem Closed.acyclic (regular : s.Regular) : s.Acyclic := by
  intro t reachable cycle
  rcases closed.registered_of_reachable regular reachable with primitive | ⟨name, mem⟩
  · obtain ⟨c, -, part⟩ := Relation.TransGen.tail'_iff.mp cycle
    exact regular.components_primitive primitive part
  · exact closed.no_cycle regular mem cycle

theorem Closed.unambiguous (regular : s.Regular) : s.Unambiguous := by
  intro t u name reachable reachable' lists lists'
  have first := closed.lookup_of_lists regular reachable lists
  have second := closed.lookup_of_lists regular reachable' lists'
  exact Option.some.inj (first.symm.trans second)

end

/-! ## Completing a protocol -/

/-- Types may have been added, sizes and functions given to types, and the protocol renamed. -/
structure Completes (s s' : Store) : Prop where
  entries : ∀ (n : Nat) (e : Entry), s.entries[n]? = some e → ∃ e', s'.entries[n]? = some e' ∧
    e'.form = e.form ∧ (e.form = .protocol ∨ e'.name = e.name) ∧ e'.group = e.group
  fields : ∀ g, (s'.membersAt g).fields = (s.membersAt g).fields
  slots : ∀ g, (s'.membersAt g).slots = (s.membersAt g).slots
  types : s'.types = s.types

instance : IsPreorder Store Completes where
  refl _ := ⟨fun _ e entry => ⟨e, entry, rfl, .inr rfl, rfl⟩, fun _ => rfl, fun _ => rfl, rfl⟩
  trans _ _ _ first second := by
    refine ⟨fun n e entry => ?_, fun g => (second.fields g).trans (first.fields g),
      fun g => (second.slots g).trans (first.slots g), second.types.trans first.types⟩
    obtain ⟨e', entry', form, name, group⟩ := first.entries n e entry
    obtain ⟨e'', entry'', form', name', group'⟩ := second.entries n e' entry'
    refine ⟨e'', entry'', form'.trans form, ?_, group'.trans group⟩
    rcases name with protocol | name
    · exact .inl protocol
    · exact name'.imp (fun protocol => form ▸ protocol) fun name' => name'.trans name

theorem completes_modifyEntry {f : Entry → Entry} (form : ∀ e, (f e).form = e.form)
    (name : ∀ e, s.entryOf t = some e → e.form = .protocol ∨ (f e).name = e.name)
    (group : ∀ e, (f e).group = e.group) : s.Completes (s.modifyEntry t f) where
  entries n e entry := by
    refine ⟨_, getElem?_modifyEntry entry, ?_⟩
    split
    · next own =>
      subst own
      exact ⟨form e, name e entry, group e⟩
    · exact ⟨rfl, .inr rfl, rfl⟩
  fields g := by rw [membersAt_modifyEntry]
  slots g := by rw [membersAt_modifyEntry]
  types := by cases t <;> rfl

theorem completes_of_made {methods : List String} {form : Form} {s' : Store} {e : Entry}
    {ms : Members} (made : Made methods [] form name s s' e ms) (other : form ≠ .context) :
    s.Completes s' := by
  have noFields : ms.fields = [] := by
    cases fields : ms.fields with
    | nil => rfl
    | cons f fs =>
      have mem : f ∈ ms.fields := by simp [fields]
      exact absurd (made.fields f mem) not_mem_nil
  have noSlots : ms.slots = [] := made.slots (made.form ▸ other)
  have members : ∀ g, s'.membersAt g = s.membersAt g ∨
      s'.membersAt g = ms ∧ s.membersAt g = {} := by
    intro g
    unfold membersAt
    rw [made.groups]
    rcases Nat.lt_trichotomy g s.groups.length with below | rfl | above
    · rw [List.getElem?_append_left below]
      exact .inl rfl
    · simp
    · rw [List.getElem?_eq_none (by simp; omega), List.getElem?_eq_none (Nat.le_of_lt above)]
      exact .inl rfl
  refine ⟨fun n old entry => ⟨old, ?_, rfl, .inr rfl, rfl⟩, fun g => ?_, fun g => ?_, made.types⟩
  · exact made.entryOf_old (t := .id n) entry
  · rcases members g with same | ⟨new, none⟩
    · rw [same]
    · rw [new, none, noFields]
  · rcases members g with same | ⟨new, none⟩
    · rw [same]
    · rw [new, none, noSlots]

theorem completing_completes : Completing Completes where
  option name t s := by
    rcases makeOption_makes name t s with
      ⟨fault, outcome⟩ | ⟨given, size, r, s', -, outcome, edits, -⟩
    · rw [outcome]
      exact refl_of Completes s
    · rw [outcome]
      obtain ⟨e, ms, made⟩ := Made.of_edits edits
      exact completes_of_made made (by simp)
  size _ _ _ _ _ _ _ _ := completes_modifyEntry (fun _ => rfl) (fun _ _ => .inr rfl) fun _ => rfl
  parseFrom _ _ _ := completes_modifyEntry (fun _ => rfl) (fun _ _ => .inr rfl) fun _ => rfl
  serialiseTo _ _ _ := completes_modifyEntry (fun _ => rfl) (fun _ _ => .inr rfl) fun _ => rfl

theorem Regular.completes_rename (regular : s.Regular) (name : String) :
    s.Completes (s.modifyEntry .protocol fun e => { e with name := some name }) := by
  refine completes_modifyEntry (fun _ => rfl) (fun e entry => .inl ?_) fun _ => rfl
  obtain ⟨e', entry', form⟩ := regular.basic (.protocol, .protocol) (by simp [basis])
  rw [entry] at entry'
  cases entry'
  exact form

theorem Completes.entryOf {s' : Store} (completes : s.Completes s') {e : Entry}
    (entry : s.entryOf t = some e) : ∃ e', s'.entryOf t = some e' ∧
      e'.form = e.form ∧ (e.form = .protocol ∨ e'.name = e.name) ∧ e'.group = e.group := by
  obtain ⟨n, rfl, -⟩ := entryOf_eq_some entry
  exact completes.entries n e entry

theorem Completes.components {s' : Store} (completes : s.Completes s') {e : Entry}
    (entry : s.entryOf t = some e) : s'.components t = s.components t := by
  obtain ⟨e', entry', form, -, group⟩ := completes.entryOf entry
  have fields : (s'.members e').fields = (s.members e).fields := by
    show (s'.membersAt e'.group).fields = (s.membersAt e.group).fields
    rw [group, completes.fields]
  have slots : (s'.members e').slots = (s.members e).slots := by
    show (s'.membersAt e'.group).slots = (s.membersAt e.group).slots
    rw [group, completes.slots]
  unfold Store.components
  rw [entry, entry']
  simp only [form, fields, slots]

/-- Completing a protocol leaves its registry closed. -/
theorem Closed.completes {s' : Store} (closed : s.Closed) (completes : s.Completes s') :
    s'.Closed where
  named name t mem := by
    rw [completes.types] at mem
    obtain ⟨e, entry, named, listed⟩ := closed.named name t mem
    obtain ⟨e', entry', form, name, -⟩ := completes.entryOf entry
    have name := name.resolve_left fun protocol => by simp [protocol, Form.isListed] at listed
    exact ⟨e', entry', name.trans named, form ▸ listed⟩
  distinct := completes.types ▸ closed.distinct
  context := completes.types ▸ closed.context
  parts i name t registered other c part := by
    rw [completes.types] at registered
    obtain ⟨e, entry, -⟩ := closed.named name t (mem_of_getElem? registered)
    rw [completes.components entry] at part
    rw [Founds, completes.types]
    exact closed.parts i name t registered other c part
  simple c part := by
    obtain ⟨e, entry, -⟩ := closed.named _ _ closed.context
    rw [completes.components entry] at part
    exact closed.simple c part

end Store

end PacketDraft.Protocol
