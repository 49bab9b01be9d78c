import PacketDraft.Proofs.Protocol.Extension

/-!
# New types

While a type is made, nothing else changes: it stands at the end of the store with its own members.
It has no other methods and fields than it was made with.
-/

namespace PacketDraft.Protocol

open List

/-- `s'` is `s` with one more type, whose entry is `e` and whose members are `ms`. -/
structure Made (methods : List String) (fields : List Field) (form : Form) (name : String)
    (s s' : Store) (e : Entry) (ms : Members) : Prop where
  entries : s'.entries = s.entries ++ [e]
  groups : s'.groups = s.groups ++ [ms]
  types : s'.types = s.types
  form : e.form = form
  name : e.name = some name
  group : e.group = s.groups.length
  methods : ∀ m ∈ e.methods, m.1 ∈ methods
  fields : ∀ f ∈ ms.fields, f ∈ fields
  slots : e.form ≠ .context → ms.slots = []

/-- The types that a type of a form with some fields is made of, unless it is a context. -/
def Form.parts (fields : List Field) : Form → List TypeRef
  | .struct => fields.map (·.type)
  | .array element _ => [element]
  | .enum variants => variants
  | .function parameters result => parameters.map (·.type) ++ [result]
  | _ => []

variable {methods : List String} {fields : List Field} {form : Form} {name : String}
  {s s₁ s₂ : Store} {e : Entry} {ms : Members}

theorem modify_last {α : Type} (xs : List α) (x : α) (f : α → α) :
    (xs ++ [x]).modify xs.length f = xs ++ [f x] := by
  induction xs with
  | nil => rfl
  | cons y ys ih =>
    rw [cons_append, length_cons, modify_succ_cons, ih, cons_append]

namespace Made

theorem entryOf (made : Made methods fields form name s s₁ e ms) :
    s₁.entryOf (.id s.entries.length) = some e := by
  show s₁.entries[s.entries.length]? = some e
  rw [made.entries, List.getElem?_concat_length]

theorem push (s : Store) (form : Form) (name : String) (size : Option Expr) :
    Made methods fields form name s (s.push form name size)
      { form, name := some name, size, group := s.groups.length } {} where
  entries := rfl
  groups := rfl
  types := rfl
  form := rfl
  name := rfl
  group := rfl
  methods := by simp
  fields := by simp
  slots _ := rfl

theorem modifyEntry (made : Made methods fields form name s s₁ e ms) {f : Entry → Entry}
    (sameForm : (f e).form = e.form) (sameName : (f e).name = e.name)
    (sameGroup : (f e).group = e.group) (allowed : ∀ m ∈ (f e).methods, m.1 ∈ methods) :
    Made methods fields form name s (s₁.modifyEntry (.id s.entries.length) f) (f e) ms where
  entries := by
    show s₁.entries.modify s.entries.length f = _
    rw [made.entries, modify_last]
  groups := made.groups
  types := made.types
  form := sameForm.trans made.form
  name := sameName.trans made.name
  group := sameGroup.trans made.group
  methods := allowed
  fields := made.fields
  slots := sameForm ▸ made.slots

theorem modifyMembers (made : Made methods fields form name s s₁ e ms) {f : Members → Members}
    (allowed : ∀ field ∈ (f ms).fields, field ∈ fields)
    (slots : e.form ≠ .context → (f ms).slots = []) :
    Made methods fields form name s (s₁.modifyMembers (.id s.entries.length) f) e (f ms) := by
  have after : s₁.modifyMembers (.id s.entries.length) f
      = { s₁ with groups := s.groups ++ [f ms] } := by
    rw [Store.modifyMembers, made.entryOf]
    show { s₁ with groups := s₁.groups.modify e.group f } = _
    rw [made.groups, made.group, modify_last]
  rw [after]
  exact ⟨made.entries, rfl, made.types, made.form, made.name, made.group, made.methods, allowed,
    slots⟩

/-- One edit of the new type. -/
theorem edit (made : Made methods fields form name s s₁ e ms)
    (edit : Edit methods fields (.id s.entries.length) s₁ s₂) :
    ∃ e' ms', Made methods fields form name s s₂ e' ms' := by
  cases edit with
  | method m allowed =>
    refine ⟨_, _, made.modifyEntry rfl rfl rfl ?_⟩
    intro m' mem
    rcases mem_append.mp mem with old | new
    · exact made.methods m' old
    · rw [mem_singleton.mp new]
      exact allowed
  | size | parseFrom | serialiseTo =>
    exact ⟨_, _, made.modifyEntry rfl rfl rfl made.methods⟩
  | trait | constraint | action =>
    exact ⟨_, _, made.modifyMembers made.fields made.slots⟩
  | field entry struct allowed =>
    refine ⟨_, _, made.modifyMembers (fun f mem => ?_) made.slots⟩
    rcases mem_append.mp mem with old | new
    · exact made.fields f old
    · rw [mem_singleton.mp new]
      exact allowed
  | slot type entry context =>
    refine ⟨_, _, made.modifyMembers made.fields fun other => ?_⟩
    rw [made.entryOf] at entry
    cases entry
    exact absurd context other

theorem of_edits {size : Option Expr}
    (edits : Edits methods fields (.id s.entries.length) (s.push form name size) s₂) :
    ∃ e ms, Made methods fields form name s s₂ e ms := by
  induction edits with
  | refl => exact ⟨_, _, push s form name size⟩
  | tail _ step ih =>
    obtain ⟨e, ms, made⟩ := ih
    exact made.edit step

section

variable (made : Made methods fields form name s s₁ e ms)

include made

/-- Nothing else has changed. -/
theorem entryOf_old {t : TypeRef} {old : Entry} (entry : s.entryOf t = some old) :
    s₁.entryOf t = some old := by
  obtain ⟨n, rfl, bound⟩ := Store.entryOf_eq_some entry
  show s₁.entries[n]? = some old
  rw [made.entries, List.getElem?_append_left bound]
  exact entry

/-- Only one type is new. -/
theorem entryOf_new {t : TypeRef} {e' : Entry} (none : s.entryOf t = none)
    (entry : s₁.entryOf t = some e') : e' = e := by
  obtain ⟨n, rfl, bound⟩ := Store.entryOf_eq_some entry
  have beyond : s.entries.length ≤ n := List.getElem?_eq_none_iff.mp none
  rw [made.entries, length_append, length_singleton] at bound
  have last : n = s.entries.length := Nat.le_antisymm (Nat.le_of_lt_succ bound) beyond
  rw [last, made.entryOf] at entry
  exact (Option.some.inj entry).symm

theorem membersAt {g : Nat} (bound : g < s.groups.length) : s₁.membersAt g = s.membersAt g := by
  rw [Store.membersAt, Store.membersAt, made.groups, List.getElem?_append_left bound]

/-- The older types are made of what they were made of. -/
theorem components_old (regular : s.Regular) {t : TypeRef} {old : Entry}
    (entry : s.entryOf t = some old) : s₁.components t = s.components t := by
  have bound : old.group < s.groups.length := by
    obtain ⟨n, rfl, there⟩ := Store.entryOf_eq_some entry
    rw [regular.group n old entry, regular.aligned]
    exact there
  have members : s₁.members old = s.members old := made.membersAt bound
  unfold Store.components
  rw [entry, made.entryOf_old entry]
  simp only [members]

theorem members_new : s₁.members e = ms := by
  rw [Store.members, made.groups, made.group, List.getElem?_concat_length]
  rfl

theorem components (other : form ≠ .context) :
    s₁.components (.id s.entries.length) ⊆ form.parts fields := by
  intro c mem
  unfold Store.components at mem
  rw [made.entryOf] at mem
  simp only [made.form, made.members_new] at mem
  cases form with
  | struct =>
    obtain ⟨f, fieldOf, rfl⟩ := mem_map.mp mem
    exact mem_map_of_mem (made.fields f fieldOf)
  | context => exact absurd rfl other
  | _ => exact mem

end

end Made

/-- Only names of types are accepted for types of data. -/
theorem isTypeName_of_makeType {size : Option Expr} {t : TypeRef}
    (data : ∀ parameters result, form ≠ .function parameters result)
    (made : makeType form (some name) size s = (.ok t, s₁)) : isTypeName name = true := by
  obtain ⟨given, _, checked, -⟩ := Attempt.bind_eq_ok.mp made
  obtain ⟨valid, -⟩ := Attempt.ofExcept_eq_ok.mp checked
  unfold checkName at valid
  split at valid
  · cases valid
  · next same =>
    cases same
    cases form with
    | function parameters result => exact absurd rfl (data parameters result)
    | _ =>
      dsimp only at valid
      split at valid
      · assumption
      · cases valid

end PacketDraft.Protocol
