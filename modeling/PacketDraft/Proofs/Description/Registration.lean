import PacketDraft.Description.Build
import PacketDraft.Proofs.Protocol.Closure
import PacketDraft.Proofs.Protocol.Typing

/-!
# Registering what is built

While a protocol is built, types are registered and fields are added to the context. A type that is
described may be called `Number`, and fields of the context get that type as theirs; but then the
action that stores a value in such a field has no type, as only numbers, bit strings and arrays can
be set. So a structure with such an action cannot be made, and once everything is built all fields
of the context are numbers.
-/

namespace PacketDraft.Description

open Protocol List Attempt Store

/-- A store while a protocol is built. For the `pending` fields of the context an action is still to
be added to a structure; `known` types are there to make other types of them. -/
structure Ready (pending : List String) (known : List TypeRef) (s : Store) : Prop where
  regular : s.Regular
  founded : s.Founded
  plain : ∀ t e, ("Number", t) ∈ s.types → s.entryOf t = some e → e.methods.lookup "set" = none
  slots : ∀ slot ∈ s.contextSlots, slot.2 = .number ∨ (slot.1 ∈ pending ∧
    ("Number", slot.2) ∈ s.types ∧ s.contextSlots.lookup slot.1 = some slot.2)
  known : ∀ t ∈ known, s.Founds s.types.length t

variable {pending pending' : List String} {known known' : List TypeRef} {s s₁ : Store}
  {methods : List String} {fields : List Field} {form : Form} {name : String} {t : TypeRef}
  {e : Entry} {ms : Members}

theorem Ready.weaken (ready : Ready pending known s) (more : pending ⊆ pending')
    (less : known' ⊆ known) : Ready pending' known' s where
  regular := ready.regular
  founded := ready.founded
  plain := ready.plain
  slots slot mem := (ready.slots slot mem).imp_right fun ⟨due, rest⟩ => ⟨more due, rest⟩
  known t mem := ready.known t (less mem)

theorem Ready.forget (ready : Ready pending known s) (less : known' ⊆ known) :
    Ready pending known' s :=
  ready.weaken (List.Subset.refl _) less

theorem context_lt (regular : s.Regular) : 4 < s.groups.length := by
  obtain ⟨e, entry, -⟩ := regular.basic (.context, .context) (by simp [basis])
  rw [regular.aligned]
  exact (List.getElem?_eq_some_iff.mp entry).1

/-- What a type may be made of stays there when more types are registered. -/
theorem founds_mono {s s' : Store} {i j : Nat} (start : s.types <+: s'.types) (le : i ≤ j)
    (founds : s.Founds i t) : s'.Founds j t := by
  refine founds.imp_right fun ⟨k, less, key, there⟩ => ⟨k, Nat.lt_of_lt_of_le less le, key, ?_⟩
  obtain ⟨more, longer⟩ := start
  rw [← longer, List.getElem?_append_left (List.getElem?_eq_some_iff.mp there).1]
  exact there

/-- A new type is registered behind all that it is made of. -/
theorem founded_register (founded : s.Founded) (regular : s.Regular)
    (made : Made methods fields form name s s₁ e ms) (free : s₁.hasType name = false)
    (listed : form.isListed = true) (other : form ≠ .context)
    (parts : ∀ c ∈ form.parts fields, s.Founds s.types.length c) :
    Store.Founded { s₁ with types := s₁.types ++ [(name, .id s.entries.length)] } := by
  rw [made.types]
  have fresh : name ∉ s.types.map (·.1) := by
    intro taken
    obtain ⟨⟨key, t⟩, mem, rfl⟩ := mem_map.mp taken
    rw [hasType, made.types, founded.lookup mem] at free
    cases free
  refine ⟨?_, ?_, ?_, ?_⟩
  · intro key t mem
    rcases mem_append.mp mem with old | new
    · obtain ⟨e', entry, rest⟩ := founded.named key t old
      exact ⟨e', made.entryOf_old entry, rest⟩
    · cases mem_singleton.mp new
      exact ⟨e, made.entryOf, made.name, made.form ▸ listed⟩
  · rw [map_append, nodup_append]
    refine ⟨founded.distinct, by simp, ?_⟩
    rintro key mem _ new rfl
    rw [map_singleton, mem_singleton] at new
    subst new
    exact fresh mem
  · exact mem_append_left _ founded.context
  · intro i key t registered noContext c part
    have start : s.types <+: s.types ++ [(name, TypeRef.id s.entries.length)] :=
      prefix_append ..
    rcases Nat.lt_trichotomy i s.types.length with below | rfl | above
    · have registered : (s.types ++ [(name, _)])[i]? = some (key, t) := registered
      rw [List.getElem?_append_left below] at registered
      obtain ⟨old, entry, -⟩ := founded.named key t (mem_of_getElem? registered)
      have part : c ∈ s₁.components t := part
      rw [made.components_old regular entry] at part
      exact founds_mono start (Nat.le_refl i) (founded.parts i key t registered noContext c part)
    · have registered : (s.types ++ [(name, _)])[s.types.length]? = some (key, t) := registered
      rw [List.getElem?_concat_length] at registered
      cases registered
      exact founds_mono start (Nat.le_refl _) (parts c (made.components other part))
    · have bound := (List.getElem?_eq_some_iff.mp registered).1
      rw [length_append, length_singleton] at bound
      omega

/-- The new type is there for others, and the fields of the context are what they were. -/
theorem Ready.register (ready : Ready pending known s)
    (made : Made methods fields form name s s₁ e ms) (free : s₁.hasType name = false)
    (listed : form.isListed = true) (other : form ≠ .context) (parts : form.parts fields ⊆ known)
    (plain : name = "Number" → "set" ∉ methods)
    (regular : Store.Regular { s₁ with types := s₁.types ++ [(name, .id s.entries.length)] }) :
    Ready pending (.id s.entries.length :: known)
      { s₁ with types := s₁.types ++ [(name, .id s.entries.length)] } := by
  have founded := founded_register ready.founded ready.regular made free listed other
    fun c mem => ready.known c (parts mem)
  rw [made.types] at founded regular ⊢
  have start : s.types <+: s.types ++ [(name, TypeRef.id s.entries.length)] :=
    prefix_append ..
  have slots : s₁.contextSlots = s.contextSlots := by
    rw [contextSlots, made.membersAt (context_lt ready.regular), contextSlots]
  refine ⟨regular, founded, ?_, ?_, ?_⟩
  · intro t e' mem entry
    rcases mem_append.mp mem with old | new
    · obtain ⟨e'', entry'', -⟩ := ready.founded.named _ t old
      have same : some e' = some e'' := entry.symm.trans (made.entryOf_old entry'')
      cases same
      exact ready.plain t _ old entry''
    · cases mem_singleton.mp new
      have same : some e' = some e := entry.symm.trans made.entryOf
      cases same
      rw [← Option.not_isSome_iff_eq_none, isSome_lookup_iff]
      intro mem
      obtain ⟨x, own, same⟩ := mem_map.mp mem
      exact plain rfl (same ▸ made.methods x own)
  · intro slot mem
    have mem : slot ∈ s.contextSlots := slots ▸ mem
    rcases ready.slots slot mem with plain | ⟨due, described, found⟩
    · exact .inl plain
    · exact .inr ⟨due, mem_append_left _ described, slots ▸ found⟩
  · intro t mem
    rcases mem_cons.mp mem with rfl | old
    · exact .inr ⟨s.types.length, by simp, name, List.getElem?_concat_length ..⟩
    · exact founds_mono start start.length_le (ready.known t old)

theorem components_modifyMembers (regular : s.Regular) {u : TypeRef} (ne : t ≠ u)
    (f : Members → Members) : (s.modifyMembers u f).components t = s.components t := by
  cases changed : s.entryOf u with
  | none => rw [modifyMembers_of_entryOf_none f changed]
  | some _ =>
    unfold components
    rw [entryOf_modifyMembers]
    cases entry : s.entryOf t with
    | none => rfl
    | some e =>
      have members : (s.modifyMembers u f).members e = s.members e := by
        show (s.modifyMembers u f).membersAt e.group = s.membersAt e.group
        rw [regular.membersAt_modifyMembers f changed, if_neg]
        rintro rfl
        obtain ⟨n, rfl, -⟩ := entryOf_eq_some entry
        exact ne (congrArg TypeRef.id (regular.group n e entry).symm)
      simp only [members]

theorem founded_modifyContext (founded : s.Founded) (regular : s.Regular)
    (f : Members → Members) : (s.modifyMembers .context f).Founded where
  named name t mem := by
    rw [types_modifyMembers] at mem
    rw [entryOf_modifyMembers]
    exact founded.named name t mem
  distinct := by
    rw [types_modifyMembers]
    exact founded.distinct
  context := by
    rw [types_modifyMembers]
    exact founded.context
  parts i name t registered other c part := by
    rw [types_modifyMembers] at registered
    rw [components_modifyMembers regular other] at part
    rw [Store.Founds, types_modifyMembers]
    exact founded.parts i name t registered other c part

/-- A new field of the context is a number, or something has to be stored in it. -/
theorem Ready.addSlot (ready : Ready pending known s)
    (number : t = .number ∨ ("Number", t) ∈ s.types) {s' : Store} {done : Unit}
    (added : Protocol.addSlot .context name t s = (.ok done, s')) :
    Ready (name :: pending) known s' := by
  have regular : s'.Regular :=
    (ready.regular.steps ((addSlot_steps .context name t).of_eq added)).2
  obtain ⟨e, entry, form, fresh, rfl⟩ := (addSlot_changes .context name t).of_ok added
  have slots : (s.modifyMembers .context fun ms =>
      { ms with slots := ms.slots ++ [(name, t)] }).contextSlots = s.contextSlots ++ [(name, t)] := by
    rw [contextSlots, ready.regular.membersAt_modifyMembers _ entry]
    rfl
  have fresh : s.contextSlots.lookup name = none := by
    have own : e.group = 4 := ready.regular.group 4 e entry
    rw [members, own] at fresh
    exact fresh
  refine ⟨regular, founded_modifyContext ready.founded ready.regular _, ?_, ?_, ?_⟩
  · intro t e' mem entry
    rw [types_modifyMembers] at mem
    rw [entryOf_modifyMembers] at entry
    exact ready.plain t e' mem entry
  · rw [slots, types_modifyMembers]
    intro slot mem
    rcases mem_append.mp mem with old | new
    · rcases ready.slots slot old with plain | ⟨due, described, found⟩
      · exact .inl plain
      · exact .inr ⟨mem_cons_of_mem _ due, described,
          lookup_of_isPrefix (prefix_append ..) found⟩
    · rw [mem_singleton.mp new]
      refine number.imp_right fun number => ⟨mem_cons_self, number, ?_⟩
      rw [lookup_append, fresh]
      simp
  · intro u mem
    rw [Store.Founds, types_modifyMembers]
    exact ready.known u mem

/-- The field of the context that an action stores a value in. -/
def storedName? : Expr → Option String
  | .method (.ctx name context) method _ =>
    if context = .context ∧ method = "set" then some name else none
  | _ => none

/-- The fields of the context that actions store values in. -/
def storedNames (actions : List Expr) : List String :=
  actions.filterMap storedName?

theorem storedName?_eq_some {x : Expr} (stores : storedName? x = some name) :
    ∃ args, x = .method (.ctx name .context) "set" args := by
  unfold storedName? at stores
  split at stores
  · split at stores
    · next both =>
      obtain ⟨rfl, rfl⟩ := both
      cases stores
      exact ⟨_, rfl⟩
    · cases stores
  · cases stores

theorem contextField (regular : s.Regular) (field : s.fieldType .context name = .ok t) :
    s.contextSlots.lookup name = some t := by
  obtain ⟨e, entry, form⟩ := regular.basic (.context, .context) (by simp [basis])
  obtain ⟨e', entry', found⟩ := fieldType_eq_ok.mp field
  rw [entry] at entry'
  cases entry'
  have found := (found.resolve_left fun struct => absurd struct.1 (by simp [form])).2
  rw [members, regular.group 4 e entry] at found
  exact found

/-- Only fields that are numbers can be stored in by an action that has a type. -/
theorem Ready.discharge {actions : List Expr} {c : TypeRef}
    (ready : Ready (storedNames actions ++ pending) known s)
    (typed : ∀ x ∈ actions, ∃ r, s.resultType c x = .ok r) : Ready pending known s := by
  refine ⟨ready.regular, ready.founded, ready.plain, ?_, ready.known⟩
  intro slot mem
  rcases ready.slots slot mem with number | ⟨due, described, found⟩
  · exact .inl number
  · rcases mem_append.mp due with now | later
    · obtain ⟨x, action, stores⟩ := mem_filterMap.mp now
      obtain ⟨args, rfl⟩ := storedName?_eq_some stores
      obtain ⟨r, result⟩ := typed _ action
      obtain ⟨_, -, u, target, m, method, -⟩ := resultType_method_eq_ok.mp result
      rw [resultType] at target
      obtain rfl : u = slot.2 := by
        have there := contextField ready.regular target
        exact Option.some.inj (there.symm.trans found)
      obtain ⟨e, entry, has⟩ := ready.regular.getMethod_eq_ok.mp method
      rw [ready.plain _ e described entry] at has
      cases has
    · exact .inr ⟨later, described, found⟩

/-- The actions of a structure that was made have types. -/
theorem makeStruct_typed {given : Option String} {constraints actions : List Expr} {s' : Store}
    (regular : s.Regular) (made : makeStruct given fields constraints actions s = (.ok t, s')) :
    ∀ x ∈ actions, ∃ r, s'.resultType t x = .ok r := by
  intro x mem
  unfold makeStruct at made
  obtain ⟨t₀, s₀, new, made⟩ := bind_eq_ok.mp made
  obtain ⟨_, s₁, sized, made⟩ := bind_eq_ok.mp made
  obtain ⟨_, s₂, empty, made⟩ := bind_eq_ok.mp made
  obtain ⟨_, s₃, fielded, made⟩ := bind_eq_ok.mp made
  obtain ⟨_, s₄, constrained, made⟩ := bind_eq_ok.mp made
  obtain ⟨_, s₅, acted, made⟩ := bind_eq_ok.mp made
  obtain ⟨_, s₆, compared, made⟩ := bind_eq_ok.mp made
  obtain ⟨rfl, rfl⟩ := pure_eq_ok.mp made
  have before : Steps s s₄ := by
    have first := (makeType_makes _ _ _).keeps.of_eq new
    have second := (implementTrait_steps _ _ _).of_eq sized
    have third := (setSize_steps _ _).of_eq empty
    have fourth := (Attempt.Keeps.each fun f _ => addField_steps t₀ f).of_eq fielded
    have fifth := (Attempt.Keeps.each fun x _ => addConstraint_steps t₀ x).of_eq constrained
    exact (((first.trans second).trans third).trans fourth).trans fifth
  obtain ⟨u, v, earlier, own, later⟩ :=
    each_eq_ok_of_mem (fun x => addAction_steps t₀ x) acted mem
  have regular := (regular.steps (before.trans earlier)).2
  have rest : Steps u s₆ :=
    (((addAction_steps t₀ x).of_eq own).trans later).trans
      ((implementTrait_steps _ _ _).of_eq compared)
  obtain ⟨extends_, regular'⟩ := regular.steps rest
  obtain ⟨r, -, typed, -⟩ := (addTyped_changes _ _ _ t₀ x).of_ok own
  exact ⟨r, regular.resultType_mono regular' extends_ x typed⟩

end PacketDraft.Description
