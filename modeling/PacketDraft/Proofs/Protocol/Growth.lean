import PacketDraft.Proofs.Protocol.Completion

/-!
# Growth

While a protocol is built, types are made and registered, and the types that are there already keep
their forms, sizes and fields. What a new type looks like is known: a bit string has the size it was
made with, an array of sized elements is as long as these, and a structure is as long as all its
fields that have a size.
-/

namespace PacketDraft.Protocol

open Attempt Store

variable {name : Option String}

/-- A store later on, when types have been made and registered. -/
structure Store.Grows (s s' : Store) : Prop where
  types : s.types <+: s'.types
  entryOf : ∀ t e, s.entryOf t = some e → ∃ e', s'.entryOf t = some e' ∧ e'.form = e.form ∧
    e'.size = e.size ∧ (s'.members e').fields = (s.members e).fields

variable {s s' s'' : Store} {t u : TypeRef} {e : Entry}

namespace Store.Grows

theorem refl (s : Store) : s.Grows s :=
  ⟨List.prefix_rfl, fun _ e entry => ⟨e, entry, rfl, rfl, rfl⟩⟩

theorem trans (first : s.Grows s') (second : s'.Grows s'') : s.Grows s'' where
  types := first.types.trans second.types
  entryOf t e entry := by
    obtain ⟨e', entry', form, size, fields⟩ := first.entryOf t e entry
    obtain ⟨e'', entry'', form', size', fields'⟩ := second.entryOf t e' entry'
    exact ⟨e'', entry'', form'.trans form, size'.trans size, fields'.trans fields⟩

instance : IsPreorder Store Store.Grows where
  refl := refl
  trans _ _ _ := trans

theorem lookup (grows : s.Grows s') {name : String} (found : s.types.lookup name = some t) :
    s'.types.lookup name = some t :=
  lookup_of_isPrefix grows.types found

theorem sizeOf (grows : s.Grows s') (entry : s.entryOf t = some e) : s'.sizeOf t = s.sizeOf t := by
  obtain ⟨e', entry', form, size, -⟩ := grows.entryOf t e entry
  simp only [Store.sizeOf, entry, entry', form, size]

theorem sizeOf_ok (grows : s.Grows s') {size : Option Expr} (known : s.sizeOf t = .ok size) :
    s'.sizeOf t = .ok size := by
  obtain ⟨e, entry, -⟩ := sizeOf_eq_ok.mp known
  rw [grows.sizeOf entry, known]

theorem fieldsOf (grows : s.Grows s') (entry : s.entryOf t = some e) :
    s'.fieldsOf t = s.fieldsOf t := by
  obtain ⟨e', entry', form, -, fields⟩ := grows.entryOf t e entry
  simp only [Store.fieldsOf, entry, entry', form, fields]

end Store.Grows

/-! ## What leaves all types as they are -/

theorem Store.grows_modifyEntry {f : Entry → Entry}
    (same : ∀ e, (f e).form = e.form ∧ (f e).size = e.size ∧ (f e).group = e.group) :
    s.Grows (s.modifyEntry t f) where
  types := types_modifyEntry s t f ▸ List.prefix_rfl
  entryOf u e entry := by
    have members : ∀ e', e'.group = e.group →
        ((s.modifyEntry t f).members e').fields = (s.members e).fields := by
      intro e' group
      rw [members, group, groups_modifyEntry, members]
    by_cases own : t = u
    · subst own
      obtain ⟨form, size, group⟩ := same e
      exact ⟨f e, entryOf_modifyEntry_self f entry, form, size, members _ group⟩
    · exact ⟨e, (entryOf_modifyEntry_ne f own).trans entry, rfl, rfl, members e rfl⟩

theorem Store.grows_modifyMembers {f : Members → Members}
    (same : ∀ ms, (f ms).fields = ms.fields) : s.Grows (s.modifyMembers t f) where
  types := types_modifyMembers s t f ▸ List.prefix_rfl
  entryOf u e entry := by
    refine ⟨e, ?_, rfl, rfl, ?_⟩
    · cases u with
      | id n =>
        show (s.modifyMembers t f).entries[n]? = some e
        rw [entries_modifyMembers]
        exact entry
      | _ => exact entry
    · unfold modifyMembers
      cases s.entryOf t with
      | none => rfl
      | some other =>
        show (((s.groups.modify other.group f)[e.group]?).getD {}).fields = _
        rw [List.getElem?_modify, members]
        cases s.groups[e.group]? with
        | none => rfl
        | some ms => by_cases own : other.group = e.group <;> simp [own, same]

theorem Store.grows_push (s : Store) (form : Form) (name : String) (size : Option Expr) :
    s.Grows (s.push form name size) where
  types := List.prefix_rfl
  entryOf t e entry := by
    obtain ⟨n, rfl, bound⟩ := entryOf_eq_some entry
    refine ⟨e, (List.getElem?_append_left bound).trans entry, rfl, rfl, ?_⟩
    exact congrArg Members.fields (membersAt_push s form name size e.group)

theorem implementTrait_grows (t : TypeRef) (trait : Trait) (vars : List (String × TypeRef)) :
    Keeps Store.Grows (implementTrait t trait vars) :=
  implementTrait_keeps (fun _ _ _ _ _ => grows_modifyEntry fun _ => ⟨rfl, rfl, rfl⟩)
    (fun _ => grows_modifyMembers fun _ => rfl) vars

theorem addConstraint_grows (t : TypeRef) (x : Expr) : Keeps Store.Grows (addConstraint t x) := by
  refine (addTyped_changes _ _ _ t x).keeps ?_
  rintro s _ ⟨r, -, -, -, rfl⟩
  exact grows_modifyMembers fun ms => rfl

theorem addAction_grows (t : TypeRef) (x : Expr) : Keeps Store.Grows (addAction t x) := by
  refine (addTyped_changes _ _ _ t x).keeps ?_
  rintro s _ ⟨r, -, -, -, rfl⟩
  exact grows_modifyMembers fun ms => rfl

theorem addSlot_grows (t : TypeRef) (name : String) (type : TypeRef) :
    Keeps Store.Grows (addSlot t name type) := by
  refine (addSlot_changes t name type).keeps ?_
  rintro s _ ⟨e, -, -, -, rfl⟩
  exact grows_modifyMembers fun ms => rfl

theorem definePdu_grows (name : String) : Keeps Store.Grows (definePdu name) := by
  refine (definePdu_changes name).keeps ?_
  rintro s _ ⟨t, -, -, rfl⟩
  exact ⟨List.prefix_rfl, fun _ e entry => ⟨e, entry, rfl, rfl, rfl⟩⟩

theorem setProtocolName_grows (name : String) : Keeps Store.Grows (setProtocolName name) := by
  refine (setProtocolName_changes name).keeps ?_
  rintro s _ ⟨-, rfl⟩
  exact grows_modifyEntry fun e => ⟨rfl, rfl, rfl⟩

/-- The other types stay what they are while a type is made. -/
theorem Made.grows {methods : List String} {fields : List Field} {form : Form} {name : String}
    {ms : Members} (made : Made methods fields form name s s' e ms) (regular : s.Regular) :
    s.Grows s' where
  types := made.types ▸ List.prefix_rfl
  entryOf t old entry := by
    refine ⟨old, made.entryOf_old entry, rfl, rfl, ?_⟩
    obtain ⟨n, rfl, bound⟩ := entryOf_eq_some entry
    have own : old.group < s.groups.length := by
      rw [regular.group n old entry, regular.aligned]
      exact bound
    exact congrArg Members.fields (made.membersAt own)

/-! ## What new types look like -/

/-- A type of this form, with this size and these fields. -/
def Store.Looks (s : Store) (t : TypeRef) (form : Form) (size : Option Expr)
    (fields : List Field) : Prop :=
  ∃ e, s.entryOf t = some e ∧ e.form = form ∧ e.size = size ∧ (s.members e).fields = fields

section Looks

variable {form : Form} {size : Option Expr} {fields : List Field}

theorem Store.Looks.grows (looks : s.Looks t form size fields) (grows : s.Grows s') :
    s'.Looks t form size fields := by
  obtain ⟨e, entry, rfl, rfl, rfl⟩ := looks
  exact grows.entryOf t e entry

theorem Store.Looks.sizeOf (looks : s.Looks t form size fields)
    (sent : form.isRepresentable = true) : s.sizeOf t = .ok size := by
  obtain ⟨e, entry, rfl, rfl, -⟩ := looks
  exact sizeOf_eq_ok.mpr ⟨e, entry, sent, rfl⟩

theorem Store.Looks.fieldsOf (looks : s.Looks t .struct size fields) : s.fieldsOf t = fields := by
  obtain ⟨e, entry, struct, -, rfl⟩ := looks
  exact fieldsOf_struct entry struct

theorem Store.looks_push (s : Store) (form : Form) (name : String) (size : Option Expr) :
    (s.push form name size).Looks (.id s.entries.length) form size [] := by
  refine ⟨_, List.getElem?_concat_length, rfl, rfl, ?_⟩
  show (((s.groups ++ [({} : Members)])[s.groups.length]?).getD {}).fields = []
  rw [List.getElem?_concat_length]
  rfl

theorem Store.Looks.setSize (looks : s.Looks t form size fields) (size' : Option Expr) :
    (s.modifyEntry t fun e => { e with size := size' }).Looks t form size' fields := by
  obtain ⟨e, entry, rfl, -, rfl⟩ := looks
  refine ⟨_, entryOf_modifyEntry_self _ entry, rfl, rfl, ?_⟩
  rw [members, groups_modifyEntry]
  rfl

end Looks

theorem makeType_eq_ok {form : Form} {size : Option Expr}
    (made : makeType form name size s = (.ok t, s')) :
    t = .id s.entries.length ∧ ∃ given, name = some given ∧ s' = s.push form given size := by
  obtain ⟨given, _, checked, rest⟩ := bind_eq_ok.mp made
  obtain ⟨valid, rfl⟩ := ofExcept_eq_ok.mp checked
  obtain ⟨n, _, asked, rest⟩ := bind_eq_ok.mp rest
  obtain ⟨rfl, rfl⟩ := read_eq_ok.mp asked
  obtain ⟨_, _, pushed, rest⟩ := bind_eq_ok.mp rest
  obtain ⟨rfl, rfl⟩ := pure_eq_ok.mp rest
  exact ⟨rfl, given, checkName_eq_ok valid, (update_eq_ok.mp pushed).symm⟩

/-- After a type has been made without anything, nothing that leaves all types as they are changes
how it looks. -/
theorem looks_of_keeps {form : Form} {size : Option Expr} {rest : TypeRef → Change TypeRef}
    (keeps : ∀ t, Keeps Store.Grows (rest t)) (returns : ∀ t, Returns t (rest t))
    (made : (makeType form name size >>= rest) s = (.ok t, s')) : s'.Looks t form size [] := by
  obtain ⟨new, s₁, pushed, later⟩ := bind_eq_ok.mp made
  obtain ⟨rfl, given, -, rfl⟩ := makeType_eq_ok pushed
  obtain rfl := returns _ _ t _ later
  exact (s.looks_push form given size).grows ((keeps _).of_eq later)

theorem makeBitString_looks {size : Option Expr} (made : makeBitString name size s = (.ok t, s')) :
    s'.Looks t .bitString size [] := by
  refine looks_of_keeps (fun t => ?_) (fun t => ?_) made
  · refine (implementTrait_grows t _ _).bind fun _ => (implementTrait_grows t _ _).bind fun _ => ?_
    exact (implementTrait_grows t _ _).bind fun _ => (implementTrait_grows t _ _).bind fun _ =>
      keeps_pure t
  · exact .bind fun _ => .bind fun _ => .bind fun _ => .bind fun _ => returns_pure t

theorem makeEnum_looks {variants : List TypeRef} (made : makeEnum name variants s = (.ok t, s')) :
    s'.Looks t (.enum variants) none [] :=
  looks_of_keeps (fun t => (implementTrait_grows t _ _).bind fun _ => keeps_pure t)
    (fun t => .bind fun _ => returns_pure t) made

theorem makeFunction_looks {parameters : List Parameter} {result : TypeRef}
    (made : makeFunction name parameters result s = (.ok t, s')) :
    s'.Looks t (.function parameters result) none [] := by
  rw [makeFunction, ← bind_pure (makeType _ name none)] at made
  exact looks_of_keeps (fun t => keeps_pure t) (fun t => returns_pure t) made

/-- The size of several values of a type that has a size. -/
def severalSize (count size : Expr) : Expr :=
  .method size "mul" [("other", count)]

/-- An array that is told no length has the size that it is told, and an array that is told a length
is as long as its elements. -/
theorem makeArray_looks {element : TypeRef} {length size : Option Expr}
    (made : makeArray name element length size s = (.ok t, s')) (known : s.entryOf element = some e) :
    ∃ own, s'.Looks t (.array element length) own [] ∧ (length = none → own = size) ∧
      ∀ count, length = some count → size = none →
        ∃ m, s.sizeOf element = .ok m ∧ own = m.map (severalSize count) := by
  obtain ⟨new, s₁, pushed, rest⟩ := bind_eq_ok.mp made
  obtain ⟨rfl, given, -, rfl⟩ := makeType_eq_ok pushed
  obtain ⟨_, s₂, sized, rest⟩ := bind_eq_ok.mp rest
  obtain ⟨_, s₃, equality, rest⟩ := bind_eq_ok.mp rest
  obtain ⟨_, s₄, indexed, rest⟩ := bind_eq_ok.mp rest
  obtain ⟨_, s₅, resized, rest⟩ := bind_eq_ok.mp rest
  have grows : (s.push (.array element length) given none).Grows s₄ :=
    (((implementTrait_grows _ _ _).of_eq sized).trans
      ((implementTrait_grows _ _ _).of_eq equality)).trans
        ((implementTrait_grows _ _ _).of_eq indexed)
  have looks := (s.looks_push (.array element length) given none).grows grows
  obtain rfl := update_eq_ok.mp resized
  have looks' := looks.setSize size
  cases length with
  | none =>
    obtain ⟨rfl, rfl⟩ := pure_eq_ok.mp rest
    exact ⟨size, looks', fun _ => rfl, by simp⟩
  | some count =>
    obtain ⟨m, _, asked, rest⟩ := bind_eq_ok.mp rest
    obtain ⟨answer, rfl⟩ := ask_eq_ok.mp asked
    have other : TypeRef.id s.entries.length ≠ element := by
      rintro rfl
      obtain ⟨n, same, bound⟩ := entryOf_eq_some known
      cases same
      exact Nat.lt_irrefl _ bound
    have before : s.sizeOf element = .ok m := by
      rw [← ((s.grows_push _ given none).trans grows).sizeOf known, ← answer]
      simp only [Store.sizeOf, Store.entryOf_modifyEntry_ne _ other]
    cases m with
    | none =>
      obtain ⟨rfl, rfl⟩ := pure_eq_ok.mp rest
      refine ⟨size, looks', by simp, fun _ _ empty => ⟨none, before, empty⟩⟩
    | some elementSize =>
      obtain ⟨_, s₆, scaled, rest⟩ := bind_eq_ok.mp rest
      obtain ⟨rfl, rfl⟩ := pure_eq_ok.mp rest
      obtain rfl := update_eq_ok.mp scaled
      refine ⟨_, looks'.setSize _, by simp, ?_⟩
      intro count' same _
      cases same
      exact ⟨some elementSize, before, rfl⟩

/-! ## Structures -/

/-- Fields with their sizes, as far as they have one. -/
def Store.Measured (s : Store) : List Field → List (Option Expr) → Prop :=
  List.Forall₂ fun f size => s.sizeOf f.type = .ok size

section Structures

variable {a : Expr} {fs fields : List Field}

theorem Store.Measured.congr {sizes : List (Option Expr)} (measured : s.Measured fields sizes)
    (same : ∀ f ∈ fields, s'.sizeOf f.type = s.sizeOf f.type) : s'.Measured fields sizes := by
  induction measured with
  | nil => exact .nil
  | cons known _ ih =>
    rw [List.forall_mem_cons] at same
    exact .cons (same.1.trans known) (ih same.2)

/-- Something is added to the fields of a structure. -/
theorem Store.Looks.addField {f : Field} (regular : s.Regular)
    (looks : s.Looks t .struct (some a) fs) :
    (s.withField t f).Looks t .struct (some a) (fs ++ [f]) := by
  obtain ⟨e, entry, struct, size, rfl⟩ := looks
  obtain ⟨n, rfl, -⟩ := entryOf_eq_some entry
  refine ⟨e, ?_, struct, size, ?_⟩
  · show (s.modifyMembers (.id n) _).entries[n]? = some e
    rw [entries_modifyMembers]
    exact entry
  · show ((s.modifyMembers (.id n) _).membersAt e.group).fields = _
    rw [regular.membersAt_modifyMembers _ entry, if_pos (by rw [regular.group n e entry])]
    rfl

theorem Store.entryOf_withField (s : Store) (t : TypeRef) (f : Field) (u : TypeRef) :
    (s.withField t f).entryOf u = s.entryOf u := by
  cases u with
  | id n => exact congrArg (·[n]?) (entries_modifyMembers s t _)
  | _ => rfl

/-- A structure with one more field is longer by its size. -/
theorem addField_looks {f : Field} (regular : s.Regular) (looks : s.Looks t .struct (some a) fs)
    (added : addField t f s = (.ok (), s')) :
    ∃ size sum, s.sizeOf f.type = .ok size ∧ addUp (some a) size.toList = .ok (some sum) ∧
      s'.Looks t .struct (some sum) (fs ++ [f]) ∧ ∀ u, u ≠ t → s'.sizeOf u = s.sizeOf u := by
  have looks₀ := looks
  obtain ⟨e, entry, struct, own, rfl⟩ := looks₀
  rw [addField_eq_addStructField entry struct] at added
  obtain ⟨-, size, known, changed⟩ := (addStructField_changes t e f).of_ok added
  obtain ⟨lacking, rfl⟩ | ⟨b, x, sum, own', rfl, total, rfl⟩ := changed
  · obtain rfl : size = none := lacking.resolve_left (by simp [own])
    refine ⟨none, a, known, rfl, looks.addField regular, fun u _ => ?_⟩
    simp only [Store.sizeOf, Store.entryOf_withField]
  · rw [own] at own'
    cases own'
    have regular₁ := (regular.steps (setSize_steps t (some sum) s)).2
    refine ⟨some x, sum, known, ?_, (looks.setSize _).addField regular₁, fun u other => ?_⟩
    · show (addSizes a x >>= fun sum => addUp (some sum) []) = _
      rw [total]
      rfl
    · simp only [Store.sizeOf, Store.entryOf_withField,
        Store.entryOf_modifyEntry_ne _ (Ne.symm other)]

theorem addFields_looks (regular : s.Regular) (looks : s.Looks t .struct (some a) fs)
    (added : each (addField t) fields s = (.ok (), s')) :
    ∃ sizes sum, ((∀ f ∈ fields, f.type ≠ t) → s.Measured fields sizes) ∧
      addUp (some a) (sizes.filterMap id) = .ok (some sum) ∧
      s'.Looks t .struct (some sum) (fs ++ fields) := by
  induction fields generalizing s a fs with
  | nil =>
    cases added
    exact ⟨[], a, fun _ => .nil, rfl, by simpa using looks⟩
  | cons f fields ih =>
    obtain ⟨_, s₁, first, rest⟩ := bind_eq_ok.mp added
    obtain ⟨size, sum, known, summed, looks₁, same⟩ := addField_looks regular looks first
    have regular₁ := (regular.steps ((addField_steps t f).of_eq first)).2
    obtain ⟨sizes, total, measured, summed', looks'⟩ := ih regular₁ looks₁ rest
    refine ⟨size :: sizes, total, fun other => .cons known ?_, ?_, by simpa using looks'⟩
    · rw [List.forall_mem_cons] at other
      exact (measured other.2).congr fun g mem => (same g.type (other.2 g mem)).symm
    · have front : (size :: sizes).filterMap id = size.toList ++ sizes.filterMap id := by
        cases size <;> rfl
      rw [front, addUp_append, summed]
      exact summed'

/-- A structure has the fields it is made with, and is as long as those that have a size. -/
theorem makeStruct_looks {constraints actions : List Expr}
    (made : makeStruct name fields constraints actions s = (.ok t, s')) (regular : s.Regular) :
    ∃ sizes sum, ((∀ f ∈ fields, ∃ e, s.entryOf f.type = some e) → s.Measured fields sizes) ∧
      addUp (some (constantSize (.int 0))) (sizes.filterMap id) = .ok (some sum) ∧
      s'.Looks t .struct (some sum) fields := by
  obtain ⟨new, s₁, pushed, rest⟩ := bind_eq_ok.mp made
  have regular₁ := (regular.steps ((makeType_makes .struct name none).keeps.of_eq pushed)).2
  obtain ⟨rfl, given, -, rfl⟩ := makeType_eq_ok pushed
  obtain ⟨_, s₂, sized, rest⟩ := bind_eq_ok.mp rest
  obtain ⟨_, s₃, resized, rest⟩ := bind_eq_ok.mp rest
  obtain ⟨_, s₄, filled, rest⟩ := bind_eq_ok.mp rest
  obtain ⟨_, s₅, constrained, rest⟩ := bind_eq_ok.mp rest
  obtain ⟨_, s₆, acting, rest⟩ := bind_eq_ok.mp rest
  obtain ⟨_, s₇, equality, rest⟩ := bind_eq_ok.mp rest
  obtain ⟨rfl, rfl⟩ := pure_eq_ok.mp rest
  have grows₂ := (implementTrait_grows _ _ _).of_eq sized
  have regular₂ := (regular₁.steps ((implementTrait_steps _ _ _).of_eq sized)).2
  have regular₃ := (regular₂.steps ((setSize_steps _ _).of_eq resized)).2
  have looks := ((s.looks_push .struct given none).grows grows₂).setSize
    (some (constantSize (.int 0)))
  obtain rfl := update_eq_ok.mp resized
  obtain ⟨sizes, sum, measured, summed, looks₄⟩ := addFields_looks regular₃ looks filled
  refine ⟨sizes, sum, fun known => ?_, summed, ?_⟩
  · have other : ∀ f ∈ fields, f.type ≠ .id s.entries.length := by
      intro f mem same
      obtain ⟨e, entry⟩ := known f mem
      rw [same] at entry
      obtain ⟨n, same', bound⟩ := entryOf_eq_some entry
      cases same'
      exact Nat.lt_irrefl _ bound
    refine (measured other).congr fun f mem => ?_
    obtain ⟨e, entry⟩ := known f mem
    rw [← ((s.grows_push .struct given none).trans grows₂).sizeOf entry]
    simp only [Store.sizeOf, Store.entryOf_modifyEntry_ne _ (Ne.symm (other f mem))]
  · have later := ((Keeps.each fun x _ => addConstraint_grows _ x).of_eq constrained).trans
      ((Keeps.each fun x _ => addAction_grows _ x).of_eq acting)
    exact looks₄.grows (later.trans ((implementTrait_grows _ _ _).of_eq equality))

end Structures

end PacketDraft.Protocol
