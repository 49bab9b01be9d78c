import PacketDraft.Proofs.Description.Honest
import PacketDraft.Proofs.Protocol.Matching

/-!
# The order of packets

The packets of a protocol are built in the order in which they are listed, and each brings the types
that it is made of. So the order of the packets decides in which order types are registered. But
which types there are, and what they are made of, follows from their descriptions. The main result:
if no described type has the name of another type, and no type without a size is that of fields of
two structures, then the sizes in the complete protocol do not depend on the order of the packets.
-/

namespace PacketDraft.Description

open Document Protocol Build Store Tables

/-! ## Everything that is needed is there -/

/-- A protocol that has been built as described, with all packets. -/
structure Finished (t : Tables) (w : Workshop) : Prop where
  unambiguous : t.Unambiguous
  faithful : Faithful t [] [] w
  founded : w.store.Founded
  packets : ∀ name ∈ t.pdus.getD [], ∃ type, w.store.types.lookup name = some type

theorem FieldTitle.HasUnit.unique {title : FieldTitle} {key key' : String}
    (first : title.HasUnit key) (second : title.HasUnit key') : key = key' := by
  obtain ⟨-, unit, units, named⟩ := first
  obtain ⟨-, unit', units', named'⟩ := second
  rw [units] at units'
  cases units'
  rw [named] at named'
  cases named'
  rfl

theorem FieldTitle.HasUnit.not_plain {title : FieldTitle} {key : String} (has : title.HasUnit key) :
    ¬ isPlainUnit title.units = true := by
  simp [has.1]

/-- Every field that is described has a type. -/
theorem Fields.exists_of_mem {t : Tables} {s : Store} {struct : String} {rows : List FieldRow}
    {fields : List Field} {row : FieldRow} (described : Fields t s struct rows fields)
    (mem : row ∈ rows) : ∃ f ∈ fields, FieldType t s struct row.title f.type := by
  obtain ⟨f, mem', -, typed⟩ := exists_of_forall₂ described mem
  exact ⟨f, mem', typed⟩

theorem primitive?_inj {name key : String} {u : TypeRef} (first : primitive? name = some u)
    (second : primitive? key = some u) : name = key := by
  unfold primitive? at first second
  split at first <;> split at second <;> cases first <;> first | rfl | cases second

namespace Finished

variable {t : Tables} {w : Workshop} {name key : String} {type u v : TypeRef}

section

variable (finished : Finished t w)

include finished

/-- A name stands for one type. -/
theorem stands_unique (first : Stands w.store name u) (second : Stands w.store name v) : u = v := by
  rcases first with found | primitive <;> rcases second with found' | primitive'
  · exact Option.some.inj (found.symm.trans found')
  · rw [finished.faithful.lookup_primitive finished.unambiguous primitive'] at found
    cases found
  · rw [finished.faithful.lookup_primitive finished.unambiguous primitive] at found'
    cases found'
  · exact Option.some.inj (primitive.symm.trans primitive')

/-- A registered type is not primitive. -/
theorem not_primitive (found : w.store.types.lookup name = some u) : u ∉ primitives := by
  intro primitive
  obtain ⟨e, entry, -, listed⟩ := finished.founded.named name u (mem_of_lookup found)
  exact finished.faithful.regular.not_lists primitive ⟨e, entry, listed, rfl⟩

/-- A type stands under one name. -/
theorem name_unique (first : Stands w.store name u) (second : Stands w.store key u) : name = key := by
  rcases first with found | primitive <;> rcases second with found' | primitive'
  · obtain ⟨e, entry, named, -⟩ := finished.founded.named name u (mem_of_lookup found)
    obtain ⟨e', entry', named', -⟩ := finished.founded.named key u (mem_of_lookup found')
    rw [entry] at entry'
    cases entry'
    exact Option.some.inj (named.symm.trans named')
  · exact absurd (primitive?_mem primitive') (finished.not_primitive found)
  · exact absurd (primitive?_mem primitive) (finished.not_primitive found')
  · exact primitive?_inj primitive primitive'

/-- A described type is registered, and it is not one that belongs to a field. -/
theorem described (described : t.describes name = true) (stands : Stands w.store name type) :
    w.store.types.lookup name = some type ∧ AsDescribed t w.store [] name type ∧
      ∀ struct f, t.IsField struct f → name ≠ memberTypeName struct f.title.fullLabel := by
  have found : w.store.types.lookup name = some type := by
    refine stands.resolve_right fun primitive => ?_
    rw [finished.unambiguous.not_primitive described] at primitive
    cases primitive
  refine ⟨found, ?_, ?_⟩
  · refine (finished.faithful.types (name, type) (mem_of_lookup found)).resolve_left ?_
    intro initial
    have reserved : ∀ p ∈ Store.initial.types, p.1 ∈ reservedNames := by decide
    rw [finished.unambiguous.reserved name (reserved _ initial)] at described
    cases described
  · rintro struct f field rfl
    rw [finished.unambiguous.members struct f field] at described
    cases described

theorem struct_of_stands {row : StructRow} (found : t.structs.lookup name = some row)
    (stands : Stands w.store name type) :
    t.Needs name ∧ w.store.types.lookup name = some type ∧
      Fields t w.store name (row.fields.map (·.2)) (w.store.fieldsOf type) ∧
      ∃ sizes sum, w.store.Measured (w.store.fieldsOf type) sizes ∧
        addUp (some (constantSize (.int 0))) (sizes.filterMap id) = .ok (some sum) ∧
        w.store.sizeOf type = .ok (some sum) := by
  obtain ⟨registered, described, other⟩ :=
    finished.described (by simp [describes, found]) stands
  cases described with
  | struct needed described fields measured added size =>
    rw [found] at described
    cases described
    exact ⟨needed, registered, fields, _, _, measured, added, size⟩
  | enum _ described => exact absurd (found.symm.trans described.1) (by simp)
  | function _ described => exact absurd (found.symm.trans described.1) (by simp)
  | member _ field named => exact absurd named (other _ _ field)

theorem enum_of_stands {variants : List String} (enum : t.IsEnum name variants)
    (stands : Stands w.store name type) :
    w.store.types.lookup name = some type ∧ (∀ v ∈ variants, ∃ u, Stands w.store v u) ∧
      w.store.fieldsOf type = [] ∧ w.store.sizeOf type = .ok none := by
  obtain ⟨registered, described, other⟩ :=
    finished.described (by simp [describes, enum.2]) stands
  cases described with
  | struct _ described => exact absurd (enum.1.symm.trans described) (by simp)
  | enum _ described parts simple size =>
    obtain rfl := Option.some.inj (enum.2.symm.trans described.2)
    exact ⟨registered, parts, simple, size⟩
  | function _ described => exact absurd (enum.2.symm.trans described.2.1) (by simp)
  | member _ field named => exact absurd named (other _ _ field)

theorem function_of_stands {signature : Sentence.Signature} (function : t.IsFunction name signature)
    (stands : Stands w.store name type) :
    w.store.types.lookup name = some type ∧
      (∀ part ∈ signature.parameters.map (·.2) ++ [signature.result],
        ∃ key u, typeName part = .ok key ∧ Stands w.store key u) ∧
      w.store.fieldsOf type = [] ∧ Unsent w.store type := by
  obtain ⟨registered, described, other⟩ :=
    finished.described (by simp [describes, function.2.2]) stands
  cases described with
  | struct _ described => exact absurd (function.1.symm.trans described) (by simp)
  | enum _ described => exact absurd (function.2.1.symm.trans described.2) (by simp)
  | function _ described parts simple unsent =>
    obtain rfl := Option.some.inj (function.2.2.symm.trans described.2.2)
    exact ⟨registered, parts, simple, unsent⟩
  | member _ field named => exact absurd named (other _ _ field)

end

/-- The type that is the unit of a field stands under its name. -/
theorem unit_stands {title : FieldTitle} {struct : String}
    (field : FieldType t w.store struct title type) (unit : title.HasUnit key) :
    ∃ u, Stands w.store key u := by
  cases field with
  | own _ member =>
    cases member with
    | plain plain => exact absurd plain unit.not_plain
    | array unit' _ element => exact ⟨_, unit.unique unit' ▸ element⟩
    | repeated unit' _ element => exact ⟨_, unit.unique unit' ▸ element⟩
  | unit unit' _ stands => exact ⟨_, unit.unique unit' ▸ stands⟩

section

variable (finished : Finished t w)

include finished

/-- What is asked for while the packets are built is there. -/
theorem stands_of_needs (needs : t.Needs name) : ∃ u, Stands w.store name u := by
  induction needs with
  | packet packet =>
    obtain ⟨u, found⟩ := finished.packets _ packet
    exact ⟨u, .inl found⟩
  | unit _ field unit ih =>
    obtain ⟨u, stands⟩ := ih
    obtain ⟨row, found, mem⟩ := field
    obtain ⟨-, -, fields, -⟩ := finished.struct_of_stands found stands
    obtain ⟨f, -, typed⟩ := fields.exists_of_mem mem
    exact unit_stands typed unit
  | variant _ described variant ih =>
    obtain ⟨u, stands⟩ := ih
    exact (finished.enum_of_stands described stands).2.1 _ variant
  | converter _ described converter ih =>
    obtain ⟨u, stands⟩ := ih
    refine finished.faithful.converted _ _ described ?_ (by simp) _ converter
    rw [(finished.enum_of_stands described stands).1]
    rfl
  | signature _ described part named ih =>
    obtain ⟨u, stands⟩ := ih
    obtain ⟨key, v, named', stands'⟩ := (finished.function_of_stands described stands).2.1 _ part
    rw [named] at named'
    cases named'
    exact ⟨v, stands'⟩

/-- The types that belong to fields are not the context. -/
theorem member_ne_context {struct label : String}
    (found : w.store.types.lookup (memberTypeName struct label) = some type) : type ≠ .context := by
  rintro rfl
  have context := finished.founded.lookup finished.founded.context
  exact memberTypeName_ne (by decide) struct label
    (finished.name_unique (.inl found) (.inl context))

/-- A type that belongs to a field has no fields. -/
theorem member_simple {struct : String} {f : FieldRow} (field : t.IsField struct f)
    (found : w.store.types.lookup (memberTypeName struct f.title.fullLabel) = some type) :
    w.store.fieldsOf type = [] := by
  have plain : ∀ p ∈ Store.initial.types, '_' ∉ p.1.toList := by decide
  have other := finished.unambiguous.members struct f field
  rcases finished.faithful.types _ (mem_of_lookup found) with initial | described
  · exact absurd rfl (memberTypeName_ne (plain _ initial) struct f.title.fullLabel)
  · cases described with
    | struct _ described => simp [describes, described] at other
    | enum _ _ _ simple => exact simple
    | function _ _ _ simple => exact simple
    | member _ _ _ simple => exact simple

/-- The elements of a type that belongs to a field come before the type. -/
theorem member_founds {struct label : String} {i : Nat} {part : TypeRef}
    (found : w.store.types.lookup (memberTypeName struct label) = some type)
    (founds : w.store.Founds i type) (mem : part ∈ w.store.components type) :
    w.store.Founds i part := by
  rcases founds with primitive | ⟨j, less, key, placed⟩
  · exact absurd primitive (finished.not_primitive found)
  · refine (finished.founded.parts j key type placed (finished.member_ne_context found) part
      mem).imp_right ?_
    rintro ⟨k, less', earlier⟩
    exact ⟨k, Nat.lt_trans less' less, earlier⟩

/-- The types of the fields of a structure come before the structure. -/
theorem field_founds {i : Nat} {f : Field} (placed : w.store.types[i]? = some (name, type))
    (mem : f ∈ w.store.fieldsOf type) : w.store.Founds i f.type := by
  obtain ⟨e, entry, struct⟩ := struct_of_mem_fieldsOf mem
  have other : type ≠ .context := by
    rintro rfl
    obtain ⟨e', entry', form⟩ :=
      finished.faithful.regular.basic (.context, .context) (by simp [basis])
    rw [entry] at entry'
    cases entry'
    rw [struct] at form
    cases form
  refine finished.founded.parts i name type placed other f.type ?_
  rw [fieldsOf_struct entry struct] at mem
  simp only [components, entry, struct]
  exact List.mem_map_of_mem mem

/-- A primitive type has the size that it has from the start. -/
theorem sizeOf_primitive (primitive : u ∈ primitives) :
    w.store.sizeOf u = Store.initial.sizeOf u := by
  have known : ∀ v ∈ primitives, (Store.initial.entryOf v).isSome = true := by decide
  obtain ⟨e, entry⟩ := Option.isSome_iff_exists.mp (known u primitive)
  exact finished.faithful.start.sizeOf entry

end

end Finished

/-! ## Two orders of packets -/

/-- Two types stand under the same name. -/
def SameName (s s' : Store) (u u' : TypeRef) : Prop :=
  ∃ key, Stands s key u ∧ Stands s' key u'

/-- A type is registered in another protocol too, with the same size and the same fields. -/
def Recurs (s s' : Store) (name : String) (type : TypeRef) : Prop :=
  ∃ type', s'.types.lookup name = some type' ∧ s.sizeOf type = s'.sizeOf type' ∧
    List.Forall₂ (fun f f' => SameName s s' f.type f'.type) (s.fieldsOf type) (s'.fieldsOf type')

/-- The types that were registered first recur. -/
def RecurBelow (s s' : Store) (i : Nat) : Prop :=
  ∀ j < i, ∀ name type, s.types[j]? = some (name, type) → Recurs s s' name type

section Members

variable {t : Tables} {s s' : Store} {struct key : String} {title : FieldTitle} {u u' : TypeRef}

/-- Types that belong to the same field have the same size if their elements have. -/
theorem MemberType.sizeOf_eq (member : MemberType t s struct title u)
    (member' : MemberType t s' struct title u')
    (parts : ∀ key, ∀ element ∈ s.components u, ∀ element', Stands s key element →
      Stands s' key element' → s.sizeOf element = s'.sizeOf element') :
    s.sizeOf u = s'.sizeOf u' := by
  cases member with
  | plain plain counted size =>
    cases member' with
    | plain _ counted' size' =>
      rw [counted] at counted'
      cases counted'
      rw [size, size']
    | array unit => exact absurd plain unit.not_plain
    | repeated unit => exact absurd plain unit.not_plain
  | array unit array _ stated size =>
    cases member' with
    | plain plain => exact absurd plain unit.not_plain
    | array _ _ _ stated' size' =>
      rw [stated] at stated'
      cases stated'
      rw [size, size']
    | repeated _ single => simp [array] at single
  | repeated unit single stands counted _ known size part =>
    cases member' with
    | plain plain => exact absurd plain unit.not_plain
    | array _ array => simp [array] at single
    | repeated unit' _ stands' counted' _ known' size' _ =>
      obtain rfl := unit.unique unit'
      rw [counted] at counted'
      cases counted'
      have elements := parts _ _ part _ stands stands'
      rw [known, known'] at elements
      cases elements
      rw [size, size']

theorem Unsent.sizeOf (unsent : Unsent s u) : s.sizeOf u = .error .inapplicable := by
  obtain ⟨e, entry, kept⟩ := unsent
  simp [Store.sizeOf, entry, kept]

/-- Several values of a type that can be sent are not taken for one value. -/
theorem MemberType.not_unit (member : MemberType t s struct title u) (unit : title.HasUnit key)
    (single : title.isArray = false) {count : Option Expr}
    (counted : t.meaning? struct title.size = .ok count)
    (alone : ∀ e, count = some e → isOne e = false → Unsent s' u')
    (parts : ∀ element ∈ s.components u, Stands s key element →
      s.sizeOf element = s'.sizeOf u') : False := by
  cases member with
  | plain plain => exact unit.not_plain plain
  | array _ array => simp [array] at single
  | repeated unit' _ stands counted' several known _ part =>
    obtain rfl := unit.unique unit'
    rw [counted] at counted'
    cases counted'
    have elements := parts _ part stands
    rw [known, (alone _ rfl several).sizeOf] at elements
    cases elements

end Members

section Orders

variable {t : Tables} {w w' : Workshop} {name key struct : String} {type u u' : TypeRef} {i : Nat}
  (finished : Finished t w) (finished' : Finished t w')

include finished finished'

section

variable (earlier : RecurBelow w.store w'.store i)

include earlier

/-- Types under the same name have the same size if they are primitive or come first. -/
theorem sizeOf_eq_of_founds (founds : w.store.Founds i u) (stands : Stands w.store key u)
    (stands' : Stands w'.store key u') : w.store.sizeOf u = w'.store.sizeOf u' := by
  rcases founds with primitive | ⟨j, less, name, placed⟩
  · have same : primitive? key = some u :=
      stands.resolve_left fun found => finished.not_primitive found primitive
    obtain rfl := finished'.stands_unique (.inr same) stands'
    rw [finished.sizeOf_primitive primitive, finished'.sizeOf_primitive primitive]
  · have found := finished.founded.lookup (List.mem_of_getElem? placed)
    obtain rfl := finished.name_unique (.inl found) stands
    obtain ⟨v, found', size, -⟩ := earlier j less name u placed
    obtain rfl := finished'.stands_unique (.inl found') stands'
    exact size

/-- The types of a field stand under the same name and have the same size. Whether a field has a type
of its own or its unit for a type depends on its title, and on whether the unit can be sent. -/
theorem fieldType_recurs {title : FieldTitle} (founds : w.store.Founds i u)
    (field : FieldType t w.store struct title u) (field' : FieldType t w'.store struct title u') :
    SameName w.store w'.store u u' ∧ w.store.sizeOf u = w'.store.sizeOf u' := by
  have same : ∀ {key v v'}, w.store.Founds i v → Stands w.store key v → Stands w'.store key v' →
      w.store.sizeOf v = w'.store.sizeOf v' := sizeOf_eq_of_founds finished finished' earlier
  cases field with
  | own found member =>
    cases field' with
    | own found' _ => exact ⟨⟨_, .inl found, .inl found'⟩, same founds (.inl found) (.inl found')⟩
    | unit unit single stands counted alone =>
      refine (member.not_unit unit single counted alone fun element part stands' => ?_).elim
      exact same (finished.member_founds found founds part) stands' stands
  | unit unit single stands counted alone =>
    cases field' with
    | own _ member =>
      refine (member.not_unit unit single counted alone fun element _ stands' => ?_).elim
      exact (same founds stands stands').symm
    | unit unit' _ stands' =>
      obtain rfl := unit.unique unit'
      exact ⟨⟨_, stands, stands'⟩, same founds stands stands'⟩

theorem fields_recur {rows : List FieldRow} {fs fs' : List Field} {sizes sizes' : List (Option Expr)}
    (founds : ∀ f ∈ fs, w.store.Founds i f.type) (fields : Fields t w.store struct rows fs)
    (fields' : Fields t w'.store struct rows fs') (measured : w.store.Measured fs sizes)
    (measured' : w'.store.Measured fs' sizes') :
    List.Forall₂ (fun f f' => SameName w.store w'.store f.type f'.type) fs fs' ∧
      sizes = sizes' := by
  induction fields generalizing fs' sizes sizes' with
  | nil =>
    cases fields'
    cases measured
    cases measured'
    exact ⟨.nil, rfl⟩
  | cons first _ ih =>
    cases fields' with
    | cons first' rest' =>
      cases measured with
      | cons size measured =>
        cases measured' with
        | cons size' measured' =>
          rw [List.forall_mem_cons] at founds
          obtain ⟨named, same⟩ :=
            fieldType_recurs finished finished' earlier founds.1 first.2 first'.2
          obtain ⟨others, rfl⟩ := ih founds.2 rest' measured measured'
          rw [size, size'] at same
          cases same
          exact ⟨.cons named others, rfl⟩

theorem struct_recurs {row : StructRow} (placed : w.store.types[i]? = some (name, type))
    (described : t.structs.lookup name = some row) : Recurs w.store w'.store name type := by
  have found := finished.founded.lookup (List.mem_of_getElem? placed)
  obtain ⟨needed, -, fields, sizes, sum, measured, added, size⟩ :=
    finished.struct_of_stands described (.inl found)
  obtain ⟨type', stands'⟩ := finished'.stands_of_needs needed
  obtain ⟨-, found', fields', sizes', sum', measured', added', size'⟩ :=
    finished'.struct_of_stands described stands'
  obtain ⟨same, rfl⟩ := fields_recur finished finished' earlier
    (fun f mem => finished.field_founds placed mem) fields fields' measured measured'
  rw [added] at added'
  cases added'
  exact ⟨type', found', size.trans size'.symm, same⟩

theorem member_recurs {f : FieldRow}
    (placed : w.store.types[i]? = some (memberTypeName struct f.title.fullLabel, type))
    (owner : (w.store.types.lookup struct).isSome = true) (field : t.IsField struct f)
    (simple : w.store.fieldsOf type = []) (member : MemberType t w.store struct f.title type) :
    Recurs w.store w'.store (memberTypeName struct f.title.fullLabel) type := by
  have found := finished.founded.lookup (List.mem_of_getElem? placed)
  have parts : ∀ key, ∀ element ∈ w.store.components type, ∀ element',
      Stands w.store key element → Stands w'.store key element' →
      w.store.sizeOf element = w'.store.sizeOf element' := by
    intro key element part element'
    exact sizeOf_eq_of_founds finished finished' earlier
      (finished.founded.parts i _ type placed (finished.member_ne_context found) element part)
  -- The structure is needed, so it has the field in the other protocol too.
  obtain ⟨row, described, mem⟩ := id field
  obtain ⟨u, owner⟩ := Option.isSome_iff_exists.mp owner
  obtain ⟨needed, -⟩ := finished.struct_of_stands described (.inl owner)
  obtain ⟨u', stands'⟩ := finished'.stands_of_needs needed
  obtain ⟨-, -, fields', -⟩ := finished'.struct_of_stands described stands'
  obtain ⟨f', -, typed⟩ := fields'.exists_of_mem mem
  cases typed with
  | unit unit single stands counted alone =>
    exact (member.not_unit unit single counted alone fun element part stands'' =>
      parts _ element part _ stands'' stands).elim
  | own found' member' =>
    refine ⟨f'.type, found', member.sizeOf_eq member' parts, ?_⟩
    rw [simple, finished'.member_simple field found']
    exact .nil

end

theorem initial_recurs (initial : (name, type) ∈ Store.initial.types) :
    Recurs w.store w'.store name type := by
  have facts : ∀ p ∈ Store.initial.types, Store.initial.types.lookup p.1 = some p.2 ∧
      (Store.initial.entryOf p.2).isSome = true ∧
      (Store.initial.fieldsOf p.2).isEmpty = true := by decide
  obtain ⟨found, known, simple⟩ := facts (name, type) initial
  obtain ⟨e, entry⟩ := Option.isSome_iff_exists.mp known
  have start := finished.faithful.start
  have start' := finished'.faithful.start
  refine ⟨type, start'.lookup found, (start.sizeOf entry).trans (start'.sizeOf entry).symm, ?_⟩
  rw [start.fieldsOf entry, start'.fieldsOf entry, List.isEmpty_iff.mp simple]
  exact .nil

/-- Every type recurs, whatever the order of the packets is. -/
theorem recurs (placed : w.store.types[i]? = some (name, type)) :
    Recurs w.store w'.store name type := by
  induction i using Nat.strongRecOn generalizing name type with
  | ind i earlier =>
    have earlier : RecurBelow w.store w'.store i := fun j less name type => earlier j less
    rcases finished.faithful.types (name, type) (List.mem_of_getElem? placed) with
      initial | described
    · exact initial_recurs finished finished' initial
    · cases described with
      | struct _ described => exact struct_recurs finished finished' earlier placed described
      | enum needed described _ simple size =>
        obtain ⟨type', stands'⟩ := finished'.stands_of_needs needed
        obtain ⟨found', -, simple', size'⟩ := finished'.enum_of_stands described stands'
        refine ⟨type', found', size.trans size'.symm, ?_⟩
        rw [simple, simple']
        exact .nil
      | function needed described _ simple unsent =>
        obtain ⟨type', stands'⟩ := finished'.stands_of_needs needed
        obtain ⟨found', -, simple', unsent'⟩ := finished'.function_of_stands described stands'
        refine ⟨type', found', unsent.sizeOf.trans unsent'.sizeOf.symm, ?_⟩
        rw [simple, simple']
        exact .nil
      | member owner field named simple member =>
        subst named
        exact member_recurs finished finished' earlier placed (owner.resolve_left (by simp)) field
          simple member

theorem recurs_of_lookup (found : w.store.types.lookup name = some type) :
    Recurs w.store w'.store name type := by
  obtain ⟨i, placed⟩ := List.getElem?_of_mem (mem_of_lookup found)
  exact recurs finished finished' placed

theorem sizeOf_eq_of_sameName (same : SameName w.store w'.store u u') :
    w.store.sizeOf u = w'.store.sizeOf u' := by
  obtain ⟨key, stands, stands'⟩ := same
  have founds : w.store.Founds w.store.types.length u := by
    rcases stands with found | primitive
    · obtain ⟨i, placed⟩ := List.getElem?_of_mem (mem_of_lookup found)
      exact .inr ⟨i, (List.getElem?_eq_some_iff.mp placed).1, key, placed⟩
    · exact .inl (primitive?_mem primitive)
  exact sizeOf_eq_of_founds finished finished' (fun _ _ _ _ => recurs finished finished') founds
    stands stands'

/-- Types under the same name correspond to each other. -/
theorem matches_of_finished :
    w.store.Matches (SameName w.store w'.store) w'.store where
  unique := by
    constructor
    · rintro u v u' ⟨key, stands, stands'⟩ ⟨key', other, other'⟩
      obtain rfl := finished'.name_unique stands' other'
      exact finished.stands_unique stands other
    · rintro u u' v' ⟨key, stands, stands'⟩ ⟨key', other, other'⟩
      obtain rfl := finished.name_unique stands other
      exact finished'.stands_unique stands' other'
  left name type mem := by
    have found := finished.founded.lookup mem
    obtain ⟨type', found', -⟩ := recurs_of_lookup finished finished' found
    exact ⟨type', mem_of_lookup found', name, .inl found, .inl found'⟩
  right name type' mem := by
    have found' := finished'.founded.lookup mem
    obtain ⟨type, found, -⟩ := recurs_of_lookup finished' finished found'
    exact ⟨type, mem_of_lookup found, name, .inl found, .inl found'⟩
  known u u' same := by
    obtain ⟨key, stands, stands'⟩ := same
    obtain ⟨e, entry⟩ := finished.faithful.entryOf_stands stands
    obtain ⟨e', entry'⟩ := finished'.faithful.entryOf_stands stands'
    exact ⟨e, e', entry, entry'⟩
  sizes u u' same := sizeOf_eq_of_sameName finished finished' same
  fields name type type' mem same := by
    obtain ⟨key, stands, stands'⟩ := same
    have found := finished.founded.lookup mem
    obtain rfl := finished.name_unique (.inl found) stands
    obtain ⟨v, found', -, fields⟩ := recurs_of_lookup finished finished' found
    obtain rfl := finished'.stands_unique (.inl found') stands'
    exact fields

end Orders

theorem buildTables_finished {t u : Tables} {w : Workshop} (unambiguous : t.Unambiguous)
    (same : u = { t with pdus := u.pdus })
    (packets : ∀ name, name ∈ u.pdus.getD [] ↔ name ∈ t.pdus.getD [])
    (built : buildTables ⟨u, .initial⟩ = (.ok (), w)) : Finished t w := by
  obtain ⟨faithful, registered⟩ :=
    buildTables_faithful unambiguous same (fun name => (packets name).mp) built
  exact ⟨unambiguous, faithful, (buildTables_closed ready_initial built).2.toFounded,
    fun name mem => registered name ((packets name).mpr mem)⟩

theorem buildProtocol_noted {document : Element} {t : Tables}
    (noted : noteDocument document {} = (.ok (), t)) :
    buildProtocol (some document) {} = buildTables ⟨t, .initial⟩ := by
  have collected : collect (noteDocument document) {} = (.ok (), ⟨t, .initial⟩) := by
    simp only [collect, noted]
  rw [buildProtocol, Attempt.bind_apply, collected]

/-- The sizes in a complete protocol do not depend on the order in which its packets are listed, if
names are unambiguous and no two structures have fields of a type that has no size. -/
theorem sizes_of_permuted_packets {document document' : Element} {t : Tables}
    {packets packets' : List String} {w w' : Workshop} {c c' : Store}
    (noted : Tables.noteDocument document {} = (.ok (), t)) (listed : t.pdus = some packets)
    (noted' : Tables.noteDocument document' {} = (.ok (), { t with pdus := some packets' }))
    (permuted : packets.Perm packets') (unambiguous : t.Unambiguous)
    (built : buildProtocol (some document) {} = (.ok (), w))
    (built' : buildProtocol (some document') {} = (.ok (), w')) (unshared : w.store.Unshared)
    (completed : synthesise w.store = (.ok (), c))
    (completed' : synthesise w'.store = (.ok (), c')) (name : String) :
    (c.types.lookup name).map c.sizeOf = (c'.types.lookup name).map c'.sizeOf := by
  have finished : Finished t w := buildTables_finished unambiguous rfl (fun _ => Iff.rfl)
    (buildProtocol_noted noted ▸ built)
  have finished' : Finished t w' := buildTables_finished unambiguous rfl
    (fun name => by simp [listed, permuted.mem_iff]) (buildProtocol_noted noted' ▸ built')
  have matching := matches_of_finished finished finished'
  rw [(synthesise_fills.of_eq completed).types, (synthesise_fills.of_eq completed').types]
  cases found : w.store.types.lookup name with
  | none =>
    cases found' : w'.store.types.lookup name with
    | none => rfl
    | some type' =>
      obtain ⟨type, other, -⟩ := recurs_of_lookup finished' finished found'
      rw [found] at other
      cases other
  | some type =>
    obtain ⟨type', found', -⟩ := recurs_of_lookup finished finished' found
    rw [found', Option.map_some, Option.map_some,
      matching.completed unshared completed completed' ⟨name, .inl found, .inl found'⟩]

/-! ## Two packets in two orders -/

/-- The paragraphs that describe a structure. -/
def describing (structure_ : String) (fields : List String) : List Element :=
  [Memo.paragraphOf (structure_ ++ " is formatted as follows:"),
   .ofKind .artwork [.one (.plain
     " 0\n 0 1 2 3 4 5 6 7\n+-+-+-+-+-+-+-+-+\n|       A       |\n+-+-+-+-+-+-+-+-+\n")] [],
   Memo.paragraphOf "where:",
   .ofKind .dl [.pairs (fields.map fun field =>
     (.ofKind .dt [.many [.plain field]] [], .ofKind .dd [.many [.plain "Desc."]] []))] []]

/-- A section that lists the packets of a protocol. -/
def packetsSection (packets : String) : Element :=
  Memo.sectionOf "Packets" [Memo.paragraphOf
    ("This document describes the Example protocol. The Example protocol uses " ++ packets ++ ".")]

/-- A document that describes some types and a protocol. -/
def exampleDocument (described : List Element) (packets : String) : Element :=
  documentOf [Memo.sectionOf "Types" described, packetsSection packets]

theorem noteDocument_example {described : List Element} {packets : String} {t u : Tables}
    (types : noteSection (Memo.sectionOf "Types" described) {} = (.ok (), t))
    (listed : noteSection (packetsSection packets) t = (.ok (), u)) :
    noteDocument (exampleDocument described packets) {} = (.ok (), u) := by
  have found : middleSections? (exampleDocument described packets)
      = some [Memo.sectionOf "Types" described, packetsSection packets] := rfl
  rw [noteDocument_eq found, noteSections, Attempt.bind_apply, types]
  show noteSections [packetsSection packets] t = _
  rw [noteSections, Attempt.bind_apply, listed]
  rfl

/-- Two packets with a body each. -/
def bodyPackets : List Element :=
  describing "A Short Packet" ["Code: 8 bits.", "Body: variable length."] ++
  describing "A Long Packet" ["Body: variable length.", "Code: 16 bits."]

/-- Two packets with a mode, which has no size. -/
def modePackets : List Element :=
  describing "An Empty Mode" ["Aa: 8 bits."] ++
  describing "A Full Mode" ["Bb: 16 bits."] ++
  [Memo.paragraphOf "A Mode is either an Empty Mode or a Full Mode."] ++
  describing "A Short Packet" ["Mode: 1 Mode.", "Code: 8 bits."] ++
  describing "A Long Packet" ["Mode: 1 Mode.", "Code: 16 bits."]

/-- A field of some bits or of some values of a type. -/
def counted (label : String) (count : Nat) (unit : String) : FieldRow :=
  ⟨{ fullLabel := label, size := some (.number count), units := some unit }, none⟩

/-- What is declared of two packets with bodies. -/
def bodyTables : Tables where
  structs :=
    [("Short_packet", .ofFields [counted "code" 8 "bits", ⟨{ fullLabel := "body" }, none⟩]),
     ("Long_packet", .ofFields [⟨{ fullLabel := "body" }, none⟩, counted "code" 16 "bits"])]

/-- What is declared of two packets with a mode. -/
def modeTables : Tables where
  structs :=
    [("Empty_mode", .ofFields [counted "aa" 8 "bits"]),
     ("Full_mode", .ofFields [counted "bb" 16 "bits"]),
     ("Short_packet", .ofFields [counted "mode" 1 "Mode", counted "code" 8 "bits"]),
     ("Long_packet", .ofFields [counted "mode" 1 "Mode", counted "code" 16 "bits"])]
  enums := [("Mode", ["Empty_mode", "Full_mode"])]

/-- The tables with a protocol of packets. -/
def Tables.withPackets (t : Tables) (packets : List String) : Tables :=
  { t with protocolName := some "Example", pdus := some packets }

/-- What can be said of what is built from tables. -/
def builtWith {α : Type} (t : Tables) (view : Workshop → α) : Option α :=
  match buildTables ⟨t, .initial⟩ with
  | (.ok (), w) => some (view w)
  | _ => none

theorem exists_built {α : Type} {document : Element} {t : Tables} {view : Workshop → α} {a : α}
    (noted : noteDocument document {} = (.ok (), t)) (viewed : builtWith t view = some a) :
    ∃ w, buildProtocol (some document) {} = (.ok (), w) ∧ view w = a := by
  rw [buildProtocol_noted noted]
  unfold builtWith at viewed
  split at viewed
  · cases viewed
    exact ⟨_, ‹_›, rfl⟩
  · cases viewed

/-- What can be said of a declared protocol and of what a run makes of it. -/
def ranWith {α β : Type} (run : Attempt Store β) (view : Store → Store → α) (w : Workshop) :
    Option α :=
  match run w.store with
  | (.ok _, s) => some (view w.store s)
  | _ => none

theorem exists_ran {α β : Type} {document : Element} {t : Tables} {run : Attempt Store β}
    {view : Store → Store → α} {a : α} (noted : noteDocument document {} = (.ok (), t))
    (viewed : builtWith t (ranWith run view) = some (some a)) :
    ∃ w b s, buildProtocol (some document) {} = (.ok (), w) ∧ run w.store = (.ok b, s) ∧
      view w.store s = a := by
  obtain ⟨w, built, viewed⟩ := exists_built noted viewed
  unfold ranWith at viewed
  split at viewed
  · cases viewed
    exact ⟨w, _, _, built, ‹_›, rfl⟩
  · cases viewed

/-- In both orders, the body of a packet has what the code of the packet leaves over. -/
theorem sizes_of_permuted_packets_bodies :
    ∃ (w w' : Workshop) (c c' : Store),
      buildProtocol (some (exampleDocument bodyPackets "Short Packets, and Long Packets")) {}
        = (.ok (), w) ∧
      buildProtocol (some (exampleDocument bodyPackets "Long Packets, and Short Packets")) {}
        = (.ok (), w') ∧
      synthesise w.store = (.ok (), c) ∧ synthesise w'.store = (.ok (), c') ∧
      w.store.types.lookup "Long_packet" ≠ w'.store.types.lookup "Long_packet" ∧
      ∀ name, (c.types.lookup name).map c.sizeOf = (c'.types.lookup name).map c'.sizeOf := by
  have types : Tables.noteSection (Memo.sectionOf "Types" bodyPackets) {}
      = (.ok (), bodyTables) := by
    decide +kernel
  have noted : Tables.noteDocument
      (exampleDocument bodyPackets "Short Packets, and Long Packets") {}
        = (.ok (), bodyTables.withPackets ["Short_packet", "Long_packet"]) :=
    noteDocument_example types (by decide +kernel)
  have noted' : Tables.noteDocument
      (exampleDocument bodyPackets "Long Packets, and Short Packets") {}
        = (.ok (), bodyTables.withPackets ["Long_packet", "Short_packet"]) :=
    noteDocument_example types (by decide +kernel)
  have viewed : builtWith (bodyTables.withPackets ["Short_packet", "Long_packet"])
      (ranWith synthesise fun s _ => (decide s.Unshared, s.types.lookup "Long_packet"))
        = some (some (true, some (.id 11))) := by
    decide +kernel
  have viewed' : builtWith (bodyTables.withPackets ["Long_packet", "Short_packet"])
      (ranWith synthesise fun s _ => s.types.lookup "Long_packet") = some (some (some (.id 8))) := by
    decide +kernel
  obtain ⟨w, ⟨⟩, c, built, completed, view⟩ := exists_ran noted viewed
  obtain ⟨w', ⟨⟩, c', built', completed', view'⟩ := exists_ran noted' viewed'
  obtain ⟨unshared, place⟩ := Prod.mk.inj view
  refine ⟨w, w', c, c', built, built', completed, completed', ?_, ?_⟩
  · rw [place, view']
    decide
  · exact sizes_of_permuted_packets noted rfl noted' (.swap "Long_packet" "Short_packet" [])
      (by decide +kernel) built built' (of_decide_eq_true unshared) completed completed'

/-- The value of a size for data of a size. -/
def valueOf? (dataSize : Int) : Except Fault (Option Expr) → Option Int
  | .ok (some size) => some (size.value dataSize fun _ => 0)
  | _ => none

/-- If both packets have a mode, it has what the packet that is listed first leaves over: all but 8
bits of the data, or all but 16 bits. -/
theorem shared_mode_size :
    ∃ (t : Tables) (w w' : Workshop) (c c' : Store),
      Tables.noteDocument (exampleDocument modePackets "Short Packets, and Long Packets") {}
        = (.ok (), t) ∧
      t.pdus = some ["Short_packet", "Long_packet"] ∧
      Tables.noteDocument (exampleDocument modePackets "Long Packets, and Short Packets") {}
        = (.ok (), { t with pdus := some ["Long_packet", "Short_packet"] }) ∧
      t.Unambiguous ∧
      buildProtocol (some (exampleDocument modePackets "Short Packets, and Long Packets")) {}
        = (.ok (), w) ∧
      buildProtocol (some (exampleDocument modePackets "Long Packets, and Short Packets")) {}
        = (.ok (), w') ∧
      synthesise w.store = (.ok (), c) ∧ synthesise w'.store = (.ok (), c') ∧
      (c.types.lookup "Mode").map c.sizeOf ≠ (c'.types.lookup "Mode").map c'.sizeOf := by
  have types : Tables.noteSection (Memo.sectionOf "Types" modePackets) {}
      = (.ok (), modeTables) := by
    decide +kernel
  have noted : Tables.noteDocument
      (exampleDocument modePackets "Short Packets, and Long Packets") {}
        = (.ok (), modeTables.withPackets ["Short_packet", "Long_packet"]) :=
    noteDocument_example types (by decide +kernel)
  have noted' : Tables.noteDocument
      (exampleDocument modePackets "Long Packets, and Short Packets") {}
        = (.ok (), modeTables.withPackets ["Long_packet", "Short_packet"]) :=
    noteDocument_example types (by decide +kernel)
  have viewed : builtWith (modeTables.withPackets ["Short_packet", "Long_packet"])
      (ranWith synthesise fun _ c => ((c.types.lookup "Mode").map c.sizeOf).map (valueOf? 64))
        = some (some (some (some 56))) := by
    decide +kernel
  have viewed' : builtWith (modeTables.withPackets ["Long_packet", "Short_packet"])
      (ranWith synthesise fun _ c => ((c.types.lookup "Mode").map c.sizeOf).map (valueOf? 64))
        = some (some (some (some 48))) := by
    decide +kernel
  obtain ⟨w, ⟨⟩, c, built, completed, value⟩ := exists_ran noted viewed
  obtain ⟨w', ⟨⟩, c', built', completed', value'⟩ := exists_ran noted' viewed'
  refine ⟨_, w, w', c, c', noted, rfl, noted', by decide +kernel, built, built', completed,
    completed', fun same => ?_⟩
  rw [same, value'] at value
  revert value
  decide

end PacketDraft.Description
