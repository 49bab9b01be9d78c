import PacketDraft.Proofs.Description.Faithful

/-!
# Honest builders

Every step of building keeps a protocol faithful to its description: formulas, the types of fields,
structures, enumerations, functions, and in the end whole protocols. The main result is
`buildTables_faithful`.
-/

namespace PacketDraft.Description

open Protocol Build List Attempt Store Tables

/-! ## Formulas -/

/-- An honest builder gives what stands under the name that is asked for. -/
def Builder.Honest (t : Tables) (build : Builder) : Prop :=
  ∀ begun converting name, Builds t begun converting
    (fun _ => t.Needs name ∨ (primitive? name).isSome = true) (build name)
    fun type s => Stands s name type

section Formulas

variable {t : Tables} (unambiguous : t.Unambiguous) {build : Builder}
  (honest : Builder.Honest t build) {begun converting : List String} {struct : String}

theorem builds_consult {α : Type} {f : Tables → Except Fault α}
    (told : ∀ u : Tables, u.Alike t → f u = f t) :
    Builds t begun converting (fun _ => True) (consult f) fun a _ => f t = .ok a :=
  builds_ask fun w _ faithful _ answer => (told w.tables faithful.alike).symm.trans answer

theorem buildAccess_builds (label : String) :
    Builds t begun converting (fun _ => True) (buildAccess struct label) fun e _ =>
      ∃ name, t.resolveLabel struct label = .ok name ∧ e = .field .self name :=
  (builds_consult fun _ alike => alike.resolveLabel struct label).bind fun name =>
    builds_pure fun _ resolved => ⟨name, resolved, rfl⟩

include unambiguous honest

theorem build_primitive {name : String} {u : TypeRef} (primitive : primitive? name = some u) :
    Builds t begun converting (fun _ => True) (build name) fun type _ => type = u := by
  refine (honest begun converting name).imp (fun _ _ => .inr (by simp [primitive])) ?_
  intro type w faithful stands
  rcases stands with found | same
  · rw [faithful.lookup_primitive unambiguous primitive] at found
    cases found
  · rw [primitive] at same
    exact (Option.some.inj same).symm

theorem buildExpr_builds (f : Formula) :
    Builds t begun converting (fun _ => True) (buildExpr build struct f) fun e _ =>
      t.meaning struct f = .ok e := by
  induction f with
  | number n =>
    refine (build_primitive unambiguous honest rfl).bind fun type => builds_pure ?_
    rintro _ rfl
    rfl
  | field label =>
    refine (buildAccess_builds label).bind fun access => builds_pure ?_
    rintro _ ⟨name, resolved, rfl⟩
    rw [meaning, resolved]
    rfl
  | sizeOf label =>
    refine (buildAccess_builds label).bind fun access => builds_pure ?_
    rintro _ ⟨name, resolved, rfl⟩
    rw [meaning, resolved]
    rfl
  | member label inner =>
    refine (builds_consult fun _ alike => alike.resolveLabel struct label).bind fun name => ?_
    refine (builds_consult fun _ alike => alike.structOfField struct label name).andThen
      (lasting_const _) (fun _ _ => trivial) fun innerStruct => ?_
    refine (builds_consult fun _ alike => alike.resolveLabel innerStruct inner).andThen
      (lasting_const _) (fun _ _ => trivial) fun innerName => builds_pure ?_
    rintro _ ⟨⟨resolved, found⟩, resolved'⟩
    rw [meaning, resolved]
    show (t.structOfField struct label name >>= _) = _
    rw [found]
    show (t.resolveLabel innerStruct inner >>= _) = _
    rw [resolved']
    rfl
  | binary op left right ihLeft ihRight =>
    refine ihLeft.bind fun l => ?_
    refine ihRight.andThen (lasting_const _) (fun _ _ => trivial) fun r => builds_pure ?_
    rintro _ ⟨first, second⟩
    rw [meaning, first]
    show (t.meaning struct right >>= _) = _
    rw [second]
    rfl

theorem buildExpr?_builds (f : Option Formula) :
    Builds t begun converting (fun _ => True) (buildExpr? build struct f) fun e _ =>
      t.meaning? struct f = .ok e := by
  cases f with
  | none => exact builds_pure fun _ _ => rfl
  | some f =>
    refine (buildExpr_builds unambiguous honest f).bind fun e => builds_pure fun _ meant => ?_
    rw [meaning?, meant]
    rfl

theorem sizeInBits_builds (unit : Option String) (size : Option Expr) :
    Builds t begun converting (fun _ => True) (sizeInBits build unit size) fun bits _ =>
      bits = inBits unit size := by
  have scaled : ∀ f : TypeRef → Option Expr,
      Builds t begun converting (fun _ => True) (build "Number" >>= fun number => pure (f number))
        fun bits _ => bits = f .number := by
    refine fun f => (build_primitive unambiguous honest rfl).bind fun number => builds_pure ?_
    rintro _ rfl
    rfl
  unfold sizeInBits inBits
  split
  · refine builds_ite (fun byte => ?_) fun other => ?_
    · simp only [byte, if_true]
      exact scaled _
    · simp only [other]
      exact builds_pure fun _ _ => rfl
  · refine builds_ite (fun byte => ?_) fun other => ?_
    · simp only [byte, if_true]
      exact scaled _
    · simp only [other]
      exact builds_pure fun _ _ => rfl
  · exact builds_pure fun _ _ => rfl

end Formulas

/-! ## Fields -/

/-- What is known of the type of the unit of a field before the type of the field is built. -/
def UnitType (t : Tables) (s : Store) (struct : String) (title : FieldTitle) (type : TypeRef) :
    Prop :=
  isPlainUnit title.units = false →
    (title.isArray = true →
      s.types.lookup (memberTypeName struct title.fullLabel) = some type ∧
        MemberType t s struct title type) ∧
    (title.isArray = false → ∃ key, title.HasUnit key ∧ Stands s key type)

section Fields

variable {t : Tables} (unambiguous : t.Unambiguous) {build : Builder}
  (honest : Builder.Honest t build) {begun converting : List String} {struct : String}
  (open_ : struct ∈ begun) (f : FieldRow)

theorem lasting_unitType (type : TypeRef) :
    Lasting fun s => UnitType t s struct f.title type := by
  intro s s' grows known other
  obtain ⟨array, single⟩ := known other
  constructor
  · intro isArray
    obtain ⟨found, member⟩ := array isArray
    exact ⟨grows.lookup found, member.mono grows⟩
  · intro isSingle
    obtain ⟨key, unit, stands⟩ := single isSingle
    exact ⟨key, unit, stands.mono grows⟩

include open_ in
theorem builds_dropConstraint {P : Store → Prop} (label : String) :
    Builds t begun converting P (update fun w =>
      { w with tables := w.tables.dropConstraint struct label }) fun _ s => P s := by
  intro w a w' outcome
  obtain rfl := update_eq_ok.mp outcome
  refine ⟨prefix_rfl, fun faithful before _ => ⟨.refl _, ?_, before⟩⟩
  refine { faithful with
    alike := alike_dropConstraint faithful.alike struct label, whole := ?_ }
  intro name other free
  show (w.tables.dropConstraint struct label).structs.lookup name = _
  rw [lookup_dropConstraint, faithful.whole name other free]
  have ne : name ≠ struct := fun same => other (same ▸ open_)
  simp [ne]

include unambiguous open_ in
/-- A type that belongs to a field is registered. -/
theorem registerMember_builds {methods : List String} {form : Form} {make : Change TypeRef}
    {P : Store → Prop}
    (makes : Makes methods [] form (some (memberTypeName struct f.title.fullLabel)) make)
    (field : ∀ s, P s → t.IsField struct f) (simple : form ≠ .struct)
    (looks : ∀ w type s, Faithful t begun converting w → P w.store → w.store.Grows s →
      w.store.types.lookup (memberTypeName struct f.title.fullLabel) = none →
      make w.store = (.ok type, s) →
      (∃ size, s.Looks type form size []) ∧ MemberType t s struct f.title type) :
    Builds t begun converting P (register make) fun type s =>
      s.types.lookup (memberTypeName struct f.title.fullLabel) = some type ∧
        MemberType t s struct f.title type := by
  refine builds_register makes (fun type _ _ grows member => member.mono grows) ?_ ?_
  · intro w type s faithful before grows free made
    obtain ⟨⟨size, look⟩, member⟩ := looks w type s faithful before grows free made
    obtain ⟨e, entry, rfl, -⟩ := look
    exact ⟨⟨e, entry⟩, .member (.inl open_) (field _ before) rfl
      (fieldsOf_other entry simple) member, member⟩
  · intro s before variants enum
    have described := unambiguous.members struct f (field s before)
    simp [describes, enum.2] at described

/-- Whatever stands under a name has an entry. -/
theorem Faithful.entryOf_stands {w : Workshop} {key : String} {type : TypeRef}
    (faithful : Faithful t begun converting w) (stands : Stands w.store key type) :
    ∃ e, w.store.entryOf type = some e := by
  rcases stands with found | primitive
  · exact faithful.known (key, type) (mem_of_lookup found)
  · obtain ⟨e, entry, -⟩ := faithful.regular.primitive_form (primitive?_mem primitive)
    exact ⟨e, entry⟩

include unambiguous honest open_ in
theorem fieldUnit_builds :
    Builds t begun converting (fun _ => t.Needs struct ∧ t.IsField struct f)
      (fieldUnit build struct f.title) fun type s => UnitType t s struct f.title type := by
  unfold fieldUnit
  cases units : f.title.units with
  | none =>
    refine builds_pure fun _ _ other => ?_
    rw [units] at other
    cases other
  | some unit =>
    refine builds_ite (fun plain => ?_) fun other => ?_
    · refine builds_pure fun _ _ other => ?_
      rw [units, plain] at other
      cases other
    · have hasUnit : ∀ {key}, typeName unit = .ok key → f.title.HasUnit key := by
        intro key named
        exact ⟨by simpa [units] using other, unit, units, named⟩
      unfold buildUnitType
      refine builds_ite (fun array => ?_) fun single => ?_
      · refine (buildExpr?_builds unambiguous honest _).andThen (lasting_const _)
          (fun _ _ => trivial) fun constraint => ?_
        have rest : Builds t begun converting
            (fun _ => (t.Needs struct ∧ t.IsField struct f) ∧
              t.meaning? struct f.title.constraint = .ok constraint)
            (ofExcept (typeName unit) >>= fun unitName => build unitName >>= fun element =>
              register (makeArray (some (memberTypeName struct f.title.fullLabel)) element none
                (statedSize? f.title.fullLabel constraint)))
            fun type s => UnitType t s struct f.title type := by
          refine (builds_ofExcept (P := fun _ => True) (Q := fun key _ => typeName unit = .ok key)
            fun _ _ named _ => named).andThen (lasting_const _) (fun _ _ => trivial) fun key => ?_
          refine (honest begun converting key).andThen (lasting_const _) ?_ fun element => ?_
          · rintro _ ⟨⟨⟨needs, field⟩, -⟩, named⟩
            exact .inl (.unit needs field (hasUnit named))
          · refine (registerMember_builds unambiguous open_ f (makeArray_makes _ element none _)
              (fun _ given => given.1.1.1.2) (by simp) ?_).imp (fun _ => id) ?_
            · rintro w type s faithful ⟨⟨⟨-, stated⟩, named⟩, stands⟩ grows _ made
              obtain ⟨e, entry⟩ := faithful.entryOf_stands stands
              obtain ⟨own, look, size, -⟩ := makeArray_looks made entry
              refine ⟨⟨own, look⟩, .array (hasUnit named) array (stands.mono grows) stated ?_⟩
              rw [← size rfl]
              exact look.sizeOf rfl
            · exact fun type w _ registered _ =>
                ⟨fun _ => registered, fun single => by simp [array] at single⟩
        refine builds_ite (fun _ => ?_) fun _ => rest
        exact (builds_dropConstraint open_ _).bind fun _ => rest
      · refine (builds_ofExcept (P := fun _ => True) (Q := fun key _ => typeName unit = .ok key)
          fun _ _ named _ => named).andThen (lasting_const _) (fun _ _ => trivial) fun key => ?_
        refine ((honest begun converting key).keep (lasting_const _) ?_).imp (fun _ => id) ?_
        · rintro _ ⟨⟨needs, field⟩, named⟩
          exact .inl (.unit needs field (hasUnit named))
        · rintro type w _ ⟨⟨-, named⟩, stands⟩ _
          exact ⟨fun array => absurd array single, fun _ => ⟨key, hasUnit named, stands⟩⟩

include unambiguous honest open_ in
theorem fieldType_builds (unitType : TypeRef) (size : Option Expr) :
    Builds t begun converting
      (fun s => (t.IsField struct f ∧ UnitType t s struct f.title unitType) ∧
        t.meaning? struct f.title.size = .ok size)
      (fieldType build struct f.title unitType size)
      fun type s => FieldType t s struct f.title type := by
  have lasting : Lasting fun s => (t.IsField struct f ∧ UnitType t s struct f.title unitType) ∧
      t.meaning? struct f.title.size = .ok size :=
    ((lasting_const _).and (lasting_unitType f unitType)).and (lasting_const _)
  unfold fieldType
  refine builds_ite (fun plain => ?_) fun other => ?_
  · refine (sizeInBits_builds unambiguous honest _ size).andThen lasting (fun _ _ => trivial)
      fun bits => ?_
    refine (registerMember_builds unambiguous open_ f (makeBitString_makes _ bits)
      (fun _ given => given.1.1.1) (by simp) ?_).imp (fun _ => id) ?_
    · rintro w type s faithful ⟨⟨-, counted⟩, rfl⟩ grows _ made
      have look := makeBitString_looks made
      exact ⟨⟨_, look⟩, .plain plain counted (look.sizeOf rfl)⟩
    · exact fun type w _ ⟨registered, member⟩ => .own registered member
  · have several : isPlainUnit f.title.units = false := by simpa using other
    -- The unit is an array that belongs to the field, or a type that may stand several times.
    have alone : ∀ s, UnitType t s struct f.title unitType →
        t.meaning? struct f.title.size = .ok size →
        (∀ e, size = some e → isOne e = false → f.title.isArray = false → Unsent s unitType) →
        FieldType t s struct f.title unitType := by
      intro s unit counted unsent
      cases array : f.title.isArray with
      | true =>
        obtain ⟨registered, member⟩ := (unit several).1 array
        exact .own registered member
      | false =>
        obtain ⟨key, hasUnit, stands⟩ := (unit several).2 array
        exact .unit hasUnit array stands counted fun e known more => unsent e known more array
    unfold repeated
    refine (builds_read (P := fun s => (t.IsField struct f ∧
        UnitType t s struct f.title unitType) ∧ t.meaning? struct f.title.size = .ok size)
      (Q := fun sent s => ((t.IsField struct f ∧ UnitType t s struct f.title unitType) ∧
        t.meaning? struct f.title.size = .ok size) ∧
          (sent = false → f.title.isArray = false → Unsent s unitType))
      fun w faithful given => ⟨given, ?_⟩).bind fun sent => ?_
    · intro unsent array
      obtain ⟨key, -, stands⟩ := (given.1.2 several).2 array
      obtain ⟨e, entry⟩ := faithful.entryOf_stands stands
      exact ⟨e, entry, by simpa [isRepresentable, entry] using unsent⟩
    · cases size with
      | none => exact builds_pure fun s given => alone s given.1.1.2 given.1.2 nofun
      | some e =>
        refine builds_ite (fun repeats => ?_) fun single => ?_
        · obtain ⟨more, rfl⟩ : isOne e = false ∧ sent = true := by simpa using repeats
          refine (registerMember_builds unambiguous open_ f
            (makeArray_makes _ unitType (some e) none) (fun _ given => given.1.1.1) (by simp)
            ?_).imp (fun _ => id) fun type w _ ⟨registered, member⟩ => .own registered member
          rintro w type s faithful ⟨⟨⟨-, unit⟩, counted⟩, -⟩ grows free made
          cases array : f.title.isArray with
          | true =>
            obtain ⟨registered, -⟩ := (unit several).1 array
            rw [free] at registered
            cases registered
          | false =>
            obtain ⟨key, hasUnit, stands⟩ := (unit several).2 array
            obtain ⟨entry, known⟩ := faithful.entryOf_stands stands
            obtain ⟨own, look, -, sizes⟩ := makeArray_looks made known
            obtain ⟨m, elementSize, rfl⟩ := sizes e rfl rfl
            refine ⟨⟨_, look⟩, .repeated hasUnit array (stands.mono grows) counted more
              (grows.sizeOf_ok elementSize) (look.sizeOf rfl) ?_⟩
            obtain ⟨e', entry', form, -⟩ := look
            simp [components, entry', form]
        · refine builds_pure fun s given => alone s given.1.1.2 given.1.2 ?_
          intro e' same more array
          cases same
          exact given.2 (by simpa [more] using single) array

include unambiguous honest in
theorem fieldPresence_builds (title : FieldTitle) :
    Builds t begun converting (fun _ => True) (fieldPresence build struct title)
      fun _ _ => True := by
  unfold fieldPresence
  cases title.presence with
  | some formula =>
    exact (buildExpr_builds unambiguous honest formula).imp (fun _ => id) fun _ _ _ _ => trivial
  | none =>
    exact (build_primitive unambiguous honest rfl).bind fun _ => builds_pure fun _ _ => trivial

include unambiguous honest in
theorem fieldAction_builds :
    Builds t begun converting (fun _ => True) (fieldAction build struct f) fun _ _ => True := by
  unfold fieldAction
  cases f.stored with
  | none => exact builds_pure fun _ _ => trivial
  | some stored =>
    have slot : ∀ number, Builds t begun converting (fun _ => number = TypeRef.number)
        (change (addSlot .context (fieldName stored.2) number)) fun _ _ => True := by
      refine fun number => builds_change (addSlot_grows _ _ _) (addSlot_steps _ _ _) ?_
      intro s a s' added
      obtain ⟨e, -, -, -, rfl⟩ := (addSlot_changes _ _ _).of_ok added
      exact types_modifyMembers s _ _
    have action : Builds t begun converting (fun _ => True)
        (buildStored build struct stored.1 stored.2) fun _ _ => True := by
      refine (build_primitive unambiguous honest rfl).bind fun number =>
        (slot number).bind fun _ => ?_
      refine (buildExpr_builds unambiguous honest stored.1).bind fun value => ?_
      exact builds_pure fun _ _ => trivial
    exact action.bind fun _ => builds_pure fun _ _ => trivial

theorem lasting_fields (rows : List FieldRow) (fields : List Field) :
    Lasting fun s => Fields t s struct rows fields :=
  fun _ _ grows described => described.mono grows

theorem makeField_eq_ok {name : String} {type : TypeRef} {presence : Option Expr} {field : Field}
    (made : makeField name type presence = .ok field) : field.name = name ∧ field.type = type := by
  unfold makeField at made
  split at made
  · cases made
    exact ⟨rfl, rfl⟩
  · cases made

include unambiguous honest open_ in
/-- One more field is built as described. -/
theorem buildField_builds (rows : List FieldRow) (parts : Parts) :
    Builds t begun converting
      (fun s => (t.Needs struct ∧ t.IsField struct f) ∧ Fields t s struct rows parts.fields)
      (buildField build struct f parts)
      fun parts s => Fields t s struct (rows ++ [f]) parts.fields := by
  rw [buildField_eq]
  refine (fieldUnit_builds unambiguous honest open_ f).andThen
    ((lasting_const _).and (lasting_fields rows parts.fields)) (fun _ given => given.1)
    fun unitType => ?_
  refine (buildExpr?_builds unambiguous honest f.title.size).andThen
    (((lasting_const _).and (lasting_fields rows parts.fields)).and (lasting_unitType f unitType))
    (fun _ _ => trivial) fun size => ?_
  have lasting : Lasting fun s => (((t.Needs struct ∧ t.IsField struct f) ∧
      Fields t s struct rows parts.fields) ∧ UnitType t s struct f.title unitType) ∧
        t.meaning? struct f.title.size = .ok size :=
    (((lasting_const _).and (lasting_fields rows parts.fields)).and
      (lasting_unitType f unitType)).and (lasting_const _)
  refine (builds_read (P := fun _ => True) (Q := fun _ _ => True) fun _ _ _ => trivial).skip
    lasting (fun _ _ => trivial) fun formula => ?_
  refine (buildExpr?_builds unambiguous honest formula).skip lasting (fun _ _ => trivial)
    fun constraint => ?_
  refine Builds.bind (Q := fun type s => Fields t s struct rows parts.fields ∧
    FieldType t s struct f.title type) ?_ fun type => ?_
  · refine ((fieldType_builds unambiguous honest open_ f unitType size).keep lasting ?_).imp
      (fun _ => id) fun type w _ both => ⟨both.1.1.1.2, both.2⟩
    rintro s ⟨⟨⟨⟨-, field⟩, -⟩, unit⟩, counted⟩
    exact ⟨⟨field, unit⟩, counted⟩
  have lasting : Lasting fun s => Fields t s struct rows parts.fields ∧
      FieldType t s struct f.title type :=
    (lasting_fields rows parts.fields).and fun _ _ grows field => field.mono grows
  refine (fieldPresence_builds unambiguous honest f.title).skip lasting (fun _ _ => trivial)
    fun presence => ?_
  refine (fieldAction_builds unambiguous honest f).skip lasting (fun _ _ => trivial)
    fun action => ?_
  refine (builds_ofExcept (P := fun _ => True) (Q := fun field _ =>
    field.name = f.title.fullLabel ∧ field.type = type)
    fun _ _ made _ => makeField_eq_ok made).andThen lasting (fun _ _ => trivial)
    fun field => builds_pure ?_
  rintro s ⟨⟨described, typed⟩, named, rfl⟩
  exact rel_append described (.cons ⟨named, typed⟩ .nil)

include unambiguous honest open_ in
omit f in
theorem buildFields_builds (done rows : List FieldRow) (parts : Parts) :
    Builds t begun converting
      (fun s => (t.Needs struct ∧ ∀ f ∈ rows, t.IsField struct f) ∧
        Fields t s struct done parts.fields)
      (buildFields build struct rows parts)
      fun parts s => Fields t s struct (done ++ rows) parts.fields := by
  induction rows generalizing done parts with
  | nil => exact builds_pure fun _ given => by simpa using given.2
  | cons f rows ih =>
    refine Builds.bind (Q := fun parts s => (t.Needs struct ∧ ∀ f ∈ rows, t.IsField struct f) ∧
      Fields t s struct (done ++ [f]) parts.fields) ?_ fun parts => ?_
    · refine ((buildField_builds unambiguous honest open_ f done parts).keep
        ((lasting_const _).and (lasting_fields done parts.fields)) ?_).imp (fun _ => id) ?_
      · rintro s ⟨⟨needs, fields⟩, described⟩
        exact ⟨⟨needs, fields f mem_cons_self⟩, described⟩
      · rintro parts w _ ⟨⟨⟨needs, fields⟩, -⟩, described⟩
        exact ⟨⟨needs, fun g mem => fields g (mem_cons_of_mem f mem)⟩, described⟩
    · refine (ih (done ++ [f]) parts).imp (fun _ => id) fun parts w _ described => ?_
      simpa using described

end Fields

/-! ## Structures, enumerations and functions -/

section Types

variable {t : Tables} (unambiguous : t.Unambiguous) {build : Builder}
  (honest : Builder.Honest t build) {begun converting : List String} {name : String}

/-- The types of fields have entries. -/
theorem Faithful.entryOf_fields {w : Workshop} {rows : List FieldRow} {fields : List Field}
    (faithful : Faithful t begun converting w) (described : Fields t w.store name rows fields) :
    ∀ f ∈ fields, ∃ e, w.store.entryOf f.type = some e := by
  induction described with
  | nil => simp
  | cons field _ ih =>
    rw [forall_mem_cons]
    refine ⟨?_, ih⟩
    cases field.2 with
    | own registered _ => exact faithful.entryOf_stands (.inl registered)
    | unit _ _ stands _ _ => exact faithful.entryOf_stands stands

include unambiguous honest in
/-- A structure is registered as described, unless it was begun twice. -/
theorem buildStruct_builds (row : StructRow) :
    Builds t begun converting
      (fun _ => t.Needs name ∧ t.structs.lookup name = some row) (buildStruct build name row)
      fun type s => Stands s name type := by
  intro w type w' outcome
  obtain ⟨parts, u, built, registered⟩ := bind_eq_ok.mp outcome
  have makes := makeStruct_makes (some name) parts.fields parts.constraints parts.actions
  have fields : Builds t (name :: begun) converting _ _ _ :=
    buildFields_builds unambiguous honest mem_cons_self [] (row.fields.map (·.2)) {}
  obtain ⟨more, holds⟩ := fields w parts u built
  have more' := register_types makes registered
  refine ⟨more.trans more', fun faithful given untouched => ?_⟩
  obtain ⟨needs, described⟩ := given
  have untouched' : Untouched (name :: begun) u.store :=
    forall_mem_cons.mpr ⟨register_free makes registered, untouched.of_prefix more'⟩
  have isField : ∀ f ∈ row.fields.map (·.2), t.IsField name f := fun f mem => ⟨row, described, mem⟩
  obtain ⟨grows, faithful', fields⟩ :=
    holds (faithful.begin name) ⟨⟨needs, isField⟩, .nil⟩ untouched'
  obtain ⟨s, registers⟩ := register_registers makes faithful'.regular registered
  obtain ⟨sizes, sum, measured, added, look⟩ :=
    makeStruct_looks registers.made faithful'.regular
  have own : AsDescribed t w'.store (name :: begun) name type := by
    have same : w'.store.fieldsOf type = parts.fields := (look.grows registers.after).fieldsOf
    refine .struct needs described ?_ ?_ added ((look.grows registers.after).sizeOf rfl)
    · rw [same]
      exact fields.mono registers.grows
    · rw [same]
      exact (measured (faithful'.entryOf_fields fields)).imp fun _ _ => registers.grows.sizeOf_ok
  obtain ⟨e, entry, -⟩ := look
  have later : ∀ variants, t.IsEnum name variants → name ∈ converting := by
    intro variants enum
    rw [enum.1] at described
    cases described
  have final := faithful'.register registers ⟨e, entry⟩ own later
  have found := registers.lookup
  exact ⟨grows.trans registers.grows, final.finish (by simp [found]), .inl found⟩

theorem lasting_stand (names : List String) :
    Lasting fun s => ∀ name ∈ names, ∃ u, Stands s name u := by
  intro s s' grows stand name mem
  obtain ⟨u, stands⟩ := stand name mem
  exact ⟨u, stands.mono grows⟩

include honest in
theorem buildTypes_builds (names : List String) :
    Builds t begun converting (fun _ => ∀ name ∈ names, t.Needs name) (buildTypes build names)
      fun _ s => ∀ name ∈ names, ∃ u, Stands s name u := by
  induction names with
  | nil => exact builds_pure fun _ _ => by simp
  | cons name names ih =>
    refine (honest begun converting name).andThen (lasting_const _)
      (fun _ needs => .inl (needs name mem_cons_self)) fun type => ?_
    refine ih.andThen ((lasting_const _).and fun _ _ grows stands => stands.mono grows)
      (fun _ given n mem => given.1 n (mem_cons_of_mem name mem))
      fun types => builds_pure ?_
    rintro s ⟨⟨-, stands⟩, rest⟩
    exact forall_mem_cons.mpr ⟨⟨type, stands⟩, rest⟩

include honest in
theorem buildConversion_builds (conversion : Option (String × String)) :
    Builds t begun converting (fun _ => ∀ f ∈ conversion.toList.map (·.2), t.Needs f)
      (buildConversion build conversion)
      fun _ s => ∀ f ∈ conversion.toList.map (·.2), ∃ u, Stands s f u := by
  cases conversion with
  | none => exact builds_pure fun _ _ => by simp
  | some conversion =>
    refine (honest begun converting conversion.2).andThen (lasting_const _)
      (fun _ needs => .inl (needs conversion.2 (by simp))) fun type => builds_pure ?_
    rintro s ⟨-, stands⟩
    simpa using ⟨type, stands⟩

include honest in
/-- The functions that an enumeration is converted by are built. -/
theorem buildConversions_builds (type : TypeRef) {variants : List String} :
    Builds t begun converting (fun _ => t.Needs name ∧ t.IsEnum name variants) (do
        let serialise ← read (·.tables.serialiseTo.lookup name)
        buildConversion build serialise
        let parse ← read (·.tables.parseFrom.lookup name)
        buildConversion build parse
        return type)
      fun result s => result = type ∧ ∀ f ∈ t.converters name, ∃ u, Stands s f u := by
  have converters : t.converters name = (t.serialiseTo.lookup name).toList.map (·.2)
      ++ (t.parseFrom.lookup name).toList.map (·.2) := map_append
  refine (builds_read (P := fun _ => True) (Q := fun c _ => c = t.serialiseTo.lookup name)
    fun w faithful _ => by rw [faithful.serialiseTo]).andThen (lasting_const _)
    (fun _ _ => trivial) fun serialise => ?_
  refine (buildConversion_builds honest serialise).andThen (lasting_const _) ?_ fun _ => ?_
  · rintro _ ⟨⟨needs, described⟩, rfl⟩ f mem
    exact .converter needs described (converters ▸ mem_append_left _ mem)
  refine (builds_read (P := fun _ => True) (Q := fun c _ => c = t.parseFrom.lookup name)
    fun w faithful _ => by rw [faithful.parseFrom]).andThen
    ((lasting_const _).and (lasting_stand _)) (fun _ _ => trivial) fun parse => ?_
  refine (buildConversion_builds honest parse).andThen
    (((lasting_const _).and (lasting_stand _)).and (lasting_const _)) ?_ fun _ => builds_pure ?_
  · rintro _ ⟨⟨⟨⟨needs, described⟩, -⟩, -⟩, rfl⟩ f mem
    exact .converter needs described (converters ▸ mem_append_right _ mem)
  · rintro s ⟨⟨⟨⟨-, rfl⟩, first⟩, rfl⟩, second⟩
    refine ⟨rfl, fun f mem => ?_⟩
    rw [converters, mem_append] at mem
    exact mem.elim (first f) (second f)

include honest in
theorem buildEnum_builds (variants : List String) :
    Builds t begun converting (fun _ => t.Needs name ∧ t.IsEnum name variants)
      (buildEnum build name variants) fun type s => Stands s name type := by
  intro w type w' outcome
  obtain ⟨types, w₁, built, rest⟩ := bind_eq_ok.mp outcome
  obtain ⟨type', w₂, registered, rest⟩ := bind_eq_ok.mp rest
  have makes := makeEnum_makes (some name) types
  have parts : Builds t begun converting _ _ _ := buildTypes_builds honest variants
  have conversions : Builds t begun (name :: converting)
      (fun _ => t.Needs name ∧ t.IsEnum name variants) _ _ := buildConversions_builds honest type'
  obtain ⟨more, holds⟩ := parts w types w₁ built
  have more' := register_types makes registered
  obtain ⟨more'', holds''⟩ := conversions w₂ type w' rest
  refine ⟨(more.trans more').trans more'', fun faithful given untouched => ?_⟩
  have needed : ∀ v ∈ variants, t.Needs v := fun v mem => .variant given.1 given.2 mem
  obtain ⟨grows, faithful₁, stand⟩ :=
    holds faithful needed (untouched.of_prefix (more'.trans more''))
  have faithful₁ : Faithful t begun (name :: converting) w₁ :=
    { faithful₁ with
      converted := fun n vs enum found other =>
        faithful₁.converted n vs enum found fun mem => other (mem_cons_of_mem name mem) }
  obtain ⟨s, registers⟩ := register_registers makes faithful₁.regular registered
  have look := makeEnum_looks registers.made
  have own : AsDescribed t s begun name type' := by
    refine .enum given.1 given.2 (fun v mem => ?_) ?_ (look.sizeOf rfl)
    · obtain ⟨u, stands⟩ := stand v mem
      exact ⟨u, stands.mono registers.before⟩
    · obtain ⟨e, entry, form, -⟩ := look
      exact fieldsOf_other entry (by simp [form])
  obtain ⟨e, entry, -⟩ := look
  have faithful₂ := faithful₁.register registers ⟨e, entry⟩ (own.mono registers.after)
    fun _ _ => mem_cons_self
  obtain ⟨grows'', faithful₃, rfl, converted⟩ := holds'' faithful₂ given untouched
  refine ⟨(grows.trans registers.grows).trans grows'', ?_, .inl (grows''.lookup registers.lookup)⟩
  refine { faithful₃ with converted := fun n vs enum found other => ?_ }
  by_cases same : n = name
  · subst same
    exact converted
  · exact faithful₃.converted n vs enum found (by simp [same, other])

include honest in
theorem buildParameters_builds (parameters : List (String × String)) :
    Builds t begun converting
      (fun _ => ∀ type ∈ parameters.map (·.2), ∀ key, typeName type = .ok key → t.Needs key)
      (buildParameters build parameters)
      fun _ s => ∀ type ∈ parameters.map (·.2), ∃ key u, typeName type = .ok key ∧
        Stands s key u := by
  induction parameters with
  | nil => exact builds_pure fun _ _ => by simp
  | cons parameter parameters ih =>
    refine (builds_ofExcept (P := fun _ => True) (Q := fun key _ => typeName parameter.2 = .ok key)
      fun _ _ named _ => named).andThen (lasting_const _) (fun _ _ => trivial) fun key => ?_
    refine (honest begun converting key).andThen (lasting_const _) ?_ fun type => ?_
    · rintro s ⟨needed, named⟩
      exact .inl (needed _ mem_cons_self key named)
    refine ih.andThen ((lasting_const _).and fun _ _ grows stands => stands.mono grows) ?_
      fun rest => builds_pure ?_
    · rintro s ⟨⟨needed, -⟩, -⟩ type mem
      exact needed type (mem_cons_of_mem _ mem)
    · rintro s ⟨⟨⟨-, named⟩, stands⟩, others⟩
      exact forall_mem_cons.mpr ⟨⟨key, type, named, stands⟩, others⟩

include honest in
theorem buildFunction_builds (signature : Sentence.Signature) :
    Builds t begun converting (fun _ => t.Needs name ∧ t.IsFunction name signature)
      (buildFunction build name signature) fun type s => Stands s name type := by
  have lasting : ∀ types : List String, Lasting fun s => ∀ type ∈ types, ∃ key u,
      typeName type = .ok key ∧ Stands s key u := by
    intro types s s' grows stand type mem
    obtain ⟨key, u, named, stands⟩ := stand type mem
    exact ⟨key, u, named, stands.mono grows⟩
  refine (buildParameters_builds honest signature.parameters).andThen (lasting_const _) ?_
    fun parameters => ?_
  · rintro _ ⟨needs, described⟩ type mem key named
    exact .signature needs described (mem_append_left _ mem) named
  refine (builds_ofExcept (P := fun _ => True)
    (Q := fun key _ => typeName signature.result = .ok key) fun _ _ named _ => named).andThen
    ((lasting_const _).and (lasting _)) (fun _ _ => trivial) fun key => ?_
  refine (honest begun converting key).andThen
    (((lasting_const _).and (lasting _)).and (lasting_const _)) ?_ fun result => ?_
  · rintro s ⟨⟨⟨needs, described⟩, -⟩, named⟩
    exact .inl (.signature needs described (mem_append_right _ mem_cons_self) named)
  refine (builds_register (makeType_makes (.function parameters result) (some name) none)
    (fun _ => lasting_const True) ?_ ?_).imp (fun _ => id) fun type w _ both => .inl both.1
  · rintro w type s faithful ⟨⟨⟨⟨needs, described⟩, stand⟩, named⟩, stands⟩ grows - made
    obtain ⟨e, entry, form, -⟩ := makeFunction_looks made
    have unsent : e.form.isRepresentable = false := by
      rw [form]
      rfl
    refine ⟨⟨e, entry⟩, .function needs described ?_
      (fieldsOf_other entry (by simp [form])) ⟨e, entry, unsent⟩, trivial⟩
    intro part mem
    rcases mem_append.mp mem with mem | mem
    · exact lasting _ _ _ grows stand part mem
    · rw [mem_singleton.mp mem]
      exact ⟨key, result, named, stands.mono grows⟩
  · rintro s ⟨⟨⟨⟨-, described⟩, -⟩, -⟩, -⟩ variants enum
    exact absurd (described.2.1.symm.trans enum.2) nofun

end Types

/-! ## Whole protocols -/

theorem Tables.Unambiguous.not_primitive {t : Tables} (unambiguous : t.Unambiguous) {name : String}
    (described : t.describes name = true) : primitive? name = none := by
  have other : name ∉ reservedNames := by
    intro reserved
    rw [unambiguous.reserved name reserved] at described
    cases described
  unfold primitive?
  split
  · simp [reservedNames] at other
  · simp [reservedNames] at other
  · simp [reservedNames] at other
  · rfl

/-- Whatever depth it is bounded by, the builder is honest. -/
theorem buildWithin_honest {t : Tables} (unambiguous : t.Unambiguous) (depth : Nat) :
    Builder.Honest t (buildWithin depth) := by
  induction depth with
  | zero => exact fun begun converting name => builds_fail _
  | succ depth ih =>
    intro begun converting name w type w' outcome
    have described : ∀ {c : Prop} {x : Build TypeRef}, x w = (.ok type, w') →
        Builds t begun converting (fun _ => t.Needs name ∧ c) x (fun type s => Stands s name type) →
        (Faithful t begun converting w → c ∧ t.describes name = true) →
        w.store.types <+: w'.store.types ∧
          (Faithful t begun converting w → t.Needs name ∨ (primitive? name).isSome = true →
            Untouched begun w'.store →
            w.store.Grows w'.store ∧ Faithful t begun converting w' ∧
              Stands w'.store name type) := by
      intro c x outcome builds known
      obtain ⟨more, holds⟩ := builds w type w' outcome
      refine ⟨more, fun faithful needs untouched => ?_⟩
      obtain ⟨own, described⟩ := known faithful
      have other := unambiguous.not_primitive described
      exact holds faithful ⟨needs.resolve_right (by simp [other]), own⟩ untouched
    have undescribed (structs : w.tables.structs.lookup name = none)
        (faithful : Faithful t begun converting w) : t.structs.lookup name = none := by
      obtain ⟨-, none⟩ | ⟨row, row', some, -⟩ := faithful.alike.cases name
      · exact none
      · rw [structs] at some
        cases some
    cases finds_of_buildWithin outcome with
    | registered found => exact ⟨prefix_rfl, fun faithful _ _ => ⟨.refl _, faithful, .inl found⟩⟩
    | @struct row _ found structs built =>
      by_cases twice : name ∈ begun
      · -- The inner structure has taken the name of the outer one.
        have builds : Builds t begun converting _ (buildStruct (buildWithin depth) name row) _ :=
          buildStruct_builds unambiguous ih row
        refine ⟨(builds w type w' built).1, fun _ _ untouched => ?_⟩
        obtain ⟨parts, u, -, registered⟩ := bind_eq_ok.mp built
        have taken := register_lookup (makeStruct_makes _ _ _ _) registered
        rw [untouched name twice] at taken
        cases taken
      · refine described built (buildStruct_builds unambiguous ih row) fun faithful => ?_
        have own := (faithful.whole name twice found).symm.trans structs
        exact ⟨own, by simp [describes, own]⟩
    | enum structs enums built =>
      refine described built (buildEnum_builds ih _) fun faithful => ?_
      rw [faithful.enums] at enums
      exact ⟨⟨undescribed structs faithful, enums⟩, by simp [describes, enums]⟩
    | function structs enums functions built =>
      refine described built (buildFunction_builds ih _) fun faithful => ?_
      rw [faithful.enums] at enums
      rw [faithful.functions] at functions
      exact ⟨⟨undescribed structs faithful, enums, functions⟩,
        by simp [describes, functions]⟩
    | primitive structs enums functions basic =>
      exact ⟨prefix_rfl, fun faithful _ _ => ⟨.refl _, faithful, .inr basic⟩⟩

/-- A new protocol is faithful to every description. -/
theorem faithful_initial {t u : Tables} (unambiguous : t.Unambiguous)
    (same : u = { t with pdus := u.pdus }) : Faithful t [] [] ⟨u, .initial⟩ := by
  rw [same]
  refine ⟨ready_initial.regular, .refl _, ?_, rfl, rfl, rfl, rfl, fun _ => rfl, fun _ _ _ => rfl,
    fun _ mem => .inl mem, ?_⟩
  · intro p mem
    obtain ⟨e, entry, -⟩ := ready_initial.founded.named p.1 p.2 mem
    exact ⟨e, entry⟩
  · intro name variants enum registered
    have described : t.describes name = true := by simp [describes, enum.2]
    obtain ⟨v, found⟩ := Option.isSome_iff_exists.mp registered
    have mem : (name, v) ∈ [("Context", TypeRef.context), ("DataUnit", .dataUnit)] :=
      mem_of_lookup found
    have reserved : name ∈ reservedNames := by
      simp only [mem_cons, Prod.mk.injEq, not_mem_nil, or_false] at mem
      rcases mem with ⟨rfl, -⟩ | ⟨rfl, -⟩
      · simp [reservedNames]
      · simp [reservedNames]
    rw [unambiguous.reserved name reserved] at described
    cases described

section Whole

variable {t : Tables} (unambiguous : t.Unambiguous)

include unambiguous

theorem buildPacket_builds (name : String) :
    Builds t [] [] (fun _ => t.Needs name) (buildPacket name) fun _ s =>
      ∃ type, s.types.lookup name = some type := by
  have built : Builds t [] [] (fun _ => t.Needs name) (buildType name) fun _ _ => True := by
    refine (builds_read (P := fun _ => True) (Q := fun _ _ => True) fun _ _ _ => trivial).skip
      (lasting_const _) (fun _ _ => trivial) fun depth => ?_
    exact (buildWithin_honest unambiguous depth [] [] name).imp (fun _ needs => .inl needs)
      fun _ _ _ _ => trivial
  refine built.bind fun _ w a w' outcome => ?_
  obtain ⟨type, known, -, after⟩ := (definePdu_changes name).of_ok (change_eq_ok outcome)
  obtain ⟨more, holds⟩ := builds_change (P := fun _ => True) (definePdu_grows name)
    (definePdu_steps name) (fun s a s' defined => by
      obtain ⟨type, -, -, rfl⟩ := (definePdu_changes name).of_ok defined
      rfl) w a w' outcome
  refine ⟨more, fun faithful _ untouched => ?_⟩
  obtain ⟨grows, faithful, -⟩ := holds faithful trivial untouched
  refine ⟨grows, faithful, type, grows.lookup ?_⟩
  unfold getType at known
  split at known
  · next found =>
    cases known
    exact found
  · cases known

theorem buildPackets_builds (names : List String) :
    Builds t [] [] (fun _ => ∀ name ∈ names, t.Needs name) (each buildPacket names)
      fun _ s => ∀ name ∈ names, ∃ type, s.types.lookup name = some type := by
  induction names with
  | nil => exact builds_pure fun _ _ => by simp
  | cons name names ih =>
    refine (buildPacket_builds unambiguous name).andThen (lasting_const _)
      (fun _ needs => needs name mem_cons_self) fun _ => ?_
    have lasting : Lasting fun s => (∀ n ∈ name :: names, t.Needs n) ∧
        ∃ type, s.types.lookup name = some type := by
      rintro s s' grows ⟨needs, type, found⟩
      exact ⟨needs, type, grows.lookup found⟩
    refine (ih.keep lasting ?_).imp (fun _ => id) ?_
    · exact fun _ given n mem => given.1 n (mem_cons_of_mem name mem)
    · exact fun _ w _ both => forall_mem_cons.mpr ⟨both.1.2, both.2⟩

/-- A protocol is built as described, and all packets are registered. Its packets may be listed in
another order. -/
theorem buildTables_faithful {u : Tables} {w : Workshop} (same : u = { t with pdus := u.pdus })
    (packets : ∀ name ∈ u.pdus.getD [], name ∈ t.pdus.getD [])
    (built : buildTables ⟨u, .initial⟩ = (.ok (), w)) :
    Faithful t [] [] w ∧
      ∀ name ∈ u.pdus.getD [], ∃ type, w.store.types.lookup name = some type := by
  unfold buildTables at built
  rw [read_bind] at built
  cases listed : u.pdus with
  | none =>
    simp only [listed] at built
    exact absurd built fail_ne_ok
  | some names =>
    simp only [listed, Option.getD_some] at built packets ⊢
    obtain ⟨_, w₁, each, rest⟩ := bind_eq_ok.mp built
    obtain ⟨given, _, asked, rest⟩ := bind_eq_ok.mp rest
    obtain ⟨-, rfl⟩ := read_eq_ok.mp asked
    obtain ⟨-, holds⟩ := buildPackets_builds unambiguous names _ _ _ each
    obtain ⟨-, faithful, registered⟩ := holds (faithful_initial unambiguous same)
      (fun name mem => .packet (packets name mem)) (by simp [Untouched])
    obtain ⟨-, holds'⟩ := builds_change (P := fun _ => True) (setProtocolName_grows _)
      (setProtocolName_steps _) (fun s a s' named => by
        rw [((setProtocolName_changes _).of_ok named).2, types_modifyEntry]) _ _ _ rest
    obtain ⟨grows, faithful, -⟩ := holds' faithful trivial (by simp [Untouched])
    refine ⟨faithful, fun name mem => ?_⟩
    obtain ⟨type, found⟩ := registered name mem
    exact ⟨type, grows.lookup found⟩

end Whole

end PacketDraft.Description
