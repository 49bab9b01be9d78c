import PacketDraft.Proofs.Description.Registration

/-!
# Building a protocol

What each step of building does to the registry, given that the types it asks for are built soundly.
The builder asks itself for smaller types, so that induction on its depth shows it sound. The main
result: a protocol that was built has a closed registry.
-/

namespace PacketDraft.Description

open Protocol Document List Attempt Store

variable {α β : Type} {P : Store → Prop} {Q : α → Store → Prop} {R : β → Store → Prop}
variable {w w' : Workshop}

/-! ## Steps of building -/

/-- If `P` holds before a step and the step succeeds, `Q` holds of its result and of the store then.
Registered types stay registered. -/
def Ensures (P : Store → Prop) (x : Build α) (Q : α → Store → Prop) : Prop :=
  ∀ w a w', P w.store → x w = (.ok a, w') → w.store.types <+: w'.store.types ∧ Q a w'.store

theorem ensures_pure {a : α} (holds : ∀ s, P s → Q a s) : Ensures P (pure a) Q := by
  intro w b w' before outcome
  obtain ⟨rfl, rfl⟩ := pure_eq_ok.mp outcome
  exact ⟨prefix_rfl, holds _ before⟩

theorem ensures_done (a : α) : Ensures P (pure a) fun _ => P :=
  ensures_pure fun _ before => before

theorem ensures_fail (e : Fault) : Ensures P (fail e) Q :=
  fun _ _ _ _ outcome => absurd outcome fail_ne_ok

theorem ensures_ask (f : Workshop → Except Fault α) : Ensures P (ask f) fun _ => P := by
  intro w a w' before outcome
  obtain ⟨-, rfl⟩ := ask_eq_ok.mp outcome
  exact ⟨prefix_rfl, before⟩

theorem ensures_read (f : Workshop → α) : Ensures P (read f) fun _ => P :=
  ensures_ask fun w => .ok (f w)

theorem ensures_ofExcept {x : Except Fault α} (holds : ∀ a s, x = .ok a → P s → Q a s) :
    Ensures P (ofExcept x) Q := by
  intro w a w' before outcome
  obtain ⟨known, rfl⟩ := ofExcept_eq_ok.mp outcome
  exact ⟨prefix_rfl, holds a _ known before⟩

theorem ensures_tables (f : Workshop → Tables) :
    Ensures P (update fun w => { w with tables := f w }) fun _ => P := by
  intro w a w' before outcome
  rw [← update_eq_ok.mp outcome]
  exact ⟨prefix_rfl, before⟩

theorem Ensures.bind {x : Build α} {f : α → Build β} (first : Ensures P x Q)
    (rest : ∀ a, Ensures (Q a) (f a) R) : Ensures P (x >>= f) R := by
  intro w b w' before outcome
  obtain ⟨a, u, start, last⟩ := bind_eq_ok.mp outcome
  obtain ⟨more, between⟩ := first w a u before start
  obtain ⟨more', after⟩ := rest a u b w' between last
  exact ⟨more.trans more', after⟩

theorem Ensures.weaken {x : Build α} {Q' : α → Store → Prop} (ensures : Ensures P x Q)
    (after : ∀ a s, Q a s → Q' a s) : Ensures P x Q' := by
  intro w a w' before outcome
  obtain ⟨more, holds⟩ := ensures w a w' before outcome
  exact ⟨more, after a _ holds⟩

/-- A registered type stays registered. -/
theorem Ensures.frame {x : Build α} {item : String × TypeRef} (ensures : Ensures P x Q) :
    Ensures (fun s => P s ∧ item ∈ s.types) x fun a s => Q a s ∧ item ∈ s.types := by
  intro w a w' ⟨before, mem⟩ outcome
  obtain ⟨more, after⟩ := ensures w a w' before outcome
  exact ⟨more, after, more.subset mem⟩

theorem ensures_ite {c : Prop} [Decidable c] {x y : Build α} (yes : c → Ensures P x Q)
    (no : ¬ c → Ensures P y Q) : Ensures P (if c then x else y) Q := by
  split
  · next holds => exact yes holds
  · next fails => exact no fails

/-- What is known to exist may be named. -/
theorem ensures_exists {ι : Type} {C : ι → Store → Prop} {x : Build α}
    (each : ∀ i, Ensures (C i) x Q) : Ensures (fun s => ∃ i, C i s) x Q := by
  intro w a w' ⟨i, before⟩ outcome
  exact each i w a w' before outcome

theorem ensures_fact {c : Prop} {x : Build α} (given : c → Ensures P x Q) :
    Ensures (fun s => c ∧ P s) x Q := by
  intro w a w' ⟨holds, before⟩ outcome
  exact given holds w a w' before outcome

/-! ## Registering -/

theorem change_eq_ok {c : Change α} {a : α} (outcome : Build.change c w = (.ok a, w')) :
    c w.store = (.ok a, w'.store) := by
  cases result : c w.store with
  | mk r store =>
    simp only [Build.change, result, Prod.mk.injEq] at outcome
    obtain ⟨rfl, rfl⟩ := outcome
    rfl

theorem register_eq_ok {make : Change TypeRef} {t : TypeRef} (outcome : register make w = (.ok t, w')) :
    ∃ s, make w.store = (.ok t, s) ∧ addType t s = (.ok (), w'.store) := by
  obtain ⟨t', s, made, rest⟩ := bind_eq_ok.mp (change_eq_ok outcome)
  obtain ⟨_, s', added, rest⟩ := bind_eq_ok.mp rest
  obtain ⟨rfl, rfl⟩ := pure_eq_ok.mp rest
  exact ⟨s, made, added⟩

section Registering

variable {pending : List String} {known : List TypeRef} {methods : List String}
  {fields : List Field} {form : Form} {name : String} {make : Change TypeRef}

/-- A type is made and then registered under its name, which was free. -/
theorem register_made {t : TypeRef} (makes : Makes methods fields form (some name) make)
    (outcome : register make w = (.ok t, w')) :
    ∃ s e ms, make w.store = (.ok t, s) ∧ Made methods fields form name w.store s e ms ∧
      t = .id w.store.entries.length ∧ s.hasType name = false ∧
      w'.store = { s with types := s.types ++ [(name, t)] } := by
  obtain ⟨s, made, added⟩ := register_eq_ok outcome
  rcases makes w.store with ⟨fault, failed⟩ | ⟨given, size, r, s', named, result, edits, own⟩
  · rw [failed] at made
    cases made
  · rw [result] at made
    cases made
    cases named
    obtain ⟨e, ms, new⟩ := Made.of_edits edits
    obtain rfl := own t rfl
    obtain ⟨key, called, free, after⟩ := (addType_changes _).of_ok added
    have same : some key = some name := by
      rw [← called, ← new.name]
      show (s.entries[w.store.entries.length]?).bind (·.name) = e.name
      rw [new.entries, List.getElem?_concat_length]
      rfl
    cases same
    exact ⟨s, e, ms, result, new, rfl, free, after⟩

/-- A type is registered under its name, behind what it is made of. -/
theorem ensures_register (makes : Makes methods fields form (some name) make)
    (listed : form.isListed = true) (other : form ≠ .context) (parts : form.parts fields ⊆ known)
    (plain : name = "Number" → "set" ∉ methods) :
    Ensures (Ready pending known) (register make) fun t s =>
      Ready pending (t :: known) s ∧ (name, t) ∈ s.types := by
  intro w t w' ready outcome
  obtain ⟨s₁, made, added⟩ := register_eq_ok outcome
  have steps : Steps w.store w'.store :=
    (makes.keeps.of_eq made).trans ((addType_steps t).of_eq added)
  have regular := (ready.regular.steps steps).2
  obtain ⟨s, e, ms, -, new, rfl, free, after⟩ := register_made makes outcome
  rw [after] at regular ⊢
  refine ⟨?_, ready.register new free listed other parts plain regular, by simp⟩
  rw [new.types]
  exact prefix_append ..

end Registering

/-! ## Sound builders -/

/-- A sound builder gives a primitive type or one that is registered under the name asked for. -/
def Builder.Sound (build : Builder) : Prop :=
  ∀ name pending known, Ensures (Ready pending known) (build name) fun t s =>
    Ready pending (t :: known) s ∧ (primitive? name = some t ∨ (name, t) ∈ s.types)

section Parts

variable {build : Builder} (sound : Builder.Sound build) {pending : List String}
  {known : List TypeRef} {struct label : String}

include sound

theorem build_type (name : String) :
    Ensures (Ready pending known) (build name) fun t => Ready pending (t :: known) :=
  (sound name pending known).weaken fun _ _ after => after.1

theorem build_keeps (name : String) :
    Ensures (Ready pending known) (build name) fun _ => Ready pending known :=
  (build_type sound name).weaken fun t _ after =>
    after.forget (subset_cons_self t known)

omit sound in
theorem buildAccess_keeps :
    Ensures (Ready pending known) (buildAccess struct label) fun _ => Ready pending known :=
  (ensures_ask _).bind fun _ => ensures_done _

theorem buildExpr_keeps (f : Formula) :
    Ensures (Ready pending known) (buildExpr build struct f) fun _ => Ready pending known := by
  induction f with
  | number n => exact (build_keeps sound _).bind fun _ => ensures_done _
  | field label => exact buildAccess_keeps.bind fun _ => ensures_done _
  | sizeOf label => exact buildAccess_keeps.bind fun _ => ensures_done _
  | member label inner =>
    refine (ensures_ask _).bind fun _ => (ensures_ask _).bind fun _ => ?_
    exact (ensures_ask _).bind fun _ => ensures_done _
  | binary op left right ihLeft ihRight =>
    exact ihLeft.bind fun _ => ihRight.bind fun _ => ensures_done _

theorem buildExpr?_keeps (f : Option Formula) :
    Ensures (Ready pending known) (buildExpr? build struct f) fun _ => Ready pending known := by
  cases f with
  | none => exact ensures_done _
  | some f => exact (buildExpr_keeps sound f).bind fun _ => ensures_done _

theorem sizeInBits_keeps (unit : Option String) (size : Option Expr) :
    Ensures (Ready pending known) (sizeInBits build unit size) fun _ => Ready pending known := by
  have scaled : ∀ f : TypeRef → Option Expr,
      Ensures (Ready pending known) (build "Number" >>= fun number => pure (f number))
        fun _ => Ready pending known :=
    fun f => (build_keeps sound _).bind fun _ => ensures_done _
  unfold sizeInBits
  split
  · exact ensures_ite (fun _ => scaled _) fun _ => ensures_done _
  · exact ensures_ite (fun _ => scaled _) fun _ => ensures_done _
  · exact ensures_done _

omit sound in
theorem memberTypeName_ne_number (struct label : String) :
    memberTypeName struct label ≠ "Number" := by
  intro same
  have letters := congrArg String.toList same
  have line : '_' ∈ (memberTypeName struct label).toList := by
    simp [memberTypeName]
  rw [letters] at line
  revert line
  decide

omit sound in
/-- Arrays belong to fields. -/
theorem registerArray_type (element : TypeRef) (length size : Option Expr)
    (mem : element ∈ known) :
    Ensures (Ready pending known)
      (register (makeArray (some (memberTypeName struct label)) element length size))
      fun t => Ready pending (t :: known) := by
  have makes := makeArray_makes (some (memberTypeName struct label)) element length size
  refine (ensures_register makes rfl (by simp) ?_ ?_).weaken fun _ _ after => after.1
  · intro c part
    rw [mem_singleton.mp part]
    exact mem
  · exact fun number => absurd number (memberTypeName_ne_number struct label)

theorem buildUnitType_type (unit : String) (title : FieldTitle) :
    Ensures (Ready pending known) (buildUnitType build struct unit title)
      fun t => Ready pending (t :: known) := by
  unfold buildUnitType
  refine ensures_ite (fun _ => ?_) fun _ => ?_
  · refine (buildExpr?_keeps sound _).bind fun constraint => ?_
    have rest : ∀ size, Ensures (Ready pending known) (ofExcept (typeName unit) >>=
        fun unitName => build unitName >>= fun element =>
          register (makeArray (some (memberTypeName struct title.fullLabel)) element none size))
        fun t => Ready pending (t :: known) := by
      intro size
      refine (ensures_ofExcept fun _ _ _ before => before).bind fun unitName => ?_
      refine (build_type sound unitName).bind fun element => ?_
      refine (registerArray_type element none size mem_cons_self).weaken fun t _ after => ?_
      exact after.forget (cons_subset_cons t (subset_cons_self element known))
    exact ensures_ite (fun _ => (ensures_tables _).bind fun _ => rest _) fun _ => rest _
  · refine (ensures_ofExcept fun _ _ _ before => before).bind fun unitName => ?_
    exact build_type sound unitName

omit sound in
theorem repeated_type (t : TypeRef) (count : Option Expr) (mem : t ∈ known) :
    Ensures (Ready pending known) (repeated struct label t count)
      fun u => Ready pending (u :: known) := by
  have alone : Ensures (Ready pending known) (pure t : Build TypeRef)
      fun u => Ready pending (u :: known) :=
    ensures_pure fun _ before =>
      before.forget (cons_subset.mpr ⟨mem, List.Subset.refl _⟩)
  refine (ensures_read _).bind fun representable => ?_
  cases count with
  | none => exact alone
  | some e => exact ensures_ite (fun _ => registerArray_type t (some e) none mem) fun _ => alone

/-- The action stores something in the new field of the context. -/
theorem buildStored_pending (formula : Formula) (name : String) :
    Ensures (Ready pending known) (buildStored build struct formula name)
      fun x => Ready (storedNames [x] ++ pending) known := by
  refine (sound "Number" pending known).bind fun number => ?_
  have added : Ensures (fun s => Ready pending (number :: known) s ∧
        (primitive? "Number" = some number ∨ ("Number", number) ∈ s.types))
      (Build.change (addSlot .context (fieldName name) number))
      fun _ => Ready (fieldName name :: pending) known := by
    intro w a w' ⟨ready, found⟩ outcome
    have added := change_eq_ok outcome
    have number_ : number = .number ∨ ("Number", number) ∈ w.store.types :=
      found.imp_left fun primitive => (Option.some.inj primitive).symm
    refine ⟨?_, (ready.addSlot number_ added).forget (subset_cons_self number known)⟩
    obtain ⟨e, -, -, -, after⟩ := (addSlot_changes .context _ number).of_ok added
    have same : w'.store.types = w.store.types := by
      rw [after, types_modifyMembers]
    exact same ▸ prefix_rfl
  refine added.bind fun _ => (buildExpr_keeps sound formula).bind fun value => ?_
  exact ensures_pure fun _ before => before

end Parts

/-! ## Fields -/

/-- The type of the unit of a field. -/
def fieldUnit (build : Builder) (struct : String) (title : FieldTitle) : Build TypeRef :=
  match title.units with
  | some unit =>
    if isPlainUnit (some unit) then pure .absent else buildUnitType build struct unit title
  | none => pure .absent

/-- The type of a field. -/
def fieldType (build : Builder) (struct : String) (title : FieldTitle) (unitType : TypeRef)
    (size : Option Expr) : Build TypeRef :=
  if isPlainUnit title.units then do
    let bits ← sizeInBits build title.units size
    register (makeBitString (some (memberTypeName struct title.fullLabel)) bits)
  else repeated struct title.fullLabel unitType size

/-- Whether a field is there. -/
def fieldPresence (build : Builder) (struct : String) (title : FieldTitle) : Build Expr :=
  match title.presence with
  | some formula => buildExpr build struct formula
  | none => do
    let boolean ← build "Boolean"
    return .const boolean (.flag true)

/-- The action of a field. -/
def fieldAction (build : Builder) (struct : String) (row : FieldRow) : Build (Option Expr) :=
  match row.stored with
  | some (formula, name) => do
    let action ← buildStored build struct formula name
    return some action
  | none => pure none

/-- A field is built in these steps. -/
theorem buildField_eq (build : Builder) (struct : String) (row : FieldRow) (parts : Parts) :
    buildField build struct row parts = (do
      let unitType ← fieldUnit build struct row.title
      let size ← buildExpr? build struct row.title.size
      let formula ← read fun w => w.tables.constraintOf struct row.title.fullLabel
      let constraint ← buildExpr? build struct formula
      let type ← fieldType build struct row.title unitType size
      let presence ← fieldPresence build struct row.title
      let action ← fieldAction build struct row
      let field ← ofExcept (makeField row.title.fullLabel type (some presence))
      return {
        fields := parts.fields ++ [field]
        constraints := parts.constraints ++ constraint.toList
        actions := parts.actions ++ action.toList }) := by
  unfold buildField fieldUnit fieldType fieldPresence fieldAction
  -- the two only differ in where the later steps stand
  by_cases plain : isPlainUnit row.title.units = true
  · cases units : row.title.units <;> cases presence : row.title.presence <;>
      cases stored : row.stored <;> simp_all only [if_true, bind_assoc, pure_bind]
  · cases units : row.title.units <;> cases presence : row.title.presence <;>
      cases stored : row.stored <;>
      simp_all only [if_false, Bool.false_eq_true, bind_assoc, pure_bind]

section Fields

variable {build : Builder} (sound : Builder.Sound build) {pending : List String}
  {known : List TypeRef} {struct : String}

include sound

/-- The type of the unit is there unless the field is plain. -/
theorem fieldUnit_type (title : FieldTitle) :
    Ensures (Ready pending known) (fieldUnit build struct title) fun t s =>
      ∃ more, (known ⊆ more ∧ (isPlainUnit title.units = false → t ∈ more)) ∧
        Ready pending more s := by
  unfold fieldUnit
  cases units : title.units with
  | none => exact ensures_pure fun _ before => ⟨known, ⟨List.Subset.refl _, nofun⟩, before⟩
  | some unit =>
    refine ensures_ite (fun plain => ?_) fun _ => ?_
    · exact ensures_pure fun _ before => ⟨known, ⟨List.Subset.refl _, by simp [plain]⟩, before⟩
    · refine (buildUnitType_type sound unit title).weaken ?_
      exact fun t _ after =>
        ⟨t :: known, ⟨subset_cons_self t known, fun _ => mem_cons_self⟩, after⟩

theorem fieldType_type (title : FieldTitle) (unitType : TypeRef) (size : Option Expr)
    (unit : isPlainUnit title.units = false → unitType ∈ known) :
    Ensures (Ready pending known) (fieldType build struct title unitType size)
      fun t => Ready pending (t :: known) := by
  refine ensures_ite (fun _ => ?_) fun other => ?_
  · refine (sizeInBits_keeps sound _ size).bind fun bits => ?_
    have makes := makeBitString_makes (some (memberTypeName struct title.fullLabel)) bits
    refine (ensures_register makes rfl (by simp) (nil_subset _) ?_).weaken
      fun _ _ after => after.1
    exact fun number => absurd number (memberTypeName_ne_number struct _)
  · exact repeated_type unitType size (unit (by simpa using other))

theorem fieldPresence_keeps (title : FieldTitle) :
    Ensures (Ready pending known) (fieldPresence build struct title)
      fun _ => Ready pending known := by
  unfold fieldPresence
  cases title.presence with
  | none => exact (build_keeps sound _).bind fun _ => ensures_done _
  | some formula => exact buildExpr_keeps sound formula

theorem fieldAction_pending (row : FieldRow) :
    Ensures (Ready pending known) (fieldAction build struct row)
      fun action => Ready (storedNames action.toList ++ pending) known := by
  unfold fieldAction
  cases row.stored with
  | none => exact ensures_pure fun _ before => before
  | some stored =>
    exact (buildStored_pending sound stored.1 stored.2).bind fun _ =>
      ensures_pure fun _ before => before

/-- What is known after some fields of a structure. -/
def Described (pending : List String) (known : List TypeRef) (parts : Parts) : Store → Prop :=
  Ready (storedNames parts.actions ++ pending) (parts.fields.map (·.type) ++ known)

theorem buildField_described (row : FieldRow) (parts : Parts) :
    Ensures (Described pending known parts) (buildField build struct row parts)
      (Described pending known) := by
  rw [buildField_eq]
  refine (fieldUnit_type sound row.title).bind fun unitType => ensures_exists fun more =>
    ensures_fact fun ⟨older, unit⟩ => ?_
  refine (buildExpr?_keeps sound _).bind fun size => (ensures_read _).bind fun formula =>
    (buildExpr?_keeps sound formula).bind fun constraint => ?_
  refine (fieldType_type sound row.title unitType size unit).bind fun type => ?_
  refine (fieldPresence_keeps sound row.title).bind fun presence => ?_
  refine (fieldAction_pending sound row).bind fun action => ?_
  refine Ensures.bind (Q := fun field s => field.type = type ∧
    Ready (storedNames action.toList ++ (storedNames parts.actions ++ pending)) (type :: more) s)
    (ensures_ofExcept ?_) fun field => ensures_fact fun typed => ensures_pure ?_
  · intro field s made before
    refine ⟨?_, before⟩
    unfold makeField at made
    split at made
    · cases made
      rfl
    · cases made
  · intro s before
    refine before.weaken ?_ ?_
    · intro name mem
      simp only [storedNames, filterMap_append, mem_append] at mem ⊢
      tauto
    · intro t mem
      rw [map_append, append_assoc, mem_append, mem_append] at mem
      rcases mem with old | new | old
      · exact mem_cons_of_mem _ (older (mem_append_left _ old))
      · obtain rfl : t = type := (mem_singleton.mp new).trans typed
        exact mem_cons_self
      · exact mem_cons_of_mem _ (older (mem_append_right _ old))

theorem buildFields_described (rows : List FieldRow) (parts : Parts) :
    Ensures (Described pending known parts) (buildFields build struct rows parts)
      (Described pending known) := by
  induction rows generalizing parts with
  | nil => exact ensures_pure fun _ before => before
  | cons row rows ih => exact (buildField_described sound row parts).bind fun parts => ih parts

omit sound in
/-- The actions of a structure are checked when it is made, so nothing is pending after it. -/
theorem ensures_registerStruct (name : String) (parts : Parts) :
    Ensures (Described pending known parts)
      (register (makeStruct (some name) parts.fields parts.constraints parts.actions))
      fun t s => Ready pending (t :: known) s ∧ (name, t) ∈ s.types := by
  intro w t w' ready outcome
  have makes := makeStruct_makes (some name) parts.fields parts.constraints parts.actions
  obtain ⟨types, ready', mem⟩ := ensures_register makes rfl (by simp)
    (subset_append_left _ known) (by simp) w t w' ready outcome
  obtain ⟨s₁, made, added⟩ := register_eq_ok outcome
  have typed : ∀ x ∈ parts.actions, ∃ r, w'.store.resultType t x = .ok r := by
    intro x action
    have regular := (ready.regular.steps (makes.keeps.of_eq made)).2
    obtain ⟨extends_, regular'⟩ := regular.steps ((addType_steps t).of_eq added)
    obtain ⟨r, result⟩ := makeStruct_typed ready.regular made x action
    exact ⟨r, regular.resultType_mono regular' extends_ x result⟩
  have older := cons_subset_cons t (subset_append_right (parts.fields.map (·.type)) known)
  exact ⟨types, (ready'.discharge typed).forget older, mem⟩

theorem buildStruct_type (name : String) (row : StructRow) :
    Ensures (Ready pending known) (buildStruct build name row)
      fun t s => Ready pending (t :: known) s ∧ (name, t) ∈ s.types :=
  (buildFields_described sound _ {}).bind fun parts => ensures_registerStruct name parts

/-! ## Enumerations and functions -/

theorem buildTypes_types (names : List String) :
    Ensures (Ready pending known) (buildTypes build names)
      fun types => Ready pending (types ++ known) := by
  induction names generalizing known with
  | nil => exact ensures_pure fun _ before => before
  | cons name names ih =>
    refine (build_type sound name).bind fun t => ih.bind fun types => ensures_pure ?_
    intro s before
    refine before.forget ?_
    intro u mem
    simp only [mem_append, mem_cons, cons_append] at mem ⊢
    tauto

theorem buildConversion_keeps (conversion : Option (String × String)) :
    Ensures (Ready pending known) (buildConversion build conversion)
      fun _ => Ready pending known := by
  cases conversion with
  | none => exact ensures_done _
  | some conversion => exact (build_keeps sound _).bind fun _ => ensures_done _

theorem buildEnum_type (name : String) (variants : List String) :
    Ensures (Ready pending known) (buildEnum build name variants)
      fun t s => Ready pending (t :: known) s ∧ (name, t) ∈ s.types := by
  refine (buildTypes_types sound variants).bind fun types => ?_
  refine (ensures_register (makeEnum_makes (some name) types) rfl (by simp)
    (subset_append_left types known) (by simp)).bind fun t => ?_
  refine (ensures_read _).bind fun serialise => ?_
  refine (buildConversion_keeps sound serialise).frame.bind fun _ => ?_
  refine (ensures_read _).bind fun parse => ?_
  refine (buildConversion_keeps sound parse).frame.bind fun _ => ensures_pure fun s before => ?_
  exact ⟨before.1.forget (cons_subset_cons t (subset_append_right types known)), before.2⟩

theorem buildParameters_types (parameters : List (String × String)) :
    Ensures (Ready pending known) (buildParameters build parameters)
      fun ps => Ready pending (ps.map (·.type) ++ known) := by
  induction parameters generalizing known with
  | nil => exact ensures_pure fun _ before => before
  | cons parameter parameters ih =>
    refine (ensures_ofExcept fun _ _ _ before => before).bind fun key => ?_
    refine (build_type sound key).bind fun t => ih.bind fun ps => ensures_pure ?_
    intro s before
    refine before.forget ?_
    intro u mem
    simp only [map_cons, mem_append, mem_cons, cons_append] at mem ⊢
    tauto

theorem buildFunction_type (name : String) (signature : Sentence.Signature) :
    Ensures (Ready pending known) (buildFunction build name signature)
      fun t s => Ready pending (t :: known) s ∧ (name, t) ∈ s.types := by
  refine (buildParameters_types sound _).bind fun ps => ?_
  refine (ensures_ofExcept fun _ _ _ before => before).bind fun key => ?_
  refine (build_type sound key).bind fun result => ?_
  have makes := makeType_makes (.function ps result) (some name) none
  refine (ensures_register makes rfl (by simp) ?_ (by simp)).weaken ?_
  · intro c part
    simp only [Form.parts, mem_append, mem_cons, not_mem_nil, or_false] at part ⊢
    tauto
  · intro t s after
    refine ⟨after.1.forget (cons_subset_cons t ?_), after.2⟩
    exact List.Subset.trans (subset_append_right _ known) (subset_cons_self result _)

end Fields

theorem primitive?_mem {name : String} {t : TypeRef} (primitive : primitive? name = some t) :
    t ∈ primitives := by
  unfold primitive? at primitive
  split at primitive
  · cases primitive
    simp [primitives]
  · cases primitive
    simp [primitives]
  · cases primitive
    simp [primitives]
  · cases primitive

theorem Ready.cons_known {pending : List String} {known : List TypeRef} {s : Store} {t : TypeRef}
    (ready : Ready pending known s) (founds : s.Founds s.types.length t) :
    Ready pending (t :: known) s :=
  { ready with known := forall_mem_cons.mpr ⟨founds, ready.known⟩ }

/-- How a type is found under a name: it is registered, it is described and made from its description,
or it is a primitive one. -/
inductive Finds (build : Builder) (name : String) (w : Workshop) (t : TypeRef) : Workshop → Prop
  | registered (found : w.store.types.lookup name = some t) : Finds build name w t w
  | struct {row : StructRow} {w' : Workshop} (unknown : w.store.types.lookup name = none)
    (structs : w.tables.structs.lookup name = some row)
    (built : buildStruct build name row w = (.ok t, w')) : Finds build name w t w'
  | enum {variants : List String} {w' : Workshop} (structs : w.tables.structs.lookup name = none)
    (enums : w.tables.enums.lookup name = some variants)
    (built : buildEnum build name variants w = (.ok t, w')) : Finds build name w t w'
  | function {signature : Sentence.Signature} {w' : Workshop}
    (structs : w.tables.structs.lookup name = none) (enums : w.tables.enums.lookup name = none)
    (functions : w.tables.functions.lookup name = some signature)
    (built : buildFunction build name signature w = (.ok t, w')) : Finds build name w t w'
  | primitive (structs : w.tables.structs.lookup name = none)
    (enums : w.tables.enums.lookup name = none) (functions : w.tables.functions.lookup name = none)
    (basic : primitive? name = some t) : Finds build name w t w

theorem finds_of_buildWithin {depth : Nat} {name : String} {t : TypeRef}
    (outcome : buildWithin (depth + 1) name w = (.ok t, w')) :
    Finds (buildWithin depth) name w t w' := by
  rw [buildWithin, read_bind] at outcome
  simp only [id_eq] at outcome
  cases found : w.store.types.lookup name with
  | some u =>
    rw [found] at outcome
    obtain ⟨rfl, rfl⟩ := pure_eq_ok.mp outcome
    exact .registered found
  | none =>
    cases structs : w.tables.structs.lookup name with
    | some row =>
      simp only [found, structs] at outcome
      exact .struct found structs outcome
    | none =>
      cases enums : w.tables.enums.lookup name with
      | some variants =>
        simp only [found, structs, enums] at outcome
        exact .enum structs enums outcome
      | none =>
        cases functions : w.tables.functions.lookup name with
        | some signature =>
          simp only [found, structs, enums, functions] at outcome
          exact .function structs enums functions outcome
        | none =>
          cases basic : primitive? name with
          | some u =>
            simp only [found, structs, enums, functions, basic] at outcome
            obtain ⟨rfl, rfl⟩ := pure_eq_ok.mp outcome
            exact .primitive structs enums functions basic
          | none =>
            simp only [found, structs, enums, functions, basic] at outcome
            exact absurd outcome fail_ne_ok

/-- Whatever depth it is bounded by, the builder is sound. -/
theorem buildWithin_sound (depth : Nat) : Builder.Sound (buildWithin depth) := by
  induction depth with
  | zero => exact fun name pending known => ensures_fail _
  | succ depth ih =>
    intro name pending known w t w' ready outcome
    have registered : ∀ {x : Build TypeRef}, Ensures (Ready pending known) x (fun t s =>
          Ready pending (t :: known) s ∧ (name, t) ∈ s.types) → x w = (.ok t, w') →
        w.store.types <+: w'.store.types ∧ Ready pending (t :: known) w'.store ∧
          (primitive? name = some t ∨ (name, t) ∈ w'.store.types) := by
      intro x ensures outcome
      obtain ⟨more, after, mem⟩ := ensures w t w' ready outcome
      exact ⟨more, after, .inr mem⟩
    cases finds_of_buildWithin outcome with
    | registered found =>
      have mem := mem_of_lookup found
      obtain ⟨i, place⟩ := List.getElem?_of_mem mem
      have bound := (List.getElem?_eq_some_iff.mp place).1
      exact ⟨prefix_rfl, ready.cons_known (.inr ⟨i, bound, name, place⟩), .inr mem⟩
    | struct unknown structs built => exact registered (buildStruct_type ih name _) built
    | enum structs enums built => exact registered (buildEnum_type ih name _) built
    | function structs enums functions built =>
      exact registered (buildFunction_type ih name _) built
    | primitive structs enums functions basic =>
      exact ⟨prefix_rfl, ready.cons_known (.inl (primitive?_mem basic)), .inl basic⟩

/-! ## Whole protocols -/

section Whole

variable {pending : List String} {known : List TypeRef}

theorem buildPacket_keeps (name : String) :
    Ensures (Ready pending known) (buildPacket name) fun _ => Ready pending known := by
  refine ((ensures_read _).bind fun depth => build_keeps (buildWithin_sound depth) name).bind
    fun _ => ?_
  intro w a w' ready outcome
  have defined := change_eq_ok outcome
  have regular := (ready.regular.steps ((definePdu_steps name).of_eq defined)).2
  obtain ⟨t, -, -, after⟩ := (definePdu_changes name).of_ok defined
  rw [after] at regular ⊢
  refine ⟨prefix_rfl, regular, ?_, ready.plain, ready.slots, ready.known⟩
  exact ⟨ready.founded.named, ready.founded.distinct, ready.founded.context, ready.founded.parts⟩

theorem buildPackets_keeps (names : List String) :
    Ensures (Ready pending known) (each buildPacket names)
      fun _ => Ready pending known := by
  induction names with
  | nil => exact ensures_done _
  | cons name names ih => exact (buildPacket_keeps name).bind fun _ => ih

/-- Where nothing is pending, the context is made of numbers. -/
theorem Ready.closed {s : Store} (ready : Ready [] known s) : s.Closed := by
  refine ⟨ready.founded, fun c part => ?_⟩
  obtain ⟨e, entry, form⟩ := ready.regular.basic (.context, .context) (by simp [basis])
  have parts : s.components .context = s.contextSlots.map (·.2) := by
    unfold components
    rw [entry]
    simp only [form]
    rw [members, ready.regular.group 4 e entry]
    rfl
  rw [parts] at part
  obtain ⟨slot, mem, rfl⟩ := mem_map.mp part
  rcases ready.slots slot mem with number | ⟨due, -⟩
  · rw [number]
    exact mem_cons_self
  · cases due

theorem ready_initial : Ready [] [] .initial := by
  have types : initial.types = [("Context", .context), ("DataUnit", .dataUnit)] := rfl
  refine ⟨(regular_foundation.steps steps_initial).2, ⟨?_, ?_, ?_, ?_⟩, ?_, ?_, nofun⟩
  · intro name t mem
    rw [types] at mem
    simp only [mem_cons, Prod.mk.injEq, not_mem_nil, or_false] at mem
    rcases mem with ⟨rfl, rfl⟩ | ⟨rfl, rfl⟩
    · exact ⟨_, rfl, rfl, rfl⟩
    · exact ⟨_, rfl, rfl, rfl⟩
  · rw [types]
    decide
  · rw [types]
    exact mem_cons_self
  · intro i name t registered other c part
    have mem := mem_of_getElem? registered
    rw [types] at mem
    simp only [mem_cons, Prod.mk.injEq, not_mem_nil, or_false] at mem
    rcases mem with ⟨-, rfl⟩ | ⟨-, rfl⟩
    · exact absurd rfl other
    · exact absurd part not_mem_nil
  · intro t e mem
    rw [types] at mem
    simp at mem
  · intro slot mem
    have mem : slot ∈ [(dataSize, TypeRef.number)] := mem
    rw [mem_singleton.mp mem]
    exact .inl rfl

theorem buildTables_closed (ready : Ready [] [] w.store) (outcome : buildTables w = (.ok (), w')) :
    w'.store.Regular ∧ w'.store.Closed := by
  unfold buildTables at outcome
  rw [read_bind] at outcome
  cases packets : w.tables.pdus with
  | none =>
    rw [packets] at outcome
    exact absurd outcome fail_ne_ok
  | some pdus =>
    rw [packets] at outcome
    obtain ⟨_, u, built, outcome⟩ := bind_eq_ok.mp outcome
    obtain ⟨name, u', asked, outcome⟩ := bind_eq_ok.mp outcome
    obtain ⟨-, rfl⟩ := read_eq_ok.mp asked
    have ready := (buildPackets_keeps pdus w _ u ready built).2
    have named := change_eq_ok outcome
    refine ⟨(ready.regular.steps ((setProtocolName_steps _).of_eq named)).2, ?_⟩
    rw [((setProtocolName_changes _).of_ok named).2]
    exact ready.closed.completes (ready.regular.completes_rename _)

theorem buildProtocol_closed {document : Option Element} {tables : Tables}
    (built : buildProtocol document ⟨tables, .initial⟩ = (.ok (), w)) :
    w.store.Regular ∧ w.store.Closed := by
  cases document with
  | none => exact buildTables_closed ready_initial built
  | some document =>
    obtain ⟨_, u, collected, outcome⟩ := bind_eq_ok.mp built
    have store : u.store = .initial := by
      cases result : Tables.noteDocument document tables with
      | mk r noted =>
        simp only [Build.collect, result, Prod.mk.injEq] at collected
        rw [← collected.2]
    exact buildTables_closed (store ▸ ready_initial) outcome

end Whole

end PacketDraft.Description
