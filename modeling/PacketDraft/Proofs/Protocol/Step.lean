import PacketDraft.Proofs.Attempt
import PacketDraft.Proofs.Protocol.Graph
import PacketDraft.Protocol.Registry

/-!
# Steps of a protocol

Whatever is done to a protocol comes down to a few kinds of steps: a new type, an edit of one type,
a registration, a packet, the name of the protocol. Every operation performs such steps, also when
it fails half way; what is true of all steps is then true of all operations. An edit adds to a type
or gives it a size, and never takes anything away.
-/

namespace PacketDraft.Protocol

open Attempt

/-- One edit of a type. Only methods with these names and only these fields are added. -/
inductive Edit (methods : List String) (fields : List Field) (t : TypeRef) : Store → Store → Prop
  | method {s : Store} {name : String} (m : Signature) (allowed : name ∈ methods)
      (fresh : ∀ e, s.entryOf t = some e → e.methods.lookup name = none) :
      Edit methods fields t s
        (s.modifyEntry t fun e => { e with methods := e.methods ++ [(name, m)] })
  | size {s : Store} (size : Option Expr) :
      Edit methods fields t s (s.modifyEntry t fun e => { e with size })
  | parseFrom {s : Store} (f : Signature) :
      Edit methods fields t s (s.modifyEntry t fun e => { e with parseFrom := some f })
  | serialiseTo {s : Store} (f : Signature) :
      Edit methods fields t s (s.modifyEntry t fun e => { e with serialiseTo := some f })
  | trait {s : Store} (trait : Trait) :
      Edit methods fields t s
        (s.modifyMembers t fun ms => { ms with traits := ms.traits ++ [trait] })
  | field {s : Store} {e : Entry} {field : Field} (entry : s.entryOf t = some e)
      (struct : e.form = .struct) (allowed : field ∈ fields)
      (fresh : ∀ f ∈ (s.members e).fields, f.name ≠ field.name) :
      Edit methods fields t s
        (s.modifyMembers t fun ms => { ms with fields := ms.fields ++ [field] })
  | slot {s : Store} {e : Entry} {name : String} (type : TypeRef) (entry : s.entryOf t = some e)
      (context : e.form = .context) (fresh : (s.members e).slots.lookup name = none) :
      Edit methods fields t s
        (s.modifyMembers t fun ms => { ms with slots := ms.slots ++ [(name, type)] })
  | constraint {s : Store} {x : Expr} {r : TypeRef} (struct : s.isStruct t = true)
      (result : s.resultType t x = .ok r) (fits : s.same r .boolean = true) :
      Edit methods fields t s
        (s.modifyMembers t fun ms => { ms with constraints := ms.constraints ++ [x] })
  | action {s : Store} {x : Expr} {r : TypeRef} (struct : s.isStruct t = true)
      (result : s.resultType t x = .ok r) (fits : s.same r .nothing = true) :
      Edit methods fields t s
        (s.modifyMembers t fun ms => { ms with actions := ms.actions ++ [x] })

/-- Any number of edits of one type. -/
abbrev Edits (methods : List String) (fields : List Field) (t : TypeRef) : Store → Store → Prop :=
  Relation.ReflTransGen (Edit methods fields t)

/-- One step of a protocol. -/
inductive Step : Store → Store → Prop
  | push {s : Store} (form : Form) (name : String) (size : Option Expr) :
      Step s (s.push form name size)
  | edit {s s' : Store} (methods : List String) (fields : List Field) {t : TypeRef} :
      Edit methods fields t s s' → Step s s'
  | register {s : Store} {name : String} {t : TypeRef} (named : s.name? t = some name)
      (free : s.hasType name = false) : Step s { s with types := s.types ++ [(name, t)] }
  | pdu {s : Store} {name : String} {t : TypeRef} (registered : s.getType name = .ok t)
      (representable : s.isRepresentable t = true) :
      Step s { s with pdus := s.pdus ++ [name] }
  | rename {s : Store} (name : String) (first : s.protocolName = unnamed) :
      Step s (s.modifyEntry .protocol fun e => { e with name := some name })

/-- Any number of steps. -/
abbrev Steps : Store → Store → Prop :=
  Relation.ReflTransGen Step

variable {t : TypeRef} {methods : List String} {fields : List Field}

theorem Edits.steps {s s' : Store} (edits : Edits methods fields t s s') : Steps s s' :=
  Relation.ReflTransGen.mono (fun _ _ edit => Step.edit methods fields edit) s s' edits

/-! ## Edits of one type -/

/-- What holds of new methods and of a new trait holds of a trait that is implemented. -/
theorem implementTrait_keeps {R : Store → Store → Prop} [IsPreorder Store R] {trait : Trait}
    (method : ∀ s m (x : Signature), m ∈ trait.methods →
      (∀ e, s.entryOf t = some e → e.methods.lookup m.name = none) →
      R s (s.modifyEntry t fun e => { e with methods := e.methods ++ [(m.name, x)] }))
    (added : ∀ s : Store, R s (s.modifyMembers t fun ms => { ms with traits := ms.traits ++ [trait] }))
    (vars : List (String × TypeRef)) : Keeps R (implementTrait t trait vars) := by
  have each : ∀ vars, ∀ m ∈ trait.methods, Keeps R (implementMethod t vars m) := by
    intro vars m mem s
    unfold implementMethod
    rw [read_bind]
    by_cases taken : ((s.entryOf t).any fun e => (e.methods.lookup m.name).isSome) = true
    · rw [if_pos taken]
      exact refl s
    · rw [if_neg taken]
      cases known : m.instantiate vars with
      | error e => exact refl s
      | ok x =>
        refine method s m x mem fun e entry => ?_
        rw [entry, Option.any_some] at taken
        exact Option.not_isSome_iff_eq_none.mp taken
  unfold implementTrait
  refine (keeps_read _).bind fun entry => ?_
  cases entry with
  | none => exact keeps_fail _
  | some e =>
    refine keeps_guard (keeps_fail_bind _ _) ((keeps_read _).bind fun present => ?_)
    refine keeps_guard ((keeps_read _).bind fun _ => keeps_fail_bind _ _) ?_
    exact (Keeps.each (each _)).bind fun _ => keeps_update added

theorem implementTrait_edits (trait : Trait) (vars : List (String × TypeRef))
    (allowed : ∀ m ∈ trait.methods, m.name ∈ methods) :
    Keeps (Edits methods fields t) (implementTrait t trait vars) :=
  implementTrait_keeps (fun _ m x mem fresh => .single (.method x (allowed m mem) fresh))
    (fun _ => .single (.trait trait)) vars

/-- What holds of a type that shares its members and of new traits holds of a derived type. -/
theorem derive_keeps {R : Store → Store → Prop} [IsPreorder Store R] {source : TypeRef} {name : String}
    (shared : ∀ s e, s.entryOf source = some e → R s (s.pushSharing { e with name := some name }))
    (implement : ∀ t trait, Keeps R (implementTrait t trait [])) (traits : List Trait) :
    Keeps R (derive source name traits) := by
  intro s
  unfold derive
  rw [read_bind]
  cases entry : s.entryOf source with
  | none => exact refl s
  | some e =>
    by_cases primitive : e.form.isPrimitive = true
    · simp only [primitive, if_true]
      exact refl s
    · simp only [primitive]
      exact trans_of R (shared s e entry) (((Keeps.each fun trait _ => implement _ trait).bind fun _ =>
        keeps_pure _) _)

theorem setSize_edits (size : Option Expr) : Keeps (Edits methods fields t) (setSize t size) :=
  keeps_update fun _ => .single (.size size)

theorem Store.groups_modifyEntry (s : Store) (t : TypeRef) (f : Entry → Entry) :
    (s.modifyEntry t f).groups = s.groups := by
  cases t <;> rfl

theorem Store.entryOf_modifyEntry_self {s : Store} {e : Entry} (f : Entry → Entry)
    (entry : s.entryOf t = some e) : (s.modifyEntry t f).entryOf t = some (f e) := by
  obtain ⟨n, rfl, -⟩ := entryOf_eq_some entry
  show (s.entries.modify n f)[n]? = some (f e)
  rw [List.getElem?_modify_eq, show s.entries[n]? = some e from entry]
  rfl

/-- A store with one more field of a structure. -/
def Store.withField (s : Store) (t : TypeRef) (f : Field) : Store :=
  s.modifyMembers t fun ms => { ms with fields := ms.fields ++ [f] }

/-- A field is added to a structure that has none of its name. Where both have a size, the sizes are
added up first. -/
theorem addStructField_changes (t : TypeRef) (e : Entry) (f : Field) :
    AllOrNothing (fun s s' => (∀ g ∈ (s.members e).fields, g.name ≠ f.name) ∧
        ∃ size, s.sizeOf f.type = .ok size ∧
          ((e.size = none ∨ size = none) ∧ s' = s.withField t f ∨
            ∃ a x sum, e.size = some a ∧ size = some x ∧ addSizes a x = .ok sum ∧
              s' = (s.modifyEntry t fun e => { e with size := some sum }).withField t f))
      (addStructField t e f) := by
  intro s
  unfold addStructField
  rw [read_bind]
  by_cases taken : ((s.members e).fields.any (·.name = f.name)) = true
  · rw [if_pos taken]
    exact .inl ⟨_, rfl⟩
  · rw [if_neg taken]
    have fresh : ∀ g ∈ (s.members e).fields, g.name ≠ f.name := by
      intro g mem same
      exact taken (List.any_eq_true.mpr ⟨g, mem, by simp [same]⟩)
    refine settled_ask_bind fun size known => ?_
    rcases own : e.size, size with ⟨_ | a, _ | x⟩
    · exact .inr ⟨_, rfl, fresh, _, known, .inl ⟨.inl rfl, rfl⟩⟩
    · exact .inr ⟨_, rfl, fresh, _, known, .inl ⟨.inl rfl, rfl⟩⟩
    · exact .inr ⟨_, rfl, fresh, _, known, .inl ⟨.inr rfl, rfl⟩⟩
    · show Settled _ s ((ofExcept (addSizes a x) >>= fun sum => setSize t (some sum) >>= fun _ =>
        update (·.withField t f)) s)
      cases added : addSizes a x with
      | error fault => exact .inl ⟨fault, rfl⟩
      | ok sum => exact .inr ⟨_, rfl, fresh, _, known, .inr ⟨a, x, sum, rfl, rfl, added, rfl⟩⟩

theorem addField_eq_addStructField {s : Store} {e : Entry} (entry : s.entryOf t = some e)
    (struct : e.form = .struct) (f : Field) : addField t f s = addStructField t e f s := by
  unfold addField
  rw [read_bind]
  simp only [entry, struct]

/-- The size of a structure may change just before a field is added to it. -/
theorem addStructField_edits {s : Store} {e : Entry} {field : Field}
    (entry : s.entryOf t = some e) (struct : e.form = .struct) (allowed : field ∈ fields) :
    Edits methods fields t s (addStructField t e field s).2 := by
  obtain ⟨fault, outcome⟩ | ⟨s', outcome, fresh, size, -, changed⟩ :=
    addStructField_changes t e field s
  · rw [outcome]
  · rw [outcome]
    obtain ⟨-, rfl⟩ | ⟨a, x, sum, -, -, -, rfl⟩ := changed
    · exact .single (.field entry struct allowed fresh)
    · have resized : (s.modifyEntry t fun e => { e with size := some sum }).entryOf t
          = some { e with size := some sum } := Store.entryOf_modifyEntry_self _ entry
      refine .head (.size (some sum)) (.single (.field resized struct allowed ?_))
      show ∀ f ∈ (((s.modifyEntry t _).groups[e.group]?).getD {}).fields, _
      rw [Store.groups_modifyEntry]
      exact fresh

/-- A slot is added to a context that has none of that name. -/
theorem addSlot_changes (t : TypeRef) (name : String) (type : TypeRef) :
    AllOrNothing (fun s s' => ∃ e, s.entryOf t = some e ∧ e.form = .context ∧
        (s.members e).slots.lookup name = none ∧
        s' = s.modifyMembers t fun ms => { ms with slots := ms.slots ++ [(name, type)] })
      (addSlot t name type) := by
  intro s
  unfold addSlot
  rw [read_bind]
  cases entry : s.entryOf t with
  | none => exact .inl ⟨_, rfl⟩
  | some e =>
    cases form : e.form with
    | context =>
      simp only [form]
      rw [read_bind]
      by_cases taken : ((s.members e).slots.lookup name).isSome = true
      · rw [if_pos taken]
        exact .inl ⟨_, rfl⟩
      · rw [if_neg taken]
        exact .inr ⟨_, rfl, e, entry, form, Option.not_isSome_iff_eq_none.mp taken, rfl⟩
    | _ =>
      simp only [form]
      exact .inl ⟨_, rfl⟩

theorem addSlot_edits (name : String) (type : TypeRef) :
    Keeps (Edits methods fields t) (addSlot t name type) := by
  refine (addSlot_changes t name type).keeps ?_
  rintro s _ ⟨e, entry, context, fresh, rfl⟩
  exact .single (.slot type entry context fresh)

/-- What holds of the fields of structures and of slots holds of all fields. -/
theorem addField_keeps {R : Store → Store → Prop} [IsPreorder Store R] {field : Field}
    (struct : ∀ s e, s.entryOf t = some e → e.form = .struct → R s (addStructField t e field s).2)
    (slot : Keeps R (addSlot t field.name field.type)) : Keeps R (addField t field) := by
  intro s
  unfold addField
  rw [read_bind]
  cases entry : s.entryOf t with
  | none => exact refl s
  | some e =>
    cases form : e.form with
    | struct =>
      simp only [form]
      exact struct s e entry form
    | context =>
      simp only [form]
      exact slot s
    | _ =>
      simp only [form]
      exact refl s

theorem addField_edits {field : Field} (allowed : field ∈ fields) :
    Keeps (Edits methods fields t) (addField t field) :=
  addField_keeps (fun _ _ entry form => addStructField_edits entry form allowed)
    (addSlot_edits field.name field.type)

/-- Constraints and actions are added if they have the type that is asked for. -/
theorem addTyped_changes (wanted : TypeRef) (refuse : String → TypeFault)
    (add : Expr → Members → Members) (t : TypeRef) (x : Expr) :
    AllOrNothing (fun s s' => ∃ r, s.isStruct t = true ∧ s.resultType t x = .ok r ∧
        s.same r wanted = true ∧ s' = s.modifyMembers t (add x))
      (addTyped wanted refuse add t x) := by
  intro s
  unfold addTyped
  rw [read_bind]
  by_cases struct : (!s.isStruct t) = true
  · rw [if_pos struct]
    exact .inl ⟨_, rfl⟩
  · rw [if_neg struct]
    refine settled_ask_bind fun r result => ?_
    rw [read_bind]
    by_cases fits : (!s.same r wanted) = true
    · rw [if_pos fits]
      exact .inl ⟨_, rfl⟩
    · rw [if_neg fits]
      exact .inr ⟨_, rfl, r, by simpa using struct, result, by simpa using fits, rfl⟩

theorem addConstraint_edits (x : Expr) : Keeps (Edits methods fields t) (addConstraint t x) := by
  refine (addTyped_changes _ _ _ t x).keeps ?_
  rintro s _ ⟨r, struct, result, fits, rfl⟩
  exact .single (.constraint struct result fits)

theorem addAction_edits (x : Expr) : Keeps (Edits methods fields t) (addAction t x) := by
  refine (addTyped_changes _ _ _ t x).keeps ?_
  rintro s _ ⟨r, struct, result, fits, rfl⟩
  exact .single (.action struct result fits)

/-! ## New types -/

/-- Making a type: nothing happens, or a type of this form and name is added and then edited. -/
def Makes (methods : List String) (fields : List Field) (form : Form) (name : Option String)
    (make : Change TypeRef) : Prop :=
  ∀ s, (∃ fault, make s = (.error fault, s)) ∨
    ∃ given size result s', name = some given ∧ make s = (result, s') ∧
      Edits methods fields (.id s.entries.length) (s.push form given size) s' ∧
      ∀ t, result = .ok t → t = .id s.entries.length

theorem checkName_eq_ok {form : Form} {name : Option String} {given : String}
    (valid : checkName form name = .ok given) : name = some given := by
  cases name with
  | none => cases valid
  | some n =>
    simp only [checkName] at valid
    split at valid
    all_goals
      split at valid
      all_goals simp_all

/-- A type is added if its name is valid, and what follows works on it. -/
theorem makes_of_edits {form : Form} {name : Option String} {size : Option Expr}
    {rest : TypeRef → Change TypeRef} (edits : ∀ t, Keeps (Edits methods fields t) (rest t))
    (returns : ∀ t, Returns t (rest t)) :
    Makes methods fields form name (makeType form name size >>= rest) := by
  intro s
  cases valid : checkName form name with
  | error fault =>
    refine .inl ⟨fault, ?_⟩
    rw [makeType, bind_apply, bind_apply, valid]
    rfl
  | ok given =>
    have made : (makeType form name size >>= rest) s
        = rest (.id s.entries.length) (s.push form given size) := by
      rw [makeType, bind_apply, bind_apply, valid]
      rfl
    refine .inr ⟨given, size, _, _, checkName_eq_ok valid, made, edits _ _, ?_⟩
    intro t result
    exact returns _ _ t _ (Prod.ext result rfl)

theorem Makes.keeps {form : Form} {name : Option String} {make : Change TypeRef}
    (makes : Makes methods fields form name make) : Keeps Steps make := by
  intro s
  obtain ⟨fault, outcome⟩ | ⟨given, size, result, s', -, outcome, edits, -⟩ := makes s
  · rw [outcome]
  · rw [outcome]
    exact .head (.push form given size) edits.steps

theorem makeBitString_makes (name : Option String) (size : Option Expr) :
    Makes ["size", "get", "set", "eq", "ne", "to_number"] [] .bitString name
      (makeBitString name size) := by
  refine makes_of_edits (fun t => ?_) fun t => ?_
  · refine (implementTrait_edits _ _ (by decide)).bind fun _ => ?_
    refine (implementTrait_edits _ _ (by decide)).bind fun _ => ?_
    refine (implementTrait_edits _ _ (by decide)).bind fun _ => ?_
    exact (implementTrait_edits _ _ (by decide)).bind fun _ => keeps_pure t
  · exact .bind fun _ => .bind fun _ => .bind fun _ => .bind fun _ => returns_pure t

theorem makeOption_makes (name : Option String) (reference : TypeRef) :
    Makes ["size"] [] (.option reference) name (makeOption name reference) := by
  intro s
  cases known : s.sizeOf reference with
  | error fault =>
    refine .inl ⟨fault, ?_⟩
    rw [makeOption, bind_apply, ask, known]
  | ok size =>
    have made : makeOption name reference s
        = (makeType (.option reference) name size >>= fun t =>
            implementTrait t Trait.sized [] >>= fun _ => pure t) s := by
      rw [makeOption, bind_apply, ask, known]
    rw [made]
    refine makes_of_edits (fun t => ?_) (fun t => .bind fun _ => returns_pure t) s
    exact (implementTrait_edits _ _ (by decide)).bind fun _ => keeps_pure t

theorem makeArray_makes (name : Option String) (element : TypeRef) (length size : Option Expr) :
    Makes ["size", "eq", "ne", "get", "set", "length"] [] (.array element length) name
      (makeArray name element length size) := by
  refine makes_of_edits (fun t => ?_) fun t => ?_
  · refine (implementTrait_edits _ _ (by decide)).bind fun _ => ?_
    refine (implementTrait_edits _ _ (by decide)).bind fun _ => ?_
    refine (implementTrait_edits _ _ (by decide)).bind fun _ => ?_
    refine (setSize_edits size).bind fun _ => ?_
    cases length with
    | none => exact keeps_pure t
    | some length =>
      refine (keeps_ask _).bind fun elementSize => ?_
      cases elementSize with
      | none => exact keeps_pure t
      | some elementSize => exact (setSize_edits _).bind fun _ => keeps_pure t
  · refine .bind fun _ => .bind fun _ => .bind fun _ => .bind fun _ => ?_
    cases length with
    | none => exact returns_pure t
    | some length =>
      refine .bind fun elementSize => ?_
      cases elementSize with
      | none => exact returns_pure t
      | some elementSize => exact .bind fun _ => returns_pure t

theorem makeStruct_makes (name : Option String) (fields : List Field)
    (constraints actions : List Expr) :
    Makes ["size", "eq", "ne"] fields .struct name
      (makeStruct name fields constraints actions) := by
  refine makes_of_edits (fun t => ?_) fun t => ?_
  · refine (implementTrait_edits _ _ (by decide)).bind fun _ => ?_
    refine (setSize_edits _).bind fun _ => ?_
    refine (Keeps.each fun field mem => addField_edits mem).bind fun _ => ?_
    refine (Keeps.each fun x _ => addConstraint_edits x).bind fun _ => ?_
    refine (Keeps.each fun x _ => addAction_edits x).bind fun _ => ?_
    exact (implementTrait_edits _ _ (by decide)).bind fun _ => keeps_pure t
  · exact .bind fun _ => .bind fun _ => .bind fun _ => .bind fun _ => .bind fun _ =>
      .bind fun _ => returns_pure t

theorem makeEnum_makes (name : Option String) (variants : List TypeRef) :
    Makes ["size"] [] (.enum variants) name (makeEnum name variants) := by
  refine makes_of_edits (fun t => ?_) (fun t => .bind fun _ => returns_pure t)
  exact (implementTrait_edits _ _ (by decide)).bind fun _ => keeps_pure t

/-- Functions and contexts are made without traits. -/
theorem makeType_makes (form : Form) (name : Option String) (size : Option Expr) :
    Makes [] [] form name (makeType form name size) := by
  rw [← bind_pure (makeType form name size)]
  exact makes_of_edits (fun t => keeps_pure t) fun t => returns_pure t

/-! ## Operations -/

theorem keeps_steps (methods : List String) (fields : List Field) {α : Type} {x : Change α}
    (edits : Keeps (Edits methods fields t) x) : Keeps Steps x :=
  fun s => Edits.steps (edits s)

theorem implementTrait_steps (t : TypeRef) (trait : Trait) (vars : List (String × TypeRef)) :
    Keeps Steps (implementTrait t trait vars) :=
  keeps_steps (trait.methods.map (·.name)) [] <|
    implementTrait_edits trait vars fun _ mem => List.mem_map_of_mem mem

theorem setSize_steps (t : TypeRef) (size : Option Expr) : Keeps Steps (setSize t size) :=
  keeps_steps [] [] (setSize_edits size)

theorem addField_steps (t : TypeRef) (field : Field) : Keeps Steps (addField t field) :=
  keeps_steps [] [field] (addField_edits List.mem_cons_self)

theorem addSlot_steps (t : TypeRef) (name : String) (type : TypeRef) :
    Keeps Steps (addSlot t name type) :=
  keeps_steps [] [] (addSlot_edits name type)

theorem addConstraint_steps (t : TypeRef) (x : Expr) : Keeps Steps (addConstraint t x) :=
  keeps_steps [] [] (addConstraint_edits x)

theorem addAction_steps (t : TypeRef) (x : Expr) : Keeps Steps (addAction t x) :=
  keeps_steps [] [] (addAction_edits x)

/-- A type is registered under its name if the name is free. -/
theorem addType_changes (t : TypeRef) :
    AllOrNothing (fun s s' => ∃ name, s.name? t = some name ∧ s.hasType name = false ∧
        s' = { s with types := s.types ++ [(name, t)] })
      (addType t) := by
  intro s
  unfold addType
  rw [read_bind]
  cases named : s.name? t with
  | none => exact .inl ⟨_, rfl⟩
  | some name =>
    show Settled _ s ((read _ >>= _) s)
    rw [read_bind]
    by_cases taken : s.hasType name = true
    · rw [if_pos taken]
      exact .inl ⟨_, rfl⟩
    · rw [if_neg taken]
      exact .inr ⟨_, rfl, name, named, by simpa using taken, rfl⟩

theorem addType_steps (t : TypeRef) : Keeps Steps (addType t) := by
  refine (addType_changes t).keeps ?_
  rintro s _ ⟨name, named, free, rfl⟩
  exact .single (.register named free)

/-- A registered type becomes a packet if it can be sent. -/
theorem definePdu_changes (name : String) :
    AllOrNothing (fun s s' => ∃ t, s.getType name = .ok t ∧ s.isRepresentable t = true ∧
        s' = { s with pdus := s.pdus ++ [name] })
      (definePdu name) := by
  intro s
  unfold definePdu
  refine settled_ask_bind fun t registered => ?_
  rw [read_bind]
  by_cases representable : (!s.isRepresentable t) = true
  · rw [if_pos representable]
    exact .inl ⟨_, rfl⟩
  · rw [if_neg representable]
    exact .inr ⟨_, rfl, t, registered, by simpa using representable, rfl⟩

theorem definePdu_steps (name : String) : Keeps Steps (definePdu name) := by
  refine (definePdu_changes name).keeps ?_
  rintro s _ ⟨t, registered, representable, rfl⟩
  exact .single (.pdu registered representable)

/-- A protocol is named if it has no name yet. -/
theorem setProtocolName_changes (name : String) :
    AllOrNothing (fun s s' => s.protocolName = unnamed ∧
        s' = s.modifyEntry .protocol fun e => { e with name := some name })
      (setProtocolName name) := by
  intro s
  unfold setProtocolName
  rw [read_bind]
  by_cases taken : s.protocolName ≠ unnamed
  · rw [if_pos taken]
    exact .inl ⟨_, rfl⟩
  · rw [if_neg taken]
    exact .inr ⟨_, rfl, Decidable.not_not.mp taken, rfl⟩

theorem setProtocolName_steps (name : String) : Keeps Steps (setProtocolName name) := by
  refine (setProtocolName_changes name).keeps ?_
  rintro s _ ⟨first, rfl⟩
  exact .single (.rename name first)

/-- What completing the types of a protocol comes down to. -/
structure Completing (R : Store → Store → Prop) : Prop where
  option : ∀ name t, Keeps R (makeOption name t)
  size : ∀ s e total t sum, s.sumSizes e.shownName {} (s.members e).fields = .ok total →
    total.unsized = some t → total.sum = some sum → R s (s.modifyEntry t fun e =>
      { e with size := some (.method dataSizeExpr "minus" [("other", sum)]) })
  parseFrom : ∀ s t f, R s (s.modifyEntry t fun e => { e with parseFrom := some f })
  serialiseTo : ∀ s t f, R s (s.modifyEntry t fun e => { e with serialiseTo := some f })

namespace Completing

variable {R : Store → Store → Prop} [IsPreorder Store R] (completing : Completing R)

include completing

theorem keeps_conversion (name : String) (source : TypeRef) (wrapper : String)
    (target : TypeRef) : Keeps R (conversion name source wrapper target) :=
  (completing.option _ _).bind fun _ => (keeps_ofExcept _).bind fun _ => keeps_pure _

theorem keeps_completeFunctions (t : TypeRef) (e : Entry) : Keeps R (completeFunctions t e) := by
  have serialise : Keeps R (if e.serialiseTo.isNone then do
      let unit ← ask (·.getType "DataUnit")
      let f ← conversion ("serialise_from_" ++ Text.lowered e.shownName) t "STReturn" unit
      update (·.modifyEntry t fun e => { e with serialiseTo := some f })
      else pure () : Change Unit) := by
    refine keeps_guard ?_ (keeps_pure ())
    refine (keeps_ask _).bind fun unit => (completing.keeps_conversion _ _ _ _).bind fun f => ?_
    exact keeps_update fun s => completing.serialiseTo s t f
  refine keeps_guard ?_ serialise
  refine (keeps_ask _).bind fun unit => (completing.keeps_conversion _ _ _ _).bind fun f => ?_
  exact (keeps_update fun s => completing.parseFrom s t f).bind fun _ => serialise

theorem keeps_completeSizes (e : Entry) : Keeps R (completeSizes e) := by
  refine fun s => keeps_ask_bind fun total summed => ?_
  rcases total with ⟨_ | sum, _ | unsized⟩
  · exact refl_of R s
  · exact refl_of R s
  · exact refl_of R s
  · exact completing.size s e _ unsized sum summed rfl rfl

theorem keeps_completeType (t : TypeRef) : Keeps R (completeType t) := by
  refine (keeps_read _).bind fun entry => ?_
  cases entry with
  | none => exact keeps_pure ()
  | some e =>
    refine keeps_guard ((completing.keeps_completeFunctions t e).bind fun _ => ?_) (keeps_pure ())
    cases e.form with
    | struct => exact completing.keeps_completeSizes e
    | _ => exact keeps_pure ()

theorem keeps_synthesise : Keeps R synthesise :=
  (keeps_read _).bind fun _ => Keeps.each fun t _ => completing.keeps_completeType t

end Completing

theorem completing_steps : Completing Steps where
  option name t := (makeOption_makes name t).keeps
  size _ _ _ _ _ _ _ _ := .single (.edit [] [] (.size _))
  parseFrom _ _ f := .single (.edit [] [] (.parseFrom f))
  serialiseTo _ _ f := .single (.edit [] [] (.serialiseTo f))

theorem steps_initial : Steps .foundation .initial := by
  have made : Keeps Steps (makeBitString (some "DataUnit") (some dataSizeExpr) >>= addType) :=
    (makeBitString_makes _ _).keeps.bind addType_steps
  exact made .foundation

end PacketDraft.Protocol
