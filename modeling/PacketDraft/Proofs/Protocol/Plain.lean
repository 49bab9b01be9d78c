import PacketDraft.Proofs.Protocol.Completion

/-!
# Plain expressions

A protocol is built from expressions of a simple kind, and completing it makes no other ones. So if
the names in all expressions, and those of all fields, are of a kind, they stay so.
-/

namespace PacketDraft.Protocol

open Attempt List Store

variable {size : Option Expr} {name : Option String}

/-- A field of the structure at hand, or a field of such a field, with names of a kind. -/
inductive Access (N : String → Prop) : Expr → Prop
  | own {name : String} (named : N name) : Access N (.field .self name)
  | inner {name innerName : String} (named : N name) (named' : N innerName) :
      Access N (.field (.field .self name) innerName)

/-- An expression as building makes it: its constants are numbers or truth values, fields are asked
for their value or their size only, other methods have one argument, and its names are of a kind. -/
inductive Plain (N : String → Prop) : Expr → Prop
  | const {v : Literal} (type : TypeRef) (counts : v.int?.isSome = true) : Plain N (.const type v)
  | ctx {name : String} (context : TypeRef) (named : N name) : Plain N (.ctx name context)
  | value {target : Expr} (access : Access N target) : Plain N (.method target "to_number" [])
  | extent {target : Expr} (access : Access N target) : Plain N (.method target "size" [])
  | binary {target other : Expr} {method : String} (parameter : String)
      (operates : method ≠ "to_number") (plain : Plain N target) (plain' : Plain N other) :
      Plain N (.method target method [(parameter, other)])

variable {N : String → Prop}

theorem Plain.argument {target other : Expr} {method parameter : String}
    {more : List (String × Expr)}
    (plain : Plain N (.method target method ((parameter, other) :: more))) : Plain N other := by
  generalize same : Expr.method target method ((parameter, other) :: more) = x at plain
  cases plain with
  | binary _ _ _ plain' =>
    cases same
    exact plain'
  | _ => simp at same

/-- The sum of plain sizes is plain. -/
theorem Plain.addSizes {a b sum : Expr} (plain : Plain N a) (plain' : Plain N b)
    (added : addSizes a b = .ok sum) : Plain N sum := by
  unfold Protocol.addSizes at added
  split at added
  · next t x u y =>
    cases plain with
    | const _ counts =>
      cases plain' with
      | const _ counts' =>
        cases x <;> cases y <;> cases counts <;> cases counts' <;> cases added <;>
          exact .const _ rfl
  · cases added
    exact .binary _ (by decide) plain plain'

/-- The length of the values of a form that has one. -/
def Form.length? : Form → Option Expr
  | .array _ length => length
  | _ => none

/-- The expressions of a type are plain. -/
structure Entry.Spelled (N : String → Prop) (e : Entry) : Prop where
  size : ∀ x ∈ e.size, Plain N x
  length : ∀ x ∈ e.form.length?, Plain N x

/-- The expressions in the members of a type are plain, but for its actions, and its fields have names
of a kind. -/
structure Members.Spelled (N : String → Prop) (ms : Members) : Prop where
  fields : ∀ f ∈ ms.fields, N f.name ∧ Plain N f.presence
  slots : ∀ p ∈ ms.slots, N p.1
  constraints : ∀ x ∈ ms.constraints, Plain N x

/-- The expressions of all types are plain. -/
structure Store.Spelled (N : String → Prop) (s : Store) : Prop where
  entries : ∀ e ∈ s.entries, e.Spelled N
  groups : ∀ ms ∈ s.groups, ms.Spelled N

section Store

variable {s : Store} {t : TypeRef}

theorem forall_mem_modify {α : Type} {P : α → Prop} {xs : List α} {f : α → α}
    (own : ∀ x ∈ xs, P x) (keeps : ∀ x, P x → P (f x)) (n : Nat) : ∀ x ∈ xs.modify n f, P x := by
  induction xs generalizing n with
  | nil => simp
  | cons x xs ih =>
    rw [forall_mem_cons] at own
    cases n with
    | zero => exact forall_mem_cons.mpr ⟨keeps x own.1, own.2⟩
    | succ n => exact forall_mem_cons.mpr ⟨own.1, ih own.2 n⟩

namespace Store.Spelled

section

variable (spelled : s.Spelled N)

include spelled

theorem modifyEntry {f : Entry → Entry} (keeps : ∀ e, e.Spelled N → (f e).Spelled N) :
    (s.modifyEntry t f).Spelled N := by
  cases t with
  | id n => exact ⟨forall_mem_modify spelled.entries keeps n, spelled.groups⟩
  | _ => exact spelled

theorem modifyMembers {f : Members → Members} (keeps : ∀ ms, ms.Spelled N → (f ms).Spelled N) :
    (s.modifyMembers t f).Spelled N := by
  unfold Store.modifyMembers
  split
  · exact ⟨spelled.entries, forall_mem_modify spelled.groups keeps _⟩
  · exact spelled

theorem push {form : Form} {name : String} (plain : ∀ x ∈ size, Plain N x)
    (plain' : ∀ x ∈ form.length?, Plain N x) : (s.push form name size).Spelled N := by
  refine ⟨forall_mem_append.mpr ⟨spelled.entries, ?_⟩,
    forall_mem_append.mpr ⟨spelled.groups, ?_⟩⟩
  · exact forall_mem_singleton.mpr ⟨plain, plain'⟩
  · exact forall_mem_singleton.mpr ⟨by simp, by simp, by simp⟩

theorem entryOf {e : Entry} (entry : s.entryOf t = some e) : e.Spelled N := by
  obtain ⟨n, rfl, -⟩ := entryOf_eq_some entry
  exact spelled.entries e (mem_of_getElem? entry)

theorem sizeOf (known : s.sizeOf t = .ok size) : ∀ x ∈ size, Plain N x := by
  unfold Store.sizeOf at known
  split at known
  · next e entry =>
    split at known
    · cases known
      exact (spelled.entryOf entry).size
    · cases known
  · cases known

theorem members (e : Entry) : (s.members e).Spelled N := by
  unfold Store.members
  cases group : s.groups[e.group]? with
  | none => exact ⟨by simp, by simp, by simp⟩
  | some ms => exact spelled.groups ms (mem_of_getElem? group)

theorem sumSizes {owner : String} {total : SizeSum} {fields : List Field}
    (summed : s.sumSizes owner {} fields = .ok total) : ∀ x ∈ total.sum, Plain N x :=
  forall_sumSizes (fun plain plain' => plain.addSizes plain') (by simp)
    (fun _ _ _ known => spelled.sizeOf known) summed

end

end Store.Spelled

end Store

/-! ## What is done to types -/

section Changes

variable {t : TypeRef}

/-- The expressions of a protocol stay plain. -/
abbrev Spells (N : String → Prop) {α : Type} (x : Change α) : Prop :=
  Keeps (Keeping (Store.Spelled N)) x

theorem setSize_spells (plain : ∀ x ∈ size, Plain N x) : Spells N (setSize t size) :=
  keeps_update fun _ spelled => spelled.modifyEntry fun _ own => ⟨plain, own.length⟩

theorem implementTrait_spells (trait : Trait) (vars : List (String × TypeRef)) :
    Spells N (implementTrait t trait vars) :=
  implementTrait_keeps
    (fun _ _ _ _ _ spelled => spelled.modifyEntry fun _ own => ⟨own.size, own.length⟩)
    (fun _ spelled => spelled.modifyMembers fun _ own => ⟨own.fields, own.slots, own.constraints⟩) vars

theorem makeType_spells (form : Form) (plain : ∀ x ∈ size, Plain N x)
    (plain' : ∀ x ∈ form.length?, Plain N x) : Spells N (makeType form name size) := by
  refine (keeps_ofExcept _).bind fun given => (keeps_read _).bind fun n => ?_
  exact (keeps_update fun s spelled => spelled.push plain plain').bind fun _ => keeps_pure _

theorem addSlot_spells {name : String} (named : N name) (type : TypeRef) :
    Spells N (addSlot t name type) := by
  refine (addSlot_changes t name type).keeps ?_
  rintro s _ ⟨e, -, -, -, rfl⟩ spelled
  refine spelled.modifyMembers fun ms own => ⟨own.fields, ?_, own.constraints⟩
  exact forall_mem_append.mpr ⟨own.slots, forall_mem_singleton.mpr named⟩

theorem addStructField_spells {e : Entry} {field : Field} (sized : ∀ x ∈ e.size, Plain N x)
    (named : N field.name) (plain : Plain N field.presence) :
    Spells N (addStructField t e field) := by
  have add : ∀ s : Store, s.Spelled N → (s.withField t field).Spelled N := by
    refine fun s spelled => spelled.modifyMembers fun ms own => ?_
    refine ⟨forall_mem_append.mpr ⟨own.fields, ?_⟩, own.slots, own.constraints⟩
    exact forall_mem_singleton.mpr ⟨named, plain⟩
  refine (addStructField_changes t e field).keeps ?_
  rintro s _ ⟨-, size, known, ⟨-, rfl⟩ | ⟨a, x, sum, own, rfl, added, rfl⟩⟩ spelled
  · exact add s spelled
  · have total := (sized a own).addSizes (spelled.sizeOf known x rfl) added
    refine add _ (setSize_spells ?_ s spelled)
    rintro x ⟨⟩
    exact total

theorem addField_spells {field : Field} (named : N field.name) (plain : Plain N field.presence) :
    Spells N (addField t field) :=
  addField_keeps (fun s _ entry _ spelled =>
      addStructField_spells (spelled.entryOf entry).size named plain s spelled)
    (addSlot_spells named field.type)

theorem addConstraint_spells {x : Expr} (plain : Plain N x) : Spells N (addConstraint t x) := by
  refine (addTyped_changes _ _ _ t x).keeps ?_
  rintro s _ ⟨r, -, -, -, rfl⟩ spelled
  refine spelled.modifyMembers fun ms own => ⟨own.fields, own.slots, ?_⟩
  exact forall_mem_append.mpr ⟨own.constraints, forall_mem_singleton.mpr plain⟩

theorem addAction_spells (x : Expr) : Spells N (addAction t x) := by
  refine (addTyped_changes _ _ _ t x).keeps ?_
  rintro s _ ⟨r, -, -, -, rfl⟩ spelled
  exact spelled.modifyMembers fun ms own => ⟨own.fields, own.slots, own.constraints⟩

theorem makeBitString_spells (plain : ∀ x ∈ size, Plain N x) :
    Spells N (makeBitString name size) := by
  refine (makeType_spells _ plain (by simp [Form.length?])).bind fun t => ?_
  refine (implementTrait_spells _ _).bind fun _ => (implementTrait_spells _ _).bind fun _ => ?_
  refine (implementTrait_spells _ _).bind fun _ => (implementTrait_spells _ _).bind fun _ => ?_
  exact keeps_pure t

theorem makeOption_spells (name : Option String) (reference : TypeRef) :
    Spells N (makeOption name reference) := by
  refine fun s => keeps_ask_bind fun size known spelled => ?_
  refine ((makeType_spells _ (spelled.sizeOf known) (by simp [Form.length?])).bind
    fun t => ?_) s spelled
  exact (implementTrait_spells _ _).bind fun _ => keeps_pure t

theorem makeArray_spells {element : TypeRef} {length : Option Expr} (plain : ∀ x ∈ length, Plain N x)
    (plain' : ∀ x ∈ size, Plain N x) : Spells N (makeArray name element length size) := by
  refine (makeType_spells (.array element length) (by simp) plain).bind fun t => ?_
  refine (implementTrait_spells _ _).bind fun _ => (implementTrait_spells _ _).bind fun _ => ?_
  refine (implementTrait_spells _ _).bind fun _ => (setSize_spells plain').bind fun _ => ?_
  cases length with
  | none => exact keeps_pure t
  | some length =>
    refine fun s => keeps_ask_bind fun elementSize known spelled => ?_
    cases elementSize with
    | none => exact spelled
    | some elementSize =>
      refine ((setSize_spells ?_).bind fun _ => keeps_pure t) s spelled
      rintro x ⟨⟩
      exact .binary _ (by decide) (spelled.sizeOf known _ rfl) (plain length rfl)

theorem makeStruct_spells {fields : List Field} {constraints actions : List Expr}
    (named : ∀ f ∈ fields, N f.name ∧ Plain N f.presence) (plain : ∀ x ∈ constraints, Plain N x) :
    Spells N (makeStruct name fields constraints actions) := by
  refine (makeType_spells _ (by simp) (by simp [Form.length?])).bind fun t => ?_
  refine (implementTrait_spells _ _).bind fun _ => (setSize_spells ?_).bind fun _ => ?_
  · rintro x ⟨⟩
    exact .const _ rfl
  · refine (Keeps.each fun f mem => addField_spells (named f mem).1 (named f mem).2).bind fun _ => ?_
    refine (Keeps.each fun x mem => addConstraint_spells (plain x mem)).bind fun _ => ?_
    refine (Keeps.each fun x _ => addAction_spells x).bind fun _ => ?_
    exact (implementTrait_spells _ _).bind fun _ => keeps_pure t

theorem makeEnum_spells (name : Option String) (variants : List TypeRef) :
    Spells N (makeEnum name variants) := by
  refine (makeType_spells _ (by simp) (by simp [Form.length?])).bind fun t => ?_
  exact (implementTrait_spells _ _).bind fun _ => keeps_pure t

theorem makeFunction_spells (name : Option String) (parameters : List Parameter)
    (result : TypeRef) : Spells N (makeFunction name parameters result) :=
  makeType_spells _ (by simp) (by simp [Form.length?])

theorem addType_spells (t : TypeRef) : Spells N (addType t) := by
  refine (addType_changes t).keeps ?_
  rintro s _ ⟨name, -, -, rfl⟩ spelled
  exact ⟨spelled.entries, spelled.groups⟩

theorem definePdu_spells (name : String) : Spells N (definePdu name) := by
  refine (definePdu_changes name).keeps ?_
  rintro s _ ⟨t, -, -, rfl⟩ spelled
  exact ⟨spelled.entries, spelled.groups⟩

theorem setProtocolName_spells (name : String) : Spells N (setProtocolName name) := by
  refine (setProtocolName_changes name).keeps ?_
  rintro s _ ⟨-, rfl⟩ spelled
  exact spelled.modifyEntry fun e own => ⟨own.size, own.length⟩

theorem completing_spells (data : N dataSize) : Completing (Keeping (Store.Spelled N)) where
  option name t := makeOption_spells name t
  size s e total t sum summed _ known spelled := by
    refine spelled.modifyEntry fun e own => ⟨?_, own.length⟩
    rintro x ⟨⟩
    exact .binary _ (by decide) (.ctx _ data) (spelled.sumSizes summed sum known)
  parseFrom _ _ _ spelled := spelled.modifyEntry fun _ own => ⟨own.size, own.length⟩
  serialiseTo _ _ _ spelled := spelled.modifyEntry fun _ own => ⟨own.size, own.length⟩

/-- A new protocol has plain expressions. -/
theorem spelled_initial (data : N dataSize) : initial.Spelled N := by
  have foundation : foundation.Spelled N := by
    refine ⟨?_, ?_⟩
    · simp only [foundation, forall_mem_cons]
      refine ⟨⟨?_, ?_⟩, ⟨?_, ?_⟩, ⟨?_, ?_⟩, ⟨?_, ?_⟩, ⟨?_, ?_⟩, by simp⟩
      case refine_5 =>
        rintro x ⟨⟩
        exact .const _ rfl
      all_goals
        intro x mem
        cases mem
    · simp only [foundation, forall_mem_cons]
      refine ⟨⟨?_, ?_, ?_⟩, ⟨?_, ?_, ?_⟩, ⟨?_, ?_, ?_⟩, ⟨?_, ?_, ?_⟩, ⟨?_, ?_, ?_⟩, by simp⟩
      case refine_14 => exact forall_mem_singleton.mpr data
      all_goals simp
  have unit : ∀ x ∈ some dataSizeExpr, Plain N x := by
    rintro x ⟨⟩
    exact .ctx _ data
  have made : Spells N (makeBitString (some "DataUnit") (some dataSizeExpr) >>= addType) :=
    (makeBitString_spells unit).bind addType_spells
  exact made .foundation foundation

theorem synthesise_spells (data : N dataSize) : Spells N synthesise :=
  (completing_spells data).keeps_synthesise

end Changes

end PacketDraft.Protocol
