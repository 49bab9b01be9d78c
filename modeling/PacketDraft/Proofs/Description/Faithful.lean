import PacketDraft.Proofs.Description.Meaning
import PacketDraft.Proofs.Protocol.Growth

/-!
# What is built is what is described

Every registered type is one that is always there, one that is described, or one that belongs to a
field of a described structure; and its size is what its description says. This is shown for every
step of building. While a structure is built, constraints of its fields are taken back. So if a
structure came to be built within itself, it would be built from something else than its
description; but then it is registered too early, and the outer structure cannot be registered any
more.
-/

namespace PacketDraft.Description

open Protocol Build List Attempt Option Store

/-! ## Names -/

/-- The names of the types that are always there. -/
def reservedNames : List String :=
  ["Number", "Boolean", "Nothing", "Context", "DataUnit"]

/-- The unit of a field is the type under a name. -/
def FieldTitle.HasUnit (title : FieldTitle) (key : String) : Prop :=
  isPlainUnit title.units = false ∧ ∃ unit, title.units = some unit ∧ typeName unit = .ok key

namespace Tables

/-- Whether a type is described under a name. -/
def describes (t : Tables) (name : String) : Bool :=
  (t.structs.lookup name).isSome || (t.enums.lookup name).isSome
    || (t.functions.lookup name).isSome

/-- A field is described in the structure under a name. -/
def IsField (t : Tables) (struct : String) (f : FieldRow) : Prop :=
  ∃ row, t.structs.lookup struct = some row ∧ f ∈ row.fields.map (·.2)

/-- An enumeration is described under a name. -/
def IsEnum (t : Tables) (name : String) (variants : List String) : Prop :=
  t.structs.lookup name = none ∧ t.enums.lookup name = some variants

/-- A function is described under a name. -/
def IsFunction (t : Tables) (name : String) (signature : Sentence.Signature) : Prop :=
  t.structs.lookup name = none ∧ t.enums.lookup name = none ∧
    t.functions.lookup name = some signature

/-- The functions that an enumeration is converted by. -/
def converters (t : Tables) (name : String) : List String :=
  ((t.serialiseTo.lookup name).toList ++ (t.parseFrom.lookup name).toList).map (·.2)

/-- No described type has a reserved name, or the name of a type that belongs to a field. -/
structure Unambiguous (t : Tables) : Prop where
  reserved : ∀ name ∈ reservedNames, t.describes name = false
  members : ∀ struct f, t.IsField struct f →
    t.describes (memberTypeName struct f.title.fullLabel) = false

instance (t : Tables) : Decidable t.Unambiguous :=
  decidable_of_iff ((∀ name ∈ reservedNames, t.describes name = false) ∧
    ∀ p ∈ t.structs, ∀ row ∈ (t.structs.lookup p.1).toList, ∀ f ∈ row.fields.map (·.2),
      t.describes (memberTypeName p.1 f.title.fullLabel) = false) <| by
    constructor
    · rintro ⟨reserved, members⟩
      refine ⟨reserved, ?_⟩
      rintro struct f ⟨row, found, mem⟩
      exact members (struct, row) (mem_of_lookup found) row (mem_toList.mpr found) f
        mem
    · rintro ⟨reserved, members⟩
      exact ⟨reserved, fun p _ row found f mem =>
        members p.1 f ⟨row, mem_toList.mp found, mem⟩⟩

/-- The names that are asked for while the packets are built. -/
inductive Needs (t : Tables) : String → Prop
  | packet {name : String} (packet : name ∈ t.pdus.getD []) : Needs t name
  | unit {struct key : String} {f : FieldRow} (owner : Needs t struct)
      (field : t.IsField struct f) (unit : f.title.HasUnit key) : Needs t key
  | variant {enum name : String} {variants : List String} (owner : Needs t enum)
      (described : t.IsEnum enum variants) (variant : name ∈ variants) : Needs t name
  | converter {enum name : String} {variants : List String} (owner : Needs t enum)
      (described : t.IsEnum enum variants) (converter : name ∈ t.converters enum) : Needs t name
  | signature {function key type : String} {signature : Sentence.Signature}
      (owner : Needs t function) (described : t.IsFunction function signature)
      (part : type ∈ signature.parameters.map (·.2) ++ [signature.result])
      (named : typeName type = .ok key) : Needs t key

end Tables

/-! ## Types as described -/

/-- The type under a name, which is registered or primitive. -/
def Stands (s : Store) (name : String) (type : TypeRef) : Prop :=
  s.types.lookup name = some type ∨ primitive? name = some type

/-- A type that cannot be sent. -/
def Unsent (s : Store) (type : TypeRef) : Prop :=
  ∃ e, s.entryOf type = some e ∧ e.form.isRepresentable = false

/-- A type that belongs to a field: a number of bits, an array whose size may be stated, or several
values of a type. -/
inductive MemberType (t : Tables) (s : Store) (struct : String) (title : FieldTitle)
    (type : TypeRef) : Prop
  | plain {count : Option Expr} (plain : isPlainUnit title.units = true)
      (counted : t.meaning? struct title.size = .ok count)
      (size : s.sizeOf type = .ok (inBits title.units count))
  | array {key : String} {element : TypeRef} {constraint : Option Expr} (unit : title.HasUnit key)
      (array : title.isArray = true) (element : Stands s key element)
      (stated : t.meaning? struct title.constraint = .ok constraint)
      (size : s.sizeOf type = .ok (statedSize? title.fullLabel constraint))
  | repeated {key : String} {element : TypeRef} {count : Expr} {elementSize : Option Expr}
      (unit : title.HasUnit key) (single : title.isArray = false) (stands : Stands s key element)
      (counted : t.meaning? struct title.size = .ok (some count)) (several : isOne count = false)
      (known : s.sizeOf element = .ok elementSize)
      (size : s.sizeOf type = .ok (elementSize.map (severalSize count)))
      (part : element ∈ s.components type)

/-- The type of a field belongs to it or is the type that is its unit. -/
inductive FieldType (t : Tables) (s : Store) (struct : String) (title : FieldTitle)
    (type : TypeRef) : Prop
  | own (registered : s.types.lookup (memberTypeName struct title.fullLabel) = some type)
      (member : MemberType t s struct title type)
  | unit {key : String} {count : Option Expr} (unit : title.HasUnit key)
      (single : title.isArray = false) (stands : Stands s key type)
      (counted : t.meaning? struct title.size = .ok count)
      (alone : ∀ e, count = some e → isOne e = false → Unsent s type)

/-- The fields of a structure as described. -/
def Fields (t : Tables) (s : Store) (struct : String) : List FieldRow → List Field → Prop :=
  List.Forall₂ fun row f => f.name = row.title.fullLabel ∧ FieldType t s struct row.title f.type

/-- A type as described under its name, while some structures have been begun. -/
inductive AsDescribed (t : Tables) (s : Store) (begun : List String) (name : String)
    (type : TypeRef) : Prop
  | struct {row : StructRow} {sizes : List (Option Expr)} {sum : Expr} (needed : t.Needs name)
      (described : t.structs.lookup name = some row)
      (fields : Fields t s name (row.fields.map (·.2)) (s.fieldsOf type))
      (measured : s.Measured (s.fieldsOf type) sizes)
      (added : addUp (some (constantSize (.int 0))) (sizes.filterMap id) = .ok (some sum))
      (size : s.sizeOf type = .ok (some sum))
  | enum {variants : List String} (needed : t.Needs name) (described : t.IsEnum name variants)
      (parts : ∀ v ∈ variants, ∃ u, Stands s v u) (simple : s.fieldsOf type = [])
      (size : s.sizeOf type = .ok none)
  | function {signature : Sentence.Signature} (needed : t.Needs name)
      (described : t.IsFunction name signature)
      (parts : ∀ part ∈ signature.parameters.map (·.2) ++ [signature.result],
        ∃ key u, typeName part = .ok key ∧ Stands s key u)
      (simple : s.fieldsOf type = []) (unsent : Unsent s type)
  | member {struct : String} {f : FieldRow}
      (owner : struct ∈ begun ∨ (s.types.lookup struct).isSome = true)
      (field : t.IsField struct f)
      (named : name = memberTypeName struct f.title.fullLabel) (simple : s.fieldsOf type = [])
      (member : MemberType t s struct f.title type)

section

variable {begun : List String} {name : String} {s : Store} {t : Tables} {type : TypeRef}
  (described : AsDescribed t s begun name type)

include described

/-- A type has the name of its description, or belongs to a field. -/
theorem AsDescribed.name_cases :
    t.describes name = true ∨
      ∃ struct f, t.IsField struct f ∧ name = memberTypeName struct f.title.fullLabel := by
  cases described with
  | struct _ described => exact .inl (by simp [Tables.describes, described])
  | enum _ described => exact .inl (by simp [Tables.describes, described.2])
  | function _ described => exact .inl (by simp [Tables.describes, described.2.2])
  | member _ field named => exact .inr ⟨_, _, field, named⟩

theorem AsDescribed.rebegin {begun' : List String}
    (owners : ∀ struct ∈ begun, struct ∈ begun' ∨ (s.types.lookup struct).isSome = true) :
    AsDescribed t s begun' name type := by
  cases described with
  | struct needed described fields measured added size =>
    exact .struct needed described fields measured added size
  | enum needed described parts simple size => exact .enum needed described parts simple size
  | function needed described parts simple unsent =>
    exact .function needed described parts simple unsent
  | member owner field named simple member =>
    exact .member (owner.elim (owners _) .inr) field named simple member

end

theorem MemberType.sizeOf {t : Tables} {s : Store} {struct : String} {title : FieldTitle}
    {type : TypeRef} (member : MemberType t s struct title type) :
    ∃ size, s.sizeOf type = .ok size := by
  cases member with
  | plain _ _ size => exact ⟨_, size⟩
  | array _ _ _ _ size => exact ⟨_, size⟩
  | repeated _ _ _ _ _ _ size _ => exact ⟨_, size⟩

section Growth

variable {t : Tables} {s s' : Store} {begun : List String} {name struct key : String}
  {title : FieldTitle} {type : TypeRef} (grows : s.Grows s')

include grows

theorem Stands.mono (stands : Stands s key type) : Stands s' key type :=
  stands.imp_left grows.lookup

theorem Unsent.mono (unsent : Unsent s type) : Unsent s' type := by
  obtain ⟨e, entry, kept⟩ := unsent
  obtain ⟨e', entry', form, -⟩ := grows.entryOf type e entry
  exact ⟨e', entry', form ▸ kept⟩

theorem components_mono {part : TypeRef} {size : Option Expr} (known : s.sizeOf type = .ok size)
    (mem : part ∈ s.components type) : part ∈ s'.components type := by
  obtain ⟨e, entry, sent, -⟩ := sizeOf_eq_ok.mp known
  obtain ⟨e', entry', form, -, fields⟩ := grows.entryOf type e entry
  simp only [components, entry, entry', form, fields] at mem ⊢
  cases kind : e.form with
  | context => simp [kind, Form.isRepresentable] at sent
  | _ => simpa only [kind] using mem

theorem MemberType.mono (member : MemberType t s struct title type) :
    MemberType t s' struct title type := by
  cases member with
  | plain plain counted size => exact .plain plain counted (grows.sizeOf_ok size)
  | array unit array element stated size =>
    exact .array unit array (element.mono grows) stated (grows.sizeOf_ok size)
  | repeated unit single stands counted several known size part =>
    exact .repeated unit single (stands.mono grows) counted several (grows.sizeOf_ok known)
      (grows.sizeOf_ok size) (components_mono grows size part)

theorem FieldType.mono (field : FieldType t s struct title type) :
    FieldType t s' struct title type := by
  cases field with
  | own registered member => exact .own (grows.lookup registered) (member.mono grows)
  | unit unit single stands counted alone =>
    exact .unit unit single (stands.mono grows) counted fun e known several =>
      (alone e known several).mono grows

theorem Fields.mono {rows : List FieldRow} {fields : List Field}
    (described : Fields t s struct rows fields) : Fields t s' struct rows fields :=
  described.imp fun _ _ ⟨named, typed⟩ => ⟨named, typed.mono grows⟩

theorem AsDescribed.mono (described : AsDescribed t s begun name type) :
    AsDescribed t s' begun name type := by
  have kept : ∀ {size}, s.sizeOf type = .ok size → s'.fieldsOf type = s.fieldsOf type := by
    intro size known
    obtain ⟨e, entry, -⟩ := sizeOf_eq_ok.mp known
    exact grows.fieldsOf entry
  cases described with
  | struct needed described fields measured added size =>
    rw [← kept size] at fields measured
    exact .struct needed described (fields.mono grows)
      (measured.imp fun _ _ => grows.sizeOf_ok) added (grows.sizeOf_ok size)
  | enum needed described parts simple size =>
    refine .enum needed described (fun v mem => ?_) ((kept size).trans simple)
      (grows.sizeOf_ok size)
    obtain ⟨u, stands⟩ := parts v mem
    exact ⟨u, stands.mono grows⟩
  | function needed described parts simple unsent =>
    obtain ⟨e, entry, -⟩ := id unsent
    refine .function needed described (fun part mem => ?_) ((grows.fieldsOf entry).trans simple)
      (unsent.mono grows)
    obtain ⟨key, u, named, stands⟩ := parts part mem
    exact ⟨key, u, named, stands.mono grows⟩
  | member owner field named simple member =>
    refine .member (owner.imp_right fun registered => ?_) field named ?_
      (member.mono grows)
    · obtain ⟨u, found⟩ := isSome_iff_exists.mp registered
      rw [grows.lookup found]
      rfl
    · obtain ⟨size, known⟩ := member.sizeOf
      exact (kept known).trans simple

end Growth

/-! ## Faithful protocols -/

/-- Everything in the protocol is as described, while some structures have been begun and the
functions that convert some enumerations are still to be built. -/
structure Faithful (t : Tables) (begun converting : List String) (w : Workshop) : Prop where
  regular : w.store.Regular
  start : initial.Grows w.store
  known : ∀ p ∈ w.store.types, ∃ e, w.store.entryOf p.2 = some e
  enums : w.tables.enums = t.enums
  functions : w.tables.functions = t.functions
  serialiseTo : w.tables.serialiseTo = t.serialiseTo
  parseFrom : w.tables.parseFrom = t.parseFrom
  alike : w.tables.Alike t
  whole : ∀ name, name ∉ begun → w.store.types.lookup name = none →
    w.tables.structs.lookup name = t.structs.lookup name
  types : ∀ p ∈ w.store.types, p ∈ initial.types ∨ AsDescribed t w.store begun p.1 p.2
  converted : ∀ name variants, t.IsEnum name variants →
    (w.store.types.lookup name).isSome = true → name ∉ converting →
    ∀ f ∈ t.converters name, ∃ u, Stands w.store f u

/-- The names of the types of fields have a low line. -/
theorem memberTypeName_ne {name : String} (plain : '_' ∉ name.toList) (struct label : String) :
    memberTypeName struct label ≠ name := by
  rintro rfl
  exact plain (by simp [memberTypeName])

namespace Faithful

variable {t : Tables} {begun converting : List String} {w w' : Workshop}

/-- A protocol stays faithful while types are registered as described. -/
theorem grow (faithful : Faithful t begun converting w) (grows : w.store.Grows w'.store)
    (regular : w'.store.Regular) (tables : w'.tables = w.tables)
    (new : ∀ p ∈ w'.store.types, p ∈ w.store.types ∨ (∃ e, w'.store.entryOf p.2 = some e) ∧
      AsDescribed t w'.store begun p.1 p.2 ∧ ∀ variants, t.IsEnum p.1 variants → p.1 ∈ converting) :
    Faithful t begun converting w' where
  regular := regular
  start := faithful.start.trans grows
  known p mem := by
    rcases new p mem with old | ⟨known, -⟩
    · obtain ⟨e, entry⟩ := faithful.known p old
      obtain ⟨e', entry', -⟩ := grows.entryOf p.2 e entry
      exact ⟨e', entry'⟩
    · exact known
  enums := tables ▸ faithful.enums
  functions := tables ▸ faithful.functions
  serialiseTo := tables ▸ faithful.serialiseTo
  parseFrom := tables ▸ faithful.parseFrom
  alike := tables ▸ faithful.alike
  whole name other free := by
    rw [tables]
    refine faithful.whole name other ?_
    cases found : w.store.types.lookup name with
    | none => rfl
    | some u =>
      rw [grows.lookup found] at free
      cases free
  types p mem := by
    rcases new p mem with old | ⟨-, described, -⟩
    · exact (faithful.types p old).imp_right fun described => described.mono grows
    · exact .inr described
  converted name variants enum registered other f mem := by
    obtain ⟨u, found⟩ := isSome_iff_exists.mp registered
    rcases new (name, u) (mem_of_lookup found) with old | ⟨-, -, later⟩
    · obtain ⟨v, stands⟩ := faithful.converted name variants enum
        (isSome_lookup_iff.mpr (mem_map_of_mem old)) other f mem
      exact ⟨v, stands.mono grows⟩
    · exact absurd (later variants enum) other

/-- More structures may have been begun. -/
theorem begin (faithful : Faithful t begun converting w) (name : String) :
    Faithful t (name :: begun) converting w :=
  { faithful with
    whole := fun other free => faithful.whole other fun mem => free (mem_cons_of_mem name mem)
    types := fun p mem => (faithful.types p mem).imp_right fun described =>
      described.rebegin fun _ owner => .inl (mem_cons_of_mem name owner) }

/-- A structure that is registered need not count as begun any more. -/
theorem finish {name : String} (faithful : Faithful t (name :: begun) converting w)
    (registered : (w.store.types.lookup name).isSome = true) : Faithful t begun converting w :=
  { faithful with
    whole := fun other new free => faithful.whole other (by
      rintro (_ | ⟨_, old⟩)
      · simp [free] at registered
      · exact new old) free
    types := fun p mem => (faithful.types p mem).imp_right fun described =>
      described.rebegin fun owner begun => (mem_cons.mp begun).symm.imp_right fun same => by
        rw [same]
        exact registered }

/-- No type is registered under the name of a primitive one. -/
theorem lookup_primitive (faithful : Faithful t begun converting w) (unambiguous : t.Unambiguous)
    {name : String} {u : TypeRef} (primitive : primitive? name = some u) :
    w.store.types.lookup name = none := by
  have facts : name ∈ reservedNames ∧ name ∉ initial.types.map (·.1) ∧
      '_' ∉ name.toList := by
    unfold primitive? at primitive
    split at primitive
    · exact (by decide)
    · exact (by decide)
    · exact (by decide)
    · cases primitive
  obtain ⟨reserved, other, plain⟩ := facts
  cases found : w.store.types.lookup name with
  | none => rfl
  | some v =>
    rcases faithful.types (name, v) (mem_of_lookup found) with initial | described
    · exact absurd (mem_map_of_mem initial) other
    · rcases described.name_cases with described | ⟨struct, f, -, named⟩
      · rw [unambiguous.reserved name reserved] at described
        cases described
      · exact absurd named.symm (memberTypeName_ne plain struct _)

end Faithful

/-! ## Steps of building -/

/-- No structure that was begun is registered yet. -/
def Untouched (begun : List String) (s : Store) : Prop :=
  ∀ name ∈ begun, s.types.lookup name = none

theorem Untouched.of_prefix {begun : List String} {s s' : Store}
    (untouched : Untouched begun s') (types : s.types <+: s'.types) : Untouched begun s := by
  intro name mem
  cases found : s.types.lookup name with
  | none => rfl
  | some u =>
    rw [← untouched name mem, lookup_of_isPrefix types found]

/-- Where a step of building succeeds, more types may be registered; and a faithful protocol is left
faithful, unless a structure that was begun has been registered. -/
def Builds (t : Tables) (begun converting : List String) {α : Type} (P : Store → Prop)
    (x : Build α) (Q : α → Store → Prop) : Prop :=
  ∀ w a w', x w = (.ok a, w') → w.store.types <+: w'.store.types ∧
    (Faithful t begun converting w → P w.store → Untouched begun w'.store →
      w.store.Grows w'.store ∧ Faithful t begun converting w' ∧ Q a w'.store)

/-- What is true of a store stays true when it grows. -/
def Lasting (P : Store → Prop) : Prop :=
  ∀ s s' : Store, s.Grows s' → P s → P s'

theorem lasting_const (c : Prop) : Lasting fun _ => c :=
  fun _ _ _ => id

theorem Lasting.and {P Q : Store → Prop} (first : Lasting P) (second : Lasting Q) :
    Lasting fun s => P s ∧ Q s :=
  fun s s' grows both => ⟨first s s' grows both.1, second s s' grows both.2⟩

section Rules

variable {t : Tables} {begun converting : List String} {α β : Type} {P P' : Store → Prop}
  {Q Q' : α → Store → Prop} {R : β → Store → Prop}

theorem builds_pure {a : α} (holds : ∀ s, P s → Q a s) :
    Builds t begun converting P (pure a) Q := by
  intro w b w' outcome
  obtain ⟨rfl, rfl⟩ := pure_eq_ok.mp outcome
  exact ⟨prefix_rfl, fun faithful before _ => ⟨.refl _, faithful, holds _ before⟩⟩

theorem builds_ask {f : Workshop → Except Fault α}
    (holds : ∀ w a, Faithful t begun converting w → P w.store → f w = .ok a → Q a w.store) :
    Builds t begun converting P (ask f) Q := by
  intro w a w' outcome
  obtain ⟨answer, rfl⟩ := ask_eq_ok.mp outcome
  exact ⟨prefix_rfl, fun faithful before _ =>
    ⟨.refl _, faithful, holds w a faithful before answer⟩⟩

theorem builds_read {f : Workshop → α}
    (holds : ∀ w, Faithful t begun converting w → P w.store → Q (f w) w.store) :
    Builds t begun converting P (read f) Q :=
  builds_ask fun w a faithful before answer => by
    cases answer
    exact holds w faithful before

theorem builds_ofExcept {x : Except Fault α} (holds : ∀ a s, x = .ok a → P s → Q a s) :
    Builds t begun converting P (ofExcept x) Q :=
  builds_ask fun w a _ before answer => holds a w.store answer before

theorem builds_fail (e : Fault) : Builds t begun converting P (fail e : Build α) Q :=
  fun _ _ _ outcome => absurd outcome fail_ne_ok

theorem Builds.bind {x : Build α} {f : α → Build β} (first : Builds t begun converting P x Q)
    (rest : ∀ a, Builds t begun converting (Q a) (f a) R) :
    Builds t begun converting P (x >>= f) R := by
  intro w b w' outcome
  obtain ⟨a, u, start, last⟩ := bind_eq_ok.mp outcome
  obtain ⟨more, holds⟩ := first w a u start
  obtain ⟨more', holds'⟩ := rest a u b w' last
  refine ⟨more.trans more', fun faithful before untouched => ?_⟩
  obtain ⟨grows, faithful, between⟩ := holds faithful before (untouched.of_prefix more')
  obtain ⟨grows', faithful, after⟩ := holds' faithful between untouched
  exact ⟨grows.trans grows', faithful, after⟩

theorem Builds.imp {x : Build α} (builds : Builds t begun converting P x Q)
    (before : ∀ s, P' s → P s)
    (after : ∀ a w, Faithful t begun converting w → Q a w.store → Q' a w.store) :
    Builds t begun converting P' x Q' := by
  intro w a w' outcome
  obtain ⟨more, holds⟩ := builds w a w' outcome
  refine ⟨more, fun faithful given untouched => ?_⟩
  obtain ⟨grows, faithful, result⟩ := holds faithful (before _ given) untouched
  exact ⟨grows, faithful, after a w' faithful result⟩

/-- What lasts is still known after a step. -/
theorem Builds.keep {x : Build α} (builds : Builds t begun converting P x Q)
    (lasting : Lasting P') (before : ∀ s, P' s → P s) :
    Builds t begun converting P' x fun a s => P' s ∧ Q a s := by
  intro w a w' outcome
  obtain ⟨more, holds⟩ := builds w a w' outcome
  refine ⟨more, fun faithful given untouched => ?_⟩
  obtain ⟨grows, faithful, result⟩ := holds faithful (before _ given) untouched
  exact ⟨grows, faithful, lasting _ _ grows given, result⟩

theorem Builds.andThen {x : Build α} {f : α → Build β} (first : Builds t begun converting P x Q)
    (lasting : Lasting P') (before : ∀ s, P' s → P s)
    (rest : ∀ a, Builds t begun converting (fun s => P' s ∧ Q a s) (f a) R) :
    Builds t begun converting P' (x >>= f) R :=
  (first.keep lasting before).bind rest

theorem Builds.skip {x : Build α} {f : α → Build β} (first : Builds t begun converting P x Q)
    (lasting : Lasting P') (before : ∀ s, P' s → P s)
    (rest : ∀ a, Builds t begun converting P' (f a) R) :
    Builds t begun converting P' (x >>= f) R :=
  first.andThen lasting before fun a => (rest a).imp (fun _ both => both.1) fun _ _ _ => id

theorem builds_ite {c : Prop} [Decidable c] {x y : Build α}
    (yes : c → Builds t begun converting P x Q) (no : ¬ c → Builds t begun converting P y Q) :
    Builds t begun converting P (if c then x else y) Q := by
  split
  · next holds => exact yes holds
  · next fails => exact no fails

end Rules

/-! ## Registering -/

theorem step_types {s s' : Store} (step : Step s s') : s.types <+: s'.types := by
  cases step with
  | push => exact prefix_rfl
  | edit methods fields edit =>
    obtain ⟨f, rfl, -⟩ | ⟨f, rfl, -⟩ := edit_cases edit
    · exact types_modifyEntry s _ f ▸ prefix_rfl
    · exact types_modifyMembers s _ f ▸ prefix_rfl
  | register => exact prefix_append ..
  | pdu => exact prefix_rfl
  | rename => exact prefix_rfl

theorem steps_types {s s' : Store} (steps : Steps s s') : s.types <+: s'.types := by
  induction steps with
  | refl => exact prefix_rfl
  | tail _ step ih => exact ih.trans (step_types step)

theorem change_tables {α : Type} {c : Change α} {w w' : Workshop} {r : Except Fault α}
    (outcome : change c w = (r, w')) : w'.tables = w.tables := by
  cases result : c w.store with
  | mk r' store =>
    simp only [change, result, Prod.mk.injEq] at outcome
    rw [← outcome.2]

/-- A change of the protocol that leaves all types as they are. -/
theorem builds_change {t : Tables} {begun converting : List String} {α : Type} {P : Store → Prop}
    {c : Change α} (grows : Attempt.Keeps Store.Grows c) (steps : Attempt.Keeps Steps c)
    (types : ∀ s a s', c s = (.ok a, s') → s'.types = s.types) :
    Builds t begun converting P (change c) fun _ _ => True := by
  intro w a w' outcome
  have changed := change_eq_ok outcome
  refine ⟨steps_types (steps.of_eq changed), fun faithful _ _ => ?_⟩
  have later := grows.of_eq changed
  refine ⟨later, ?_, trivial⟩
  refine faithful.grow later (faithful.regular.steps (steps.of_eq changed)).2
    (change_tables outcome) fun p mem => .inl ?_
  exact types _ _ _ changed ▸ mem

section Registering

variable {methods : List String} {fields : List Field} {form : Form} {name : String}
  {make : Change TypeRef} {w w' : Workshop} {type : TypeRef}

theorem register_types (makes : Makes methods fields form (some name) make)
    (outcome : register make w = (.ok type, w')) : w.store.types <+: w'.store.types := by
  obtain ⟨s, made, added⟩ := register_eq_ok outcome
  exact steps_types ((makes.keeps.of_eq made).trans ((addType_steps type).of_eq added))

/-- What it means that a type is made and registered. -/
structure Registers (make : Change TypeRef) (name : String) (w : Workshop) (type : TypeRef)
    (w' : Workshop) (s : Store) : Prop where
  made : make w.store = (.ok type, s)
  before : w.store.Grows s
  after : s.Grows w'.store
  regular : w'.store.Regular
  tables : w'.tables = w.tables
  free : w.store.types.lookup name = none
  types : w'.store.types = w.store.types ++ [(name, type)]
  lookup : w'.store.types.lookup name = some type

theorem Registers.grows {s : Store} (registers : Registers make name w type w' s) :
    w.store.Grows w'.store :=
  registers.before.trans registers.after

theorem register_free (makes : Makes methods fields form (some name) make)
    (outcome : register make w = (.ok type, w')) : w.store.types.lookup name = none := by
  obtain ⟨s, e, ms, -, new, -, free, -⟩ := register_made makes outcome
  rw [← new.types]
  simpa [hasType] using free

theorem register_lookup (makes : Makes methods fields form (some name) make)
    (outcome : register make w = (.ok type, w')) : w'.store.types.lookup name = some type := by
  obtain ⟨s, e, ms, -, new, -, -, after⟩ := register_made makes outcome
  rw [after, lookup_append, new.types, register_free makes outcome]
  simp

theorem register_registers (makes : Makes methods fields form (some name) make)
    (regular : w.store.Regular) (outcome : register make w = (.ok type, w')) :
    ∃ s, Registers make name w type w' s := by
  obtain ⟨s₁, made, added⟩ := register_eq_ok outcome
  have regular' := (regular.steps ((makes.keeps.of_eq made).trans
    ((addType_steps type).of_eq added))).2
  obtain ⟨s, e, ms, result, new, -, -, after⟩ := register_made makes outcome
  refine ⟨s, result, new.grows regular, ?_, regular', change_tables outcome,
    register_free makes outcome, by rw [after, new.types], register_lookup makes outcome⟩
  rw [after]
  exact ⟨prefix_append .., fun _ e entry => ⟨e, entry, rfl, rfl, rfl⟩⟩

/-- A protocol stays faithful when a type is registered as described. -/
theorem Faithful.register {t : Tables} {begun converting : List String} {s : Store}
    (faithful : Faithful t begun converting w) (registers : Registers make name w type w' s)
    (entry : ∃ e, s.entryOf type = some e) (described : AsDescribed t w'.store begun name type)
    (later : ∀ variants, t.IsEnum name variants → name ∈ converting) :
    Faithful t begun converting w' := by
  refine faithful.grow registers.grows registers.regular registers.tables fun p mem => ?_
  rw [registers.types] at mem
  rcases mem_append.mp mem with old | new
  · exact .inl old
  · cases mem_singleton.mp new
    obtain ⟨e, entry⟩ := entry
    obtain ⟨e', entry', -⟩ := registers.after.entryOf type e entry
    exact .inr ⟨⟨e', entry'⟩, described, later⟩

/-- A type that is made as described is registered. -/
theorem builds_register {t : Tables} {begun converting : List String} {P : Store → Prop}
    {Q : TypeRef → Store → Prop} (makes : Makes methods fields form (some name) make)
    (lasting : ∀ type, Lasting (Q type))
    (described : ∀ w type s, Faithful t begun converting w → P w.store → w.store.Grows s →
      w.store.types.lookup name = none → make w.store = (.ok type, s) →
      (∃ e, s.entryOf type = some e) ∧ AsDescribed t s begun name type ∧ Q type s)
    (later : ∀ s, P s → ∀ variants, t.IsEnum name variants → name ∈ converting) :
    Builds t begun converting P (register make) fun type s =>
      s.types.lookup name = some type ∧ Q type s := by
  intro w type w' outcome
  refine ⟨register_types makes outcome, fun faithful before _ => ?_⟩
  obtain ⟨s, registers⟩ := register_registers makes faithful.regular outcome
  obtain ⟨entry, own, holds⟩ :=
    described w type s faithful before registers.before registers.free registers.made
  refine ⟨registers.grows, ?_, registers.lookup, lasting type _ _ registers.after holds⟩
  exact faithful.register registers entry (own.mono registers.after) (later _ before)

end Registering

end PacketDraft.Description
