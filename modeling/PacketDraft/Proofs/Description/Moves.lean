import PacketDraft.Proofs.Description.Faithful
import PacketDraft.Proofs.Description.Spelling
import PacketDraft.Proofs.Protocol.Plain

/-!
# The moves of building

Whatever a description is like, its types are built by few kinds of moves: the constraint of a field
is taken back, a field is added to the context, a type is made and registered, a packet is defined, or
the protocol gets its name. A type that is registered belongs to a field of a described structure, or
it is described itself. `Move` says what one move can do, with the names that the expressions in it
may have; whole protocols are built by moves alone, so that what every move preserves holds of all of
them.
-/

namespace PacketDraft.Protocol

/-! ## The data unit -/

/-- The data unit is there, and stands under its own name alone. -/
structure Store.Anchored (s : Store) : Prop where
  regular : s.Regular
  unit : ∃ e, s.entryOf .dataUnit = some e ∧ e.name = some "DataUnit" ∧ e.form ≠ .protocol
  alone : ∀ name, (name, TypeRef.dataUnit) ∈ s.types → name = "DataUnit"

namespace Store.Anchored

variable {s s' : Store}

theorem step (anchored : s.Anchored) (step : Step s s') : s'.Anchored := by
  obtain ⟨later, regular⟩ := anchored.regular.step step
  obtain ⟨e, entry, named, other⟩ := anchored.unit
  refine ⟨regular, ?_, ?_⟩
  · obtain ⟨e', entry', own⟩ := later.entries 5 e entry
    exact ⟨e', entry', (own.name.resolve_left other).trans named, own.form ▸ other⟩
  · have same : s'.types = s.types → ∀ name, (name, TypeRef.dataUnit) ∈ s'.types →
        name = "DataUnit" := fun types => types ▸ anchored.alone
    cases step with
    | push | pdu => exact same rfl
    | rename => exact same (Store.types_modifyEntry _ _ _)
    | edit methods fields edit =>
      obtain ⟨f, rfl, -⟩ | ⟨f, rfl, -⟩ := Store.edit_cases edit
      · exact same (Store.types_modifyEntry _ _ _)
      · exact same (Store.types_modifyMembers _ _ _)
    | register called =>
      intro name mem
      rcases List.mem_append.mp mem with old | new
      · exact anchored.alone name old
      · cases List.mem_singleton.mp new
        rw [show s.name? .dataUnit = (s.entryOf .dataUnit).bind (·.name) from rfl, entry,
          Option.bind_some, named] at called
        exact (Option.some.inj called).symm

theorem steps (anchored : s.Anchored) (steps : Steps s s') : s'.Anchored := by
  induction steps with
  | refl => exact anchored
  | tail _ step ih => exact ih.step step

/-- A type that is made now is another one. -/
theorem new_ne (anchored : s.Anchored) : TypeRef.id s.entries.length ≠ .dataUnit := by
  obtain ⟨e, entry, -⟩ := anchored.unit
  have bound : 5 < s.entries.length := (List.getElem?_eq_some_iff.mp entry).1
  rw [TypeRef.dataUnit, ne_eq, TypeRef.id.injEq]
  omega

end Store.Anchored

end PacketDraft.Protocol

namespace PacketDraft.Description

open Protocol Build Attempt

/-! ## Names in expressions -/

/-- The names of the fields in a formula are of a kind. -/
def Formula.Spells (N : String → Prop) : Formula → Prop
  | .number _ => True
  | .field label => N (fieldName label)
  | .sizeOf label => N (fieldName label)
  | .member label inner => N (fieldName label) ∧ N (fieldName inner)
  | .binary _ left right => left.Spells N ∧ right.Spells N

/-- The names in the description of a field are of a kind. -/
structure FieldRow.Spells (N : String → Prop) (f : FieldRow) : Prop where
  size : ∀ formula ∈ f.title.size, formula.Spells N
  constraint : ∀ formula ∈ f.title.constraint, formula.Spells N
  presence : ∀ formula ∈ f.title.presence, formula.Spells N
  stored : ∀ action ∈ f.stored, action.1.Spells N ∧ N (fieldName action.2)

/-- The labels of the fields of a structure, in order. -/
def StructRow.labels (row : StructRow) : List String :=
  row.fields.map (·.2.title.fullLabel)

/-- The names in the description of a structure are of a kind. -/
structure StructRow.Spells (N : String → Prop) (row : StructRow) : Prop where
  aliases : ∀ p ∈ row.aliases, N p.2
  fields : ∀ p ∈ row.fields, p.2.Spells N

theorem labels_withoutConstraint (label : String) (row : StructRow) :
    (Tables.withoutConstraint label row).labels = row.labels := by
  rw [StructRow.labels, Tables.withoutConstraint, List.map_map]
  refine List.map_congr_left fun p _ => ?_
  by_cases own : p.1 = label <;> simp [own]

namespace Tables

/-- A structure with a field of this label is described. -/
def HasLabel (t : Tables) (struct label : String) : Prop :=
  ∃ row, t.structs.lookup struct = some row ∧ label ∈ row.labels

/-- `u` declares what `t` declares, but for constraints that were taken back, and its names are of a
kind. -/
structure Trims (N : String → Prop) (t u : Tables) : Prop where
  labels : ∀ name, (u.structs.lookup name).map StructRow.labels
    = (t.structs.lookup name).map StructRow.labels
  enums : u.enums = t.enums
  functions : u.functions = t.functions
  pdus : u.pdus = t.pdus
  whole : N "SelfExpression()"
  spells : ∀ name row, u.structs.lookup name = some row → row.Spells N

namespace Trims

variable {N : String → Prop} {t u : Tables} {struct label name : String}

theorem dropConstraint (trims : t.Trims N u) (struct label : String) :
    t.Trims N (u.dropConstraint struct label) where
  labels name := by
    rw [← trims.labels name, lookup_dropConstraint, Option.map_map]
    refine congrArg (Option.map · _) (funext fun row => ?_)
    by_cases own : name = struct <;> simp [own, labels_withoutConstraint]
  enums := trims.enums
  functions := trims.functions
  pdus := trims.pdus
  whole := trims.whole
  spells name row found := by
    rw [lookup_dropConstraint] at found
    obtain ⟨old, known, rfl⟩ := Option.map_eq_some_iff.mp found
    have spells := trims.spells name old known
    by_cases own : name = struct
    · rw [if_pos own]
      refine ⟨spells.aliases, fun p mem => ?_⟩
      obtain ⟨q, old, rfl⟩ := List.mem_map.mp mem
      have field := spells.fields q old
      by_cases here : q.1 = label
      · simp only [if_pos here]
        exact { field with constraint := by simp }
      · simp only [if_neg here]
        exact field
    · rw [if_neg own]
      exact spells

theorem exists_row (trims : t.Trims N u) {row : StructRow}
    (found : u.structs.lookup name = some row) :
    ∃ own, t.structs.lookup name = some own ∧ own.labels = row.labels := by
  have same := trims.labels name
  rw [found, Option.map_some, eq_comm] at same
  exact Option.map_eq_some_iff.mp same

theorem lookup_none (trims : t.Trims N u) (free : u.structs.lookup name = none) :
    t.structs.lookup name = none := by
  have same := trims.labels name
  rw [free, Option.map_none, eq_comm] at same
  exact Option.map_eq_none_iff.mp same

theorem resolveLabel (trims : t.Trims N u) (spelled : N (fieldName label))
    (resolved : u.resolveLabel struct label = .ok name) : N name := by
  unfold Tables.resolveLabel at resolved
  split at resolved
  · cases resolved
    exact trims.whole
  · unfold getStruct at resolved
    cases found : u.structs.lookup struct with
    | none =>
      rw [found] at resolved
      cases resolved
    | some row =>
      rw [found] at resolved
      cases resolved
      cases known : row.aliases.lookup (fieldName label) with
      | none => exact spelled
      | some full => exact (trims.spells struct row found).aliases _ (Store.mem_of_lookup known)

theorem constraintOf (trims : t.Trims N u) :
    ∀ formula ∈ u.constraintOf struct label, formula.Spells N := by
  intro formula mem
  obtain ⟨row, found, rest⟩ := Option.bind_eq_some_iff.mp mem
  obtain ⟨field, known, constrained⟩ := Option.bind_eq_some_iff.mp rest
  exact ((trims.spells struct row found).fields _ (Store.mem_of_lookup known)).constraint formula
    constrained

end Trims

end Tables

/-! ## Moves -/

/-- One move in building what tables declare. -/
inductive Move (N : String → Prop) (t : Tables) : Workshop → Workshop → Prop
  | trim {w : Workshop} (struct label : String) :
      Move N t w { w with tables := w.tables.dropConstraint struct label }
  | slot {w w' : Workshop} {name : String} {type : TypeRef} (named : N name)
      (added : change (addSlot .context name type) w = (.ok (), w')) : Move N t w w'
  | bits {w w' : Workshop} {struct label : String} {size : Option Expr} {type : TypeRef}
      (field : t.HasLabel struct label) (plain : ∀ e ∈ size, Plain N e)
      (made : register (makeBitString (some (memberTypeName struct label)) size) w
        = (.ok type, w')) : Move N t w w'
  | array {w w' : Workshop} {struct label : String} {element type : TypeRef}
      {length size : Option Expr} (field : t.HasLabel struct label) (apart : element ≠ .dataUnit)
      (plain : ∀ e ∈ length, Plain N e) (plain' : ∀ e ∈ size, Plain N e)
      (made : register (makeArray (some (memberTypeName struct label)) element length size) w
        = (.ok type, w')) : Move N t w w'
  | struct {w w' : Workshop} {name : String} {row : StructRow} {parts : Parts} {type : TypeRef}
      (described : t.structs.lookup name = some row)
      (labels : parts.fields.map (·.name) = row.labels)
      (apart : ∀ f ∈ parts.fields, f.type ≠ .dataUnit)
      (plain : ∀ f ∈ parts.fields, Plain N f.presence)
      (plain' : ∀ e ∈ parts.constraints, Plain N e)
      (made : register (makeStruct (some name) parts.fields parts.constraints parts.actions) w
        = (.ok type, w')) : Move N t w w'
  | enum {w w' : Workshop} {name : String} {variants : List String} {types : List TypeRef}
      {type : TypeRef} (described : t.IsEnum name variants)
      (apart : "DataUnit" ∉ variants → TypeRef.dataUnit ∉ types)
      (made : register (makeEnum (some name) types) w = (.ok type, w')) : Move N t w w'
  | function {w w' : Workshop} {name : String} {signature : Sentence.Signature}
      {parameters : List Parameter} {result type : TypeRef}
      (described : t.IsFunction name signature)
      (apart : TypeRef.dataUnit ∉ parameters.map (·.type) ++ [result])
      (made : register (makeFunction (some name) parameters result) w = (.ok type, w')) :
      Move N t w w'
  | packet {w w' : Workshop} {name : String} (listed : name ∈ t.pdus.getD [])
      (defined : change (definePdu name) w = (.ok (), w')) : Move N t w w'
  | rename {w w' : Workshop} {name : String}
      (named : change (setProtocolName name) w = (.ok (), w')) : Move N t w w'

/-- Any number of moves. -/
abbrev Moves (N : String → Prop) (t : Tables) : Workshop → Workshop → Prop :=
  Relation.ReflTransGen (Move N t)

theorem register_steps {methods : List String} {fields : List Field} {form : Form} {name : String}
    {make : Change TypeRef} {w w' : Workshop} {type : TypeRef}
    (makes : Makes methods fields form (some name) make)
    (made : register make w = (.ok type, w')) : Steps w.store w'.store := by
  obtain ⟨s, outcome, added⟩ := register_eq_ok made
  exact (makes.keeps.of_eq outcome).trans ((addType_steps type).of_eq added)

section Effects

variable {N : String → Prop} {t : Tables} {w w' : Workshop}

/-- What a move comes to: a constraint is taken back, or the protocol changes and no type is
registered, or a type is made and registered under a name that is described or belongs to a field. -/
inductive Move.Effect (t : Tables) (w w' : Workshop) : Prop
  | trims (struct label : String) (tables : w'.tables = w.tables.dropConstraint struct label)
      (store : w'.store = w.store)
  | changes (tables : w'.tables = w.tables) (types : w'.store.types = w.store.types)
      (steps : Steps w.store w'.store) (grows : w.store.Grows w'.store)
  | registers {methods : List String} {fields : List Field} {form : Form} {name : String}
      {make : Change TypeRef} {type : TypeRef} (makes : Makes methods fields form (some name) make)
      (made : register make w = (.ok type, w'))
      (own : t.describes name = true ∨ ∃ struct label, name = memberTypeName struct label)

theorem Move.effect (move : Move N t w w') : Effect t w w' := by
  have changed : ∀ {c : Change Unit}, change c w = (.ok (), w') → Keeps Steps c →
      Keeps Store.Grows c → w'.store.types = w.store.types → Effect t w w' :=
    fun made steps grows types => .changes (change_tables made) types
      (steps.of_eq (change_eq_ok made)) (grows.of_eq (change_eq_ok made))
  cases move with
  | trim struct label => exact .trims struct label rfl rfl
  | slot _ added =>
    obtain ⟨e, -, -, -, after⟩ := (addSlot_changes _ _ _).of_ok (change_eq_ok added)
    exact changed added (addSlot_steps _ _ _) (addSlot_grows _ _ _)
      (by rw [after, Store.types_modifyMembers])
  | bits _ _ made => exact .registers (makeBitString_makes _ _) made (.inr ⟨_, _, rfl⟩)
  | array _ _ _ _ made => exact .registers (makeArray_makes _ _ _ _) made (.inr ⟨_, _, rfl⟩)
  | struct described _ _ _ _ made =>
    exact .registers (makeStruct_makes _ _ _ _) made (.inl (by simp [Tables.describes, described]))
  | enum described _ made =>
    exact .registers (makeEnum_makes _ _) made (.inl (by simp [Tables.describes, described.2]))
  | function described _ made =>
    exact .registers (makeType_makes _ _ _) made (.inl (by simp [Tables.describes, described.2.2]))
  | packet _ defined =>
    obtain ⟨type, -, -, after⟩ := (definePdu_changes _).of_ok (change_eq_ok defined)
    exact changed defined (definePdu_steps _) (definePdu_grows _) (by rw [after])
  | rename named =>
    obtain ⟨-, after⟩ := (setProtocolName_changes _).of_ok (change_eq_ok named)
    exact changed named (setProtocolName_steps _) (setProtocolName_grows _)
      (by rw [after, Store.types_modifyEntry])

/-- A move leaves the tables alone or takes the constraint of a field back. -/
theorem Move.tables (move : Move N t w w') : w'.tables = w.tables ∨
    ∃ struct label, w'.tables = w.tables.dropConstraint struct label := by
  cases move.effect with
  | trims struct label tables => exact .inr ⟨struct, label, tables⟩
  | changes tables => exact .inl tables
  | registers _ made => exact .inl (change_tables made)

theorem Move.steps (move : Move N t w w') : Steps w.store w'.store := by
  cases move.effect with
  | trims _ _ _ store => exact store ▸ .refl
  | changes _ _ steps => exact steps
  | registers makes made => exact register_steps makes made

/-- Building takes back constraints and leaves the tables as they are otherwise. -/
theorem Moves.alike (moves : Moves N t w w') : w'.tables.Alike w.tables := by
  induction moves with
  | refl => exact Tables.Alike.refl _
  | tail _ move ih =>
    rcases move.tables with same | ⟨struct, label, same⟩
    · rwa [same]
    · rw [same]
      exact Tables.alike_dropConstraint ih struct label

theorem Moves.steps (moves : Moves N t w w') : Steps w.store w'.store := by
  induction moves with
  | refl => exact .refl
  | tail _ move ih => exact ih.trans move.steps

end Effects

/-- A step of building that makes moves, and has a result with a property. -/
def Goes (N : String → Prop) (t : Tables) {α : Type} (x : Build α) (Q : α → Prop) : Prop :=
  ∀ w a w', t.Trims N w.tables → w.store.Anchored → x w = (.ok a, w') →
    Moves N t w w' ∧ t.Trims N w'.tables ∧ Q a

section Rules

variable {N : String → Prop} {t : Tables} {α β : Type} {Q Q' : α → Prop} {R : β → Prop}

theorem goes_pure {a : α} (holds : Q a) : Goes N t (pure a) Q := by
  intro w b w' trims _ outcome
  obtain ⟨rfl, rfl⟩ := pure_eq_ok.mp outcome
  exact ⟨.refl, trims, holds⟩

theorem goes_fail (e : Fault) : Goes N t (fail e : Build α) Q :=
  fun _ _ _ _ _ outcome => absurd outcome fail_ne_ok

theorem goes_ask {f : Workshop → Except Fault α}
    (holds : ∀ w a, t.Trims N w.tables → f w = .ok a → Q a) : Goes N t (ask f) Q := by
  intro w a w' trims _ outcome
  obtain ⟨answer, rfl⟩ := ask_eq_ok.mp outcome
  exact ⟨.refl, trims, holds w a trims answer⟩

theorem goes_read {f : Workshop → α} (holds : ∀ w, t.Trims N w.tables → Q (f w)) :
    Goes N t (read f) Q :=
  goes_ask fun w _ trims answer => Except.ok.inj answer ▸ holds w trims

theorem goes_ofExcept {x : Except Fault α} (holds : ∀ a, x = .ok a → Q a) :
    Goes N t (ofExcept x) Q :=
  goes_ask fun _ a _ answer => holds a answer

theorem Goes.bind {x : Build α} {f : α → Build β} (first : Goes N t x Q)
    (rest : ∀ a, Q a → Goes N t (f a) R) : Goes N t (x >>= f) R := by
  intro w b w' trims anchored outcome
  obtain ⟨a, u, start, last⟩ := bind_eq_ok.mp outcome
  obtain ⟨moves, trims, holds⟩ := first w a u trims anchored start
  obtain ⟨moves', trims, result⟩ := rest a holds u b w' trims (anchored.steps moves.steps) last
  exact ⟨moves.trans moves', trims, result⟩

theorem Goes.imp {x : Build α} (goes : Goes N t x Q) (weaker : ∀ a, Q a → Q' a) :
    Goes N t x Q' := by
  intro w a w' trims anchored outcome
  obtain ⟨moves, trims, holds⟩ := goes w a w' trims anchored outcome
  exact ⟨moves, trims, weaker a holds⟩

theorem goes_ite {c : Prop} [Decidable c] {x y : Build α} (yes : c → Goes N t x Q)
    (no : ¬ c → Goes N t y Q) : Goes N t (if c then x else y) Q := by
  split
  · next holds => exact yes holds
  · next fails => exact no fails

theorem goes_change {c : Change α} (move : ∀ w a w', change c w = (.ok a, w') → Move N t w w') :
    Goes N t (change c) fun _ => True := by
  intro w a w' trims _ outcome
  exact ⟨.single (move w a w' outcome), change_tables outcome ▸ trims, trivial⟩

/-- A new type is registered by a move. -/
theorem goes_register {methods : List String} {fields : List Field} {form : Form} {name : String}
    {make : Change TypeRef} (makes : Makes methods fields form (some name) make)
    (move : ∀ w type w', register make w = (.ok type, w') → Move N t w w') :
    Goes N t (register make) (· ≠ .dataUnit) := by
  intro w type w' trims anchored outcome
  obtain ⟨moves, trims, -⟩ := goes_change move w type w' trims anchored outcome
  obtain ⟨s, e, ms, -, -, rfl, -⟩ := register_made makes outcome
  exact ⟨moves, trims, anchored.new_ne⟩

end Rules

/-! ## Formulas -/

/-- A builder that makes moves, and gives the data unit under its own name alone. -/
def Builder.Going (N : String → Prop) (t : Tables) (build : Builder) : Prop :=
  ∀ name, Goes N t (build name) fun type => name ≠ "DataUnit" → type ≠ .dataUnit

section Parts

variable {N : String → Prop} {t : Tables} {build : Builder} (going : build.Going N t)
  {struct label : String}

theorem goes_resolveLabel (spelled : N (fieldName label)) :
    Goes N t (consult (·.resolveLabel struct label)) N :=
  goes_ask fun _ _ trims resolved => trims.resolveLabel spelled resolved

theorem goes_buildAccess (spelled : N (fieldName label)) :
    Goes N t (buildAccess struct label) (Access N) :=
  (goes_resolveLabel spelled).bind fun _ named => goes_pure (.own named)

include going

theorem goes_buildExpr {formula : Formula} (spells : formula.Spells N) :
    Goes N t (buildExpr build struct formula) (Plain N) := by
  induction formula with
  | number n => exact (going _).bind fun type _ => goes_pure (.const type rfl)
  | field label =>
    exact (goes_buildAccess spells).bind fun _ access => goes_pure (.value access)
  | sizeOf label =>
    exact (goes_buildAccess spells).bind fun _ access => goes_pure (.extent access)
  | member label inner =>
    refine (goes_resolveLabel spells.1).bind fun name named => ?_
    refine (goes_ask (Q := fun _ => True) fun _ _ _ _ => trivial).bind fun innerStruct _ => ?_
    refine (goes_resolveLabel spells.2).bind fun innerName named' => goes_pure ?_
    exact .value (.inner named named')
  | binary op left right ihLeft ihRight =>
    refine (ihLeft spells.1).bind fun l plain => (ihRight spells.2).bind fun r plain' => ?_
    exact goes_pure (.binary _ (by cases op <;> decide) plain plain')

theorem goes_buildExpr? {formula : Option Formula} (spells : ∀ f ∈ formula, f.Spells N) :
    Goes N t (buildExpr? build struct formula) fun e => ∀ x ∈ e, Plain N x := by
  cases formula with
  | none => exact goes_pure (by simp)
  | some f =>
    refine (goes_buildExpr going (spells f rfl)).bind fun e plain => goes_pure ?_
    rintro x ⟨⟩
    exact plain

theorem goes_sizeInBits (unit : Option String) {size : Option Expr}
    (plain : ∀ e ∈ size, Plain N e) :
    Goes N t (sizeInBits build unit size) fun bits => ∀ e ∈ bits, Plain N e := by
  unfold sizeInBits
  split
  · next n =>
    refine goes_ite (fun _ => (going _).bind fun type _ => goes_pure ?_) fun _ => goes_pure plain
    rintro x ⟨⟩
    exact .const type rfl
  · next e _ =>
    refine goes_ite (fun _ => (going _).bind fun type _ => goes_pure ?_) fun _ => goes_pure plain
    rintro x ⟨⟩
    exact .binary _ (by decide) (plain e rfl) (.const type rfl)
  · exact goes_pure plain

omit going in
theorem statedSize?_plain {constraint : Option Expr} (plain : ∀ e ∈ constraint, Plain N e) :
    ∀ e ∈ statedSize? label constraint, Plain N e := by
  intro e stated
  unfold statedSize? at stated
  split at stated
  · split at stated
    · cases stated
      exact (plain _ rfl).argument
    · cases stated
  · cases stated

/-! ## Fields -/

omit going in
theorem goes_dropConstraint (struct label : String) :
    Goes N t (update fun w =>
      { w with tables := w.tables.dropConstraint struct label }) fun _ => True := by
  intro w a w' trims _ outcome
  obtain rfl := update_eq_ok.mp outcome
  exact ⟨.single (.trim struct label), trims.dropConstraint struct label, trivial⟩

/-- Under the name of a phrase, another type than the data unit is built. -/
theorem goes_named (phrase : String) : Goes N t (ofExcept (typeName phrase) >>= build)
    (· ≠ .dataUnit) := by
  refine (goes_ofExcept (Q := (· ≠ "DataUnit")) fun name named => ?_).bind fun name other => ?_
  · rintro rfl
    exact typeName_ne_dataUnit phrase named
  · exact (going name).imp fun type apart => apart other

theorem goes_fieldUnit {f : FieldRow} (field : t.HasLabel struct f.title.fullLabel)
    (spells : f.Spells N) : Goes N t (fieldUnit build struct f.title) (· ≠ .dataUnit) := by
  unfold fieldUnit
  split
  · next unit _ =>
    refine goes_ite (fun _ => goes_pure (by decide)) fun _ => ?_
    unfold buildUnitType
    refine goes_ite (fun _ => ?_) fun _ => ?_
    · refine (goes_buildExpr? going spells.constraint).bind fun constraint plain => ?_
      have rest : Goes N t (ofExcept (typeName unit) >>= fun unitName =>
          build unitName >>= fun element => register (makeArray
            (some (memberTypeName struct f.title.fullLabel)) element none
            (statedSize? f.title.fullLabel constraint))) (· ≠ .dataUnit) := by
        rw [← bind_assoc]
        refine (goes_named going unit).bind fun element apart => ?_
        exact goes_register (makeArray_makes _ _ _ _) fun w type w' made =>
          .array field apart (by simp) (statedSize?_plain plain) made
      refine goes_ite (fun _ => ?_) fun _ => rest
      exact (goes_dropConstraint struct _).bind fun _ _ => rest
    · exact goes_named going unit
  · exact goes_pure (by decide)

theorem goes_fieldType {title : FieldTitle} (field : t.HasLabel struct title.fullLabel)
    {unitType : TypeRef} (apart : unitType ≠ .dataUnit) {size : Option Expr}
    (plain : ∀ e ∈ size, Plain N e) :
    Goes N t (fieldType build struct title unitType size) (· ≠ .dataUnit) := by
  unfold fieldType
  refine goes_ite (fun _ => ?_) fun _ => ?_
  · refine (goes_sizeInBits going _ plain).bind fun bits plain => ?_
    exact goes_register (makeBitString_makes _ _) fun w type w' made => .bits field plain made
  · unfold repeated
    refine (goes_read (Q := fun _ => True) fun _ _ => trivial).bind fun representable _ => ?_
    cases size with
    | none => exact goes_pure apart
    | some e =>
      refine goes_ite (fun _ => ?_) fun _ => goes_pure apart
      exact goes_register (makeArray_makes _ _ _ _) fun w type w' made =>
        .array field apart plain (by simp) made

theorem goes_fieldPresence {f : FieldRow} (spells : f.Spells N) :
    Goes N t (fieldPresence build struct f.title) (Plain N) := by
  unfold fieldPresence
  split
  · next formula found => exact goes_buildExpr going (spells.presence formula found)
  · exact (going _).bind fun type _ => goes_pure (.const type rfl)

theorem goes_fieldAction {f : FieldRow} (spells : f.Spells N) :
    Goes N t (fieldAction build struct f) fun _ => True := by
  unfold fieldAction
  split
  · next formula name found =>
    obtain ⟨spelled, named⟩ := spells.stored _ found
    refine Goes.bind (Q := fun _ => True) ?_ fun _ _ => goes_pure trivial
    refine (going _).bind fun number _ => ?_
    refine (goes_change fun w _ w' added => .slot named added).bind fun _ _ => ?_
    exact (goes_buildExpr going spelled).bind fun _ _ => goes_pure trivial
  · exact goes_pure trivial

/-- What is known of the fields of a structure so far: their labels, that none is a data unit, and
that they are plain. -/
structure Parts.Fits (N : String → Prop) (labels : List String) (parts : Parts) : Prop where
  labels : parts.fields.map (·.name) = labels
  apart : ∀ f ∈ parts.fields, f.type ≠ .dataUnit
  fields : ∀ f ∈ parts.fields, Plain N f.presence
  constraints : ∀ e ∈ parts.constraints, Plain N e

theorem goes_buildField {f : FieldRow} {labels : List String} {parts : Parts}
    (field : t.HasLabel struct f.title.fullLabel) (spells : f.Spells N)
    (fits : parts.Fits N labels) :
    Goes N t (buildField build struct f parts) (Parts.Fits N (labels ++ [f.title.fullLabel])) := by
  rw [buildField_eq]
  refine (goes_fieldUnit going field spells).bind fun unitType unitApart => ?_
  refine (goes_buildExpr? going spells.size).bind fun size plain => ?_
  refine (goes_read (Q := fun formula => ∀ x ∈ formula, x.Spells N)
    fun w trims => trims.constraintOf).bind fun formula spelled => ?_
  refine (goes_buildExpr? going spelled).bind fun constraint constrained => ?_
  refine (goes_fieldType going field unitApart plain).bind fun type apart => ?_
  refine (goes_fieldPresence going spells).bind fun presence present => ?_
  refine (goes_fieldAction going spells).bind fun action _ => ?_
  refine (goes_ofExcept (Q := fun made => made = ⟨f.title.fullLabel, type, presence⟩)
    fun made outcome => ?_).bind fun made own => ?_
  · unfold makeField at outcome
    split at outcome
    · cases outcome
      rfl
    · cases outcome
  subst own
  refine goes_pure ⟨?_, ?_, ?_, ?_⟩
  · rw [List.map_append, fits.labels, List.map_singleton]
  · intro g mem
    rcases List.mem_append.mp mem with old | new
    · exact fits.apart g old
    · rw [List.mem_singleton.mp new]
      exact apart
  · intro g mem
    rcases List.mem_append.mp mem with old | new
    · exact fits.fields g old
    · rw [List.mem_singleton.mp new]
      exact present
  · intro e mem
    rcases List.mem_append.mp mem with old | new
    · exact fits.constraints e old
    · exact constrained e (Option.mem_toList.mp new)

theorem goes_buildFields {rows : List FieldRow} {labels : List String} {parts : Parts}
    (fields : ∀ f ∈ rows, t.HasLabel struct f.title.fullLabel ∧ f.Spells N)
    (fits : parts.Fits N labels) :
    Goes N t (buildFields build struct rows parts)
      (Parts.Fits N (labels ++ rows.map (·.title.fullLabel))) := by
  induction rows generalizing labels parts with
  | nil => exact goes_pure (by simpa using fits)
  | cons f rows ih =>
    rw [List.forall_mem_cons] at fields
    refine (goes_buildField going fields.1.1 fields.1.2 fits).bind fun parts fits => ?_
    exact (ih fields.2 fits).imp fun parts fits => by simpa using fits

/-! ## Types -/

theorem goes_buildStruct {name : String} {row own : StructRow}
    (described : t.structs.lookup name = some own) (labels : own.labels = row.labels)
    (spells : row.Spells N) : Goes N t (buildStruct build name row) (· ≠ .dataUnit) := by
  have fields : ∀ f ∈ row.fields.map (·.2), t.HasLabel name f.title.fullLabel ∧ f.Spells N := by
    intro f mem
    obtain ⟨p, old, rfl⟩ := List.mem_map.mp mem
    exact ⟨⟨own, described, labels ▸ List.mem_map_of_mem old⟩, spells.fields p old⟩
  refine (goes_buildFields going fields ⟨rfl, by simp, by simp, by simp⟩).bind fun parts fits => ?_
  refine goes_register (makeStruct_makes _ _ _ _) fun w type w' made =>
    .struct described ?_ fits.apart fits.fields fits.constraints made
  rw [fits.labels, labels, List.map_map]
  rfl

theorem goes_buildTypes (names : List String) : Goes N t (buildTypes build names)
    fun types => "DataUnit" ∉ names → TypeRef.dataUnit ∉ types := by
  induction names with
  | nil => exact goes_pure fun _ => List.not_mem_nil
  | cons name names ih =>
    refine (going name).bind fun type apart => ih.bind fun types rest => goes_pure fun others => ?_
    rw [List.mem_cons, not_or] at others ⊢
    exact ⟨(apart (Ne.symm others.1)).symm, rest others.2⟩

theorem goes_buildConversion (conversion : Option (String × String)) :
    Goes N t (buildConversion build conversion) fun _ => True := by
  cases conversion with
  | none => exact goes_pure trivial
  | some conversion => exact (going conversion.2).bind fun _ _ => goes_pure trivial

theorem goes_buildEnum {name : String} {variants : List String} (described : t.IsEnum name variants) :
    Goes N t (buildEnum build name variants) (· ≠ .dataUnit) := by
  refine (goes_buildTypes going variants).bind fun types apart => ?_
  refine (goes_register (makeEnum_makes _ _) fun w type w' made =>
    .enum described apart made).bind fun type other => ?_
  refine (goes_read (Q := fun _ => True) fun _ _ => trivial).bind fun serialise _ => ?_
  refine (goes_buildConversion going serialise).bind fun _ _ => ?_
  refine (goes_read (Q := fun _ => True) fun _ _ => trivial).bind fun parse _ => ?_
  exact (goes_buildConversion going parse).bind fun _ _ => goes_pure other

theorem goes_buildParameters (parameters : List (String × String)) :
    Goes N t (buildParameters build parameters)
      fun built => TypeRef.dataUnit ∉ built.map (·.type) := by
  induction parameters with
  | nil => exact goes_pure List.not_mem_nil
  | cons parameter parameters ih =>
    unfold buildParameters
    rw [← bind_assoc]
    refine (goes_named going parameter.2).bind fun type apart => ih.bind fun rest others => ?_
    exact goes_pure (List.not_mem_cons_of_ne_of_not_mem apart.symm others)

theorem goes_buildFunction {name : String} {signature : Sentence.Signature}
    (described : t.IsFunction name signature) :
    Goes N t (buildFunction build name signature) (· ≠ .dataUnit) := by
  refine (goes_buildParameters going _).bind fun parameters apart => ?_
  rw [← bind_assoc]
  refine (goes_named going _).bind fun result other => ?_
  refine goes_register (makeType_makes _ _ _) fun w type w' made => .function described ?_ made
  rw [List.mem_append, not_or, List.mem_singleton]
  exact ⟨apart, other.symm⟩

end Parts

/-- Whatever depth it is bounded by, the builder makes moves. -/
theorem buildWithin_going (N : String → Prop) (t : Tables) (depth : Nat) :
    (buildWithin depth).Going N t := by
  induction depth with
  | zero => exact fun name => goes_fail _
  | succ depth ih =>
    intro name w type w' trims anchored outcome
    have apart {x : Build TypeRef} (goes : Goes N t x (· ≠ .dataUnit))
        (outcome : x w = (.ok type, w')) :=
      (goes.imp fun _ apart (_ : name ≠ "DataUnit") => apart) w type w' trims anchored outcome
    have same (other : name ≠ "DataUnit" → type ≠ .dataUnit) :=
      goes_pure (N := N) (t := t) (Q := fun type => name ≠ "DataUnit" → type ≠ .dataUnit) other w
        type w trims anchored rfl
    cases finds_of_buildWithin outcome with
    | registered found =>
      refine same ?_
      rintro other rfl
      exact other (anchored.alone name (Store.mem_of_lookup found))
    | struct unknown structs built =>
      obtain ⟨own, described, labels⟩ := trims.exists_row structs
      exact apart (goes_buildStruct ih described labels (trims.spells name _ structs)) built
    | enum structs enums built =>
      rw [trims.enums] at enums
      exact apart (goes_buildEnum ih ⟨trims.lookup_none structs, enums⟩) built
    | function structs enums functions built =>
      rw [trims.enums] at enums
      rw [trims.functions] at functions
      exact apart (goes_buildFunction ih ⟨trims.lookup_none structs, enums, functions⟩) built
    | primitive structs enums functions basic =>
      refine same ?_
      rintro - rfl
      exact absurd (primitive?_mem basic) (by decide)

/-! ## Whole protocols -/

theorem goes_buildPacket {N : String → Prop} {t : Tables} {name : String}
    (listed : name ∈ t.pdus.getD []) : Goes N t (buildPacket name) fun _ => True := by
  refine Goes.bind (Q := fun _ => True) ?_ fun _ _ =>
    goes_change fun w _ w' defined => .packet listed defined
  refine (goes_read (Q := fun _ => True) fun _ _ => trivial).bind fun depth _ => ?_
  exact (buildWithin_going N t depth name).imp fun _ _ => trivial

theorem goes_buildPackets {N : String → Prop} {t : Tables} {names : List String}
    (listed : ∀ name ∈ names, name ∈ t.pdus.getD []) :
    Goes N t (each buildPacket names) fun _ => True := by
  induction names with
  | nil => exact goes_pure trivial
  | cons name names ih =>
    rw [List.forall_mem_cons] at listed
    exact (goes_buildPacket listed.1).bind fun _ _ => ih listed.2

/-- Protocols are built by moves. -/
theorem goes_buildTables (N : String → Prop) (t : Tables) :
    Goes N t buildTables fun _ => True := by
  refine (goes_read (Q := fun pdus => pdus = t.pdus) fun _ trims => trims.pdus).bind
    fun pdus same => ?_
  subst same
  split
  · exact goes_fail _
  · next pdus found =>
    refine (goes_buildPackets fun name mem => by rwa [found]).bind fun _ _ => ?_
    refine (goes_read (Q := fun _ => True) fun _ _ => trivial).bind fun name _ => ?_
    exact goes_change fun w _ w' named => .rename named

end PacketDraft.Description
