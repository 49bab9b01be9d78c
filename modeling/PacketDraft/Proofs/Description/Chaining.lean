import PacketDraft.Proofs.Description.Origin
import PacketDraft.Proofs.Protocol.Joining

/-!
# Descriptions one after the other

A description is built into a protocol that another description has left. If the two have no names in
common, every step of building goes as it does for the second description alone, and leaves its types
behind those of the first (`follows_buildWithin`). Only the last step does not: a protocol is named
once.
-/

namespace PacketDraft.Description

open Protocol Document Build Attempt Attempt.Mirror List

variable {name : String} {w w' : Workshop}

/-! ## Steps of building -/

/-- A workshop whose protocol is pictured behind another one. -/
def chained (base : Store) : Mirror Workshop where
  sound w := w.store.Rooted
  before w w' := base.behind.before w.store w'.store
  clear w := base.Clear w.store
  image w := { w with store := base.onto w.store }
  refl w := base.behind.refl w.store
  trans first second := base.behind.trans first second
  clear_of_before before clear := base.behind.clear_of_before before clear

variable {base : Store} {α β : Type} {f : α → β}

theorem follows_change {c : Change α} {c' : Change β} (follows : base.behind.Follows f c c') :
    (chained base).Follows f (change c) (change c') := by
  intro w a w' rooted outcome
  have tables := change_tables outcome
  obtain ⟨rooted', before, image⟩ := follows _ _ _ rooted (change_eq_ok outcome)
  refine ⟨rooted', before, fun clear => ?_⟩
  have ran : c' (base.onto w.store) = (.ok (f a), base.onto w'.store) := image clear
  show change c' { w with store := base.onto w.store } = _
  unfold change
  dsimp only
  rw [ran, ← tables]
  rfl

theorem follows_consult (q : Tables → Except Fault α) :
    (chained base).Follows id (consult q) (consult q) :=
  follows_ask fun _ _ _ _ answer => answer

theorem follows_readTables (q : Tables → α) :
    (chained base).Follows id (read fun w => q w.tables) (read fun w => q w.tables) :=
  follows_read fun _ _ _ => rfl

theorem follows_tables (u : Tables → Tables) :
    (chained base).Follows id (update fun w => { w with tables := u w.tables })
      (update fun w => { w with tables := u w.tables }) :=
  follows_update fun w rooted => ⟨rooted, (chained base).refl w, fun _ => rfl⟩

section Behind

variable (based : base.Rooted)

include based

theorem follows_register {methods : List String} {fields : List Field} {form : Form}
    {make make' : Change TypeRef} (makes : Makes methods fields form (some name) make)
    (follows : base.behind.Follows (TypeRef.shift base.offset) make make') :
    (chained base).Follows (TypeRef.shift base.offset) (register make) (register make') := by
  refine follows_change (follows.bind_of fun s t s' rooted made => ?_)
  have own : t = .id s.entries.length := by
    rcases makes s with ⟨fault, failed⟩ | ⟨given, size, r, s'', -, result, -, own⟩
    · rw [failed] at made
      cases made
    · rw [result] at made
      cases made
      exact own t rfl
  subst own
  exact (follows_addType based rooted.length_le).bind fun _ => follows_pure _ _

/-! ## Formulas -/

/-- A builder that goes the same way behind another protocol. -/
def Builder.Follows (base : Store) (build : Builder) : Prop :=
  ∀ name, (chained base).Follows (TypeRef.shift base.offset) (build name) (build name)

section Building

variable {build : Builder} (follows : build.Follows base) {struct : String}

omit based in
theorem follows_buildAccess (label : String) :
    (chained base).Follows (Expr.shift base.offset) (buildAccess struct label)
      (buildAccess struct label) :=
  (follows_consult _).bind fun _ => follows_pure _ _

include follows

omit based in
theorem follows_buildExpr (formula : Formula) :
    (chained base).Follows (Expr.shift base.offset) (buildExpr build struct formula)
      (buildExpr build struct formula) := by
  induction formula with
  | number n => exact (follows _).bind fun _ => follows_pure _ _
  | field label => exact (follows_buildAccess label).bind fun _ => follows_pure _ _
  | sizeOf label => exact (follows_buildAccess label).bind fun _ => follows_pure _ _
  | member label inner =>
    exact (follows_consult _).bind fun _ => (follows_consult _).bind fun _ =>
      (follows_consult _).bind fun _ => follows_pure _ _
  | binary op left right ihLeft ihRight =>
    exact ihLeft.bind fun _ => ihRight.bind fun _ => follows_pure _ _

omit based in
theorem follows_buildExpr? (formula : Option Formula) :
    (chained base).Follows (Option.map (Expr.shift base.offset)) (buildExpr? build struct formula)
      (buildExpr? build struct formula) := by
  cases formula with
  | none => exact follows_pure _ _
  | some formula => exact (follows_buildExpr follows formula).bind fun _ => follows_pure _ _

omit based in
theorem follows_sizeInBits (unit : Option String) (size : Option Expr) :
    (chained base).Follows (Option.map (Expr.shift base.offset)) (sizeInBits build unit size)
      (sizeInBits build unit (size.map (·.shift base.offset))) := by
  have scaled : ∀ e : Expr, (chained base).Follows (Option.map (Expr.shift base.offset))
      (if isByteUnit unit then do
        let number ← build "Number"
        return some (.method e "multiply" [("other", .const number (.int 8))])
        else pure (some e) : Build (Option Expr))
      (if isByteUnit unit then do
        let number ← build "Number"
        return some (.method (e.shift base.offset) "multiply" [("other", .const number (.int 8))])
        else pure (some (e.shift base.offset))) :=
    fun e => Follows.ite ((follows _).bind fun _ => follows_pure _ _) (follows_pure _ _)
  cases size with
  | none => exact follows_pure _ _
  | some e =>
    cases e with
    | const t v =>
      cases v with
      | int n => exact Follows.ite ((follows _).bind fun _ => follows_pure _ _) (follows_pure _ _)
      | _ => exact scaled _
    | _ => exact scaled _

/-! ## Fields -/

omit based follows in
/-- The stated size is read off a constraint whatever types it mentions. -/
theorem statedSize?_shift (label : String) (k : Nat) (constraint : Option Expr) :
    statedSize? label (constraint.map (·.shift k))
      = (statedSize? label constraint).map (·.shift k) := by
  cases constraint with
  | none => rfl
  | some e =>
    cases e with
    | method target op args =>
      cases target with
      | method access inner more =>
        cases access with
        | field object name =>
          cases object with
          | self =>
            by_cases sized : inner = "size" ∧ op = "eq"
            · obtain ⟨rfl, rfl⟩ := sized
              cases args with
              | nil => rfl
              | cons arg args =>
                show (if name = label then some (arg.2.shift k) else none)
                  = Option.map _ (if name = label then some arg.2 else none)
                split <;> rfl
            · have other (more args : List (String × Expr)) : statedSize? label
                  (some (.method (.method (.field .self name) inner more) op args)) = none := by
                unfold statedSize?
                split
                · next same =>
                  cases same
                  exact absurd ⟨rfl, rfl⟩ sized
                · rfl
              rw [other, Option.map_none]
              exact other _ _
          | _ => rfl
        | _ => rfl
      | _ => rfl
    | _ => rfl

theorem follows_buildUnitType (unit : String) (title : FieldTitle) :
    (chained base).Follows (TypeRef.shift base.offset) (buildUnitType build struct unit title)
      (buildUnitType build struct unit title) := by
  unfold buildUnitType
  refine Follows.ite ?_ ((follows_ofExcept fun _ named => named).bind fun _ => follows _)
  refine (follows_buildExpr? follows title.constraint).bind fun constraint => ?_
  dsimp only
  rw [statedSize?_shift, Option.isSome_map]
  have rest : (chained base).Follows (TypeRef.shift base.offset)
      (do
        let unitName ← Attempt.ofExcept (typeName unit)
        let element ← build unitName
        register (makeArray (some (memberTypeName struct title.fullLabel)) element none
          (statedSize? title.fullLabel constraint)))
      (do
        let unitName ← Attempt.ofExcept (typeName unit)
        let element ← build unitName
        register (makeArray (some (memberTypeName struct title.fullLabel)) element none
          ((statedSize? title.fullLabel constraint).map (·.shift base.offset)))) := by
    refine (follows_ofExcept (f := id) fun _ named => named).bind fun unitName => ?_
    refine (follows unitName).bind fun element => ?_
    exact follows_register based (makeArray_makes _ _ _ _)
      (follows_makeArray based _ element none _)
  exact Follows.ite ((follows_tables _).bind fun _ => rest) rest

omit follows in
theorem follows_repeated (label : String) (t : TypeRef) (count : Option Expr) :
    (chained base).Follows (TypeRef.shift base.offset) (repeated struct label t count)
      (repeated struct label (t.shift base.offset) (count.map (·.shift base.offset))) := by
  have sent : (chained base).Follows id (read (·.store.isRepresentable t))
      (read (·.store.isRepresentable (t.shift base.offset))) :=
    follows_read fun w rooted _ => Store.isRepresentable_onto based rooted t
  unfold repeated
  refine sent.bind fun sent => ?_
  cases count with
  | none => exact follows_pure _ _
  | some e =>
    have one : isOne (e.shift base.offset) = isOne e := by
      cases e <;> rfl
    dsimp only [Option.map_some]
    rw [one]
    refine Follows.ite ?_ (follows_pure _ _)
    exact follows_register based (makeArray_makes _ _ _ _)
      (follows_makeArray based _ t (some e) none)

theorem follows_buildStored (formula : Formula) (name : String) :
    (chained base).Follows (Expr.shift base.offset) (buildStored build struct formula name)
      (buildStored build struct formula name) :=
  (follows _).bind fun number =>
    (follows_change (follows_addContextSlot based _ number)).bind fun _ =>
      (follows_buildExpr follows formula).bind fun _ => follows_pure _ _

theorem follows_fieldUnit (title : FieldTitle) :
    (chained base).Follows (TypeRef.shift base.offset) (fieldUnit build struct title)
      (fieldUnit build struct title) := by
  unfold fieldUnit
  cases title.units with
  | none => exact follows_pure _ _
  | some unit =>
    exact Follows.ite (follows_pure _ _) (follows_buildUnitType based follows unit title)

theorem follows_fieldType (title : FieldTitle) (unitType : TypeRef) (size : Option Expr) :
    (chained base).Follows (TypeRef.shift base.offset) (fieldType build struct title unitType size)
      (fieldType build struct title (unitType.shift base.offset)
        (size.map (·.shift base.offset))) := by
  unfold fieldType
  refine Follows.ite ?_ (follows_repeated based _ unitType size)
  refine (follows_sizeInBits follows title.units size).bind fun bits => ?_
  exact follows_register based (makeBitString_makes _ _)
    (follows_makeBitString based _ bits)

omit based in
theorem follows_fieldPresence (title : FieldTitle) :
    (chained base).Follows (Expr.shift base.offset) (fieldPresence build struct title)
      (fieldPresence build struct title) := by
  unfold fieldPresence
  cases title.presence with
  | none => exact (follows _).bind fun _ => follows_pure _ _
  | some formula => exact follows_buildExpr follows formula

theorem follows_fieldAction (row : FieldRow) :
    (chained base).Follows (Option.map (Expr.shift base.offset)) (fieldAction build struct row)
      (fieldAction build struct row) := by
  unfold fieldAction
  cases row.stored with
  | none => exact follows_pure _ _
  | some stored =>
    exact (follows_buildStored based follows stored.1 stored.2).bind fun _ =>
      follows_pure _ _

omit based follows in
theorem makeField_shift {k : Nat} {type : TypeRef} {presence : Expr} {field : Field}
    (made : makeField name type (some presence) = .ok field) :
    makeField name (type.shift k) (some (presence.shift k)) = .ok (field.shift k) := by
  unfold makeField at made ⊢
  split at made
  · next valid =>
    cases made
    rw [if_pos valid]
    rfl
  · cases made

/-- The parts of a structure with their references shifted. -/
def Parts.shift (k : Nat) (parts : Parts) : Parts where
  fields := parts.fields.map (·.shift k)
  constraints := parts.constraints.map (·.shift k)
  actions := parts.actions.map (·.shift k)

theorem follows_buildField (row : FieldRow) (parts : Parts) :
    (chained base).Follows (Parts.shift base.offset) (buildField build struct row parts)
      (buildField build struct row (parts.shift base.offset)) := by
  rw [buildField_eq, buildField_eq]
  refine (follows_fieldUnit based follows row.title).bind fun unitType => ?_
  refine (follows_buildExpr? follows row.title.size).bind fun size => ?_
  refine (follows_readTables (·.constraintOf struct row.title.fullLabel)).bind fun formula => ?_
  refine (follows_buildExpr? follows formula).bind fun constraint => ?_
  refine (follows_fieldType based follows row.title unitType size).bind fun type => ?_
  refine (follows_fieldPresence follows row.title).bind fun presence => ?_
  refine (follows_fieldAction based follows row).bind fun action => ?_
  refine (follows_ofExcept fun field made => makeField_shift made).bind fun field => ?_
  have whole : Parts.shift base.offset
      { fields := parts.fields ++ [field]
        constraints := parts.constraints ++ constraint.toList
        actions := parts.actions ++ action.toList }
      = { fields := (parts.shift base.offset).fields ++ [field.shift base.offset]
          constraints := (parts.shift base.offset).constraints
            ++ (constraint.map (Expr.shift base.offset)).toList
          actions := (parts.shift base.offset).actions
            ++ (action.map (Expr.shift base.offset)).toList } := by
    simp [Parts.shift, Option.toList_map]
  rw [← whole]
  exact follows_pure _ _

theorem follows_buildFields (rows : List FieldRow) (parts : Parts) :
    (chained base).Follows (Parts.shift base.offset) (buildFields build struct rows parts)
      (buildFields build struct rows (parts.shift base.offset)) := by
  induction rows generalizing parts with
  | nil => exact follows_pure _ _
  | cons row rows ih =>
    exact (follows_buildField based follows row parts).bind fun parts => ih parts

/-! ## Types -/

theorem follows_buildStruct (name : String) (row : StructRow) :
    (chained base).Follows (TypeRef.shift base.offset) (buildStruct build name row)
      (buildStruct build name row) :=
  (follows_buildFields based follows _ {}).bind fun _ =>
    follows_register based (makeStruct_makes _ _ _ _) (follows_makeStruct based _ _ _ _)

omit based in
theorem follows_buildTypes (names : List String) :
    (chained base).Follows (List.map (TypeRef.shift base.offset)) (buildTypes build names)
      (buildTypes build names) := by
  induction names with
  | nil => exact follows_pure _ _
  | cons name names ih => exact (follows name).bind fun _ => ih.bind fun _ => follows_pure _ _

omit based in
theorem follows_buildConversion (conversion : Option (String × String)) :
    (chained base).Follows id (buildConversion build conversion)
      (buildConversion build conversion) := by
  cases conversion with
  | none => exact follows_pure _ _
  | some conversion => exact (follows conversion.2).bind fun _ => follows_pure _ _

omit based in
theorem follows_buildConversions (name : String) (t : TypeRef) :
    (chained base).Follows (TypeRef.shift base.offset)
      (do
        let serialise ← Attempt.read (·.tables.serialiseTo.lookup name)
        buildConversion build serialise
        let parse ← Attempt.read (·.tables.parseFrom.lookup name)
        buildConversion build parse
        return t)
      (do
        let serialise ← Attempt.read (·.tables.serialiseTo.lookup name)
        buildConversion build serialise
        let parse ← Attempt.read (·.tables.parseFrom.lookup name)
        buildConversion build parse
        return t.shift base.offset) := by
  refine (follows_readTables (·.serialiseTo.lookup name)).bind fun serialise => ?_
  refine (follows_buildConversion follows serialise).bind fun _ => ?_
  refine (follows_readTables (·.parseFrom.lookup name)).bind fun parse => ?_
  exact (follows_buildConversion follows parse).bind fun _ => follows_pure _ _

theorem follows_buildEnum (name : String) (variants : List String) :
    (chained base).Follows (TypeRef.shift base.offset) (buildEnum build name variants)
      (buildEnum build name variants) := by
  refine (follows_buildTypes follows variants).bind fun types => ?_
  refine (follows_register based (makeEnum_makes _ types)
    (follows_makeEnum based _ types)).bind fun t => ?_
  exact follows_buildConversions follows name t

omit based in
theorem follows_buildParameters (parameters : List (String × String)) :
    (chained base).Follows (List.map (Parameter.shift base.offset))
      (buildParameters build parameters) (buildParameters build parameters) := by
  induction parameters with
  | nil => exact follows_pure _ _
  | cons parameter parameters ih =>
    refine (follows_ofExcept (f := id) fun _ named => named).bind fun key => ?_
    exact (follows key).bind fun _ => ih.bind fun _ => follows_pure _ _

theorem follows_buildFunction (name : String) (signature : Sentence.Signature) :
    (chained base).Follows (TypeRef.shift base.offset) (buildFunction build name signature)
      (buildFunction build name signature) := by
  refine (follows_buildParameters follows _).bind fun parameters => ?_
  refine (follows_ofExcept (f := id) fun _ named => named).bind fun key => ?_
  refine (follows key).bind fun result => ?_
  exact follows_register based (makeType_makes _ _ _)
    (follows_makeFunction based _ parameters result)

/-! ## The builder -/

omit based follows in
theorem struct_registered {row : StructRow} {t : TypeRef}
    (outcome : buildStruct build name row w = (.ok t, w')) :
    (w'.store.types.lookup name).isSome = true := by
  obtain ⟨parts, u, -, made⟩ := bind_eq_ok.mp outcome
  rw [register_lookup (makeStruct_makes _ _ _ _) made]
  rfl

/-- After an enumeration is registered, its conversions are built, and it stays registered. -/
theorem enum_registered {variants : List String} {t : TypeRef} (rooted : w.store.Rooted)
    (outcome : buildEnum build name variants w = (.ok t, w')) :
    (w'.store.types.lookup name).isSome = true := by
  obtain ⟨types, u, first, outcome⟩ := bind_eq_ok.mp outcome
  obtain ⟨type, u', made, rest⟩ := bind_eq_ok.mp outcome
  have rootedU := (follows_buildTypes follows variants _ _ _ rooted first).1
  have rootedU' := (follows_register based (makeEnum_makes _ types)
    (follows_makeEnum based _ types) _ _ _ rootedU made).1
  have later := (follows_buildConversions follows name type _ _ _ rootedU' rest).2.1
  rw [Store.lookup_of_isPrefix later.1 (register_lookup (makeEnum_makes _ _) made)]
  rfl

omit based follows in
theorem function_registered {signature : Sentence.Signature} {t : TypeRef}
    (outcome : buildFunction build name signature w = (.ok t, w')) :
    (w'.store.types.lookup name).isSome = true := by
  obtain ⟨parameters, u, -, outcome⟩ := bind_eq_ok.mp outcome
  obtain ⟨key, u', -, outcome⟩ := bind_eq_ok.mp outcome
  obtain ⟨result, u'', -, made⟩ := bind_eq_ok.mp outcome
  rw [register_lookup (makeType_makes _ _ _) made]
  rfl

end Building

/-- Types that are built into a protocol after another one. What counts is that the other protocol
has no types under the names of the primitive types. -/
theorem follows_buildWithin
    (free : ∀ name t, primitive? name = some t → base.types.lookup name = none) (depth : Nat) :
    (buildWithin depth).Follows base := by
  induction depth with
  | zero => exact fun name => follows_fail _ _
  | succ depth ih =>
    intro name w t w' rooted outcome
    -- a type that is not registered yet is built in the same way on both sides
    have build {x : Build TypeRef}
        (same : ∀ v : Workshop, v.tables = w.tables → v.store.types.lookup name = none →
          buildWithin (depth + 1) name v = x v)
        (unknown : w.store.types.lookup name = none)
        (follows : (chained base).Follows (TypeRef.shift base.offset) x x)
        (other : ∀ w', x w = (.ok t, w') → base.Clear w'.store →
          base.types.lookup name = none) :
        w'.store.Rooted ∧ (chained base).before w w' ∧ (base.Clear w'.store →
          buildWithin (depth + 1) name ((chained base).image w)
            = (.ok (t.shift base.offset), (chained base).image w')) := by
      rw [same w rfl unknown] at outcome
      obtain ⟨rooted', before, image⟩ := follows w t w' rooted outcome
      refine ⟨rooted', before, fun clear => ?_⟩
      have free := lookup_types_onto_none rooted (other w' outcome clear) unknown
      exact (same ((chained base).image w) rfl free).trans (image clear)
    cases found : w.store.types.lookup name with
    | some u =>
      have step (v : Workshop) (u : TypeRef) (found : v.store.types.lookup name = some u) :
          buildWithin (depth + 1) name v = (.ok u, v) := by
        rw [buildWithin, read_bind, id_eq, found]
        rfl
      rw [step w u found] at outcome
      cases outcome
      refine ⟨rooted, (chained base).refl w, fun clear => step _ _ ?_⟩
      exact Store.lookup_types_onto based rooted clear found
    | none =>
      cases structs : w.tables.structs.lookup name with
      | some row =>
        refine build (x := buildStruct (buildWithin depth) name row) (fun v tables unknown => ?_)
          found (follows_buildStruct based ih name row) fun w' ran clear =>
            clear.free rooted found (struct_registered ran)
        simp only [buildWithin, read_bind, id_eq, unknown, tables, structs]
      | none =>
        cases enums : w.tables.enums.lookup name with
        | some variants =>
          refine build (x := buildEnum (buildWithin depth) name variants)
            (fun v tables unknown => ?_) found (follows_buildEnum based ih name variants)
            fun w' ran clear => clear.free rooted found (enum_registered based ih rooted ran)
          simp only [buildWithin, read_bind, id_eq, unknown, tables, structs, enums]
        | none =>
          cases functions : w.tables.functions.lookup name with
          | some signature =>
            refine build (x := buildFunction (buildWithin depth) name signature)
              (fun v tables unknown => ?_) found (follows_buildFunction based ih name signature)
              fun w' ran clear => clear.free rooted found (function_registered ran)
            simp only [buildWithin, read_bind, id_eq, unknown, tables, structs, enums, functions]
          | none =>
            cases primitive : primitive? name with
            | some u =>
              have basic : u.shift base.offset = u := by
                have mem := primitive?_mem primitive
                simp only [primitives, mem_cons, not_mem_nil, or_false] at mem
                rcases mem with rfl | rfl | rfl <;> rfl
              have idle := follows_pure (m := chained base) (TypeRef.shift base.offset) u
              rw [basic] at idle
              refine build (x := pure u) (fun v tables unknown => ?_) found idle
                fun _ _ _ => free name u primitive
              simp only [buildWithin, read_bind, id_eq, unknown, tables, structs, enums, functions,
                primitive]
            | none =>
              have failed : buildWithin (depth + 1) name w = (.error (.unknownType name), w) := by
                simp only [buildWithin, read_bind, id_eq, found, structs, enums, functions,
                  primitive]
                rfl
              rw [failed] at outcome
              cases outcome

/-! ## Whole protocols -/

section Whole

variable (free : ∀ name t, primitive? name = some t → base.types.lookup name = none)

include free

theorem follows_buildPackets (names : List String) :
    (chained base).Follows id (Attempt.each buildPacket names)
      (Attempt.each buildPacket names) := by
  have packet (name : String) :
      (chained base).Follows id (buildPacket name) (buildPacket name) := by
    refine Follows.bind (f := TypeRef.shift base.offset) ?_ fun _ =>
      follows_change (follows_definePdu based name)
    exact (follows_readTables (·.depth)).bind fun depth =>
      follows_buildWithin based free depth name
  have packets := Follows.each (f := id) names fun name _ => packet name
  rwa [map_id] at packets

end Whole

omit based in
/-- All packets are built, and then the protocol gets its name. -/
theorem buildTables_eq_ok (built : buildTables w = (.ok (), w')) :
    ∃ pdus u, w.tables.pdus = some pdus ∧ Attempt.each buildPacket pdus w = (.ok (), u) ∧
      u.store.protocolName = unnamed ∧
      w' = { u with store := u.store.modifyEntry .protocol fun e =>
        { e with name := some (u.tables.protocolName.getD "") } } := by
  unfold buildTables at built
  rw [read_bind] at built
  cases found : w.tables.pdus with
  | none =>
    rw [found] at built
    exact absurd built fail_ne_ok
  | some pdus =>
    rw [found] at built
    obtain ⟨_, u, each, rest⟩ := bind_eq_ok.mp built
    rw [read_bind] at rest
    obtain ⟨first, after⟩ := (setProtocolName_changes _).of_ok (change_eq_ok rest)
    refine ⟨pdus, u, rfl, each, first, ?_⟩
    rw [← after, ← change_tables rest]

omit based in
theorem buildTables_rooted {t : Tables} (built : buildTables ⟨t, .initial⟩ = (.ok (), w)) :
    w.store.Rooted := by
  obtain ⟨pdus, u, -, each, -, rfl⟩ := buildTables_eq_ok built
  have free : ∀ name t, primitive? name = some t → Store.initial.types.lookup name = none := by
    intro name t primitive
    unfold primitive? at primitive
    split at primitive
    · rfl
    · rfl
    · rfl
    · cases primitive
  have follows := follows_buildPackets Store.rooted_initial free pdus
  exact (follows ⟨t, .initial⟩ _ _ Store.rooted_initial each).1.rename _

/-- What is built from tables into a protocol is put behind it. The last step, in which the protocol
gets its name, fails unless the protocol is still called as it was in the beginning. -/
theorem buildTables_onto (free : ∀ name t, primitive? name = some t → base.types.lookup name = none)
    {t : Tables} (built : buildTables ⟨t, .initial⟩ = (.ok (), w)) (clear : base.Clear w.store)
    (named : base.protocolName = w.store.protocolName) :
    buildTables ⟨t, base⟩
      = (if base.protocolName = unnamed then .ok () else .error (.typing .protocolNamed),
          ⟨w.tables, base.onto w.store⟩) := by
  obtain ⟨pdus, u, listed, each, first, rfl⟩ := buildTables_eq_ok built
  have clear' : base.Clear u.store := ⟨clear.types, clear.slots⟩
  obtain ⟨rooted, -, image⟩ :=
    follows_buildPackets based free pdus ⟨t, .initial⟩ _ _ Store.rooted_initial each
  have ran : Attempt.each buildPacket pdus ⟨t, base.onto .initial⟩
      = (.ok (), ⟨u.tables, base.onto u.store⟩) := image clear'
  rw [Store.onto_initial] at ran
  rw [Store.onto_rename]
  have given : u.tables.protocolName.getD "" = base.protocolName := by
    obtain ⟨key, entry⟩ := rooted.protocol
    rw [named]
    show _ = (((u.store.entries.modify 3 _)[3]?).bind (·.name)).getD ""
    rw [List.getElem?_modify_eq, entry]
    rfl
  have present := Store.protocolName_onto based u.store
  unfold buildTables
  rw [read_bind]
  dsimp only at listed ⊢
  rw [listed]
  show (Attempt.each buildPacket pdus >>= _) _ = _
  rw [bind_apply, ran]
  show change (setProtocolName (u.tables.protocolName.getD "")) ⟨u.tables, base.onto u.store⟩ = _
  rw [given]
  unfold change setProtocolName
  dsimp only
  rw [read_bind, present]
  by_cases fresh : base.protocolName = unnamed
  · rw [if_pos fresh, if_neg (by simpa using fresh), fresh]
    show (_, (⟨u.tables, (base.onto u.store).modifyEntry .protocol _⟩ : Workshop)) = _
    rw [rename_self (present.trans fresh)]
    rfl
  · rw [if_neg fresh, if_pos fresh]
    rfl

end Behind

/-- A document is noted in the same way, whatever protocol it is built into. -/
theorem buildProtocol_into {document : Element} {t : Tables}
    (noted : Tables.noteDocument document {} = (.ok (), t)) (s : Store) :
    buildProtocol (some document) { store := s } = buildTables ⟨t, s⟩ := by
  have collected : collect (Tables.noteDocument document) { store := s } = (.ok (), ⟨t, s⟩) := by
    simp only [collect, noted]
  rw [buildProtocol, bind_apply, collected]

/-- The types besides those of a new protocol. -/
theorem names_drop {s : Store} (rooted : s.Rooted) (distinct : (s.types.map (·.1)).Nodup) :
    (s.types.map (·.1)).filter (· ∉ ["Context", "DataUnit"]) = (s.types.drop 2).map (·.1) := by
  obtain ⟨more, same⟩ := rooted.types
  have names : s.types.map (·.1) = ["Context", "DataUnit"] ++ more.map (·.1) := by
    rw [← same]
    rfl
  have rest : s.types.drop 2 = more := by
    rw [← same]
    rfl
  rw [names] at distinct ⊢
  rw [rest, filter_append]
  have own : ∀ name ∈ more.map (·.1), decide (name ∉ ["Context", "DataUnit"]) = true := by
    intro name mem
    refine decide_eq_true fun common => ?_
    exact (nodup_append.mp distinct).2.2 name common name mem rfl
  rw [filter_eq_self.mpr own]
  rfl

/-- A description that is built into a protocol after another one, with which it shares no names, adds
its types and packets behind those that are there. But then the protocol gets its name again, which
it may only once: building succeeds if the first description has called it as it was called from the
start, and is refused otherwise. -/
theorem buildProtocol_chained {first second : Element} {w₁ w₂ : Workshop}
    (built₁ : buildProtocol (some first) {} = (.ok (), w₁))
    (built₂ : buildProtocol (some second) {} = (.ok (), w₂))
    (types : ∀ name, w₁.store.hasType name = true → w₂.store.hasType name = true →
      name ∈ ["Context", "DataUnit"])
    (slots : ∀ name, (w₁.store.contextSlots.lookup name).isSome = true →
      (w₂.store.contextSlots.lookup name).isSome = true → name = dataSize)
    (named : w₁.store.protocolName = w₂.store.protocolName)
    (free : ∀ name ∈ ["Number", "Boolean", "Nothing"], w₁.store.hasType name = false) :
    ∃ w, buildProtocol (some second) { store := w₁.store }
        = (if w₁.store.protocolName = unnamed then .ok () else .error (.typing .protocolNamed), w) ∧
      w.store = w₁.store.onto w₂.store ∧
      w.store.types.map (·.1) = w₁.store.types.map (·.1)
        ++ (w₂.store.types.map (·.1)).filter (· ∉ ["Context", "DataUnit"]) ∧
      w.store.pdus = w₁.store.pdus ++ w₂.store.pdus ∧
      (∀ name t, w₁.store.types.lookup name = some t →
        w.store.types.lookup name = some t ∧ w.store.entryOf t = w₁.store.entryOf t) ∧
      ∀ name t, w₂.store.types.lookup name = some t →
        w.store.types.lookup name = some (t.shift w₁.store.offset) ∧
        w.store.entryOf (t.shift w₁.store.offset)
          = (w₂.store.entryOf t).map (·.shift w₁.store.offset) := by
  obtain ⟨t₁, -, tables₁⟩ := buildProtocol_eq_ok built₁
  obtain ⟨t₂, noted, tables₂⟩ := buildProtocol_eq_ok built₂
  have rooted₁ := buildTables_rooted tables₁
  have rooted₂ := buildTables_rooted tables₂
  have closed₁ := (buildTables_closed ready_initial tables₁).2
  have closed₂ := (buildTables_closed ready_initial tables₂).2
  have primitive : ∀ name t, primitive? name = some t → w₁.store.types.lookup name = none := by
    intro name t primitive
    have listed : name ∈ ["Number", "Boolean", "Nothing"] := by
      unfold primitive? at primitive
      split at primitive
      · simp
      · simp
      · simp
      · cases primitive
    simpa [Store.hasType] using free name listed
  have clear : w₁.store.Clear w₂.store := by
    refine ⟨fun name inFirst inSecond => ?_, fun name inFirst inSecond => ?_⟩
    · have common := types name inFirst inSecond
      simp only [mem_cons, not_mem_nil, or_false] at common
      rcases common with rfl | rfl <;> rfl
    · rw [slots name inFirst inSecond]
      rfl
  have built := buildTables_onto rooted₁ primitive tables₂ clear named
  refine ⟨⟨w₂.tables, w₁.store.onto w₂.store⟩, (buildProtocol_into noted _).trans built, rfl, ?_,
    rfl, ?_, ?_⟩
  · rw [names_drop rooted₂ closed₂.distinct]
    show (w₁.store.types ++ shiftTypes _ (w₂.store.types.drop 2)).map (·.1) = _
    rw [map_append, shiftTypes, map_map]
    rfl
  · intro name t found
    refine ⟨Store.lookup_of_isPrefix (prefix_append ..) found, ?_⟩
    obtain ⟨e, entry, -⟩ := closed₁.named name t (Store.mem_of_lookup found)
    obtain ⟨n, rfl, bound⟩ := Store.entryOf_eq_some entry
    exact List.getElem?_append_left bound
  · intro name t found
    refine ⟨Store.lookup_types_onto rooted₁ rooted₂ clear found,
      Store.entryOf_onto rooted₁ rooted₂ ?_⟩
    rintro rfl
    obtain ⟨e, entry, -, listed⟩ := closed₂.named name _ (Store.mem_of_lookup found)
    obtain ⟨key, rfl⟩ := rooted₂.protocol_eq entry
    cases listed

/-- A document that describes packets of one kind and a protocol of this name. -/
def kindDocument (kind protocol : String) : Element :=
  documentOf [Memo.sectionOf "Types" (describing ("A " ++ kind) ["Code: 8 bits."]),
    Memo.sectionOf "Packets" [Memo.paragraphOf ("This document describes the " ++ protocol ++
      " protocol. The " ++ protocol ++ " protocol uses " ++ kind ++ "s.")]]

/-- What is declared of packets of one kind. -/
def kindTables (kind protocol : String) : Tables where
  structs := [(kind, .ofFields [counted "code" 8 "bits"])]
  pdus := some [kind]
  protocolName := some protocol

/-- The names in a protocol. -/
def namesIn (w : Workshop) : List String × List String × String :=
  (w.store.types.map (·.1), w.store.contextSlots.map (·.1), w.store.protocolName)

theorem noteDocument_kinds :
    Tables.noteDocument (kindDocument "Ping" "Protocol") {}
      = (.ok (), kindTables "Ping" "Protocol") ∧
    Tables.noteDocument (kindDocument "Pong" "Protocol") {}
      = (.ok (), kindTables "Pong" "Protocol") ∧
    Tables.noteDocument (kindDocument "Ping" "Example") {}
      = (.ok (), kindTables "Ping" "Example") ∧
    Tables.noteDocument (kindDocument "Pong" "Example") {}
      = (.ok (), kindTables "Pong" "Example") := by
  decide +kernel

theorem buildProtocol_chained_pongs :
    ∃ w₁ w₂ w, buildProtocol (some (kindDocument "Ping" "Protocol")) {} = (.ok (), w₁) ∧
      buildProtocol (some (kindDocument "Pong" "Protocol")) {} = (.ok (), w₂) ∧
      buildProtocol (some (kindDocument "Pong" "Protocol")) { store := w₁.store } = (.ok (), w) ∧
      w.store.types.map (·.1)
        = ["Context", "DataUnit", "Ping_code", "Ping", "Pong_code", "Pong"] ∧
      w.store.pdus = w₁.store.pdus ++ w₂.store.pdus := by
  have viewed₁ : builtWith (kindTables "Ping" "Protocol") namesIn
      = some (["Context", "DataUnit", "Ping_code", "Ping"], [dataSize], unnamed) := by
    decide +kernel
  have viewed₂ : builtWith (kindTables "Pong" "Protocol") namesIn
      = some (["Context", "DataUnit", "Pong_code", "Pong"], [dataSize], unnamed) := by
    decide +kernel
  obtain ⟨noted₁, noted₂, -⟩ := noteDocument_kinds
  obtain ⟨w₁, built₁, view₁⟩ := exists_built noted₁ viewed₁
  obtain ⟨w₂, built₂, view₂⟩ := exists_built noted₂ viewed₂
  simp only [namesIn, Prod.mk.injEq] at view₁ view₂
  obtain ⟨types₁, slots₁, named₁⟩ := view₁
  obtain ⟨types₂, slots₂, named₂⟩ := view₂
  have types : ∀ name, w₁.store.hasType name = true → w₂.store.hasType name = true →
      name ∈ ["Context", "DataUnit"] := by
    intro name inFirst inSecond
    have inFirst := Store.isSome_lookup_iff.mp inFirst
    have inSecond := Store.isSome_lookup_iff.mp inSecond
    rw [types₁] at inFirst
    rw [types₂] at inSecond
    have common : ∀ name ∈ ["Context", "DataUnit", "Ping_code", "Ping"],
        name ∈ ["Context", "DataUnit", "Pong_code", "Pong"] → name ∈ ["Context", "DataUnit"] := by
      decide
    exact common name inFirst inSecond
  have slots : ∀ name, (w₁.store.contextSlots.lookup name).isSome = true →
      (w₂.store.contextSlots.lookup name).isSome = true → name = dataSize := by
    intro name inFirst _
    have mem := Store.isSome_lookup_iff.mp inFirst
    rwa [slots₁, mem_singleton] at mem
  have free : ∀ name ∈ ["Number", "Boolean", "Nothing"], w₁.store.hasType name = false := by
    intro name primitive
    by_contra taken
    have mem := Store.isSome_lookup_iff.mp (Bool.of_not_eq_false taken)
    rw [types₁] at mem
    have other : ∀ name ∈ ["Number", "Boolean", "Nothing"],
        name ∉ ["Context", "DataUnit", "Ping_code", "Ping"] := by
      decide
    exact other name primitive mem
  obtain ⟨w, built, -, names, pdus, -⟩ := buildProtocol_chained built₁ built₂ types slots
    (named₁.trans named₂.symm) free
  rw [if_pos named₁] at built
  refine ⟨w₁, w₂, w, built₁, built₂, built, ?_, pdus⟩
  rw [names, types₁, types₂]
  rfl

/-- Pongs are refused by a protocol that already has its name from pings, although the protocol of the
pongs has the same name and nothing else in common with it. -/
theorem pongs_refused_after_pings :
    ∃ w₁ w₂, buildProtocol (some (kindDocument "Ping" "Example")) {} = (.ok (), w₁) ∧
      buildProtocol (some (kindDocument "Pong" "Example")) {} = (.ok (), w₂) ∧
      namesIn w₁ = (["Context", "DataUnit", "Ping_code", "Ping"], [dataSize], "Example") ∧
      namesIn w₂ = (["Context", "DataUnit", "Pong_code", "Pong"], [dataSize], "Example") ∧
      (buildProtocol (some (kindDocument "Pong" "Example")) { store := w₁.store }).1
        = .error (.typing .protocolNamed) := by
  obtain ⟨-, -, noted₁, noted₂⟩ := noteDocument_kinds
  have viewed₁ : builtWith (kindTables "Ping" "Example") (fun w => (namesIn w,
        (buildTables ⟨kindTables "Pong" "Example", w.store⟩).1))
      = some ((["Context", "DataUnit", "Ping_code", "Ping"], [dataSize], "Example"),
          .error (.typing .protocolNamed)) := by
    decide +kernel
  have viewed₂ : builtWith (kindTables "Pong" "Example") namesIn
      = some (["Context", "DataUnit", "Pong_code", "Pong"], [dataSize], "Example") := by
    decide +kernel
  obtain ⟨w₁, built₁, view₁⟩ := exists_built noted₁ viewed₁
  obtain ⟨w₂, built₂, view₂⟩ := exists_built noted₂ viewed₂
  obtain ⟨names₁, refused⟩ := Prod.mk.inj view₁
  refine ⟨w₁, w₂, built₁, built₂, names₁, view₂, ?_⟩
  rw [buildProtocol_into noted₂]
  exact refused

end PacketDraft.Description
