import PacketDraft.Proofs.Description.Moves
import PacketDraft.Proofs.Description.PacketOrder

/-!
# Where registered types come from

Every move leaves each registered type with an origin: it was always there, it is a structure with
the fields that are described under its name, it belongs to a field of a described structure, or no
structure is described under its name. A type that belongs to a field can have the name of a
described structure. So a packet that is described as a structure is that structure, unless it is the
bit string or the array of a field that happens to have its name.
-/

namespace PacketDraft.Protocol

open Attempt Store

variable {name : String} {methods : List String}

/-! ## Structures and packets in a store -/

section Structures

variable {s s' : Store} {t : TypeRef} {fields : List Field}

theorem Made.looks {form : Form} {e : Entry} {ms : Members}
    (made : Made methods [] form name s s' e ms) :
    s'.Looks (.id s.entries.length) form e.size [] := by
  refine ⟨e, made.entryOf, made.form, rfl, ?_⟩
  rw [made.members_new, List.eq_nil_iff_forall_not_mem]
  intro f mem
  exact absurd (made.fields f mem) List.not_mem_nil

theorem Store.pdus_modifyEntry (s : Store) (t : TypeRef) (f : Entry → Entry) :
    (s.modifyEntry t f).pdus = s.pdus := by
  cases t <;> rfl

theorem pdus_of_edits (edits : Edits methods fields t s s') : s'.pdus = s.pdus := by
  induction edits with
  | refl => rfl
  | tail _ edit ih =>
    rw [← ih]
    obtain ⟨f, rfl, -⟩ | ⟨f, rfl, -⟩ := edit_cases edit
    · exact pdus_modifyEntry _ t f
    · unfold modifyMembers
      split <;> rfl

/-- Packets stay packets. -/
theorem steps_pdus (steps : Steps s s') : s.pdus <+: s'.pdus := by
  induction steps with
  | refl => exact List.prefix_rfl
  | tail _ step ih =>
    refine ih.trans ?_
    cases step with
    | push | register => exact List.prefix_rfl
    | edit methods fields edit => simp only [pdus_of_edits (.single edit), List.prefix_rfl]
    | pdu => exact List.prefix_append ..
    | rename => exact List.prefix_rfl

theorem Store.isRepresentable_iff : s.isRepresentable t = true ↔
    ∃ e, s.entryOf t = some e ∧ e.form.isRepresentable = true := by
  unfold isRepresentable
  cases s.entryOf t with
  | none => simp
  | some e => simp

theorem Store.Grows.isRepresentable (grows : s.Grows s') (sent : s.isRepresentable t = true) :
    s'.isRepresentable t = true := by
  obtain ⟨e, entry, sends⟩ := isRepresentable_iff.mp sent
  obtain ⟨e', entry', form, -⟩ := grows.entryOf t e entry
  exact isRepresentable_iff.mpr ⟨e', entry', form ▸ sends⟩

end Structures

end PacketDraft.Protocol

namespace PacketDraft.Description

open Protocol Document Text Build

/-! ## Origins -/

/-- The forms of types that belong to fields. -/
def isMemberForm : Form → Bool
  | .bitString | .array _ _ => true
  | _ => false

/-- Where a type comes from that is registered under a name. -/
inductive Origin (t : Tables) (s : Store) (name : String) (type : TypeRef) : Prop
  | basic (initial : (name, type) ∈ Store.initial.types)
  | struct {row : StructRow} {size : Option Expr} {fields : List Field}
      (described : t.structs.lookup name = some row) (looks : s.Looks type .struct size fields)
      (labels : fields.map (·.name) = row.labels)
  | member {struct label : String} {form : Form} {size : Option Expr}
      (field : t.HasLabel struct label) (named : name = memberTypeName struct label)
      (looks : s.Looks type form size []) (kind : isMemberForm form = true)
  | other (undescribed : t.structs.lookup name = none)

theorem Origin.grows {t : Tables} {s s' : Store} {type : TypeRef} (origin : Origin t s name type)
    (grows : s.Grows s') : Origin t s' name type := by
  cases origin with
  | basic initial => exact .basic initial
  | struct described looks labels => exact .struct described (looks.grows grows) labels
  | member field named looks kind => exact .member field named (looks.grows grows) kind
  | other undescribed => exact .other undescribed

/-- A packet that is listed and can be sent. -/
def Sends (t : Tables) (s : Store) (name : String) : Prop :=
  name ∈ t.pdus.getD [] ∧ ∃ type, s.types.lookup name = some type ∧ s.isRepresentable type = true

theorem Sends.grows {t : Tables} {s s' : Store} (sends : Sends t s name) (grows : s.Grows s') :
    Sends t s' name := by
  obtain ⟨listed, type, found, sent⟩ := sends
  exact ⟨listed, type, grows.lookup found, grows.isRepresentable sent⟩

/-- Every registered type has an origin, and every packet is listed. -/
structure Attributed (t : Tables) (w : Workshop) : Prop where
  regular : w.store.Regular
  types : ∀ p ∈ w.store.types, Origin t w.store p.1 p.2
  packets : ∀ name ∈ w.store.pdus, Sends t w.store name

section Moves

variable {N : String → Prop} {t : Tables} {w w' : Workshop}

section

variable (attributed : Attributed t w)

include attributed

/-- A change of the protocol that registers nothing and defines no packet. -/
theorem Attributed.changed {α : Type} {c : Change α} {a : α} (made : change c w = (.ok a, w'))
    (regular : w'.store.Regular) (grows : Attempt.Keeps Store.Grows c)
    (types : w'.store.types = w.store.types) (pdus : w'.store.pdus = w.store.pdus) :
    Attributed t w' := by
  have later := grows.of_eq (change_eq_ok made)
  refine ⟨regular, ?_, ?_⟩
  · intro p mem
    rw [types] at mem
    exact (attributed.types p mem).grows later
  · intro name mem
    rw [pdus] at mem
    exact (attributed.packets name mem).grows later

/-- A type that is registered has an origin. -/
theorem Attributed.registered {fields : List Field} {form : Form} {make : Change TypeRef}
    {type : TypeRef} (makes : Makes methods fields form (some name) make)
    (made : register make w = (.ok type, w'))
    (origin : ∀ s, make w.store = (.ok type, s) → Origin t s name type) : Attributed t w' := by
  obtain ⟨s, registers⟩ := register_registers makes attributed.regular made
  have pdus : w'.store.pdus = w.store.pdus := by
    obtain ⟨s₁, outcome, added⟩ := register_eq_ok made
    obtain ⟨_, -, -, after⟩ := (addType_changes type).of_ok added
    obtain ⟨_, failed⟩ | ⟨given, size, r, s₂, -, result, edits, -⟩ := makes w.store
    · rw [failed] at outcome
      cases outcome
    · rw [result] at outcome
      cases outcome
      rw [after]
      show s₁.pdus = _
      rw [pdus_of_edits edits]
      rfl
  refine ⟨registers.regular, ?_, ?_⟩
  · intro p mem
    rw [registers.types] at mem
    rcases List.mem_append.mp mem with old | new
    · exact (attributed.types p old).grows registers.grows
    · rw [List.mem_singleton.mp new]
      exact (origin s registers.made).grows registers.after
  · intro packet mem
    rw [pdus] at mem
    exact (attributed.packets packet mem).grows registers.grows

/-- A type that belongs to a field is registered. -/
theorem Attributed.registered_member {form : Form} {struct label : String} {make : Change TypeRef}
    {type : TypeRef} (makes : Makes methods [] form (some (memberTypeName struct label)) make)
    (made : register make w = (.ok type, w')) (field : t.HasLabel struct label)
    (kind : isMemberForm form = true) : Attributed t w' := by
  refine attributed.registered makes made fun s outcome => ?_
  obtain ⟨s', e, ms, outcome', new, rfl, -⟩ := register_made makes made
  rw [outcome'] at outcome
  cases outcome
  exact .member field rfl new.looks kind

/-- No move takes the origin of a type away. -/
theorem Attributed.move (move : Move N t w w') : Attributed t w' := by
  have regular := (attributed.regular.steps move.steps).2
  cases move with
  | trim struct label => exact ⟨attributed.regular, attributed.types, attributed.packets⟩
  | slot _ added =>
    obtain ⟨e, -, -, -, after⟩ := (addSlot_changes _ _ _).of_ok (change_eq_ok added)
    refine attributed.changed added regular (addSlot_grows _ _ _) ?_ ?_
    · rw [after, Store.types_modifyMembers]
    · rw [after]
      unfold Store.modifyMembers
      split <;> rfl
  | bits field _ made =>
    exact attributed.registered_member (makeBitString_makes _ _) made field rfl
  | array field _ _ _ made =>
    exact attributed.registered_member (makeArray_makes _ _ _ _) made field rfl
  | struct described labels _ _ _ made =>
    refine attributed.registered (makeStruct_makes _ _ _ _) made fun s outcome => ?_
    obtain ⟨-, sum, -, -, looks⟩ := makeStruct_looks outcome attributed.regular
    exact .struct described looks labels
  | enum described _ made =>
    exact attributed.registered (makeEnum_makes _ _) made fun _ _ => .other described.1
  | function described _ made =>
    exact attributed.registered (makeType_makes _ _ _) made fun _ _ => .other described.1
  | packet listed defined =>
    have outcome := change_eq_ok defined
    obtain ⟨type, known, sent, after⟩ := (definePdu_changes _).of_ok outcome
    have grows := (definePdu_grows _).of_eq outcome
    refine ⟨regular, ?_, ?_⟩
    · intro p mem
      rw [after] at mem
      exact (attributed.types p mem).grows grows
    · intro name mem
      rw [after] at mem
      rcases List.mem_append.mp mem with old | new
      · exact (attributed.packets name old).grows grows
      · rw [List.mem_singleton.mp new]
        refine Sends.grows ⟨listed, type, ?_, sent⟩ grows
        unfold Store.getType at known
        split at known
        · next found =>
          cases known
          exact found
        · cases known
  | rename named =>
    obtain ⟨-, after⟩ := (setProtocolName_changes _).of_ok (change_eq_ok named)
    refine attributed.changed named regular (setProtocolName_grows _) ?_ ?_
    · rw [after, Store.types_modifyEntry]
    · rw [after]
      rfl

theorem Attributed.moves (moves : Moves N t w w') : Attributed t w' := by
  induction moves with
  | refl => exact attributed
  | tail _ move ih => exact ih.move move

end

theorem attributed_initial (t : Tables) : Attributed t ⟨t, .initial⟩ where
  regular := ready_initial.regular
  types _ mem := .basic mem
  packets _ mem := absurd mem List.not_mem_nil

end Moves

theorem anchored_initial : Store.initial.Anchored where
  regular := ready_initial.regular
  unit := by
    have shown : (Store.initial.entryOf .dataUnit).map (fun e => (e.name, e.form.label))
        = some (some "DataUnit", "BitString") := by
      decide
    obtain ⟨e, entry, own⟩ := Option.map_eq_some_iff.mp shown
    obtain ⟨named, label⟩ := Prod.mk.inj own
    refine ⟨e, entry, named, fun protocol => ?_⟩
    rw [protocol] at label
    exact absurd label (by decide)
  alone name mem := by
    have mem : (name, TypeRef.dataUnit) ∈ [("Context", TypeRef.context), ("DataUnit", .dataUnit)] :=
      mem
    simpa [TypeRef.context, TypeRef.dataUnit] using mem

/-! ## Packets that are described as structures -/

/-- All packets that are listed are defined. -/
theorem buildPackets_pdus {N : String → Prop} {t : Tables} {names : List String} {w w' : Workshop}
    (listed : ∀ name ∈ names, name ∈ t.pdus.getD []) (trims : t.Trims N w.tables)
    (anchored : w.store.Anchored) (built : Attempt.each buildPacket names w = (.ok (), w')) :
    ∀ name ∈ names, name ∈ w'.store.pdus := by
  induction names generalizing w with
  | nil => simp
  | cons name names ih =>
    rw [List.forall_mem_cons] at listed
    obtain ⟨_, u, first, rest⟩ := Attempt.bind_eq_ok.mp built
    obtain ⟨moves, trims', -⟩ := goes_buildPacket listed.1 w _ u trims anchored first
    have anchored' := anchored.steps moves.steps
    obtain ⟨moves, -, -⟩ := goes_buildPackets listed.2 u _ w' trims' anchored' rest
    obtain ⟨_, v, -, defined⟩ := Attempt.bind_eq_ok.mp first
    obtain ⟨type, -, -, after⟩ := (definePdu_changes name).of_ok (change_eq_ok defined)
    refine List.forall_mem_cons.mpr ⟨?_, ih listed.2 trims' anchored' rest⟩
    refine (steps_pdus moves.steps).subset ?_
    rw [after]
    simp

theorem buildTables_pdus {N : String → Prop} {t : Tables} {w w' : Workshop}
    (trims : t.Trims N w.tables) (anchored : w.store.Anchored)
    (built : buildTables w = (.ok (), w')) : ∀ name ∈ t.pdus.getD [], name ∈ w'.store.pdus := by
  unfold buildTables at built
  rw [Attempt.read_bind, trims.pdus] at built
  cases found : t.pdus with
  | none => simp
  | some names =>
    rw [found] at built
    obtain ⟨_, u, each, rest⟩ := Attempt.bind_eq_ok.mp built
    obtain ⟨given, _, asked, rest⟩ := Attempt.bind_eq_ok.mp rest
    obtain ⟨-, rfl⟩ := Attempt.read_eq_ok.mp asked
    have defined := buildPackets_pdus (fun name mem => by rwa [found]) trims anchored each
    have steps := (setProtocolName_steps _).of_eq (change_eq_ok rest)
    intro name mem
    exact (steps_pdus steps).subset (defined name mem)

/-- A document is built from the tables of what it declares. -/
theorem buildProtocol_eq_ok {document : Element} {w : Workshop}
    (built : buildProtocol (some document) {} = (.ok (), w)) :
    ∃ t, Tables.noteDocument document {} = (.ok (), t) ∧
      buildTables ⟨t, .initial⟩ = (.ok (), w) := by
  obtain ⟨_, u, collected, rest⟩ := Attempt.bind_eq_ok.mp built
  cases noted : Tables.noteDocument document {} with
  | mk result t =>
    simp only [collect, noted, Prod.mk.injEq] at collected
    obtain ⟨rfl, rfl⟩ := collected
    exact ⟨t, rfl, rest⟩

theorem Formula.spells_any (formula : Formula) : formula.Spells fun _ => True := by
  induction formula with
  | number | field | sizeOf => trivial
  | member => exact ⟨trivial, trivial⟩
  | binary _ _ _ ihLeft ihRight => exact ⟨ihLeft, ihRight⟩

/-- Where all names will do, tables are trimmed to themselves. -/
theorem Tables.trims_self (t : Tables) : t.Trims (fun _ => True) t where
  labels _ := rfl
  enums := rfl
  functions := rfl
  pdus := rfl
  whole := trivial
  spells _ row _ := by
    refine ⟨fun _ _ => trivial, fun p _ => ?_⟩
    exact ⟨fun f _ => f.spells_any, fun f _ => f.spells_any, fun f _ => f.spells_any,
      fun action _ => ⟨action.1.spells_any, trivial⟩⟩

theorem Tables.Trims.hasLabel {N : String → Prop} {t u : Tables} {struct label : String}
    (trims : t.Trims N u) (field : t.HasLabel struct label) : u.HasLabel struct label := by
  obtain ⟨row, found, mem⟩ := field
  have same := trims.labels struct
  rw [found, Option.map_some] at same
  obtain ⟨own, found', labels⟩ := Option.map_eq_some_iff.mp same
  exact ⟨own, found', labels ▸ mem⟩

/-- A type that was always there is no packet, as the context cannot be sent. -/
theorem not_mem_initial {s : Store} {type : TypeRef} (regular : s.Regular)
    (phrased : ∃ phrase, typeName phrase = .ok name) (sent : s.isRepresentable type = true) :
    (name, type) ∉ Store.initial.types := by
  intro initial
  have mem : (name, type) ∈ [("Context", TypeRef.context), ("DataUnit", .dataUnit)] := initial
  simp only [List.mem_cons, Prod.mk.injEq, List.not_mem_nil, or_false] at mem
  rcases mem with ⟨rfl, rfl⟩ | ⟨rfl, -⟩
  · obtain ⟨e, entry, sends⟩ := Store.isRepresentable_iff.mp sent
    obtain ⟨e', entry', form⟩ := regular.basic (.context, .context) (by simp [Store.basis])
    rw [entry] at entry'
    cases entry'
    rw [form] at sends
    cases sends
  · obtain ⟨phrase, named⟩ := phrased
    exact typeName_ne_dataUnit phrase named

/-- A packet that is described as a structure is a structure with the described fields in their order,
unless its name is the name of a type that belongs to a field of a described structure. -/
theorem packet_as_described {document : Element} {w : Workshop}
    (built : buildProtocol (some document) {} = (.ok (), w)) {name : String} {row : StructRow}
    (packet : name ∈ w.tables.pdus.getD []) (described : w.tables.structs.lookup name = some row) :
    name ∈ w.store.pdus ∧ ∃ type e,
      w.store.types.lookup name = some type ∧ w.store.entryOf type = some e ∧ e.name = some name ∧
      (e.form = .struct ∧ (w.store.fieldsOf type).map (·.name) = row.labels ∨
        isMemberForm e.form = true ∧
          ∃ struct label, w.tables.HasLabel struct label ∧ name = memberTypeName struct label) := by
  obtain ⟨t, noted, outcome⟩ := buildProtocol_eq_ok built
  obtain ⟨moves, trims, -⟩ :=
    goes_buildTables (fun _ => True) t ⟨t, .initial⟩ () w t.trims_self anchored_initial outcome
  have attributed := (attributed_initial t).moves moves
  rw [trims.pdus] at packet
  have defined := buildTables_pdus t.trims_self anchored_initial outcome name packet
  obtain ⟨listed, type, found, sent⟩ := attributed.packets name defined
  obtain ⟨e, entry, named, -⟩ := (buildProtocol_closed built).2.named name type
    (Store.mem_of_lookup found)
  obtain ⟨own, described', labels⟩ := trims.exists_row described
  refine ⟨defined, type, e, found, entry, named, ?_⟩
  cases attributed.types (name, type) (Store.mem_of_lookup found) with
  | basic initial =>
    have phrased := Tables.namesPackets_noteDocument noted name listed
    exact absurd initial (not_mem_initial attributed.regular phrased sent)
  | struct described'' looks fields =>
    rw [described'] at described''
    cases described''
    left
    rw [looks.fieldsOf, fields, labels]
    obtain ⟨e', entry', form, -⟩ := looks
    rw [entry] at entry'
    cases entry'
    exact ⟨form, rfl⟩
  | member field same looks kind =>
    right
    obtain ⟨e', entry', form, -⟩ := looks
    rw [entry] at entry'
    cases entry'
    exact ⟨form ▸ kind, _, _, trims.hasLabel field, same⟩
  | other undescribed =>
    rw [described'] at undescribed
    cases undescribed

/-- A frame with a body, and a packet that is called its body. -/
def framePackets : List Element :=
  describing "A Frame" ["Body: 8 bits."] ++
  describing "A Frame Body" ["Kind: 4 bits.", "Code: 4 bits."]

/-- What is declared of frames and their bodies. -/
def frameTables : Tables where
  structs :=
    [("Frame", .ofFields [counted "body" 8 "bits"]),
     ("Frame_body", .ofFields [counted "kind" 4 "bits", counted "code" 4 "bits"])]

theorem noteDocument_frames :
    Tables.noteDocument (exampleDocument framePackets "Frames, and Frame Bodys") {}
      = (.ok (), frameTables.withPackets ["Frame", "Frame_body"]) :=
  noteDocument_example (t := frameTables) (by decide +kernel) (by decide +kernel)

theorem packet_as_described_frame :
    ∃ w row, buildProtocol (some (exampleDocument framePackets "Frames, and Frame Bodys")) {}
        = (.ok (), w) ∧
      "Frame" ∈ w.tables.pdus.getD [] ∧ w.tables.structs.lookup "Frame" = some row ∧
      row.labels = ["body"] ∧ "Frame" ∈ w.store.pdus ∧
      ∃ type e, w.store.types.lookup "Frame" = some type ∧ w.store.entryOf type = some e ∧
        e.name = some "Frame" ∧
        (e.form = .struct ∧ (w.store.fieldsOf type).map (·.name) = row.labels ∨
          isMemberForm e.form = true ∧ ∃ struct label, w.tables.HasLabel struct label ∧
            "Frame" = memberTypeName struct label) := by
  have viewed : builtWith (frameTables.withPackets ["Frame", "Frame_body"]) (fun w =>
      (w.tables.pdus.getD [], (w.tables.structs.lookup "Frame").map (·.labels)))
        = some (["Frame", "Frame_body"], some ["body"]) := by
    decide +kernel
  obtain ⟨w, built, view⟩ := exists_built noteDocument_frames viewed
  obtain ⟨pdus, labels⟩ := Prod.mk.inj view
  obtain ⟨row, found, own⟩ := Option.map_eq_some_iff.mp labels
  have packet : "Frame" ∈ w.tables.pdus.getD [] := by simp [pdus]
  exact ⟨w, row, built, packet, found, own, packet_as_described built packet found⟩

/-- The body of a frame takes the place of the packet that is called a frame body. -/
theorem frame_body_replaced :
    ∃ w row type e,
      buildProtocol (some (exampleDocument framePackets "Frames, and Frame Bodys")) {}
        = (.ok (), w) ∧
      "Frame_body" ∈ w.store.pdus ∧ w.tables.structs.lookup "Frame_body" = some row ∧
      row.labels = ["kind", "code"] ∧ w.store.types.lookup "Frame_body" = some type ∧
      w.store.entryOf type = some e ∧ isMemberForm e.form = true ∧
      (w.store.fieldsOf type).map (·.name) ≠ row.labels := by
  have viewed : builtWith (frameTables.withPackets ["Frame", "Frame_body"]) (fun w =>
      (w.store.pdus, (w.tables.structs.lookup "Frame_body").map (·.labels),
        w.store.types.lookup "Frame_body", (w.store.entryOf (.id 6)).map (isMemberForm ·.form)))
        = some (["Frame", "Frame_body"], some ["kind", "code"], some (.id 6), some true) := by
    decide +kernel
  obtain ⟨w, built, view⟩ := exists_built noteDocument_frames viewed
  simp only [Prod.mk.injEq] at view
  obtain ⟨pdus, labels, found, kind⟩ := view
  obtain ⟨row, described, own⟩ := Option.map_eq_some_iff.mp labels
  obtain ⟨e, entry, kind⟩ := Option.map_eq_some_iff.mp kind
  have other : e.form ≠ .struct := by
    intro struct
    rw [struct] at kind
    cases kind
  refine ⟨w, row, .id 6, e, built, by simp [pdus], described, own, found, entry, kind, ?_⟩
  rw [Store.fieldsOf_other entry other, own]
  simp

end PacketDraft.Description
