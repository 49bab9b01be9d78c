import PacketDraft.Memo.Grammar
import PacketDraft.Proofs.Description.Build
import PacketDraft.Proofs.Description.Declarations

/-!
# The order of sections

What is built depends on the tables only as maps. Two runs that start from the same protocol and
tables that tell the same end alike (`Agrees`). As sections without a key in common declare the same
in any order, they also give the same protocol in any order: `buildProtocol_perm`.
-/

namespace PacketDraft.Description

open Document Protocol Build Attempt Tables

variable {α β : Type}
variable {document : Element} {es : List Element}

/-! ## Runs from tables that tell the same -/

/-- The same protocol, and tables that tell the same and are of the same depth. -/
structure Same (w w' : Workshop) : Prop where
  store : w.store = w'.store
  maps : w.tables.maps = w'.tables.maps
  depth : w.tables.depth = w'.tables.depth

/-- From workshops that are the same, two runs give the same and leave the same. -/
def Agrees (x : Build α) : Prop :=
  ∀ w w', Same w w' → (x w).1 = (x w').1 ∧ Same (x w).2 (x w').2

theorem agrees_pure (a : α) : Agrees (pure a) :=
  fun _ _ same => ⟨rfl, same⟩

theorem agrees_fail (e : Fault) : Agrees (fail e : Build α) :=
  fun _ _ same => ⟨rfl, same⟩

theorem agrees_ofExcept (x : Except Fault α) : Agrees (ofExcept x) :=
  fun _ _ same => ⟨rfl, same⟩

/-- A question to the tables that maps can answer. -/
theorem agrees_consult {f : Tables → Except Fault α}
    (told : ∀ t u : Tables, t.maps = u.maps → f t = f u) : Agrees (consult f) :=
  fun w w' same => ⟨told w.tables w'.tables same.maps, same⟩

theorem agrees_read {f : Workshop → α} (told : ∀ w w', Same w w' → f w = f w') :
    Agrees (read f) :=
  fun w w' same => ⟨congrArg Except.ok (told w w' same), same⟩

theorem agrees_change (c : Change α) : Agrees (change c) := by
  intro w w' same
  show (c w.store).1 = (c w'.store).1 ∧
    Same { w with store := (c w.store).2 } { w' with store := (c w'.store).2 }
  rw [same.store]
  exact ⟨rfl, rfl, same.maps, same.depth⟩

theorem Agrees.bind {x : Build α} {f : α → Build β} (first : Agrees x) (rest : ∀ a, Agrees (f a)) :
    Agrees (x >>= f) := by
  intro w w' same
  have outcome := first w w' same
  rw [bind_apply, bind_apply]
  generalize x w = y at outcome ⊢
  generalize x w' = y' at outcome ⊢
  obtain ⟨r, u⟩ := y
  obtain ⟨r', u'⟩ := y'
  obtain ⟨rfl, states⟩ : r = r' ∧ Same u u' := outcome
  cases r with
  | error e => exact ⟨rfl, states⟩
  | ok a => exact rest a u u' states

theorem Agrees.each {f : α → Build Unit} (one : ∀ a, Agrees (f a)) (as : List α) :
    Agrees (each f as) := by
  induction as with
  | nil => exact agrees_pure ()
  | cons a as ih => exact (one a).bind fun _ => ih

/-- Going on after a look at what two workshops have in common. -/
theorem agrees_read_bind {f : Workshop → Build α} (told : ∀ w w', Same w w' → f w = f w')
    (each : ∀ w, Agrees (f w)) : Agrees (read id >>= f) := by
  intro w w' same
  rw [read_bind, read_bind, id_eq, id_eq, ← told w w' same]
  exact each w w w' same

/-! ## Questions to the tables -/

namespace Tables

variable {t u : Tables}

theorem getStruct_congr (same : t.maps = u.maps) (name : String) :
    t.getStruct name = u.getStruct name := by
  have row : t.structs.lookup name = u.structs.lookup name :=
    congrFun (congrArg Maps.structs same) name
  rw [getStruct, row, getStruct]

theorem resolveLabel_congr (same : t.maps = u.maps) (struct label : String) :
    t.resolveLabel struct label = u.resolveLabel struct label := by
  rw [resolveLabel, getStruct_congr same, resolveLabel]

theorem structOfField_congr (same : t.maps = u.maps) (struct label name : String) :
    t.structOfField struct label name = u.structOfField struct label name := by
  rw [structOfField, getStruct_congr same, structOfField]

theorem constraintOf_congr (same : t.maps = u.maps) (struct label : String) :
    t.constraintOf struct label = u.constraintOf struct label := by
  have row : t.structs.lookup struct = u.structs.lookup struct :=
    congrFun (congrArg Maps.structs same) struct
  rw [constraintOf, row, constraintOf]

/-- A change of the row under one key. -/
theorem lookup_map_at (key : String) (f : α → α) (rows : List (String × α)) (k : String) :
    (rows.map fun (s, row) => if s = key then (s, f row) else (s, row)).lookup k
      = (rows.lookup k).map fun row => if k = key then f row else row := by
  induction rows with
  | nil => rfl
  | cons row rows ih =>
    obtain ⟨s, row⟩ := row
    rw [List.map_cons, Table.lookup_cons_eq]
    by_cases changed : s = key
    · simp only [if_pos changed]
      rw [Table.lookup_cons_eq, ih]
      by_cases here : k = s
      · rw [if_pos here, if_pos here, Option.map_some, if_pos (here.trans changed)]
      · rw [if_neg here, if_neg here]
    · simp only [if_neg changed]
      rw [Table.lookup_cons_eq, ih]
      by_cases here : k = s
      · rw [if_pos here, if_pos here, Option.map_some, if_neg (here ▸ changed)]
      · rw [if_neg here, if_neg here]

/-- A structure without the constraint of a field. -/
def withoutConstraint (label : String) (row : StructRow) : StructRow :=
  { row with fields := row.fields.map fun (l, f) =>
      if l = label then (l, { f with title := { f.title with constraint := none } }) else (l, f) }

theorem lookup_dropConstraint (t : Tables) (struct label k : String) :
    (t.dropConstraint struct label).structs.lookup k = (t.structs.lookup k).map fun row =>
      if k = struct then withoutConstraint label row else row :=
  lookup_map_at struct (withoutConstraint label) t.structs k

theorem maps_dropConstraint_congr (same : t.maps = u.maps) (struct label : String) :
    (t.dropConstraint struct label).maps = (u.dropConstraint struct label).maps := by
  have rows : (t.dropConstraint struct label).maps.structs
      = (u.dropConstraint struct label).maps.structs := by
    funext k
    have row : t.structs.lookup k = u.structs.lookup k := congrFun (congrArg Maps.structs same) k
    show (t.dropConstraint struct label).structs.lookup k = _
    rw [t.lookup_dropConstraint, row, ← u.lookup_dropConstraint]
    rfl
  have others : ({ t.maps with structs := (t.dropConstraint struct label).maps.structs } : Maps)
      = { u.maps with structs := (u.dropConstraint struct label).maps.structs } := by
    rw [same, rows]
  exact others

theorem depth_dropConstraint (t : Tables) (struct label : String) :
    (t.dropConstraint struct label).depth = t.depth := by
  rw [depth, dropConstraint, List.length_map, depth]

end Tables

/-! ## Building -/

section Building

variable {build : Builder} (all : ∀ name, Agrees (build name))

theorem agrees_buildAccess (struct label : String) : Agrees (buildAccess struct label) :=
  (agrees_consult fun _ _ same => resolveLabel_congr same struct label).bind
    fun _ => agrees_pure _

include all

theorem agrees_buildExpr (struct : String) (f : Formula) : Agrees (buildExpr build struct f) := by
  induction f with
  | number n => exact (all _).bind fun _ => agrees_pure _
  | field label => exact (agrees_buildAccess struct label).bind fun _ => agrees_pure _
  | sizeOf label => exact (agrees_buildAccess struct label).bind fun _ => agrees_pure _
  | member label inner =>
    unfold buildExpr
    refine (agrees_consult fun _ _ same => resolveLabel_congr same struct label).bind
      fun name => ?_
    refine (agrees_consult fun _ _ same => structOfField_congr same struct label name).bind
      fun innerStruct => ?_
    exact (agrees_consult fun _ _ same => resolveLabel_congr same innerStruct inner).bind
      fun _ => agrees_pure _
  | binary op left right ihLeft ihRight =>
    exact ihLeft.bind fun _ => ihRight.bind fun _ => agrees_pure _

theorem agrees_buildExpr? (struct : String) (f : Option Formula) :
    Agrees (buildExpr? build struct f) := by
  cases f with
  | none => exact agrees_pure none
  | some f => exact (agrees_buildExpr all struct f).bind fun _ => agrees_pure _

omit all in
theorem agrees_dropConstraint (struct label : String) : Agrees (update fun w : Workshop =>
    { w with tables := w.tables.dropConstraint struct label }) := by
  intro w w' same
  refine ⟨rfl, same.store, maps_dropConstraint_congr same.maps struct label, ?_⟩
  exact (w.tables.depth_dropConstraint struct label).trans
    (same.depth.trans (w'.tables.depth_dropConstraint struct label).symm)

theorem agrees_buildUnitType (struct unit : String) (title : FieldTitle) :
    Agrees (buildUnitType build struct unit title) := by
  have rest : ∀ size, Agrees (do
      let unitName ← ofExcept (typeName unit)
      let element ← build unitName
      register (makeArray (some (memberTypeName struct title.fullLabel)) element none size)) :=
    fun size => (agrees_ofExcept _).bind fun _ => (all _).bind fun _ => agrees_change _
  unfold buildUnitType
  split
  · refine (agrees_buildExpr? all struct title.constraint).bind fun constraint => ?_
    dsimp only
    split
    · exact (agrees_dropConstraint struct title.fullLabel).bind fun _ => rest _
    · exact rest _
  · exact (agrees_ofExcept _).bind fun _ => all _

theorem agrees_sizeInBits (unit : Option String) (size : Option Expr) :
    Agrees (sizeInBits build unit size) := by
  unfold sizeInBits
  split
  · split
    · exact (all _).bind fun _ => agrees_pure _
    · exact agrees_pure _
  · split
    · exact (all _).bind fun _ => agrees_pure _
    · exact agrees_pure _
  · exact agrees_pure none

omit all in
theorem agrees_repeated (struct label : String) (t : TypeRef) (count : Option Expr) :
    Agrees (repeated struct label t count) := by
  unfold repeated
  refine (agrees_read fun w w' same => by rw [same.store]).bind fun representable => ?_
  cases count with
  | none => exact agrees_pure t
  | some e =>
    dsimp only
    split
    · exact agrees_change _
    · exact agrees_pure t

theorem agrees_buildStored (struct : String) (formula : Formula) (name : String) :
    Agrees (buildStored build struct formula name) :=
  (all _).bind fun _ => (agrees_change _).bind fun _ =>
    (agrees_buildExpr all struct formula).bind fun _ => agrees_pure _

theorem agrees_fieldUnit (struct : String) (title : FieldTitle) :
    Agrees (fieldUnit build struct title) := by
  unfold fieldUnit
  cases title.units with
  | none => exact agrees_pure _
  | some unit =>
    dsimp only
    split
    · exact agrees_pure _
    · exact agrees_buildUnitType all struct unit title

theorem agrees_fieldType (struct : String) (title : FieldTitle) (unitType : TypeRef)
    (size : Option Expr) : Agrees (fieldType build struct title unitType size) := by
  unfold fieldType
  split
  · exact (agrees_sizeInBits all title.units size).bind fun _ => agrees_change _
  · exact agrees_repeated struct title.fullLabel unitType size

theorem agrees_fieldPresence (struct : String) (title : FieldTitle) :
    Agrees (fieldPresence build struct title) := by
  unfold fieldPresence
  cases title.presence with
  | none => exact (all _).bind fun _ => agrees_pure _
  | some formula => exact agrees_buildExpr all struct formula

theorem agrees_fieldAction (struct : String) (row : FieldRow) :
    Agrees (fieldAction build struct row) := by
  unfold fieldAction
  cases row.stored with
  | none => exact agrees_pure none
  | some use => exact (agrees_buildStored all struct use.1 use.2).bind fun _ => agrees_pure _

theorem agrees_buildField (struct : String) (row : FieldRow) (parts : Parts) :
    Agrees (buildField build struct row parts) := by
  rw [buildField_eq]
  refine (agrees_fieldUnit all struct row.title).bind fun unitType => ?_
  refine (agrees_buildExpr? all struct row.title.size).bind fun size => ?_
  refine (agrees_read fun w w' same =>
    constraintOf_congr same.maps struct row.title.fullLabel).bind fun formula => ?_
  refine (agrees_buildExpr? all struct formula).bind fun constraint => ?_
  refine (agrees_fieldType all struct row.title unitType size).bind fun type => ?_
  refine (agrees_fieldPresence all struct row.title).bind fun presence => ?_
  refine (agrees_fieldAction all struct row).bind fun action => ?_
  exact (agrees_ofExcept _).bind fun field => agrees_pure _

theorem agrees_buildFields (struct : String) (rows : List FieldRow) (parts : Parts) :
    Agrees (buildFields build struct rows parts) := by
  induction rows generalizing parts with
  | nil => exact agrees_pure parts
  | cons row rows ih => exact (agrees_buildField all struct row parts).bind fun parts => ih parts

theorem agrees_buildStruct (name : String) (row : StructRow) :
    Agrees (buildStruct build name row) :=
  (agrees_buildFields all name _ {}).bind fun _ => agrees_change _

theorem agrees_buildTypes (names : List String) : Agrees (buildTypes build names) := by
  induction names with
  | nil => exact agrees_pure []
  | cons name names ih => exact (all name).bind fun _ => ih.bind fun _ => agrees_pure _

theorem agrees_buildConversion (conversion : Option (String × String)) :
    Agrees (buildConversion build conversion) := by
  cases conversion with
  | none => exact agrees_pure ()
  | some c => exact (all c.2).bind fun _ => agrees_pure ()

theorem agrees_buildEnum (name : String) (variants : List String) :
    Agrees (buildEnum build name variants) := by
  unfold buildEnum
  refine (agrees_buildTypes all variants).bind fun types => ?_
  refine (agrees_change _).bind fun t => ?_
  refine (agrees_read fun w w' same => congrFun (congrArg Maps.serialiseTo same.maps) name).bind
    fun serialise => ?_
  refine (agrees_buildConversion all serialise).bind fun _ => ?_
  refine (agrees_read fun w w' same => congrFun (congrArg Maps.parseFrom same.maps) name).bind
    fun parse => ?_
  exact (agrees_buildConversion all parse).bind fun _ => agrees_pure t

theorem agrees_buildParameters (parameters : List (String × String)) :
    Agrees (buildParameters build parameters) := by
  induction parameters with
  | nil => exact agrees_pure []
  | cons p parameters ih =>
    exact (agrees_ofExcept _).bind fun _ => (all _).bind fun _ => ih.bind fun _ => agrees_pure _

theorem agrees_buildFunction (name : String) (signature : Sentence.Signature) :
    Agrees (buildFunction build name signature) :=
  (agrees_buildParameters all _).bind fun _ => (agrees_ofExcept _).bind fun _ =>
    (all _).bind fun _ => agrees_change _

end Building

theorem agrees_buildWithin (depth : Nat) (name : String) : Agrees (buildWithin depth name) := by
  induction depth generalizing name with
  | zero => exact agrees_fail .endless
  | succ depth ih =>
    refine agrees_read_bind (fun w w' same => ?_) fun w => ?_
    · have structs : w.tables.structs.lookup name = w'.tables.structs.lookup name :=
        congrFun (congrArg Maps.structs same.maps) name
      have enums : w.tables.enums.lookup name = w'.tables.enums.lookup name :=
        congrFun (congrArg Maps.enums same.maps) name
      have functions : w.tables.functions.lookup name = w'.tables.functions.lookup name :=
        congrFun (congrArg Maps.functions same.maps) name
      rw [same.store, structs, enums, functions]
    · split
      · exact agrees_pure _
      · split
        · exact agrees_buildStruct ih name _
        · exact agrees_buildEnum ih name _
        · exact agrees_buildFunction ih name _
        · exact agrees_pure _
        · exact agrees_fail _

theorem agrees_buildTables : Agrees buildTables := by
  have packet : ∀ name, Agrees (buildPacket name) := by
    intro name
    refine Agrees.bind (x := buildType name) ?_ fun _ => agrees_change _
    exact (agrees_read fun w w' same => same.depth).bind fun depth => agrees_buildWithin depth name
  unfold buildTables
  refine (agrees_read fun w w' same => congrArg Maps.pdus same.maps).bind fun pdus => ?_
  cases pdus with
  | none => exact agrees_fail _
  | some pdus =>
    refine (Agrees.each packet pdus).bind fun _ => ?_
    exact (agrees_read fun w w' same => congrArg Maps.protocolName same.maps).bind fun name =>
      agrees_change _

/-! ## Documents -/

/-- The sections in the middle part of a document. -/
def middleSections? (document : Element) : Option (List Element) :=
  match document.part? "middle" with
  | some (.one middle) => middle.items?
  | _ => none

theorem exists_middle (found : middleSections? document = some es) :
    ∃ middle, document.part? "middle" = some (.one middle) ∧ middle.items? = some es := by
  unfold middleSections? at found
  split at found
  · next middle part => exact ⟨middle, part, found⟩
  · cases found

theorem noteDocument_eq (found : middleSections? document = some es) :
    noteDocument document = noteSections es := by
  obtain ⟨middle, part, items⟩ := exists_middle found
  unfold noteDocument
  simp only [part, items]

theorem Tables.Distinct.depth_eq {t u : Tables} (distinct : t.Distinct) (distinct' : u.Distinct)
    (same : t.maps = u.maps) : t.depth = u.depth := by
  have structs := Table.length_eq_of_lookup_eq distinct.structs distinct'.structs
    (congrFun (congrArg Maps.structs same))
  have enums := Table.length_eq_of_lookup_eq distinct.enums distinct'.enums
    (congrFun (congrArg Maps.enums same))
  have functions := Table.length_eq_of_lookup_eq distinct.functions distinct'.functions
    (congrFun (congrArg Maps.functions same))
  rw [depth, structs, enums, functions, depth]

/-- When all sections could be noted, the protocol is built from the tables that they leave. -/
theorem buildProtocol_eq (found : middleSections? document = some es) {w : Workshop}
    (noted : (noteSections es w.tables).1 = .ok ()) : buildProtocol (some document) w
      = buildTables { w with tables := (noteSections es w.tables).2 } := by
  have run : collect (noteSections es) w
      = (.ok (), { w with tables := (noteSections es w.tables).2 }) := by
    unfold collect
    rw [← noted]
  unfold buildProtocol
  dsimp only
  rw [noteDocument_eq found, bind_apply, run]

/-- When a section could not be noted, nothing is built. -/
theorem buildProtocol_fails (found : middleSections? document = some es) {w : Workshop} {e : Fault}
    (failed : (noteSections es w.tables).1 = .error e) :
    (buildProtocol (some document) w).1 = .error e ∧
    (buildProtocol (some document) w).2.store = w.store := by
  have run : collect (noteSections es) w
      = (.error e, { w with tables := (noteSections es w.tables).2 }) := by
    unfold collect
    rw [← failed]
  unfold buildProtocol
  dsimp only
  rw [noteDocument_eq found, bind_apply, run]
  exact ⟨rfl, rfl⟩

/-- Documents with the same sections in another order, no two of which declare the same, give the
same protocol or the same fault. They also give the same tables, as long as no paragraph without a
content list stops the noting half way. -/
theorem buildProtocol_perm {document document' : Element} {es es' : List Element}
    (found : middleSections? document = some es) (found' : middleSections? document' = some es')
    (perm : es.Perm es') (content : ∀ e ∈ es, Tables.hasContent e = true)
    (apart : es.Pairwise fun e f => Tables.Apart (Tables.declared e) (Tables.declared f))
    (w : Workshop) (distinct : w.tables.Distinct) :
    (buildProtocol (some document) w).1 = (buildProtocol (some document') w).1 ∧
    (buildProtocol (some document) w).2.store = (buildProtocol (some document') w).2.store ∧
    ((∀ e ∈ es, Tables.hasWholeContent e = true) →
      (buildProtocol (some document) w).2.tables.maps
        = (buildProtocol (some document') w).2.tables.maps) := by
  have content' : ∀ e ∈ es', Tables.hasContent e = true :=
    fun e mem => content e (perm.mem_iff.mpr mem)
  by_cases whole : ∀ e ∈ es, Tables.hasWholeContent e = true
  · have whole' : ∀ e ∈ es', Tables.hasWholeContent e = true :=
      fun e mem => whole e (perm.mem_iff.mpr mem)
    have maps := Tables.maps_noteSections_perm perm content whole apart w.tables
    obtain ⟨noted, -, kept⟩ := Tables.noteSections_eq content whole w.tables
    obtain ⟨noted', -, kept'⟩ := Tables.noteSections_eq content' whole' w.tables
    have start : Same { w with tables := (Tables.noteSections es w.tables).2 }
        { w with tables := (Tables.noteSections es' w.tables).2 } :=
      ⟨rfl, maps, (kept distinct).depth_eq (kept' distinct) maps⟩
    obtain ⟨result, same⟩ := agrees_buildTables _ _ start
    rw [buildProtocol_eq found noted, buildProtocol_eq found' noted']
    exact ⟨result, same.store, fun _ => same.maps⟩
  · have missing' : ¬ ∀ e ∈ es', Tables.hasWholeContent e = true :=
      fun all => whole fun e mem => all e (perm.mem_iff.mp mem)
    obtain ⟨fault, store⟩ :=
      buildProtocol_fails found (Tables.noteSections_fails content whole w.tables)
    obtain ⟨fault', store'⟩ :=
      buildProtocol_fails found' (Tables.noteSections_fails content' missing' w.tables)
    exact ⟨fault.trans fault'.symm, store.trans store'.symm, fun all => absurd all whole⟩

/-- A document with sections in its middle part. -/
def documentOf (sections : List Element) : Element :=
  .ofKind .rfc [.many [], .absent, .one (.ofKind .middle [.many sections] []), .absent] []

/-- A section that describes a packet of one field. -/
def packetSection (name art field : String) : Element :=
  Memo.sectionOf name
    [Memo.paragraphOf ("A " ++ name ++ " is formatted as follows:"),
     .ofKind .artwork [.one (.plain art)] [],
     Memo.paragraphOf "where:",
     .ofKind .dl [.pairs [(.ofKind .dt [.many [.plain field]] [], .ofKind .dd [.many []] [])]] []]

/-- A protocol of two packets, with a section for itself, for what they have in common, and for each
of them. -/
def echoSections : List Element :=
  [Memo.sectionOf "Overview" [Memo.paragraphOf
      "This document describes the Echo protocol. The Echo protocol uses Message."],
   Memo.sectionOf "Messages" [Memo.paragraphOf "A Message is either a Ping or a Pong."],
   packetSection "Ping" "0\n+-+-+\n| T |\n+-+-+\n" "Tag: 2 bits.",
   packetSection "Pong" "0\n+-+-+\n| T |\n+-+-+\n" "Tag: 2 bits."]

/-- The sections of the echo protocol may stand in reverse. -/
theorem buildProtocol_perm_echo :
    (buildProtocol (some (documentOf echoSections.reverse)) {}).2.store.dependencyOrder
      = ["Ping_tag", "Ping", "Pong_tag", "Pong", "Message", "Context"] ∧
    (buildProtocol (some (documentOf echoSections)) {}).1
      = (buildProtocol (some (documentOf echoSections.reverse)) {}).1 ∧
    (buildProtocol (some (documentOf echoSections)) {}).2.store
      = (buildProtocol (some (documentOf echoSections.reverse)) {}).2.store ∧
    (buildProtocol (some (documentOf echoSections)) {}).2.tables.maps
      = (buildProtocol (some (documentOf echoSections.reverse)) {}).2.tables.maps := by
  have found : middleSections? (documentOf echoSections) = some echoSections := rfl
  have found' : middleSections? (documentOf echoSections.reverse) = some echoSections.reverse := rfl
  have whole : ∀ e ∈ echoSections, Tables.hasWholeContent e = true := by decide +kernel
  have same := buildProtocol_perm found found' echoSections.reverse_perm.symm
    (by decide +kernel) (by decide +kernel) {} Tables.distinct_empty
  exact ⟨by decide +kernel, same.1, same.2.1, same.2.2 whole⟩

end PacketDraft.Description
