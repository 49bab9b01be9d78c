import PacketDraft.Proofs.Description.Lettering
import PacketDraft.Proofs.Description.Origin

/-!
# Short labels

A formula may call a field by its short label or by its full label, in any letter case. If the
labels of a structure cannot be mistaken for each other, then both lead to the full label. So a
formula with the one in the place of the other stands for the same expression, with the same effects
on what has been built, or fails in the same way. In an access to a field of a field, the outer label
belongs to the structure that is described, and the inner one to the structure that the outer field
consists of.
-/

namespace PacketDraft.Description

open Protocol Build List

/-! ## The labels of a structure -/

/-- A label for a field, in any letter case. -/
def FieldRow.Labelled (f : FieldRow) (label : String) : Prop :=
  f.title.shortLabel = some (fieldName label) ∨ f.title.fullLabel = fieldName label

instance (f : FieldRow) (label : String) : Decidable (f.Labelled label) :=
  inferInstanceAs (Decidable (_ ∨ _))

/-- The labels of fields cannot be mistaken for each other or for the whole object. -/
structure LabelsApart (fields : List FieldRow) : Prop where
  short : ∀ f ∈ fields, ∀ g ∈ fields, f.title.shortLabel.isSome = true →
    f.title.shortLabel = g.title.shortLabel → f.title.fullLabel = g.title.fullLabel
  full : ∀ f ∈ fields, ∀ g ∈ fields, f.title.shortLabel = some g.title.fullLabel →
    f.title.fullLabel = g.title.fullLabel
  whole : ∀ f ∈ fields, f.title.shortLabel ≠ some "this" ∧ f.title.fullLabel ≠ "this"

theorem lookup_aliases_add (row : StructRow) (f : FieldRow) (short : String) :
    (row.add f).aliases.lookup short
      = if f.title.shortLabel = some short then some f.title.fullLabel
        else row.aliases.lookup short := by
  unfold StructRow.add
  cases f.title.shortLabel with
  | none => rfl
  | some own =>
    rw [Table.lookup_put]
    by_cases same : short = own
    · rw [if_pos same, if_pos (congrArg some same.symm)]
    · rw [if_neg same, if_neg fun equal => same (Option.some.inj equal).symm]

/-- A short label leads to the last field that has it. -/
theorem lookup_aliases_ofFields (fields : List FieldRow) (short : String) :
    (StructRow.ofFields fields).aliases.lookup short = fields.reverse.findSome? fun f =>
      if f.title.shortLabel = some short then some f.title.fullLabel else none := by
  induction fields using List.reverseRecOn with
  | nil => rfl
  | append_singleton fields f ih =>
    rw [StructRow.ofFields, foldl_concat, lookup_aliases_add, ← StructRow.ofFields, ih,
      reverse_concat, List.findSome?_cons]
    by_cases own : f.title.shortLabel = some short
    · rw [if_pos own, if_pos own]
    · rw [if_neg own, if_neg own]

/-- Whatever label a field is called by, it is its full label that counts. -/
theorem LabelsApart.lookup_aliases {fields : List FieldRow} {f : FieldRow} {label : String}
    (apart : LabelsApart fields) (mem : f ∈ fields) (labelled : f.Labelled label) :
    ((StructRow.ofFields fields).aliases.lookup (fieldName label)).getD (fieldName label)
      = f.title.fullLabel := by
  rw [lookup_aliases_ofFields]
  cases found : fields.reverse.findSome? fun f =>
      if f.title.shortLabel = some (fieldName label) then some f.title.fullLabel else none with
  | none =>
    have noShort := List.findSome?_eq_none_iff.mp found f (mem_reverse.mpr mem)
    rcases labelled with short | full
    · rw [if_pos short] at noShort
      cases noShort
    · exact full.symm
  | some name =>
    obtain ⟨g, listed, own⟩ := exists_of_findSome?_eq_some found
    rw [mem_reverse] at listed
    split at own
    · next shortOf =>
      cases own
      rcases labelled with short | full
      · exact apart.short g listed f mem (by rw [shortOf]; rfl) (shortOf.trans short.symm)
      · exact apart.full g listed f mem (shortOf.trans (congrArg some full.symm))
    · cases own

/-- The fields in the table of a structure are among those that it was made from. -/
theorem forall_mem_ofFields (fields : List FieldRow) :
    ∀ p ∈ (StructRow.ofFields fields).fields, p.2 ∈ fields := by
  induction fields using List.reverseRecOn with
  | nil => simp [StructRow.ofFields]
  | append_singleton fields f ih =>
    rw [StructRow.ofFields, foldl_concat]
    exact forall_mem_put (mem_append_right fields mem_cons_self)
      fun p listed => mem_append_left [f] (ih p listed)

theorem LabelsApart.ne_this {fields : List FieldRow} {f : FieldRow} {label : String}
    (apart : LabelsApart fields) (mem : f ∈ fields) (labelled : f.Labelled label) :
    label ≠ "this" := by
  have this : fieldName "this" = "this" := by decide
  rintro rfl
  rcases labelled with short | full
  · exact (apart.whole f mem).1 (short.trans (congrArg some this))
  · exact (apart.whole f mem).2 (full.trans this)

/-! ## Formulas with other labels -/

namespace Tables

/-- The labels of each structure cannot be mistaken for each other. -/
def LabelsApart (t : Tables) : Prop :=
  ∀ name row, t.structs.lookup name = some row →
    ∃ fields, row = .ofFields fields ∧ Description.LabelsApart fields

/-- A label calls a field of a structure. -/
def Calls (t : Tables) (struct label : String) (f : FieldRow) : Prop :=
  ∃ row, t.structs.lookup struct = some row ∧ f ∈ row.fields.map (·.2) ∧ f.Labelled label

/-- The same label, or two labels of one field. -/
def SameField (t : Tables) (struct label label' : String) : Prop :=
  label = label' ∨ ∃ f, t.Calls struct label f ∧ t.Calls struct label' f

/-- Two formulas in the description of a structure that differ in the labels they call fields by. -/
inductive Respelled (t : Tables) (struct : String) : Formula → Formula → Prop
  | number (n : Nat) : Respelled t struct (.number n) (.number n)
  | field {label label' : String} (same : t.SameField struct label label') :
      Respelled t struct (.field label) (.field label')
  | sizeOf {label label' : String} (same : t.SameField struct label label') :
      Respelled t struct (.sizeOf label) (.sizeOf label')
  | member {label label' inner inner' : String} (same : t.SameField struct label label')
      (within : inner = inner' ∨ ∃ f nested, t.Calls struct label f ∧
        t.structOfField struct label f.title.fullLabel = .ok nested ∧
        t.SameField nested inner inner') :
      Respelled t struct (.member label inner) (.member label' inner')
  | binary (op : Operator) {left left' right right' : Formula}
      (first : Respelled t struct left left') (second : Respelled t struct right right') :
      Respelled t struct (.binary op left right) (.binary op left' right')

variable {t : Tables} {struct label label' : String}

theorem Calls.resolveLabel {f : FieldRow} (calls : t.Calls struct label f)
    (apart : t.LabelsApart) :
    label ≠ "this" ∧ t.resolveLabel struct label = .ok f.title.fullLabel := by
  obtain ⟨row, found, listed, labelled⟩ := calls
  obtain ⟨fields, rfl, own⟩ := apart struct row found
  obtain ⟨p, there, rfl⟩ := mem_map.mp listed
  have mem := forall_mem_ofFields fields p there
  have other := own.ne_this mem labelled
  refine ⟨other, ?_⟩
  unfold Tables.resolveLabel getStruct
  rw [if_neg other, found]
  exact congrArg Except.ok (own.lookup_aliases mem labelled)

/-- Both labels are for the whole object or none of them is, and both lead to the same name. -/
theorem SameField.resolveLabel (same : t.SameField struct label label') (apart : t.LabelsApart) :
    (label = "this" ↔ label' = "this") ∧
      t.resolveLabel struct label = t.resolveLabel struct label' := by
  obtain rfl | ⟨f, calls, calls'⟩ := same
  · exact ⟨Iff.rfl, rfl⟩
  · obtain ⟨other, resolved⟩ := calls.resolveLabel apart
    obtain ⟨other', resolved'⟩ := calls'.resolveLabel apart
    exact ⟨iff_of_false other other', resolved.trans resolved'.symm⟩

theorem SameField.structOfField (same : t.SameField struct label label') (apart : t.LabelsApart)
    (name : String) : t.structOfField struct label name = t.structOfField struct label' name := by
  unfold Tables.structOfField
  by_cases whole : label = "this"
  · rw [if_pos whole, if_pos ((same.resolveLabel apart).1.mp whole)]
  · rw [if_neg whole, if_neg (mt (same.resolveLabel apart).1.mpr whole)]

/-- A respelled formula means the same. -/
theorem Respelled.meaning {e e' : Formula} (respelled : t.Respelled struct e e')
    (apart : t.LabelsApart) : t.meaning struct e = t.meaning struct e' := by
  induction respelled with
  | number n => rfl
  | field same => rw [Tables.meaning, (same.resolveLabel apart).2, Tables.meaning]
  | sizeOf same => rw [Tables.meaning, (same.resolveLabel apart).2, Tables.meaning]
  | @member label label' inner inner' same within =>
    rw [Tables.meaning, Tables.meaning, ← (same.resolveLabel apart).2]
    cases resolved : t.resolveLabel struct label with
    | error fault => rfl
    | ok name =>
      show (t.structOfField struct label name >>= _) = (t.structOfField struct label' name >>= _)
      rw [← same.structOfField apart name]
      cases consists : t.structOfField struct label name with
      | error fault => rfl
      | ok nested =>
        have inside : t.resolveLabel nested inner = t.resolveLabel nested inner' := by
          obtain rfl | ⟨f, nested', calls, consists', same'⟩ := within
          · rfl
          · -- The label calls only one field, so there is only one structure to look into.
            rw [(calls.resolveLabel apart).2] at resolved
            cases resolved
            rw [consists'] at consists
            cases consists
            exact (same'.resolveLabel apart).2
        show (t.resolveLabel nested inner >>= _) = (t.resolveLabel nested inner' >>= _)
        rw [inside]
  | binary op _ _ first second => rw [Tables.meaning, Tables.meaning, first, second]

end Tables

/-! ## Expressions -/

section Expressions

variable {build : Builder} {struct : String}

/-- Questions to the tables one after the other are one question. -/
theorem consult_bind {α β : Type} {f : Tables → Except Fault α} {g : α → Build β}
    {h : α → Tables → Except Fault β} (rest : ∀ a, g a = consult (h a)) :
    (consult f >>= g) = consult fun t => f t >>= fun a => h a t := by
  funext w
  have asked : consult f w = (f w.tables, w) := rfl
  rw [Attempt.bind_apply, asked]
  show _ = (f w.tables >>= fun a => h a w.tables, w)
  cases f w.tables with
  | error fault => rfl
  | ok a => exact congrFun (rest a) w

theorem buildExpr_field (label : String) :
    buildExpr build struct (.field label) = consult (·.meaning struct (.field label)) := by
  rw [buildExpr, buildAccess, bind_assoc]
  exact consult_bind fun name => rfl

theorem buildExpr_sizeOf (label : String) :
    buildExpr build struct (.sizeOf label) = consult (·.meaning struct (.sizeOf label)) := by
  rw [buildExpr, buildAccess, bind_assoc]
  exact consult_bind fun name => rfl

theorem buildExpr_member (label inner : String) : buildExpr build struct (.member label inner)
    = consult (·.meaning struct (.member label inner)) := by
  rw [buildExpr]
  exact consult_bind fun name => consult_bind fun nested => consult_bind fun innerName => rfl

/-- Formulas that mean the same are answered alike from tables that are alike. -/
theorem consult_meaning {t : Tables} {w : Workshop} {e e' : Formula} (alike : w.tables.Alike t)
    (same : t.meaning struct e = t.meaning struct e') :
    consult (·.meaning struct e) w = consult (·.meaning struct e') w := by
  have meant : w.tables.meaning struct e = w.tables.meaning struct e' := by
    rw [alike.meaning, alike.meaning, same]
  exact congrArg (·, w) meant

end Expressions

/-- Short labels are aliases: where labels cannot be mistaken for each other, a formula that calls
the same fields by other labels has the same outcome, whatever constraints have been taken back. -/
theorem short_labels_are_aliases {t : Tables} (apart : t.LabelsApart) {struct : String}
    {e e' : Formula} (respelled : t.Respelled struct e e') (depth : Nat) {w : Workshop}
    (alike : w.tables.Alike t) (reached : Steps .initial w.store) :
    buildExpr (buildWithin depth) struct e w = buildExpr (buildWithin depth) struct e' w := by
  induction respelled generalizing w with
  | number n => rfl
  | field same =>
    rw [buildExpr_field, buildExpr_field]
    exact consult_meaning alike ((Tables.Respelled.field same).meaning apart)
  | sizeOf same =>
    rw [buildExpr_sizeOf, buildExpr_sizeOf]
    exact consult_meaning alike ((Tables.Respelled.sizeOf same).meaning apart)
  | member same within =>
    rw [buildExpr_member, buildExpr_member]
    exact consult_meaning alike ((Tables.Respelled.member same within).meaning apart)
  | @binary op left left' right right' _ _ first second =>
    rw [buildExpr, buildExpr, Attempt.bind_apply, Attempt.bind_apply, first alike reached]
    rcases outcome : buildExpr (buildWithin depth) struct left' w with ⟨_ | a, w'⟩
    · rfl
    · -- What the left operand builds may take back constraints. Labels mean the same after that.
      obtain ⟨moves, -, -⟩ := goes_buildExpr (buildWithin_going (fun _ => True) w.tables depth)
        left'.spells_any w a w' w.tables.trims_self (anchored_initial.steps reached) outcome
      have next := second (moves.alike.trans alike) (reached.trans moves.steps)
      show (buildExpr _ struct right >>= _) w' = (buildExpr _ struct right' >>= _) w'
      rw [Attempt.bind_apply, Attempt.bind_apply, next]

/-- A field with a short label and a unit. -/
def abbreviated (full short unit : String) : FieldRow :=
  ⟨{ fullLabel := full, shortLabel := some short, size := some (.number 1), units := some unit },
    none⟩

/-- A packet with a header of its own, which has a length like the packet. -/
def headedTables : Tables where
  structs :=
    [("Packet", .ofFields [abbreviated "header" "h" "Header", abbreviated "length" "l" "byte"]),
     ("Header",
      .ofFields [abbreviated "version" "v" "bit", abbreviated "header_length" "l" "bits"])]

/-- The short label of the length is that of another field in the header. -/
theorem short_labels_are_aliases_headed :
    let w : Workshop := ⟨headedTables, .initial⟩
    let e := Formula.binary .plus (.binary .multiply (.member "H" "l") (.number 4)) (.field "L")
    let e' := Formula.binary .plus
      (.binary .multiply (.member "Header" "Header_Length") (.number 4)) (.field "LENGTH")
    w.tables.LabelsApart ∧ w.tables.Respelled "Packet" e e' ∧
      (buildExpr (buildWithin 3) "Packet" e w).1.isOk = true ∧
      buildExpr (buildWithin 3) "Packet" e w = buildExpr (buildWithin 3) "Packet" e' w := by
  intro w e e'
  have apart : w.tables.LabelsApart := by
    have rows : ∀ p ∈ headedTables.structs, ∃ fields, p.2 = .ofFields fields ∧
        LabelsApart fields := by
      refine forall_mem_cons.mpr ⟨⟨_, rfl, ?_⟩, forall_mem_singleton.mpr ⟨_, rfl, ?_⟩⟩
      · exact ⟨by decide, by decide, by decide⟩
      · exact ⟨by decide, by decide, by decide⟩
    exact fun name row found => rows _ (Store.mem_of_lookup found)
  have header (label : String) (called : (abbreviated "header" "h" "Header").Labelled label) :
      w.tables.Calls "Packet" label _ := ⟨_, rfl, by decide, called⟩
  have length (label : String) (called : (abbreviated "length" "l" "byte").Labelled label) :
      w.tables.Calls "Packet" label _ := ⟨_, rfl, by decide, called⟩
  have inner (label : String) (called : (abbreviated "header_length" "l" "bits").Labelled label) :
      w.tables.Calls "Header" label _ := ⟨_, rfl, by decide, called⟩
  have consists : w.tables.structOfField "Packet" "H" "header" = .ok "Header" := rfl
  have respelled : w.tables.Respelled "Packet" e e' := by
    refine .binary _ (.binary _ (.member ?_ (.inr ⟨_, _, header "H" ?_, consists, ?_⟩)) (.number 4))
      (.field ?_)
    · exact .inr ⟨_, header "H" (by decide), header "Header" (by decide)⟩
    · decide
    · exact .inr ⟨_, inner "l" (by decide), inner "Header_Length" (by decide)⟩
    · exact .inr ⟨_, length "L" (by decide), length "LENGTH" (by decide)⟩
  exact ⟨apart, respelled, by decide +kernel,
    short_labels_are_aliases apart respelled 3 (.refl _) .refl⟩

end PacketDraft.Description
