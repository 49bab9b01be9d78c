import PacketDraft.Proofs.Description.Lettering
import PacketDraft.Proofs.Description.Origin
import PacketDraft.Proofs.Text.Blank

/-!
# What a built registry is like

Every move keeps the expressions of a protocol mild. The types that it registers have names with one
capital letter, in front, and none of them has the data unit as a part. So whatever document a
protocol is built from, its types are told apart by the lower case of their names, and the data unit
is not needed.
-/

namespace PacketDraft.Description

open Protocol Document Text Build List Store
open Render (isWritten)
open Render.Rust (Mild Capitalised IsWord)

/-! ## Names of types -/

section Names

variable {name : String}

/-- A valid name of a type with no other capitals and no newlines is capitalised. -/
theorem capitalised_of_isTypeName (valid : isTypeName name = true)
    (small : ∀ first rest, name.toList = first :: rest → isCapital first = true →
      ∀ c ∈ rest, isCapital c = false ∧ c ≠ '\n') : Capitalised name := by
  unfold isTypeName isNameFrom at valid
  split at valid
  · cases valid
  · next first rest letters =>
    simp only [Bool.and_eq_true, all_eq_true] at valid
    obtain ⟨⟨capital, -⟩, named⟩ := valid
    have small := small first rest letters (by simpa [isCapital] using capital)
    have whole : dropFinalNewline rest = rest := by
      refine if_neg fun last => ?_
      exact (small _ (mem_of_getLast? last)).2 rfl
    rw [whole] at named
    exact ⟨first, rest, letters, by simpa [isCapital] using capital, fun c mem =>
      ⟨named c mem, (small c mem).1⟩⟩

theorem newline_not_mem_typeName {phrase : String} (named : typeName phrase = .ok name) :
    '\n' ∉ name.toList := by
  unfold typeName at named
  split at named
  · cases named
  · cases named
    rw [String.toList_ofList, typeLetters, replaceChar, replaceChar, map_map]
    intro mem
    obtain ⟨c, listed, image⟩ := mem_map.mp mem
    have same : c = '\n' := by
      simp only [Function.comp_apply] at image
      split_ifs at image <;> simp_all
    rw [same] at listed
    have space := eq_space_of_mem_squeeze (newline_mem_of_mem_capitalize listed) (by decide)
    exact absurd space (by decide)

/-- The name of a phrase, if it is valid. -/
theorem capitalised_of_isPhrased (phrased : IsPhrased name) (valid : isTypeName name = true) :
    Capitalised name := by
  obtain ⟨phrase, named⟩ := phrased
  refine capitalised_of_isTypeName valid fun first rest letters capital c mem => ⟨?_, ?_⟩
  · exact not_isCapital_of_mem_typeName named letters capital mem
  · rintro rfl
    exact newline_not_mem_typeName named (letters ▸ mem_cons_of_mem first mem)

/-- The name of a type that belongs to a field, if it is valid. -/
theorem capitalised_memberTypeName {struct label : String} (phrased : IsPhrased struct)
    (small : Lowercase label) (valid : isTypeName (memberTypeName struct label) = true) :
    Capitalised (memberTypeName struct label) := by
  obtain ⟨phrase, named⟩ := phrased
  have whole : (memberTypeName struct label).toList = struct.toList ++ '_' :: label.toList := by
    simp [memberTypeName]
  refine capitalised_of_isTypeName valid fun first rest letters capital c mem => ?_
  rw [whole] at letters
  cases own : struct.toList with
  | nil =>
    rw [own, nil_append] at letters
    obtain ⟨rfl, -⟩ := List.cons.inj letters
    exact absurd capital (by decide)
  | cons head tail =>
    rw [own, cons_append] at letters
    obtain ⟨rfl, rfl⟩ := List.cons.inj letters
    rcases mem_append.mp mem with inside | later
    · refine ⟨not_isCapital_of_mem_typeName named own capital inside, ?_⟩
      rintro rfl
      exact newline_not_mem_typeName named (own ▸ mem_cons_of_mem head inside)
    · rcases mem_cons.mp later with rfl | later
      · exact ⟨by decide, by decide⟩
      · refine ⟨(small c later).2, ?_⟩
        rintro rfl
        exact absurd (small _ later).1 (by decide)

end Names

/-! ## What moves keep -/

/-- What is known of a type that is registered under a name. -/
def Enrolled (s : Store) (name : String) (type : TypeRef) : Prop :=
  ∃ e, s.entryOf type = some e ∧ IsWord name ∧
    (type ≠ .dataUnit → isWritten s type = true → Capitalised name) ∧
    (type = .context ∨ e.form ≠ .context ∧ TypeRef.dataUnit ∉ s.components type)

/-- The names in a store are mild, and its registered types are known. -/
structure Orderly (s : Store) : Prop where
  anchored : s.Anchored
  spelled : s.Spelled Mild
  types : ∀ p ∈ s.types, Enrolled s p.1 p.2

section Stores

variable {s s' : Store} {t : TypeRef} {e e' : Entry} {name : String}

theorem isWritten_congr (entry : s.entryOf t = some e) (entry' : s'.entryOf t = some e')
    (form : e'.form = e.form) : isWritten s' t = isWritten s t := by
  simp only [isWritten, entry, entry', form]

theorem components_grows (grows : s.Grows s') (entry : s.entryOf t = some e)
    (other : e.form ≠ .context) : s'.components t = s.components t := by
  obtain ⟨e', entry', form, -, fields⟩ := grows.entryOf t e entry
  simp only [components, entry, entry', form, fields]
  cases shape : e.form with
  | context => exact absurd shape other
  | _ => rfl

theorem Enrolled.grows (enrolled : Enrolled s name t) (grows : s.Grows s') : Enrolled s' name t := by
  obtain ⟨e, entry, word, named, apart⟩ := enrolled
  obtain ⟨e', entry', form, -⟩ := grows.entryOf t e entry
  refine ⟨e', entry', word, ?_, ?_⟩
  · rw [isWritten_congr entry entry' form]
    exact named
  · refine apart.imp_right fun ⟨other, parts⟩ => ?_
    rw [form, components_grows grows entry other]
    exact ⟨other, parts⟩

end Stores

section Moves

variable {t : Tables} {w w' : Workshop} {methods : List String} {fields : List Field} {form : Form}
  {name : String} {make : Change TypeRef} {type : TypeRef}

/-- A change of the protocol that registers nothing. -/
theorem Orderly.changed {α : Type} {c : Change α} {a : α} (orderly : Orderly w.store)
    (made : change c w = (.ok a, w')) (anchored : w'.store.Anchored)
    (grows : Attempt.Keeps Store.Grows c) (spells : Spells Mild c)
    (types : w'.store.types = w.store.types) : Orderly w'.store := by
  have outcome := change_eq_ok made
  refine ⟨anchored, spells.of_eq outcome orderly.spelled, fun p mem => ?_⟩
  rw [types] at mem
  exact (orderly.types p mem).grows (grows.of_eq outcome)

/-- The form and the parts of a type that is registered. -/
theorem register_components (makes : Makes methods fields form (some name) make)
    (other : form ≠ .context) (made : register make w = (.ok type, w')) :
    ∃ e, w'.store.entryOf type = some e ∧ e.form = form ∧
      w'.store.components type ⊆ form.parts fields := by
  obtain ⟨s, e, ms, -, own, rfl, -, after⟩ := register_made makes made
  rw [after]
  exact ⟨e, own.entryOf, own.form, own.components other⟩

/-- A new type is registered. -/
theorem Orderly.registered (orderly : Orderly w.store)
    (makes : Makes methods fields form (some name) make) (spells : Spells Mild make)
    (made : register make w = (.ok type, w')) (other : form ≠ .context)
    (word : IsWord name) (named : isWritten w'.store type = true → Capitalised name)
    (apart : TypeRef.dataUnit ∉ form.parts fields) : Orderly w'.store := by
  obtain ⟨_, registers⟩ := register_registers makes orderly.anchored.regular made
  obtain ⟨s₁, outcome, added⟩ := register_eq_ok made
  refine ⟨orderly.anchored.steps (register_steps makes made), ?_, fun p mem => ?_⟩
  · exact (addType_spells type).of_eq added (spells.of_eq outcome orderly.spelled)
  · rw [registers.types] at mem
    rcases mem_append.mp mem with old | new
    · exact (orderly.types p old).grows registers.grows
    · rw [mem_singleton.mp new]
      obtain ⟨e, entry, same, parts⟩ := register_components makes other made
      exact ⟨e, entry, word, fun _ => named, .inr ⟨same ▸ other, fun part => apart (parts part)⟩⟩

theorem Orderly.move (orderly : Orderly w.store) (lettered : t.Lettered) (move : Move Mild t w w') :
    Orderly w'.store := by
  have anchored := orderly.anchored.steps move.steps
  cases move with
  | trim => exact orderly
  | slot named added =>
    obtain ⟨e, -, -, -, after⟩ := (addSlot_changes _ _ _).of_ok (change_eq_ok added)
    refine orderly.changed added anchored (addSlot_grows _ _ _) (addSlot_spells named _) ?_
    rw [after, types_modifyMembers]
  | bits field plain made =>
    obtain ⟨phrased, small⟩ := lettered.hasLabel field
    obtain ⟨_, outcome, -⟩ := register_eq_ok made
    obtain ⟨_, _, first, -⟩ := Attempt.bind_eq_ok.mp outcome
    have named := capitalised_memberTypeName phrased small (isTypeName_of_makeType (by simp) first)
    exact orderly.registered (makeBitString_makes _ _) (makeBitString_spells plain) made (by simp)
      named.isWord (fun _ => named) (by simp [Form.parts])
  | array field apart plain plain' made =>
    obtain ⟨phrased, small⟩ := lettered.hasLabel field
    obtain ⟨_, outcome, -⟩ := register_eq_ok made
    obtain ⟨_, _, first, -⟩ := Attempt.bind_eq_ok.mp outcome
    have named := capitalised_memberTypeName phrased small (isTypeName_of_makeType (by simp) first)
    exact orderly.registered (makeArray_makes _ _ _ _) (makeArray_spells plain plain') made (by simp)
      named.isWord (fun _ => named) (by simpa [Form.parts] using apart.symm)
  | @struct _ _ row _ _ described labels apart plain plain' made =>
    obtain ⟨phrased, own⟩ := lettered.struct described
    obtain ⟨_, outcome, -⟩ := register_eq_ok made
    obtain ⟨_, _, first, -⟩ := Attempt.bind_eq_ok.mp outcome
    have named := capitalised_of_isPhrased phrased (isTypeName_of_makeType (by simp) first)
    refine orderly.registered (makeStruct_makes _ _ _ _) (makeStruct_spells ?_ plain') made (by simp)
      named.isWord (fun _ => named) ?_
    · intro f mem
      have label : f.name ∈ row.labels := labels ▸ mem_map_of_mem mem
      obtain ⟨p, listed, same⟩ := mem_map.mp label
      exact ⟨same ▸ (own.fields p listed).title.label.mild, plain f mem⟩
    · intro mem
      obtain ⟨f, listed, unit⟩ := mem_map.mp mem
      exact apart f listed unit
  | enum described apart made =>
    obtain ⟨phrased, variants⟩ := lettered.enums _ (mem_of_lookup described.2)
    obtain ⟨_, outcome, -⟩ := register_eq_ok made
    obtain ⟨_, _, first, -⟩ := Attempt.bind_eq_ok.mp outcome
    have named := capitalised_of_isPhrased phrased (isTypeName_of_makeType (by simp) first)
    refine orderly.registered (makeEnum_makes _ _) (makeEnum_spells _ _) made (by simp)
      named.isWord (fun _ => named) (apart fun mem => ?_)
    obtain ⟨phrase, own⟩ := variants _ mem
    exact typeName_ne_dataUnit phrase own
  | function described apart made =>
    have small := lettered.functions _ (mem_of_lookup described.2.2)
    refine orderly.registered (makeType_makes _ _ _) (makeFunction_spells _ _ _) made (by simp)
      (fun c mem => (small c mem).1) (fun written => ?_) apart
    obtain ⟨e, entry, form, -⟩ := register_components (makeType_makes _ _ _) (by simp) made
    simp [isWritten, entry, form] at written
  | packet listed defined =>
    obtain ⟨type, -, -, after⟩ := (definePdu_changes _).of_ok (change_eq_ok defined)
    refine orderly.changed defined anchored (definePdu_grows _) (definePdu_spells _) ?_
    rw [after]
  | rename named =>
    obtain ⟨-, after⟩ := (setProtocolName_changes _).of_ok (change_eq_ok named)
    refine orderly.changed named anchored (setProtocolName_grows _) (setProtocolName_spells _) ?_
    rw [after, types_modifyEntry]

theorem Orderly.moves (orderly : Orderly w.store) (lettered : t.Lettered)
    (moves : Moves Mild t w w') : Orderly w'.store := by
  induction moves with
  | refl => exact orderly
  | tail _ move ih => exact ih.move lettered move

end Moves

/-! ## Completed protocols -/

section Completed

variable {s s' : Store} {t : TypeRef}

/-- Completing a protocol keeps its registry orderly. -/
theorem Orderly.completes (orderly : Orderly s) (completes : s.Completes s') (anchored : s'.Anchored)
    (spelled : s'.Spelled Mild) : Orderly s' := by
  refine ⟨anchored, spelled, fun p mem => ?_⟩
  rw [completes.types] at mem
  obtain ⟨e, entry, word, named, apart⟩ := orderly.types p mem
  obtain ⟨e', entry', form, -⟩ := completes.entryOf entry
  refine ⟨e', entry', word, ?_, ?_⟩
  · rw [isWritten_congr entry entry' form]
    exact named
  · rw [form, completes.components entry]
    exact apart

/-- Where packets have the names of phrases, the data unit is not needed. -/
theorem Orderly.ne_dataUnit (orderly : Orderly s) (closed : s.Closed)
    (phrased : ∀ name ∈ s.pdus, IsPhrased name) (reachable : s.Reachable t) : t ≠ .dataUnit := by
  have regular := orderly.anchored.regular
  cases reachable with
  | root mem =>
    rcases mem_append.mp mem with packet | context
    · obtain ⟨name, listed, found⟩ := mem_filterMap.mp packet
      obtain ⟨phrase, named⟩ := phrased name listed
      rintro rfl
      have unit := orderly.anchored.alone name (mem_of_lookup found)
      exact typeName_ne_dataUnit phrase (unit ▸ named)
    · rw [mem_singleton.mp context]
      decide
  | @part whole _ reachable part =>
    rintro rfl
    rcases closed.registered_of_reachable regular reachable with primitive | ⟨name, mem⟩
    · exact regular.components_primitive primitive part
    · obtain ⟨e, -, -, -, rfl | ⟨-, apart⟩⟩ := orderly.types _ mem
      · exact absurd (closed.simple _ part) (by decide)
      · exact apart part

end Completed

/-! ## Whole protocols -/

theorem orderly_initial : Orderly .initial where
  anchored := anchored_initial
  spelled := spelled_initial ⟨_, rfl⟩
  types p mem := by
    have mem : p ∈ [("Context", TypeRef.context), ("DataUnit", .dataUnit)] := mem
    simp only [mem_cons, not_mem_nil, or_false] at mem
    rcases mem with rfl | rfl
    · obtain ⟨e, entry, -⟩ := ready_initial.regular.basic (.context, .context)
        (by simp [basis])
      have named : Capitalised "Context" :=
        ⟨'C', ['o', 'n', 't', 'e', 'x', 't'], rfl, rfl, by simp [isNameChar, isCapital]⟩
      exact ⟨e, entry, named.isWord, fun _ _ => named, .inl rfl⟩
    · obtain ⟨e, entry, -⟩ := anchored_initial.unit
      have form : e.form ≠ .context := by
        have shown : (initial.entryOf .dataUnit).map (·.form.label) = some "BitString" := by
          decide
        intro context
        simp [entry, context, Form.label] at shown
      have word : IsWord "DataUnit" := by decide
      exact ⟨e, entry, word, fun other => absurd rfl other, .inr ⟨form, by decide⟩⟩

/-- A packet has the name of a phrase, and is a type that can be sent. -/
def IsPacket (s : Store) (name : String) : Prop :=
  IsPhrased name ∧ ∃ type, s.types.lookup name = some type ∧ s.isRepresentable type = true

/-- Whatever document a protocol is built from, its registry is orderly. -/
theorem buildProtocol_orderly {document : Element} {w : Workshop}
    (built : buildProtocol (some document) {} = (.ok (), w)) :
    Orderly w.store ∧ ∀ name ∈ w.store.pdus, IsPacket w.store name := by
  obtain ⟨t, noted, outcome⟩ := buildProtocol_eq_ok built
  have lettered := Tables.lettered_noteDocument noted
  obtain ⟨moves, -, -⟩ :=
    goes_buildTables Mild t ⟨t, .initial⟩ () w lettered.trims anchored_initial outcome
  refine ⟨orderly_initial.moves lettered moves, fun name mem => ?_⟩
  obtain ⟨listed, sends⟩ := ((attributed_initial t).moves moves).packets name mem
  exact ⟨Tables.namesPackets_noteDocument noted name listed, sends⟩

end PacketDraft.Description
