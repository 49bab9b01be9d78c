import Mathlib.Data.List.Nodup
import PacketDraft.Proofs.Description.Registry
import PacketDraft.Proofs.Render.Calls

/-!
# The source for a described protocol

Whatever document a protocol is built from, its source can be read: the types that are written have
different parser functions, and nothing else in the source looks like one. So all calls of parser
functions fit exactly if the completed protocol serves them.
-/

namespace PacketDraft.Protocol

open Attempt

/-- The packets of a protocol stay the same. -/
def Store.KeepsPackets (s s' : Store) : Prop :=
  s'.pdus = s.pdus

instance : IsPreorder Store Store.KeepsPackets where
  refl _ := rfl
  trans _ _ _ first second := Eq.trans second first

theorem completing_keepsPackets : Completing Store.KeepsPackets where
  option name t s := by
    rcases makeOption_makes name t s with
      ⟨fault, outcome⟩ | ⟨given, size, r, s', -, outcome, edits, -⟩
    · rw [outcome]
      rfl
    · rw [outcome]
      exact (pdus_of_edits edits).trans rfl
  size s _ _ t _ _ _ _ := s.pdus_modifyEntry t _
  parseFrom s t _ := s.pdus_modifyEntry t _
  serialiseTo s t _ := s.pdus_modifyEntry t _

end PacketDraft.Protocol

namespace PacketDraft.Render

open Protocol Document Description Rust

section Written

variable {s : Store} {t : TypeRef} {name : String}

theorem typeNameOf_registered (closed : s.Closed) (mem : (name, t) ∈ s.types) :
    typeNameOf s t = name := by
  obtain ⟨e, entry, named, listed⟩ := closed.named name t mem
  have made : e.form.isPrimitive = false := by
    cases form : e.form <;> simp_all [Form.isListed, Form.isPrimitive]
  rw [typeNameOf_eq entry made, Entry.shownName, named]
  rfl

/-- Types that are written are registered and needed. -/
theorem registered_of_mem_writtenTypes (closed : s.Closed) (regular : s.Regular)
    (mem : t ∈ writtenTypes s) : (typeNameOf s t, t) ∈ s.types ∧ s.Reachable t := by
  obtain ⟨listed, -⟩ := List.mem_filter.mp mem
  obtain ⟨name, ordered, found⟩ := List.mem_filterMap.mp listed
  obtain ⟨u, reachable, lists⟩ := (Store.ordered_dependencyOrder (closed.acyclic regular)
    (closed.unambiguous regular)).needed name ordered
  have same := closed.lookup_of_lists regular reachable lists
  rw [found, Option.some.injEq] at same
  subst same
  have registered := Store.mem_of_lookup found
  rw [typeNameOf_registered closed registered]
  exact ⟨registered, reachable⟩

theorem nodup_writtenTypes (closed : s.Closed) : (writtenTypes s).Nodup := by
  refine List.Nodup.filter _ (List.Nodup.filterMap ?_ (Store.nodup_firstOccurrences _))
  intro name other t found found'
  rw [← typeNameOf_registered closed (Store.mem_of_lookup found),
    typeNameOf_registered closed (Store.mem_of_lookup found')]

/-- An orderly registry is legible. -/
theorem legible_of_orderly (orderly : Orderly s) (closed : s.Closed)
    (packets : ∀ name ∈ s.pdus, IsPhrased name ∧ ∃ type, s.types.lookup name = some type) :
    Legible s where
  spelled := orderly.spelled
  named t mem := by
    obtain ⟨registered, reachable⟩ :=
      registered_of_mem_writtenTypes closed orderly.anchored.regular mem
    obtain ⟨_, -, -, named, -⟩ := orderly.types _ registered
    have other := orderly.ne_dataUnit closed (fun name packet => (packets name packet).1) reachable
    exact named other (List.mem_filter.mp mem).2
  parts t mem c part := by
    obtain ⟨registered, -⟩ := registered_of_mem_writtenTypes closed orderly.anchored.regular mem
    obtain ⟨i, place⟩ := List.getElem?_of_mem registered
    rcases closed.founds place part with primitive | ⟨j, -, key, earlier⟩
    · obtain ⟨e, entry, primitive⟩ := orderly.anchored.regular.primitive_form primitive
      rw [typeNameOf, entry]
      simp only [primitive, if_true]
      decide
    · have earlier := List.mem_of_getElem? earlier
      rw [typeNameOf_registered closed earlier]
      exact (orderly.types _ earlier).choose_spec.2.1
  apart t mem u mem' same := by
    have first := (registered_of_mem_writtenTypes closed orderly.anchored.regular mem).1
    have second := (registered_of_mem_writtenTypes closed orderly.anchored.regular mem').1
    rw [same] at first
    exact Option.some.inj ((closed.lookup first).symm.trans (closed.lookup second))
  nodup := nodup_writtenTypes closed
  packets name packet := by
    obtain ⟨type, found⟩ := (packets name packet).2
    exact (orderly.types _ (Store.mem_of_lookup found)).choose_spec.2.1

end Written

section Built

variable {document : Element} {w : Workshop} {file : String} {written : List (String × String)}
  {s : Store}

/-- Whatever document a protocol is built from, it is legible once it is completed. -/
theorem legible_synthesise (built : buildProtocol (some document) {} = (.ok (), w))
    (completed : synthesise w.store = (.ok (), s)) : Legible s := by
  obtain ⟨orderly, packets⟩ := buildProtocol_orderly built
  have completes := Store.completing_completes.keeps_synthesise.of_eq completed
  have anchored := orderly.anchored.steps (completing_steps.keeps_synthesise.of_eq completed)
  have spelled := (synthesise_spells ⟨_, rfl⟩).of_eq completed orderly.spelled
  have same : s.pdus = w.store.pdus := completing_keepsPackets.keeps_synthesise.of_eq completed
  refine legible_of_orderly (orderly.completes completes anchored spelled)
    ((buildProtocol_closed built).2.completes completes) fun name packet => ?_
  rw [same] at packet
  obtain ⟨phrased, type, found, -⟩ := packets name packet
  exact ⟨phrased, type, completes.types ▸ found⟩

/-- The source for a protocol makes the mentions that the completed protocol tells of. -/
theorem mentions_of_emit (built : buildProtocol (some document) {} = (.ok (), w))
    (emitted : emit .rust file w.store = (.ok written, s)) :
    Legible s ∧ ∃ source, written.lookup "src/lib.rs" = some source ∧
      mentions source = sourceMentions s := by
  obtain ⟨_, s', completed, asked⟩ := Attempt.bind_eq_ok.mp emitted
  obtain ⟨answer, rfl⟩ := Attempt.ask_eq_ok.mp asked
  have legible := legible_synthesise built completed
  refine ⟨legible, ?_⟩
  cases outcome : writeCrate s' (FileName.stem file) {} with
  | mk result sheet =>
    have answer : result = .ok written := by
      rw [← answer, files, outcome]
    rw [answer] at outcome
    exact mentions_of_writeCrate legible.spelled
      (fun t mem => ⟨(legible.named t mem).isWord, legible.parts t mem⟩) legible.packets outcome

/-- In the source that is written for a described protocol, every parser function that is called is
defined once and takes as many values as it is given, exactly if the completed protocol serves its
calls. -/
theorem parser_calls_fit (built : buildProtocol (some document) {} = (.ok (), w))
    (emitted : emit .rust file w.store = (.ok written, s)) :
    ∃ source, written.lookup "src/lib.rs" = some source ∧
      (CallsFit source ↔ servesCalls s = true) := by
  obtain ⟨legible, source, found, told⟩ := mentions_of_emit built emitted
  exact ⟨source, found, legible.callsFit_iff told⟩

end Built

/-! ## Packets with a head or a tail -/

/-- Data behind its length. -/
def dataRow : FieldRow :=
  ⟨{ fullLabel := "data", size := some (.field "Length"), units := some "bytes" }, none⟩

/-- Packets with a head in front of their data. -/
def headedPackets : List Element :=
  describing "A Header" ["Sum: 16 bits."] ++
  describing "A Packet" ["Head: 1 Header.", "Length: 8 bits.", "Data: Length bytes."]

/-- What is declared of packets with a head. -/
def headedTables : Tables where
  structs :=
    [("Header", .ofFields [counted "sum" 16 "bits"]),
     ("Packet", .ofFields [counted "head" 1 "Header", counted "length" 8 "bits", dataRow])]

theorem noteDocument_headed : Tables.noteDocument (exampleDocument headedPackets "Packets") {}
    = (.ok (), headedTables.withPackets ["Packet"]) :=
  noteDocument_example (t := headedTables) (by decide +kernel) (by decide +kernel)

/-- The length is passed to the parser function for the data. -/
theorem parser_calls_fit_headed :
    ∃ w written s source,
      buildProtocol (some (exampleDocument headedPackets "Packets")) {} = (.ok (), w) ∧
      emit .rust "example.txt" w.store = (.ok written, s) ∧
      written.lookup "src/lib.rs" = some source ∧ servesCalls s = true ∧ CallsFit source := by
  have viewed : builtWith (headedTables.withPackets ["Packet"])
      (ranWith (emit .rust "example.txt") fun _ => servesCalls) = some (some true) := by
    decide +kernel
  obtain ⟨w, written, s, built, emitted, served⟩ := exists_ran noteDocument_headed viewed
  obtain ⟨source, found, fit⟩ := parser_calls_fit built emitted
  exact ⟨w, written, s, source, built, emitted, found, served, fit.mpr served⟩

/-- Packets with a tail behind their data. -/
def tailedPackets : List Element :=
  describing "A Trailer" ["Sum: 16 bits."] ++
  describing "A Packet" ["Length: 8 bits.", "Data: Length bytes.", "Tail: 1 Trailer."]

/-- What is declared of packets with a tail. -/
def tailedTables : Tables where
  structs :=
    [("Trailer", .ofFields [counted "sum" 16 "bits"]),
     ("Packet", .ofFields [counted "length" 8 "bits", dataRow, counted "tail" 1 "Trailer"])]

theorem noteDocument_tailed : Tables.noteDocument (exampleDocument tailedPackets "Packets") {}
    = (.ok (), tailedTables.withPackets ["Packet"]) :=
  noteDocument_example (t := tailedTables) (by decide +kernel) (by decide +kernel)

/-- A trailer is written behind the data, and takes away what is noted for it. So the parser function
for the data takes the length, but is called without it. -/
theorem data_parsed_without_length :
    ∃ w written s source,
      buildProtocol (some (exampleDocument tailedPackets "Packets")) {} = (.ok (), w) ∧
      emit .rust "example.txt" w.store = (.ok written, s) ∧
      written.lookup "src/lib.rs" = some source ∧
      ((writtenTypes s).all fun t => t = .context || (s.components t).all (isMade s)) = true ∧
      .definition "parse_packet_data" 1 ∈ mentions source ∧
      .call "parse_packet_data" 0 ∈ mentions source ∧ ¬ CallsFit source := by
  have viewed : builtWith (tailedTables.withPackets ["Packet"])
      (ranWith (emit .rust "example.txt") fun _ s =>
      ((writtenTypes s).all fun t => t = .context || (s.components t).all (isMade s),
        (sourceMentions s).contains (.definition "parse_packet_data" 1),
        (sourceMentions s).contains (.call "parse_packet_data" 0)))
      = some (some (true, true, true)) := by
    decide +kernel
  obtain ⟨w, written, s, built, emitted, view⟩ := exists_ran noteDocument_tailed viewed
  simp only [Prod.mk.injEq, List.contains_iff_mem] at view
  obtain ⟨made, defined, called⟩ := view
  obtain ⟨-, source, found, told⟩ := mentions_of_emit built emitted
  rw [← told] at defined called
  refine ⟨w, written, s, source, built, emitted, found, made, defined, called, fun fit => ?_⟩
  have own := List.mem_filter.mpr ⟨defined, (rfl : Mention.defines "parse_packet_data" _ = true)⟩
  rw [fit _ _ called] at own
  simp at own

end PacketDraft.Render
