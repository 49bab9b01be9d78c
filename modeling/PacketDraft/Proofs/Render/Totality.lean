import PacketDraft.Proofs.Description.Widths
import PacketDraft.Proofs.Protocol.Run
import PacketDraft.Proofs.Render.Emission
import PacketDraft.Proofs.Render.Sheets

/-!
# When a source is written

A source cannot be written for every protocol that a document describes. What can go wrong is little:
an array takes a text for its length, and is given a number; nothing is left of the size of a bit
string or of the presence of a field; or a type has the name that another one has in Rust. Whatever
document a protocol is built from, its source is written exactly if none of this is the case.
-/

namespace PacketDraft.Render

open Protocol Document Description Attempt Rust List Store

/-! ## Whole sources -/

/-- The name that stands by itself in the source of a type. -/
def stamp? (s : Store) (t : TypeRef) : Option String :=
  (s.entryOf t).bind fun e =>
    match e.form with
    | .bitString | .struct => some (camelCase e.shownName)
    | _ => none

/-- The name that must not stand by itself in the source of an earlier type. -/
def claimed? (s : Store) (t : TypeRef) : Option String :=
  (s.entryOf t).bind fun e =>
    match e.form with
    | .bitString | .struct | .array _ _ => some e.shownName
    | _ => none

/-- Whether a type claims the name that an earlier one has in Rust. -/
def clash (s : Store) (t u : TypeRef) : Bool :=
  (stamp? s t).any fun name => claimed? s u = some name

/-- Whether there are texts where a type needs them: for the size of a bit string that is not a
number, for the length or size of an array, and for the presences of fields. -/
def isRendered (s : Store) (t : TypeRef) : Bool :=
  (s.entryOf t).any fun e =>
    match e.form with
    | .bitString => e.size.all (!isBlank ·)
    | .array _ length => (length <|> e.size).all (!isCount s ·)
    | .struct => (s.members e).fields.all fun f => !isCount s f.presence && !isMute f.presence
    | _ => true

/-- Whether there is something to parse: a structure has a field, and an enumeration a variant that
is made by a description. -/
def isFilled (s : Store) (t : TypeRef) : Bool :=
  (s.entryOf t).any fun e =>
    match e.form with
    | .struct => !(s.members e).fields.isEmpty
    | .enum variants => variants.any (isMade s)
    | _ => true

/-- A source can be written for a protocol. -/
def Writable (s : Store) : Prop :=
  (∀ t ∈ writtenTypes s, isRendered s t = true) ∧
    (writtenTypes s).Pairwise fun t u => clash s t u = false

instance (s : Store) : Decidable (Writable s) :=
  inferInstanceAs (Decidable (_ ∧ _))

/-- What is known of a completed protocol that was built from a document. -/
structure Sound (s : Store) : Prop where
  regular : s.Regular
  legible : Legible s
  typed : s.WellTyped
  simple : ∀ t ∈ writtenTypes s, ∀ e, s.entryOf t = some e → e.form = .context →
    ∀ p ∈ (s.members e).slots, p.2 ∈ primitives

section Types

variable {s : Store} {t : TypeRef} {e : Entry} {a : Sheet}

/-- A constraint is no number. -/
theorem Sound.isCount (sound : Sound s) (entry : s.entryOf t = some e) {x : Expr}
    (mem : x ∈ (s.members e).constraints) : isCount s x = false := by
  obtain ⟨n, rfl, -⟩ := entryOf_eq_some entry
  have own : s.members e = s.membersAt n := by
    rw [Store.members, sound.regular.group n e entry, membersAt]
  rw [own] at mem
  have typed : s.resultType (.id n) x = .ok .boolean :=
    sound.typed n (x, .boolean) (by simp [Members.demands, mem])
  cases x with
  | const u v =>
    cases typed
    obtain ⟨number, known, form⟩ := sound.regular.basic (.number, .number) (by simp [basis])
    refine Bool.eq_false_iff.mpr fun same => ?_
    exact absurd (eq_of_same known (by simp [form]) same) (by decide)
  | _ => rfl

/-- A type is written if its name is new and there are texts where it needs them. -/
theorem runs_writeType (sound : Sound s) (written : t ∈ writtenTypes s) :
    Runs (writeType s t) a ((∀ name ∈ claimed? s t, name ∉ a.chunks) ∧ isFilled s t = true ∧
      isRendered s t = true) ((stamp? s t).toList.filter isName) := by
  have spelled := sound.legible.spelled
  have isWritten := (mem_filter.mp written).2
  cases entry : s.entryOf t with
  | none => simp [Render.isWritten, entry] at isWritten
  | some e =>
    have own := spelled.entryOf entry
    have members := spelled.members e
    cases form : e.form with
    | bitString =>
      obtain ⟨r, known, fits⟩ := size_becomes (s := s) own.size
      simp only [writeType, entry, form]
      refine (Runs.answer known (runs_writeBitString r)).imp ?_ ?_
      · simp [claimed?, isFilled, isRendered, entry, form, fits]
      · simp [stamp?, entry, form]
    | struct =>
      obtain ⟨rendered, known, texts⟩ := mapM_expr_texts members.constraints fun x mem =>
        sound.isCount entry mem
      simp only [writeType, entry, form]
      refine (Runs.answer known (runs_writeStruct (fun f mem => (members.fields f mem).2)
        texts)).imp ?_ ?_
      · simp [claimed?, isFilled, isRendered, entry, form]
      · simp [stamp?, entry, form]
    | array element length =>
      simp only [writeType, entry, form]
      refine (runs_writeArray ?_ own.size).imp ?_ ?_
      · simpa [form, Form.length?] using own.length
      · rw [← all_not_iff]
        simp [claimed?, isFilled, isRendered, entry, form]
      · simp [stamp?, entry, form]
    | enum variants =>
      simp only [writeType, entry, form]
      refine (runs_writeEnum variants).imp ?_ ?_
      · simp [claimed?, isFilled, isRendered, entry, form]
      · simp [stamp?, entry, form]
    | context =>
      simp only [writeType, entry, form]
      refine (runs_writeContext sound.regular (sound.simple t written e entry form)).imp ?_ ?_
      · simp [claimed?, isFilled, isRendered, entry, form]
      · simp [stamp?, entry, form]
    | _ => simp [Render.isWritten, entry, form] at isWritten

/-- A name that a written type claims is a name. -/
theorem Sound.isName_claimed (sound : Sound s) (written : t ∈ writtenTypes s) {name : String}
    (claimed : name ∈ claimed? s t) : isName name = true := by
  obtain ⟨e, entry, own⟩ := Option.bind_eq_some_iff.mp claimed
  have made : e.form.isPrimitive = false := by
    cases form : e.form <;> simp_all [Form.isPrimitive]
  have same : name = e.shownName := by
    cases form : e.form <;> simp_all
  rw [same, ← typeNameOf_eq entry made]
  exact (sound.legible.named t written).isName

/-- Behind a type, another name is taken. -/
theorem Sound.free_iff (sound : Sound s) {u : TypeRef} {b : Sheet} (written : u ∈ writtenTypes s)
    (names : b.names = a.names ++ (stamp? s t).toList.filter isName) :
    (∀ name ∈ claimed? s u, name ∉ b.chunks) ↔
      (∀ name ∈ claimed? s u, name ∉ a.chunks) ∧ clash s t u = false := by
  cases claimed : claimed? s u with
  | none => simp [clash, claimed]
  | some name =>
    have named := sound.isName_claimed written claimed
    have taken : name ∈ b.chunks ↔ name ∈ a.chunks ∨ stamp? s t = some name := by
      rw [← mem_names named, names, mem_append, mem_names named, mem_filter,
        Option.mem_toList]
      simp [named]
    cases stamped : stamp? s t with
    | none => simp [clash, taken, stamped]
    | some other => simp [clash, claimed, taken, stamped, eq_comm]

/-- Types are written one after the other if there are texts where they need them, and none of them
claims a name that is taken. -/
theorem runs_writeTypes (sound : Sound s) {ts : List TypeRef}
    (written : ∀ t ∈ ts, t ∈ writtenTypes s) :
    Runs (each (writeType s) ts) a
      ((∀ t ∈ ts, ∀ name ∈ claimed? s t, name ∉ a.chunks) ∧
        (∀ t ∈ ts, isFilled s t = true ∧ isRendered s t = true) ∧
        ts.Pairwise fun t u => clash s t u = false)
      (ts.flatMap fun t => (stamp? s t).toList.filter isName) := by
  induction ts generalizing a with
  | nil => exact (runs_pure ()).imp (by simp) rfl
  | cons t ts ih =>
    rw [forall_mem_cons] at written
    have first := runs_writeType (a := a) sound written.1
    have rest : ∀ r b, writeType s t a = (.ok r, b) → Runs (each (writeType s) ts) b
        ((∀ u ∈ ts, (∀ name ∈ claimed? s u, name ∉ a.chunks) ∧ clash s t u = false) ∧
          (∀ t ∈ ts, isFilled s t = true ∧ isRendered s t = true) ∧
          ts.Pairwise fun t u => clash s t u = false)
        (ts.flatMap fun t => (stamp? s t).toList.filter isName) := by
      intro r b done
      refine (ih written.2).imp (and_congr_left' (forall₂_congr fun u mem => ?_)) rfl
      exact sound.free_iff (written.2 u mem) (first.names r b done)
    refine (first.bind rest).imp ?_ rfl
    simp only [forall_mem_cons, pairwise_cons, forall_and]
    tauto

end Types

section Built

variable {document : Element} {w : Workshop} {file : String} {s : Store}

/-- Whatever document a protocol is built from, it is sound once it is completed. -/
theorem sound_synthesise (built : buildProtocol (some document) {} = (.ok (), w))
    (completed : synthesise w.store = (.ok (), s)) : Sound s := by
  obtain ⟨orderly, packets⟩ := buildProtocol_orderly built
  obtain ⟨t, noted, outcome⟩ := buildProtocol_eq_ok built
  obtain ⟨moves, -, -⟩ := goes_buildTables Mild t ⟨t, .initial⟩ () w
    (Tables.lettered_noteDocument noted).trims anchored_initial outcome
  have completes := completing_completes.keeps_synthesise.of_eq completed
  have steps := completing_steps.keeps_synthesise.of_eq completed
  have anchored := orderly.anchored.steps steps
  have closed := (buildProtocol_closed built).2.completes completes
  have legible := legible_synthesise built completed
  have orderly := orderly.completes completes anchored legible.spelled
  refine ⟨anchored.regular, legible, ?_, fun t mem e entry form p slot => ?_⟩
  · exact wellTyped_foundation.steps regular_foundation
      ((steps_initial.trans moves.steps).trans steps)
  · obtain ⟨registered, -⟩ := registered_of_mem_writtenTypes closed anchored.regular mem
    obtain ⟨e', entry', -, -, rfl | ⟨other, -⟩⟩ := orderly.types _ registered
    · refine closed.simple _ ?_
      rw [components, entry]
      simp only [form]
      exact mem_map_of_mem slot
    · cases entry.symm.trans entry'
      exact absurd form other

theorem exists_writeProtocol {pdus : List String} (some : pdus ≠ []) (a : Sheet) :
    ∃ b, writeProtocol pdus a = (.ok (), b) := by
  simp only [writeProtocol, if_neg some]
  exact ⟨_, rfl⟩

/-- Where there are packets and something to parse, a crate is written exactly if it can be. -/
theorem writeCrate_iff (sound : Sound s) (packets : s.pdus ≠ [])
    (filled : ∀ t ∈ writtenTypes s, isFilled s t = true) (name : String) :
    (∃ written b, writeCrate s name {} = (.ok written, b)) ↔ Writable s := by
  have runs := runs_writeTypes (a := {}) sound fun t mem => mem
  have fits : (∃ r b, each (writeType s) (writtenTypes s) {} = (.ok r, b)) ↔ Writable s := by
    rw [runs.returns]
    simp only [not_mem_nil, not_false_eq_true, implies_true, true_and, Writable]
    exact and_congr_left' (forall₂_congr fun t mem => and_iff_right (filled t mem))
  rw [← fits]
  constructor
  · rintro ⟨written, b, done⟩
    obtain ⟨_, b, first, -⟩ := bind_eq_ok.mp done
    exact ⟨(), b, first⟩
  · rintro ⟨r, b, first⟩
    obtain ⟨c, second⟩ := exists_writeProtocol packets b
    exact ⟨_, _, bind_eq_ok.mpr ⟨r, b, first, bind_eq_ok.mpr ⟨(), c, second, rfl⟩⟩⟩

theorem emit_rust_iff (completed : synthesise w.store = (.ok (), s)) :
    (∃ written, emit .rust file w.store = (.ok written, s)) ↔
      ∃ written b, writeCrate s (FileName.stem file) {} = (.ok written, b) := by
  constructor
  · rintro ⟨written, emitted⟩
    obtain ⟨_, s', -, asked⟩ := bind_eq_ok.mp emitted
    obtain ⟨answer, rfl⟩ := ask_eq_ok.mp asked
    exact ⟨written, _, Prod.ext answer rfl⟩
  · rintro ⟨written, b, done⟩
    refine ⟨written, bind_eq_ok.mpr ⟨(), s, completed, ask_eq_ok.mpr ⟨?_, rfl⟩⟩⟩
    rw [files, done]

/-- Whatever document a protocol is built from, if it has packets and all its types have something to
parse, its source is written exactly if there are texts where it needs them and no type claims the
name of an earlier one. -/
theorem source_written_iff (built : buildProtocol (some document) {} = (.ok (), w))
    (completed : synthesise w.store = (.ok (), s)) (packets : s.pdus ≠ [])
    (filled : ∀ t ∈ writtenTypes s, isFilled s t = true) :
    (∃ written, emit .rust file w.store = (.ok written, s)) ↔ Writable s :=
  (emit_rust_iff completed).trans
    (writeCrate_iff (sound_synthesise built completed) packets filled _)

end Built

/-! ## Packets with several headers -/

/-- A packet with one header can be written. -/
theorem source_written_headed :
    ∃ w s, buildProtocol (some (exampleDocument headedPackets "Packets")) {} = (.ok (), w) ∧
      synthesise w.store = (.ok (), s) ∧ s.pdus ≠ [] ∧
      (∀ t ∈ writtenTypes s, isFilled s t = true) ∧ Writable s ∧
      ∃ written, emit .rust "example.txt" w.store = (.ok written, s) := by
  have viewed : builtWith (headedTables.withPackets ["Packet"]) (ranWith synthesise fun _ s =>
      (decide (s.pdus ≠ []), (writtenTypes s).all (isFilled s), decide (Writable s)))
      = some (some (true, true, true)) := by
    decide +kernel
  obtain ⟨w, ⟨⟩, s, built, completed, view⟩ := exists_ran noteDocument_headed viewed
  simp only [Prod.mk.injEq, decide_eq_true_eq, all_eq_true] at view
  obtain ⟨packets, filled, writable⟩ := view
  exact ⟨w, s, built, completed, packets, filled, writable,
    (source_written_iff built completed packets filled).mpr writable⟩

/-- The length of three headers is a number, and no text. So there is no source for a packet with as
many of them. -/
theorem no_source_for_items :
    ∃ w s,
      buildProtocol (some (exampleDocument (itemPackets "Length") "Packets")) {} = (.ok (), w) ∧
      synthesise w.store = (.ok (), s) ∧ s.pdus ≠ [] ∧
      (∀ t ∈ writtenTypes s, isFilled s t = true) ∧
      ∀ written, emit .rust "example.txt" w.store ≠ (.ok written, s) := by
  have noted : Tables.noteDocument (exampleDocument (itemPackets "Length") "Packets") {}
      = (.ok (), itemTables (.field "Length")) :=
    noteDocument_example (t := itemTypes (.field "Length")) (by decide +kernel) (by decide +kernel)
  have viewed : builtWith (itemTables (.field "Length")) (ranWith synthesise fun _ s =>
      (decide (s.pdus ≠ []), (writtenTypes s).all (isFilled s),
        (files .rust "example.txt" s).isOk)) = some (some (true, true, false)) := by
    decide +kernel
  obtain ⟨w, ⟨⟩, s, built, completed, view⟩ := exists_ran noted viewed
  simp only [Prod.mk.injEq, decide_eq_true_eq, all_eq_true] at view
  obtain ⟨packets, filled, fails⟩ := view
  refine ⟨w, s, built, completed, packets, filled, fun written emitted => ?_⟩
  obtain ⟨_, s', -, asked⟩ := bind_eq_ok.mp emitted
  obtain ⟨answer, rfl⟩ := ask_eq_ok.mp asked
  rw [answer] at fails
  cases fails

end PacketDraft.Render
