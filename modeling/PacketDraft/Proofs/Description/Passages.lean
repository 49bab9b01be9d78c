import PacketDraft.Proofs.Description.SectionOrder
import PacketDraft.Proofs.Description.Spelling

/-!
# Passages

The pieces of text in the paragraphs of a document are its passages. A document is read passage by
passage, a section before the sections in it, up to where an element lacks what every element of its
kind has. The name of a protocol and its packets come from one passage, unless a passage lists a
packet whose name comes to nothing: then it gives the protocol its name and leaves the packets that
another passage has listed.
-/

namespace PacketDraft.Description

open Document List

variable {read : List Passage} {pdus : List String}

/-- A piece of text in a paragraph, with the content that the paragraph stands in and its place. -/
structure Passage where
  content : List Element
  place : Nat
  text : String

namespace Passage

/-- The tables with what a passage declares. -/
def note (p : Passage) (t : Tables) : Tables :=
  Tables.note p.content p.place p.text t

/-- The name of the protocol that a passage defines, and the names of its packets. -/
def definition? (p : Passage) : Option (String × List String) :=
  reading? Sentence.protocolDefinition p.text

/-- The packets that a passage defines, if all their names can be used. -/
def packets? (p : Passage) : Option (List String) := do
  let definition ← p.definition?
  definition.2.mapM fun pdu => (typeName pdu).toOption

end Passage

/-- Passages in the order in which they are read, and whether reading goes on behind them. -/
structure Course where
  passages : List Passage := []
  goesOn : Bool := true

namespace Course

/-- Reading goes no further. -/
def stop : Course where
  goesOn := false

def andThen (first second : Course) : Course :=
  if first.goesOn then ⟨first.passages ++ second.passages, second.goesOn⟩ else first

end Course

namespace Tables

/-! ## The passages of a document -/

def paragraphCourse (content : List Element) (i : Nat) (e : Element) : Course :=
  if e.isKind .t then
    match e.items? with
    | none => .stop
    | some items => { passages := (items.filterMap Element.chars?).map (⟨content, i, ·⟩) }
  else {}

def contentCourse (e : Element) : Course :=
  match e.items? with
  | none => .stop
  | some content =>
    content.zipIdx.foldr (fun p rest => (paragraphCourse content p.2 p.1).andThen rest) {}

mutual

def sectionCourse : Element → Course
  | .text _ => .stop
  | .node kind parts settings =>
    (contentCourse (.node kind parts settings)).andThen (innerCourse parts)

def innerCourse : List (String × Document.Part Element) → Course
  | [] => .stop
  | (name, part) :: rest => if name = "sections" then partCourse part else innerCourse rest

def partCourse : Document.Part Element → Course
  | .many es => sectionsCourse es
  | .absent | .one _ | .pairs _ => {}

def sectionsCourse : List Element → Course
  | [] => {}
  | e :: es => (sectionCourse e).andThen (sectionsCourse es)

end

def documentCourse (document : Element) : Course :=
  match document.part? "middle" with
  | some (.one middle) =>
    match middle.items? with
    | some sections => sectionsCourse sections
    | none => .stop
  | _ => .stop

/-- The passages of a document that are read, in their order. -/
def passages (document : Element) : List Passage :=
  (documentCourse document).passages

/-- The tables with what passages declare, one after the other. -/
def noteAll (ps : List Passage) (t : Tables) : Tables :=
  ps.foldl (fun t p => p.note t) t

theorem noteAll_append (ps qs : List Passage) (t : Tables) :
    noteAll (ps ++ qs) t = noteAll qs (noteAll ps t) :=
  foldl_append

/-- An attempt that notes the passages of a course and succeeds if reading goes on behind them. -/
def Follows (course : Course) (x : Attempt Tables Unit) : Prop :=
  ∀ t, (x t).1.isOk = course.goesOn ∧ (x t).2 = noteAll course.passages t

theorem follows_pure : Follows {} (pure ()) :=
  fun _ => ⟨rfl, rfl⟩

theorem follows_fail (e : Fault) : Follows .stop (Attempt.fail e) :=
  fun _ => ⟨rfl, rfl⟩

theorem Follows.andThen {a b : Course} {x y : Attempt Tables Unit} (first : Follows a x)
    (second : Follows b y) : Follows (a.andThen b) (do x; y) := by
  intro t
  obtain ⟨ok, after⟩ := first t
  rw [Attempt.bind_apply, Course.andThen]
  rcases outcome : x t with ⟨_ | done, u⟩
  · rw [outcome] at ok after
    rw [← ok]
    exact ⟨ok, after⟩
  · rw [outcome] at ok after
    rw [← ok]
    obtain ⟨ok', after'⟩ := second u
    refine ⟨ok', after'.trans ?_⟩
    show noteAll b.passages u = noteAll (a.passages ++ b.passages) t
    rw [noteAll_append, ← after]

theorem follows_each {α : Type} {f : α → Attempt Tables Unit} {course : α → Course}
    (one : ∀ a, Follows (course a) (f a)) (as : List α) :
    Follows (as.foldr (fun a rest => (course a).andThen rest) {}) (Attempt.each f as) := by
  induction as with
  | nil => exact follows_pure
  | cons a as ih => exact (one a).andThen ih

theorem follows_paragraph (content : List Element) (i : Nat) (e : Element) :
    Follows (paragraphCourse content i e) (noteParagraph content i e) := by
  unfold paragraphCourse noteParagraph
  split
  · cases e.items? with
    | none => exact follows_fail _
    | some items =>
      intro t
      have sentences : noteAll ((items.filterMap Element.chars?).map (⟨content, i, ·⟩)) t
          = (items.filterMap Element.chars?).foldl (fun t s => note content i s t) t :=
        foldl_map
      exact ⟨rfl, sentences.symm⟩
  · exact follows_pure

theorem follows_content (e : Element) : Follows (contentCourse e) (noteContent e) := by
  unfold contentCourse noteContent
  cases e.items? with
  | none => exact follows_fail _
  | some content =>
    exact follows_each (fun p => follows_paragraph content p.2 p.1) content.zipIdx

mutual

theorem follows_section : ∀ e : Element, Follows (sectionCourse e) (noteSection e)
  | .text _ => follows_fail _
  | .node kind parts settings => by
    rw [sectionCourse, noteSection]
    exact (follows_content _).andThen (follows_inner parts)

theorem follows_inner : ∀ parts : List (String × Document.Part Element),
    Follows (innerCourse parts) (noteInner parts)
  | [] => follows_fail _
  | (name, part) :: rest => by
    rw [innerCourse, noteInner]
    split
    · exact follows_part part
    · exact follows_inner rest

theorem follows_part : ∀ part : Document.Part Element, Follows (partCourse part) (notePart part)
  | .many es => by
    rw [partCourse, notePart]
    exact follows_sections es
  | .absent => follows_pure
  | .one _ => follows_pure
  | .pairs _ => follows_pure

theorem follows_sections : ∀ es : List Element, Follows (sectionsCourse es) (noteSections es)
  | [] => follows_pure
  | e :: es => by
    rw [sectionsCourse, noteSections]
    exact (follows_section e).andThen (follows_sections es)

end

/-- A document is read passage by passage. -/
theorem follows_document (document : Element) :
    Follows (documentCourse document) (noteDocument document) := by
  unfold documentCourse noteDocument
  rcases document.part? "middle" with _ | _ | middle | _ | _
  · exact follows_fail _
  · exact follows_fail _
  · dsimp only
    cases middle.items? with
    | none => exact follows_fail _
    | some sections => exact follows_sections sections
  · exact follows_fail _
  · exact follows_fail _

/-! ## Protocols -/

theorem protocolName_note (p : Passage) (t : Tables) :
    (p.note t).protocolName = (p.definition?.map (·.1)).or t.protocolName := by
  rw [Passage.note, note_eq, Passage.definition?]
  unfold noteProtocol
  cases reading? Sentence.protocolDefinition p.text with
  | none => rfl
  | some definition => rfl

theorem pdus_note (p : Passage) (t : Tables) : (p.note t).pdus = p.packets?.or t.pdus := by
  rw [Passage.note, note_eq, Passage.packets?, Passage.definition?]
  unfold noteProtocol
  cases reading? Sentence.protocolDefinition p.text with
  | none => rfl
  | some definition =>
    show ((definition.2.mapM fun pdu => (typeName pdu).toOption) <|> none).or t.pdus
      = (definition.2.mapM fun pdu => (typeName pdu).toOption).or t.pdus
    rw [Option.orElse_eq_orElse, Option.orElse_eq_or, Option.or_none]

theorem noteAll_concat (ps : List Passage) (p : Passage) (t : Tables) :
    noteAll (ps ++ [p]) t = p.note (noteAll ps t) :=
  noteAll_append ps [p] t

/-- The last definition of a protocol names it. -/
theorem protocolName_noteAll (ps : List Passage) : (noteAll ps {}).protocolName
    = ps.reverse.findSome? fun p => p.definition?.map (·.1) := by
  induction ps using List.reverseRecOn with
  | nil => rfl
  | append_singleton ps p ih =>
    rw [noteAll_concat, protocolName_note, ih, reverse_concat, List.findSome?_cons]
    cases p.definition? with
    | none => rfl
    | some definition => rfl

/-- The packets are those of the last definition whose names can all be used. -/
theorem pdus_noteAll (ps : List Passage) :
    (noteAll ps {}).pdus = ps.reverse.findSome? Passage.packets? := by
  induction ps using List.reverseRecOn with
  | nil => rfl
  | append_singleton ps p ih =>
    rw [noteAll_concat, pdus_note, ih, reverse_concat, List.findSome?_cons]
    cases p.packets? with
    | none => rfl
    | some packets => rfl

/-- A phrase can be used as the name of a type unless it is empty. -/
theorem isSome_typeName {phrase : String} :
    (typeName phrase).toOption.isSome = true ↔ phrase ≠ "" := by
  unfold typeName
  cases letters : phrase.toList with
  | nil =>
    have empty : phrase = "" := String.toList_eq_nil_iff.mp letters
    exact ⟨fun usable => absurd usable (by decide), fun nonempty => absurd empty nonempty⟩
  | cons c cs =>
    refine ⟨fun _ empty => ?_, fun _ => rfl⟩
    rw [empty] at letters
    cases letters

theorem isSome_mapM {α β : Type} {f : α → Option β} {xs : List α} :
    (xs.mapM f).isSome = true ↔ ∀ x ∈ xs, (f x).isSome = true := by
  induction xs with
  | nil => simp
  | cons x xs ih =>
    rw [mapM_cons, forall_mem_cons, ← ih]
    cases f x with
    | none => simp
    | some y => cases xs.mapM f <;> simp

theorem isSome_packets {p : Passage} {name : String} (defines : p.definition? = some (name, pdus)) :
    p.packets?.isSome = true ↔ "" ∉ pdus := by
  have packets : p.packets? = pdus.mapM fun pdu => (typeName pdu).toOption := by
    rw [Passage.packets?, defines]
    rfl
  rw [packets, isSome_mapM]
  constructor
  · intro usable mem
    exact isSome_typeName.mp (usable "" mem) rfl
  · intro absent pdu mem
    exact isSome_typeName.mpr fun empty => absent (empty ▸ mem)

/-- After these passages there is neither a name nor packets, or the same passage, the last one that
defines a protocol, has given both. -/
def SetTogether (read : List Passage) : Prop :=
  (noteAll read {}).protocolName = none ∧ (noteAll read {}).pdus = none ∨
  ∃ before p later name pdus packets, read = before ++ p :: later ∧
    (∀ q ∈ later, q.definition? = none) ∧
    p.definition? = some (name, pdus) ∧ p.packets? = some packets ∧
    (noteAll read {}).protocolName = some name ∧ (noteAll read {}).pdus = some packets

theorem setTogether_nil : SetTogether [] :=
  .inl ⟨rfl, rfl⟩

/-- A passage that defines no protocol changes neither. -/
theorem SetTogether.concat_other {p : Passage} (together : SetTogether read)
    (other : p.definition? = none) : SetTogether (read ++ [p]) := by
  have noPackets : p.packets? = none := by rw [Passage.packets?, other]; rfl
  have sameName : (noteAll (read ++ [p]) {}).protocolName = (noteAll read {}).protocolName := by
    rw [noteAll_concat, protocolName_note, other]
    rfl
  have samePackets : (noteAll (read ++ [p]) {}).pdus = (noteAll read {}).pdus := by
    rw [noteAll_concat, pdus_note, noPackets]
    rfl
  unfold SetTogether
  rw [sameName, samePackets]
  refine together.imp_right ?_
  rintro ⟨before, source, later, name, pdus, packets, rfl, quiet, defines, usable, set⟩
  refine ⟨before, source, later ++ [p], name, pdus, packets, ?_, ?_, defines, usable, set⟩
  · rw [append_assoc, cons_append]
  · intro q mem
    rcases mem_append.mp mem with old | new
    · exact quiet q old
    · rw [mem_singleton.mp new]
      exact other

/-- A definition whose packets can all be used sets both. -/
theorem setTogether_concat {p : Passage} {name : String} {packets : List String}
    (defines : p.definition? = some (name, pdus)) (usable : p.packets? = some packets) :
    SetTogether (read ++ [p]) := by
  refine .inr ⟨read, p, [], name, pdus, packets, rfl, by simp, defines, usable, ?_, ?_⟩
  · rw [noteAll_concat, protocolName_note, defines]
    rfl
  · rw [noteAll_concat, pdus_note, usable]
    rfl

/-- A definition with a packet that cannot be used sets the name alone. -/
theorem not_setTogether_concat {p : Passage} {name : String}
    (defines : p.definition? = some (name, pdus)) (unusable : p.packets? = none) :
    ¬ SetTogether (read ++ [p]) := by
  rintro (⟨unnamed, -⟩ | ⟨before, source, later, -, -, packets, split, quiet, -, usable, -, -⟩)
  · rw [noteAll_concat, protocolName_note, defines] at unnamed
    cases unnamed
  · rcases eq_nil_or_concat' later with rfl | ⟨init, last, rfl⟩
    · obtain ⟨-, same⟩ := append_inj' split rfl
      cases same
      rw [unusable] at usable
      cases usable
    · rw [← cons_append, ← append_assoc] at split
      obtain ⟨-, same⟩ := append_inj' split rfl
      cases same
      rw [quiet p (by simp)] at defines
      cases defines

theorem setTogether_of_usable (usable : ∀ p ∈ read, ∀ definition ∈ p.definition?, "" ∉ definition.2) :
    SetTogether read := by
  induction read using List.reverseRecOn with
  | nil => exact setTogether_nil
  | append_singleton read p ih =>
    have before := ih fun q mem => usable q (mem_append_left [p] mem)
    cases defines : p.definition? with
    | none => exact before.concat_other defines
    | some definition =>
      have own := usable p (mem_append_right read mem_cons_self) definition defines
      obtain ⟨packets, named⟩ := Option.isSome_iff_exists.mp ((isSome_packets defines).mpr own)
      exact setTogether_concat defines named

/-- A document is read passage by passage. The last definition of a protocol gives it its name, and
the last one whose packets can all be used gives it its packets. So the two are set together at
every point exactly if no definition lists a packet whose name comes to nothing. -/
theorem protocol_set_together_iff (document : Element) :
    (noteDocument document {}).2 = noteAll (passages document) {} ∧
    (∀ read, read <+: passages document →
      (noteAll read {}).protocolName
          = (read.reverse.findSome? fun p => p.definition?.map (·.1)) ∧
        (noteAll read {}).pdus = read.reverse.findSome? Passage.packets?) ∧
    ((∀ read, read <+: passages document → SetTogether read) ↔
      ∀ p ∈ passages document, ∀ definition ∈ p.definition?, "" ∉ definition.2) := by
  refine ⟨(follows_document document {}).2,
    fun read _ => ⟨protocolName_noteAll read, pdus_noteAll read⟩, ?_, ?_⟩
  · intro together p mem definition defines empty
    obtain ⟨before, later, split⟩ := append_of_mem mem
    have unusable : p.packets? = none := by
      rw [← Option.not_isSome_iff_eq_none, isSome_packets defines]
      exact not_not_intro empty
    refine not_setTogether_concat defines unusable (together (before ++ [p]) ⟨later, ?_⟩)
    rw [split, append_assoc, singleton_append]
  · intro usable read start
    exact setTogether_of_usable fun p mem => usable p (start.mem mem)

/-- The sentence that defines a protocol. -/
def defining (protocol packets : String) : String :=
  "This document describes the " ++ protocol ++ " protocol. The " ++ protocol ++ " protocol uses "
    ++ packets ++ "."

/-- A protocol is defined, and then another one whose packet has no name in the singular. -/
def renamedEcho : Element :=
  documentOf
    [packetSection "Ping" "0\n+-+-+\n| T |\n+-+-+\n" "Tag: 2 bits.",
     Memo.sectionOf "Overview" [Memo.paragraphOf (defining "Echo" "Pings")],
     Memo.sectionOf "Variant" [Memo.paragraphOf (defining "Other" "s")]]

/-- The second definition gives the packets of the first its own name. -/
theorem packets_renamed :
    ((noteDocument renamedEcho {}).2.protocolName, (noteDocument renamedEcho {}).2.pdus)
      = (some "Other", some ["Ping"]) ∧
    ¬ SetTogether (passages renamedEcho) := by
  have last : passages renamedEcho = (passages renamedEcho).dropLast ++
      [⟨[Memo.paragraphOf (defining "Other" "s")], 0, defining "Other" "s"⟩] := rfl
  have defines : reading? Sentence.protocolDefinition (defining "Other" "s")
      = some ("Other", [""]) := by
    decide +kernel
  refine ⟨by decide +kernel, ?_⟩
  rw [last]
  refine not_setTogether_concat defines ?_
  rw [Passage.packets?, Passage.definition?, defines]
  rfl

end Tables

end PacketDraft.Description
