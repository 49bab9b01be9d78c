import PacketDraft.Proofs.Attempt
import PacketDraft.Proofs.Text.Capitals
import PacketDraft.Description.Tables

/-!
# How declared names are spelled

What every sentence keeps of the tables, a whole document keeps. So the packets that a document
declares have names that are made of phrases; such names have no capital letter but the first.
-/

namespace PacketDraft.Description

open Document Text Attempt

/-! ## Names of types -/

theorem isCapital_replaceChar {old c : Char} :
    isCapital (if c = old then '_' else c) = true → (if c = old then '_' else c) = c := by
  split
  · intro line
    exact absurd line (by decide)
  · intro _
    rfl

/-- After a capital, the letters of a type name have no other one. -/
theorem not_isCapital_of_mem_typeLetters {phrase rest : List Char} {first d : Char}
    (letters : typeLetters phrase = first :: rest) (capital : isCapital first = true)
    (mem : d ∈ rest) : isCapital d = false := by
  unfold typeLetters replaceChar at letters
  rw [List.map_map] at letters
  obtain ⟨c, cs, shape, rfl, rfl⟩ := List.map_eq_cons_iff.mp letters
  obtain ⟨e, own, rfl⟩ := List.mem_map.mp mem
  simp only [Function.comp_apply] at capital ⊢
  have same := (isCapital_replaceChar capital)
  rw [same] at capital
  have same' := isCapital_replaceChar capital
  rw [same'] at capital
  have lowered := not_isCapital_of_mem_capitalize shape capital own
  rw [Bool.eq_false_iff] at lowered ⊢
  intro upper
  rw [isCapital_replaceChar upper] at upper
  rw [isCapital_replaceChar upper] at upper
  exact lowered upper

theorem not_isCapital_of_mem_typeName {phrase name : String} {rest : List Char} {first d : Char}
    (named : typeName phrase = .ok name) (letters : name.toList = first :: rest)
    (capital : isCapital first = true) (mem : d ∈ rest) : isCapital d = false := by
  unfold typeName at named
  split at named
  · cases named
  · cases named
    rw [String.toList_ofList] at letters
    exact not_isCapital_of_mem_typeLetters letters capital mem

/-- No phrase makes the name of the type of data. -/
theorem typeName_ne_dataUnit (phrase : String) : typeName phrase ≠ .ok "DataUnit" := by
  intro named
  have letters : "DataUnit".toList = 'D' :: ['a', 't', 'a', 'U', 'n', 'i', 't'] := by decide
  have lowered : isCapital 'U' = false :=
    not_isCapital_of_mem_typeName named letters (by decide) (by simp)
  exact absurd lowered (by decide)

/-! ## What documents keep -/

namespace Tables

variable {P : Tables → Prop}

/-- What a sentence declares leaves a property alone. -/
def Stable (P : Tables → Prop) : Prop :=
  ∀ content i sentence t, P t → P (note content i sentence t)

theorem noteParagraph_keeps (stable : Stable P) (content : List Element) (i : Nat) (e : Element) :
    Attempt.Keeps (Attempt.Keeping P) (noteParagraph content i e) := by
  unfold noteParagraph
  split
  · split
    · exact keeps_fail _
    · next items _ =>
      refine keeps_update fun t start => ?_
      induction items.filterMap Element.chars? generalizing t with
      | nil => exact start
      | cons sentence sentences ih => exact ih _ (stable content i sentence t start)
  · exact keeps_pure ()

theorem noteContent_keeps (stable : Stable P) (e : Element) :
    Attempt.Keeps (Attempt.Keeping P) (noteContent e) := by
  unfold noteContent
  split
  · exact keeps_fail _
  · next content _ => exact .each fun p _ => noteParagraph_keeps stable content p.2 p.1

mutual

theorem noteSection_keeps (stable : Stable P) : ∀ e : Element,
    Attempt.Keeps (Attempt.Keeping P) (noteSection e)
  | .text _ => keeps_fail _
  | .node kind parts settings => by
    rw [noteSection]
    exact (noteContent_keeps stable _).bind fun _ => noteInner_keeps stable parts

theorem noteInner_keeps (stable : Stable P) : ∀ parts : List (String × Document.Part Element),
    Attempt.Keeps (Attempt.Keeping P) (noteInner parts)
  | [] => keeps_fail _
  | (name, part) :: rest => by
    rw [noteInner]
    split
    · exact notePart_keeps stable part
    · exact noteInner_keeps stable rest

theorem notePart_keeps (stable : Stable P) : ∀ part : Document.Part Element,
    Attempt.Keeps (Attempt.Keeping P) (notePart part)
  | .many es => by
    rw [notePart]
    exact noteSections_keeps stable es
  | .absent => keeps_pure ()
  | .one _ => keeps_pure ()
  | .pairs _ => keeps_pure ()

theorem noteSections_keeps (stable : Stable P) : ∀ es : List Element,
    Attempt.Keeps (Attempt.Keeping P) (noteSections es)
  | [] => keeps_pure ()
  | e :: es => by
    rw [noteSections]
    exact (noteSection_keeps stable e).bind fun _ => noteSections_keeps stable es

end

/-- A document keeps whatever every sentence keeps. -/
theorem noteDocument_keeps (stable : Stable P) (document : Element) :
    Attempt.Keeps (Attempt.Keeping P) (noteDocument document) := by
  unfold noteDocument
  split
  · split
    · exact noteSections_keeps stable _
    · exact keeps_fail _
  · exact keeps_fail _

/-! ## Packets -/

/-- All packets have the names of phrases. -/
def NamesPackets (t : Tables) : Prop :=
  ∀ name ∈ t.pdus.getD [], ∃ phrase, typeName phrase = .ok name

/-- What holds of every result. -/
theorem forall_of_mapM {α β : Type} {f : α → Option β} {Q : β → Prop} {xs : List α} {ys : List β}
    (mapped : xs.mapM f = some ys) (each : ∀ x y, f x = some y → Q y) : ∀ y ∈ ys, Q y := by
  induction xs generalizing ys with
  | nil =>
    cases mapped
    simp
  | cons x xs ih =>
    rw [List.mapM_cons] at mapped
    obtain ⟨first, own, rest⟩ := Option.bind_eq_some_iff.mp mapped
    obtain ⟨others, later, whole⟩ := Option.bind_eq_some_iff.mp rest
    cases whole
    exact List.forall_mem_cons.mpr ⟨each x first own, ih later⟩

theorem toOption_typeName {phrase name : String} (named : (typeName phrase).toOption = some name) :
    typeName phrase = .ok name := by
  cases value : typeName phrase with
  | error e =>
    rw [value] at named
    cases named
  | ok n =>
    rw [value] at named
    cases named
    rfl

theorem mapM_typeName {phrases names : List String}
    (named : (phrases.mapM fun p => (typeName p).toOption) = some names) :
    ∀ name ∈ names, ∃ phrase, typeName phrase = .ok name :=
  forall_of_mapM named fun phrase _ own => ⟨phrase, toOption_typeName own⟩

theorem stable_namesPackets : Stable NamesPackets := by
  intro content i sentence t start
  unfold note noteProtocol
  split
  · exact start
  · next name pdus _ =>
    intro packet mem
    cases named : pdus.mapM fun pdu => (typeName pdu).toOption with
    | none =>
      rw [named] at mem
      exact start packet mem
    | some names =>
      rw [named] at mem
      exact mapM_typeName named packet mem

theorem namesPackets_noteDocument {document : Element} {t : Tables}
    (noted : noteDocument document {} = (.ok (), t)) : t.NamesPackets :=
  (noteDocument_keeps stable_namesPackets document).of_eq noted (by simp [NamesPackets])

end Tables

end PacketDraft.Description
