import Mathlib.Data.List.Pairwise
import PacketDraft.Description.Tables
import PacketDraft.Proofs.Attempt

/-!
# What sections declare

Tables are maps: what they tell about a key is what was last put under it. A section lays its own
declarations over those that are there, whatever these are. So the declarations of sections that
have no key in common are the same in any order (`maps_noteSections_perm`).
-/

namespace PacketDraft.Table

variable {α : Type}

/-- The keys of a table, in the order in which they were put. -/
abbrev keys (rows : List (String × α)) : List String :=
  rows.map (·.1)

/-- Tables with no key in common. -/
def Apart (rows rows' : List (String × α)) : Prop :=
  ∀ k ∈ keys rows, k ∉ keys rows'

instance (rows rows' : List (String × α)) : Decidable (Apart rows rows') :=
  inferInstanceAs (Decidable (∀ k ∈ keys rows, k ∉ keys rows'))

theorem lookup_cons_eq (k key : String) (value : α) (rows : List (String × α)) :
    ((key, value) :: rows).lookup k = if k = key then some value else rows.lookup k := by
  rw [List.lookup_cons]
  by_cases same : k = key
  · rw [if_pos same, beq_iff_eq.mpr same]
  · rw [if_neg same, beq_eq_false_iff_ne.mpr same]

theorem lookup_put (key : String) (value : α) (rows : List (String × α)) (k : String) :
    (put key value rows).lookup k = if k = key then some value else rows.lookup k := by
  induction rows with
  | nil => exact lookup_cons_eq k key value []
  | cons row rows ih =>
    obtain ⟨key', value'⟩ := row
    rw [put]
    split
    · next same =>
      subst same
      rw [lookup_cons_eq, lookup_cons_eq]
      split
      · rfl
      · rfl
    · next other =>
      rw [lookup_cons_eq, lookup_cons_eq, ih]
      by_cases first : k = key'
      · subst first
        rw [if_pos rfl, if_neg other, if_pos rfl]
      · rw [if_neg first, if_neg first]

theorem mem_keys_put {key k : String} {value : α} {rows : List (String × α)}
    (mem : k ∈ keys (put key value rows)) : k = key ∨ k ∈ keys rows := by
  induction rows with
  | nil => exact .inl (List.mem_singleton.mp mem)
  | cons row rows ih =>
    rw [put] at mem
    split at mem
    · exact .inr mem
    · rcases List.mem_cons.mp mem with first | later
      · exact .inr (List.mem_cons.mpr (.inl first))
      · exact (ih later).imp_right (List.mem_cons_of_mem _)

theorem nodup_keys_put {rows : List (String × α)} (distinct : (keys rows).Nodup) (key : String)
    (value : α) : (keys (put key value rows)).Nodup := by
  induction rows with
  | nil => exact List.pairwise_singleton _ key
  | cons row rows ih =>
    obtain ⟨new, rest⟩ := List.nodup_cons.mp distinct
    rw [put]
    split
    · exact distinct
    · next other =>
      refine List.nodup_cons.mpr ⟨fun mem => ?_, ih rest⟩
      rcases mem_keys_put mem with same | later
      · exact other same
      · exact new later

theorem mem_keys_iff {rows : List (String × α)} {k : String} :
    k ∈ keys rows ↔ (rows.lookup k).isSome = true := by
  rw [List.lookup_isSome_iff, List.mem_map]
  constructor
  · rintro ⟨row, mem, rfl⟩
    exact ⟨row, mem, beq_self_eq_true _⟩
  · rintro ⟨row, mem, same⟩
    exact ⟨row, mem, (beq_iff_eq.mp same).symm⟩

theorem Apart.lookup_eq_none {rows rows' : List (String × α)} (apart : Apart rows rows')
    (k : String) : rows.lookup k = none ∨ rows'.lookup k = none := by
  by_cases mem : k ∈ keys rows
  · have other := apart k mem
    rw [mem_keys_iff, Option.not_isSome_iff_eq_none] at other
    exact .inr other
  · rw [mem_keys_iff, Option.not_isSome_iff_eq_none] at mem
    exact .inl mem

/-- Tables that tell the same have as many keys. -/
theorem length_eq_of_lookup_eq {rows rows' : List (String × α)} (distinct : (keys rows).Nodup)
    (distinct' : (keys rows').Nodup) (same : ∀ k, rows.lookup k = rows'.lookup k) :
    rows.length = rows'.length := by
  have perm : (keys rows).Perm (keys rows') :=
    (List.perm_ext_iff_of_nodup distinct distinct').mpr fun k => by
      rw [mem_keys_iff, mem_keys_iff, same]
  simpa using perm.length_eq

end PacketDraft.Table

namespace PacketDraft.Description

open Document Attempt

/-! ## Tables as maps -/

/-- What tables tell about each key. -/
@[ext] structure Maps where
  structs : String → Option StructRow
  enums : String → Option (List String)
  functions : String → Option Sentence.Signature
  serialiseTo : String → Option (String × String)
  parseFrom : String → Option (String × String)
  protocolName : Option String
  pdus : Option (List String)

namespace Maps

/-- Nothing is declared. -/
def empty : Maps :=
  ⟨fun _ => none, fun _ => none, fun _ => none, fun _ => none, fun _ => none, none, none⟩

/-- New declarations before old ones. -/
def atop (new old : Maps) : Maps where
  structs k := (new.structs k).or (old.structs k)
  enums k := (new.enums k).or (old.enums k)
  functions k := (new.functions k).or (old.functions k)
  serialiseTo k := (new.serialiseTo k).or (old.serialiseTo k)
  parseFrom k := (new.parseFrom k).or (old.parseFrom k)
  protocolName := new.protocolName.or old.protocolName
  pdus := new.pdus.or old.pdus

theorem empty_atop (m : Maps) : empty.atop m = m := by
  ext <;> simp [atop, empty]

theorem atop_empty (m : Maps) : m.atop empty = m := by
  ext <;> simp [atop, empty]

theorem atop_assoc (a b c : Maps) : (a.atop b).atop c = a.atop (b.atop c) := by
  ext <;> simp [atop, Option.or_assoc]

end Maps

namespace Tables

def maps (t : Tables) : Maps where
  structs k := t.structs.lookup k
  enums k := t.enums.lookup k
  functions k := t.functions.lookup k
  serialiseTo k := t.serialiseTo.lookup k
  parseFrom k := t.parseFrom.lookup k
  protocolName := t.protocolName
  pdus := t.pdus

theorem maps_empty : ({} : Tables).maps = .empty :=
  rfl

/-- Each key stands once in the tables that types are built from. -/
structure Distinct (t : Tables) : Prop where
  structs : (Table.keys t.structs).Nodup
  enums : (Table.keys t.enums).Nodup
  functions : (Table.keys t.functions).Nodup

theorem distinct_empty : Distinct {} :=
  ⟨List.nodup_nil, List.nodup_nil, List.nodup_nil⟩

/-! ## Notes -/

/-- An attempt that succeeds on all tables and lays the same declarations over them. -/
def Adds (own : Maps) (x : Attempt Tables Unit) : Prop :=
  ∀ t, (x t).1 = .ok () ∧ (x t).2.maps = own.atop t.maps ∧ (t.Distinct → (x t).2.Distinct)

theorem adds_pure : Adds .empty (pure ()) :=
  fun t => ⟨rfl, (Maps.empty_atop t.maps).symm, id⟩

theorem Adds.andThen {a b : Maps} {x y : Attempt Tables Unit} (first : Adds a x)
    (second : Adds b y) : Adds (b.atop a) (do x; y) := by
  intro t
  obtain ⟨done, maps, distinct⟩ := first t
  obtain ⟨done', maps', distinct'⟩ := second (x t).2
  have run : (do x; y : Attempt Tables Unit) t = y (x t).2 := by
    rw [bind_apply, ← Prod.eta (x t), done]
  rw [run]
  exact ⟨done', by rw [maps', maps, Maps.atop_assoc], fun start => distinct' (distinct start)⟩

/-- What an attempt lays over tables is what it makes of empty ones. -/
theorem Adds.own_eq {own : Maps} {x : Attempt Tables Unit} (adds : Adds own x) :
    (x {}).2.maps = own := by
  rw [(adds {}).2.1, maps_empty, Maps.atop_empty]

theorem lookup_noteIn {α : Type} (found : Option (String × α)) (rows : List (String × α))
    (k : String) :
    (noteIn found rows).lookup k = ((noteIn found []).lookup k).or (rows.lookup k) := by
  cases found with
  | none => rfl
  | some row =>
    simp only [noteIn, Table.lookup_put, List.lookup_nil]
    split
    · rfl
    · rfl

theorem nodup_keys_noteIn {α : Type} {rows : List (String × α)} (found : Option (String × α))
    (distinct : (Table.keys rows).Nodup) : (Table.keys (noteIn found rows)).Nodup := by
  cases found with
  | none => exact distinct
  | some row => exact Table.nodup_keys_put distinct row.1 row.2

/-- Naming the protocol leaves all other tables alone. -/
theorem noteProtocol_eq (sentence : String) (t : Tables) : noteProtocol sentence t = { t with
    protocolName := (noteProtocol sentence {}).protocolName.or t.protocolName
    pdus := (noteProtocol sentence {}).pdus.or t.pdus } := by
  unfold noteProtocol
  cases reading? Sentence.protocolDefinition sentence with
  | none => rfl
  | some definition =>
    obtain ⟨name, pdus⟩ := definition
    cases names : pdus.mapM fun pdu => (typeName pdu).toOption with
    | none => simp only [names]; rfl
    | some names' => simp only [names]; rfl

theorem note_eq (content : List Element) (i : Nat) (sentence : String) (t : Tables) :
    note content i sentence t =
      { structs := noteIn (describedStruct? content i sentence) t.structs
        enums := noteIn (describedEnum? sentence) t.enums
        functions := noteIn (describedFunction? content i sentence) t.functions
        serialiseTo := noteIn (describedConversion? Sentence.serialisation sentence) t.serialiseTo
        parseFrom := noteIn (describedConversion? Sentence.parsing sentence) t.parseFrom
        protocolName := (noteProtocol sentence {}).protocolName.or t.protocolName
        pdus := (noteProtocol sentence {}).pdus.or t.pdus } := by
  rw [note, noteProtocol_eq]

/-- What was found in a sentence is laid over the tables. -/
theorem maps_noteIn (struct : Option (String × StructRow)) (enum : Option (String × List String))
    (function : Option (String × Sentence.Signature))
    (serialiseTo parseFrom : Option (String × String × String)) (named : Tables) (t : Tables) :
    (Tables.mk (noteIn struct t.structs) (noteIn enum t.enums) (noteIn function t.functions)
        (noteIn serialiseTo t.serialiseTo) (noteIn parseFrom t.parseFrom)
        (named.protocolName.or t.protocolName) (named.pdus.or t.pdus)).maps
      = (Tables.mk (noteIn struct []) (noteIn enum []) (noteIn function [])
          (noteIn serialiseTo []) (noteIn parseFrom [])
          (named.protocolName.or none) (named.pdus.or none)).maps.atop t.maps := by
  ext k : 2
  · exact lookup_noteIn struct t.structs k
  · exact lookup_noteIn enum t.enums k
  · exact lookup_noteIn function t.functions k
  · exact lookup_noteIn serialiseTo t.serialiseTo k
  · exact lookup_noteIn parseFrom t.parseFrom k
  · simp [maps, Maps.atop]
  · simp [maps, Maps.atop]

theorem adds_note (content : List Element) (i : Nat) (sentence : String) :
    Adds (note content i sentence {}).maps (update (note content i sentence)) := by
  intro t
  have maps : (note content i sentence t).maps = (note content i sentence {}).maps.atop t.maps := by
    rw [note_eq content i sentence t, note_eq content i sentence {}]
    exact maps_noteIn _ _ _ _ _ _ t
  have kept (distinct : t.Distinct) : (note content i sentence t).Distinct := by
    rw [note_eq]
    exact ⟨nodup_keys_noteIn _ distinct.structs, nodup_keys_noteIn _ distinct.enums,
      nodup_keys_noteIn _ distinct.functions⟩
  exact ⟨rfl, maps, kept⟩

/-- Sentences add their declarations one after the other. -/
theorem exists_adds_sentences (content : List Element) (i : Nat) (sentences : List String) :
    ∃ own, Adds own (update fun t =>
      sentences.foldl (fun t sentence => note content i sentence t) t) := by
  induction sentences with
  | nil => exact ⟨.empty, adds_pure⟩
  | cons sentence sentences ih =>
    obtain ⟨rest, more⟩ := ih
    exact ⟨_, (adds_note content i sentence).andThen more⟩

/-! ## Sections -/

mutual

/-- Whether a section, and every section in it, has a content list with a property. -/
def allContents (p : List Element → Bool) : Element → Bool
  | .text _ => false
  | .node kind parts settings =>
    (match (Element.node kind parts settings).items? with
      | none => false
      | some content => p content) && allContentsInner p parts

def allContentsInner (p : List Element → Bool) : List (String × Document.Part Element) → Bool
  | [] => false
  | (name, part) :: rest =>
    if name = "sections" then allContentsPart p part else allContentsInner p rest

def allContentsPart (p : List Element → Bool) : Document.Part Element → Bool
  | .many es => allContentsList p es
  | .absent | .one _ | .pairs _ => true

def allContentsList (p : List Element → Bool) : List Element → Bool
  | [] => true
  | e :: es => allContents p e && allContentsList p es

end

/-- Whether a section, and every section in it, has a content list. -/
def hasContent (e : Element) : Bool :=
  allContents (fun _ => true) e

/-- Whether an element has a content list if it is a paragraph. -/
def isWhole (e : Element) : Bool :=
  !e.isKind .t || e.items?.isSome

/-- Whether the paragraphs of a section, and of every section in it, have content lists. -/
def hasWholeContent (e : Element) : Bool :=
  allContents (fun content => content.all isWhole) e

/-- Noting either adds declarations or, where something is missing, fails on all tables. -/
def Notes (whole : Bool) (x : Attempt Tables Unit) : Prop :=
  match whole with
  | true => ∃ own, Adds own x
  | false => ∀ t, (x t).1 = .error .wrongKind

theorem notes_pure : Notes true (pure ()) :=
  ⟨.empty, adds_pure⟩

theorem Notes.andThen {a b : Bool} {x y : Attempt Tables Unit} (first : Notes a x)
    (second : Notes b y) : Notes (a && b) (do x; y) := by
  cases a with
  | false =>
    intro t
    rw [bind_apply, ← Prod.eta (x t), first t]
  | true =>
    obtain ⟨own, adds⟩ := first
    cases b with
    | true =>
      obtain ⟨more, addsMore⟩ := second
      exact ⟨_, adds.andThen addsMore⟩
    | false =>
      intro t
      rw [bind_apply, ← Prod.eta (x t), (adds t).1]
      exact second _

theorem notes_paragraph (content : List Element) (i : Nat) (e : Element) :
    Notes (isWhole e) (noteParagraph content i e) := by
  unfold noteParagraph isWhole
  split
  · next paragraph =>
    rw [paragraph, Bool.not_true, Bool.false_or]
    cases e.items? with
    | none => exact fun t => rfl
    | some items => exact exists_adds_sentences content i _
  · next other =>
    rw [Bool.not_eq_true] at other
    rw [other]
    exact notes_pure

theorem notes_content {e : Element} {content : List Element} (found : e.items? = some content) :
    Notes (content.all isWhole) (noteContent e) := by
  unfold noteContent
  simp only [found]
  have all : content.all isWhole = content.zipIdx.all fun p => isWhole p.1 := by
    calc content.all isWhole = (content.zipIdx.map Prod.fst).all isWhole := by
          rw [List.zipIdx_map_fst]
      _ = content.zipIdx.all fun p => isWhole p.1 := List.all_map
  rw [all]
  induction content.zipIdx with
  | nil => exact notes_pure
  | cons a content.zipIdx ih =>
    rw [List.all_cons]
    exact ((fun p => notes_paragraph content p.2 p.1) a).andThen ih

-- one case for each form of an element, its parts and their sections, as they are noted
mutual

theorem notes_section : ∀ e : Element, hasContent e = true →
    Notes (hasWholeContent e) (noteSection e)
  | .text _, h => by
    cases h
  | .node kind parts settings, h => by
    rw [hasContent, allContents, Bool.and_eq_true] at h
    rw [hasWholeContent, allContents, noteSection]
    refine Notes.andThen ?_ (notes_inner parts h.2)
    cases found : (Element.node kind parts settings).items? with
    | none =>
      rw [found] at h
      cases h.1
    | some content => exact notes_content found

theorem notes_inner : ∀ parts : List (String × Document.Part Element),
    allContentsInner (fun _ => true) parts = true →
    Notes (allContentsInner (fun content => content.all isWhole) parts) (noteInner parts)
  | [], h => by
    cases h
  | (name, part) :: rest, h => by
    rw [allContentsInner] at h
    rw [allContentsInner, noteInner]
    by_cases sections : name = "sections"
    · rw [if_pos sections] at h
      rw [if_pos sections, if_pos sections]
      exact notes_part part h
    · rw [if_neg sections] at h
      rw [if_neg sections, if_neg sections]
      exact notes_inner rest h

theorem notes_part : ∀ part : Document.Part Element, allContentsPart (fun _ => true) part = true →
    Notes (allContentsPart (fun content => content.all isWhole) part) (notePart part)
  | .many es, h => by
    rw [allContentsPart] at h
    rw [allContentsPart, notePart]
    exact notes_sections es h
  | .absent, _ => notes_pure
  | .one _, _ => notes_pure
  | .pairs _, _ => notes_pure

theorem notes_sections : ∀ es : List Element, allContentsList (fun _ => true) es = true →
    Notes (allContentsList (fun content => content.all isWhole) es) (noteSections es)
  | [], _ => notes_pure
  | e :: es, h => by
    rw [allContentsList, Bool.and_eq_true] at h
    rw [allContentsList, noteSections]
    exact (notes_section e h.1).andThen (notes_sections es h.2)

end

theorem allContentsList_eq_all (p : List Element → Bool) (es : List Element) :
    allContentsList p es = es.all (allContents p) := by
  induction es with
  | nil => rfl
  | cons e es ih => rw [allContentsList, ih, List.all_cons]

/-! ## The order of sections -/

/-- What a section declares. -/
def declared (e : Element) : Tables :=
  (noteSection e {}).2

/-- Sections lay their declarations over the tables in their order. -/
theorem noteSections_eq {es : List Element} (content : ∀ e ∈ es, hasContent e = true)
    (whole : ∀ e ∈ es, hasWholeContent e = true) (t : Tables) :
    (noteSections es t).1 = .ok () ∧
    (noteSections es t).2.maps = es.foldl (fun m e => (declared e).maps.atop m) t.maps ∧
    (t.Distinct → (noteSections es t).2.Distinct) := by
  induction es generalizing t with
  | nil =>
    rw [noteSections]
    exact ⟨rfl, rfl, id⟩
  | cons e es ih =>
    have notes := notes_section e (content e List.mem_cons_self)
    rw [whole e List.mem_cons_self] at notes
    obtain ⟨own, adds⟩ := notes
    obtain ⟨done, maps, distinct⟩ := adds t
    obtain ⟨done', maps', distinct'⟩ :=
      ih (fun f later => content f (List.mem_cons_of_mem e later))
        (fun f later => whole f (List.mem_cons_of_mem e later)) (noteSection e t).2
    have run : noteSections (e :: es) t = noteSections es (noteSection e t).2 := by
      rw [noteSections, bind_apply, ← Prod.eta (noteSection e t), done]
    rw [run, List.foldl_cons]
    refine ⟨done', ?_, fun start => distinct' (distinct start)⟩
    rw [maps', maps, declared, adds.own_eq]

/-- Where a paragraph has no content, noting fails whatever the order of sections is. -/
theorem noteSections_fails {es : List Element} (content : ∀ e ∈ es, hasContent e = true)
    (missing : ¬ ∀ e ∈ es, hasWholeContent e = true) (t : Tables) :
    (noteSections es t).1 = .error .wrongKind := by
  have lists : allContentsList (fun _ => true) es = true := by
    rw [allContentsList_eq_all]
    exact List.all_eq_true.mpr content
  have incomplete : allContentsList (fun content => content.all isWhole) es = false := by
    rw [allContentsList_eq_all, Bool.eq_false_iff]
    exact fun all => missing (List.all_eq_true.mp all)
  have notes := notes_sections es lists
  rw [incomplete] at notes
  exact notes t

/-- Declarations with no key in common, which do not both name the protocol or its packets. -/
structure Apart (t u : Tables) : Prop where
  structs : Table.Apart t.structs u.structs
  enums : Table.Apart t.enums u.enums
  functions : Table.Apart t.functions u.functions
  serialiseTo : Table.Apart t.serialiseTo u.serialiseTo
  parseFrom : Table.Apart t.parseFrom u.parseFrom
  protocolName : t.protocolName = none ∨ u.protocolName = none
  pdus : t.pdus = none ∨ u.pdus = none

instance (t u : Tables) : Decidable (Apart t u) :=
  decidable_of_iff
    ((Table.Apart t.structs u.structs ∧ Table.Apart t.enums u.enums ∧
        Table.Apart t.functions u.functions) ∧
      (Table.Apart t.serialiseTo u.serialiseTo ∧ Table.Apart t.parseFrom u.parseFrom) ∧
      (t.protocolName = none ∨ u.protocolName = none) ∧ (t.pdus = none ∨ u.pdus = none))
    ⟨fun ⟨⟨structs, enums, functions⟩, ⟨serialiseTo, parseFrom⟩, protocolName, pdus⟩ =>
        ⟨structs, enums, functions, serialiseTo, parseFrom, protocolName, pdus⟩,
      fun h => ⟨⟨h.structs, h.enums, h.functions⟩, ⟨h.serialiseTo, h.parseFrom⟩, h.protocolName,
        h.pdus⟩⟩

theorem or_comm_of_none {α : Type} {a b : Option α} (absent : a = none ∨ b = none)
    (c : Option α) : a.or (b.or c) = b.or (a.or c) := by
  rcases absent with rfl | rfl
  · rfl
  · rfl

/-- Of declarations that are apart, either may be laid over the other. -/
theorem Apart.atop_comm {t u : Tables} (apart : Apart t u) (m : Maps) :
    t.maps.atop (u.maps.atop m) = u.maps.atop (t.maps.atop m) := by
  refine Maps.ext (funext fun k => ?_) (funext fun k => ?_) (funext fun k => ?_)
    (funext fun k => ?_) (funext fun k => ?_) ?_ ?_
  · exact or_comm_of_none (apart.structs.lookup_eq_none k) _
  · exact or_comm_of_none (apart.enums.lookup_eq_none k) _
  · exact or_comm_of_none (apart.functions.lookup_eq_none k) _
  · exact or_comm_of_none (apart.serialiseTo.lookup_eq_none k) _
  · exact or_comm_of_none (apart.parseFrom.lookup_eq_none k) _
  · exact or_comm_of_none apart.protocolName _
  · exact or_comm_of_none apart.pdus _

/-- Two sections declare the same in either order. -/
def Commute (e f : Element) : Prop :=
  ∀ m : Maps, (declared f).maps.atop ((declared e).maps.atop m)
    = (declared e).maps.atop ((declared f).maps.atop m)

instance : Std.Symm Commute :=
  ⟨fun _ _ comm m => (comm m).symm⟩

/-- Sections without a key in common declare the same in any order. -/
theorem maps_noteSections_perm {es es' : List Element} (perm : es.Perm es')
    (content : ∀ e ∈ es, hasContent e = true) (whole : ∀ e ∈ es, hasWholeContent e = true)
    (apart : es.Pairwise fun e f => Apart (declared e) (declared f)) (t : Tables) :
    (noteSections es t).2.maps = (noteSections es' t).2.maps := by
  have comm : es.Pairwise Commute := apart.imp fun apart m => (apart.atop_comm m).symm
  have all : ∀ ⦃e⦄, e ∈ es → ∀ ⦃f⦄, f ∈ es → Commute e f :=
    comm.forall_of_forall fun e _ m => rfl
  have other := noteSections_eq (fun e mem => content e (perm.mem_iff.mpr mem))
    (fun e mem => whole e (perm.mem_iff.mpr mem)) t
  rw [(noteSections_eq content whole t).2.1, other.2.1]
  exact perm.foldl_eq' (fun e mem f mem' m => all mem mem' m) t.maps

end Tables

end PacketDraft.Description
