import PacketDraft.Memo.Definitions
import PacketDraft.Proofs.Sequence

/-!
# Definition lists lose no text

Of the elements of a section only the paragraphs that describe a diagram change: they become one
definition list, with the same text. Either all of them do or none, and this is decided for each
diagram on its own. The main result is about whole trees of sections: every content is treated like
this, and nothing else changes.
-/

namespace PacketDraft.Memo

open Document Description Text List

variable {entries : List FieldEntry} {left : List Element}

/-! ## The text of elements -/

mutual

/-- All text in an element, from the first to the last. -/
def allText : Element → List Char
  | .text content => (content.getD "").toList
  | .node _ parts _ => partsText parts

def partsText : List (String × Document.Part Element) → List Char
  | [] => []
  | (_, part) :: parts => partText part ++ partsText parts

def partText : Document.Part Element → List Char
  | .absent => []
  | .one e => allText e
  | .many es => listText es
  | .pairs ps => pairsText ps

def listText : List Element → List Char
  | [] => []
  | e :: es => allText e ++ listText es

/-- Each term comes before its description. -/
def pairsText : List (Element × Element) → List Char
  | [] => []
  | (term, description) :: ps => allText term ++ allText description ++ pairsText ps

end

/-- The text of an entry: the title, and then the description. -/
def FieldEntry.text (e : FieldEntry) : List Char :=
  e.term ++ (e.first ++ e.further.flatten)

def entriesText (entries : List FieldEntry) : List Char :=
  entries.flatMap (·.text)

theorem allText_plain (text : List Char) : allText (.plain (String.ofList text)) = text := by
  simp [Element.plain, allText]

theorem allText_paragraph (text : List Char) : allText (FieldEntry.paragraph text) = text := by
  simp [FieldEntry.paragraph, Element.ofKind, Kind.parts, allText, partsText, partText, listText,
    allText_plain]

theorem listText_paragraphs (texts : List (List Char)) :
    listText (texts.map FieldEntry.paragraph) = texts.flatten := by
  induction texts with
  | nil => rfl
  | cons text texts ih => simp [listText, allText_paragraph, ih]

theorem allText_toPair (e : FieldEntry) :
    allText e.toPair.1 ++ allText e.toPair.2 = e.text := by
  have term : allText e.toPair.1 = e.term := by
    simp [FieldEntry.toPair, Element.ofKind, Kind.parts, allText, partsText, partText, listText,
      allText_plain]
  have description : allText e.toPair.2 = e.first ++ e.further.flatten := by
    by_cases single : e.further = []
    · simp [FieldEntry.toPair, Element.ofKind, Kind.parts, allText, partsText, partText, listText,
        allText_plain, single]
    · have several :
          allText e.toPair.2 = listText ((e.first :: e.further).map FieldEntry.paragraph) := by
        simp [FieldEntry.toPair, Element.ofKind, Kind.parts, allText, partsText, partText, single]
      rw [several, listText_paragraphs, flatten_cons]
  rw [term, description, FieldEntry.text]

/-- Terms and descriptions have the text of the entries, in their order. -/
theorem pairsText_toPair (entries : List FieldEntry) :
    pairsText (entries.map (·.toPair)) = entriesText entries := by
  induction entries with
  | nil => rfl
  | cons e es ih =>
    rw [map_cons, pairsText, allText_toPair, ih, entriesText, entriesText, flatMap_cons]

/-! ## Reading paragraphs -/

/-- How many fields of a diagram a paragraph describes. A paragraph that continues a description
describes none, and there is no answer where it cannot be read. -/
def fieldsIn? (tab : Nat) (p : Element) : Option Int := do
  let text ← paragraphText? p
  let stop ← titleEnd? text
  if indentation text = tab then
    let title ← (FieldTitle.title.parse (strip (text.take (stop + 1)))).toOption
    fieldsDescribed? title
  else some 0

/-- How many fields paragraphs describe together. -/
def fieldsIn (tab : Nat) : List Element → Int
  | [] => 0
  | p :: ps => (fieldsIn? tab p).getD 0 + fieldsIn tab ps

/-- Whether a paragraph is not indented like a title. -/
def continues (tab : Nat) (p : Element) : Bool :=
  (paragraphText? p).any fun text => indentation text ≠ tab

/-- Paragraphs that should describe `n` fields are stuck at one of them: those before it do not
describe just as many, and it cannot be read, or continues a description where none has started. -/
def Stuck (tab : Nat) (n : Int) (started : Bool) (ps : List Element) : Prop :=
  ∃ before p after, ps = before ++ p :: after ∧
    (∀ read, read <+: before → fieldsIn tab read ≠ n) ∧
    (fieldsIn? tab p = none ∨ started = false ∧ before = [] ∧ continues tab p = true)

variable {tab : Nat} {n : Int} {started : Bool} {p : Element} {ps : List Element}

theorem not_stuck_nil : ¬ Stuck tab n started [] := by
  rintro ⟨before, p, after, split, -⟩
  simp at split

theorem stuck_cons :
    Stuck tab n started (p :: ps) ↔
      n ≠ 0 ∧ (fieldsIn? tab p = none ∨ started = false ∧ continues tab p = true ∨
        Stuck tab (n - (fieldsIn? tab p).getD 0) true ps) := by
  constructor
  · rintro ⟨before, q, after, split, reached, fails⟩
    refine ⟨fun zero => reached [] nil_prefix zero.symm, ?_⟩
    cases before with
    | nil =>
      obtain ⟨rfl, rfl⟩ := List.cons.inj split
      rcases fails with unreadable | ⟨first, -, open_⟩
      · exact .inl unreadable
      · exact .inr (.inl ⟨first, open_⟩)
    | cons p' before =>
      obtain ⟨rfl, rfl⟩ := List.cons.inj split
      refine .inr (.inr ⟨before, q, after, rfl, fun read below enough => ?_, ?_⟩)
      · refine reached (p :: read) ((prefix_cons_inj p).mpr below) ?_
        rw [fieldsIn, enough]
        omega
      · rcases fails with unreadable | ⟨-, impossible, -⟩
        · exact .inl unreadable
        · cases impossible
  · rintro ⟨more, unreadable | ⟨first, open_⟩ | ⟨before, q, after, rfl, reached, fails⟩⟩
    · refine ⟨[], p, ps, rfl, fun read below => ?_, .inl unreadable⟩
      rw [prefix_nil.mp below]
      exact more.symm
    · refine ⟨[], p, ps, rfl, fun read below => ?_, .inr ⟨first, rfl, open_⟩⟩
      rw [prefix_nil.mp below]
      exact more.symm
    · refine ⟨p :: before, q, after, rfl, fun read below enough => ?_, ?_⟩
      · rcases prefix_cons_iff.mp below with rfl | ⟨read, rfl, -⟩
        · exact more enough.symm
        · refine reached read ((prefix_cons_inj p).mp below) ?_
          rw [fieldsIn] at enough
          omega
      · rcases fails with unreadable | ⟨impossible, -⟩
        · exact .inl unreadable
        · cases impossible

theorem addParagraph_eq_none_iff {text : List Char} :
    addParagraph text entries = none ↔ entries = [] := by
  fun_induction addParagraph text entries with
  | case1 => simp
  | case2 => simp
  | case3 e es other ih => simpa [ih] using other

theorem addParagraph_eq_some {text : List Char} {entries' : List FieldEntry}
    (added : addParagraph text entries = some entries') :
    entries'.length = entries.length ∧ entriesText entries' = entriesText entries ++ text := by
  fun_induction addParagraph text entries generalizing entries' with
  | case1 => cases added
  | case2 e =>
    cases added
    simp [entriesText, FieldEntry.text]
  | case3 e es other ih =>
    obtain ⟨es', rest, rfl⟩ := Option.map_eq_some_iff.mp added
    obtain ⟨length, same⟩ := ih rest
    refine ⟨by simp [length], ?_⟩
    simp only [entriesText, flatMap_cons] at same ⊢
    rw [same, append_assoc]

/-- What is done with a paragraph when more entries are wanted. -/
theorem readEntries_cons (tab : Nat) {wanted : Int} (p : Element) (ps : List Element)
    (more : (entries.length : Int) ≠ wanted) :
    (fieldsIn? tab p = none ∧ readEntries tab entries wanted (p :: ps) = none) ∨
    (∃ text e d, paragraphText? p = some text ∧ fieldsIn? tab p = some d ∧
      continues tab p = false ∧ e.text = text ∧
      readEntries tab entries wanted (p :: ps)
        = readEntries tab (entries ++ [e]) (wanted - (d - 1)) ps) ∨
    ∃ text, paragraphText? p = some text ∧ fieldsIn? tab p = some 0 ∧ continues tab p = true ∧
      readEntries tab entries wanted (p :: ps)
        = (addParagraph text entries).bind fun entries => readEntries tab entries wanted ps := by
  rw [readEntries, if_neg more]
  cases known : paragraphText? p with
  | none => exact .inl ⟨by simp [fieldsIn?, known], rfl⟩
  | some text =>
    cases stop : titleEnd? text with
    | none => exact .inl ⟨by simp [fieldsIn?, known, stop], by simp [stop]⟩
    | some stop_ =>
      by_cases title : indentation text = tab
      · cases read : FieldTitle.title.parse (strip (text.take (stop_ + 1))) with
        | error fault =>
          refine .inl ⟨?_, ?_⟩
          · simp [fieldsIn?, known, stop, title, read, Except.toOption]
          · simp [stop, title, read, Except.toOption]
        | ok field =>
          cases described : fieldsDescribed? field with
          | none =>
            refine .inl ⟨?_, ?_⟩
            · simp [fieldsIn?, known, stop, title, read, Except.toOption, described]
            · simp [stop, title, read, Except.toOption, described]
          | some d =>
            refine .inr (.inl ⟨text,
              { term := text.take (stop_ + 1), first := text.drop (stop_ + 1) },
              d, rfl, ?_, ?_, ?_, ?_⟩)
            · simp [fieldsIn?, known, stop, title, read, Except.toOption, described]
            · simp [continues, known, title]
            · simp [FieldEntry.text]
            · simp [stop, title, read, Except.toOption, described]
      · refine .inr (.inr ⟨text, rfl, ?_, ?_, ?_⟩)
        · simp [fieldsIn?, known, stop, title]
        · simp [continues, known, title]
        · simp [stop, title]

/-- Entries can be read from paragraphs unless these are stuck. -/
theorem readEntries_eq_none_iff {wanted : Int} :
    readEntries tab entries wanted ps = none ↔
      Stuck tab (wanted - entries.length) (!entries.isEmpty) ps := by
  induction ps generalizing entries wanted with
  | nil => simp [readEntries, not_stuck_nil]
  | cons p ps ih =>
    rw [stuck_cons]
    by_cases enough : (entries.length : Int) = wanted
    · simp [readEntries, enough]
    · have more : wanted - entries.length ≠ 0 := by omega
      obtain ⟨unreadable, stops⟩ | ⟨text, e, d, -, read, title, -, goes⟩ |
        ⟨text, -, read, open_, goes⟩ := readEntries_cons tab p ps enough
      · simp [stops, unreadable, more]
      · have rest : wanted - (d - 1) - (entries ++ [e]).length = wanted - entries.length - d := by
          simp
          omega
        have started : (!(entries ++ [e]).isEmpty) = true := by simp
        rw [goes, ih, rest, started]
        simp [read, title, more]
      · rw [goes]
        cases added : addParagraph text entries with
        | none =>
          obtain rfl := addParagraph_eq_none_iff.mp added
          simp [read, open_] at more ⊢
          exact more
        | some entries' =>
          have nonempty : entries ≠ [] := fun empty => by
            rw [addParagraph_eq_none_iff.mpr empty] at added
            cases added
          obtain ⟨length, -⟩ := addParagraph_eq_some added
          have nonempty' : entries'.isEmpty = false := by
            rw [isEmpty_eq_false_iff, ← length_pos_iff, length]
            exact length_pos_iff.mpr nonempty
          show readEntries tab entries' wanted ps = none ↔ _
          rw [ih, length, nonempty']
          simp [read, open_, more, nonempty]

/-- What is read is taken over as it is, paragraph by paragraph, until there is enough. -/
theorem readEntries_eq_some {entries' : List FieldEntry} {wanted : Int}
    (read : readEntries tab entries wanted ps = some (entries', left)) :
    ∃ taken, ps = taken ++ left ∧ (left = [] ∨ fieldsIn tab taken = wanted - entries.length) ∧
      ∃ texts, List.Forall₂ (fun p text => paragraphText? p = some text) taken texts ∧
        entriesText entries' = entriesText entries ++ texts.flatten := by
  induction ps generalizing entries wanted with
  | nil =>
    cases read
    exact ⟨[], rfl, .inl rfl, [], .nil, by simp⟩
  | cons p ps ih =>
    by_cases enough : (entries.length : Int) = wanted
    · rw [readEntries, if_pos enough] at read
      cases read
      refine ⟨[], rfl, .inr ?_, [], .nil, by simp⟩
      rw [fieldsIn]
      omega
    · obtain ⟨-, stops⟩ | ⟨text, e, d, known, fields, -, own, goes⟩ |
        ⟨text, known, fields, -, goes⟩ := readEntries_cons tab p ps enough
      · rw [stops] at read
        cases read
      · rw [goes] at read
        obtain ⟨taken, rfl, last, texts, all, same⟩ := ih read
        refine ⟨p :: taken, rfl, last.imp_right fun rest => ?_, text :: texts, .cons known all, ?_⟩
        · rw [fieldsIn, fields, rest, length_append, length_singleton]
          simp
          omega
        · rw [same, entriesText, flatMap_append, flatMap_singleton, own,
            append_assoc]
          rfl
      · rw [goes] at read
        obtain ⟨entries₁, added, rest⟩ := Option.bind_eq_some_iff.mp read
        obtain ⟨length, text_⟩ := addParagraph_eq_some added
        obtain ⟨taken, rfl, last, texts, all, same⟩ := ih rest
        refine ⟨p :: taken, rfl, last.imp_right fun rest => ?_, text :: texts, .cons known all, ?_⟩
        · rw [fieldsIn, fields, rest, length]
          simp
        · rw [same, text_, append_assoc]
          rfl

/-! ## Diagrams and what stands below them -/

/-- An element that holds nothing but text if it is a paragraph. -/
def IsPlain (e : Element) : Prop :=
  e.isKind .t = true → ∃ (texts : List String) (settings : List (String × Setting)),
    e = .node .t [("content", .many (texts.map Element.plain))] settings

theorem items?_content (kind : Kind) (items : List Element) (settings : List (String × Setting)) :
    (Element.node kind [("content", .many items)] settings).items? = some items := by
  simp [Element.items?, Element.part?]

theorem IsPlain.allText {text : List Char} (plain : IsPlain p)
    (known : paragraphText? p = some text) :
    p.isKind .t = true ∧ Memo.allText p = text := by
  rw [paragraphText?] at known
  by_cases paragraph : p.isKind .t = true
  · refine ⟨paragraph, ?_⟩
    obtain ⟨texts, settings, rfl⟩ := plain paragraph
    rw [if_pos paragraph, items?_content] at known
    match texts with
    | [] => cases known
    | [text'] =>
      cases known
      simp [Memo.allText, partsText, partText, listText, Element.plain]
    | _ :: _ :: _ => cases known
  · rw [if_neg paragraph] at known
    cases known

theorem IsPlain.isWhere_ok (plain : IsPlain p) : ∃ answer, isWhere p = .ok answer := by
  rw [isWhere]
  by_cases paragraph : p.isKind .t = true
  · obtain ⟨texts, settings, rfl⟩ := plain paragraph
    rw [if_pos paragraph, items?_content]
    match texts with
    | [] => exact ⟨_, rfl⟩
    | [text] => exact ⟨_, rfl⟩
    | _ :: _ :: _ => exact ⟨_, rfl⟩
  · rw [if_neg paragraph]
    exact ⟨_, rfl⟩

/-- The `n` fields of a diagram are described below it: after the word `where:` stand paragraphs
that can be read as far as they are needed. -/
def Describable (tab : Nat) (art : Element) (below : List Element) (n : Nat) : Prop :=
  ∃ lead paragraphs text fields, below = lead :: paragraphs ∧ isWhere lead = .ok true ∧
    art.enclosedChars? = some text ∧ Diagram.fields text.toList = .ok fields ∧
    fields.length = n ∧ ¬ Stuck tab n false paragraphs

/-- What becomes of a diagram and the elements below it. -/
inductive Outcome (tab : Nat) : Element × List Element → List Element → Prop
  | kept {art : Element} {below : List Element} (stays : ∀ n, ¬ Describable tab art below n) :
      Outcome tab (art, below) (art :: below)
  /-- A definition list with the text of some paragraphs stands in their place. -/
  | listed {art lead : Element} {taken left : List Element} {n : Nat}
      {pairs : List (Element × Element)} {settings : List Setting}
      (describable : Describable tab art (lead :: (taken ++ left)) n)
      (paragraphs : ∀ p ∈ taken, p.isKind .t = true)
      (enough : left = [] ∨ fieldsIn tab taken = n)
      (terms : ∀ pair ∈ pairs, pair.1.isKind .dt = true ∧ pair.2.isKind .dd = true)
      (sameText : pairsText pairs = listText taken) :
      Outcome tab (art, lead :: (taken ++ left))
        (art :: lead :: .ofKind .dl [.pairs pairs] settings :: left)

/-- The entries for the fields of a diagram, and the paragraphs that are left. -/
def readFields? (tab : Nat) (art : Element) (ps : List Element) :
    Option (List FieldEntry × List Element) := do
  let text ← art.enclosedChars?
  let fields ← (Diagram.fields text.toList).toOption
  readEntries tab [] fields.length ps

variable {art lead : Element} {text : String} {fields : List DiagramField}

theorem readFields?_eq (chars : art.enclosedChars? = some text)
    (drawn : Diagram.fields text.toList = .ok fields) :
    readFields? tab art ps = readEntries tab [] fields.length ps := by
  simp [readFields?, chars, drawn, Except.toOption]

theorem readFields?_eq_some {made : List FieldEntry × List Element}
    (read : readFields? tab art ps = some made) :
    ∃ text fields, art.enclosedChars? = some text ∧ Diagram.fields text.toList = .ok fields ∧
      readEntries tab [] fields.length ps = some made := by
  obtain ⟨text, chars, rest⟩ := Option.bind_eq_some_iff.mp read
  obtain ⟨fields, drawn, entries⟩ := Option.bind_eq_some_iff.mp rest
  refine ⟨text, fields, chars, ?_, entries⟩
  cases outcome : Diagram.fields text.toList with
  | error fault => simp [outcome, Except.toOption] at drawn
  | ok fields' =>
    rw [outcome] at drawn
    cases drawn
    rfl

theorem enclosedChars?_eq_some :
    art.enclosedChars? = some text ↔
      art.part? "content" = some (.one (.text (some text))) := by
  rw [Element.enclosedChars?]
  split
  · next item part =>
    rw [part]
    cases item <;> simp [Element.chars?]
  · next other =>
    constructor
    · intro impossible
      cases impossible
    · intro part
      exact absurd part (other _)

/-- Below the word `where:` the list is made if the fields can be read. -/
theorem withDefinitions_of_read (leads : isWhere lead = .ok true)
    (read : readFields? tab art ps = some (entries, left)) :
    withDefinitions tab art (lead :: ps)
      = .ok (art :: lead :: definitionList entries :: left) := by
  obtain ⟨text, fields, chars, drawn, rest⟩ := readFields?_eq_some read
  rw [withDefinitions, enclosedChars?_eq_some.mp chars]
  simp [leads, drawn, rest, Except.toOption, pure, Except.pure, bind, Except.bind]

/-- Otherwise nothing is done. -/
theorem withDefinitions_of_not_read {answer : Bool} (asked : isWhere lead = .ok answer)
    (unread : answer = true → readFields? tab art ps = none) :
    withDefinitions tab art (lead :: ps) = .ok (art :: lead :: ps) := by
  rw [withDefinitions]
  split
  · next content part =>
    cases answer with
    | false => simp [asked, pure, Except.pure, bind, Except.bind]
    | true =>
      have unread := unread rfl
      simp only [readFields?, Element.enclosedChars?, part, Element.chars?] at unread
      simp only [asked, unread]
      rfl
  · rfl

theorem describable_cons {art lead : Element} {n : Nat} :
    Describable tab art (lead :: ps) n ↔ isWhere lead = .ok true ∧
      ∃ text fields, art.enclosedChars? = some text ∧ Diagram.fields text.toList = .ok fields ∧
        fields.length = n ∧ ¬ Stuck tab n false ps := by
  constructor
  · rintro ⟨lead', ps', text, fields, below, rest⟩
    obtain ⟨rfl, rfl⟩ := List.cons.inj below
    exact ⟨rest.1, text, fields, rest.2⟩
  · rintro ⟨leads, text, fields, rest⟩
    exact ⟨lead, ps, text, fields, rfl, leads, rest⟩

theorem listText_eq_flatten {texts : List (List Char)} (plain : ∀ p ∈ ps, IsPlain p)
    (all : List.Forall₂ (fun p text => paragraphText? p = some text) ps texts) :
    (∀ p ∈ ps, p.isKind .t = true) ∧ listText ps = texts.flatten := by
  induction all with
  | nil => exact ⟨by simp, rfl⟩
  | cons known _ ih =>
    rw [forall_mem_cons] at plain
    obtain ⟨paragraph, text⟩ := plain.1.allText known
    obtain ⟨paragraphs, rest⟩ := ih plain.2
    exact ⟨forall_mem_cons.mpr ⟨paragraph, paragraphs⟩, by
      rw [listText, text, rest, flatten_cons]⟩

/-- Where the fields of a diagram can be read, they are listed with the text that was read. -/
theorem outcome_listed (plain : ∀ p ∈ ps, IsPlain p) (leads : isWhere lead = .ok true)
    (read : readFields? tab art ps = some (entries, left)) :
    Outcome tab (art, lead :: ps) (art :: lead :: definitionList entries :: left) := by
  obtain ⟨text, fields, chars, drawn, rest⟩ := readFields?_eq_some read
  have reads : ¬ Stuck tab fields.length false ps := by
    intro stuck
    have none : readEntries tab [] fields.length ps = none :=
      readEntries_eq_none_iff.mpr (by simpa using stuck)
    rw [none] at rest
    cases rest
  have describable : Describable tab art (lead :: ps) fields.length :=
    describable_cons.mpr ⟨leads, text, fields, chars, drawn, rfl, reads⟩
  obtain ⟨taken, rfl, enough, texts, all, same⟩ := readEntries_eq_some rest
  obtain ⟨paragraphs, sameText⟩ :=
    listText_eq_flatten (fun p mem => plain p (mem_append_left _ mem)) all
  refine .listed describable paragraphs (by simpa using enough) ?_ ?_
  · intro pair mem
    obtain ⟨e, -, rfl⟩ := mem_map.mp mem
    exact ⟨rfl, rfl⟩
  · rw [pairsText_toPair, same, sameText]
    rfl

theorem outcome_kept {answer : Bool} (asked : isWhere lead = .ok answer)
    (unread : answer = true → readFields? tab art ps = none) :
    Outcome tab (art, lead :: ps) (art :: lead :: ps) := by
  refine .kept fun n describable => ?_
  obtain ⟨leads, text, fields, chars, drawn, rfl, reads⟩ := describable_cons.mp describable
  rw [asked] at leads
  cases leads
  have none := unread rfl
  rw [readFields?_eq chars drawn, readEntries_eq_none_iff] at none
  exact reads (by simpa using none)

/-- A diagram is kept with what stands below it, or its fields are listed. -/
theorem withDefinitions_outcome (tab : Nat) (art : Element) {below : List Element}
    (plain : ∀ e ∈ below, IsPlain e) :
    ∃ result, withDefinitions tab art below = .ok result ∧ Outcome tab (art, below) result := by
  cases below with
  | nil =>
    refine ⟨[art], ?_, .kept ?_⟩
    · rw [withDefinitions]
      split <;> rfl
    · rintro n ⟨_, _, _, _, impossible, _⟩
      cases impossible
  | cons lead ps =>
    rw [forall_mem_cons] at plain
    obtain ⟨answer, asked⟩ := plain.1.isWhere_ok
    by_cases unread : answer = true → readFields? tab art ps = none
    · exact ⟨_, withDefinitions_of_not_read asked unread, outcome_kept asked unread⟩
    · obtain ⟨rfl, some⟩ := Classical.not_imp.mp unread
      obtain ⟨⟨entries, left⟩, read⟩ := Option.ne_none_iff_exists'.mp some
      exact ⟨_, withDefinitions_of_read asked read, outcome_listed plain.2 asked read⟩

/-! ## The content of a section -/

/-- Content whose diagrams each have their own outcome. -/
def Described (tab : Nat) (content result : List Element) : Prop :=
  ∃ (lead : List Element) (groups : List (Element × List Element))
    (results : List (List Element)),
    content = lead ++ groups.flatMap (fun g => g.1 :: g.2) ∧
    (∀ e ∈ lead, e.isKind .artwork = false) ∧
    (∀ g ∈ groups, g.1.isKind .artwork = true ∧ ∀ e ∈ g.2, e.isKind .artwork = false) ∧
    List.Forall₂ (Outcome tab) groups results ∧ result = lead ++ results.flatten

theorem groupByDiagram_artwork {e : Element} (es : List Element) (art : e.isKind .artwork = true) :
    groupByDiagram (e :: es) = ([], (e, (groupByDiagram es).1) :: (groupByDiagram es).2) := by
  simp only [groupByDiagram, art, if_true]

theorem groupByDiagram_other {e : Element} (es : List Element)
    (other : e.isKind .artwork = false) :
    groupByDiagram (e :: es) = (e :: (groupByDiagram es).1, (groupByDiagram es).2) := by
  simp only [groupByDiagram, other]
  rfl

theorem groupByDiagram_append (content : List Element) :
    (groupByDiagram content).1 ++ (groupByDiagram content).2.flatMap (fun g => g.1 :: g.2)
      = content := by
  induction content with
  | nil => rfl
  | cons e es ih =>
    cases kind : e.isKind .artwork with
    | true => simp [groupByDiagram_artwork es kind, ih]
    | false => simp [groupByDiagram_other es kind, ih]

theorem groupByDiagram_lead (content : List Element) :
    ∀ e ∈ (groupByDiagram content).1, e.isKind .artwork = false := by
  induction content with
  | nil => simp [groupByDiagram]
  | cons e es ih =>
    cases kind : e.isKind .artwork with
    | true => simp [groupByDiagram_artwork es kind]
    | false =>
      rw [groupByDiagram_other es kind]
      exact forall_mem_cons.mpr ⟨kind, ih⟩

theorem groupByDiagram_groups (content : List Element) :
    ∀ g ∈ (groupByDiagram content).2,
      g.1.isKind .artwork = true ∧ ∀ e ∈ g.2, e.isKind .artwork = false := by
  induction content with
  | nil => simp [groupByDiagram]
  | cons e es ih =>
    cases kind : e.isKind .artwork with
    | true =>
      rw [groupByDiagram_artwork es kind]
      exact forall_mem_cons.mpr ⟨⟨kind, groupByDiagram_lead es⟩, ih⟩
    | false =>
      rw [groupByDiagram_other es kind]
      exact ih

theorem convertContent_described (tab : Nat) {content : List Element}
    (plain : ∀ e ∈ content, IsPlain e) :
    ∃ result, convertContent tab content = .ok result ∧ Described tab content result := by
  have inside : ∀ g ∈ (groupByDiagram content).2, ∀ e ∈ g.2, IsPlain e := by
    intro g mem e below
    refine plain e ?_
    rw [← groupByDiagram_append content]
    exact mem_append_right _ (mem_flatMap.mpr ⟨g, mem, mem_cons_of_mem _ below⟩)
  have each : ∀ g ∈ (groupByDiagram content).2.reverse,
      ∃ result, withDefinitions tab g.1 g.2 = .ok result ∧ Outcome tab g result :=
    fun g mem => withDefinitions_outcome tab g.1 (inside g (mem_reverse.mp mem))
  obtain ⟨results, converted, outcomes⟩ := exists_mapM_forall₂ each
  refine ⟨(groupByDiagram content).1 ++ results.reverse.flatten, ?_, _, _, results.reverse,
    (groupByDiagram_append content).symm, groupByDiagram_lead content,
    groupByDiagram_groups content, ?_, rfl⟩
  · show ((groupByDiagram content).2.reverse.mapM fun g => withDefinitions tab g.1 g.2) >>= _ = _
    rw [converted]
    rfl
  · rw [← reverse_reverse (groupByDiagram content).2]
    exact rel_reverse outcomes

/-! ## Trees of sections -/

mutual

/-- Whether there is a section in an element. Terms and descriptions never hold one. -/
def hasSection : Element → Bool
  | .text _ => false
  | .node kind parts _ => kind = .section || partsHaveSection parts

def partsHaveSection : List (String × Document.Part Element) → Bool
  | [] => false
  | (_, part) :: parts => partHasSection part || partsHaveSection parts

def partHasSection : Document.Part Element → Bool
  | .one e => hasSection e
  | .many es => listHasSection es
  | _ => false

def listHasSection : List Element → Bool
  | [] => false
  | e :: es => hasSection e || listHasSection es

end

mutual

/-- Outside of sections nothing changes. -/
theorem convert_of_no_section (tab : Nat) :
    (e : Element) → hasSection e = false → convert tab e = .ok e
  | .text _, _ => rfl
  | .node kind parts settings, free => by
    simp only [hasSection, Bool.or_eq_false_iff, decide_eq_false_iff_not] at free
    rw [convert, convertParts_of_no_section tab parts free.2]
    simp [convertSection, Element.isKind, free.1, bind, Except.bind]

theorem convertParts_of_no_section (tab : Nat) :
    (parts : List (String × Document.Part Element)) → partsHaveSection parts = false →
      convertParts tab parts = .ok parts
  | [], _ => rfl
  | (name, part) :: parts, free => by
    simp only [partsHaveSection, Bool.or_eq_false_iff] at free
    rw [convertParts, convertPart_of_no_section tab part free.1,
      convertParts_of_no_section tab parts free.2]
    rfl

theorem convertPart_of_no_section (tab : Nat) :
    (part : Document.Part Element) → partHasSection part = false →
      convertPart tab part = .ok part
  | .absent, _ => rfl
  | .pairs _, _ => rfl
  | .one e, free => by
    rw [convertPart, convert_of_no_section tab e free]
    rfl
  | .many es, free => by
    rw [convertPart, convertList_of_no_section tab es free]
    rfl

theorem convertList_of_no_section (tab : Nat) :
    (es : List Element) → listHasSection es = false → convertList tab es = .ok es
  | [], _ => rfl
  | e :: es, free => by
    simp only [listHasSection, Bool.or_eq_false_iff] at free
    rw [convertList, convert_of_no_section tab e free.1, convertList_of_no_section tab es free.2]
    rfl

end

/-- The content of a section: paragraphs of text and other elements, but no further sections. -/
structure Content where
  elements : List Element
  plain : ∀ e ∈ elements, IsPlain e
  noSection : listHasSection elements = false

/-- A section with the sections below it. -/
inductive SectionTree where
  | node (heading : { part : Document.Part Element // partHasSection part = false })
      (content : Content) (below : Option (List SectionTree))
      (settings : List (String × Setting))

mutual

/-- A section as an element, with something done to the content of all sections. -/
def SectionTree.toElement (f : List Element → List Element) : SectionTree → Element
  | .node heading content below settings =>
    .node .section
      [("name", heading), ("content", .many (f content.elements)), ("sections", belowPart f below)]
      settings

def belowPart (f : List Element → List Element) : Option (List SectionTree) → Document.Part Element
  | none => .absent
  | some trees => .many (treeElements f trees)

def treeElements (f : List Element → List Element) : List SectionTree → List Element
  | [] => []
  | tree :: trees => tree.toElement f :: treeElements f trees

end

/-- The middle part of a document, which consists of sections. -/
def middleOf (f : List Element → List Element) (trees : List SectionTree) : Element :=
  .ofKind .middle [.many (treeElements f trees)] []

/-- The content of one of the sections of a tree. -/
inductive SectionTree.Holds (c : Content) : SectionTree → Prop
  | own {heading : { part : Document.Part Element // partHasSection part = false }}
      {below : Option (List SectionTree)} {settings : List (String × Setting)} :
      Holds c (.node heading c below settings)
  | inner {heading : { part : Document.Part Element // partHasSection part = false }}
      {content : Content} {trees : List SectionTree} {settings : List (String × Setting)}
      {tree : SectionTree} (mem : tree ∈ trees) (inside : tree.Holds c) :
      Holds c (.node heading content (some trees) settings)

/-- A section whose inner sections are converted already. -/
theorem convertSection_eq (heading below : Document.Part Element) {content result : List Element}
    (settings : List (String × Setting)) (own : convertContent tab content = .ok result) :
    convertSection tab (.node .section
          [("name", heading), ("content", .many content), ("sections", below)] settings)
      = .ok (.node .section
          [("name", heading), ("content", .many result), ("sections", below)] settings) := by
  have kind : (Element.node .section
      [("name", heading), ("content", .many content), ("sections", below)] settings).isKind .section
        = true := rfl
  have items : (Element.node .section
      [("name", heading), ("content", .many content), ("sections", below)] settings).items?
        = some content := by
    simp [Element.items?, Element.part?, lookup_cons]
  rw [convertSection, if_pos kind, items]
  simp [own, Element.setPart, bind, Except.bind, pure, Except.pure]

section Conversion

variable {f g : List Element → List Element}

/-- What is done to contents in one way becomes what is done to them in another. -/
def Turns (tab : Nat) (f g : List Element → List Element) (c : Content) : Prop :=
  listHasSection (f c.elements) = false ∧ convertContent tab (f c.elements) = .ok (g c.elements)

mutual

/-- All sections of a tree are converted, by what happens to their contents. -/
theorem convert_toElement : (tree : SectionTree) → (∀ c, tree.Holds c → Turns tab f g c) →
    convert tab (tree.toElement f) = .ok (tree.toElement g)
  | .node heading content below settings, turns => by
    have own := turns content .own
    rw [SectionTree.toElement, SectionTree.toElement, convert, convertParts, convertParts,
      convertParts, convertParts, convertPart_of_no_section tab heading heading.2,
      convertPart_of_no_section tab (.many (f content.elements)) own.1,
      convertPart_belowPart below fun trees same tree mem c inside =>
        turns c (same ▸ .inner mem inside)]
    exact convertSection_eq _ _ _ own.2

theorem convertPart_belowPart : (below : Option (List SectionTree)) →
    (∀ trees, below = some trees → ∀ tree ∈ trees, ∀ c, tree.Holds c → Turns tab f g c) →
      convertPart tab (belowPart f below) = .ok (belowPart g below)
  | none, _ => rfl
  | some trees, turns => by
    rw [belowPart, belowPart, convertPart, convertList_of_turns trees (turns trees rfl)]
    rfl

theorem convertList_of_turns : (trees : List SectionTree) →
    (∀ tree ∈ trees, ∀ c, tree.Holds c → Turns tab f g c) →
      convertList tab (treeElements f trees) = .ok (treeElements g trees)
  | [], _ => rfl
  | tree :: trees, turns => by
    rw [treeElements, treeElements, convertList,
      convert_toElement tree (turns tree mem_cons_self),
      convertList_of_turns trees fun tree mem => turns tree (mem_cons_of_mem _ mem)]
    rfl

end

theorem convertList_treeElements
    (own : ∀ c : Content, convertContent tab c.elements = .ok (f c.elements))
    (trees : List SectionTree) :
    convertList tab (treeElements id trees) = .ok (treeElements f trees) :=
  convertList_of_turns trees fun _ _ c _ => ⟨c.noSection, own c⟩

end Conversion

theorem exists_convertContent (tab : Nat) :
    ∃ f : List Element → List Element, ∀ c : Content,
      convertContent tab c.elements = .ok (f c.elements) ∧
        Described tab c.elements (f c.elements) := by
  refine ⟨fun content => (convertContent tab content).toOption.getD content, fun c => ?_⟩
  obtain ⟨result, converted, described⟩ := convertContent_described tab c.plain
  simp only [converted]
  exact ⟨rfl, described⟩

/-- Definition lists are made in all sections of a document, and nothing else is done. In the
content of a section, each diagram and what stands below it is kept as it is, or the paragraphs that
describe its fields become one definition list with the same text. -/
theorem convert_described (tab : Nat) :
    ∃ f : List Element → List Element,
      (∀ c : Content, Described tab c.elements (f c.elements)) ∧
      ∀ trees : List SectionTree,
        convert tab (middleOf id trees) = .ok (middleOf f trees) := by
  obtain ⟨f, own⟩ := exists_convertContent tab
  refine ⟨f, fun c => (own c).2, fun trees => ?_⟩
  show convert tab (.node .middle [("content", .many (treeElements id trees))] []) = _
  rw [convert, convertParts, convertParts, convertPart,
    convertList_treeElements (fun c => (own c).1) trees]
  rfl

end PacketDraft.Memo
