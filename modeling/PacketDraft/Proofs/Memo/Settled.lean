import PacketDraft.Memo.Reading
import PacketDraft.Proofs.Memo.Definitions

/-!
# Definition lists are made once

Making definition lists a second time changes nothing. A diagram whose fields are listed has a
definition list where paragraphs would have to start, and one that was kept is kept for the same
reason. This takes a diagram with at least one field: below an empty one, a list is made each time.
-/

namespace PacketDraft.Memo

open Document Description List Element

variable {lead content : List Element} {groups : List (Element × List Element)}

/-! ## One diagram -/

/-- If an element can be read as a diagram, there is a field in it. -/
def ShowsField (art : Element) : Prop :=
  ∀ (text : String) (fields : List DiagramField),
    art.enclosedChars? = some text → Diagram.fields text.toList = .ok fields → fields ≠ []

variable {tab : Nat} {art : Element}

/-- A definition list is no paragraph, so no field is read from it. -/
theorem readFields?_definitionList (shows : ShowsField art) (entries : List FieldEntry)
    (left : List Element) : readFields? tab art (definitionList entries :: left) = none := by
  rw [Option.eq_none_iff_forall_ne_some]
  intro made read
  obtain ⟨text, fields, chars, drawn, rest⟩ := readFields?_eq_some read
  have more : (([] : List FieldEntry).length : Int) ≠ fields.length := by
    have nonempty := length_pos_iff.mpr (shows text fields chars drawn)
    simp only [length_nil]
    omega
  have other : paragraphText? (definitionList entries) = none := rfl
  rw [readEntries, if_neg more, other] at rest
  cases rest

/-- What stands below a diagram after its fields were listed, or kept, stays like that. -/
theorem withDefinitions_settles (tab : Nat) (shows : ShowsField art) {below : List Element}
    (plain : ∀ e ∈ below, IsPlain e) :
    ∃ result, withDefinitions tab art below = .ok (art :: result) ∧
      withDefinitions tab art result = .ok (art :: result) ∧
      ∀ e ∈ result, e ∈ below ∨ ∃ entries, e = definitionList entries := by
  cases below with
  | nil =>
    have kept : withDefinitions tab art [] = .ok [art] := by
      rw [withDefinitions]
      split <;> rfl
    exact ⟨[], kept, kept, by simp⟩
  | cons lead ps =>
    obtain ⟨answer, asked⟩ := (plain lead mem_cons_self).isWhere_ok
    by_cases unread : answer = true → readFields? tab art ps = none
    · have kept := withDefinitions_of_not_read asked unread
      exact ⟨lead :: ps, kept, kept, fun e mem => .inl mem⟩
    · obtain ⟨rfl, listed⟩ := Classical.not_imp.mp unread
      obtain ⟨⟨entries, left⟩, read⟩ := Option.ne_none_iff_exists'.mp listed
      obtain ⟨_, _, _, _, rest⟩ := readFields?_eq_some read
      obtain ⟨taken, rfl, -⟩ := readEntries_eq_some rest
      refine ⟨lead :: definitionList entries :: left, withDefinitions_of_read asked read,
        withDefinitions_of_not_read asked fun _ => readFields?_definitionList shows entries left,
        fun e mem => ?_⟩
      rcases mem_cons.mp mem with rfl | later
      · exact .inl mem_cons_self
      · rcases mem_cons.mp later with rfl | behind
        · exact .inr ⟨entries, rfl⟩
        · exact .inl (mem_cons_of_mem _ (mem_append_right _ behind))

/-! ## The content of a section -/

theorem groupByDiagram_lead_append (others : ∀ e ∈ lead, e.isKind .artwork = false)
    (es : List Element) :
    groupByDiagram (lead ++ es) = (lead ++ (groupByDiagram es).1, (groupByDiagram es).2) := by
  induction lead with
  | nil => rfl
  | cons e lead ih =>
    rw [forall_mem_cons] at others
    rw [cons_append, groupByDiagram_other _ others.1, ih others.2]
    rfl

/-- Diagrams with what stands below them, one after the other, are the groups. -/
theorem groupByDiagram_flatMap
    (grouped : ∀ g ∈ groups, g.1.isKind .artwork = true ∧ ∀ e ∈ g.2, e.isKind .artwork = false) :
    groupByDiagram (groups.flatMap fun g => g.1 :: g.2) = ([], groups) := by
  induction groups with
  | nil => rfl
  | cons g groups ih =>
    rw [forall_mem_cons] at grouped
    rw [flatMap_cons, cons_append, groupByDiagram_artwork _ grouped.1.1,
      groupByDiagram_lead_append grouped.1.2, ih grouped.2, append_nil]

theorem convertContent_eq {results : List (List Element)}
    (parts : groupByDiagram content = (lead, groups))
    (each : (groups.reverse.mapM fun g => withDefinitions tab g.1 g.2) = .ok results) :
    convertContent tab content = .ok (lead ++ results.reverse.flatten) := by
  rw [convertContent, parts]
  show (groups.reverse.mapM fun g => withDefinitions tab g.1 g.2) >>= _ = _
  rw [each]
  rfl

/-- Content in which every diagram stays as it is with what stands below it. -/
theorem convertContent_of_settled (others : ∀ e ∈ lead, e.isKind .artwork = false)
    (grouped : ∀ g ∈ groups, g.1.isKind .artwork = true ∧ ∀ e ∈ g.2, e.isKind .artwork = false)
    (settled : ∀ g ∈ groups, withDefinitions tab g.1 g.2 = .ok (g.1 :: g.2)) :
    convertContent tab (lead ++ groups.flatMap fun g => g.1 :: g.2)
      = .ok (lead ++ groups.flatMap fun g => g.1 :: g.2) := by
  have parts : groupByDiagram (lead ++ groups.flatMap fun g => g.1 :: g.2) = (lead, groups) := by
    rw [groupByDiagram_lead_append others, groupByDiagram_flatMap grouped, append_nil]
  have each : (groups.reverse.mapM fun g => withDefinitions tab g.1 g.2)
      = .ok (groups.reverse.map fun g => g.1 :: g.2) :=
    mapM_ok fun g mem => settled g (mem_reverse.mp mem)
  rw [convertContent_eq parts each, map_reverse, reverse_reverse, flatMap_def]

/-- Each diagram with what stands below it in the end. -/
theorem exists_settled_groups (tab : Nat) (groups : List (Element × List Element))
    (shows : ∀ g ∈ groups, ShowsField g.1) (plain : ∀ g ∈ groups, ∀ e ∈ g.2, IsPlain e) :
    ∃ after : List (Element × List Element),
      (groups.mapM fun g => withDefinitions tab g.1 g.2) = .ok (after.map fun g => g.1 :: g.2) ∧
      (∀ g ∈ after, withDefinitions tab g.1 g.2 = .ok (g.1 :: g.2)) ∧
      ∀ g ∈ after, ∃ g' ∈ groups, g.1 = g'.1 ∧
        ∀ e ∈ g.2, e ∈ g'.2 ∨ ∃ entries, e = definitionList entries := by
  induction groups with
  | nil => exact ⟨[], rfl, by simp, by simp⟩
  | cons g groups ih =>
    rw [forall_mem_cons] at shows plain
    obtain ⟨after, converted, settled, from_⟩ := ih shows.2 plain.2
    obtain ⟨below, first, again, members⟩ := withDefinitions_settles tab shows.1 plain.1
    refine ⟨(g.1, below) :: after, ?_, forall_mem_cons.mpr ⟨again, settled⟩,
      forall_mem_cons.mpr ⟨⟨g, mem_cons_self, rfl, members⟩, fun h mem => ?_⟩⟩
    · rw [mapM_cons, first, converted]
      rfl
    · obtain ⟨g', own, rest⟩ := from_ h mem
      exact ⟨g', mem_cons_of_mem _ own, rest⟩

/-- Converted content is converted into itself, and all that is new in it are definition lists. -/
theorem convertContent_settles (tab : Nat) (plain : ∀ e ∈ content, IsPlain e)
    (shows : ∀ e ∈ content, e.isKind .artwork = true → ShowsField e) :
    ∃ result, convertContent tab content = .ok result ∧ convertContent tab result = .ok result ∧
      ∀ e ∈ result, e ∈ content ∨ ∃ entries, e = definitionList entries := by
  have inside : ∀ g ∈ (groupByDiagram content).2, ∀ e ∈ g.1 :: g.2, e ∈ content := by
    intro g mem e own
    rw [← groupByDiagram_append content]
    exact mem_append_right _ (mem_flatMap.mpr ⟨g, mem, own⟩)
  have grouped := groupByDiagram_groups content
  obtain ⟨after, converted, settled, from_⟩ := exists_settled_groups tab
    (groupByDiagram content).2.reverse
    (fun g mem => shows g.1 (inside g (mem_reverse.mp mem) _ mem_cons_self)
      (grouped g (mem_reverse.mp mem)).1)
    (fun g mem e own => plain e (inside g (mem_reverse.mp mem) e (mem_cons_of_mem _ own)))
  have first := convertContent_eq rfl converted
  rw [← map_reverse, ← flatMap_def] at first
  refine ⟨_, first, convertContent_of_settled (groupByDiagram_lead content) ?_ ?_, ?_⟩
  · intro g mem
    obtain ⟨g', own, same, members⟩ := from_ g (mem_reverse.mp mem)
    have kinds := grouped g' (mem_reverse.mp own)
    refine ⟨same ▸ kinds.1, fun e below => ?_⟩
    rcases members e below with old | ⟨entries, rfl⟩
    · exact kinds.2 e old
    · rfl
  · exact fun g mem => settled g (mem_reverse.mp mem)
  · intro e mem
    rcases mem_append.mp mem with lead | later
    · exact .inl (groupByDiagram_append content ▸ mem_append_left _ lead)
    · obtain ⟨g, new, own⟩ := mem_flatMap.mp later
      obtain ⟨g', old, same, members⟩ := from_ g (mem_reverse.mp new)
      have held := inside g' (mem_reverse.mp old)
      rcases mem_cons.mp own with rfl | below
      · exact .inl (same ▸ held g'.1 mem_cons_self)
      · exact (members e below).imp_left fun there => held e (mem_cons_of_mem _ there)

/-! ## Documents -/

theorem listHasSection_eq_false_iff {es : List Element} :
    listHasSection es = false ↔ ∀ e ∈ es, hasSection e = false := by
  induction es with
  | nil => simp [listHasSection]
  | cons e es ih => simp [listHasSection, ih]

/-- Content with its definition lists, if they can be made. -/
def converted (tab : Nat) (content : List Element) : List Element :=
  (convertContent tab content).toOption.getD content

theorem converted_eq {result : List Element} (made : convertContent tab content = .ok result) :
    converted tab content = result := by
  rw [converted, made]
  rfl

theorem turns_converted (tab : Nat) {c : Content}
    (shows : ∀ e ∈ c.elements, e.isKind .artwork = true → ShowsField e) :
    Turns tab id (converted tab) c ∧ Turns tab (converted tab) (converted tab) c := by
  obtain ⟨result, first, again, members⟩ := convertContent_settles tab c.plain shows
  have free : listHasSection result = false := by
    refine listHasSection_eq_false_iff.mpr fun e mem => ?_
    rcases members e mem with old | ⟨entries, rfl⟩
    · exact listHasSection_eq_false_iff.mp c.noSection e old
    · rfl
  simp only [Turns, converted_eq first]
  exact ⟨⟨c.noSection, first⟩, free, again⟩

theorem convert_middleOf {f g : List Element → List Element} {trees : List SectionTree}
    (turns : ∀ tree ∈ trees, ∀ c, tree.Holds c → Turns tab f g c) :
    convert tab (middleOf f trees) = .ok (middleOf g trees) := by
  show convert tab (.node .middle [("content", .many (treeElements f trees))] []) = _
  rw [convert, convertParts, convertParts, convertPart, convertList_of_turns trees turns]
  rfl

variable {document middle middle' : Element} {name : String} {old new : Document.Part Element}

theorem part?_setPart (there : document.part? name = some old) :
    (document.setPart name new).part? name = some new := by
  cases document with
  | text content => cases there
  | node kind parts settings =>
    rw [part?] at there
    rw [setPart, part?]
    induction parts with
    | nil => cases there
    | cons p parts ih =>
      rw [map_cons, lookup_cons]
      rw [lookup_cons] at there
      by_cases same : p.1 = name
      · simp [same]
      · have other : (name == p.1) = false := by simpa using Ne.symm same
        simp only [other] at there
        simp only [same, if_false, other]
        exact ih there

theorem setPart_setPart (document : Element) (name : String) (part : Document.Part Element) :
    (document.setPart name part).setPart name part = document.setPart name part := by
  cases document with
  | text content => rfl
  | node kind parts settings =>
    rw [setPart, setPart, map_map]
    congr 1
    refine map_congr_left fun p _ => ?_
    by_cases same : p.1 = name <;> simp [same]

theorem convertMiddle_eq (there : document.part? "middle" = some (.one middle))
    (made : convert tab middle = .ok middle') :
    convertMiddle tab document = .ok (document.setPart "middle" (.one middle')) := by
  rw [convertMiddle, there]
  show convert tab middle >>= _ = _
  rw [made]
  rfl

/-- A document of sections, in which each diagram that can be read shows a field, gets all its
definition lists at once. Making them again changes nothing. -/
theorem convertMiddle_idempotent (tab : Nat) {document : Element} {trees : List SectionTree}
    (sections : document.part? "middle" = some (.one (middleOf id trees)))
    (shows : ∀ tree ∈ trees, ∀ c, tree.Holds c →
      ∀ e ∈ c.elements, e.isKind .artwork = true → ShowsField e) :
    ∃ result, convertMiddle tab document = .ok result ∧ convertMiddle tab result = .ok result := by
  have first := convert_middleOf fun tree mem c inside =>
    (turns_converted tab (shows tree mem c inside)).1
  have again := convert_middleOf fun tree mem c inside =>
    (turns_converted tab (shows tree mem c inside)).2
  refine ⟨_, convertMiddle_eq sections first, ?_⟩
  rw [convertMiddle_eq (part?_setPart sections) again, setPart_setPart]

/-- A diagram of one field. -/
def flagArt : Element :=
  .node .artwork [("content", .one (.plain "0\n+-+\n|F|\n+-+\n"))] []

/-- The diagram with a description of its field. -/
def flagContent : Content where
  elements := flagArt :: ["where:", "   F: 1 bit.  A flag."].map fun text =>
    .node .t [("content", .many [.plain text])] []
  plain := by
    intro e mem paragraph
    rcases mem_cons.mp mem with rfl | later
    · cases paragraph
    · obtain ⟨text, -, rfl⟩ := mem_map.mp later
      exact ⟨[text], [], rfl⟩
  noSection := rfl

def flagSections : List SectionTree :=
  [.node ⟨.absent, rfl⟩ flagContent none []]

theorem showsField_flagArt : ShowsField flagArt := by
  have drawn : ((Diagram.fields "0\n+-+\n|F|\n+-+\n".toList).toOption.all
      fun fields => !fields.isEmpty) = true := by decide +kernel
  intro text fields chars read
  cases chars
  rw [read] at drawn
  simpa [Except.toOption] using drawn

theorem convertMiddle_idempotent_flag :
    (∀ tree ∈ flagSections, ∀ c, tree.Holds c →
      ∀ e ∈ c.elements, e.isKind .artwork = true → ShowsField e) ∧
    ∃ result, convertMiddle 3 (.node .rfc [("middle", .one (middleOf id flagSections))] [])
        = .ok result ∧ convertMiddle 3 result = .ok result := by
  have shows : ∀ tree ∈ flagSections, ∀ c, tree.Holds c →
      ∀ e ∈ c.elements, e.isKind .artwork = true → ShowsField e := by
    intro tree mem c inside e own art
    cases mem_singleton.mp mem
    cases inside with
    | own =>
      rcases mem_cons.mp own with rfl | later
      · exact showsField_flagArt
      · obtain ⟨text, -, rfl⟩ := mem_map.mp later
        cases art
  exact ⟨shows, convertMiddle_idempotent 3 rfl shows⟩

end PacketDraft.Memo
