import PacketDraft.Library.Find
import PacketDraft.Proofs.Attempt
import PacketDraft.Proofs.Text.Case
import PacketDraft.Proofs.Text.Occurrence

/-!
# Answers about drafts

Where an archive knows all submissions that it lists, the search for a draft gives the body of a page
that the server has, under the suffix of its address, or it gives nothing for one of three reasons. The
exceptions are names under which something lies that cannot be opened, and drafts that have
submissions, none of which is of the wanted revision: then the search fails.
-/

namespace PacketDraft.Library

open Text List

variable {a : Archive} {name revision address : String} {addresses : List String} {d : Draft}
  {made : List Request} {s : Submission} {found : Option Place} {p : Place}

/-! ## Submissions of a revision -/

/-- The submissions of a revision, in the order in which they are listed. -/
def Archive.ofRevision (a : Archive) (revision : String) (addresses : List String) :
    List Submission :=
  (addresses.filterMap a.submission?).filter (·.revision = revision)

theorem ofRevision_cons (known : a.submission? address = some s) :
    a.ofRevision revision (address :: addresses) =
      if s.revision = revision then s :: a.ofRevision revision addresses
      else a.ofRevision revision addresses := by
  by_cases own : s.revision = revision <;> simp [Archive.ofRevision, known, own]

theorem submitted_cons (known : a.submission? address = some s) :
    a.submitted revision found (address :: addresses) made =
      if s.revision = revision then
        match s.place? with
        | some p => a.submitted revision (some p) addresses (made ++ [.submission address])
        | none => (.ok none, made ++ [.submission address])
      else a.submitted revision found addresses (made ++ [.submission address]) := by
  have asked : request (.submission address) (a.submission? address) made
      = (.ok (some s), made ++ [.submission address]) := by
    rw [known]
    rfl
  rw [Archive.submitted, Attempt.bind_apply, asked]
  dsimp only
  by_cases own : s.revision = revision
  · simp only [own, if_true]
    cases s.place? <;> rfl
  · simp [own]

/-- Without a readable file, a submission ends the search. Else the place is that of a submission, and
there has to be one. -/
theorem submitted_cases (revision : String) (found : Option Place) (made : List Request)
    (listed : ∀ address ∈ addresses, (a.submission? address).isSome = true) :
    ∃ requests,
      (∃ s ∈ a.ofRevision revision addresses, s.place? = none) ∧
          a.submitted revision found addresses made = (.ok none, requests) ∨
        (∃ p, (found = some p ∨ ∃ s ∈ a.ofRevision revision addresses, s.place? = some p) ∧
          a.submitted revision found addresses made = (.ok (some p), requests)) ∨
        found = none ∧ a.ofRevision revision addresses = [] ∧
          a.submitted revision found addresses made = (.error .missingPart, requests) := by
  induction addresses generalizing found made with
  | nil =>
    cases found with
    | none => exact ⟨made, .inr (.inr ⟨rfl, rfl, rfl⟩)⟩
    | some p => exact ⟨made, .inr (.inl ⟨p, .inl rfl, rfl⟩)⟩
  | cons address addresses ih =>
    rw [forall_mem_cons] at listed
    obtain ⟨s, known⟩ := Option.isSome_iff_exists.mp listed.1
    rw [ofRevision_cons known, submitted_cons known]
    by_cases own : s.revision = revision
    · simp only [own, if_true, exists_mem_cons_iff]
      cases place : s.place? with
      | none => exact ⟨_, .inl ⟨.inl rfl, rfl⟩⟩
      | some p =>
        obtain ⟨requests, ⟨unreadable, stops⟩ | ⟨p', from_, ends⟩ | ⟨nothing, -⟩⟩ :=
          ih (some p) (made ++ [.submission address]) listed.2
        · exact ⟨requests, .inl ⟨.inr unreadable, stops⟩⟩
        · exact ⟨requests, .inr (.inl ⟨p', .inr from_, ends⟩)⟩
        · cases nothing
    · rw [if_neg own, if_neg own]
      exact ih found _ listed.2

/-! ## Addresses -/

/-- The formats in which a document can be read. -/
def formats : List String :=
  [".xml", ".txt"]

/-- The suffix of a place is that of a format and of its address. -/
def Place.Fits (p : Place) : Prop :=
  p.suffix ∈ formats ∧ p.suffix.toList <:+ p.url.toList

theorem fits_draftUrl {file suffix : String} (format : suffix ∈ formats)
    (ends : suffix.toList <:+ file.toList) : Place.Fits ⟨suffix, draftUrl file⟩ := by
  exact ⟨format, ends.trans ⟨_, String.toList_append.symm⟩⟩

theorem fits_of_place? (place : s.place? = some p) : p.Fits := by
  obtain ⟨suffix, chosen, rfl⟩ := Option.map_eq_some_iff.mp place
  exact fits_draftUrl (mem_of_find?_eq_some chosen) ⟨_, String.toList_append.symm⟩

theorem fits_of_formatSuffix? {suffix : String} (format : formatSuffix? name = some suffix) :
    Place.Fits ⟨suffix, draftUrl name⟩ := by
  apply fits_draftUrl
  · have mem := mem_of_find?_eq_some format
    simpa [formats, or_comm] using mem
  · have ends := List.find?_some format
    simpa [endsWith] using ends

/-! ## Outcomes -/

/-- Every submission that the archive lists is there. -/
def Archive.ListsKnown (a : Archive) : Prop :=
  ∀ title d, a.draft? title = some d →
    ∀ address ∈ d.submissions, (a.submission? address).isSome = true

/-- The draft that a name without a format stands for, and the revision of it that is wanted. -/
def Archive.Wanted (a : Archive) (name : String) (d : Draft) (revision : String) : Prop :=
  formatSuffix? name = none ∧ ∃ title own, splitRevision name.toList = .ok (title, own) ∧
    a.draft? (String.ofList title) = some d ∧ (own.map String.ofList).getD d.revision = revision

/-- A draft has submissions, but none of the wanted revision. -/
def Archive.Unsubmitted (a : Archive) (name : String) : Prop :=
  ∃ d revision, a.Wanted name d revision ∧ d.submissions ≠ [] ∧
    a.ofRevision revision d.submissions = []

/-- A source is what the server has at the address that was asked for last. -/
def Served (a : Archive) (requests : List Request) (source : Source) : Prop :=
  ∃ url page, requests.getLast? = some (.page url) ∧ Place.Fits ⟨source.suffix, url⟩ ∧
    a.page? url = some page ∧ page.status = 200 ∧ source.data = page.body

/-- Why there is no source: the server does not have the page that was asked for last, nobody knows the
draft, or the wanted revision was handed in without a readable file. -/
inductive Declined (a : Archive) (name : String) (requests : List Request) : Prop
  | noPage (url : String) (last : requests.getLast? = some (.page url))
    (missing : ∀ page, a.page? url = some page → page.status ≠ 200)
  | noDraft (bare : formatSuffix? name = none) (unknown : ∀ d revision, ¬ a.Wanted name d revision)
  | noFile (d : Draft) (revision : String) (wanted : a.Wanted name d revision) (s : Submission)
    (own : s ∈ a.ofRevision revision d.submissions) (unreadable : s.place? = none)

/-- A search comes to its end, with a source or with a reason why there is none. -/
def ServesOrDeclines (a : Archive) (name : String)
    (outcome : Except Fault (Option Source) × List Request) : Prop :=
  ∃ result, outcome.1 = .ok result ∧ (∀ source, result = some source → Served a outcome.2 source) ∧
    (result = none → Declined a name outcome.2)

theorem fetch_servesOrDeclines (fits : p.Fits) (name : String) (made : List Request) :
    ServesOrDeclines a name (a.fetch p made) := by
  refine ⟨(a.page? p.url).bind fun page =>
    if page.status = 200 then some ⟨p.suffix, page.body⟩ else none, rfl, ?_, ?_⟩
  · intro source own
    obtain ⟨page, answer, own⟩ := Option.bind_eq_some_iff.mp own
    obtain ⟨fine, same⟩ := Option.ite_none_right_eq_some.mp own
    cases same
    exact ⟨p.url, page, List.getLast?_concat, fits, answer, fine, rfl⟩
  · intro missing
    apply Declined.noPage p.url List.getLast?_concat
    intro page answer fine
    rw [answer, Option.bind_some, if_pos fine] at missing
    cases missing

/-! ## Looking for a draft -/

theorem exists_splitRevision {cs : List Char} (long : 3 ≤ cs.length) :
    ∃ parts, splitRevision cs = .ok parts := by
  rw [← length_reverse] at long
  rw [splitRevision]
  match cs.reverse, long with
  | last :: first :: hyphen :: title, _ =>
    dsimp only
    repeat' split
    all_goals exact ⟨_, rfl⟩

theorem findDraft_eq (bare : formatSuffix? name = none) {title : List Char}
    {own : Option (List Char)} (split : splitRevision name.toList = .ok (title, own)) :
    a.findDraft name made =
      (do
        match a.draft? (String.ofList title) with
        | none => return none
        | some d =>
          match ← a.draftPlace d ((own.map String.ofList).getD d.revision) with
          | none => return none
          | some place => a.fetch place : Search (Option Source))
        (made ++ [.draft (String.ofList title)]) := by
  rw [Archive.findDraft, bare]
  dsimp only
  rw [split]
  rfl

/-- A draft that was handed in, but not in the wanted revision, has no place, and that is a fault. Any
other has one unless some file cannot be read. -/
theorem draftPlace_cases
    (listed : ∀ address ∈ d.submissions, (a.submission? address).isSome = true) :
    ∃ requests,
      (d.submissions ≠ [] ∧ a.ofRevision revision d.submissions = []) ∧
          a.draftPlace d revision made = (.error .missingPart, requests) ∨
        ¬ (d.submissions ≠ [] ∧ a.ofRevision revision d.submissions = []) ∧
          ((∃ p, p.Fits ∧ a.draftPlace d revision made = (.ok (some p), requests)) ∨
            (∃ s ∈ a.ofRevision revision d.submissions, s.place? = none) ∧
              a.draftPlace d revision made = (.ok none, requests)) := by
  by_cases present : d.submissions = []
  · rw [Archive.draftPlace, present]
    refine ⟨made, .inr ⟨by simp, .inl ⟨_, fits_draftUrl ?_ ⟨_, String.toList_append.symm⟩, rfl⟩⟩⟩
    decide
  · have place : a.draftPlace d revision = a.submitted revision none d.submissions := by
      rw [Archive.draftPlace]
      split
      · next none => exact absurd none present
      · rfl
    rw [place]
    obtain ⟨requests, ⟨⟨s, mem, unreadable⟩, stops⟩ | ⟨p, ⟨⟨⟩⟩ | ⟨s, mem, own⟩, ends⟩ |
        ⟨-, none, fails⟩⟩ := submitted_cases revision none made listed
    · refine ⟨requests, .inr ⟨fun empty => ?_, .inr ⟨⟨s, mem, unreadable⟩, stops⟩⟩⟩
      rw [empty.2] at mem
      cases mem
    · refine ⟨requests, .inr ⟨fun empty => ?_, .inl ⟨p, fits_of_place? own, ends⟩⟩⟩
      rw [empty.2] at mem
      cases mem
    · exact ⟨requests, .inl ⟨⟨present, none⟩, fails⟩⟩

theorem findDraft_of_unsubmitted (listed : a.ListsKnown) (unsubmitted : a.Unsubmitted name) :
    (a.findDraft name made).1 = .error .missingPart := by
  obtain ⟨d, revision, ⟨bare, title, own, split, known, rfl⟩, present, empty⟩ := unsubmitted
  rw [findDraft_eq bare split, known]
  dsimp only
  obtain ⟨requests, ⟨-, fails⟩ | ⟨submitted, -⟩⟩ := draftPlace_cases (listed _ d known)
  · rw [Attempt.bind_apply, fails]
  · exact absurd ⟨present, empty⟩ submitted

theorem findDraft_servesOrDeclines (listed : a.ListsKnown) (long : 3 ≤ name.toList.length)
    (submitted : ¬ a.Unsubmitted name) :
    ServesOrDeclines a name (a.findDraft name made) := by
  cases bare : formatSuffix? name with
  | some suffix =>
    rw [Archive.findDraft, bare]
    exact fetch_servesOrDeclines (fits_of_formatSuffix? bare) name made
  | none =>
    obtain ⟨⟨title, own⟩, split⟩ := exists_splitRevision long
    rw [findDraft_eq bare split]
    cases known : a.draft? (String.ofList title) with
    | none =>
      refine ⟨none, rfl, by simp, fun _ => .noDraft bare ?_⟩
      rintro d revision ⟨-, title', own', split', known', -⟩
      rw [split] at split'
      cases split'
      rw [known] at known'
      cases known'
    | some d =>
      have wanted : a.Wanted name d ((own.map String.ofList).getD d.revision) :=
        ⟨bare, title, own, split, known, rfl⟩
      dsimp only
      rw [Attempt.bind_apply]
      obtain ⟨requests, ⟨empty, -⟩ | ⟨-, ⟨p, fits, place⟩ | ⟨⟨s, mem, unreadable⟩, place⟩⟩⟩ :=
        draftPlace_cases (listed _ d known)
      · exact absurd ⟨d, _, wanted, empty⟩ submitted
      · rw [place]
        exact fetch_servesOrDeclines fits name requests
      · rw [place]
        exact ⟨none, rfl, by simp, fun _ => .noFile d _ wanted s mem unreadable⟩

/-! ## Looking for a document -/

theorem lowered_of_draft (drafty : "draft-".toList <+: name.toList) :
    "draft-".toList <+: (lowered name).toList := by
  obtain ⟨rest, same⟩ := drafty
  have ascii : ∀ c ∈ "draft-".toList, c.toNat < 128 := by
    simp
  have text : (lowered name).toList = lowerFrom [] name.toList := String.toList_ofList
  rw [text, ← same, lowerFrom_append_of_ascii ascii]
  exact ⟨_, rfl⟩

/-- Nothing that is there and is no file can be opened. -/
theorem openFile_of_no_file {shelves : Shelves} (noFile : ∀ data, shelves.files name ≠ .file data) :
    ∃ fault, shelves.openFile name = .error fault := by
  rw [Shelves.openFile]
  split
  · exact ⟨_, rfl⟩
  · split
    · exact ⟨_, rfl⟩
    · cases place : shelves.files name with
      | file data => exact absurd place (noFile data)
      | _ => exact ⟨_, rfl⟩

/-- Where nothing lies under the name of a draft, the archive is asked. -/
theorem find_eq_findDraft {shelves : Shelves} (drafty : "draft-".toList <+: name.toList)
    (reached : shelves.files name = .absent ∨ shelves.files name = .behindFile) :
    shelves.find name = shelves.archive.findDraft (lowered name) := by
  have drafts : shelves.findArchived name = shelves.archive.findDraft (lowered name) :=
    if_pos (after?_isSome.mpr (lowered_of_draft drafty))
  rw [Shelves.find, ← drafts]
  rcases reached with absent | behind
  · rw [absent]
  · rw [behind]

/-- The search for a draft that is no file, in an archive that has the submissions it lists, serves or
declines just when nothing else lies under the name, and unless the draft has submissions of other
revisions only. -/
theorem draft_served_or_declined_iff (shelves : Shelves) (name : String)
    (drafty : "draft-".toList <+: name.toList) (noFile : ∀ data, shelves.files name ≠ .file data)
    (listed : shelves.archive.ListsKnown) :
    ServesOrDeclines shelves.archive (lowered name) (shelves.find name []) ↔
      (shelves.files name = .absent ∨ shelves.files name = .behindFile) ∧
        ¬ shelves.archive.Unsubmitted (lowered name) := by
  have long : 3 ≤ (lowered name).toList.length :=
    le_trans (by decide) (lowered_of_draft drafty).length_le
  by_cases reached : shelves.files name = .absent ∨ shelves.files name = .behindFile
  · rw [find_eq_findDraft drafty reached]
    constructor
    · rintro ⟨result, finished, -⟩
      refine ⟨reached, fun unsubmitted => ?_⟩
      rw [findDraft_of_unsubmitted listed unsubmitted] at finished
      cases finished
    · intro both
      exact findDraft_servesOrDeclines listed long both.2
  · obtain ⟨fault, refused⟩ := openFile_of_no_file noFile
    have opened : shelves.find name = some <$> Attempt.ofExcept (shelves.openFile name) := by
      rw [Shelves.find]
      split
      · next absent => exact absurd (.inl absent) reached
      · next behind => exact absurd (.inr behind) reached
      · rfl
    have fails : (shelves.find name []).1 = .error fault := by
      rw [opened, refused]
      rfl
    constructor
    · rintro ⟨result, finished, -⟩
      rw [fails] at finished
      cases finished
    · intro both
      exact absurd both.1 reached

/-- A draft in its second revision, of which only the first was handed in. -/
def lateShelves : Shelves where
  archive :=
    { Archive.empty with
      draft? := fun title => if title = "draft-foo" then some ⟨"draft-foo", "01", ["/s/0"]⟩ else none
      submission? := fun _ => some ⟨"draft-foo", "00", ".txt"⟩
      page? := fun _ => some ⟨200, ⟨#[102]⟩⟩ }

theorem lowered_of_small {cs : List Char} (small : ∀ c ∈ cs, c.toNat < 128 ∧ c.toLower = c) :
    lowered (String.ofList cs) = String.ofList cs := by
  rw [lowered, String.toList_ofList, lower_of_ascii fun c mem => (small c mem).1]
  exact congrArg String.ofList ((map_congr_left fun c mem => (small c mem).2).trans cs.map_id)

/-- The first revision is served if it is asked for by its number. -/
theorem draft_served_or_declined_older :
    ServesOrDeclines lateShelves.archive (lowered "draft-foo-00")
        (lateShelves.find "draft-foo-00" []) ∧
      (lateShelves.find "draft-foo-00" []).1.toOption.join.map (fun source =>
        (source.suffix, source.data.data)) = some (".txt", #[102]) := by
  have lower : lowered "draft-foo-00" = "draft-foo-00" := lowered_of_small (by simp)
  have drafty : "draft-".toList <+: "draft-foo-00".toList := ⟨"foo-00".toList, rfl⟩
  constructor
  · apply (draft_served_or_declined_iff lateShelves "draft-foo-00" drafty (by simp [lateShelves])
      fun _ _ _ _ _ => rfl).mpr
    refine ⟨.inl rfl, ?_⟩
    rw [lower]
    rintro ⟨d, revision, ⟨-, title, own, split, known, rfl⟩, -, empty⟩
    have parts : splitRevision "draft-foo-00".toList = .ok ("draft-foo".toList, some "00".toList) :=
      rfl
    cases parts.symm.trans split
    cases known
    cases empty
  · decide +kernel

/-- The latest revision fails. -/
theorem lateShelves_fails :
    ¬ ∀ (shelves : Shelves) (name : String), "draft-".toList <+: name.toList →
      (∀ data, shelves.files name ≠ .file data) → shelves.archive.ListsKnown →
      ServesOrDeclines shelves.archive (lowered name) (shelves.find name []) := by
  intro all
  have lower : lowered "draft-foo" = "draft-foo" := lowered_of_small (by simp)
  have unsubmitted : lateShelves.archive.Unsubmitted "draft-foo" :=
    ⟨_, "01", ⟨rfl, "draft-foo".toList, none, rfl, rfl, rfl⟩, by simp, rfl⟩
  have drafty : "draft-".toList <+: "draft-foo".toList := ⟨"foo".toList, rfl⟩
  obtain ⟨result, finished, -⟩ :=
    all lateShelves "draft-foo" drafty (by simp [lateShelves]) fun _ _ _ _ _ => rfl
  rw [find_eq_findDraft drafty (.inl rfl), lower,
    findDraft_of_unsubmitted (fun _ _ _ _ _ => rfl) unsubmitted] at finished
  cases finished

end PacketDraft.Library
