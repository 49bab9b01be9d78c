import PacketDraft.Attempt
import PacketDraft.Text.Case
import PacketDraft.Text.Search

/-!
# Archives

Where published documents are found. An archive answers requests: what a draft is called and which
submissions it has, what a submission consists of, where the document of an index entry lies, and what
stands at an address. Looking for a document leaves the requests behind that were made, in order.
-/

namespace PacketDraft.Library

open Text (after? endsWith isDecimal)

/-- What is known of a draft. -/
structure Draft where
  name : String
  /-- The latest revision. -/
  revision : String
  /-- The addresses of the submissions. -/
  submissions : List String
  deriving DecidableEq, Repr

/-- One revision of a draft as it was handed in. -/
structure Submission where
  name : String
  revision : String
  /-- The suffixes of its files, between commas. -/
  fileTypes : String
  deriving DecidableEq, Repr

/-- What a server answers. -/
structure Page where
  status : Nat
  body : ByteArray

/-- A document as it was found. The suffix tells how it is to be read. -/
structure Source where
  suffix : String
  data : ByteArray

/-- A request to an archive. -/
inductive Request where
  | draft (name : String)
  | submission (address : String)
  | entry (name : String)
  | location (format : String)
  | page (url : String)
  deriving DecidableEq, Repr

/-- The answers to all requests. An index entry gives the address for each format it has. -/
structure Archive where
  draft? : String → Option Draft
  submission? : String → Option Submission
  entryOf : String → Option (String → Option String)
  page? : String → Option Page

/-- The archive that knows nothing. -/
def Archive.empty : Archive where
  draft? _ := none
  submission? _ := none
  entryOf _ := none
  page? _ := none

/-- A search that keeps the requests it makes. -/
abbrev Search (α : Type) : Type :=
  Attempt (List Request) α

/-- Makes a request and passes the answer on. -/
def request {α : Type} (r : Request) (answer : α) : Search α := do
  Attempt.update (· ++ [r])
  return answer

/-- Where a document lies, and the suffix of its format. -/
structure Place where
  suffix : String
  url : String
  deriving DecidableEq, Repr

/-- The document at a place, if the server has it. -/
def Archive.fetch (a : Archive) (p : Place) : Search (Option Source) := do
  let answer ← request (.page p.url) (a.page? p.url)
  return answer.bind fun page => if page.status = 200 then some ⟨p.suffix, page.body⟩ else none

/-- The suffix of a name that already says in which format the document is wanted. -/
def formatSuffix? (name : String) : Option String :=
  [".txt", ".xml"].find? fun suffix => endsWith suffix.toList name.toList

/-! ## Drafts -/

/-- The address of a file in the archive of drafts. -/
def draftUrl (file : String) : String :=
  s!"https://www.ietf.org/archive/id/{file}"

/-- A name may end in a hyphen and the two digits of a revision. It is read from its end, and has to be
long enough for that. -/
def splitRevision (name : List Char) : Except Fault (List Char × Option (List Char)) :=
  match name.reverse with
  | [] => .error .outOfRange
  | last :: before =>
    if !isDecimal last then .ok (name, none)
    else match before with
      | [] => .error .outOfRange
      | first :: before =>
        if !isDecimal first then .ok (name, none)
        else match before with
          | [] => .error .outOfRange
          | hyphen :: title =>
            if hyphen = '-' then .ok (title.reverse, some [first, last]) else .ok (name, none)

/-- Where a submission lies: as markup if it has that, else as text. -/
def Submission.place? (s : Submission) : Option Place :=
  let types := (s.fileTypes.toList.splitOn ',').map String.ofList
  ([".xml", ".txt"].find? types.contains).map fun suffix =>
    ⟨suffix, draftUrl s!"{s.name}-{s.revision}{suffix}"⟩

/-- Looks through the submissions of a draft for a revision. The last one of that revision counts, and
one without a readable file ends the search. -/
def Archive.submitted (a : Archive) (revision : String) (found : Option Place) :
    List String → Search (Option Place)
  | [] =>
    match found with
    | some p => return some p
    | none => Attempt.fail .missingPart
  | address :: rest => do
    match ← request (.submission address) (a.submission? address) with
    | none => Attempt.fail .requirement
    | some s =>
      if s.revision = revision then
        match s.place? with
        | some p => a.submitted revision (some p) rest
        | none => return none
      else a.submitted revision found rest

/-- Where a revision of a draft lies. A draft without submissions is there as text. -/
def Archive.draftPlace (a : Archive) (d : Draft) (revision : String) : Search (Option Place) :=
  match d.submissions with
  | [] => return some ⟨".txt", draftUrl s!"{d.name}-{revision}.txt"⟩
  | addresses => a.submitted revision none addresses

/-- The draft of a name. -/
def Archive.findDraft (a : Archive) (name : String) : Search (Option Source) :=
  match formatSuffix? name with
  | some suffix => a.fetch ⟨suffix, draftUrl name⟩
  | none => do
    let (title, revision) ← Attempt.ofExcept (splitRevision name.toList)
    let title := String.ofList title
    match ← request (.draft title) (a.draft? title) with
    | none => return none
    | some d =>
      match ← a.draftPlace d ((revision.map String.ofList).getD d.revision) with
      | none => return none
      | some place => a.fetch place

/-! ## Published documents -/

/-- The address of a file among the published documents. -/
def rfcUrl (file : String) : String :=
  s!"https://www.rfc-editor.org/rfc/{file}"

/-- Where the document of an index entry lies: as markup if there is such a file, else as text. -/
def entryPlace (name : String) (location : String → Option String) : Search Place := do
  match ← request (.location "XML") (location "XML") with
  | some url => return ⟨".xml", url⟩
  | none =>
    match ← request (.location "ASCII") (location "ASCII") with
    | some url => return ⟨".txt", url⟩
    | none => Attempt.fail (.noFormat name)

/-- The published document of a name. -/
def Archive.findRfc (a : Archive) (name : String) : Search (Option Source) :=
  match formatSuffix? name with
  | some suffix => a.fetch ⟨suffix, rfcUrl name⟩
  | none => do
    let key := String.ofList (Text.upper name.toList)
    match ← request (.entry key) (a.entryOf key) with
    | none => return none
    | some location => a.fetch (← entryPlace name location)

end PacketDraft.Library
