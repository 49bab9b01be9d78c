import PacketDraft.Description.Diagram
import PacketDraft.Description.Title
import PacketDraft.Document.Element

/-!
# Definition lists from paragraphs

In plain text the fields of a packet are described by paragraphs after the diagram and the word
`where:`. Here these paragraphs become a definition list, one diagram at a time: either the whole list
can be made, or the diagram and what follows it stay as they are.
-/

namespace PacketDraft.Memo

open Document Description Text

/-- A field's title and the texts that describe it, first the rest of the paragraph with the title,
then further paragraphs. -/
structure FieldEntry where
  term : List Char
  first : List Char
  further : List (List Char) := []
  deriving DecidableEq, Repr

namespace FieldEntry

/-- A paragraph inside a description. -/
def paragraph (text : List Char) : Element :=
  .ofKind .t [.many [.plain (String.ofList text)]] [.absent, .absent, .flag false, .flag false]

/-- Term and description of an entry. A description of one paragraph is plain text. -/
def toPair (e : FieldEntry) : Element × Element :=
  let description :=
    if e.further = [] then [.plain (String.ofList e.first)]
    else (e.first :: e.further).map paragraph
  (.ofKind .dt [.many [.plain (String.ofList e.term)]] [.absent],
   .ofKind .dd [.many description] [.absent])

end FieldEntry

/-- A definition list of entries. -/
def definitionList (entries : List FieldEntry) : Element :=
  .ofKind .dl [.pairs (entries.map (·.toPair))] [.absent, .flag true, .text "normal"]

/-- The text of a paragraph that is nothing but text. -/
def paragraphText? (e : Element) : Option (List Char) :=
  if e.isKind .t then
    match e.items? with
    | some [item] => item.chars?.map String.toList
    | _ => none
  else none

/-- The place of the full stop that ends the title at the start of a paragraph. -/
def titleEnd? (text : List Char) : Option Nat :=
  index? ['.', ' '] text <|> index? ['.'] text

/-- How many fields of the diagram one entry describes: a split field as many as its size tells. -/
def fieldsDescribed? (title : FieldTitle) : Option Int :=
  if title.options.any (·.contains "split field") then
    match title.size with
    | some (.number n) => some n
    | _ => none
  else some 1

/-- Adds a paragraph to the latest entry. -/
def addParagraph (text : List Char) : List FieldEntry → Option (List FieldEntry)
  | [] => none
  | [e] => some [{ e with further := e.further ++ [text] }]
  | e :: es => (addParagraph text es).map (e :: ·)

/-- Reads entries from paragraphs until `wanted` of them are there. A paragraph that is indented by
`tab` starts an entry; any other one continues the latest. Gives the entries and the paragraphs that
are left. -/
def readEntries (tab : Nat) :
    List FieldEntry → Int → List Element → Option (List FieldEntry × List Element)
  | entries, _, [] => some (entries, [])
  | entries, wanted, p :: ps => do
    if (entries.length : Int) = wanted then some (entries, p :: ps)
    else
      let text ← paragraphText? p
      let stop ← titleEnd? text
      if indentation text = tab then
        let term := text.take (stop + 1)
        let title ← (FieldTitle.title.parse (strip term)).toOption
        let described ← fieldsDescribed? title
        readEntries tab (entries ++ [{ term, first := text.drop (stop + 1) }])
          (wanted - (described - 1)) ps
      else
        let entries ← addParagraph text entries
        readEntries tab entries wanted ps

/-- Whether an element is the paragraph `where:` below a diagram. -/
def isWhere (e : Element) : Except Fault Bool :=
  if e.isKind .t then
    match e.items? with
    | none => .error .wrongKind
    | some [item] =>
      match item.chars? with
      | some s => .ok (words s.toList = ["where:".toList])
      | none => .error .inapplicable
    | some _ => .ok false
  else .ok false

/-- A diagram and the elements up to the next one, with a definition list for its fields if they are
described in paragraphs. -/
def withDefinitions (tab : Nat) (art : Element) (below : List Element) :
    Except Fault (List Element) :=
  match art.part? "content" with
  | some (.one (.text content)) =>
    match below with
    | [] => .ok [art]
    | lead :: paragraphs => do
      if ← isWhere lead then
        let converted := do
          let text ← content
          let fields ← (Diagram.fields text.toList).toOption
          readEntries tab [] fields.length paragraphs
        match converted with
        | some (entries, left) => return art :: lead :: definitionList entries :: left
        | none => return art :: below
      else return art :: below
  | _ => .ok (art :: below)

/-- The elements before the first diagram, and each diagram with the elements up to the next. -/
def groupByDiagram : List Element → List Element × List (Element × List Element)
  | [] => ([], [])
  | e :: es =>
    let (lead, groups) := groupByDiagram es
    if e.isKind .artwork then ([], (e, lead) :: groups) else (e :: lead, groups)

/-- The content of a section with all definition lists; the last diagram comes first. -/
def convertContent (tab : Nat) (content : List Element) : Except Fault (List Element) := do
  let (lead, groups) := groupByDiagram content
  let converted ← groups.reverse.mapM fun (art, below) => withDefinitions tab art below
  return lead ++ converted.reverse.flatten

/-- A section with the definition lists for its own diagrams; other elements stay as they are. -/
def convertSection (tab : Nat) (e : Element) : Except Fault Element :=
  if e.isKind .section then
    match e.items? with
    | some content => do
      let content ← convertContent tab content
      return e.setPart "content" (.many content)
    | none => .error .wrongKind
  else .ok e

mutual

/-- A document with definition lists in all its sections, inner ones first. -/
def convert (tab : Nat) : Element → Except Fault Element
  | .text content => .ok (.text content)
  | .node kind parts settings => do
    let parts ← convertParts tab parts
    convertSection tab (.node kind parts settings)

def convertParts (tab : Nat) :
    List (String × Document.Part Element) → Except Fault (List (String × Document.Part Element))
  | [] => .ok []
  | (name, part) :: rest => do
    let part ← convertPart tab part
    let rest ← convertParts tab rest
    return (name, part) :: rest

/-- Terms and their descriptions are left alone. -/
def convertPart (tab : Nat) : Document.Part Element → Except Fault (Document.Part Element)
  | .absent => .ok .absent
  | .one e => do return .one (← convert tab e)
  | .many es => do return .many (← convertList tab es)
  | .pairs ps => .ok (.pairs ps)

def convertList (tab : Nat) : List Element → Except Fault (List Element)
  | [] => .ok []
  | e :: es => do
    let e ← convert tab e
    let es ← convertList tab es
    return e :: es

end

end PacketDraft.Memo
