import PacketDraft.Attempt
import PacketDraft.Description.Diagram
import PacketDraft.Description.Sentence
import PacketDraft.Description.Title
import PacketDraft.Document.Element
import PacketDraft.Table

/-!
# Description tables

The declarations in the prose of a document, collected into tables: structures with the titles of
their fields, enumerations, functions, conversions, and the protocol with its packets. A sentence that
is no declaration adds nothing.
-/

namespace PacketDraft.Description

open Document Grammar Text

/-- A field as described: its title, and what is stored when it is received. -/
structure FieldRow where
  title : FieldTitle
  stored : Option (Formula × String) := none
  deriving DecidableEq, Repr

/-- A structure as described: its fields by their full labels, and the full labels of short ones. -/
structure StructRow where
  aliases : List (String × String) := []
  fields : List (String × FieldRow) := []
  deriving DecidableEq, Repr

/-- Adds a field to a structure. -/
def StructRow.add (row : StructRow) (field : FieldRow) : StructRow where
  aliases :=
    match field.title.shortLabel with
    | some short => Table.put short field.title.fullLabel row.aliases
    | none => row.aliases
  fields := Table.put field.title.fullLabel field row.fields

/-- A structure with these fields. -/
def StructRow.ofFields (fields : List FieldRow) : StructRow :=
  fields.foldl StructRow.add {}

/-- All that a document declares. -/
structure Tables where
  structs : List (String × StructRow) := []
  enums : List (String × List String) := []
  functions : List (String × Sentence.Signature) := []
  /-- What a type is serialised to, and by which function. -/
  serialiseTo : List (String × String × String) := []
  /-- What is parsed from a type, and by which function. -/
  parseFrom : List (String × String × String) := []
  protocolName : Option String := none
  pdus : Option (List String) := none
  deriving DecidableEq, Repr

/-- The value of reading a whole text without the blanks around it. -/
def reading? {α : Type} (p : Parser α) (text : String) : Option α :=
  (p.parse (strip text.toList)).toOption

/-- The text of a diagram, perhaps in a figure. -/
def artText? (e : Element) : Option String :=
  if e.isKind .figure then do
    let art ← (← e.items?).head?
    art.enclosedChars?
  else e.enclosedChars?

/-- The fields of a list of paragraphs with hanging titles. -/
def hangingFields? (list : Element) : Option (List FieldRow) := do
  let first ← (← list.items?).head?
  let titles := (← first.items?).filterMap fun e =>
    if e.isKind .t then
      match e.setting? "hangText" with
      | some (.text s) => some s
      | _ => none
    else none
  titles.mapM fun s => do
    let title ← reading? FieldTitle.title s
    return { title }

/-- The field of a term and its description. Only the last piece of the description can say what is
stored. -/
def definedField? (term description : Element) : Option FieldRow := do
  let first ← (← term.items?).head?
  let title ← reading? FieldTitle.title (← first.chars?)
  let stored := do
    let last ← (← description.items?).getLast?
    let use ← reading? Sentence.contextUse (← last.chars?)
    use
  return { title, stored }

/-- The list that is the second piece of a paragraph. A paragraph without content makes no sense. -/
def innerList? (e : Element) : Option (Option Element) :=
  if e.isKind .t then do
    match ← e.items? with
    | _ :: inner :: _ => return if inner.isKind .list then some inner else none
    | _ => return none
  else some none

/-- The fields of the structure that the element at `i` introduces: they follow two elements behind it
in a paragraph with a list, or else three elements behind it in a definition list. -/
def describedFields? (content : List Element) (i : Nat) : Option (List FieldRow) := do
  match ← innerList? (← content[i + 2]?) with
  | some list => hangingFields? list
  | none =>
    let below ← content[i + 3]?
    if below.isKind .dl then
      match below.part? "content" with
      | some (.pairs pairs) => pairs.mapM fun (term, description) => definedField? term description
      | _ => none
    else return []

/-- The structure that a sentence introduces. A diagram has to follow. -/
def describedStruct? (content : List Element) (i : Nat) (sentence : String) :
    Option (String × StructRow) := do
  let name ← reading? Sentence.preamble sentence
  let art ← artText? (← content[i + 1]?)
  let _ ← (Diagram.fields art.toList).toOption
  let fields ← describedFields? content i
  let key ← (typeName name).toOption
  return (key, .ofFields fields)

/-- The function that a sentence introduces. Its signature has to follow. -/
def describedFunction? (content : List Element) (i : Nat) (sentence : String) :
    Option (String × Sentence.Signature) := do
  let name ← reading? Sentence.functionIntroduction sentence
  let art ← (← content[i + 1]?).enclosedChars?
  let signature ← reading? Sentence.signature art
  return (fieldName name, signature)

/-- The enumeration that a sentence declares. -/
def describedEnum? (sentence : String) : Option (String × List String) := do
  let (name, variants) ← reading? Sentence.enumeration sentence
  let variants ← variants.mapM fun v => (typeName v).toOption
  let key ← (typeName name).toOption
  return (key, variants)

/-- The conversion that a sentence declares, under the type it starts from. -/
def describedConversion? (p : Parser Sentence.Conversion) (sentence : String) :
    Option (String × String × String) := do
  let c ← reading? p sentence
  let target ← (typeName c.target).toOption
  let key ← (typeName c.source).toOption
  return (key, target, fieldName c.function)

namespace Tables

/-- The tables with a value under a key, if there is one. -/
def noteIn {α : Type} (found : Option (String × α)) (rows : List (String × α)) :
    List (String × α) :=
  match found with
  | some (key, value) => Table.put key value rows
  | none => rows

/-- Notes the name of the protocol, and its packets if their names can be used. -/
def noteProtocol (sentence : String) (t : Tables) : Tables :=
  match reading? Sentence.protocolDefinition sentence with
  | none => t
  | some (name, pdus) =>
    { t with
      protocolName := some name
      pdus := (pdus.mapM fun pdu => (typeName pdu).toOption) <|> t.pdus }

/-- Notes whatever a sentence in the element at `i` declares. -/
def note (content : List Element) (i : Nat) (sentence : String) (t : Tables) : Tables :=
  noteProtocol sentence
    { t with
      structs := noteIn (describedStruct? content i sentence) t.structs
      functions := noteIn (describedFunction? content i sentence) t.functions
      enums := noteIn (describedEnum? sentence) t.enums
      serialiseTo := noteIn (describedConversion? Sentence.serialisation sentence) t.serialiseTo
      parseFrom := noteIn (describedConversion? Sentence.parsing sentence) t.parseFrom }

/-- Notes what the pieces of a paragraph declare. -/
def noteParagraph (content : List Element) (i : Nat) (e : Element) : Attempt Tables Unit :=
  if e.isKind .t then
    match e.items? with
    | none => Attempt.fail .wrongKind
    | some items => Attempt.update fun t =>
        (items.filterMap Element.chars?).foldl (fun t sentence => note content i sentence t) t
  else pure ()

/-- Notes what the content of a section declares. -/
def noteContent (e : Element) : Attempt Tables Unit :=
  match e.items? with
  | none => Attempt.fail .wrongKind
  | some content => Attempt.each (fun (item, i) => noteParagraph content i item) content.zipIdx

mutual

/-- Notes what a section and the sections in it declare. -/
def noteSection : Element → Attempt Tables Unit
  | .text _ => Attempt.fail .inapplicable
  | .node kind parts settings => do
    noteContent (.node kind parts settings)
    noteInner parts

/-- Notes what the sections among the parts of a section declare. Every section has such a part. -/
def noteInner : List (String × Document.Part Element) → Attempt Tables Unit
  | [] => Attempt.fail .inapplicable
  | (name, part) :: rest => if name = "sections" then notePart part else noteInner rest

def notePart : Document.Part Element → Attempt Tables Unit
  | .many es => noteSections es
  | .absent | .one _ | .pairs _ => pure ()

/-- Notes what sections declare, one after the other. -/
def noteSections : List Element → Attempt Tables Unit
  | [] => pure ()
  | e :: es => do
    noteSection e
    noteSections es

end

/-- Notes what the middle part of a document declares. -/
def noteDocument (document : Element) : Attempt Tables Unit :=
  match document.part? "middle" with
  | some (.one middle) =>
    match middle.items? with
    | some sections => noteSections sections
    | none => Attempt.fail .wrongKind
  | _ => Attempt.fail .inapplicable

end Tables

end PacketDraft.Description
