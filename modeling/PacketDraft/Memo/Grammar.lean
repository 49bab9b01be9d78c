import PacketDraft.Description.Lexeme
import PacketDraft.Memo.Outline

/-!
# The text of a memo

A memo without its pages consists of front matter, numbered sections and appendices. Lines are
indented by three blanks or more; paragraphs and packet diagrams end with an empty line.
-/

namespace PacketDraft.Memo

open Grammar Grammar.Parser Document
open Description (isLetter isPunctuation isVisible number isDigit)

/-- The characters of words, which have no digits. -/
def isWordChar (c : Char) : Bool :=
  isLetter c || isPunctuation c

/-- The least indentation. -/
def tab : Parser String :=
  lit "   "

/-- Any number of blanks. -/
def spaces : Parser (List Char) :=
  run (· == ' ')

def newline : Parser String :=
  lit "\n"

def word : Parser (List Char) :=
  run1 isWordChar

/-- Characters of a class and blanks between and behind them. -/
def spaced (p : Char → Bool) : Parser (List Char)
  | [] => .unfit
  | c :: cs => if p c then run (fun c => p c || c == ' ') (c :: cs) else .unfit

/-- An indented line without its indentation. -/
def line : Parser String := do
  let _ ← tab
  let _ ← spaces
  let text ← spaced isVisible
  let _ ← newline
  return String.ofList text ++ "\n"

/-- An indented line as it stands. -/
def paragraphLine : Parser String := do
  let indent ← tab
  let more ← spaces
  let text ← spaced isVisible
  let _ ← newline
  return indent ++ String.ofList (more ++ text) ++ "\n"

/-- A paragraph that holds plain text. -/
def paragraphOf (text : String) : Element :=
  .ofKind .t [.many [.plain text]] [.absent, .absent, .absent, .absent]

/-- Indented lines up to the next line that is not. -/
def paragraph : Parser Element := do
  let lines ← many1 paragraphLine
  return paragraphOf (String.join lines)

/-- A number and a full stop. -/
def numbering : Parser Unit := do
  let _ ← number
  let _ ← lit "."
  return ()

/-- A letter and a full stop. -/
def lettering : Parser Unit := do
  let _ ← satisfy isLetter
  let _ ← lit "."
  return ()

/-- The depth of headings that a table of contents goes down to. -/
def contentsDepth : Nat :=
  3

/-- A line of the table of contents. -/
def contentsLine : Parser Nat := do
  let _ ← tab
  let _ ← spaces
  let _ ← maybe lettering
  let _ ← many numbering
  let _ ← spaces
  let _ ← spaced isWordChar
  let _ ← maybe number
  let _ ← newline
  return contentsDepth

/-- The title behind the number of a heading, and the end of its line. -/
def headingTitle : Parser String := do
  let _ ← spaces
  let name ← spaced isWordChar
  let _ ← newline
  return String.ofList name

/-- `1.2.  Title`: as deep as it has numbers. -/
def sectionHeading : Parser (Int × String) := do
  let numbers ← many1 numbering
  let name ← headingTitle
  return (numbers.length, name)

/-- `Appendix A.  Title`, after any blanks: of depth 1. -/
def appendixHeading : Parser (Int × String) := do
  let _ ← token "Appendix "
  lettering
  let name ← headingTitle
  return (1, name)

/-- `A.1.  Title`: one deeper than it has numbers. -/
def appendixSubheading : Parser (Int × String) := do
  lettering
  let numbers ← many1 numbering
  let name ← headingTitle
  return (numbers.length + 1, name)

/-- The digits over a packet diagram that count its tens of bits. -/
def bitRuler : Parser String :=
  token "0                   1                   2                   3"
    <|> token "0                   1                   2"
    <|> token "0                   1"
    <|> token "0"

/-- A ruler, perhaps behind colons. -/
def plainRuler : Parser String := do
  let text ← matched (do let _ ← run (· == ':'); let _ ← spaces; bitRuler)
  return String.ofList text

/-- A line of text, an empty one and a ruler, each behind a colon. -/
def titledRuler : Parser String := do
  let titleLine ← matched (do
    let _ ← lit ":"
    let _ ← spaces
    let _ ← spaced isVisible
    newline)
  let _ ← spaces
  let gap ← matched (do let _ ← lit ":"; newline)
  let _ ← spaces
  let ruler ← matched (do let _ ← lit ":"; let _ ← spaces; bitRuler)
  return String.ofList (titleLine ++ gap ++ ruler)

/-- The first line of a packet diagram. -/
def diagramHeader : Parser String := do
  let _ ← spaces
  let ruler ← plainRuler <|> titledRuler
  let _ ← newline
  return ruler ++ "\n"

/-- `Figure 1: Title` after an empty line. -/
def diagramCaption : Parser (String × String) := do
  let _ ← newline
  let _ ← tab
  let _ ← spaces
  let figure ← matched (do
    let _ ← lit "Figure"
    let _ ← spaces
    let _ ← number
    many (do
      let _ ← lit "."
      (do let _ ← run1 isLetter; pure ()) <|> (do let _ ← number; pure ())))
  let _ ← lit ":"
  let _ ← spaces
  let title ← run fun c => isVisible c || c == ' '
  let _ ← newline
  return (String.ofList figure, String.ofList title)

/-- A packet diagram and its caption. -/
def diagram : Parser Element := do
  let header ← diagramHeader
  let lines ← many1 line
  let caption ← maybe diagramCaption
  let setting (part : String × String → String) : Setting :=
    match caption with
    | some c => .text (part c)
    | none => .absent
  return .ofKind .artwork [.one (.plain (String.join (header :: lines)))]
    [.text "left", .absent, setting (·.1), .absent, setting (·.2), .absent, .absent, .absent,
     .absent]

/-- A section with a title. -/
def sectionOf (name : String) (content : List Element) : Element :=
  .ofKind .section [.one (.ofKind .name [.many [.plain name]] []), .many content, .many []]
    [.absent, .flag true, .flag false, .absent, .text "default"]

/-- A heading and the paragraphs and diagrams below it. -/
def headedSection : Parser Headed := do
  let (depth, name) ← sectionHeading
  let _ ← newline
  let content ← many (do
    let block ← diagram <|> paragraph
    let _ ← newline
    return block)
  return (depth, sectionOf name content)

/-- The sections of a memo. -/
def middle : Parser Element := do
  let sections ← many1 headedSection
  let top ← ofExcept (outline sections)
  return .ofKind .middle [.many top] []

/-- Blocks of indented lines, each with an empty line behind it. -/
def lineBlocks : Parser (List String) :=
  many1 (do let _ ← many1 line; newline)

/-- The addresses at the end of a memo. -/
def addresses : Parser (List String) := do
  let _ ← token "Authors' Addresses"
  let _ ← newline
  let _ ← newline
  lineBlocks

/-- The heading of an appendix and the paragraphs below it. -/
def headedAppendix : Parser Headed := do
  let (depth, name) ← appendixHeading <|> appendixSubheading
  let _ ← newline
  let content ← many (do
    let block ← paragraph
    let _ ← newline
    return block)
  return (depth, sectionOf name content)

/-- Appendices and addresses. -/
def back : Parser Element := do
  let appendices ← many1 headedAppendix
  let _ ← addresses
  let top ← ofExcept (outline appendices)
  return .ofKind .back [.many [], .many [], .many top] []

/-- A line at the top of the first page. -/
def headerLine : Parser String := do
  let _ ← spaces
  let _ ← spaced isVisible
  newline

def title : Parser Element := do
  let _ ← spaces
  let text ← spaced isWordChar
  return .ofKind .title [.one (.plain (String.ofList text))] [.absent, .absent]

/-- The name of the document. -/
def documentName : Parser String := do
  let _ ← spaces
  let text ← spaced isVisible
  return String.ofList text

/-- A fixed heading after any blanks, and an empty line. -/
def fixedHeading (text : String) : Parser Unit := do
  let _ ← token text
  let _ ← newline
  let _ ← newline
  return ()

def abstract : Parser Element := do
  fixedHeading "Abstract"
  let paragraphs ← many1 paragraph
  return .ofKind .abstract [.many paragraphs] [.absent]

/-- The series that documents of this form belong to. -/
def documentSeries : String :=
  "Internet-Draft"

/-- The rights under which documents of this form appear. -/
def rightsCode : String :=
  "trust200902"

def statusOfMemo : Parser String := do
  fixedHeading "Status of This Memo"
  let _ ← lineBlocks
  return documentSeries

def copyrightNotice : Parser String := do
  fixedHeading "Copyright Notice"
  let _ ← lineBlocks
  return rightsCode

/-- The table of contents; its value is the greatest depth that its lines give. -/
def tableOfContents : Parser String := do
  fixedHeading "Table of Contents"
  let depths ← many1 contentsLine
  let _ ← newline
  return toString (depths.foldl max 0)

/-- What the first pages of a memo tell. -/
structure FrontMatter where
  front : Element
  name : String
  rights : String
  contents : String

def frontMatter : Parser FrontMatter := do
  let _ ← many1 headerLine
  let _ ← newline
  let titleElement ← title
  let _ ← newline
  let name ← documentName
  let _ ← newline
  let abstractElement ← abstract
  let _ ← newline
  let series ← statusOfMemo
  let rights ← copyrightNotice
  let contents ← tableOfContents
  let info := Element.ofKind .seriesInfo []
    [.text series, .text name, .text series, .absent, .absent, .text name]
  return {
    front := .ofKind .front
      [.one titleElement, .many [info], .many [], .absent, .many [], .many [], .many [],
       .one abstractElement, .many [], .absent] []
    name, rights, contents }

/-- A whole memo. -/
def memo : Parser Element := do
  let fm ← frontMatter
  let middleElement ← middle
  let backElement ← back
  return .ofKind .rfc [.many [], .one fm.front, .one middleElement, .one backElement]
    [.absent, .absent, .text fm.name, .flag true, .text fm.rights, .absent, .absent, .absent,
     .absent, .absent, .absent, .text "IETF", .flag true, .text fm.contents, .flag true, .absent,
     .text "3"]

end PacketDraft.Memo
