import PacketDraft.Document.Kind

/-!
# The vocabulary of markup

Which kind of element a name stands for, and how the content of each kind is made from the text and
the children of an element.
-/

namespace PacketDraft.Markup

open Document

/-- The name of the elements of a kind. -/
def tagName : Kind → String
  | .svg => "svg"
  | .bcp14 => "bcp14"
  | .em => "em"
  | .relRef => "relref"
  | .eRef => "eref"
  | .iRef => "iref"
  | .xRef => "xref"
  | .cRef => "cref"
  | .strong => "strong"
  | .tt => "tt"
  | .sub => "sub"
  | .sup => "sup"
  | .spanX => "spanx"
  | .list => "list"
  | .vSpace => "vspace"
  | .t => "t"
  | .artwork => "artwork"
  | .postamble => "postamble"
  | .preamble => "preamble"
  | .name => "name"
  | .sourceCode => "sourcecode"
  | .figure => "figure"
  | .li => "li"
  | .ul => "ul"
  | .ol => "ol"
  | .dd => "dd"
  | .dt => "dt"
  | .dl => "dl"
  | .ttCol => "ttcol"
  | .c => "c"
  | .textTable => "texttable"
  | .br => "br"
  | .th => "th"
  | .td => "td"
  | .tr => "tr"
  | .tBody => "tbody"
  | .tFoot => "tfoot"
  | .tHead => "thead"
  | .table => "table"
  | .aside => "aside"
  | .blockQuote => "blockquote"
  | .section => "section"
  | .middle => "middle"
  | .street => "street"
  | .region => "region"
  | .postalLine => "postalLine"
  | .city => "city"
  | .code => "code"
  | .country => "country"
  | .postal => "postal"
  | .email => "email"
  | .phone => "phone"
  | .uri => "uri"
  | .facsimile => "facsimile"
  | .address => "address"
  | .organization => "organization"
  | .author => "author"
  | .seriesInfo => "seriesInfo"
  | .title => "title"
  | .date => "date"
  | .area => "area"
  | .workgroup => "workgroup"
  | .keyword => "keyword"
  | .abstract => "abstract"
  | .note => "note"
  | .boilerplate => "boilerplate"
  | .front => "front"
  | .format => "format"
  | .remark => "annotation"
  | .refContent => "refcontent"
  | .reference => "reference"
  | .referenceGroup => "referencegroup"
  | .references => "references"
  | .displayReference => "displayreference"
  | .back => "back"
  | .link => "link"
  | .rfc => "rfc"

/-- What one of several parts of an element is taken from. -/
inductive Slot where
  /-- The last child of a kind, if there is one. -/
  | last (kind : Kind)
  /-- The last child of a kind, which has to be there. -/
  | needed (kind : Kind)
  /-- All children of some kinds. -/
  | every (kinds : List Kind)
  deriving DecidableEq, Repr

/-- The kinds of children that a part is taken from. -/
def Slot.kinds : Slot → List Kind
  | .last kind | .needed kind => [kind]
  | .every kinds => kinds

/-- How the content of an element is made from its text and its children. -/
inductive Shape where
  /-- There are no parts. -/
  | bare
  /-- There are no parts, but there has to be text. -/
  | marked
  /-- The text, which has to be there. -/
  | text
  /-- The text, if there is any. -/
  | maybeText
  /-- The text, be it there or not. -/
  | anyText
  /-- The text, then the children. -/
  | textThen (kinds : List Kind)
  /-- The children, then the text. -/
  | thenText (kinds : List Kind)
  /-- The children, each with the text inside it behind it. -/
  | withInnerText (kinds : List Kind)
  /-- The text, then the children, each with the text behind it, then the text behind all unless it is
  blank. -/
  | flow (kinds : List Kind)
  /-- For each child that is a paragraph, the whole element as a paragraph. -/
  | paragraphs (kinds : List Kind)
  /-- The text, or else the pictures. -/
  | drawing
  /-- Blocks, or inline children and the text. -/
  | blocks (block inline : List Kind)
  /-- Blocks, or inline children and the text inside the last child. -/
  | quotation (block inline : List Kind)
  /-- Blocks, or text and inline children in their order; blank text does not count. -/
  | mixed (block inline : List Kind)
  /-- Children of the second kinds, or else of the first. -/
  | either (first second : List Kind)
  /-- Terms and their descriptions. -/
  | definitions
  /-- Several parts. -/
  | slots (parts : List Slot)
  deriving DecidableEq, Repr

/-- The kinds of children that are read. -/
def Shape.kinds : Shape → List Kind
  | .bare | .marked | .text | .maybeText | .anyText => []
  | .textThen kinds | .thenText kinds | .withInnerText kinds | .flow kinds | .paragraphs kinds =>
    kinds
  | .drawing => [.svg]
  | .blocks block inline | .quotation block inline | .mixed block inline => block ++ inline
  | .either first second => first ++ second
  | .definitions => [.dt, .dd]
  | .slots parts => parts.flatMap Slot.kinds

/-- The kinds of blocks in list items, table cells, descriptions and quotations. -/
def blockKinds : List Kind :=
  [.artwork, .dl, .figure, .ol, .sourceCode, .t, .ul]

/-- The kinds of elements within a line. -/
def inlineKinds : List Kind :=
  [.bcp14, .cRef, .em, .eRef, .iRef, .relRef, .strong, .sub, .sup, .tt, .xRef]

/-- The kinds of elements in a paragraph. -/
def paragraphKinds : List Kind :=
  inlineKinds ++ [.spanX, .vSpace, .t, .list]

/-- The kinds of elements in the text around figures and tables. -/
def captionKinds : List Kind :=
  [.bcp14, .cRef, .em, .eRef, .iRef, .spanX, .strong, .sub, .sup, .tt, .xRef]

/-- The kinds of blocks in summaries and notes. -/
def summaryKinds : List Kind :=
  [.dl, .ol, .t, .ul]

/-- How the content of a kind is made. -/
def shape : Kind → Shape
  | .bcp14 | .relRef | .spanX | .sourceCode | .region | .postalLine | .code | .country | .email
  | .phone | .uri | .facsimile | .title | .area | .workgroup | .keyword => .text
  | .iRef => .marked
  | .eRef | .xRef | .organization => .maybeText
  | .street | .city => .anyText
  | .svg | .vSpace | .br | .seriesInfo | .date | .format | .displayReference | .link => .bare
  | .em => .textThen [.bcp14, .cRef, .iRef, .relRef, .strong, .sub, .sup, .tt, .xRef]
  | .cRef => .textThen [.em, .eRef, .relRef, .strong, .sub, .sup, .tt, .xRef]
  | .strong => .textThen [.bcp14, .cRef, .em, .eRef, .iRef, .relRef, .sub, .sup, .tt, .xRef]
  | .tt => .textThen [.bcp14, .cRef, .em, .eRef, .iRef, .relRef, .sub, .sup, .strong, .xRef]
  | .sub | .sup => .textThen [.bcp14, .cRef, .em, .eRef, .iRef, .relRef, .strong, .tt, .xRef]
  | .postamble | .preamble => .textThen captionKinds
  | .name => .textThen [.cRef, .eRef, .relRef, .tt, .xRef]
  | .remark => .textThen (inlineKinds ++ [.spanX])
  | .dt => .thenText inlineKinds
  | .ttCol => .thenText [.cRef, .eRef, .iRef, .xRef]
  | .refContent => .thenText [.bcp14, .em, .strong, .sub, .sup, .tt]
  | .c => .withInnerText captionKinds
  | .t => .flow paragraphKinds
  | .list => .paragraphs paragraphKinds
  | .artwork => .drawing
  | .li => .blocks blockKinds inlineKinds
  | .th | .td => .blocks blockKinds (inlineKinds ++ [.br])
  | .blockQuote => .quotation blockKinds inlineKinds
  | .dd => .mixed blockKinds inlineKinds
  | .postal => .either [.city, .code, .country, .region, .street] [.postalLine]
  | .dl => .definitions
  | .ul | .ol => .slots [.every [.li]]
  | .tr => .slots [.every [.td, .th]]
  | .tBody | .tFoot | .tHead => .slots [.every [.tr]]
  | .figure =>
    .slots [.last .name, .every [.iRef], .last .preamble, .every [.artwork, .sourceCode],
      .last .postamble]
  | .textTable =>
    .slots [.last .name, .last .preamble, .every [.ttCol], .every [.c], .last .postamble]
  | .table => .slots [.last .name, .every [.iRef], .last .tHead, .every [.tBody], .last .tFoot]
  | .aside =>
    .slots [.every [.artwork, .dl, .figure, .iRef, .list, .ol, .t, .table, .ul]]
  | .section =>
    .slots [.last .name,
      .every [.artwork, .aside, .blockQuote, .dl, .figure, .iRef, .ol, .sourceCode, .t, .table,
        .textTable, .ul, .list],
      .every [.section]]
  | .middle | .boilerplate => .slots [.every [.section]]
  | .address => .slots [.last .postal, .last .phone, .last .facsimile, .last .email, .last .uri]
  | .author => .slots [.last .organization, .last .address]
  | .abstract => .slots [.every summaryKinds]
  | .note => .slots [.last .name, .every summaryKinds]
  | .front =>
    .slots [.needed .title, .every [.seriesInfo], .every [.author], .last .date, .every [.area],
      .every [.workgroup], .every [.keyword], .last .abstract, .every [.note], .last .boilerplate]
  | .reference => .slots [.needed .front, .every [.remark, .format, .refContent, .seriesInfo]]
  | .referenceGroup => .slots [.every [.reference]]
  | .references => .slots [.last .name, .every [.reference, .referenceGroup]]
  | .back => .slots [.every [.displayReference], .every [.references], .every [.section]]
  | .rfc => .slots [.every [.link], .needed .front, .needed .middle, .needed .back]

end PacketDraft.Markup
