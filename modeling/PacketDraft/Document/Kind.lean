/-!
# Kinds of elements

The vocabulary of drafts: the kinds of elements, the named parts that each holds, and its settings
with the attribute that each setting is read from.
-/

namespace PacketDraft.Document

/-- The kinds of elements other than plain text. -/
inductive Kind where
  | svg | bcp14 | em | relRef | eRef | iRef | xRef | cRef | strong | tt | sub | sup | spanX
  | list | vSpace | t | artwork | postamble | preamble | name | sourceCode | figure | li | ul
  | ol | dd | dt | dl | ttCol | c | textTable | br | th | td | tr | tBody | tFoot | tHead
  | table | aside | blockQuote | section | middle | street | region | postalLine | city | code
  | country | postal | email | phone | uri | facsimile | address | organization | author
  | seriesInfo | title | date | area | workgroup | keyword | abstract | note | boilerplate
  | front | format | remark | refContent | reference | referenceGroup | references
  | displayReference | back | link | rfc
  deriving DecidableEq, Repr

/-- How a setting is read from the attributes of an element. -/
inductive Source where
  /-- The attribute, which may be missing. -/
  | optional (key : String)
  /-- The attribute, or a fixed text when it is missing. -/
  | withDefault (key value : String)
  /-- Whether the attribute is `true`. -/
  | isTrue (key : String)
  /-- Whether the attribute is anything but `false`. -/
  | isNotFalse (key : String)
  /-- The attribute, which has to be there. -/
  | required (key : String)
  deriving DecidableEq, Repr

namespace Kind

/-- Every kind. -/
def all : List Kind :=
  [.svg, .bcp14, .em, .relRef, .eRef, .iRef, .xRef, .cRef, .strong, .tt, .sub, .sup, .spanX,
   .list, .vSpace, .t, .artwork, .postamble, .preamble, .name, .sourceCode, .figure, .li, .ul,
   .ol, .dd, .dt, .dl, .ttCol, .c, .textTable, .br, .th, .td, .tr, .tBody, .tFoot, .tHead, .table,
   .aside, .blockQuote, .section, .middle, .street, .region, .postalLine, .city, .code, .country,
   .postal, .email, .phone, .uri, .facsimile, .address, .organization, .author, .seriesInfo,
   .title, .date, .area, .workgroup, .keyword, .abstract, .note, .boilerplate, .front, .format,
   .remark, .refContent, .reference, .referenceGroup, .references, .displayReference, .back,
   .link, .rfc]

/-- How a kind is called when a document is shown. -/
def label : Kind → String
  | .svg => "SVG"
  | .bcp14 => "BCP14"
  | .em => "EM"
  | .relRef => "RelRef"
  | .eRef => "ERef"
  | .iRef => "IRef"
  | .xRef => "XRef"
  | .cRef => "CRef"
  | .strong => "Strong"
  | .tt => "TT"
  | .sub => "Sub"
  | .sup => "Sup"
  | .spanX => "SpanX"
  | .list => "List"
  | .vSpace => "VSpace"
  | .t => "T"
  | .artwork => "Artwork"
  | .postamble => "Postamble"
  | .preamble => "Preamble"
  | .name => "Name"
  | .sourceCode => "SourceCode"
  | .figure => "Figure"
  | .li => "LI"
  | .ul => "UL"
  | .ol => "OL"
  | .dd => "DD"
  | .dt => "DT"
  | .dl => "DL"
  | .ttCol => "TTCol"
  | .c => "C"
  | .textTable => "TextTable"
  | .br => "BR"
  | .th => "TH"
  | .td => "TD"
  | .tr => "TR"
  | .tBody => "TBody"
  | .tFoot => "TFoot"
  | .tHead => "THead"
  | .table => "Table"
  | .aside => "Aside"
  | .blockQuote => "BlockQuote"
  | .section => "Section"
  | .middle => "Middle"
  | .street => "Street"
  | .region => "Region"
  | .postalLine => "PostalLine"
  | .city => "City"
  | .code => "Code"
  | .country => "Country"
  | .postal => "Postal"
  | .email => "Email"
  | .phone => "Phone"
  | .uri => "URI"
  | .facsimile => "Facsimile"
  | .address => "Address"
  | .organization => "Organization"
  | .author => "Author"
  | .seriesInfo => "SeriesInfo"
  | .title => "Title"
  | .date => "Date"
  | .area => "Area"
  | .workgroup => "Workgroup"
  | .keyword => "Keyword"
  | .abstract => "Abstract"
  | .note => "Note"
  | .boilerplate => "Boilerplate"
  | .front => "Front"
  | .format => "Format"
  | .remark => "Annotation"
  | .refContent => "RefContent"
  | .reference => "Reference"
  | .referenceGroup => "ReferenceGroup"
  | .references => "References"
  | .displayReference => "DisplayReference"
  | .back => "Back"
  | .link => "Link"
  | .rfc => "RFC"

/-- The parts of a kind, in the order in which they are shown. -/
def parts : Kind → List String
  | .svg | .iRef | .vSpace | .br | .seriesInfo | .date | .format | .displayReference | .link => []
  | .figure => ["name", "irefs", "preamble", "content", "postamble"]
  | .textTable => ["name", "preamble", "ttcols", "cs", "postamble"]
  | .table => ["name", "irefs", "thead", "tbodies", "tfoot"]
  | .section => ["name", "content", "sections"]
  | .address => ["postal", "phone", "facsimile", "email", "uri"]
  | .author => ["org", "address"]
  | .note | .references => ["name", "content"]
  | .front =>
    ["title", "seriesInfo", "authors", "date", "areas", "workgroups", "keywords", "abstract",
     "notes", "boilerplate"]
  | .reference => ["front", "content"]
  | .back => ["displayrefs", "refs", "sections"]
  | .rfc => ["links", "front", "middle", "back"]
  | _ => ["content"]

/-- The settings of a kind, in the order in which they are shown, after the parts. -/
def settings : Kind → List (String × Source)
  | .relRef =>
    [("displayFormat", .optional "displayFormat"), ("relative", .optional "relative"),
     ("section", .required "section"), ("target", .required "target")]
  | .eRef => [("target", .required "target")]
  | .iRef =>
    [("item", .required "item"), ("primary", .isTrue "primary"), ("subitem", .optional "subitem")]
  | .xRef =>
    [("format", .withDefault "format" "default"), ("pageno", .isTrue "pageno"),
     ("target", .required "target")]
  | .cRef =>
    [("anchor", .optional "anchor"), ("display", .isTrue "display"),
     ("source", .optional "source")]
  | .spanX => [("style", .optional "style"), ("xmlSpace", .optional "xml:space")]
  | .list =>
    [("counter", .optional "counter"), ("hangIndent", .optional "hangIndent"),
     ("style", .optional "style")]
  | .vSpace => [("blankLines", .optional "blankLines")]
  | .t =>
    [("anchor", .optional "anchor"), ("hangText", .optional "hangText"),
     ("keepWithNext", .isTrue "keepWithNext"), ("keepWithPrevious", .isTrue "keepWithPrevious")]
  | .artwork =>
    [("align", .withDefault "align" "left"), ("alt", .optional "alt"),
     ("anchor", .optional "anchor"), ("height", .optional "height"), ("name", .optional "name"),
     ("src", .optional "src"), ("type", .optional "type"), ("width", .optional "width"),
     ("xmlSpace", .optional "xml:space")]
  | .sourceCode =>
    [("anchor", .optional "anchor"), ("name", .optional "name"), ("src", .optional "src"),
     ("type", .optional "type")]
  | .figure =>
    [("align", .withDefault "align" "left"), ("alt", .optional "alt"),
     ("anchor", .optional "anchor"), ("height", .optional "height"), ("src", .optional "src"),
     ("suppressTitle", .isTrue "suppress-title"), ("title", .optional "title"),
     ("width", .optional "width")]
  | .li | .dd | .dt | .tr | .tBody | .tFoot | .tHead | .table | .aside | .abstract =>
    [("anchor", .optional "anchor")]
  | .ul =>
    [("anchor", .optional "anchor"), ("empty", .isTrue "empty"),
     ("spacing", .withDefault "spacing" "normal")]
  | .ol =>
    [("anchor", .optional "anchor"), ("group", .optional "group"),
     ("spacing", .withDefault "spacing" "normal"), ("start", .optional "start"),
     ("type", .optional "type")]
  | .dl =>
    [("anchor", .optional "anchor"), ("hanging", .isNotFalse "hanging"),
     ("spacing", .withDefault "spacing" "normal")]
  | .ttCol => [("align", .withDefault "align" "left"), ("width", .optional "width")]
  | .textTable =>
    [("align", .withDefault "align" "center"), ("anchor", .optional "anchor"),
     ("style", .optional "style"), ("suppressTitle", .isTrue "suppress-title"),
     ("title", .optional "title")]
  | .th | .td =>
    [("align", .withDefault "align" "left"), ("anchor", .optional "anchor"),
     ("colspan", .optional "colspan"), ("rowspan", .optional "rowspan")]
  | .blockQuote =>
    [("anchor", .optional "anchor"), ("cite", .optional "cite"),
     ("quotedFrom", .optional "quotedFrom")]
  | .section =>
    [("anchor", .optional "anchor"), ("numbered", .isNotFalse "numbered"),
     ("removeInRFC", .isTrue "removeInRFC"), ("title", .optional "title"),
     ("toc", .withDefault "toc" "default")]
  | .street | .region | .postalLine | .city | .code | .country | .email =>
    [("ascii", .optional "ascii")]
  | .organization | .title => [("abbrev", .optional "abbrev"), ("ascii", .optional "ascii")]
  | .author =>
    [("asciiFullname", .optional "asciiFullname"), ("asciiInitials", .optional "asciiInitials"),
     ("asciiSurname", .optional "asciiSurname"), ("fullname", .optional "fullname"),
     ("initials", .optional "initials"), ("role", .optional "role"),
     ("surname", .optional "surname")]
  | .seriesInfo =>
    [("asciiName", .required "name"), ("asciiValue", .required "value"),
     ("name", .required "name"), ("status", .optional "status"),
     ("stream", .withDefault "stream" "IETF"), ("value", .required "value")]
  | .date => [("day", .optional "day"), ("month", .optional "month"), ("year", .optional "year")]
  | .note => [("removeInRFC", .isTrue "removeInRFC"), ("title", .optional "title")]
  | .format =>
    [("octets", .optional "octets"), ("target", .optional "target"), ("type", .required "type")]
  | .reference =>
    [("anchor", .required "anchor"), ("quoteTitle", .isNotFalse "quoteTitle"),
     ("target", .optional "target")]
  | .referenceGroup => [("anchor", .required "anchor")]
  | .references => [("anchor", .optional "anchor"), ("title", .optional "title")]
  | .displayReference => [("target", .required "target"), ("to", .required "to")]
  | .link => [("href", .required "href"), ("rel", .optional "rel")]
  | .rfc =>
    [("category", .optional "category"), ("consensus", .isTrue "consensus"),
     ("docName", .optional "docName"), ("indexInclude", .isNotFalse "indexInclude"),
     ("ipr", .optional "ipr"), ("iprExtract", .optional "iprExtract"),
     ("number", .optional "number"), ("obsoletes", .optional "obsoletes"),
     ("prepTime", .optional "prepTime"), ("seriesNo", .optional "seriesNo"),
     ("sortRefs", .isTrue "sortRefs"), ("submissionType", .withDefault "submissionType" "IETF"),
     ("symRefs", .isNotFalse "symRefs"), ("tocDepth", .withDefault "tocDepth" "3"),
     ("tocInclude", .isNotFalse "tocInclude"), ("updates", .optional "updates"),
     ("version", .optional "version")]
  | _ => []

/-- The kind that is shown under a name. -/
def ofLabel? (name : String) : Option Kind :=
  all.find? (·.label = name)

end Kind

end PacketDraft.Document
