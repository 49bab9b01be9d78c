import PacketDraft.Document.Element
import PacketDraft.Fault
import PacketDraft.Markup.Node
import PacketDraft.Markup.Vocabulary
import PacketDraft.Text.Blank

/-!
# Documents from markup

Reads a piece of markup as an element of a given kind. Children are read first, in their order, then
the content is put together, and last come the settings.
-/

namespace PacketDraft.Markup

open Document Text

/-- A setting taken from the attributes of an element. -/
def readSetting (attributes : List (String × String)) : Source → Except Fault Setting
  | .optional key =>
    match attributes.lookup key with
    | some value => .ok (.text value)
    | none => .ok .absent
  | .withDefault key value => .ok (.text ((attributes.lookup key).getD value))
  | .isTrue key => .ok (.flag (attributes.lookup key = some "true"))
  | .isNotFalse key => .ok (.flag (attributes.lookup key ≠ some "false"))
  | .required key =>
    match attributes.lookup key with
    | some value => .ok (.text value)
    | none => .error .notFound

/-- The kind among some whose elements have a name. -/
def kindAmong? (kinds : List Kind) (name : Option String) : Option Kind :=
  kinds.find? fun kind => name = some (tagName kind)

/-- A child of an element: its tag and, if its kind belongs there, the element it is read as. -/
structure Child where
  tag : Tag
  read? : Option (Kind × Element)

namespace Child

/-- The element that a child is, if it is of one of these kinds. -/
def ofKinds? (kinds : List Kind) (c : Child) : Option Element :=
  match c.read? with
  | some (kind, e) => if kinds.contains kind then some e else none
  | none => none

end Child

/-- Text as a list of elements. -/
def textElements (text : Option String) : List Element :=
  (text.map Element.plain).toList

/-- Text that is there and not blank. -/
def unlessBlank (text : Option String) : Option String :=
  text.filter fun s => !s.toList.all isBlank

/-- All children of some kinds. -/
def childrenOf (kinds : List Kind) (children : List Child) : List Element :=
  children.filterMap (·.ofKinds? kinds)

/-- The part that a slot takes from the children. -/
def Slot.part (children : List Child) : Slot → Except Fault (Document.Part Element)
  | .last kind =>
    match (childrenOf [kind] children).getLast? with
    | some e => .ok (.one e)
    | none => .ok .absent
  | .needed kind =>
    match (childrenOf [kind] children).getLast? with
    | some e => .ok (.one e)
    | none => .error .missingPart
  | .every kinds => .ok (.many (childrenOf kinds children))

/-- The text of an element that has to have some. -/
def neededText (text : Option String) : Except Fault Element :=
  match text with
  | some s => .ok (.plain s)
  | none => .error .requirement

/-- A list that has to hold something. -/
def someOf (items : List Element) : Except Fault (List Element) :=
  if items = [] then .error .requirement else .ok items

/-- The content of a paragraph. -/
def flowContent (tag : Tag) (kinds : List Kind) (children : List Child) : List Element :=
  textElements tag.text
    ++ children.flatMap (fun c => (c.ofKinds? kinds).toList ++ textElements c.tag.tail)
    ++ textElements (unlessBlank tag.tail)

/-- The inline content of a description. -/
def mixedContent (tag : Tag) (kinds : List Kind) (children : List Child) : List Element :=
  textElements (unlessBlank tag.text)
    ++ children.flatMap fun c => (c.ofKinds? kinds).toList ++ textElements (unlessBlank c.tag.tail)

/-- The terms of a list with their descriptions, given the term that waits for one. -/
def pairsFrom : Option Element → List Child → Except Fault (List (Element × Element))
  | _, [] => .ok []
  | term, c :: cs =>
    match c.read?, term with
    | some (.dt, e), _ => pairsFrom (some e) cs
    | some (.dd, e), some t => do
      let rest ← pairsFrom none cs
      return (t, e) :: rest
    | some (.dd, _), none => .error .requirement
    | _, _ => pairsFrom term cs

/-- Whether a node is an element of a kind. -/
def isElement (kind : Kind) (n : Node) : Bool :=
  n.name = some (tagName kind)

/-- How many children are read before a description that no term waits for, given whether one waits
at the start. -/
def pairedLength : Bool → List Node → Nat
  | _, [] => 0
  | waits, n :: ns =>
    if isElement .dt n then pairedLength true ns + 1
    else if isElement .dd n then (if waits then pairedLength false ns + 1 else 0)
    else pairedLength waits ns + 1

/-- The kinds of children that are read, and how many children are looked at. -/
def reach (shape : Shape) (children : List Node) : List Kind × Nat :=
  match shape with
  | .paragraphs kinds =>
    (if children.any (isElement .t) then kinds else [], children.length)
  | .definitions => (shape.kinds, pairedLength false children)
  | _ => (shape.kinds, children.length)

/-- The settings of a kind, from the attributes of an element. -/
def readSettings (kind : Kind) (attributes : List (String × String)) :
    Except Fault (List Setting) :=
  kind.settings.mapM fun (_, source) => readSetting attributes source

/-- An element of a kind, from its parts and the attributes. -/
def withSettings (kind : Kind) (tag : Tag) (parts : List (Document.Part Element)) :
    Except Fault Element := do
  let settings ← readSettings kind tag.attributes
  return .ofKind kind parts settings

/-- The parts of an element, from its text and the children that were read; `complete` tells whether
all children were. -/
def readParts (shape : Shape) (tag : Tag) (complete : Bool) (children : List Child) :
    Except Fault (List (Document.Part Element)) :=
  match shape with
  | .bare => .ok []
  | .marked => do
    let _ ← neededText tag.text
    return []
  | .text => do
    let e ← neededText tag.text
    return [.one e]
  | .maybeText =>
    match tag.text with
    | some s => .ok [.one (.plain s)]
    | none => .ok [.absent]
  | .anyText => .ok [.one (.text tag.text)]
  | .textThen kinds => .ok [.many (textElements tag.text ++ childrenOf kinds children)]
  | .thenText kinds => .ok [.many (childrenOf kinds children ++ textElements tag.text)]
  | .withInnerText kinds =>
    .ok [.many (children.flatMap fun c => (c.ofKinds? kinds).toList ++ textElements c.tag.text)]
  | .flow kinds => .ok [.many (flowContent tag kinds children)]
  | .paragraphs kinds => do
    let paragraph ← withSettings .t tag [.many (flowContent tag kinds children)]
    return [.many (List.replicate (children.countP fun c => c.tag.name = some (tagName .t)) paragraph)]
  | .drawing =>
    match tag.text with
    | some s => .ok [.one (.plain s)]
    | none => .ok [.many (childrenOf [.svg] children)]
  | .blocks block inline =>
    let running := childrenOf inline children ++ textElements tag.text
    if running = [] then do return [.many (← someOf (childrenOf block children))]
    else .ok [.many running]
  | .quotation block inline =>
    match children.getLast? with
    | none => .error .missingPart
    | some c =>
      let running := childrenOf inline children ++ textElements c.tag.text
      if running = [] then do return [.many (← someOf (childrenOf block children))]
      else .ok [.many running]
  | .mixed block inline =>
    let running := mixedContent tag inline children
    if running = [] then do return [.many (← someOf (childrenOf block children))]
    else if childrenOf block children = [] then .ok [.many running]
    else .error .requirement
  | .either first second =>
    if childrenOf second children = [] then do return [.many (← someOf (childrenOf first children))]
    else .ok [.many (childrenOf second children)]
  | .definitions => do
    let pairs ← pairsFrom none children
    if complete then return [.pairs pairs] else throw .requirement
  | .slots slots => slots.mapM (Slot.part children)

mutual

/-- A piece of markup as an element of a kind, whatever its name. -/
def read (kind : Kind) : Node → Except Fault Element
  | .mk tag children => do
    let (kinds, count) := reach (shape kind) children
    let inside ← readChildren kinds count children
    let parts ← readParts (shape kind) tag (count = children.length) inside
    withSettings kind tag parts

/-- The first `count` children, each with the element it is read as if its kind is among `kinds`. -/
def readChildren (kinds : List Kind) : Nat → List Node → Except Fault (List Child)
  | 0, _ => .ok []
  | _, [] => .ok []
  | count + 1, n :: ns => do
    let element? ←
      match kindAmong? kinds n.name with
      | some kind => do
        let e ← read kind n
        pure (some (kind, e))
      | none => pure none
    let rest ← readChildren kinds count ns
    return ⟨n.tag, element?⟩ :: rest

end

end PacketDraft.Markup
