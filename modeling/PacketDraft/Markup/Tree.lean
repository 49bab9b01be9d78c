import PacketDraft.Fault
import PacketDraft.Markup.Node
import PacketDraft.Markup.Token
import PacketDraft.Text.Lines

/-!
# Trees from markup texts

Puts the tokens of a markup text together: every opening tag has its closing tag, there is one
outermost element, and no text outside it. Texts that touch are one text. A prefix of a name stands for
the address that it is bound to around it, and the full name shows the address.
-/

namespace PacketDraft.Markup

/-! ## Names -/

/-- What the prefixes stand for at some place; the empty prefix is that of names without one. -/
abbrev Scope : Type :=
  List (String × String)

/-- What the prefix `xml` always stands for. -/
def reservedAddress : String :=
  "http://www.w3.org/XML/1998/namespace"

/-- The bindings at the start of a text. -/
def Scope.initial : Scope :=
  [("xml", reservedAddress)]

/-- The prefix and the rest of a name. -/
def splitName? (name : String) : Option (String × String) :=
  match name.toList.splitOn ':' with
  | [base] => some ("", String.ofList base)
  | [before, base] =>
    if before = [] || !(base.head?.any startsName) then none
    else some (String.ofList before, String.ofList base)
  | _ => none

/-- A name with the address in front that its prefix stands for. -/
def fullName (address name : String) : String :=
  if address = "" then name else s!"\x7b{address}\x7d{name}"

/-- The binding that an attribute makes, if it makes one. -/
def binding? (setting : String × String) : Option (Except Fault (String × String)) :=
  match splitName? setting.1 with
  | some ("", "xmlns") => some (.ok ("", setting.2))
  | some ("xmlns", bound) =>
    some (if bound = "xmlns" || setting.2 = "" then .error .malformedMarkup
      else if (bound = "xml") ≠ (setting.2 = reservedAddress) then .error .malformedMarkup
      else .ok (bound, setting.2))
  | _ => none

/-- The full name of an element. -/
def Scope.elementName (s : Scope) (name : String) : Except Fault String :=
  match splitName? name with
  | some ("", base) => .ok (fullName ((s.lookup "").getD "") base)
  | some (before, base) =>
    match s.lookup before with
    | some address => .ok (fullName address base)
    | none => .error .malformedMarkup
  | none => .error .malformedMarkup

/-- The full name of an attribute. Without a prefix it has no address. -/
def Scope.attributeName (s : Scope) (name : String) : Except Fault String :=
  match splitName? name with
  | some ("", base) => .ok base
  | _ => Scope.elementName s name

/-- Whether no text occurs twice. -/
def allDistinct : List String → Bool
  | [] => true
  | s :: rest => !rest.contains s && allDistinct rest

/-- The bindings inside a tag, and its attributes under their full names. -/
def Scope.enter (s : Scope) (attributes : List (String × String)) :
    Except Fault (Scope × List (String × String)) := do
  let bound ← (attributes.filterMap binding?).mapM id
  let inner : Scope := bound.reverse ++ s
  let plain := attributes.filter fun a => (binding? a).isNone
  let named ← plain.mapM fun (name, value) => do return (← Scope.attributeName inner name, value)
  if allDistinct (attributes.map (·.1)) && allDistinct (named.map (·.1)) then return (inner, named)
  else .error .malformedMarkup

/-! ## Content -/

/-- The texts at the start of a sequence of tokens as one, and what follows. -/
def leadingText : List Token → Option (List Char) × List Token
  | .text content _ :: rest =>
    let (more, rest) := leadingText rest
    (some (content ++ more.getD []), rest)
  | rest => (none, rest)

/-- The text in front of the first piece, the pieces with the texts behind them, and the tokens from the
first closing tag on that has no opening tag here. -/
def content (scope : Scope) :
    Nat → List Token → Except Fault (Option String × List Node × List Token)
  | 0, _ => .error .malformedMarkup
  | fuel + 1, tokens => do
    let (text, rest) := leadingText tokens
    let text := text.map String.ofList
    match rest with
    | .comment inside :: rest | .instruction inside :: rest =>
      let (tail, pieces, rest) ← content scope fuel rest
      return (text, .other (String.ofList inside) tail :: pieces, rest)
    | .opening name attributes closed :: rest =>
      let (inner, attributes) ← scope.enter attributes
      let fullName ← Scope.elementName inner name
      let (first, children, rest) ←
        if closed then .ok (none, [], rest)
        else do
          let (first, children, rest) ← content inner fuel rest
          match rest with
          | .closing other :: rest =>
            if other = name then pure (first, children, rest) else throw .malformedMarkup
          | _ => throw .malformedMarkup
      let (tail, pieces, rest) ← content scope fuel rest
      return (text, .mk ⟨some fullName, attributes, first, tail⟩ children :: pieces, rest)
    | .declaration :: _ => throw .malformedMarkup
    | rest => return (text, [], rest)

/-- Whether a token may stand outside the outermost element. -/
def isOutside : Token → Bool
  | .text content literal => literal && content.all isSpace
  | .comment _ | .instruction _ => true
  | _ => false

/-- Without what may stand in front of the outermost element, with at most one type declaration. -/
def skipProlog (tokens : List Token) : List Token :=
  match tokens.dropWhile isOutside with
  | .declaration :: rest => rest.dropWhile isOutside
  | rest => rest

/-- The element that the tokens of a whole text make up. -/
def ofTokens (tokens : List Token) : Except Fault Node := do
  let inside := skipProlog tokens
  let ending := inside.reverse.dropWhile isOutside
  match ← content .initial (ending.length + 1) ending.reverse with
  | (none, [root], []) =>
    if root.name.isSome && root.tag.tail.isNone then return root else throw .malformedMarkup
  | _ => throw .malformedMarkup

/-! ## Whole texts -/

/-- Whether a text names a version of the markup that can be read. -/
def isVersion : List Char → Bool
  | '1' :: '.' :: minor => minor.all Char.isDigit
  | _ => false

/-- What the declaration at the start of a text says; a text without one says nothing. The result is
the name of the encoding, if there is one, and the rest of the text. -/
def declaredEncoding (cs : List Char) : Except Fault (Option String × List Char) :=
  match Text.after? "<?xml".toList cs with
  | none => .ok (none, cs)
  | some rest =>
    if !(rest.head?.any isSpace) then .ok (none, cs)
    else match settings? (rest.length + 1) rest with
      | some (settings, '?' :: '>' :: rest) =>
        let standalone := (settings.lookup "standalone").all fun s => s = "yes" || s = "no"
        let version := (settings.lookup "version").any fun v => isVersion v.toList
        let ordered := [["version"], ["version", "encoding"], ["version", "standalone"],
          ["version", "encoding", "standalone"]].contains (settings.map (·.1))
        if standalone && version && ordered then .ok (settings.lookup "encoding", rest)
        else .error .malformedMarkup
      | _ => .error .malformedMarkup

/-- The characters of bytes that are one character each. -/
def oneByteChars (data : ByteArray) : List Char :=
  data.toList.map fun b => Char.ofNat b.toNat

/-- The bytes behind a byte order mark. -/
def skipMark (data : ByteArray) : ByteArray :=
  if (data.toList.take 3) = [0xEF, 0xBB, 0xBF] then data.extract 3 data.size else data

/-- The characters of a markup text in the encoding that it declares, which is UTF-8 if it declares
none. -/
def decode (data : ByteArray) : Except Fault (List Char) := do
  let data := skipMark data
  let bytes := oneByteChars data
  let (encoding, _) ← declaredEncoding bytes
  match (encoding.getD "UTF-8").toUpper with
  | "UTF-8" | "UTF8" =>
    match String.fromUTF8? data with
    | some s => return s.toList
    | none => throw .malformedMarkup
  | "US-ASCII" | "ASCII" =>
    if bytes.all fun c => c.toNat < 128 then return bytes else throw .malformedMarkup
  | "ISO-8859-1" | "LATIN1" => return bytes
  | _ => throw .malformedMarkup

/-- The element of a whole text. Comments either stay as pieces, or go, so that the texts around them
touch. -/
def parse (keepComments : Bool) (data : ByteArray) : Except Fault Node := do
  let (_, rest) ← declaredEncoding (← decode data)
  match tokens? (Text.plainNewlines rest) with
  | none => throw .malformedMarkup
  | some tokens =>
    ofTokens (tokens.filter fun
      | .comment _ => keepComments
      | _ => true)

end PacketDraft.Markup
