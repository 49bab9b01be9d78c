import PacketDraft.Document.Kind

/-!
# Documents

A document is a tree of elements. An element is a piece of plain text, or has a kind, named parts
that hold further elements, and settings.
-/

namespace PacketDraft.Document

/-- The value of a setting. -/
inductive Setting where
  | absent
  | text (value : String)
  | flag (value : Bool)
  deriving DecidableEq, Repr

/-- What a part of an element holds. -/
inductive Part (α : Type) where
  | absent
  | one (item : α)
  | many (items : List α)
  /-- Terms, each with its description. -/
  | pairs (items : List (α × α))
  deriving Repr

/-- A document or a piece of one. -/
inductive Element where
  | text (content : Option String)
  | node (kind : Kind) (parts : List (String × Part Element)) (settings : List (String × Setting))
  deriving Repr

instance : Inhabited Element := ⟨.text none⟩

namespace Element

/-- An element of a kind, given its parts and settings in the order of the vocabulary. -/
def ofKind (kind : Kind) (parts : List (Part Element)) (settings : List Setting) : Element :=
  .node kind (kind.parts.zip parts) ((kind.settings.map (·.1)).zip settings)

/-- Plain text that is there. -/
def plain (content : String) : Element :=
  .text (some content)

/-- Whether an element has a kind. -/
def isKind (kind : Kind) : Element → Bool
  | .text _ => false
  | .node k _ _ => k = kind

/-- The part of an element under a name. -/
def part? (name : String) : Element → Option (Part Element)
  | .text _ => none
  | .node _ parts _ => parts.lookup name

/-- The setting of an element under a name. -/
def setting? (name : String) : Element → Option Setting
  | .text _ => none
  | .node _ _ settings => settings.lookup name

/-- The content of an element that is a list. -/
def items? (e : Element) : Option (List Element) :=
  match e.part? "content" with
  | some (.many items) => some items
  | _ => none

/-- The characters of plain text. -/
def chars? : Element → Option String
  | .text content => content
  | .node .. => none

/-- The characters of the plain text that is the whole content of an element. -/
def enclosedChars? (e : Element) : Option String :=
  match e.part? "content" with
  | some (.one item) => item.chars?
  | _ => none

/-- The element with another part under a name. -/
def setPart (name : String) (part : Part Element) : Element → Element
  | .text content => .text content
  | .node kind parts settings =>
    .node kind (parts.map fun (n, p) => if n = name then (n, part) else (n, p)) settings

end Element

end PacketDraft.Document
