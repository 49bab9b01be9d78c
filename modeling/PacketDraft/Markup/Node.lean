/-!
# Markup trees

A piece of markup with its attributes, the text in front of its children and the text behind itself.
Comments, processing instructions and entity references are pieces without a name.
-/

namespace PacketDraft.Markup

/-- A piece of markup without its children. -/
structure Tag where
  /-- The name of an element; other pieces have none. -/
  name : Option String
  attributes : List (String × String) := []
  /-- The text before the first child. -/
  text : Option String := none
  /-- The text that follows the whole piece. -/
  tail : Option String := none
  deriving DecidableEq, Repr

/-- A piece of markup. -/
inductive Node where
  | mk (tag : Tag) (children : List Node)
  deriving Repr

instance : Inhabited Node := ⟨.mk ⟨none, [], none, none⟩ []⟩

namespace Node

def tag : Node → Tag
  | .mk tag _ => tag

def children : Node → List Node
  | .mk _ children => children

/-- The name of an element. -/
def name (n : Node) : Option String :=
  n.tag.name

/-- A piece that holds text and is no element. -/
def other (text : String) (tail : Option String) : Node :=
  .mk ⟨none, [], some text, tail⟩ []

end Node

end PacketDraft.Markup
