import PacketDraft.Document.Element
import PacketDraft.Text.Quoted

/-!
# Showing documents

An element is shown on one line, as its kind with its parts and settings in parentheses.
-/

namespace PacketDraft.Document

open Text (quoted)

/-- The items of a list as they are shown between brackets. -/
def bracketed (items : List String) : String :=
  "[" ++ ", ".intercalate items ++ "]"

def Setting.shown : Setting → String
  | .absent => "None"
  | .text s => quoted s
  | .flag true => "True"
  | .flag false => "False"

namespace Element

mutual

/-- An element on one line. -/
def shown : Element → String
  | .text none => "Text(content=None)"
  | .text (some s) => "Text(content=" ++ quoted s ++ ")"
  | .node kind parts settings =>
    let fields := shownParts parts ++ settings.map fun (n, s) => n ++ "=" ++ s.shown
    kind.label ++ "(" ++ ", ".intercalate fields ++ ")"

/-- Named parts, each with its name. -/
def shownParts : List (String × Part Element) → List String
  | [] => []
  | (n, p) :: rest => (n ++ "=" ++ shownPart p) :: shownParts rest

/-- What a part holds. -/
def shownPart : Part Element → String
  | .absent => "None"
  | .one e => e.shown
  | .many es => bracketed (shownList es)
  | .pairs ps => bracketed (shownPairs ps)

/-- Elements, each on its own. -/
def shownList : List Element → List String
  | [] => []
  | e :: es => e.shown :: shownList es

/-- Terms with their descriptions. -/
def shownPairs : List (Element × Element) → List String
  | [] => []
  | (a, b) :: ps => ("(" ++ a.shown ++ ", " ++ b.shown ++ ")") :: shownPairs ps

end

end Element

end PacketDraft.Document
