import PacketDraft.Command.Arguments
import PacketDraft.Description.Build
import PacketDraft.Library.Find
import PacketDraft.Markup.Reading
import PacketDraft.Markup.Tree
import PacketDraft.Memo.Reading
import PacketDraft.Render.Emission

/-!
# Running a command

Finds the document, reads it, builds the protocol that it describes and writes the protocol in the
format that is asked for.
-/

namespace PacketDraft.Command

open Document Library Render

/-- Why a command is not carried out. -/
inductive Refusal where
  | unknownFormat (name : String)
  | noDocument (name : String)
  | unreadable (suffix : String)
  deriving DecidableEq, Repr

/-- The wording of a refusal. -/
def Refusal.message : Refusal → String
  | .unknownFormat name => s!"Error: cannot load output formatter {name}"
  | .noDocument name => s!"Error: cannot load input document {name}"
  | .unreadable suffix => s!"Error: cannot parse format {suffix}"

/-- What comes of a command: a refusal, or files for the directory. -/
inductive Outcome where
  | refused (why : Refusal)
  | written (files : List (String × String))
  deriving DecidableEq, Repr

/-- The document in a markup text. -/
def markupDocument (keepComments : Bool) (data : ByteArray) : Except Fault Element := do
  let root ← Markup.parse keepComments data
  Markup.read .rfc root

/-- The document in a plain text, whose lines have no newlines. -/
def memoDocument (data : ByteArray) : Except Fault Element :=
  match String.fromUTF8? data with
  | some text => Memo.read ((Text.linesDropping text.toList).map String.ofList)
  | none => .error .badEncoding

/-- The document in a source, if its suffix tells how to read it. -/
def sourceDocument (s : Library.Source) : Except Fault (Option Element) :=
  match s.suffix with
  | ".xml" => some <$> markupDocument false s.data
  | ".txt" => some <$> memoDocument s.data
  | _ => .ok none

/-- The files for the protocol that a document describes. -/
def documentFiles (format : Format) (name : String) (document : Element) :
    Except Fault (List (String × String)) :=
  match Description.buildProtocol (some document) {} with
  | (.ok (), workshop) => (emit format name workshop.store).1
  | (.error e, _) => .error e

/-- Carries out a command. -/
def run (shelves : Shelves) (args : Arguments) : Except Fault Outcome :=
  match Format.ofName? args.format with
  | none => .ok (.refused (.unknownFormat args.format))
  | some format => do
    match ← (shelves.find args.document []).1 with
    | none => return .refused (.noDocument args.document)
    | some source =>
      match ← sourceDocument source with
      | none => return .refused (.unreadable source.suffix)
      | some document => return .written (← documentFiles format args.document document)

end PacketDraft.Command
