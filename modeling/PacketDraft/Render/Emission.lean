import PacketDraft.FileName
import PacketDraft.Protocol.Order
import PacketDraft.Render.Plain
import PacketDraft.Render.Rust.Types

/-!
# Files for a protocol

The types of a protocol are written in dependency order, then the protocol as a whole.
-/

namespace PacketDraft.Render

open Protocol

/-- The formats in which a protocol can be written. -/
inductive Format where
  | plain
  | rust
  deriving DecidableEq, Repr

/-- The format under a name. -/
def Format.ofName? : String → Option Format
  | "simple" => some .plain
  | "rust" => some .rust
  | _ => none

/-- Whether a type is written with the others. -/
def isWritten (s : Store) (t : TypeRef) : Bool :=
  match s.entryOf t with
  | some e =>
    match e.form with
    | .bitString | .struct | .array _ _ | .enum _ | .context => true
    | _ => false
  | none => false

/-- The types that are written, in their order. -/
def writtenTypes (s : Store) : List TypeRef :=
  (s.dependencyOrder.filterMap (s.types.lookup ·)).filter (isWritten s)

/-- The lines of a plain description. -/
def plainLines (s : Store) : Except Fault (List String) := do
  let lines ← (writtenTypes s).mapM (Plain.typeLines s)
  return lines.flatten ++ Plain.protocolLines s s.protocolName

/-- Writes the source of a crate. -/
def writeCrate (s : Store) (name : String) : Rust.Writing (List (String × String)) := do
  Attempt.each (Rust.writeType s) (writtenTypes s)
  Rust.writeProtocol s.pdus
  Rust.writeFiles name

/-- The files for a protocol, under the name of the document that describes it. -/
def files (format : Format) (document : String) (s : Store) :
    Except Fault (List (String × String)) :=
  match format with
  | .plain => do
    let lines ← plainLines s
    return Plain.files lines
  | .rust => (writeCrate s (FileName.stem document) {}).1

/-- Completes a protocol and gives the files for it. -/
def emit (format : Format) (document : String) : Change (List (String × String)) := do
  synthesise
  Attempt.ask (files format document)

end PacketDraft.Render
