import PacketDraft.Command.Run

/-!
# The command line

Reads the document, and writes the files for the protocol that it describes. Documents that are not on
disk are not found.
-/

namespace PacketDraft.Command

open PacketDraft.Library

/-- How the command is used. -/
def usage : String :=
  "usage: packetdraft [-h] -d OUTDIR -f FORMAT document"

/-- What stands at a path on disk. -/
def onDisk (path : String) : IO Located := do
  try
    return .file (← IO.FS.readBinFile path)
  catch _ =>
    return .absent

/-- Writes a file, and makes the directories around it first. -/
def writeFile (directory : String) (file : String × String) : IO Unit := do
  let parts := (directory.toList ++ '/' :: file.1.toList).splitOn '/'
  IO.FS.createDirAll (String.ofList (['/'].intercalate parts.dropLast))
  IO.FS.writeFile (String.ofList (['/'].intercalate parts)) file.2

end PacketDraft.Command

open PacketDraft.Command in
/-- Carries out the command that the arguments make up. -/
def main (args : List String) : IO UInt32 := do
  match Arguments.read args with
  | .error (.stop 0) =>
    IO.println usage
    return 0
  | .error _ =>
    IO.eprintln usage
    return 2
  | .ok args =>
    let found ← onDisk args.document
    match run { files := fun path => if path = args.document then found else .absent } args with
    | .ok (.refused why) =>
      IO.println why.message
      return 1
    | .ok (.written files) =>
      files.forM (writeFile args.directory)
      return 0
    | .error fault =>
      IO.eprintln (fault.message?.getD (reprStr fault))
      return 1
