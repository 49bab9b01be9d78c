import PacketDraft.FileName
import PacketDraft.Library.Archive

/-!
# Finding a document

A document is looked for among the files, then in the archive if its name tells what it is.
-/

namespace PacketDraft.Library

/-- What stands at a path. -/
inductive Located where
  | absent
  /-- The path goes on behind a file. -/
  | behindFile
  /-- Only slashes and dots follow the file: it is there, and cannot be opened under this path. -/
  | fileAsDirectory
  | nameTooLong
  | directory
  | file (data : ByteArray)

/-- What a path comes down to: whether it starts at the root, and its components. -/
def pathKey (path : String) : Bool × List (List Char) :=
  (path.toList.head? == some '/', FileName.components path)

/-- The longest name of a file, in bytes. -/
def nameLimit : Nat :=
  255

/-- What follows a file in a path tells whether the path is good for opening it. -/
def behind (data : ByteArray) (rest : List (List Char)) : Located :=
  if rest = [] then .file data
  else if rest.all fun c => c = [] || c = ['.'] then .fileAsDirectory
  else .behindFile

/-- Where a path leads from a directory, given by its own components, to someone who sees just these
files. Of what lies above the first directory nothing is known but the directories themselves. -/
def walk (files : List ((Bool × List (List Char)) × ByteArray)) (rooted : Bool)
    (here : List (List Char)) : List (List Char) → Located
  | [] => .directory
  | c :: rest =>
    if c = [] || c = ['.'] then walk files rooted here rest
    else if c = ['.', '.'] then
      if here = [] && !rooted then
        if rest.all fun c => c = [] || c = ['.'] || c = ['.', '.'] then .directory else .absent
      else walk files rooted here.dropLast rest
    else if nameLimit < (String.ofList c).utf8ByteSize then .nameTooLong
    else
      let place := here ++ [c]
      match files.find? fun f => f.1 = (rooted, place) with
      | some f => behind f.2 rest
      | none =>
        if files.any fun f => f.1.1 = rooted && place.isPrefixOf f.1.2 then walk files rooted place rest
        else .absent

/-- What stands at a path, for someone who sees just these files. -/
def located (files : List (String × ByteArray)) (path : String) : Located :=
  let rooted := path.toList.head? == some '/'
  walk (files.map fun f => (pathKey f.1, f.2)) rooted [] (path.toList.splitOn '/')

/-- All places where documents are looked for. -/
structure Shelves where
  files : String → Located := fun _ => .absent
  archive : Archive := .empty

/-- The file at a path. The empty path stands for the current directory and cannot be opened, and no
path has a null character in it. -/
def Shelves.openFile (s : Shelves) (path : String) : Except Fault Source :=
  if path.toList.contains (Char.ofNat 0) then .error .badValue
  else if path = "" then .error .noSuchFile
  else match s.files path with
    | .absent => .error .noSuchFile
    | .behindFile | .fileAsDirectory => .error .notDirectory
    | .nameTooLong => .error .nameTooLong
    | .directory => .error .isDirectory
    | .file data => .ok ⟨FileName.suffix path, data⟩

/-- The document of a name in the archive, if the name tells what it is. Case does not count. -/
def Shelves.findArchived (s : Shelves) (name : String) : Search (Option Source) :=
  let lower := Text.lowered name
  if (Text.after? "draft-".toList lower.toList).isSome then s.archive.findDraft lower
  else if (Text.after? "rfc".toList lower.toList).isSome then s.archive.findRfc lower
  else return none

/-- The document of a name: a file, a draft or a published document. -/
def Shelves.find (s : Shelves) (name : String) : Search (Option Source) :=
  match s.files name with
  | .absent | .behindFile => s.findArchived name
  | _ => some <$> Attempt.ofExcept (s.openFile name)

end PacketDraft.Library
