/-!
# File names

A path consists of components between slashes; empty ones and single dots do not count. The last one
is the file name. A suffix begins with the last dot of the file name, if there is something on both
sides of it.
-/

namespace PacketDraft.FileName

/-- The components of a path that count. -/
def components (path : String) : List (List Char) :=
  (path.toList.splitOn '/').filter fun c => c ≠ [] ∧ c ≠ ['.']

/-- The last component of a path. -/
def fileName (path : String) : List Char :=
  (components path).getLast?.getD []

/-- How long the suffix of a file name is, with its dot. -/
def suffixLength (name : List Char) : Nat :=
  let behind := (name.reverse.takeWhile (· ≠ '.')).length
  if 0 < behind ∧ behind + 1 < name.length then behind + 1 else 0

/-- The suffix of a path. -/
def suffix (path : String) : String :=
  let name := fileName path
  String.ofList (name.drop (name.length - suffixLength name))

/-- The file name of a path without its suffix. -/
def stem (path : String) : String :=
  let name := fileName path
  String.ofList (name.take (name.length - suffixLength name))

end PacketDraft.FileName
