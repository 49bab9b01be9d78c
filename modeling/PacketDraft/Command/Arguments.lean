import PacketDraft.Fault
import PacketDraft.Text.Case

/-!
# Arguments

A command names the directory for the output, the format, and the document. An option can be written
apart from its value or joined to it, and single letters can be joined. Everything behind a lone double
hyphen is taken as it is. A request for help is met as soon as it is reached.
-/

namespace PacketDraft.Command

/-- What a command asks for. -/
structure Arguments where
  directory : String
  format : String
  document : String
  deriving DecidableEq, Repr

/-- The options that have a value. -/
inductive Flag where
  | directory
  | format
  deriving DecidableEq, Repr

/-- The option of a letter. -/
def Flag.ofLetter? : Char → Option Flag
  | 'd' => some .directory
  | 'f' => some .format
  | _ => none

/-- An argument, as it looks by itself. -/
inductive Word where
  /-- An option, with the value that is joined to it. -/
  | flag (f : Flag) (joined : Option (List Char))
  /-- A request for help, with what is joined to its letter. -/
  | help (joined : List Char)
  /-- A request for help with a value, which it cannot have. -/
  | helpWithValue
  | unknown
  | plain (s : String)
  deriving DecidableEq, Repr

/-- Whether a text is a negative number, which is no option. A newline may follow it. -/
def isNegative (cs : List Char) : Bool :=
  match cs with
  | '-' :: number =>
    let number := if number.getLast? = some '\n' then number.dropLast else number
    match number.splitOn '.' with
    | [digits] => digits ≠ [] && digits.all Text.isDecimal
    | [whole, part] => part ≠ [] && whole.all Text.isDecimal && part.all Text.isDecimal
    | _ => false
  | _ => false

/-- A long option may be shortened. -/
def longWord (s : String) (name : List Char) : Word :=
  if (name.takeWhile (· ≠ '=')).isPrefixOf "help".toList then
    if name.contains '=' then .helpWithValue else .help []
  else if s.toList.contains ' ' then .plain s
  else .unknown

/-- How an argument looks. -/
def Word.of (s : String) : Word :=
  match s.toList with
  | '-' :: '-' :: name => longWord s name
  | '-' :: 'h' :: joined => .help joined
  | '-' :: letter :: rest =>
    match Flag.ofLetter? letter with
    | some f =>
      match rest with
      | [] => .flag f none
      | '=' :: value => .flag f (some value)
      | _ => .flag f (some rest)
    | none => if isNegative s.toList || s.toList.contains ' ' then .plain s else .unknown
  | _ => .plain s

/-- What has been read of a command. -/
structure Partial where
  directory : Option String := none
  format : Option String := none
  document : Option String := none
  /-- Whether something came that has no place. -/
  surplus : Bool := false

/-- Gives an option its value. -/
def Partial.set (p : Partial) (f : Flag) (value : String) : Partial :=
  match f with
  | .directory => { p with directory := some value }
  | .format => { p with format := some value }

/-- Takes an argument that is no option. -/
def Partial.take (p : Partial) (value : String) : Partial :=
  match p.document with
  | none => { p with document := some value }
  | some _ => { p with surplus := true }

/-- The command, if it is complete and has nothing left over. -/
def Partial.finish (p : Partial) : Except Fault Arguments :=
  match p.directory, p.format, p.document, p.surplus with
  | some directory, some format, some document, false => .ok { directory, format, document }
  | _, _, _, _ => .error (.stop 2)

/-- What is joined to the letter for help is read before help is given. It has to be letters, not a value,
and if one of them is an option it has to have a value. -/
def afterHelp : List Char → List String → Fault
  | [], _ => .stop 0
  | letter :: rest, following =>
    if letter = '=' || letter = '-' then .stop 2
    else if letter = 'h' then afterHelp rest following
    else if (Flag.ofLetter? letter).isNone || rest ≠ [] then .stop 0
    else match following.map Word.of with
      | .plain _ :: _ => .stop 0
      | _ => .stop 2

/-- Reads the arguments one by one. -/
def readWords (p : Partial) : List String → Except Fault Arguments
  | [] => p.finish
  | s :: rest =>
    if s = "--" then
      (rest.foldl Partial.take { p with surplus := p.surplus || p.document.isSome }).finish
    else match Word.of s with
      | .help joined => .error (afterHelp joined rest)
      | .helpWithValue => .error (.stop 2)
      | .flag f (some joined) => readWords (p.set f (String.ofList joined)) rest
      | .flag f none =>
        match rest with
        | value :: rest =>
          if value = "--" then .error (.stop 2)
          else match Word.of value with
            | .plain value => readWords (p.set f value) rest
            | _ => .error (.stop 2)
        | [] => .error (.stop 2)
      | .unknown => readWords { p with surplus := true } rest
      | .plain s =>
        match rest with
        | "--" :: rest => (rest.foldl Partial.take (p.take s)).finish
        | rest => readWords (p.take s) rest

/-- The command that the arguments make up. -/
def Arguments.read (args : List String) : Except Fault Arguments :=
  readWords {} args

end PacketDraft.Command
