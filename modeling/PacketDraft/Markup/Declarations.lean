import PacketDraft.Fault
import PacketDraft.Markup.Host

/-!
# Files of declarations

A document may name a file that declares its type. An address with a host is taken as it is; of any
other one only the file name counts, and the file lies with the program.
-/

namespace PacketDraft.Markup

/-- Characters of the scheme of an address. -/
def isSchemeChar (c : Char) : Bool :=
  c.isAlphanum || c = '+' || c = '-' || c = '.'

/-- An address without its scheme. -/
def withoutScheme (address : List Char) : List Char :=
  match Text.cut? [':'] address with
  | some (scheme, rest) =>
    if scheme.head?.any Char.isAlpha && scheme.all isSchemeChar then rest else address
  | none => address

/-- An address as it is looked at: without leading controls and blanks, and without tabs and line
ends. -/
def cleaned (address : List Char) : List Char :=
  (address.dropWhile fun c => c.toNat ≤ 0x20).filter fun c => !(c = '\t' || c = '\n' || c = '\r')

/-- The authority that an address names; empty if it names none. -/
def authority (address : List Char) : Except Fault (List Char) :=
  match withoutScheme (cleaned address) with
  | '/' :: '/' :: rest =>
    let name := rest.takeWhile fun c => !(c = '/' || c = '?' || c = '#')
    if isAuthority name then .ok name else .error .badValue
  | _ => .ok []

/-- What follows the last slash. -/
def lastPart (path : List Char) : List Char :=
  (path.reverse.takeWhile (· ≠ '/')).reverse

/-- Where the declarations under an address are read from. -/
def declarationFile (address : String) : Except Fault String := do
  if (← authority address.toList) ≠ [] then return address
  else return "npt/" ++ String.ofList (lastPart address.toList)

end PacketDraft.Markup
