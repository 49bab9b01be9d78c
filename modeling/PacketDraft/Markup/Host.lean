import PacketDraft.Text.Search

/-!
# Hosts of addresses

The authority of an address is a host, after the user and before the port if there are any. A host
in square brackets is a numeric address with colons or one of a later version. A host is not made
of characters that stand for a delimiter of addresses.
-/

namespace PacketDraft.Markup

def isHexDigit (c : Char) : Bool :=
  c.isDigit || ('a' ≤ c && c ≤ 'f') || ('A' ≤ c && c ≤ 'F')

/-- A number up to 255 in decimal digits, without leading zeros. -/
def isOctet (cs : List Char) : Bool :=
  cs ≠ [] && cs.all Char.isDigit && cs.length ≤ 3 && (cs = ['0'] || cs.head? ≠ some '0')
    && cs.foldl (fun n c => 10 * n + (c.toNat - '0'.toNat)) 0 ≤ 255

/-- Four octets with points between them. -/
def isDottedQuad (cs : List Char) : Bool :=
  let octets := cs.splitOn '.'
  octets.length = 4 && octets.all isOctet

/-- Sixteen bits in hexadecimal digits. -/
def isHextet (cs : List Char) : Bool :=
  cs ≠ [] && cs.all isHexDigit && cs.length ≤ 4

/-- The parts between colons. Four octets may stand for the last two of them. -/
def colonParts? (cs : List Char) : Option (List (List Char)) :=
  let parts := cs.splitOn ':'
  match parts.getLast? with
  | some last =>
    if last.contains '.' then
      if isDottedQuad last then some (parts.dropLast ++ [['0'], ['0']]) else none
    else some parts
  | none => none

/-- How many hextets stand on one side of a double colon. -/
def sideLength? (parts : List (List Char)) : Option Nat :=
  if parts = [[]] then some 0
  else if parts.all isHextet then some parts.length
  else none

/-- Eight hextets with colons between them. A double colon, of which there is at most one, stands
for those that are missing. -/
def isColonAddress (cs : List Char) : Bool :=
  match colonParts? cs with
  | none => false
  | some parts =>
    match (parts.drop 1).dropLast.findIdx? (· = []) with
    | none => parts.length = 8 && parts.all isHextet
    | some k =>
      match sideLength? (parts.take (k + 1)), sideLength? (parts.drop (k + 2)) with
      | some before, some after => before + after < 8
      | _, _ => false

/-- An address with colons, and the zone in which it is valid if there is one. -/
def isZonedAddress (cs : List Char) : Bool :=
  match Text.cut? ['%'] cs with
  | none => isColonAddress cs
  | some (address, zone) => zone ≠ [] && !zone.contains '%' && isColonAddress address

/-- An address of a later version, after the letter `v`: the version in hexadecimal digits, a point
and some text. -/
def isVersionedAddress (cs : List Char) : Bool :=
  match cs.span isHexDigit with
  | (_ :: _, '.' :: _ :: _) => true
  | _ => false

/-- What may stand in square brackets. -/
def isBracketable : List Char → Bool
  | 'v' :: cs => isVersionedAddress cs
  | cs => isZonedAddress cs

/-- The host and port of an authority: what follows the last at sign. -/
def hostAndPort (authority : List Char) : List Char :=
  (authority.reverse.takeWhile (· ≠ '@')).reverse

/-- Whether the brackets of an authority enclose a numeric host. Only a port may follow them. -/
def bracketsHost (authority : List Char) : Bool :=
  let host := hostAndPort authority
  match Text.cut? ['['] host with
  | some (before, rest) =>
    let name := rest.takeWhile (· ≠ ']')
    let port := rest.drop (name.length + 1)
    before = [] && (port = [] || port.head? = some ':') && isBracketable name
  | none => isBracketable (host.takeWhile (· ≠ ':'))

/-- Characters whose compatible form has a slash, a question mark, a number sign, an at sign or a
colon in it. -/
def hidesDelimiter (c : Char) : Bool :=
  [0x2047, 0x2048, 0x2049, 0x2100, 0x2101, 0x2105, 0x2106, 0x2a74, 0xfe13, 0xfe16, 0xfe55, 0xfe56,
    0xfe5f, 0xfe6b, 0xff03, 0xff0f, 0xff1a, 0xff1f, 0xff20].contains c.toNat

/-- Whether an authority can be used. One bracket does not come without the other. -/
def isAuthority (authority : List Char) : Bool :=
  let bracketed := authority.contains '['
  bracketed = authority.contains ']' && (!bracketed || bracketsHost authority)
    && !authority.any hidesDelimiter

end PacketDraft.Markup
