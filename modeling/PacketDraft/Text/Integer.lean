import PacketDraft.Text.Blank
import PacketDraft.Text.Case

/-!
# Integers in texts

Digits of all decimal systems count, low lines may stand between two digits, and blanks around the
number are skipped.
-/

namespace PacketDraft.Text

/-- The value of a decimal digit. -/
def digitValue? (c : Char) : Option Nat :=
  if isDecimal c then
    ((decimalBounds.takeWhile (· ≤ c.toNat)).getLast?).map fun first => (c.toNat - first) % 10
  else none

/-- The value of digits after a number, which ends with a digit. -/
def readDigits (n : Nat) : List Char → Option Nat
  | [] => some n
  | '_' :: c :: cs => do
    let d ← digitValue? c
    readDigits (10 * n + d) cs
  | c :: cs => do
    let d ← digitValue? c
    readDigits (10 * n + d) cs

/-- The value of digits with single low lines between them. -/
def readNat? : List Char → Option Nat
  | [] => none
  | c :: cs => do
    let d ← digitValue? c
    readDigits d cs

/-- The integer that a text stands for. -/
def readInt? (cs : List Char) : Option Int :=
  match strip cs with
  | '-' :: ds => (readNat? ds).map fun n => -(n : Int)
  | '+' :: ds => (readNat? ds).map fun n => (n : Int)
  | ds => (readNat? ds).map fun n => (n : Int)

end PacketDraft.Text
