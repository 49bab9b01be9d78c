/-!
# Floating-point numbers

Numbers of double precision by their bits, with exact comparison to integers and truncation.
-/

namespace PacketDraft.Number

/-- A number of double precision. -/
structure Double where
  bits : UInt64
  deriving DecidableEq, Repr

namespace Double

def ofFloat (x : Float) : Double :=
  ⟨x.toBits⟩

def toFloat (d : Double) : Float :=
  Float.ofBits d.bits

def isNegative (d : Double) : Bool :=
  d.bits >>> 63 = 1

/-- The eleven bits of the exponent. -/
def exponentBits (d : Double) : Nat :=
  ((d.bits >>> 52) &&& 0x7ff).toNat

/-- The fifty-two bits of the fraction. -/
def fractionBits (d : Double) : Nat :=
  (d.bits &&& 0xfffffffffffff).toNat

def isFinite (d : Double) : Bool :=
  d.exponentBits ≠ 0x7ff

/-- A finite number is its significand times two to the power of its exponent. -/
def significand (d : Double) : Nat :=
  if d.exponentBits = 0 then d.fractionBits else d.fractionBits + (1 <<< 52)

def exponent (d : Double) : Int :=
  if d.exponentBits = 0 then -1074 else (d.exponentBits : Int) - 1075

/-- Whether the number below lies nearer than the number above. -/
def isLopsided (d : Double) : Bool :=
  d.fractionBits = 0 && 1 < d.exponentBits

/-- The whole part of the absolute value, and whether nothing is left. -/
def magnitude (d : Double) : Nat × Bool :=
  match d.exponent with
  | .ofNat e => (d.significand <<< e, true)
  | .negSucc e =>
    let whole := d.significand >>> (e + 1)
    (whole, whole <<< (e + 1) = d.significand)

/-- The whole part of a finite number, toward zero. -/
def truncate? (d : Double) : Option Int :=
  if d.isFinite then
    let n : Int := d.magnitude.1
    some (if d.isNegative then -n else n)
  else none

/-- Whether a number equals an integer. -/
def equalsInt (d : Double) (n : Int) : Bool :=
  d.magnitude.2 && d.truncate? = some n

/-- Whether two numbers are equal; the two zeros are. -/
def equals (a b : Double) : Bool :=
  a.toFloat == b.toFloat

def add (a b : Double) : Double :=
  ofFloat (a.toFloat + b.toFloat)

/-- The nearest number to an integer. -/
def ofInt (n : Int) : Double :=
  ofFloat (Float.ofInt n)

end Double

end PacketDraft.Number
