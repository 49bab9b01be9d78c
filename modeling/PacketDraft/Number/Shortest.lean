import PacketDraft.Number.Double

/-!
# Shortest decimal texts

A number is written with the fewest digits that read back as the same number, and of those with the
nearest. Numbers from a ten-thousandth up to ten to the sixteenth are written positionally.
-/

namespace PacketDraft.Number

/-- A positive decimal number: `digits` times ten to the power of `power`. -/
structure Decimal where
  digits : Nat
  power : Int
  deriving DecidableEq, Repr

/-- A fraction of two natural numbers. -/
structure Fraction where
  num : Nat
  den : Nat
  deriving DecidableEq, Repr

namespace Fraction

/-- `n` times a power of `base`. -/
def scaled (n base : Nat) : Int → Fraction
  | .ofNat e => ⟨n * base.pow e, 1⟩
  | .negSucc e => ⟨n, base.pow (e + 1)⟩

def le (a b : Fraction) : Bool :=
  a.num * b.den ≤ b.num * a.den

def lt (a b : Fraction) : Bool :=
  a.num * b.den < b.num * a.den

/-- The fraction times ten to a power. -/
def shift (a : Fraction) : Int → Fraction
  | .ofNat e => ⟨a.num * Nat.pow 10 e, a.den⟩
  | .negSucc e => ⟨a.num, a.den * Nat.pow 10 (e + 1)⟩

def floor (a : Fraction) : Nat :=
  a.num / a.den

/-- The distance of two fractions. -/
def distance (a b : Fraction) : Fraction :=
  ⟨(a.num * b.den - b.num * a.den) + (b.num * a.den - a.num * b.den), a.den * b.den⟩

end Fraction

def Decimal.toFraction (d : Decimal) : Fraction :=
  .scaled d.digits 10 d.power

namespace Double

/-- Four times the significand and the ends of the numbers that round to it. -/
def interval (d : Double) : Fraction × Fraction × Fraction :=
  let at_ (n : Nat) := Fraction.scaled n 2 (d.exponent - 2)
  let m := 4 * d.significand
  (at_ (if d.isLopsided then m - 1 else m - 2), at_ m, at_ (m + 2))

/-- Whether a decimal reads back as a number. -/
def readsBack (d : Double) (x : Decimal) : Bool :=
  let (low, _, high) := d.interval
  let f := x.toFraction
  if d.significand % 2 = 0 then low.le f && f.le high else low.lt f && f.lt high

/-- The greatest power of ten, of those from `power` down, that is not above a fraction. -/
def leadingPower (value : Fraction) : Nat → Int → Int
  | 0, power => power
  | fuel + 1, power =>
    if (Fraction.scaled 1 10 power).le value then power else leadingPower value fuel (power - 1)

/-- The two neighbours of a number among the decimals with a given last place, those that read back
as the number, the nearer one first. -/
def neighbours (d : Double) (power : Int) : List Decimal :=
  let value := d.interval.2.1
  let low : Decimal := ⟨(value.shift (-power)).floor, power⟩
  let high : Decimal := ⟨low.digits + 1, power⟩
  let nearer :=
    if (value.distance high.toFraction).lt (value.distance low.toFraction) then [high, low]
    else [low, high]
  nearer.filter fun x => x.digits ≠ 0 && d.readsBack x

/-- The first decimal that reads back, trying the last places from `power` down. -/
def shortestFrom (d : Double) : Nat → Int → Decimal
  | 0, power => ⟨(d.interval.2.1.shift (-power)).floor, power⟩
  | fuel + 1, power =>
    match d.neighbours power with
    | x :: _ => x
    | [] => shortestFrom d fuel (power - 1)

/-- The shortest decimal of a positive finite number. -/
def shortest (d : Double) : Decimal :=
  d.shortestFrom 17 (leadingPower d.interval.2.1 640 310)

end Double

/-- Digits without final zeros, and how many zeros there were. -/
def trimZeros : List Char → List Char × Nat
  | cs =>
    let zeros := (cs.reverse.takeWhile (· == '0')).length
    (cs.take (cs.length - zeros), zeros)

/-- An exponent with its sign and at least two digits. -/
def exponentText (e : Int) : String :=
  let digits := toString e.natAbs
  (if e < 0 then "-" else "+") ++ (if digits.length < 2 then "0" ++ digits else digits)

/-- The text of a positive decimal. -/
def Decimal.text (x : Decimal) : String :=
  let (digits, zeros) := trimZeros (toString x.digits).toList
  let count : Int := digits.length
  -- The value is 0.digits times ten to the power of `point`.
  let point : Int := count + zeros + x.power
  if -4 < point && point ≤ 16 then
    if point ≤ 0 then
      "0." ++ String.ofList (List.replicate (-point).toNat '0' ++ digits)
    else if count ≤ point then
      String.ofList (digits ++ List.replicate (point - count).toNat '0') ++ ".0"
    else
      String.ofList (digits.take point.toNat) ++ "." ++ String.ofList (digits.drop point.toNat)
  else
    match digits with
    | [] => "0"
    | [c] => String.ofList [c] ++ "e" ++ exponentText (point - 1)
    | c :: cs => String.ofList (c :: '.' :: cs) ++ "e" ++ exponentText (point - 1)

/-- The text of a number. -/
def Double.text (d : Double) : String :=
  if d.isFinite then
    let body := if d.significand = 0 then "0.0" else d.shortest.text
    if d.isNegative then "-" ++ body else body
  else if d.fractionBits ≠ 0 then "nan"
  else if d.isNegative then "-inf"
  else "inf"

end PacketDraft.Number
