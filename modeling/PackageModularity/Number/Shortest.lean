import PackageModularity.Number.Binary64

/-!
The fewest decimal digits that read back as a given binary number. On the grid of one digit, of two
digits and so on the two neighbours of the value are tried; the first grid with a neighbour that
rounds to the value gives the digits, of two such neighbours the nearer. Where both are as near, the
caller says which: `tieUp` tells of the lower coefficient whether the higher one is taken.
-/
namespace PackageModularity.Shortest

structure Decimal where
  coefficient : Nat
  exponent : Int
  deriving DecidableEq, Repr

/-- The value and the ends of the interval that rounds to it, over one denominator. -/
structure Interval where
  low : Nat
  value : Nat
  high : Nat
  den : Nat
  closed : Bool

def Interval.of (significand : Nat) (exponent : Int) : Interval :=
  let below := if significand = Nat.pow 2 52 ∧ Binary64.lowestExponent < exponent then 1 else 2
  let (unit, den) := Binary64.ratio 1 (exponent - 2)
  ⟨(4 * significand - below) * unit, 4 * significand * unit, (4 * significand + 2) * unit, den,
    significand % 2 == 0⟩

def sides (d : Decimal) (num den : Nat) : Nat × Nat :=
  if 0 ≤ d.exponent then (d.coefficient * Nat.pow 10 d.exponent.toNat * den, num)
  else (d.coefficient * den, num * Nat.pow 10 (-d.exponent).toNat)

def Interval.holds (i : Interval) (d : Decimal) : Bool :=
  let (a, low) := sides d i.low i.den
  let (b, high) := sides d i.high i.den
  if i.closed then low ≤ a && b ≤ high else low < a && b < high

def Interval.distance (i : Interval) (d : Decimal) : Nat :=
  let (a, v) := sides d i.value i.den
  (a - v) + (v - a)

/-- The greatest decimal of the grid that does not exceed the value. -/
def Interval.floorOn (i : Interval) (exponent : Int) : Decimal :=
  if 0 ≤ exponent then ⟨i.value / (i.den * Nat.pow 10 exponent.toNat), exponent⟩
  else ⟨i.value * Nat.pow 10 (-exponent).toNat / i.den, exponent⟩

def Interval.nearer (i : Interval) (tieUp : Nat → Bool) (low high : Decimal) : Decimal :=
  if i.distance low < i.distance high then low
  else if i.distance high < i.distance low then high
  else if tieUp low.coefficient then high else low

def Interval.pickOn (i : Interval) (tieUp : Nat → Bool) (exponent : Int) : Option Decimal :=
  let low := i.floorOn exponent
  let high : Decimal := ⟨low.coefficient + 1, exponent⟩
  match i.holds low, i.holds high with
  | true, true => some (i.nearer tieUp low high)
  | true, false => some low
  | false, true => some high
  | false, false => none

def Interval.leading (i : Interval) : Int :=
  let digits (n : Nat) : Int := (Nat.toDigits 10 n).length
  let guess := digits i.value - digits i.den
  if 0 < (i.floorOn guess).coefficient then guess else guess - 1

def Interval.search (i : Interval) (tieUp : Nat → Bool) : Nat → Int → Decimal
  | 0, exponent => i.floorOn exponent
  | steps + 1, exponent =>
    (i.pickOn tieUp exponent).getD (i.search tieUp steps (exponent - 1))

/-- Moves trailing zeros of the coefficient into the exponent. -/
def strip : Nat → Decimal → Decimal
  | 0, d => d
  | steps + 1, d =>
    if d.coefficient ≠ 0 ∧ d.coefficient % 10 = 0 then
      strip steps ⟨d.coefficient / 10, d.exponent + 1⟩
    else d

/-- Seventeen digits always suffice. -/
def decimal (tieUp : Nat → Bool) (significand : Nat) (exponent : Int) : Decimal :=
  let i := Interval.of significand exponent
  strip 20 (i.search tieUp 17 i.leading)

end PackageModularity.Shortest
