/-!
Binary floating-point numbers of 53 significant bits. A finite value is
`significand * 2 ^ exponent`; every operation rounds the exact quotient to the nearest value, a tie to the even significand.
-/
namespace PackageModularity

inductive Binary64 where
  | finite (negative : Bool) (significand : Nat) (exponent : Int)
  | infinite (negative : Bool)
  | nan
  deriving DecidableEq, Repr, Inhabited

namespace Binary64

def lowestExponent : Int := -1074
def highestExponent : Int := 971

def zero (negative : Bool) : Binary64 := .finite negative 0 lowestExponent

/-- The whole number nearest to a quotient, of two equally near the even one. -/
def nearest (num den : Nat) : Nat :=
  let whole := num / den
  let twice := 2 * (num % den)
  if twice < den then whole
  else if den < twice then whole + 1
  else if whole % 2 = 0 then whole else whole + 1

def scaled (num den : Nat) (exponent : Int) : Nat × Nat :=
  if 0 ≤ exponent then (num, den * Nat.pow 2 exponent.toNat)
  else (num * Nat.pow 2 (-exponent).toNat, den)

def exponentOf (num den : Nat) : Int :=
  let guess : Int := (num.log2 : Int) - den.log2 - 53
  let (n, d) := scaled num den guess
  max lowestExponent (if d * Nat.pow 2 53 ≤ n then guess + 1 else guess)

def ofRatio (negative : Bool) (num den : Nat) : Binary64 :=
  if num = 0 then zero negative
  else
    let exponent := exponentOf num den
    let (n, d) := scaled num den exponent
    let m := nearest n d
    let (m, exponent) := if m = Nat.pow 2 53 then (Nat.pow 2 52, exponent + 1) else (m, exponent)
    if highestExponent < exponent then .infinite negative else .finite negative m exponent

def ofInt (i : Int) : Binary64 := ofRatio (decide (i < 0)) i.natAbs 1

def ratio (significand : Nat) (exponent : Int) : Nat × Nat :=
  if 0 ≤ exponent then (significand * Nat.pow 2 exponent.toNat, 1)
  else (significand, Nat.pow 2 (-exponent).toNat)

def div : Binary64 → Binary64 → Binary64
  | .nan, _ | _, .nan => .nan
  | .infinite _, .infinite _ => .nan
  | .infinite s, .finite t _ _ => .infinite (s != t)
  | .finite s _ _, .infinite t => zero (s != t)
  | .finite s m e, .finite t n f =>
    if n = 0 then if m = 0 then .nan else .infinite (s != t)
    else
      let (a, b) := ratio m e
      let (c, d) := ratio n f
      ofRatio (s != t) (a * d) (b * c)

instance : Div Binary64 := ⟨div⟩

def isFinite : Binary64 → Bool
  | .finite .. => true
  | _ => false

end Binary64

end PackageModularity
