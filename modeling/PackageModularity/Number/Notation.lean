import PackageModularity.Number.Shortest

/-! Written forms of binary numbers, and the decimal texts that are read as one. -/
namespace PackageModularity

/-- How a number is written: the leading positions that are written without an exponent, whether a
whole number shows a fraction, and where the last digit goes from halfway above a coefficient. -/
structure Layout where
  positional : Int → Bool
  fraction : Bool
  tieUp : Nat → Bool

namespace Layout

/-- Every number is written out in full, a whole one without a point. A half goes up. -/
def plain : Layout := ⟨fun _ => true, false, fun _ => true⟩

/-- Numbers from `1e-5` on and below `1e16` are written out, always with a fraction. A half goes to
the even digit. -/
def document : Layout :=
  ⟨fun point => decide (-5 < point ∧ point ≤ 16), true, fun n => n % 2 = 1⟩

def zeros (n : Int) : List Char := List.replicate n.toNat '0'

def writeOut (l : Layout) (digits : List Char) (point : Int) : List Char :=
  let n : Int := digits.length
  if point ≤ 0 then ['0', '.'] ++ zeros (-point) ++ digits
  else if point < n then digits.take point.toNat ++ ['.'] ++ digits.drop point.toNat
  else digits ++ zeros (point - n) ++ (if l.fraction then ['.', '0'] else [])

def writeExponent (digits : List Char) (point : Int) : List Char :=
  let exponent := point - 1
  digits.take 1 ++ (if digits.length = 1 then [] else ['.'] ++ digits.drop 1) ++ ['e'] ++
    [if exponent < 0 then '-' else '+'] ++ Nat.toDigits 10 exponent.natAbs

def magnitude (l : Layout) (significand : Nat) (exponent : Int) : List Char :=
  if significand = 0 then if l.fraction then ['0', '.', '0'] else ['0']
  else
    let d := Shortest.decimal l.tieUp significand exponent
    let digits := Nat.toDigits 10 d.coefficient
    let point : Int := digits.length + d.exponent
    if l.positional point then l.writeOut digits point else writeExponent digits point

def write (l : Layout) : Binary64 → String
  | .nan => "NaN"
  | .infinite negative => if negative then "-inf" else "inf"
  | .finite negative m e => String.ofList ((if negative then ['-'] else []) ++ l.magnitude m e)

end Layout

namespace Decimal

inductive ReadError where
  | empty
  | invalid
  deriving DecidableEq, Repr

def ReadError.message : ReadError → String
  | .empty => "cannot parse float from empty string"
  | .invalid => "invalid float literal"

def isDigit (c : Char) : Bool := '0' ≤ c && c ≤ '9'

def digitValue (c : Char) : Nat := c.toNat - '0'.toNat

def valueOf (digits : List Char) : Nat := digits.foldl (fun n c => 10 * n + digitValue c) 0

def takeSign : List Char → Bool × List Char
  | '-' :: r => (true, r)
  | '+' :: r => (false, r)
  | r => (false, r)

def readExponent? : List Char → Option Int
  | [] => some 0
  | c :: r =>
    if c = 'e' ∨ c = 'E' then
      let (negative, digits) := takeSign r
      if digits ≠ [] ∧ digits.all isDigit then
        some (if negative then -(valueOf digits : Int) else valueOf digits)
      else none
    else none

/-- `coefficient * 10 ^ exponent`, rounded. Exponents far outside the range of the numbers are cut
off first, so that no power is computed that cannot matter. -/
def toBinary64 (negative : Bool) (coefficient : Nat) (exponent : Int) : Binary64 :=
  let point : Int := (Nat.toDigits 10 coefficient).length + exponent
  if coefficient = 0 then Binary64.zero negative
  else if 400 < point then .infinite negative
  else if point < -400 then Binary64.zero negative
  else if 0 ≤ exponent then Binary64.ofRatio negative (coefficient * Nat.pow 10 exponent.toNat) 1
  else Binary64.ofRatio negative coefficient (Nat.pow 10 (-exponent).toNat)

/-- Digits with at most one point, then an exponent. -/
def readMagnitude? (negative : Bool) (cs : List Char) : Option Binary64 :=
  let whole := cs.takeWhile isDigit
  let (fraction, rest) := match cs.dropWhile isDigit with
    | '.' :: r => (r.takeWhile isDigit, r.dropWhile isDigit)
    | r => ([], r)
  let digits := whole ++ fraction
  if digits = [] then none
  else (readExponent? rest).map fun e => toBinary64 negative (valueOf digits) (e - fraction.length)

/-- Reads a decimal, or in any case of letters a word for infinity or for no number. -/
def read (text : String) : Except ReadError Binary64 :=
  if text.toList = [] then .error .empty
  else
    let (negative, cs) := takeSign text.toList
    let word := String.ofList (cs.map Char.toLower)
    if word = "inf" ∨ word = "infinity" then .ok (.infinite negative)
    else if word = "nan" then .ok .nan
    else match readMagnitude? negative cs with
      | some x => .ok x
      | none => .error .invalid

end Decimal

end PackageModularity
