import PackageModularity.Number.Notation
import PackageModularity.Text.Name
import PackageModularity.Toml.Value

/-! Numbers, truth values, dates and times of a TOML document: words of a fixed form. -/
namespace PackageModularity.Toml

def isWordChar (c : Char) : Bool :=
  c.isAlphanum || c = '+' || c = '-' || c = '_' || c = '.' || c = ':'

def grouped? (digit : Char → Bool) : List Char → Option (List Char)
  | [] => none
  | [c] => if digit c then some [c] else none
  | c :: '_' :: r => if digit c then (grouped? digit r).map (c :: ·) else none
  | c :: r => if digit c then (grouped? digit r).map (c :: ·) else none

def digitOf (c : Char) : Nat :=
  if c.isDigit then c.toNat - '0'.toNat else c.toLower.toNat - 'a'.toNat + 10

def inBase (base : Nat) (digits : List Char) : Nat :=
  digits.foldl (fun n c => base * n + digitOf c) 0

def largestInteger : Nat := Nat.pow 2 63 - 1

def bounded? (n : Int) : Option Value :=
  if -(Nat.pow 2 63 : Int) ≤ n ∧ n ≤ largestInteger then some (.integer n) else none

def radix? (base : Nat) (digit : Char → Bool) (cs : List Char) : Option Value := do
  bounded? (inBase base (← grouped? digit cs))

def whole? (cs : List Char) : Option (List Char) :=
  match grouped? Char.isDigit cs with
  | some ('0' :: _ :: _) => none
  | digits => digits

def isHex (c : Char) : Bool :=
  c.isDigit || ('a' ≤ c && c ≤ 'f') || ('A' ≤ c && c ≤ 'F')

def decimal? (cs : List Char) : Option Value := do
  let (negative, digits) := Decimal.takeSign cs
  let n := inBase 10 (← whole? digits)
  bounded? (if negative then -(n : Int) else n)

def integer? : List Char → Option Value
  | '0' :: 'x' :: r => radix? 16 isHex r
  | '0' :: 'o' :: r => radix? 8 (fun c => '0' ≤ c && c ≤ '7') r
  | '0' :: 'b' :: r => radix? 2 (fun c => c = '0' || c = '1') r
  | cs => decimal? cs

def isExponentMark (c : Char) : Bool := c = 'e' || c = 'E'

def decimalFloat? (negative : Bool) (cs : List Char) : Option Value := do
  let mantissa := cs.takeWhile fun c => !isExponentMark c
  let rest := cs.dropWhile fun c => !isExponentMark c
  let whole ← whole? (mantissa.takeWhile (· ≠ '.'))
  let fraction ← match mantissa.dropWhile (· ≠ '.') with
    | [] => some []
    | _ :: r => grouped? Char.isDigit r
  let exponent ← match rest with
    | [] => some 0
    | _ :: r => do
      let (below, digits) := Decimal.takeSign r
      let n := inBase 10 (← grouped? Char.isDigit digits)
      some (if below then -(n : Int) else n)
  if fraction = [] ∧ rest = [] then none
  else
    let digits := whole ++ fraction
    let x := Decimal.toBinary64 negative (inBase 10 digits) (exponent - fraction.length)
    if x = .infinite false then none else some (.float x)

def float? (cs : List Char) : Option Value :=
  let (negative, r) := Decimal.takeSign cs
  if r = ['i', 'n', 'f'] then some (.float (.infinite negative))
  else if r = ['n', 'a', 'n'] then some (.float .nan)
  else decimalFloat? negative r

def fixed? (width low high : Nat) (cs : List Char) : Option Nat :=
  if cs.length = width ∧ cs.all Char.isDigit ∧ low ≤ inBase 10 cs ∧ inBase 10 cs ≤ high then
    some (inBase 10 cs)
  else none

def isLeap (year : Nat) : Bool := year % 4 = 0 && (year % 100 ≠ 0 || year % 400 = 0)

def daysOf (year month : Nat) : Nat :=
  if month = 2 then if isLeap year then 29 else 28
  else if month = 4 ∨ month = 6 ∨ month = 9 ∨ month = 11 then 30 else 31

def isDate (cs : List Char) : Bool :=
  match splitOnChar '-' cs with
  | [y, m, d] =>
    match fixed? 4 0 9999 y, fixed? 2 1 12 m with
    | some year, some month => (fixed? 2 1 (daysOf year month) d).isSome
    | _, _ => false
  | _ => false

def isSecond (cs : List Char) : Bool :=
  (fixed? 2 0 60 (cs.take 2)).isSome &&
  match cs.drop 2 with
  | [] => true
  | '.' :: r => r ≠ [] && r.all Char.isDigit
  | _ => false

def isTime (cs : List Char) : Bool :=
  match splitOnChar ':' cs with
  | [h, m, s] => (fixed? 2 0 23 h).isSome && (fixed? 2 0 59 m).isSome && isSecond s
  | _ => false

def isOffset (cs : List Char) : Bool :=
  match splitOnChar ':' cs with
  | [h, m] => (fixed? 2 0 23 h).isSome && (fixed? 2 0 59 m).isSome
  | _ => false

def isZoneMark (c : Char) : Bool := c = 'Z' || c = 'z' || c = '+' || c = '-'

/-- A time of day that may end with its distance from the universal one. -/
def isZonedTime (cs : List Char) : Bool :=
  isTime (cs.takeWhile fun c => !isZoneMark c) &&
  match cs.dropWhile fun c => !isZoneMark c with
  | [] => true
  | c :: r => if c = 'Z' ∨ c = 'z' then r = [] else isOffset r

def isMoment (cs : List Char) : Bool :=
  isTime cs || isDate cs ||
  (isDate (cs.take 10) &&
    match cs.drop 10 with
    | c :: r => (c = 'T' || c = 't') && isZonedTime r
    | [] => false)

def word? (cs : List Char) : Option Value :=
  if cs = "true".toList then some (.boolean true)
  else if cs = "false".toList then some (.boolean false)
  else if isMoment cs then some .moment
  else (integer? cs).or (float? cs)

/-- A word and what follows it. A date may go on with a blank and a time of day. -/
def readWord (cs : List Char) : Option (Value × List Char) :=
  let word := cs.takeWhile isWordChar
  let rest := cs.dropWhile isWordChar
  match rest with
  | ' ' :: c :: r =>
    if isDate word ∧ c.isDigit then
      let time := (c :: r).takeWhile isWordChar
      if isZonedTime time then some (.moment, (c :: r).dropWhile isWordChar) else none
    else (word? word).map (·, rest)
  | _ => (word? word).map (·, rest)

end PackageModularity.Toml
