/-!
UTF-8 with a reading for every byte sequence. A longest start of a character that is not continued
as the encoding asks, and a byte that starts none, is one gap.
-/
namespace PackageModularity.Utf8

def continues (b : UInt8) : Bool := 0x80 ≤ b && b ≤ 0xBF

/-- The value bits a lead byte contributes, the number of bytes it asks for and the range of the
first of these. -/
def lead? (b : UInt8) : Option (Nat × Nat × UInt8 × UInt8) :=
  let n := b.toNat
  if b < 0x80 then some (n, 0, 0x80, 0xBF)
  else if b < 0xC2 then none
  else if b < 0xE0 then some (n - 0xC0, 1, 0x80, 0xBF)
  else if b == 0xE0 then some (0, 2, 0xA0, 0xBF)
  else if b == 0xED then some (0xD, 2, 0x80, 0x9F)
  else if b < 0xF0 then some (n - 0xE0, 2, 0x80, 0xBF)
  else if b == 0xF0 then some (0, 3, 0x90, 0xBF)
  else if b < 0xF4 then some (n - 0xF0, 3, 0x80, 0xBF)
  else if b == 0xF4 then some (4, 3, 0x80, 0x8F)
  else none

/-- Reads on with `owed` bytes missing: the character or a gap, and the number of bytes used. -/
def follow (value : Nat) : Nat → UInt8 → UInt8 → List UInt8 → Option Char × Nat
  | 0, _, _, _ => (some (Char.ofNat value), 0)
  | _ + 1, _, _, [] => (none, 0)
  | owed + 1, low, high, b :: r =>
    if low ≤ b && b ≤ high then
      let (c, used) := follow (value * 64 + (b.toNat - 0x80)) owed 0x80 0xBF r
      (c, used + 1)
    else (none, 0)

def first (b : UInt8) (rest : List UInt8) : Option Char × Nat :=
  match lead? b with
  | none => (none, 0)
  | some (value, owed, low, high) => follow value owed low high rest

def scan : Nat → List UInt8 → List (Option Char)
  | _, [] => []
  | skip + 1, _ :: r => scan skip r
  | 0, b :: r =>
    let (c, used) := first b r
    c :: scan used r

def pieces (bytes : List UInt8) : List (Option Char) := scan 0 bytes

def decode? (bytes : List UInt8) : Option String :=
  ((pieces bytes).mapM fun c => c).map String.ofList

/-- A gap reads as the replacement character. -/
def decodeLossy (bytes : List UInt8) : String :=
  String.ofList ((pieces bytes).map fun c => c.getD '\uFFFD')

def encode (text : String) : List UInt8 := text.toUTF8.toList

end PackageModularity.Utf8
