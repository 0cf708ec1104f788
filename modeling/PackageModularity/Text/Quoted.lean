import PackageModularity.Text.Unprintable

/-! A text between quotes in which every character that has no visible form is written as a code. -/
namespace PackageModularity.Quoted

def isUnprintable (c : Char) : Bool :=
  c.toNat < 0x20 || Unprintable.ranges.any fun r => r.1 ≤ c.toNat && c.toNat ≤ r.2

def hexDigits (n : Nat) : List Char := (Nat.toDigits 16 n)

def escape (c : Char) : List Char :=
  if c = '\x00' then ['\\', '0']
  else if c = '\t' then ['\\', 't']
  else if c = '\n' then ['\\', 'n']
  else if c = '\x0D' then ['\\', 'r']
  else if c = '"' then ['\\', '"']
  else if c = '\\' then ['\\', '\\']
  else if isUnprintable c then ['\\', 'u', '\x7b'] ++ hexDigits c.toNat ++ ['\x7d']
  else [c]

def quote (text : String) : String :=
  String.ofList (['"'] ++ text.toList.flatMap escape ++ ['"'])

end PackageModularity.Quoted
