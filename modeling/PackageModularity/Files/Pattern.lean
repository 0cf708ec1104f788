import PackageModularity.Text.Utf8

/-!
Wildcard patterns for file names. A pattern works on bytes: `*` stands for any bytes, `?` for one, a
class in brackets for one of its bytes, braces for one of their branches, and a backslash takes the
next character as it is.
-/
namespace PackageModularity

inductive PatternError where
  | unclosedClass
  | invalidRange (low high : Char)
  | unclosedBraces
  | unopenedBraces
  | danglingEscape
  deriving DecidableEq, Repr

def PatternError.message : PatternError → String
  | .unclosedClass => "unclosed character class; missing ']'"
  | .invalidRange low high => "invalid range; '" ++ low.toString ++ "' > '" ++ high.toString ++ "'"
  | .unclosedBraces =>
    "unclosed alternate group; missing '\x7d' (maybe escape '\x7b' with '[\x7b]'?)"
  | .unopenedBraces =>
    "unopened alternate group; missing '\x7b' (maybe escape '\x7d' with '[\x7d]'?)"
  | .danglingEscape => "dangling '\\'"

/-- The last three tokens stand for whole folders before, between and after other parts. -/
inductive PatternToken where
  | byte (b : UInt8)
  | anyByte
  | anyBytes
  | oneOf (negated : Bool) (ranges : List (UInt8 × UInt8))
  | choice (branches : List (List PatternToken))
  | foldersBefore
  | foldersBetween
  | foldersAfter

structure Pattern where
  tokens : List PatternToken

namespace Pattern

abbrev Bytes := List UInt8

def suffixes : Bytes → List Bytes
  | [] => [[]]
  | b :: r => (b :: r) :: suffixes r

def slash : UInt8 := 0x2F

def take? (p : UInt8 → Bool) : Bytes → Option Bytes
  | b :: r => if p b then some r else none
  | [] => none

mutual

/-- What can be left of some texts when a token has taken its part from their start. -/
def advance : PatternToken → List Bytes → List Bytes
  | .byte b, ts => ts.filterMap (take? (· == b))
  | .anyByte, ts => ts.filterMap (take? fun _ => true)
  | .anyBytes, ts => (ts.flatMap suffixes).eraseDups
  | .oneOf negated ranges, ts =>
    ts.filterMap (take? fun b => (ranges.any fun r => r.1 ≤ b && b ≤ r.2) != negated)
  | .choice [], ts => ts
  | .choice (b :: r), ts => (advanceAll b ts ++ advanceAny r ts).eraseDups
  | .foldersBefore, ts =>
    (ts ++ (ts.flatMap suffixes).filterMap (take? (· == slash))).eraseDups
  | .foldersBetween, ts =>
    let inner := ts.filterMap (take? (· == slash))
    (inner ++ (inner.flatMap suffixes).filterMap (take? (· == slash))).eraseDups
  | .foldersAfter, ts => ((ts.filterMap (take? (· == slash))).flatMap suffixes).eraseDups

def advanceAll : List PatternToken → List Bytes → List Bytes
  | [], ts => ts
  | t :: r, ts => advanceAll r (advance t ts)

def advanceAny : List (List PatternToken) → List Bytes → List Bytes
  | [], _ => []
  | b :: r, ts => advanceAll b ts ++ advanceAny r ts

end

def isMatch (p : Pattern) (name : String) : Bool :=
  (advanceAll p.tokens [Utf8.encode name]).any (·.isEmpty)

def literal (c : Char) : List PatternToken := (Utf8.encode c.toString).map .byte

/-- The bytes of a range of characters: those of both ends, the last of the low one and the first of
the high one joined to a range. -/
def byteRanges (low high : Char) : List (UInt8 × UInt8) :=
  let single (b : UInt8) := (b, b)
  let a := Utf8.encode low.toString
  let b := Utf8.encode high.toString
  if low = high then a.map single
  else a.dropLast.map single ++ [(a.getLastD 0, b.headD 0)] ++ b.tail.map single

structure OpenClass where
  ranges : List (Char × Char)
  hyphen : Bool

def OpenClass.extend (o : OpenClass) (c : Char) : Except PatternError OpenClass :=
  match o.ranges with
  | (low, _) :: r =>
    if c < low then .error (.invalidRange low c) else .ok ⟨(low, c) :: r, false⟩
  | [] => .ok ⟨[(c, c)], false⟩

/-- The ranges of a class and the number of characters up to its closing bracket. -/
def readClass (o : OpenClass) :
    List Char → Except PatternError (List (Char × Char) × Nat)
  | [] => .error .unclosedClass
  | c :: r => do
    let first := o.ranges.isEmpty
    if c = ']' ∧ !first then
      .ok ((if o.hyphen then ('-', '-') :: o.ranges else o.ranges).reverse, 1)
    else
      let o ←
        if c = '-' ∧ !first ∧ !o.hyphen then .ok { o with hyphen := true }
        else if o.hyphen then o.extend c
        else .ok ⟨(c, c) :: o.ranges, false⟩
      let (ranges, n) ← readClass o r
      .ok (ranges, n + 1)

def readBracket (cs : List Char) : Except PatternError (PatternToken × Nat) := do
  let negated := cs.head? = some '!' ∨ cs.head? = some '^'
  let (ranges, n) ← readClass ⟨[], false⟩ (if negated then cs.tail else cs)
  .ok (.oneOf negated (ranges.flatMap fun r => byteRanges r.1 r.2), if negated then n + 1 else n)

structure OpenGroup where
  branches : List (List PatternToken)
  tokens : List PatternToken

structure Reading where
  group : OpenGroup
  outer : List OpenGroup

namespace Reading

def push (s : Reading) (ts : List PatternToken) : Reading :=
  { s with group := { s.group with tokens := ts.reverse ++ s.group.tokens } }

/-- A branch that cannot take a byte is no branch. -/
def isVoid (branch : List PatternToken) : Bool :=
  branch.all fun t => match t with
    | .choice [] => true
    | _ => false

def openBraces (s : Reading) : Reading := ⟨⟨[], []⟩, s.group :: s.outer⟩

def closeBraces (s : Reading) : Except PatternError Reading :=
  match s.outer with
  | [] => .error .unopenedBraces
  | g :: r =>
    let branches := (s.group.tokens :: s.group.branches).reverse.map List.reverse
    .ok (Reading.push ⟨g, r⟩ [.choice (branches.filter fun b => !isVoid b)])

def comma (s : Reading) : Reading :=
  match s.outer with
  | [] => s.push (literal ',')
  | _ :: _ => { s with group := ⟨s.group.tokens :: s.group.branches, []⟩ }

/-- Two stars, after `before` and ahead of `rest`: folders where they fill a whole part of a path,
else any bytes. Gives the number of characters of `rest` that they take as well. -/
def doubleStar (s : Reading) (before : Option Char) (rest : List Char) : Reading × Nat :=
  let bytes := (s.push [.anyBytes, .anyBytes], 0)
  let inGroup := !s.outer.isEmpty
  let atSlash := rest.head? = some '/'
  let folders (last : Bool) : Reading :=
    match s.group.tokens with
    | .foldersBefore :: _ | .foldersAfter :: _ => s
    | _ :: r =>
      { s with group := ⟨s.group.branches, (if last then .foldersAfter else .foldersBetween) :: r⟩ }
    | [] => s
  if s.group.tokens.isEmpty then
    if rest = [] ∨ atSlash then (s.push [.foldersBefore], 1) else bytes
  else if before ≠ some '/' ∧ (!inGroup ∨ (before ≠ some ',' ∧ before ≠ some '\x7b')) then bytes
  else if rest = [] ∨ (inGroup ∧ (rest.head? = some ',' ∨ rest.head? = some '\x7d')) then
    (folders true, 0)
  else if atSlash then (folders false, 1)
  else bytes

end Reading

/-- Reads on after `before`, first passing over `skip` characters. -/
def readFrom : Nat → Option Char → List Char → Reading → Except PatternError Reading
  | _, _, [], s => .ok s
  | skip + 1, _, c :: r, s => readFrom skip (some c) r s
  | 0, before, c :: r, s =>
    match c, r with
    | '?', _ => readFrom 0 (some c) r (s.push [.anyByte])
    | '*', '*' :: r' =>
      let (s, n) := s.doubleStar before r'
      readFrom (n + 1) (some c) r s
    | '*', _ => readFrom 0 (some c) r (s.push [.anyBytes])
    | '[', _ => do
      let (t, n) ← readBracket r
      readFrom n (some c) r (s.push [t])
    | '\x7b', _ => readFrom 0 (some c) r s.openBraces
    | '\x7d', _ => do readFrom 0 (some c) r (← s.closeBraces)
    | ',', _ => readFrom 0 (some c) r s.comma
    | '\\', [] => .error .danglingEscape
    | '\\', e :: _ => readFrom 1 (some c) r (s.push (literal e))
    | _, _ => readFrom 0 (some c) r (s.push (literal c))

def read (text : String) : Except PatternError Pattern := do
  let s ← readFrom 0 none text.toList ⟨⟨[], []⟩, []⟩
  match s.outer with
  | [] => .ok ⟨s.group.tokens.reverse⟩
  | _ :: _ => .error .unclosedBraces

end Pattern

end PackageModularity
