/-!
Strings of a TOML document. Every reader gives the text and what follows the closing quotes. In a
string of several lines a line break is one line feed, and up to two quotes may stand before the
closing three.
-/
namespace PackageModularity.Toml

/-- Characters that may stand in a string or comment: a tab, and all that are no control. -/
def isTextChar (c : Char) : Bool := c = '\t' || (0x20 ≤ c.toNat && c.toNat ≠ 0x7F)

def isSpace (c : Char) : Bool := c = ' ' || c = '\t'

def hexChar? (digits : List Char) : Option Char :=
  let value (c : Char) : Option Nat :=
    if c.isDigit then some (c.toNat - '0'.toNat)
    else if 'a' ≤ c ∧ c ≤ 'f' then some (c.toNat - 'a'.toNat + 10)
    else if 'A' ≤ c ∧ c ≤ 'F' then some (c.toNat - 'A'.toNat + 10)
    else none
  do
    let n ← digits.foldlM (fun n c => (value c).map (16 * n + ·)) 0
    if n.isValidChar then some (Char.ofNat n) else none

def escaped? : Char → Option Char
  | 'b' => some '\x08'
  | 't' => some '\t'
  | 'n' => some '\n'
  | 'f' => some '\x0c'
  | 'r' => some '\x0d'
  | '"' => some '"'
  | '\\' => some '\\'
  | _ => none

def more : Option Char → Option (List Char × List Char) → Option (List Char × List Char)
  | some c, some (cs, rest) => some (c :: cs, rest)
  | _, _ => none

def readBasic : List Char → Option (List Char × List Char)
  | [] => none
  | '"' :: r => some ([], r)
  | '\\' :: 'u' :: a :: b :: c :: d :: r => more (hexChar? [a, b, c, d]) (readBasic r)
  | '\\' :: 'U' :: a :: b :: c :: d :: e :: f :: g :: h :: r =>
    more (hexChar? [a, b, c, d, e, f, g, h]) (readBasic r)
  | '\\' :: c :: r => more (escaped? c) (readBasic r)
  | c :: r => if isTextChar c then more (some c) (readBasic r) else none

def readLiteral : List Char → Option (List Char × List Char)
  | [] => none
  | '\'' :: r => some ([], r)
  | c :: r => if isTextChar c then more (some c) (readLiteral r) else none

def startsLine : List Char → Bool
  | '\n' :: _ | '\x0d' :: '\n' :: _ => true
  | _ => false

def readBasicLines (trims : Bool) : List Char → Option (List Char × List Char)
  | [] => none
  | '"' :: '"' :: '"' :: '"' :: '"' :: r => some (['"', '"'], r)
  | '"' :: '"' :: '"' :: '"' :: r => some (['"'], r)
  | '"' :: '"' :: '"' :: r => some ([], r)
  | '\n' :: r => if trims then readBasicLines true r else more (some '\n') (readBasicLines false r)
  | '\x0d' :: '\n' :: r =>
    if trims then readBasicLines true r else more (some '\n') (readBasicLines false r)
  | '\\' :: 'u' :: a :: b :: c :: d :: r =>
    more (hexChar? [a, b, c, d]) (readBasicLines false r)
  | '\\' :: 'U' :: a :: b :: c :: d :: e :: f :: g :: h :: r =>
    more (hexChar? [a, b, c, d, e, f, g, h]) (readBasicLines false r)
  | '\\' :: c :: r =>
    if startsLine ((c :: r).dropWhile isSpace) then readBasicLines true (c :: r)
    else more (escaped? c) (readBasicLines false r)
  | c :: r =>
    if trims ∧ isSpace c then readBasicLines true r
    else if isTextChar c then more (some c) (readBasicLines false r) else none

def readLiteralLines : List Char → Option (List Char × List Char)
  | [] => none
  | '\'' :: '\'' :: '\'' :: '\'' :: '\'' :: r => some (['\'', '\''], r)
  | '\'' :: '\'' :: '\'' :: '\'' :: r => some (['\''], r)
  | '\'' :: '\'' :: '\'' :: r => some ([], r)
  | '\n' :: r => more (some '\n') (readLiteralLines r)
  | '\x0d' :: '\n' :: r => more (some '\n') (readLiteralLines r)
  | c :: r => if isTextChar c then more (some c) (readLiteralLines r) else none

/-- The line break right after the opening quotes does not count. -/
def dropFirstBreak : List Char → List Char
  | '\n' :: r => r
  | '\x0d' :: '\n' :: r => r
  | r => r

def readString : List Char → Option (String × List Char)
  | '"' :: '"' :: '"' :: r => text (readBasicLines false (dropFirstBreak r))
  | '\'' :: '\'' :: '\'' :: r => text (readLiteralLines (dropFirstBreak r))
  | '"' :: r => text (readBasic r)
  | '\'' :: r => text (readLiteral r)
  | _ => none
where
  text (r : Option (List Char × List Char)) : Option (String × List Char) :=
    r.map fun p => (String.ofList p.1, p.2)

end PackageModularity.Toml
