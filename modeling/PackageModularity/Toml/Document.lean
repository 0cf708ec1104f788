import PackageModularity.Toml.Scalar
import PackageModularity.Toml.Quotation

/-!
Reading a TOML document, line by line into the tables that it builds up. Values and keys nest less
than eighty levels deep.
-/
namespace PackageModularity.Toml

def depthLimit : Nat := 80

def skipSpaces (cs : List Char) : List Char := cs.dropWhile isSpace

def skipComment : List Char → Option (List Char)
  | '#' :: r =>
    let rest := r.dropWhile isTextChar
    if rest = [] ∨ startsLine rest then some rest else none
  | cs => some cs

def endLine (cs : List Char) : Option (List Char) := do
  let rest ← skipComment (skipSpaces cs)
  if rest = [] then some [] else if startsLine rest then some (dropFirstBreak rest) else none

def isKeyChar (c : Char) : Bool := c.isAlphanum || c = '_' || c = '-'

def readSimpleKey : List Char → Option (String × List Char)
  | '"' :: r => (readBasic r).map fun p => (String.ofList p.1, p.2)
  | '\'' :: r => (readLiteral r).map fun p => (String.ofList p.1, p.2)
  | cs =>
    let key := cs.takeWhile isKeyChar
    if key = [] then none else some (String.ofList key, cs.dropWhile isKeyChar)

def readKeySegments : Nat → List Char → Option (List String × List Char)
  | 0, _ => none
  | fuel + 1, cs => do
    let (key, rest) ← readSimpleKey (skipSpaces cs)
    match skipSpaces rest with
    | '.' :: r => do
      let (keys, rest) ← readKeySegments fuel r
      some (key :: keys, rest)
    | rest => some ([key], rest)

def readKey (cs : List Char) : Option (List String × List Char) :=
  readKeySegments (depthLimit - 1) cs

def skipBetween : Nat → List Char → Option (List Char)
  | 0, cs => some cs
  | fuel + 1, cs =>
    match skipSpaces cs with
    | '#' :: r => do skipBetween fuel (← skipComment ('#' :: r))
    | rest => if startsLine rest then skipBetween fuel (dropFirstBreak rest) else some rest

mutual

def readValue : Nat → Nat → List Char → Option (Value × List Char)
  | 0, _, _ => none
  | fuel + 1, depth, cs =>
    match cs with
    | '"' :: _ | '\'' :: _ => (readString cs).map fun p => (.string p.1, p.2)
    | '[' :: r =>
      if depthLimit ≤ depth + 1 then none
      else (readItems fuel (depth + 1) r).map fun p => (.array p.1, p.2)
    | '\x7b' :: r =>
      if depthLimit ≤ depth + 1 then none
      else match skipSpaces r with
        | '\x7d' :: r => some (.table [], r)
        | r => (readPairs fuel (depth + 1) [] r).map fun p => (.table (entryValues p.1), p.2)
    | _ => readWord cs

/-- The items of an array up to its closing bracket. A comma may follow the last one. -/
def readItems : Nat → Nat → List Char → Option (List Value × List Char)
  | 0, _, _ => none
  | fuel + 1, depth, cs => do
    match ← skipBetween cs.length cs with
    | ']' :: r => some ([], r)
    | cs => do
      let (v, rest) ← readValue fuel depth cs
      match ← skipBetween rest.length rest with
      | ',' :: r => do
        let (vs, rest) ← readItems fuel depth r
        some (v :: vs, rest)
      | ']' :: r => some ([v], r)
      | _ => none

/-- The pairs of a table in braces, which stands on one line. -/
def readPairs : Nat → Nat → Entries → List Char → Option (Entries × List Char)
  | 0, _, _, _ => none
  | fuel + 1, depth, es, cs => do
    let (keys, rest) ← readKey cs
    match rest with
    | '=' :: r => do
      let (v, rest) ← readValue fuel depth (skipSpaces r)
      let es ← assign true (keys.getLastD "") v keys.dropLast es
      match skipSpaces rest with
      | ',' :: r => readPairs fuel depth es r
      | '\x7d' :: r => some (es, r)
      | _ => none
    | _ => none

end

/-- A document in the course of reading, with the path of the table that lines now add to. -/
structure Draft where
  entries : Entries
  header : List String

def Draft.pair (d : Draft) (keys : List String) (v : Value) : Option Draft := do
  let es ← within (assign true (keys.getLastD "") v keys.dropLast) d.header d.entries
  some { d with entries := es }

def Draft.table (d : Draft) (keys : List String) (element : Bool) : Option Draft := do
  let key := keys.getLastD ""
  let es ← within (if element then openElement key else openTable key) keys.dropLast d.entries
  some ⟨es, keys⟩

def readHeader (d : Draft) (element : Bool) (cs : List Char) : Option (Draft × List Char) := do
  let (keys, rest) ← readKey cs
  let rest ← match element, rest with
    | true, ']' :: ']' :: r => some r
    | false, ']' :: r => some r
    | _, _ => none
  some (← d.table keys element, ← endLine rest)

def readPair (d : Draft) (cs : List Char) : Option (Draft × List Char) := do
  let (keys, rest) ← readKey cs
  match rest with
  | '=' :: r => do
    let (v, rest) ← readValue (2 * r.length + 2) 0 (skipSpaces r)
    some (← d.pair keys v, ← endLine rest)
  | _ => none

def readLines : Nat → Draft → List Char → Option Draft
  | 0, d, cs => if skipSpaces cs = [] then some d else none
  | fuel + 1, d, cs =>
    match skipSpaces cs with
    | [] => some d
    | '#' :: r => do readLines fuel d (← endLine ('#' :: r))
    | '[' :: '[' :: r => do
      let (d, rest) ← readHeader d true r
      readLines fuel d rest
    | '[' :: r => do
      let (d, rest) ← readHeader d false r
      readLines fuel d rest
    | rest =>
      if startsLine rest then readLines fuel d (dropFirstBreak rest)
      else do
        let (d, rest) ← readPair d rest
        readLines fuel d rest

def dropByteOrderMark : List Char → List Char
  | '\uFEFF' :: r => r
  | r => r

/-- The entries of a document, if it is one. -/
def read (text : String) : Option (List (String × Value)) := do
  let cs := dropByteOrderMark text.toList
  let d ← readLines (cs.length + 1) ⟨[], []⟩ cs
  some (entryValues d.entries)

end PackageModularity.Toml
