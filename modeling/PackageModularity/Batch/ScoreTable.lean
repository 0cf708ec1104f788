import PackageModularity.Dict
import PackageModularity.Files.FileSystem
import PackageModularity.Number.Notation
import PackageModularity.Text.Blank
import PackageModularity.Text.Quoted

/-! The scores of a batch, collected from its files and written as one JSON document. -/
namespace PackageModularity

/-- Scores by data type and project. -/
abbrev ScoreTable := Dict String (Dict String Binary64)

inductive ScoreFault where
  | unreadable (why : Fault)
  | notNumber (text : String) (why : Decimal.ReadError)
  | notFinite (x : Binary64)
  deriving DecidableEq, Repr

def ScoreFault.message : ScoreFault → String
  | .unreadable why => why.message
  | .notNumber text why => "not a number: " ++ Quoted.quote text ++ ": " ++ why.message
  | .notFinite x => "not a finite score: " ++ Layout.plain.write x

inductive CollectError where
  | unreadable (path : String) (why : Fault)
  | unwritable (path : String) (why : Fault)
  deriving DecidableEq, Repr

def CollectError.message : CollectError → String
  | .unreadable path why => "failed to read " ++ path ++ ": " ++ why.message
  | .unwritable path why => "failed to write " ++ path ++ ": " ++ why.message

namespace ScoreTable

def scoreOf (text : String) : Except ScoreFault Binary64 :=
  let number := trimBlanks text
  match Decimal.read number with
  | .error why => .error (.notNumber number why)
  | .ok x => if x.isFinite then .ok x else .error (.notFinite x)

def readScore (fs : FileSystem) (path : String) : Except ScoreFault Binary64 :=
  match fs.readText (Path.ofText path) with
  | .error why => .error (.unreadable why)
  | .ok text => scoreOf text

def project? (fs : FileSystem) (extension folder name : String) : Option String :=
  let f := FileName.ofText name
  if f.extension = some extension ∧ fs.isFile (Path.ofText (Path.joinText folder name)) then
    some f.stem
  else none

structure Found (α : Type) where
  scores : Dict String α
  warnings : List String

def addEntry (fs : FileSystem) (extension folder : String) (f : Found Binary64)
    (name : String) : Found Binary64 :=
  match project? fs extension folder name with
  | none => f
  | some project =>
    let path := Path.joinText folder name
    match readScore fs path with
    | .ok x => { f with scores := f.scores.insert project x }
    | .error why =>
      { f with warnings := f.warnings ++ ["Skipping " ++ path ++ ": " ++ why.message] }

def addGroup (fs : FileSystem) (output extension : String) (f : Found (Dict String Binary64))
    (group : String × Entry) : Found (Dict String Binary64) :=
  match group.2 with
  | .folder children =>
    let folder := Path.joinText output group.1
    let g := (children.map (·.1)).foldl (addEntry fs extension folder) ⟨Dict.empty, []⟩
    let warnings := f.warnings ++ g.warnings
    if g.scores.size = 0 then ⟨f.scores, warnings⟩ else ⟨f.scores.insert group.1 g.scores, warnings⟩
  | _ => f

def collect (fs : FileSystem) (output extension : String) :
    Except CollectError (Found (Dict String Binary64)) :=
  match fs.list (Path.ofText output) with
  | .error why => .error (.unreadable output why)
  | .ok groups => .ok (groups.foldl (addGroup fs output extension) ⟨Dict.empty, []⟩)

def fileName : String := "q_values.json"

def hexDigit (n : Nat) : Char := (Nat.toDigits 16 n).headD '0'

def escape (c : Char) : List Char :=
  if c = '"' then ['\\', '"']
  else if c = '\\' then ['\\', '\\']
  else if c = '\x08' then ['\\', 'b']
  else if c = '\x0c' then ['\\', 'f']
  else if c = '\n' then ['\\', 'n']
  else if c = '\x0d' then ['\\', 'r']
  else if c = '\t' then ['\\', 't']
  else if c.toNat < 0x20 then
    ['\\', 'u', '0', '0', hexDigit (c.toNat / 16), hexDigit (c.toNat % 16)]
  else [c]

def jsonText (s : String) : String :=
  String.ofList (['"'] ++ s.toList.flatMap escape ++ ['"'])

/-- An object with one member a line, indented by so many blanks. -/
def jsonObject (indent : Nat) (members : List (String × String)) : String :=
  let blanks (n : Nat) := String.ofList (List.replicate n ' ')
  if members = [] then "\x7b\x7d"
  else
    "\x7b\n" ++
      joinWith ",\n" (members.map fun m => blanks (indent + 2) ++ jsonText m.1 ++ ": " ++ m.2) ++
      "\n" ++ blanks indent ++ "\x7d"

def document (t : ScoreTable) : String :=
  jsonObject 0 (t.toList.map fun g =>
    (g.1, jsonObject 2 (g.2.toList.map fun p => (p.1, Layout.document.write p.2))))

def write (fs : FileSystem) (output extension : String) :
    Except CollectError (FileSystem × Found (Dict String Binary64)) := do
  let found ← collect fs output extension
  let path := Path.joinText output fileName
  match fs.writeText (Path.ofText path) (document found.scores) with
  | .error why => .error (.unwritable path why)
  | .ok fs => .ok (fs, found)

end ScoreTable

end PackageModularity
