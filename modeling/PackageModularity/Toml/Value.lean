import PackageModularity.Number.Binary64

/-!
Values of a TOML document, and the tables that its lines build up. A table remembers what brought it
in, since that decides which later lines may add to it.
-/
namespace PackageModularity.Toml

inductive Value where
  | string (s : String)
  | integer (n : Int)
  | float (x : Binary64)
  | boolean (b : Bool)
  | moment
  | array (items : List Value)
  | table (entries : List (String × Value))
  deriving Inhabited

/-- A table was written as a header, or came in on the way to a longer header or a dotted key. -/
inductive Origin where
  | header
  | implied
  | dotted
  deriving DecidableEq

inductive Node where
  | value (v : Value)
  | table (origin : Origin) (entries : List (String × Node))
  | tables (elements : List (List (String × Node)))

abbrev Entries := List (String × Node)

def setKey (key : String) (n : Node) : Entries → Entries
  | [] => [(key, n)]
  | (k, m) :: r => if k = key then (k, n) :: r else (k, m) :: setKey key n r

/-- Gives a key of the table at the end of a dotted path its value. Only tables that a dotted key
brought in, or the open table itself, take one. -/
def assign (takes : Bool) (key : String) (v : Value) : List String → Entries → Option Entries
  | [], es => if takes ∧ (es.lookup key).isNone then some (es ++ [(key, .value v)]) else none
  | k :: r, es => do
    let n ← match es.lookup k with
      | none => (assign true key v r []).map (.table .dotted)
      | some (.table .dotted inner) => (assign true key v r inner).map (.table .dotted)
      | some (.table .implied inner) => (assign false key v r inner).map (.table .implied)
      | some (.tables elements) =>
        (assign false key v r (elements.getLastD [])).map fun e =>
          .tables (elements.dropLast ++ [e])
      | some (.table .header _) | some (.value _) => none
    some (setKey k n es)

def within (f : Entries → Option Entries) : List String → Entries → Option Entries
  | [], es => f es
  | k :: r, es => do
    let n ← match es.lookup k with
      | none => (within f r []).map (.table .implied)
      | some (.table origin inner) => (within f r inner).map (.table origin)
      | some (.tables elements) =>
        (within f r (elements.getLastD [])).map fun e => .tables (elements.dropLast ++ [e])
      | some (.value _) => none
    some (setKey k n es)

def openTable (key : String) (es : Entries) : Option Entries :=
  match es.lookup key with
  | none => some (setKey key (.table .header []) es)
  | some (.table .implied inner) => some (setKey key (.table .header inner) es)
  | _ => none

def openElement (key : String) (es : Entries) : Option Entries :=
  match es.lookup key with
  | none => some (setKey key (.tables [[]]) es)
  | some (.tables elements) => some (setKey key (.tables (elements ++ [[]])) es)
  | _ => none

mutual

def Node.toValue : Node → Value
  | .value v => v
  | .table _ es => .table (entryValues es)
  | .tables elements => .array (elementValues elements)

def entryValues : List (String × Node) → List (String × Value)
  | [] => []
  | (k, n) :: r => (k, n.toValue) :: entryValues r

def elementValues : List (List (String × Node)) → List Value
  | [] => []
  | es :: r => .table (entryValues es) :: elementValues r

end

end PackageModularity.Toml
