import PackageModularity.Resolution.UnitEdges
import PackageModularity.Source.Reading

/-!
A project's source files read into units, and the edges between its packages. A file that is no
text, has syntax errors or is of no readable kind is a miss and gives no unit.
-/
namespace PackageModularity

abbrev Parser := String → Option SyntaxTree

structure ParseStats where
  files : Nat
  parsed : Nat
  misses : Nat
  deriving DecidableEq, Repr

namespace ParseStats

def hit (s : ParseStats) : ParseStats := { s with parsed := s.parsed + 1 }

def miss (s : ParseStats) : ParseStats := { s with misses := s.misses + 1 }

end ParseStats

structure ParseRequest where
  path : Path
  text : String

structure ParseQueue where
  requests : List ParseRequest
  stats : ParseStats

/-- A file that is no text is a miss. -/
def ParseQueue.add (root : Path) (q : ParseQueue) (file : List String × List UInt8) : ParseQueue :=
  match Utf8.decode? file.2 with
  | some text => { q with requests := q.requests ++ [⟨root.append file.1, text⟩] }
  | none => { q with stats := q.stats.miss }

/-- One answer for every request, in the same order. -/
def Parser.answers (parse : Parser) (requests : List ParseRequest) :
    List (Path × Option SyntaxTree) :=
  requests.map fun r => (r.path, parse r.text)

structure ParsedUnits where
  units : List SourceUnit
  stats : ParseStats

/-- A text with syntax errors is a miss, and so is a file of no readable kind. -/
def ParsedUnits.add (u : ParsedUnits) (answer : Path × Option SyntaxTree) : ParsedUnits :=
  match answer.2 with
  | none => { u with stats := u.stats.miss }
  | some tree =>
    if isReadable answer.1 then
      ⟨u.units ++ [SourceUnit.ofTree defaultMaxDepth answer.1 tree], u.stats.hit⟩
    else { u with stats := u.stats.miss }

structure ProjectIndex where
  registry : Registry
  units : List SourceUnit
  table : TypeTable
  stats : ParseStats

namespace ProjectIndex

/-- Reads every file first, then takes the answers of the parser. -/
def ofFiles (parse : Parser) (r : Registry) (files : List (List String × List UInt8)) :
    ProjectIndex :=
  let queue := files.foldl (ParseQueue.add r.root) ⟨[], ⟨files.length, 0, 0⟩⟩
  let parsed := (parse.answers queue.requests).foldl ParsedUnits.add ⟨[], queue.stats⟩
  ⟨r, parsed.units, TypeTable.ofUnits parsed.units, parsed.stats⟩

def of (parse : Parser) (fs : FileSystem) (c : Config) (filter : SourceFilter) (root : String) :
    Except ScoreError ProjectIndex := do
  let (r, files) ← Registry.discover fs root c filter
  .ok (ofFiles parse r files)

def unitEdges (c : Config) (i : ProjectIndex) (u : SourceUnit) : List Edge :=
  i.registry.edgesOf c.sourcePackage i.table.resolve u

def edges (c : Config) (i : ProjectIndex) : EdgeMultiset :=
  EdgeMultiset.ofList (i.units.flatMap (i.unitEdges c))

def score (c : Config) (i : ProjectIndex) : Except ScoreError Modularity :=
  Modularity.of i.registry.packages (i.edges c)

end ProjectIndex

end PackageModularity
