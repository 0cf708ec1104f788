import PackageModularity.Number.Notation
import PackageModularity.Project.Index
import PackageModularity.Project.Log

/-! Scoring one project and writing its score file. -/
namespace PackageModularity

inductive RunError where
  | score (project : String) (why : ScoreError)
  | create (folder : String) (why : Fault)
  | write (path : String) (why : Fault)
  deriving DecidableEq, Repr

def RunError.message : RunError → String
  | .score project why => "failed to score project " ++ project ++ ": " ++ why.message
  | .create folder why => "failed to create " ++ folder ++ ": " ++ why.message
  | .write path why => "failed to write " ++ path ++ ": " ++ why.message

def projectName (fs : FileSystem) (root : String) : String :=
  let p := Path.ofText root
  match p.fileName? with
  | some name => name
  | none =>
    match fs.entry p, fs.locate p with
    | .ok _, .ok names => names.getLastD root
    | _, _ => root

structure Scorer where
  config : Config
  filter : SourceFilter
  parse : Parser

namespace Scorer

def of (c : Config) (parse : Parser) : Except ConfigError Scorer := do
  .ok ⟨c, ← SourceFilter.ofConfig c, parse⟩

def index (s : Scorer) (fs : FileSystem) (root : String) : Except ScoreError ProjectIndex :=
  ProjectIndex.of s.parse fs s.config s.filter root

def summary (root : String) (i : ProjectIndex) (edges : EdgeMultiset) : String :=
  root ++ ": " ++ toString i.stats.files ++ " file(s), " ++ toString i.stats.misses ++
    " parse miss(es), " ++ toString i.registry.size ++ " package(s), " ++ toString edges.total ++
    " edge(s)"

/-- A project's score, and the line that sums the project up if it could be read. -/
def score (s : Scorer) (fs : FileSystem) (root : String) :
    List String × Except ScoreError Modularity :=
  match s.index fs root with
  | .error e => ([], .error e)
  | .ok i => ([summary root i (i.edges s.config)], i.score s.config)

def scoreText (m : Modularity) : String := Layout.plain.write m.q

structure Outcome where
  system : FileSystem
  lines : List String
  result : Except RunError String

/-- Writes the score into a folder, which is made if it is missing. Gives the name of the file. -/
def writeScore (s : Scorer) (fs : FileSystem) (name output : String) (m : Modularity) :
    FileSystem × Except RunError String :=
  match fs.makeFolders (Path.ofText output) with
  | .error e => (fs, .error (.create output e))
  | .ok fs =>
    let file := s.config.scoreFileName name
    let path := Path.joinText output file
    match fs.writeText (Path.ofText path) (scoreText m) with
    | .error e => (fs, .error (.write path e))
    | .ok fs => (fs, .ok file)

def run (s : Scorer) (fs : FileSystem) (root output : String) : Outcome :=
  let name := projectName fs root
  let (lines, scored) := s.score fs root
  match scored with
  | .error e => ⟨fs, lines, .error (.score name e)⟩
  | .ok m =>
    match s.writeScore fs name output m with
    | (fs, .error e) => ⟨fs, lines, .error e⟩
    | (fs, .ok file) => ⟨fs, lines ++ ["Q = " ++ scoreText m ++ " for " ++ name], .ok file⟩

end Scorer

end PackageModularity
