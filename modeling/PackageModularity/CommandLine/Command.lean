import PackageModularity.Batch.Run
import PackageModularity.Batch.ScoreTable
import PackageModularity.CommandLine.Arguments
import PackageModularity.Project.Run

/-!
What a command does to the files and prints. Failures of the work itself are told in the log and
leave the exit code at zero; only wrong arguments change it.
-/
namespace PackageModularity

structure CommandResult where
  system : FileSystem
  code : Nat
  stdout : List String
  stderr : List String

namespace Command

def project (parse : Parser) (fs : FileSystem) (c : Config) (root output : String) :
    CommandResult :=
  let start := "Scoring project " ++ root
  match Scorer.of c parse with
  | .error e => ⟨fs, 0, [start], [e.message]⟩
  | .ok s =>
    let o := s.run fs root output
    let errors := match o.result with
      | .error e => [e.message ++ " project=" ++ projectName fs root]
      | .ok _ => []
    ⟨o.system, 0, start :: o.lines, errors⟩

def printed (lines : List String) : List UInt8 := lines.flatMap fun l => Utf8.encode (l ++ "\n")

def child (parse : Parser) (arguments : List String) (fs : FileSystem) : Execution :=
  match Arguments.read arguments with
  | .run ⟨.project root, output, _, _, config, _⟩ =>
    match Config.loadOrDefault fs config with
    | .error e => ⟨fs, [], printed [e.message], .exited 0⟩
    | .ok c =>
      let r := project parse fs c root output
      ⟨r.system, printed r.stdout, printed r.stderr, .exited r.code⟩
  | .invalid => ⟨fs, [], [], .exited 2⟩
  | _ => ⟨fs, [], [], .exited 0⟩

def batch (c : Config) (a : Arguments) : Batch :=
  ⟨c, a.config, a.output, a.workers, if a.verbose then ["--verbose"] else []⟩

def dataset (parse : Parser) (fs : FileSystem) (c : Config) (a : Arguments) (path : String) :
    Batch.Outcome :=
  (batch c a).run (fun _ arguments fs => child parse arguments fs) fs path

def withLogFolder (fs : FileSystem) (a : Arguments) : FileSystem :=
  match a.mode with
  | .dataset _ =>
    match fs.makeFolders (Path.ofText a.logs) with
    | .ok fs => fs
    | .error _ => fs
  | _ => fs

def logText (l : LogLine) : String :=
  l.text ++ if l.project = "" then "" else " project=" ++ l.project

/-- The lines of a batch, ended by the projects that have no score. -/
def batchLines (o : Batch.Outcome) : List String :=
  o.log.map logText ++
    match o.result with
    | .ok r => r.failed.map ("Not scored: " ++ ·)
    | .error e => [e.message, "complete preprocessing all projects: nothing scored"]

def collectedLines (output : String) (scores : ScoreTable) : List String :=
  let path := Path.joinText output ScoreTable.fileName
  let count := scores.values.foldr (fun d n => d.size + n) 0
  ["Collected " ++ toString count ++ " score(s) into " ++ path,
    toString scores.size ++ " data type(s) written to " ++ path]

def perform (parse : Parser) (fs : FileSystem) (a : Arguments) : CommandResult :=
  let fs := withLogFolder fs a
  match Config.loadOrDefault fs a.config with
  | .error e => ⟨fs, 0, [], [e.message]⟩
  | .ok c =>
    match a.mode with
    | .project root => project parse fs c root a.output
    | .dataset path =>
      let o := dataset parse fs c a path
      ⟨o.system, 0, batchLines o, []⟩
    | .collect =>
      match ScoreTable.write fs a.output c.scoreExtension with
      | .error e => ⟨fs, 0, [e.message], []⟩
      | .ok (fs, found) => ⟨fs, 0, found.warnings ++ collectedLines a.output found.scores, []⟩

def run (parse : Parser) (fs : FileSystem) (arguments : List String) : CommandResult :=
  match Arguments.read arguments with
  | .help => ⟨fs, 0, [], []⟩
  | .invalid => ⟨fs, 2, [], []⟩
  | .run a => perform parse fs a

end Command

end PackageModularity
