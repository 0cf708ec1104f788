import PackageModularity.Batch.ChildProcess
import PackageModularity.Batch.Dataset
import PackageModularity.Package.Config

/-!
Scoring every project of a dataset, each in a child process. Score files of earlier runs are removed
first. A project succeeds if its child ends well and its score file is there afterwards.
-/
namespace PackageModularity

structure BatchReport where
  succeeded : List String
  failed : List String
  deriving DecidableEq, Repr

def BatchReport.total (r : BatchReport) : Nat := r.succeeded.length + r.failed.length

/-- What a batch is run with. The arguments stand before those of each project. -/
structure Batch where
  config : Config
  configPath : Option String
  output : String
  workers : Nat
  arguments : List String

namespace Batch

abbrev Program := ProjectEntry → List String → FileSystem → Execution

variable (b : Batch)

/-- One child at least may run at a time. -/
def slots : Nat := max 1 b.workers

def limit : Option Nat :=
  if b.config.timeoutSecs = 0 then none else some (b.config.timeoutSecs * 1000000)

def folderOf (p : ProjectEntry) : String := Path.joinText b.output p.dataType

def scoreFile (p : ProjectEntry) : String :=
  Path.joinText (b.folderOf p) (b.config.scoreFileName p.name)

def argumentsFor (p : ProjectEntry) : List String :=
  b.arguments ++ ["--project", p.path, "--output_dir", b.folderOf p] ++
    (match b.configPath with
    | some path => ["--config", path]
    | none => [])

structure State where
  system : FileSystem
  log : List LogLine

def State.say (s : State) (level : Level) (project text : String) : State :=
  { s with log := s.log ++ [⟨level, project, text⟩] }

/-- Makes the folder of a project's score and removes an old score. `false` if that folder cannot
be made. -/
def prepare (s : State) (p : ProjectEntry) : State × Bool :=
  match s.system.makeFolders (Path.ofText (b.folderOf p)) with
  | .error why =>
    (s.say .error p.id ("Failed to create " ++ b.folderOf p ++ ": " ++ why.message), false)
  | .ok fs =>
    let s := { s with system := fs }
    match fs.removeFile (Path.ofText (b.scoreFile p)) with
    | .ok fs => ({ s with system := fs }, true)
    | .error why =>
      if why = .missing then (s, true)
      else
        (s.say .warn p.id
          ("Failed to remove stale " ++ b.scoreFile p ++ ": " ++ why.message), true)

def prepareAll (s : State) : List ProjectEntry → State × List ProjectEntry × List ProjectEntry
  | [] => (s, [], [])
  | p :: r =>
    let (s, ready) := b.prepare s p
    let (s, started, refused) := prepareAll s r
    if ready then (s, p :: started, refused) else (s, started, p :: refused)

structure Started where
  project : ProjectEntry
  arguments : List String
  ending : Ending

def start (program : Program) (s : State) (p : ProjectEntry) : State × Started :=
  let e := program p (b.argumentsFor p) s.system
  (⟨e.system, s.log ++ e.log p.id⟩, ⟨p, b.argumentsFor p, e.ending⟩)

def startAll (program : Program) (s : State) : List ProjectEntry → State × List Started
  | [] => (s, [])
  | p :: r =>
    let (s, c) := b.start program s p
    let (s, cs) := startAll program s r
    (s, c :: cs)

def failure? (fs : FileSystem) (c : Started) : Option (Level × String) :=
  match c.ending.error? with
  | some text => some (.error, text)
  | none =>
    if fs.isFile (Path.ofText (b.scoreFile c.project)) then none
    else some (.warn, "Finished without writing a score")

def conclude (s : State) (r : BatchReport) : List Started → State × BatchReport
  | [] => (s, r)
  | c :: cs =>
    match b.failure? s.system c with
    | none => conclude s { r with succeeded := r.succeeded ++ [c.project.id] } cs
    | some (level, text) =>
      conclude (s.say level c.project.id text) { r with failed := r.failed ++ [c.project.id] } cs

structure Outcome where
  system : FileSystem
  log : List LogLine
  started : List Started
  result : Except DatasetError BatchReport

def scoring (dataset : String) (count : Nat) : String :=
  "Scoring " ++ toString count ++ " project(s) in " ++ dataset ++ " with " ++
    toString b.slots ++ " worker(s)"

def completion (r : BatchReport) : String :=
  "complete preprocessing all projects: " ++ toString r.succeeded.length ++ " scored, " ++
    toString r.failed.length ++ " failed"

def runProjects (program : Program) (s : State) (projects : List ProjectEntry) :
    State × List Started × BatchReport :=
  let (s, ready, refused) := b.prepareAll s projects
  let (s, started) := b.startAll program s ready
  let (s, r) := b.conclude s ⟨[], refused.map ProjectEntry.id⟩ started
  (s, started, r)

def run (program : Program) (fs : FileSystem) (dataset : String) : Outcome :=
  match Dataset.projects fs dataset with
  | .error e => ⟨fs, [], [], .error e⟩
  | .ok groups =>
    let projects := groups.flatMap (·.2)
    let s : State := ⟨fs, [⟨.info, "", b.scoring dataset projects.length⟩]⟩
    let (s, started, r) := b.runProjects program s projects
    let s := s.say .info "" (completion r)
    ⟨s.system, s.log, started, .ok r⟩

end Batch

end PackageModularity
