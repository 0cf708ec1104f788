import PackageModularity.Files.FileSystem
import PackageModularity.Project.Log

/-! Child processes: what they print, how they end, and the log lines that come of it. -/
namespace PackageModularity

inductive Ending where
  | exited (status : Nat)
  | signalled (number : Nat)
  | timedOut (micros : Nat)
  | notStarted (why : Fault)
  deriving DecidableEq, Repr

def durationText (micros : Nat) : String :=
  let decimal (whole part width : Nat) : String :=
    let digits := (toString (Nat.pow 10 width + part)).toList.tail
    let kept := (digits.reverse.dropWhile (· = '0')).reverse
    toString whole ++ (if kept = [] then "" else "." ++ String.ofList kept)
  if micros = 0 then "0ns"
  else if micros < 1000 then toString micros ++ "µs"
  else if micros < 1000000 then decimal (micros / 1000) (micros % 1000) 3 ++ "ms"
  else decimal (micros / 1000000) (micros % 1000000) 6 ++ "s"

def signalNames : List String :=
  ["HUP", "INT", "QUIT", "ILL", "TRAP", "ABRT", "BUS", "FPE", "KILL", "USR1", "SEGV", "USR2",
    "PIPE", "ALRM", "TERM", "STKFLT", "CHLD", "CONT", "STOP", "TSTP", "TTIN", "TTOU", "URG",
    "XCPU", "XFSZ", "VTALRM", "PROF", "WINCH", "IO", "PWR", "SYS"]

def signalText (number : Nat) : String :=
  match number with
  | 0 => "0"
  | n + 1 =>
    match signalNames[n]? with
    | some name => toString number ++ " (SIG" ++ name ++ ")"
    | none => toString number

namespace Ending

def error? : Ending → Option String
  | .exited 0 => none
  | .exited status =>
    some ("child process terminated abnormally (exit status: " ++ toString status ++ ")")
  | .signalled number =>
    some ("child process terminated abnormally (signal: " ++ signalText number ++ ")")
  | .timedOut micros => some ("child process killed after " ++ durationText micros)
  | .notStarted why => some ("failed to start child process: " ++ why.message)

def isSuccess (e : Ending) : Bool := e.error?.isNone

end Ending

/-- A finished child: the files as it left them, what it printed and how it ended. -/
structure Execution where
  system : FileSystem
  stdout : List UInt8
  stderr : List UInt8
  ending : Ending

namespace Output

def lineFeed : UInt8 := 0x0A

/-- The complete lines of some bytes, without their line feeds, and the rest. -/
def split : List UInt8 → List (List UInt8) × List UInt8
  | [] => ([], [])
  | b :: r =>
    let (whole, rest) := split r
    if b = lineFeed then ([] :: whole, rest)
    else match whole with
      | [] => ([], b :: rest)
      | l :: ls => ((b :: l) :: ls, rest)

/-- A line as it is logged: decoded, without the carriage returns at its end. -/
def shown (line : List UInt8) : String :=
  String.ofList
    ((Utf8.decodeLossy line).toList.reverse.dropWhile fun c => c = '\x0D' ∨ c = '\n').reverse

def lines (bytes : List UInt8) : List String :=
  let (whole, rest) := split bytes
  (whole ++ if rest = [] then [] else [rest]).map shown

def completeLines (bytes : List UInt8) : List String := (split bytes).1.map shown

def logged (project : String) (lines : List UInt8 → List String) (stdout stderr : List UInt8) :
    List LogLine :=
  (lines stdout).map (⟨.info, project, ·⟩) ++ (lines stderr).map (⟨.error, project, ·⟩)

end Output

/-- What a child's output puts into the log. One that is killed leaves its last line unlogged. -/
def Execution.log (e : Execution) (project : String) : List LogLine :=
  match e.ending with
  | .notStarted _ => []
  | .timedOut _ => Output.logged project Output.completeLines e.stdout e.stderr
  | _ => Output.logged project Output.lines e.stdout e.stderr

/-- What a child does if it is left alone: it prints, takes its time, writes a score file, sends
itself a signal and exits. -/
structure ChildProcess where
  stdout : List UInt8
  stderr : List UInt8
  micros : Nat
  score : Option String
  signal : Option Nat
  status : Nat

namespace ChildProcess

instance : Inhabited ChildProcess := ⟨⟨[], [], 0, none, none, 0⟩⟩

/-- Signals that do nothing to a process that does not ask for them. -/
def isHarmless (signal : Nat) : Bool := [0, 17, 18, 23, 28].contains signal

def ending (p : ChildProcess) : Ending :=
  match p.signal with
  | some n => if isHarmless n then .exited (p.status % 256) else .signalled n
  | none => .exited (p.status % 256)

def write (p : ChildProcess) (fs : FileSystem) (scoreFile : String) : FileSystem :=
  match p.score with
  | none => fs
  | some text =>
    match fs.writeText (Path.ofText scoreFile) text with
    | .ok fs => fs
    | .error _ => fs

def execute (p : ChildProcess) (limit : Option Nat) (fs : FileSystem) (scoreFile : String) :
    Execution :=
  let done : Execution := ⟨p.write fs scoreFile, p.stdout, p.stderr, p.ending⟩
  match limit with
  | some limit => if limit ≤ p.micros then ⟨fs, p.stdout, p.stderr, .timedOut limit⟩ else done
  | none => done

end ChildProcess

end PackageModularity
