/-!
Arguments of the command line. They are read from left to right and the first fault ends the
reading, so a request for help counts if nothing before it was wrong.
-/
namespace PackageModularity

inductive Mode where
  | project (path : String)
  | dataset (path : String)
  | collect
  deriving DecidableEq, Repr

structure Arguments where
  mode : Mode
  output : String
  logs : String
  workers : Nat
  config : Option String
  verbose : Bool
  deriving DecidableEq, Repr

inductive Invocation where
  | help
  | invalid
  | run (a : Arguments)
  deriving DecidableEq, Repr

namespace Arguments

structure Seen where
  project : Option String
  dataset : Option String
  output : Option String
  logs : Option String
  workers : Option Nat
  config : Option String
  collect : Bool
  verbose : Bool

def nothing : Seen := ⟨none, none, none, none, none, none, false, false⟩

def once : Option α → α → Option (Option α)
  | none, v => some (some v)
  | some _, _ => none

def path? (old : Option String) (value : String) : Option (Option String) :=
  if value = "" then none else once old value

def size? (value : String) : Option Nat :=
  let digits : List Char := match value.toList with
    | '+' :: r => r
    | r => r
  let n := digits.foldl (fun n c => 10 * n + (c.toNat - '0'.toNat)) 0
  if digits ≠ [] ∧ digits.all Char.isDigit ∧ n < Nat.pow 2 64 then some n else none

def option? (s : Seen) (name value : String) : Option Seen :=
  match name with
  | "project" => (path? s.project value).map fun v => { s with project := v }
  | "dataset" => (path? s.dataset value).map fun v => { s with dataset := v }
  | "output_dir" => (path? s.output value).map fun v => { s with output := v }
  | "log_dir" => (path? s.logs value).map fun v => { s with logs := v }
  | "config" => (path? s.config value).map fun v => { s with config := v }
  | "num_workers" => do
    let n ← size? value
    (once s.workers n).map fun v => { s with workers := v }
  | _ => none

def takesValue (name : String) : Bool :=
  ["project", "dataset", "output_dir", "log_dir", "config", "num_workers"].contains name

def flag? (s : Seen) : String → Option Seen
  | "collect" => if s.collect then none else some { s with collect := true }
  | "verbose" => if s.verbose then none else some { s with verbose := true }
  | _ => none

def finish (s : Seen) : Invocation :=
  let run (mode : Mode) : Invocation :=
    .run ⟨mode, s.output.getD "./output", s.logs.getD "./logs", s.workers.getD 1, s.config,
      s.verbose⟩
  match s.project, s.dataset, s.collect with
  | some path, none, false => run (.project path)
  | none, some path, false => run (.dataset path)
  | none, none, true => run .collect
  | _, _, _ => .invalid

/-- The single-letter options of one argument: what they set, unless one of them asks for help. -/
def letters (s : Seen) : List Char → Except Invocation Seen
  | [] => .ok s
  | 'v' :: r =>
    match flag? s "verbose" with
    | some s => letters s r
    | none => .error .invalid
  | 'h' :: _ => .error .help
  | _ :: _ => .error .invalid

/-- An argument that can be the value of the option before it. -/
def isValue (argument : String) : Bool :=
  match argument.toList with
  | '-' :: _ :: _ => false
  | _ => true

def readFrom (s : Seen) : List String → Invocation
  | [] => finish s
  | a :: rest =>
    match a.toList with
    | ['-', '-'] => if rest = [] then finish s else .invalid
    | '-' :: '-' :: long =>
      let name := String.ofList (long.takeWhile (· ≠ '='))
      match long.dropWhile (· ≠ '=') with
      | _ :: value =>
        match option? s name (String.ofList value) with
        | some s => readFrom s rest
        | none => .invalid
      | [] =>
        if name = "help" then .help
        else if takesValue name then
          match rest with
          | value :: rest =>
            if isValue value then
              match option? s name value with
              | some s => readFrom s rest
              | none => .invalid
            else .invalid
          | [] => .invalid
        else match flag? s name with
          | some s => readFrom s rest
          | none => .invalid
    | '-' :: c :: r =>
      match letters s (c :: r) with
      | .ok s => readFrom s rest
      | .error i => i
    | _ => .invalid

def read (arguments : List String) : Invocation := readFrom nothing arguments

end Arguments

end PackageModularity
