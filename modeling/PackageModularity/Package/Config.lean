import PackageModularity.Files.FileSystem
import PackageModularity.Files.Pattern
import PackageModularity.Toml.Document

/-! Settings of a scoring run, and how a TOML document gives them. -/
namespace PackageModularity

/-- Which package a file's own references start from: the one that it declares, or the one of the
folder that it lies in. -/
inductive SourcePackage where
  | declared
  | directory
  deriving DecidableEq, Repr

structure Config where
  extensions : List String
  excludeSubstring : String
  packageSeparator : String
  scoreExtension : String
  sourceRoots : List String
  sourcePackage : SourcePackage
  memoryLimitMb : Nat
  timeoutSecs : Nat
  deriving DecidableEq, Repr

inductive ConfigError where
  | unreadable (path : String) (why : Fault)
  | invalid (path : String)
  | pattern (glob : String) (why : PatternError)
  deriving DecidableEq, Repr

def ConfigError.message : ConfigError → String
  | .unreadable path why => "cannot read config " ++ path ++ ": " ++ why.message
  | .invalid path => "invalid config " ++ path
  | .pattern glob why =>
    "invalid source extension pattern: error parsing glob '" ++ glob ++ "': " ++ why.message

namespace Config

def default : Config where
  extensions := ["java"]
  excludeSubstring := "Test"
  packageSeparator := "."
  scoreExtension := "txt"
  sourceRoots := []
  sourcePackage := .declared
  memoryLimitMb := 16384
  timeoutSecs := 0

instance : Inhabited Config := ⟨default⟩

def scoreFileName (c : Config) (project : String) : String := project ++ "." ++ c.scoreExtension

open Toml (Value)

def text? : Value → Option String
  | .string s => some s
  | _ => none

def texts? : Value → Option (List String)
  | .array items => items.mapM text?
  | _ => none

def natural? : Value → Option Nat
  | .integer n => if 0 ≤ n then some n.toNat else none
  | _ => none

def policyNamed? : String → Option SourcePackage
  | "declared" => some .declared
  | "directory" => some .directory
  | _ => none

/-- A policy is its name, or a table whose one key is that name and holds nothing. -/
def policy? : Value → Option SourcePackage
  | .string s => policyNamed? s
  | .table [(s, .array [])] | .table [(s, .table [])] => policyNamed? s
  | _ => none

def field (es : List (String × Value)) (key : String) (read? : Value → Option α) (absent : α) :
    Option α :=
  match es.lookup key with
  | some v => read? v
  | none => some absent

def limits? (c : Config) : Value → Option (Nat × Nat)
  | .table es => do
    let memory ← field es "memory_limit_mb" natural? c.memoryLimitMb
    let timeout ← field es "timeout_secs" natural? c.timeoutSecs
    some (memory, timeout)
  | .array [] => some (c.memoryLimitMb, c.timeoutSecs)
  | .array [m] => do some (← natural? m, c.timeoutSecs)
  | .array (m :: t :: _) => do some (← natural? m, ← natural? t)
  | _ => none

def ofEntries? (es : List (String × Value)) : Option Config := do
  let c := default
  let (memory, timeout) ← field es "isolation" c.limits? (c.memoryLimitMb, c.timeoutSecs)
  some {
    extensions := ← field es "extensions" texts? c.extensions
    excludeSubstring := ← field es "exclude_substring" text? c.excludeSubstring
    packageSeparator := ← field es "package_separator" text? c.packageSeparator
    scoreExtension := ← field es "score_extension" text? c.scoreExtension
    sourceRoots := ← field es "source_roots" texts? c.sourceRoots
    sourcePackage := ← field es "source_package" policy? c.sourcePackage
    memoryLimitMb := memory
    timeoutSecs := timeout }

/-- Reads a TOML document. Keys that name no setting are passed over. -/
def ofToml? (text : String) : Option Config := (Toml.read text).bind ofEntries?

def load (fs : FileSystem) (path : String) : Except ConfigError Config :=
  match fs.readText (Path.ofText path) with
  | .error why => .error (.unreadable path why)
  | .ok text =>
    match ofToml? text with
    | some c => .ok c
    | none => .error (.invalid path)

def loadOrDefault (fs : FileSystem) : Option String → Except ConfigError Config
  | some path => load fs path
  | none => .ok default

end Config

end PackageModularity
