import PackageModularity.CommandLine.Command
import PackageModularity.Source.TreeRows

/-!
The program. Standard input names the files it may see, one path a line. The syntax tree of a source
file lies beside it, in a file with `.tree` at the end of its name; a file without one cannot be
read. Files that a command has changed are written back.
-/
namespace PackageModularity

abbrev Contents := List (List String × List UInt8)

namespace Contents

/-- The files that are there. Relative paths start at the working folder. -/
def load (here : String) (paths : List String) : IO Contents :=
  paths.filterMapM fun path => do
    let path := Path.joinText here path
    try return some ((Path.ofText path).names, (← IO.FS.readBinFile path).toList)
    catch _ => return none

def system (files : Contents) (here : String) : FileSystem :=
  let working := (Path.ofText here).names
  let bare := Entry.set (some (.folder [])) working (.folder [])
  ⟨files.foldl (fun root f => root.set (some (.file f.2)) f.1) bare, working⟩

def treeNames (names : List String) : List String :=
  names.dropLast ++ [names.getLastD "" ++ ".tree"]

def trees (files : Contents) : List (String × SyntaxTree) :=
  files.filterMap fun f => do
    let text ← Utf8.decode? f.2
    let rows ← Utf8.decode? (← files.lookup (treeNames f.1))
    some (text, ← SyntaxTree.ofRows? text (← SyntaxTree.rows? rows))

def parser (files : Contents) : Parser := fun text => files.trees.lookup text

def pathOf (names : List String) : String := "/" ++ joinWith "/" names

def store (old new : Contents) : IO Unit := do
  for (names, _) in old do
    unless (new.lookup names).isSome do IO.FS.removeFile (pathOf names)
  for (names, bytes) in new do
    unless old.lookup names == some bytes do
      IO.FS.createDirAll (pathOf names.dropLast)
      IO.FS.writeBinFile (pathOf names) ⟨bytes.toArray⟩

end Contents

/-- The lines of a stream up to its end. -/
partial def linesOf (input : IO.FS.Stream) (seen : List String) : IO (List String) := do
  let line ← input.getLine
  if line.isEmpty then return seen.reverse
  linesOf input (String.ofList (line.toList.filter (· ≠ '\n')) :: seen)

end PackageModularity

open PackageModularity in
def main (arguments : List String) : IO UInt32 := do
  let here := (← IO.currentDir).toString
  let files ← Contents.load here (← linesOf (← IO.getStdin) [])
  let r := Command.run files.parser (files.system here) arguments
  for line in r.stdout do IO.println line
  for line in r.stderr do IO.eprintln line
  files.store r.system.root.files
  return UInt32.ofNat r.code
