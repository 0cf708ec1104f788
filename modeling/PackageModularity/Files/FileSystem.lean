import PackageModularity.Files.Path
import PackageModularity.Files.Entry
import PackageModularity.Text.Utf8

/-! A tree of files with a working folder: finding, reading, listing, writing and removing. -/
namespace PackageModularity

inductive Fault where
  | missing
  | alreadyThere
  | notFolder
  | isFolder
  | tooManyLinks
  | notText
  | nulInPath
  deriving DecidableEq, Repr

def Fault.message : Fault → String
  | .missing => "No such file or directory (os error 2)"
  | .alreadyThere => "File exists (os error 17)"
  | .notFolder => "Not a directory (os error 20)"
  | .isFolder => "Is a directory (os error 21)"
  | .tooManyLinks => "Too many levels of symbolic links (os error 40)"
  | .notText => "stream did not contain valid UTF-8"
  | .nulInPath => "file name contained an unexpected NUL byte"

structure FileSystem where
  root : Entry
  working : List String

namespace FileSystem

/-- Goes along components from the names of a folder, and at a link on with `jump`. The last name
may lead to nothing. -/
def step (root : Entry) (jump : List String → List Component → Except Fault (List String)) :
    List String → List Component → Except Fault (List String)
  | here, [] => .ok here
  | here, c :: rest =>
    match root.at? here with
    | some (.folder _) =>
      match c with
      | .root => step root jump [] rest
      | .current => step root jump here rest
      | .parent => step root jump here.dropLast rest
      | .name n =>
        match root.at? (here ++ [n]), rest with
        | none, [] => .ok (here ++ [n])
        | none, _ :: _ => .error .missing
        | some (.link target), _ => jump here ((Path.ofText target).components ++ rest)
        | some _, _ => step root jump (here ++ [n]) rest
    | none => .error .missing
    | some _ => .error .notFolder

def follow (root : Entry) : Nat → List String → List Component → Except Fault (List String)
  | 0, _, _ => .error .tooManyLinks
  | n + 1, here, cs => step root (follow root n) here cs

def locate (fs : FileSystem) (p : Path) : Except Fault (List String) :=
  if p.components = [] then .error .missing
  else if p.hasNul then .error .nulInPath
  else follow fs.root 41 fs.working p.components

/-- The names of a path's last component itself, which may be a link. -/
def locateLast (fs : FileSystem) (p : Path) : Except Fault (List String) :=
  match p.components.getLast? with
  | some (.name n) =>
    if p.hasNul then .error .nulInPath
    else do
      let folder ← follow fs.root 41 fs.working p.components.dropLast
      match fs.root.at? folder with
      | some (.folder _) => .ok (folder ++ [n])
      | some _ => .error .notFolder
      | none => .error .missing
  | _ => fs.locate p

def entry (fs : FileSystem) (p : Path) : Except Fault Entry := do
  match fs.root.at? (← fs.locate p) with
  | some e => .ok e
  | none => .error .missing

def isFolder (fs : FileSystem) (p : Path) : Bool :=
  match fs.entry p with
  | .ok e => e.isFolder
  | .error _ => false

def isFile (fs : FileSystem) (p : Path) : Bool :=
  match fs.entry p with
  | .ok e => e.isFile
  | .error _ => false

def list (fs : FileSystem) (p : Path) : Except Fault (List (String × Entry)) := do
  match ← fs.entry p with
  | .folder cs => .ok cs
  | _ => .error .notFolder

def readText (fs : FileSystem) (p : Path) : Except Fault String := do
  match ← fs.entry p with
  | .file bytes =>
    match Utf8.decode? bytes with
    | some text => .ok text
    | none => .error .notText
  | _ => .error .isFolder

def writeText (fs : FileSystem) (p : Path) (text : String) : Except Fault FileSystem := do
  let names ← fs.locate p
  match fs.root.at? names with
  | some (.folder _) => .error .isFolder
  | _ => .ok { fs with root := fs.root.set (some (.file (Utf8.encode text))) names }

def removeFile (fs : FileSystem) (p : Path) : Except Fault FileSystem := do
  let names ← fs.locateLast p
  match fs.root.at? names with
  | none => .error .missing
  | some (.folder _) => .error .isFolder
  | some _ => .ok { fs with root := fs.root.set none names }

def makeFolder (fs : FileSystem) (p : Path) : Except Fault FileSystem := do
  let names ← fs.locateLast p
  match fs.root.at? names with
  | some _ => .error .alreadyThere
  | none => .ok { fs with root := fs.root.set (some (.folder [])) names }

/-- Makes a folder, given by its components from the last to the first, and the folders above it
that are missing. -/
def makeFoldersUp (fs : FileSystem) : List Component → Except Fault FileSystem
  | [] => .ok fs
  | c :: above =>
    let p : Path := ⟨(c :: above).reverse⟩
    let make (fs : FileSystem) := match fs.makeFolder p with
      | .error e => if fs.isFolder p then .ok fs else .error e
      | made => made
    match fs.makeFolder p with
    | .error .missing => do make (← makeFoldersUp fs above)
    | _ => make fs

def makeFolders (fs : FileSystem) (p : Path) : Except Fault FileSystem :=
  fs.makeFoldersUp p.components.reverse

end FileSystem

end PackageModularity
