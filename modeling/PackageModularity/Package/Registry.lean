import PackageModularity.Coupling.Modularity
import PackageModularity.Package.SourceFilter

/-!
The packages of a project. A file belongs to the package that its folder names: the folders below
the root without the first source root that they start with, joined with a separator.
-/
namespace PackageModularity

structure Registry where
  root : Path
  separator : String
  sourceRoots : List Path
  packages : PackageSet

namespace Registry

def ofPackages (names : List String) : Registry := ⟨⟨[]⟩, ".", [], PackageSet.ofList names⟩

def withoutRoot (folder : Path) : List Path → Path
  | [] => folder
  | root :: r =>
    match folder.relativeTo? root with
    | some rest => rest
    | none => withoutRoot folder r

def packageOf? (r : Registry) (file : Path) : Option String := do
  let relative ← file.relativeTo? r.root
  let folder ← relative.parent?
  some (joinWith r.separator (withoutRoot folder r.sourceRoots).names)

def contains (r : Registry) (package : String) : Bool := r.packages.contains package

def size (r : Registry) : Nat := r.packages.size

/-- The order of names one by one, a shorter list before its extensions. -/
def upTo : List String → List String → Bool
  | [], _ => true
  | _ :: _, [] => false
  | a :: r, b :: s => decide (a < b) || (a == b && upTo r s)

def sourceFiles (filter : SourceFilter) (root : Entry) : List (List String × List UInt8) :=
  (root.files.filter fun f => filter.accepts (Path.ofNames f.1)).mergeSort fun a b => upTo a.1 b.1

def addPackage (r : Registry) (file : List String) : Registry :=
  match r.packageOf? (r.root.append file) with
  | some p => { r with packages := r.packages.insert p () }
  | none => r

/-- A lone hyphen names the standard input. It has no files, even where a folder has that name. -/
def isStandardInput (root : Path) : Bool := root.components == [.name "-"]

/-- The source files of a project with their contents, and the packages they lie in. -/
def discover (fs : FileSystem) (root : String) (c : Config) (filter : SourceFilter) :
    Except ScoreError (Registry × List (List String × List UInt8)) :=
  match fs.entry (Path.ofText root) with
  | .ok (.folder children) =>
    let files :=
      if isStandardInput (Path.ofText root) then [] else sourceFiles filter (.folder children)
    let bare : Registry :=
      ⟨Path.ofText root, c.packageSeparator, c.sourceRoots.map Path.ofText, Dict.empty⟩
    .ok (files.foldl (fun r f => r.addPackage f.1) bare, files)
  | _ => .error (.notADirectory root)

end Registry

end PackageModularity
