import PackageModularity.Files.FileSystem

/-! The projects of a dataset: the folders of its folders, each sorted by name. -/
namespace PackageModularity

structure ProjectEntry where
  dataType : String
  name : String
  path : String
  deriving DecidableEq, Repr

/-- Tells a project apart from all others of its dataset. -/
def ProjectEntry.id (p : ProjectEntry) : String := p.dataType ++ "/" ++ p.name

inductive DatasetError where
  | dataset (path : String) (why : Fault)
  | dataType (path : String) (why : Fault)
  deriving DecidableEq, Repr

def DatasetError.message : DatasetError → String
  | .dataset path why => "failed to read dataset " ++ path ++ ": " ++ why.message
  | .dataType path why => "failed to read data type " ++ path ++ ": " ++ why.message

namespace Dataset

def sortNames (names : List String) : List String := names.mergeSort fun a b => decide (a ≤ b)

/-- The names of the folders in a folder. A link to a folder is none. -/
def subfolders (fs : FileSystem) (path : String) : Except Fault (List String) := do
  let entries ← fs.list (Path.ofText path)
  .ok (sortNames ((entries.filter fun e => e.2.isFolder).map (·.1)))

def projectsOf (fs : FileSystem) (dataset dataType : String) :
    Except DatasetError (String × List ProjectEntry) := do
  let path := Path.joinText dataset dataType
  match subfolders fs path with
  | .error why => .error (.dataType path why)
  | .ok names =>
    .ok (dataType, names.map fun name => ⟨dataType, name, Path.joinText path name⟩)

def projects (fs : FileSystem) (dataset : String) :
    Except DatasetError (List (String × List ProjectEntry)) := do
  match subfolders fs dataset with
  | .error why => .error (.dataset dataset why)
  | .ok dataTypes => dataTypes.mapM (projectsOf fs dataset)

end Dataset

end PackageModularity
