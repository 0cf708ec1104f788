/-! Trees of folders, files and symbolic links. -/
namespace PackageModularity

inductive Entry where
  | file (bytes : List UInt8)
  | link (target : String)
  | folder (children : List (String × Entry))
  deriving Inhabited

namespace Entry

def isFolder : Entry → Bool
  | .folder _ => true
  | _ => false

def isFile : Entry → Bool
  | .file _ => true
  | _ => false

def children : Entry → List (String × Entry)
  | .folder cs => cs
  | _ => []

def child? (e : Entry) (name : String) : Option Entry := e.children.lookup name

/-- The entry under a list of names, without following links. -/
def at? : Entry → List String → Option Entry
  | e, [] => some e
  | e, n :: r => (e.child? n).bind fun c => c.at? r

def alterChild (name : String) (f : Option Entry → Option Entry) :
    List (String × Entry) → List (String × Entry)
  | [] => match f none with
    | some e => [(name, e)]
    | none => []
  | (n, e) :: r =>
    if n = name then match f (some e) with
      | some e' => (n, e') :: r
      | none => r
    else (n, e) :: alterChild name f r

/-- Puts an entry, or nothing, under a list of names whose folders are there. -/
def set (new : Option Entry) : List String → Entry → Entry
  | [], e => new.getD e
  | n :: r, e =>
    .folder (alterChild n (fun old => match r with
      | [] => new
      | _ :: _ => some (set new r (old.getD (.folder [])))) e.children)

mutual

/-- Every regular file with the names that lead to it. Links are not followed. -/
def files : Entry → List (List String × List UInt8)
  | .file bytes => [([], bytes)]
  | .link _ => []
  | .folder cs => filesOf cs

def filesOf : List (String × Entry) → List (List String × List UInt8)
  | [] => []
  | (name, e) :: r => (files e).map (fun f => (name :: f.1, f.2)) ++ filesOf r

end

end Entry

end PackageModularity
