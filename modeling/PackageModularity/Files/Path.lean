import PackageModularity.Text.Name

/-!
Paths as their components. Repeated slashes, a trailing slash and every `.` but a leading one leave
no component, so paths that differ in these alone are equal.
-/
namespace PackageModularity

inductive Component where
  | root
  | current
  | parent
  | name (s : String)
  deriving DecidableEq, Repr

def Component.name? : Component → Option String
  | .name s => some s
  | _ => none

structure Path where
  components : List Component
  deriving DecidableEq, Repr

namespace Path

def component? (piece : List Char) : Option Component :=
  if piece = [] ∨ piece = ['.'] then none
  else if piece = ['.', '.'] then some .parent
  else some (.name (String.ofList piece))

def ofText (text : String) : Path :=
  let pieces := splitOnChar '/' text.toList
  let rest := pieces.filterMap component?
  match text.toList, pieces with
  | '/' :: _, _ => ⟨.root :: rest⟩
  | _, ['.'] :: _ => ⟨.current :: rest⟩
  | _, _ => ⟨rest⟩

def ofNames (names : List String) : Path := ⟨names.map .name⟩

def names (p : Path) : List String := p.components.filterMap Component.name?

/-- No file has a name with a NUL, so such a path leads nowhere. -/
def hasNul (p : Path) : Bool := p.names.any fun n => n.toList.contains '\x00'

def append (p : Path) (more : List String) : Path := ⟨p.components ++ more.map .name⟩

def fileName? (p : Path) : Option String :=
  match p.components.getLast? with
  | some (.name s) => some s
  | _ => none

def parent? (p : Path) : Option Path :=
  match p.components.getLast? with
  | none | some .root => none
  | some _ => some ⟨p.components.dropLast⟩

/-- What is left of the components after those of `base`, if they start with these. -/
def dropPrefix? : List Component → List Component → Option (List Component)
  | cs, [] => some cs
  | c :: cs, b :: bs => if c = b then dropPrefix? cs bs else none
  | [], _ :: _ => none

def relativeTo? (p base : Path) : Option Path :=
  (dropPrefix? p.components base.components).map Path.mk

def joinText (base name : String) : String :=
  if name.toList.head? = some '/' then name
  else if base.toList = [] ∨ base.toList.getLast? = some '/' then base ++ name
  else base ++ "/" ++ name

end Path

/-- A file name is cut at its last dot, unless that is its first character. -/
structure FileName where
  stem : String
  extension : Option String
  deriving DecidableEq, Repr

def FileName.ofText (name : String) : FileName :=
  if name = ".." then ⟨name, none⟩
  else
    let parts := Name.segments name
    match parts with
    | [] | [_] | ["", _] => ⟨name, none⟩
    | _ => ⟨joinWith "." parts.dropLast, parts.getLast?⟩

end PackageModularity
