import PackageModularity.Resolution.TypeName

/-! Members of a type and of the types above it, nearest types first. -/
namespace PackageModularity.TypeTable

variable (t : TypeTable)

def hierarchyLimit : Nat := 64

def parents (s : TypeSymbol) : List TypeSymbol := (t.supertypes s).filterMap TypeRef.known?

/-- Visits the waiting types in turn, each name once, and lets the parents of each wait. -/
def visit : Nat → List String → List TypeSymbol → List TypeSymbol
  | 0, _, _ => []
  | n + 1, seen, waiting =>
    match waiting.dropWhile fun s => seen.contains s.qualifiedName with
    | [] => []
    | s :: r => s :: visit n (s.qualifiedName :: seen) (r ++ t.parents s)

def hierarchy (s : TypeSymbol) : List TypeSymbol := t.visit hierarchyLimit [] [s]

/-- The nearest type with an answer, and the answer. -/
def findMember (probe : TypeDecl → Option α) (s : TypeSymbol) : Option (TypeSymbol × α) :=
  (t.hierarchy s).findSome? fun u => (probe u.decl).map (u, ·)

def findMethod (name : String) (s : TypeSymbol) : Option (TypeSymbol × Option String) :=
  t.findMember (fun d => d.methods.get? name) s

def findField (name : String) (s : TypeSymbol) : Option (TypeSymbol × String) :=
  t.findMember (fun d => d.fields.get? name) s

end PackageModularity.TypeTable
