import PackageModularity.Dict
import PackageModularity.Coupling.Edge
import PackageModularity.Files.Path

/-! What a source file declares and mentions: its types, its references and the names in sight. -/
namespace PackageModularity

/-- The expression that a member is taken from, as far as its type can be known. -/
inductive Receiver where
  | this
  | super
  | name (s : String)
  | field (object : Receiver) (name : String)
  | call (name : String)
  | callOn (object : Receiver) (name : String)
  | create (type : String)
  | cast (type : String)
  | unknown
  deriving DecidableEq, Repr

def Receiver.dottedName? : Receiver → Option String
  | .name s => some s
  | .field object f => object.dottedName?.map fun s => Name.inside s f
  | _ => none

/-- A reference before it is resolved. -/
inductive Mention where
  | supertype (name : String)
  | call (receiver : Option Receiver) (name : String)
  | field (receiver : Receiver) (name : String)
  deriving DecidableEq, Repr

def Mention.kind : Mention → EdgeKind
  | .supertype _ => .inherits
  | .call .. => .calls
  | .field .. => .fieldAccess

def Mention.name : Mention → String
  | .supertype n => n
  | .call _ n => n
  | .field _ n => n

/-- A mention with the number of the scope that it stands in. -/
structure Reference where
  mention : Mention
  scope : Nat
  deriving DecidableEq, Repr

/-- The enclosing types from the innermost on, and the written types of the locals. -/
structure Scope where
  enclosing : List String
  locals : Dict String String

def Scope.empty : Scope := ⟨[], Dict.empty⟩

structure FileContext where
  package : Option String
  singleImports : Dict String String
  wildcardImports : List String

instance : Inhabited FileContext := ⟨none, Dict.empty, []⟩

/-- The package, which is unnamed if the file declares none. -/
def FileContext.packageName (c : FileContext) : String := c.package.getD ""

def FileContext.qualify (c : FileContext) (name : String) : String :=
  if c.packageName = "" then name else Name.inside c.packageName name

structure TypeDecl where
  qualifiedName : String
  enclosing : List String
  supertypes : List String
  fields : Dict String String
  methods : Dict String (Option String)

instance : Inhabited TypeDecl := ⟨"", [], [], Dict.empty, Dict.empty⟩

structure SourceUnit where
  path : Path
  context : FileContext
  types : List TypeDecl
  scopes : List Scope
  references : List Reference

end PackageModularity
