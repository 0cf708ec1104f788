import PackageModularity.Resolution.TypeTable

/-!
Which type a written name means. A simple name is looked for among the enclosing types and their
members, then among the single imports, in the file's package and in the packages imported whole. A
dotted name goes on from the type that its first segment means, or is a qualified name itself.
-/
namespace PackageModularity

inductive Origin where
  | source
  | library
  deriving DecidableEq, Repr

structure Declaration where
  package : String
  origin : Origin
  deriving DecidableEq, Repr

/-- A type of the sources, or one that only an import tells of. -/
inductive TypeRef where
  | known (s : TypeSymbol)
  | library (qualifiedName : String)

def TypeRef.declaration : TypeRef → Declaration
  | .known s => ⟨s.package, .source⟩
  | .library q => ⟨Name.qualifier q, .library⟩

def TypeRef.known? : TypeRef → Option TypeSymbol
  | .known s => some s
  | .library _ => none

namespace TypeTable

variable (t : TypeTable)

def enclosingType? (name : String) : List String → Option TypeSymbol
  | [] => none
  | outer :: r =>
    (if Name.simple outer = name then t.get? outer else none) <|>
      t.get? (Name.inside outer name) <|> enclosingType? name r

def importedType? (name : String) (c : FileContext) : Option TypeRef :=
  (c.singleImports.get? name).map fun q =>
    match t.get? q with
    | some s => .known s
    | none => .library q

def wildcardType? (name : String) (c : FileContext) : Option TypeSymbol :=
  c.wildcardImports.findSome? fun package => t.get? (Name.inside package name)

def simpleType? (name : String) (c : FileContext) (enclosing : List String) : Option TypeRef :=
  (t.enclosingType? name enclosing).map .known <|> t.importedType? name c <|>
    (t.get? (c.qualify name)).map .known <|> (t.wildcardType? name c).map .known

/-- A member type of a type. What a library type contains is taken on trust. -/
def memberType? (outer : TypeRef) (rest : String) : Option TypeRef :=
  match outer with
  | .known s => (t.get? (Name.inside s.qualifiedName rest)).map .known
  | .library q => some (.library (Name.inside q rest))

def type? (name : String) (c : FileContext) (enclosing : List String) : Option TypeRef :=
  match Name.splitFirst? name with
  | none => t.simpleType? name c enclosing
  | some (head, rest) =>
    match t.simpleType? head c enclosing with
    | some outer => t.memberType? outer rest
    | none => (t.get? name).map .known

/-- A name written in the body of a type. -/
def typeInBody? (s : TypeSymbol) (name : String) : Option TypeRef := t.type? name s.context s.body

def supertypes (s : TypeSymbol) : List TypeRef :=
  s.decl.supertypes.filterMap fun name => t.type? name s.context s.decl.enclosing

end TypeTable

end PackageModularity
