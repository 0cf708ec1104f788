import PackageModularity.Source.SourceUnit

/-! The types of a project by qualified name. Of two declarations of one name the later counts. -/
namespace PackageModularity

structure TypeSymbol where
  decl : TypeDecl
  context : FileContext

instance : Inhabited TypeSymbol := ⟨default, default⟩

def TypeSymbol.package (s : TypeSymbol) : String := s.context.packageName

def TypeSymbol.qualifiedName (s : TypeSymbol) : String := s.decl.qualifiedName

/-- The chain of types that names in a symbol's body are looked up in. -/
def TypeSymbol.body (s : TypeSymbol) : List String := s.qualifiedName :: s.decl.enclosing

abbrev TypeTable := Dict String TypeSymbol

namespace TypeTable

def declare (t : TypeTable) (decl : TypeDecl) (context : FileContext) : TypeTable :=
  t.insert decl.qualifiedName ⟨decl, context⟩

def declareUnit (t : TypeTable) (u : SourceUnit) : TypeTable :=
  u.types.foldl (fun t d => declare t d u.context) t

def ofUnits (us : List SourceUnit) : TypeTable := us.foldl declareUnit Dict.empty

end TypeTable

end PackageModularity
