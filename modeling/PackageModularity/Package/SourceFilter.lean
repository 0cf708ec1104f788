import PackageModularity.Package.Config

/-! The files of a project that are analyzed: by their extension, and by no excluded name. -/
namespace PackageModularity

structure SourceFilter where
  patterns : List Pattern
  excludeSubstring : String

namespace SourceFilter

def dropDots (extension : String) : String :=
  String.ofList (extension.toList.dropWhile (· = '.'))

def globOf (extension : String) : String := "*." ++ dropDots extension

def readGlob (glob : String) : Except ConfigError Pattern :=
  match Pattern.read glob with
  | .ok p => .ok p
  | .error why => .error (.pattern glob why)

/-- The first extension that makes no pattern is the error. -/
def of (extensions : List String) (excludeSubstring : String) :
    Except ConfigError SourceFilter := do
  let patterns ← extensions.mapM fun e => readGlob (globOf e)
  .ok ⟨patterns, excludeSubstring⟩

def ofConfig (c : Config) : Except ConfigError SourceFilter := of c.extensions c.excludeSubstring

def hasInfix (part : List Char) : List Char → Bool
  | [] => part.isEmpty
  | c :: r => part.isPrefixOf (c :: r) || hasInfix part r

def acceptsName (f : SourceFilter) (name : String) : Bool :=
  (f.excludeSubstring.toList.isEmpty || !hasInfix f.excludeSubstring.toList name.toList) &&
    f.patterns.any fun p => p.isMatch name

def accepts (f : SourceFilter) (p : Path) : Bool :=
  match p.fileName? with
  | some name => f.acceptsName name
  | none => false

end SourceFilter

end PackageModularity
