import PackageModularity.Source.SourceUnit
import PackageModularity.Source.TypeText

/-! The package statement and the imports of a file. Static imports name no type. -/
namespace PackageModularity

namespace SyntaxTree

def isName (t : SyntaxTree) : Bool := t.kind = .identifier || t.kind = .scopedIdentifier

def compactText? (t : SyntaxTree) : Option String := t.text.map removeBlanks

def importedName? (t : SyntaxTree) : Option String :=
  ((t.children.filter isName).getLast?).bind compactText?

def hasChild (t : SyntaxTree) (k : NodeKind) : Bool := t.children.any (·.kind = k)

end SyntaxTree

def FileContext.addImport (c : FileContext) (t : SyntaxTree) : FileContext :=
  match t.importedName? with
  | none => c
  | some name =>
    if t.hasChild .staticKeyword then c
    else if t.hasChild .asterisk then { c with wildcardImports := c.wildcardImports ++ [name] }
    else { c with singleImports := c.singleImports.insert (Name.simple name) name }

def FileContext.add (c : FileContext) (t : SyntaxTree) : FileContext :=
  match t.kind with
  | .packageDeclaration =>
    { c with package := (t.children.find? SyntaxTree.isName).bind SyntaxTree.compactText? }
  | .importDeclaration => c.addImport t
  | _ => c

def FileContext.ofTree (root : SyntaxTree) : FileContext := root.children.foldl add default

end PackageModularity
