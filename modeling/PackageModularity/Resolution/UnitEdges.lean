import PackageModularity.Package.Registry
import PackageModularity.Resolution.ReferenceTarget

/-! The edges of a source unit: its references to declarations in packages of the project. -/
namespace PackageModularity

abbrev Resolver := SourceUnit → Reference → Option Declaration

namespace Registry

variable (r : Registry) (policy : SourcePackage) (resolve : Resolver)

/-- The package that all edges of a unit start from. -/
def sourcePackage? (u : SourceUnit) : Option String :=
  match policy with
  | .declared => u.context.package
  | .directory => r.packageOf? u.path

/-- A library type counts as a supertype only. -/
def edge? (source : String) (u : SourceUnit) (ref : Reference) : Option Edge := do
  let d ← resolve u ref
  if (ref.mention.kind = .inherits ∨ d.origin = .source) ∧ r.contains d.package then
    some ⟨source, d.package, ref.mention.kind⟩
  else none

def edgesOf (u : SourceUnit) : List Edge :=
  match r.sourcePackage? policy u with
  | none => []
  | some source => u.references.filterMap (r.edge? resolve source u)

end Registry

end PackageModularity
