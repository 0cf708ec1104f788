import PackageModularity.Source.SyntaxTree
import PackageModularity.Text.Name

/-!
The written form of a syntax tree: a line for each node in preorder, with the number of its parent,
its kind, its role, and the bytes where it starts and stops. A hyphen stands for no parent and, like
any other unknown word, for no role.
-/
namespace PackageModularity.SyntaxTree

def Row.ofLine? (line : List Char) : Option Row := do
  let [parent, kind, role, start, stop] := (splitOnChar ' ' line).map String.ofList | none
  let parent ← if parent = "-" then some none else parent.toNat?.map some
  some ⟨parent, kind, role, ← start.toNat?, ← stop.toNat?⟩

def rows? (text : String) : Option (List Row) :=
  ((splitOnChar '\n' text.toList).filter (· ≠ [])).mapM Row.ofLine?

end PackageModularity.SyntaxTree
