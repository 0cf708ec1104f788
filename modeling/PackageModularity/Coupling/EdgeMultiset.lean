import PackageModularity.Dict
import PackageModularity.Coupling.Edge

/-! Edges counted by their two ends, whatever their direction, kind and order of arrival. -/
namespace PackageModularity

abbrev PackageSet := Dict String Unit

def PackageSet.ofList (names : List String) : PackageSet :=
  Dict.ofList (names.map fun n => (n, ()))

structure EdgeMultiset where
  counts : Dict Ends Nat
  total : Nat
  internal : Nat

namespace EdgeMultiset

def empty : EdgeMultiset := ⟨Dict.empty, 0, 0⟩

instance : Inhabited EdgeMultiset := ⟨empty⟩

def insert (m : EdgeMultiset) (e : Edge) : EdgeMultiset :=
  ⟨m.counts.alter e.ends fun old => old.getD 0 + 1, m.total + 1,
    if e.isInternal then m.internal + 1 else m.internal⟩

def extend (m : EdgeMultiset) (es : List Edge) : EdgeMultiset := es.foldl insert m

def ofList (es : List Edge) : EdgeMultiset := empty.extend es

def isEmpty (m : EdgeMultiset) : Bool := m.total == 0

def multiplicity (m : EdgeMultiset) (a b : String) : Nat := (m.counts.get? (Ends.of a b)).getD 0

def pairs (m : EdgeMultiset) : List (Ends × Nat) := m.counts.toList

def same (m n : EdgeMultiset) : Bool :=
  m.pairs == n.pairs && m.total == n.total && m.internal == n.internal

def addIncidence (packages : PackageSet) (d : Dict String Nat) (p : Ends × Nat) :
    Dict String Nat :=
  if packages.contains p.1.low && packages.contains p.1.high then
    let add (d : Dict String Nat) (name : String) := d.alter name fun old => old.getD 0 + p.2
    let d := add d p.1.low
    if p.1.low = p.1.high then d else add d p.1.high
  else d

/-- The number of edges at each package, of those with both ends in the set. An edge inside a
package counts once, any other at both of its ends. -/
def incidences (m : EdgeMultiset) (packages : PackageSet) : Dict String Nat :=
  m.pairs.foldl (addIncidence packages) Dict.empty

end EdgeMultiset

end PackageModularity
