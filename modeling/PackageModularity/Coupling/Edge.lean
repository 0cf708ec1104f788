/-! References between packages. -/
namespace PackageModularity

inductive EdgeKind where
  | inherits
  | calls
  | fieldAccess
  deriving DecidableEq, Repr

structure Edge where
  source : String
  target : String
  kind : EdgeKind
  deriving DecidableEq, Repr

def Edge.isInternal (e : Edge) : Bool := e.source == e.target

/-- The two ends of an edge without direction, the lower name first. -/
structure Ends where
  low : String
  high : String
  deriving DecidableEq, Repr

namespace Ends

instance : Ord Ends := ⟨compareLex (compareOn Ends.low) (compareOn Ends.high)⟩

instance : Std.TransOrd Ends :=
  inferInstanceAs (Std.TransCmp (compareLex (compareOn Ends.low) (compareOn Ends.high)))

instance : Std.LawfulEqOrd Ends where
  compare_self := by intro a; exact Std.ReflCmp.compare_self
  eq_of_compare := by
    intro a b h
    have h : (compareLex (compareOn Ends.low) (compareOn Ends.high)) a b = .eq := h
    simp only [compareLex, compareOn, Ordering.then_eq_eq] at h
    obtain ⟨h₁, h₂⟩ := h
    cases a; cases b
    simp only [Ends.mk.injEq]
    exact ⟨Std.LawfulEqCmp.eq_of_compare h₁, Std.LawfulEqCmp.eq_of_compare h₂⟩

def of (a b : String) : Ends := if a ≤ b then ⟨a, b⟩ else ⟨b, a⟩

end Ends

def Edge.ends (e : Edge) : Ends := Ends.of e.source e.target

end PackageModularity
