import PackageModularity.Number.Binary64
import PackageModularity.Coupling.EdgeMultiset

/-!
The modularity of a set of packages. Of `n` edges let `internal` stay inside a package and `a i`
touch package `i`; the score is the quotient of `internal * n - Σ (a i)²` by `n² - Σ (a i)²`.
-/
namespace PackageModularity

inductive ScoreError where
  | noEdges
  | degenerate (packages : Nat)
  | notADirectory (path : String)
  deriving DecidableEq, Repr

def ScoreError.message : ScoreError → String
  | .noEdges => "no reference edges found, modularity is undefined"
  | .degenerate packages => "normalizer 1 - A is zero across " ++ toString packages ++
      " package(s), modularity is undefined"
  | .notADirectory path => "project root is not a directory: " ++ path

structure Modularity where
  edges : Nat
  internal : Nat
  incidenceSum : Nat
  squareSum : Nat
  deriving DecidableEq, Repr

namespace Modularity

def numerator (m : Modularity) : Int := m.internal * m.edges - m.squareSum

def denominator (m : Modularity) : Int := m.edges * m.edges - m.squareSum

def q (m : Modularity) : Binary64 := Binary64.ofInt m.numerator / Binary64.ofInt m.denominator

def e (m : Modularity) : Binary64 := Binary64.ofInt m.internal / Binary64.ofInt m.edges

/-- The sum of the squared shares of the packages. -/
def a (m : Modularity) : Binary64 :=
  Binary64.ofInt m.squareSum / Binary64.ofInt (m.edges * m.edges)

def sum : List Nat → Nat
  | [] => 0
  | n :: r => n + sum r

def tally (packages : PackageSet) (edges : EdgeMultiset) : Modularity :=
  let incidences := edges.incidences packages
  let counts := packages.keys.map fun p => (incidences.get? p).getD 0
  ⟨edges.total, edges.internal, sum counts, sum (counts.map fun c => c * c)⟩

def of (packages : PackageSet) (edges : EdgeMultiset) : Except ScoreError Modularity :=
  if edges.total = 0 then .error .noEdges
  else
    let m := tally packages edges
    if m.denominator = 0 then .error (.degenerate packages.size) else .ok m

end Modularity

end PackageModularity
