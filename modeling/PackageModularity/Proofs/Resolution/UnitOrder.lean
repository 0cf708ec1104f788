import PackageModularity.Project.Index
import PackageModularity.Proofs.Coupling.PairCounts
import PackageModularity.Proofs.Resolution.LastDeclaration

/-!
The order of a project's units matters only where a name is declared more than once, and there only
by which declaration comes last.
-/
namespace PackageModularity

namespace EdgeMultiset

theorem ofList_perm {es fs : List Edge} (h : es.Perm fs) : ofList es = ofList fs :=
  (records_ofList es).eq_of_joins (records_ofList fs) fun _ _ => h.countP_eq _

end EdgeMultiset

namespace TypeTable

theorem declarationsOf_perm {us vs : List SourceUnit} (h : us.Perm vs) (q : String) :
    (declarationsOf us q).Perm (declarationsOf vs q) :=
  ((h.flatMap_right _).filter _).map _

theorem getLast?_eq_of_perm {α : Type} {xs ys : List α} (h : xs.Perm ys)
    (hlast : 2 ≤ xs.length → xs.getLast? = ys.getLast?) : xs.getLast? = ys.getLast? := by
  cases xs with
  | nil => rw [h.nil_eq]
  | cons x xs =>
    cases xs with
    | nil => rw [List.singleton_perm.1 h]
    | cons y xs => exact hlast (by simp)

theorem ofUnits_perm {us vs : List SourceUnit} (h : us.Perm vs)
    (hlast : ∀ q, 2 ≤ (declarationsOf us q).length →
      (declarationsOf us q).getLast? = (declarationsOf vs q).getLast?) :
    ofUnits us = ofUnits vs := by
  refine Dict.ext_get? fun q => ?_
  rw [get?_ofUnits, get?_ofUnits]
  exact getLast?_eq_of_perm (declarationsOf_perm h q) (hlast q)

end TypeTable

namespace ProjectIndex

def ofUnits (r : Registry) (us : List SourceUnit) (stats : ParseStats) : ProjectIndex :=
  ⟨r, us, TypeTable.ofUnits us, stats⟩

theorem edges_perm {us vs : List SourceUnit} (h : us.Perm vs)
    (ht : TypeTable.ofUnits us = TypeTable.ofUnits vs) (c : Config) (r : Registry)
    (stats stats' : ParseStats) :
    (ofUnits r us stats).edges c = (ofUnits r vs stats').edges c := by
  have hedges : ∀ u, (ofUnits r us stats).unitEdges c u = (ofUnits r vs stats').unitEdges c u := by
    intro u
    simp only [unitEdges, ofUnits, ht]
  rw [edges, edges, funext hedges]
  exact EdgeMultiset.ofList_perm (h.flatMap_right _)

/-- Units in another order, with the same last declaration of every name that has several, give
the same table, the same targets of references, the same edges and the same score. -/
theorem unit_order_irrelevant {us vs : List SourceUnit} (h : us.Perm vs)
    (hlast : ∀ q, 2 ≤ (TypeTable.declarationsOf us q).length →
      (TypeTable.declarationsOf us q).getLast? = (TypeTable.declarationsOf vs q).getLast?) :
    (∀ q, (TypeTable.ofUnits us).get? q = (TypeTable.ofUnits vs).get? q) ∧
    (TypeTable.ofUnits us).size = (TypeTable.declaredNames us).toFinset.card ∧
    (TypeTable.ofUnits vs).size = (TypeTable.declaredNames us).toFinset.card ∧
    (∀ u ∈ us, ∀ ref ∈ u.references,
      (TypeTable.ofUnits us).resolve u ref = (TypeTable.ofUnits vs).resolve u ref) ∧
    ∀ (c : Config) (r : Registry) (stats stats' : ParseStats),
      (ofUnits r us stats).edges c = (ofUnits r vs stats').edges c ∧
      (ofUnits r us stats).score c = (ofUnits r vs stats').score c := by
  have ht : TypeTable.ofUnits us = TypeTable.ofUnits vs := TypeTable.ofUnits_perm h hlast
  have hsize := TypeTable.size_ofUnits us
  refine ⟨fun q => by rw [ht], hsize, ht ▸ hsize, fun u _ ref _ => by rw [ht], ?_⟩
  intro c r stats stats'
  have hedges := edges_perm h ht c r stats stats'
  refine ⟨hedges, ?_⟩
  rw [score, score, hedges]
  rfl

def shapeFile (path method : String) : SourceUnit where
  path := Path.ofText path
  context := ⟨some "shapes", Dict.empty, []⟩
  types := [⟨"shapes.Shape", [], [], Dict.empty, Dict.ofList [(method, none)]⟩]
  scopes := [Scope.empty]
  references := []

def drawingFile : SourceUnit where
  path := Path.ofText "app/Drawing.java"
  context := ⟨some "app", Dict.ofList [("Shape", "shapes.Shape")], []⟩
  types := [⟨"app.Drawing", [], ["Shape"], Dict.empty, Dict.empty⟩]
  scopes := [Scope.empty, ⟨["app.Drawing"], Dict.ofList [("s", "Shape")]⟩]
  references := [⟨.supertype "Shape", 0⟩, ⟨.call (some (.name "s")) "area", 1⟩]

def shapeFiles : List SourceUnit :=
  [shapeFile "shapes/Old.java" "size", shapeFile "shapes/New.java" "area"]

/-- Of the two declarations of `shapes.Shape` the same one comes last in both orders. -/
theorem unit_order_irrelevant_redeclared :
    (shapeFiles ++ [drawingFile]).Perm ([drawingFile] ++ shapeFiles) ∧
    (∀ q, 2 ≤ (TypeTable.declarationsOf (shapeFiles ++ [drawingFile]) q).length →
      (TypeTable.declarationsOf (shapeFiles ++ [drawingFile]) q).getLast? =
        (TypeTable.declarationsOf ([drawingFile] ++ shapeFiles) q).getLast?) ∧
    (TypeTable.declarationsOf (shapeFiles ++ [drawingFile]) "shapes.Shape").length = 2 ∧
    ∀ (c : Config) (r : Registry) (stats stats' : ParseStats),
      (ofUnits r (shapeFiles ++ [drawingFile]) stats).edges c =
        (ofUnits r ([drawingFile] ++ shapeFiles) stats').edges c ∧
      (ofUnits r (shapeFiles ++ [drawingFile]) stats).score c =
        (ofUnits r ([drawingFile] ++ shapeFiles) stats').score c := by
  have hlast : ∀ q, 2 ≤ (TypeTable.declarationsOf (shapeFiles ++ [drawingFile]) q).length →
      (TypeTable.declarationsOf (shapeFiles ++ [drawingFile]) q).getLast? =
        (TypeTable.declarationsOf ([drawingFile] ++ shapeFiles) q).getLast? := by
    intro q hq
    by_cases h : "shapes.Shape" = q
    · subst h
      rfl
    · by_cases h' : "app.Drawing" = q <;>
        simp [TypeTable.declarationsOf, TypeTable.declarations, shapeFiles, shapeFile, drawingFile,
          h, h'] at hq
  exact ⟨List.perm_append_comm, hlast, rfl,
    (unit_order_irrelevant List.perm_append_comm hlast).2.2.2.2⟩

end ProjectIndex

end PackageModularity
