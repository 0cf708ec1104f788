import PackageModularity.Proofs.DictEntries
import PackageModularity.Resolution.TypeTable

/-! The table of some units answers a name with the last declaration of it. -/
namespace PackageModularity.TypeTable

def declarations (us : List SourceUnit) : List (String × TypeSymbol) :=
  us.flatMap fun u => u.types.map fun d => (d.qualifiedName, ⟨d, u.context⟩)

def declarationsOf (us : List SourceUnit) (q : String) : List TypeSymbol :=
  ((declarations us).filter fun e => e.1 = q).map (·.2)

def declaredNames (us : List SourceUnit) : List String := (declarations us).map (·.1)

theorem ofUnits_eq_ofList (us : List SourceUnit) : ofUnits us = Dict.ofList (declarations us) := by
  simp only [ofUnits, Dict.ofList, declarations, List.foldl_flatMap, List.foldl_map]
  rfl

theorem get?_ofUnits (us : List SourceUnit) (q : String) :
    (ofUnits us).get? q = (declarationsOf us q).getLast? := by
  rw [ofUnits_eq_ofList, Dict.get?_ofList, declarationsOf, List.getLast?_map]

theorem isSome_get?_ofUnits (us : List SourceUnit) (q : String) :
    ((ofUnits us).get? q).isSome ↔ q ∈ declaredNames us := by
  rw [get?_ofUnits, List.getLast?_isSome, ← List.length_pos_iff, declarationsOf, List.length_map,
    List.length_pos_iff, Ne, List.filter_eq_nil_iff, declaredNames, List.mem_map]
  simp only [decide_eq_true_eq, not_forall, Decidable.not_not, exists_prop]

theorem size_ofUnits (us : List SourceUnit) :
    (ofUnits us).size = (declaredNames us).toFinset.card :=
  Dict.size_eq_card (isSome_get?_ofUnits us)

/-- Every type lies in the table under its own name only. -/
def Keyed (t : TypeTable) : Prop := ∀ q s, t.get? q = some s → s.qualifiedName = q

theorem keyed_ofUnits (us : List SourceUnit) : (ofUnits us).Keyed := by
  intro q s h
  rw [get?_ofUnits] at h
  obtain ⟨e, he, rfl⟩ := List.mem_map.1 (List.mem_of_getLast? h)
  obtain ⟨hm, hq⟩ := List.mem_filter.1 he
  obtain ⟨u, -, hu⟩ := List.mem_flatMap.1 hm
  obtain ⟨d, -, rfl⟩ := List.mem_map.1 hu
  exact of_decide_eq_true hq

end PackageModularity.TypeTable
