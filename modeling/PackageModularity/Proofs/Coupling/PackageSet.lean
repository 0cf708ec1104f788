import PackageModularity.Coupling.Modularity
import PackageModularity.Package.Registry
import PackageModularity.Proofs.DictEntries

/-! A package set is the set of the names that it is made from. -/
namespace PackageModularity.PackageSet

theorem isSome_get?_ofList (names : List String) (p : String) :
    ((PackageSet.ofList names).get? p).isSome ↔ p ∈ names := by
  rw [ofList, Dict.get?_ofList, Option.isSome_map, List.getLast?_isSome]
  simp

theorem ext_contains {P Q : PackageSet} (h : ∀ p, P.contains p = true ↔ Q.contains p = true) :
    P = Q := by
  refine Dict.ext_get? fun p => ?_
  have hp := h p
  rw [Dict.contains, Dict.contains] at hp
  cases hx : P.get? p <;> cases hy : Q.get? p <;> simp [hx, hy] at hp ⊢

theorem ofList_congr {P Q : List String} (h : ∀ p, p ∈ P ↔ p ∈ Q) :
    PackageSet.ofList P = PackageSet.ofList Q := by
  refine ext_contains fun p => ?_
  rw [Dict.contains, Dict.contains, isSome_get?_ofList, isSome_get?_ofList]
  exact h p

theorem contains_ofList (names : List String) (p : String) :
    (PackageSet.ofList names).contains p = decide (p ∈ names) := by
  rw [Bool.eq_iff_iff, Dict.contains, isSome_get?_ofList, decide_eq_true_eq]

theorem size_ofList (names : List String) :
    (PackageSet.ofList names).size = names.toFinset.card :=
  Dict.size_eq_card (isSome_get?_ofList names)

theorem ofList_keys (packages : PackageSet) : PackageSet.ofList packages.keys = packages := by
  refine ext_contains fun p => ?_
  rw [Dict.contains, Dict.contains, isSome_get?_ofList]
  exact Dict.mem_keys_iff

end PackageModularity.PackageSet
