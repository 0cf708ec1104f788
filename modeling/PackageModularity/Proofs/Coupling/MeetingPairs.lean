import Mathlib.Data.List.ProdSigma
import PackageModularity.Proofs.Coupling.Incidence

/-!
The denominator of a score counts ordered pairs of edges, an edge with itself among them. Pairs that
do not meet make it larger, and pairs that join the same two packages smaller.
-/
namespace PackageModularity

namespace Edge

variable (packages : PackageSet)

/-- Both edges lie within the package set and have a package in common. -/
def meets (e f : Edge) : Bool :=
  e.within packages && f.within packages &&
    (f.source == e.source || f.target == e.source || f.source == e.target || f.target == e.target)

/-- Both edges join the same two packages of the set. -/
def parallel (e f : Edge) : Bool :=
  e.within packages && !e.isInternal && f.joins e.source e.target

variable {packages}

theorem within_of_joins {e f : Edge} (h : f.joins e.source e.target = true) :
    f.within packages = e.within packages := by
  simp only [joins, Bool.or_eq_true, Bool.and_eq_true, beq_iff_eq] at h
  rcases h with ⟨hs, ht⟩ | ⟨hs, ht⟩
  · rw [within, within, hs, ht]
  · rw [within, within, hs, ht, Bool.and_comm]

theorem sum_countsAt_mul_countsAt {names : List String}
    (hp : ∀ p, (packages.get? p).isSome ↔ p ∈ names) (e f : Edge) :
    (∑ i ∈ names.toFinset,
      (if e.countsAt packages i then 1 else 0) * if f.countsAt packages i then 1 else 0) =
        (if e.meets packages f then 1 else 0) + if e.parallel packages f then 1 else 0 := by
  rw [e.sum_countsAt_mul hp]
  by_cases he : e.within packages = true
  · by_cases hf : f.within packages = true
    · simp only [meets, parallel, countsAt_eq, joins, isInternal, he, hf, Bool.true_and, if_true,
        Bool.or_eq_true, Bool.and_eq_true, Bool.not_eq_true', beq_iff_eq, beq_eq_false_iff_ne]
      by_cases hloop : e.source = e.target
      · by_cases hs : f.source = e.target <;> by_cases ht : f.target = e.target <;>
          simp [hloop, hs, ht]
      · by_cases hs : f.source = e.source <;> by_cases ht : f.target = e.target <;>
          by_cases hs' : f.source = e.target <;> by_cases ht' : f.target = e.source <;>
          simp_all
    · have hjoins : f.joins e.source e.target = false :=
        Bool.eq_false_iff.2 fun h => hf (within_of_joins h ▸ he)
      simp [meets, parallel, countsAt_eq, hf, hjoins]
  · simp [meets, parallel, he]

end Edge

theorem countP_product_cons {α β : Type} (p : α × β → Bool) (x : α) (xs : List α) (ys : List β) :
    ((x :: xs) ×ˢ ys).countP p = ys.countP (fun y => p (x, y)) + (xs ×ˢ ys).countP p := by
  rw [List.product_cons, List.countP_append, List.countP_map]
  rfl

theorem countP_product_and {α β : Type} (p : α → Bool) (q : β → Bool) (xs : List α)
    (ys : List β) : ((xs ×ˢ ys).countP fun r => p r.1 && q r.2) = xs.countP p * ys.countP q := by
  induction xs with
  | nil => simp
  | cons x xs ih =>
    rw [countP_product_cons, ih, List.countP_cons, Nat.add_mul, Nat.add_comm]
    cases hx : p x <;> simp [hx]

/-- The ordered pairs of edges that do not meet. -/
def apartPairs (packages : PackageSet) (es : List Edge) : Nat :=
  (es ×ˢ es).countP fun p => !p.1.meets packages p.2

/-- The ordered pairs of edges that join the same two packages of the set. -/
def parallelPairs (packages : PackageSet) (es : List Edge) : Nat :=
  (es ×ˢ es).countP fun p => p.1.parallel packages p.2

section
variable {packages : PackageSet} {names : List String}
  (hp : ∀ p, (packages.get? p).isSome ↔ p ∈ names)
include hp

theorem sum_countsAt_mul_countP (e : Edge) (fs : List Edge) :
    (∑ i ∈ names.toFinset,
      (if e.countsAt packages i then 1 else 0) * fs.countP (·.countsAt packages i)) =
        fs.countP (fun f => e.meets packages f) + fs.countP fun f => e.parallel packages f := by
  induction fs with
  | nil => simp
  | cons f fs ih =>
    have hf := Edge.sum_countsAt_mul_countsAt hp e f
    simp only [List.countP_cons, Nat.mul_add, Finset.sum_add_distrib]
    omega

theorem sum_countP_mul_countP (es fs : List Edge) :
    (∑ i ∈ names.toFinset, es.countP (·.countsAt packages i) * fs.countP (·.countsAt packages i)) =
      (es ×ˢ fs).countP (fun p => p.1.meets packages p.2) +
        (es ×ˢ fs).countP fun p => p.1.parallel packages p.2 := by
  induction es with
  | nil => simp
  | cons e es ih =>
    have he := sum_countsAt_mul_countP hp e fs
    simp only [List.countP_cons, Nat.add_mul, Finset.sum_add_distrib, countP_product_cons]
    omega

/-- The squares of the counts at the packages, as pairs of edges. -/
theorem sum_square_add_apartPairs (es : List Edge) :
    (∑ i ∈ names.toFinset, es.countP (·.countsAt packages i) ^ 2) + apartPairs packages es =
      es.length * es.length + parallelPairs packages es := by
  have hsum := sum_countP_mul_countP hp es es
  have hall : es.length * es.length =
      (es ×ˢ es).countP (fun p => p.1.meets packages p.2) + apartPairs packages es := by
    rw [← List.length_product, apartPairs,
      (es ×ˢ es).length_eq_countP_add_countP fun p => p.1.meets packages p.2]
    simp only [Bool.not_eq_true, Bool.decide_eq_false]
  simp only [pow_two, parallelPairs]
  omega

end

theorem denominator_tally {m : EdgeMultiset} {es : List Edge} (h : m.Records es)
    (packages : PackageSet) : (Modularity.tally packages m).denominator =
      (apartPairs packages es : Int) - parallelPairs packages es := by
  have hp : ∀ p, (packages.get? p).isSome ↔ p ∈ packages.keys := fun _ => Dict.mem_keys_iff.symm
  have hsum := sum_square_add_apartPairs hp es
  rw [Modularity.tally_eq h hp, Modularity.denominator, ← Nat.cast_mul]
  dsimp only
  omega

end PackageModularity
