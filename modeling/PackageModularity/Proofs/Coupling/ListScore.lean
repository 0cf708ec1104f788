import Mathlib.Algebra.BigOperators.Field
import Mathlib.Data.Rat.Cast.Order
import Mathlib.Tactic.FieldSimp
import Mathlib.Tactic.Ring
import PackageModularity.Proofs.Coupling.Incidence
import PackageModularity.Proofs.Number.FiniteQuotient

/-!
The score of a list of edges over a list of packages, by its definition: from the share `e` of the
edges that stay inside a package, and the sum `A` of the squared shares of the edges at each package.
-/
namespace PackageModularity.ListScore

variable (P : List String) (E : List Edge)

/-- The edges inside a package, and those that join it to another one of the list. -/
def incidence (i : String) : Nat :=
  E.countP (fun e => e.source = i ∧ e.target = i) +
    E.countP fun e => i ∈ P ∧ ∃ j ∈ P, j ≠ i ∧ e.joins i j

def internalCount : Nat := E.countP fun e => e.source = e.target

def incidenceSum : Nat := ∑ i ∈ P.toFinset, incidence P E i

def squareSum : Nat := ∑ i ∈ P.toFinset, incidence P E i ^ 2

def internalShare : ℚ := internalCount E / E.length

def squaredShares : ℚ := ∑ i ∈ P.toFinset, ((incidence P E i : ℚ) / E.length) ^ 2

def score : ℚ := (internalShare E - squaredShares P E) / (1 - squaredShares P E)

theorem squaredShares_eq : squaredShares P E = squareSum P E / (E.length : ℚ) ^ 2 := by
  simp only [squaredShares, squareSum, div_pow, ← Finset.sum_div, Nat.cast_sum, Nat.cast_pow]

/-- The definition multiplied through by the square of the number of edges. -/
theorem score_eq (hn : E.length ≠ 0) :
    score P E = ((internalCount E : ℚ) * E.length - squareSum P E) /
      ((E.length : ℚ) ^ 2 - squareSum P E) := by
  have hn' : (E.length : ℚ) ≠ 0 := Nat.cast_ne_zero.2 hn
  have hnum : internalShare E - squaredShares P E =
      ((internalCount E : ℚ) * E.length - squareSum P E) / (E.length : ℚ) ^ 2 := by
    rw [internalShare, squaredShares_eq]
    field_simp
  have hden : 1 - squaredShares P E =
      ((E.length : ℚ) ^ 2 - squareSum P E) / (E.length : ℚ) ^ 2 := by
    rw [squaredShares_eq]
    field_simp
  rw [score, hnum, hden, div_div_div_cancel_right₀ (pow_ne_zero 2 hn')]

theorem exists_joins_iff (i : String) (e : Edge) : (∃ j ∈ P, j ≠ i ∧ e.joins i j) ↔
    (e.source = i ∧ e.target ≠ i ∧ e.target ∈ P) ∨
      (e.target = i ∧ e.source ≠ i ∧ e.source ∈ P) := by
  simp only [Edge.joins, Bool.or_eq_true, Bool.and_eq_true, beq_iff_eq]
  constructor
  · rintro ⟨j, hj, hne, ⟨hs, rfl⟩ | ⟨rfl, ht⟩⟩
    · exact Or.inl ⟨hs, hne, hj⟩
    · exact Or.inr ⟨ht, hne, hj⟩
  · rintro (⟨hs, hne, ht⟩ | ⟨ht, hne, hs⟩)
    · exact ⟨e.target, ht, hne, Or.inl ⟨hs, rfl⟩⟩
    · exact ⟨e.source, hs, hne, Or.inr ⟨rfl, ht⟩⟩

theorem countsAt_eq_loop_add_cross {i : String} (hi : i ∈ P) (e : Edge) :
    (if e.countsAt (PackageSet.ofList P) i then 1 else 0) =
      (if e.source = i ∧ e.target = i then 1 else 0) +
        if i ∈ P ∧ ∃ j ∈ P, j ≠ i ∧ e.joins i j then 1 else 0 := by
  simp only [exists_joins_iff, Edge.countsAt, PackageSet.contains_ofList]
  by_cases hs : e.source = i
  · by_cases ht : e.target = i
    · simp [hs, ht, hi]
    · simp [hs, ht, hi]
  · by_cases ht : e.target = i
    · simp [hs, ht, hi]
    · simp [hs, ht]

theorem countP_countsAt {i : String} (hi : i ∈ P) :
    (E.countP fun e => e.countsAt (PackageSet.ofList P) i) = incidence P E i := by
  induction E with
  | nil => rfl
  | cons e es ih =>
    have he := countsAt_eq_loop_add_cross P hi e
    simp only [incidence, List.countP_cons, decide_eq_true_eq] at ih ⊢
    omega

theorem tally_ofList : Modularity.tally (PackageSet.ofList P) (EdgeMultiset.ofList E) =
    ⟨E.length, internalCount E, incidenceSum P E, squareSum P E⟩ := by
  have hinc : ∀ i ∈ P.toFinset,
      (E.countP fun e => e.countsAt (PackageSet.ofList P) i) = incidence P E i :=
    fun i hi => countP_countsAt P E (List.mem_toFinset.1 hi)
  have hloop : E.countP Edge.isInternal = internalCount E := rfl
  rw [Modularity.tally_eq (EdgeMultiset.records_ofList E) (PackageSet.isSome_get?_ofList P), hloop,
    incidenceSum, squareSum, Finset.sum_congr rfl hinc,
    Finset.sum_congr rfl fun i hi => congrArg (· ^ 2) (hinc i hi)]

theorem incidence_le_length {i : String} (hi : i ∈ P) : incidence P E i ≤ E.length := by
  rw [← countP_countsAt P E hi]
  exact List.countP_le_length

theorem incidenceSum_le : incidenceSum P E ≤ 2 * E.length := by
  have hinc : incidenceSum P E =
      ∑ i ∈ P.toFinset, E.countP fun e => e.countsAt (PackageSet.ofList P) i :=
    Finset.sum_congr rfl fun i hi => (countP_countsAt P E (List.mem_toFinset.1 hi)).symm
  have hsum := sum_countP_countsAt (PackageSet.isSome_get?_ofList P) E
  have hwithin := List.countP_le_length (p := (·.within (PackageSet.ofList P))) (l := E)
  rw [← hinc] at hsum
  omega

theorem squareSum_le : squareSum P E ≤ 2 * E.length ^ 2 := by
  calc squareSum P E ≤ ∑ i ∈ P.toFinset, E.length * incidence P E i := by
        refine Finset.sum_le_sum fun i hi => ?_
        rw [pow_two]
        exact Nat.mul_le_mul_right _ (incidence_le_length P E (List.mem_toFinset.1 hi))
    _ = E.length * incidenceSum P E := by rw [incidenceSum, Finset.mul_sum]
    _ ≤ E.length * (2 * E.length) := Nat.mul_le_mul_left _ (incidenceSum_le P E)
    _ = 2 * E.length ^ 2 := by ring

def counts : Modularity := ⟨E.length, internalCount E, incidenceSum P E, squareSum P E⟩

theorem numerator_counts :
    (counts P E).numerator = internalCount E * E.length - squareSum P E := rfl

theorem denominator_counts : (counts P E).denominator = (E.length : Int) ^ 2 - squareSum P E := by
  rw [pow_two]
  rfl

theorem denominator_counts_eq_zero : (counts P E).denominator = 0 ↔ squareSum P E = E.length ^ 2 := by
  rw [denominator_counts, ← Nat.cast_pow]
  omega

theorem isFinite_q (hn : E.length < 2 ^ 63) (hs : squareSum P E ≠ E.length ^ 2) :
    (counts P E).q.isFinite = true := by
  have hsquare : E.length ^ 2 < 2 ^ 126 := by
    calc E.length ^ 2 < (2 ^ 63) ^ 2 := Nat.pow_lt_pow_left hn (by decide)
      _ = 2 ^ 126 := by decide
  have hsum := squareSum_le P E
  have hinternal : internalCount E * E.length ≤ E.length ^ 2 := by
    rw [pow_two]
    exact Nat.mul_le_mul_right _ List.countP_le_length
  have hnum : (counts P E).numerator.natAbs < 2 ^ 128 := by
    rw [numerator_counts, ← Nat.cast_mul]
    omega
  have hden : (counts P E).denominator.natAbs < 2 ^ 128 := by
    rw [denominator_counts, ← Nat.cast_pow]
    omega
  exact Binary64.isFinite_ofInt_div hnum (mt (denominator_counts_eq_zero P E).1 hs) hden

def measured : Except ScoreError Modularity :=
  Modularity.of (Registry.ofPackages P).packages (EdgeMultiset.ofList E)

theorem measured_eq : measured P E =
    if E.length = 0 then .error .noEdges
    else if squareSum P E = E.length ^ 2 then .error (.degenerate P.toFinset.card)
    else .ok (counts P E) := by
  rw [measured, Registry.ofPackages, Modularity.of_eq (EdgeMultiset.records_ofList E), tally_ofList,
    PackageSet.size_ofList]
  simp only [← denominator_counts_eq_zero P E]
  rfl

theorem quotient_counts (hn : E.length ≠ 0) :
    ((counts P E).numerator : ℚ) / (counts P E).denominator = score P E := by
  rw [score_eq P E hn, numerator_counts, denominator_counts]
  push_cast
  rfl

theorem one_sub_squaredShares_ne_zero (hn : E.length ≠ 0) (hs : squareSum P E ≠ E.length ^ 2) :
    1 - squaredShares P E ≠ 0 := by
  have hn' : (E.length : ℚ) ≠ 0 := Nat.cast_ne_zero.2 hn
  have hq : (E.length : ℚ) ^ 2 - squareSum P E ≠ 0 := by
    intro h
    have hcast : ((squareSum P E : Nat) : ℚ) = ((E.length ^ 2 : Nat) : ℚ) := by
      rw [Nat.cast_pow]
      exact (sub_eq_zero.1 h).symm
    exact hs (Nat.cast_injective hcast)
  rw [squaredShares_eq, one_sub_div (pow_ne_zero 2 hn')]
  exact div_ne_zero hq (pow_ne_zero 2 hn')

/-- The score of the multiset that a list of edges is collected in is the one defined on the list.
It is missing exactly where there are no edges or the quotient has no denominator, and below
`2 ^ 63` edges it is always a number. -/
theorem measured_eq_score :
    (measured P E = .error .noEdges ↔ E.length = 0) ∧
    (E.length ≠ 0 →
      (measured P E = .error (.degenerate P.toFinset.card) ↔ squareSum P E = E.length ^ 2)) ∧
    (E.length ≠ 0 → squareSum P E ≠ E.length ^ 2 → ∃ m, measured P E = .ok m ∧
      m.edges = E.length ∧ m.internal = internalCount E ∧ m.incidenceSum = incidenceSum P E ∧
      m.numerator = internalCount E * E.length - squareSum P E ∧
      m.denominator = E.length ^ 2 - squareSum P E ∧
      m.q = Binary64.ofInt m.numerator / Binary64.ofInt m.denominator ∧
      (E.length < 2 ^ 63 → m.q.isFinite = true) ∧
      1 - squaredShares P E ≠ 0 ∧ (m.numerator : ℚ) / m.denominator = score P E) := by
  rw [measured_eq]
  refine ⟨?_, ?_, ?_⟩
  · by_cases hn : E.length = 0
    · simp [hn]
    · by_cases hs : squareSum P E = E.length ^ 2 <;> simp [hn, hs]
  · intro hn
    rw [if_neg hn]
    by_cases hs : squareSum P E = E.length ^ 2 <;> simp [hs]
  · intro hn hs
    exact ⟨counts P E, by rw [if_neg hn, if_neg hs], rfl, rfl, rfl, numerator_counts P E,
      denominator_counts P E, rfl, fun hb => isFinite_q P E hb hs,
      one_sub_squaredShares_ne_zero P E hn hs, quotient_counts P E hn⟩

theorem isFinite_of_score {packages : PackageSet} {m : Modularity}
    (h : Modularity.of packages (EdgeMultiset.ofList E) = .ok m) (hm : m.edges < 2 ^ 63) :
    m.q.isFinite = true := by
  have hmeasured : measured packages.keys E = .ok m := by
    rw [measured, Registry.ofPackages, PackageSet.ofList_keys]
    exact h
  rw [measured_eq] at hmeasured
  split at hmeasured
  · simp at hmeasured
  · split at hmeasured
    · simp at hmeasured
    · rename_i hs
      obtain rfl := Except.ok.inj hmeasured
      exact isFinite_q _ E hm hs

-- Three edges in one package, two in another and one between them: the score is 5 / 11.
example : Modularity.of (PackageSet.ofList ["a", "b"]) (EdgeMultiset.ofList
    [⟨"a", "a", .calls⟩, ⟨"a", "a", .inherits⟩, ⟨"a", "a", .calls⟩, ⟨"b", "b", .calls⟩,
      ⟨"b", "b", .calls⟩, ⟨"b", "a", .fieldAccess⟩]) = .ok ⟨6, 5, 7, 25⟩ := rfl

end PackageModularity.ListScore
