import Mathlib.Algebra.Order.Field.Basic
import Mathlib.Tactic.NormNum
import Mathlib.Tactic.Ring
import PackageModularity.Proofs.Coupling.MeetingPairs

/-!
Where a set of packages has no score, and where its score is at most one. Both are a matter of how
many pairs of edges lie apart against how many join the same two packages.
-/
namespace PackageModularity

section
variable {packages : PackageSet} {es : List Edge}

theorem apartPairs_eq_zero_iff :
    apartPairs packages es = 0 ↔ ∀ e ∈ es, ∀ f ∈ es, e.meets packages f = true := by
  simp only [apartPairs, List.countP_eq_zero, Bool.not_eq_true', Bool.not_eq_false, Prod.forall,
    List.mem_product, and_imp]
  exact forall_congr' fun e => forall_comm

theorem parallelPairs_eq_zero
    (h : ∀ e ∈ es, e.within packages = true → e.isInternal = true) :
    parallelPairs packages es = 0 := by
  simp only [parallelPairs, List.countP_eq_zero, Prod.forall, List.mem_product]
  rintro e f ⟨he, -⟩ hparallel
  simp only [Edge.parallel, Bool.and_eq_true, Bool.not_eq_true'] at hparallel
  simp [h e he hparallel.1.1] at hparallel

theorem Edge.meets_of_loops {a : String} {e f : Edge} (he : e.within packages = true)
    (hf : f.within packages = true) (hea : e.source = a ∧ e.target = a)
    (hfa : f.source = a ∧ f.target = a) : e.meets packages f = true := by
  simp [meets, he, hf, hea, hfa]

theorem Edge.loop_of_meets {e f : Edge} (he : e.isInternal = true) (hf : f.isInternal = true)
    (h : e.meets packages f = true) : f.source = e.source ∧ f.target = e.source := by
  simp only [isInternal, beq_iff_eq] at he hf
  simp only [meets, Bool.and_eq_true, Bool.or_eq_true, beq_iff_eq, ← he, ← hf, or_self] at h
  exact ⟨h.2, hf ▸ h.2⟩

theorem exists_single_of_apartPairs (hne : es ≠ []) (hloops : ∀ e ∈ es, e.isInternal = true)
    (h : apartPairs packages es = 0) : ∃ a, ∀ e ∈ es, e.source = a ∧ e.target = a := by
  obtain ⟨e, he⟩ := List.exists_mem_of_ne_nil es hne
  exact ⟨e.source, fun f hf => Edge.loop_of_meets (hloops e he) (hloops f hf)
    (apartPairs_eq_zero_iff.1 h e he f hf)⟩

theorem countP_or_of_apart {α : Type} {p q : α → Bool} (h : ∀ x, p x = true → q x = false)
    (xs : List α) : (xs.countP fun x => p x || q x) = xs.countP p + xs.countP q := by
  induction xs with
  | nil => rfl
  | cons x xs ih =>
    have hx := h x
    simp only [List.countP_cons, ih]
    cases hp : p x <;> cases hq : q x <;> simp_all <;> omega

def Edge.Between (e : Edge) (a b : String) : Prop :=
  (e.source = a ∨ e.source = b) ∧ (e.target = a ∨ e.target = b)

theorem Edge.apart_and_parallel_of_two {a b : String} (hab : a ≠ b) {e f : Edge}
    (he : e.within packages = true) (hf : f.within packages = true)
    (hends : e.Between a b) (hends' : f.Between a b) :
    (!e.meets packages f) = (e.joins a a && f.joins b b || e.joins b b && f.joins a a) ∧
      e.parallel packages f = (e.joins a b && f.joins a b) := by
  have hba : b ≠ a := hab.symm
  obtain ⟨hs | hs, ht | ht⟩ := hends <;> obtain ⟨hs' | hs', ht' | ht'⟩ := hends' <;>
    simp [meets, parallel, isInternal, joins, *]

theorem pairs_of_two {a b : String} (hab : a ≠ b)
    (hes : ∀ e ∈ es, e.within packages = true ∧ e.Between a b) :
    apartPairs packages es = 2 * (es.countP (·.joins a a) * es.countP (·.joins b b)) ∧
      parallelPairs packages es = es.countP (·.joins a b) ^ 2 := by
  have hboth : ∀ p ∈ es ×ˢ es,
      (!p.1.meets packages p.2) =
          (p.1.joins a a && p.2.joins b b || p.1.joins b b && p.2.joins a a) ∧
        p.1.parallel packages p.2 = (p.1.joins a b && p.2.joins a b) := by
    intro p hp
    obtain ⟨he, hf⟩ := List.mem_product.1 hp
    exact Edge.apart_and_parallel_of_two hab (hes _ he).1 (hes _ hf).1 (hes _ he).2 (hes _ hf).2
  have hdisjoint : ∀ p : Edge × Edge, (p.1.joins a a && p.2.joins b b) = true →
      (p.1.joins b b && p.2.joins a a) = false := by
    rintro ⟨e, f⟩ h
    simp only [Edge.joins, Bool.or_self, Bool.and_eq_true, beq_iff_eq] at h
    simp [Edge.joins, h, hab]
  constructor
  · rw [apartPairs, List.countP_congr fun p hp => by rw [(hboth p hp).1],
      countP_or_of_apart hdisjoint,
      countP_product_and (Edge.joins · a a) (Edge.joins · b b),
      countP_product_and (Edge.joins · b b) (Edge.joins · a a)]
    ring
  · rw [parallelPairs, List.countP_congr fun p hp => by rw [(hboth p hp).2],
      countP_product_and (Edge.joins · a b) (Edge.joins · a b), pow_two]

end

namespace EdgeMultiset

section
variable {m : EdgeMultiset} {es : List Edge} (h : m.Records es) (packages : PackageSet)
include h

theorem Records.degenerate_iff (hne : es ≠ []) :
    Modularity.of packages m = .error (.degenerate packages.size) ↔
      apartPairs packages es = parallelPairs packages es := by
  have hn : es.length ≠ 0 := mt List.length_eq_zero_iff.1 hne
  have hden := denominator_tally h packages
  rw [Modularity.of_eq h, if_neg hn]
  by_cases hz : (Modularity.tally packages m).denominator = 0
  · simp only [hz, if_true, true_iff]
    omega
  · simp only [hz, if_false, reduceCtorEq, false_iff]
    omega

theorem Records.of_eq_ok_iff {score : Modularity} : Modularity.of packages m = .ok score ↔
    es ≠ [] ∧ apartPairs packages es ≠ parallelPairs packages es ∧
      score = Modularity.tally packages m := by
  have hden := denominator_tally h packages
  have hzero : (Modularity.tally packages m).denominator = 0 ↔
      apartPairs packages es = parallelPairs packages es := by omega
  rw [Modularity.of_eq h]
  by_cases hn : es = []
  · simp [hn]
  · by_cases hp : apartPairs packages es = parallelPairs packages es <;>
      simp [hn, hp, hzero, eq_comm]

end

/-- There is no score exactly where as many pairs of edges lie apart as join the same two packages.
Loops alone make it so only if all are of one package, and two packages only if the square of the
edges across is twice the product of the loops. -/
theorem degenerate_iff_apart_eq_parallel (r : Registry) (steps : List Step)
    (hne : held steps ≠ [])
    (hin : ∀ e ∈ held steps, r.contains e.source = true ∧ r.contains e.target = true) :
    (Modularity.of r.packages (run steps) = .error (.degenerate r.size) ↔
      apartPairs r.packages (held steps) = parallelPairs r.packages (held steps)) ∧
    (apartPairs r.packages (held steps) ≠ parallelPairs r.packages (held steps) →
      ∃ m, Modularity.of r.packages (run steps) = .ok m) ∧
    ((∃ a, ∀ e ∈ held steps, e.source = a ∧ e.target = a) →
      Modularity.of r.packages (run steps) = .error (.degenerate r.size)) ∧
    ((∀ e ∈ held steps, e.source = e.target) →
      Modularity.of r.packages (run steps) = .error (.degenerate r.size) →
      ∃ a, ∀ e ∈ held steps, e.source = a ∧ e.target = a) ∧
    ∀ a b, a ≠ b → (∀ e ∈ held steps, (e.source = a ∨ e.source = b) ∧
        (e.target = a ∨ e.target = b)) →
      (Modularity.of r.packages (run steps) = .error (.degenerate r.size) ↔
        (run steps).multiplicity a b ^ 2 =
          2 * ((run steps).multiplicity a a * (run steps).multiplicity b b)) := by
  have hrec : Records (run steps) (held steps) := records_run steps
  have hwithin : ∀ e ∈ held steps, e.within r.packages = true :=
    fun e he => Bool.and_eq_true_iff.2 (hin e he)
  have hiff := hrec.degenerate_iff r.packages hne
  refine ⟨hiff, fun hp => ⟨_, (hrec.of_eq_ok_iff r.packages).2 ⟨hne, hp, rfl⟩⟩, ?_, ?_, ?_⟩
  · rintro ⟨a, ha⟩
    refine hiff.2 ?_
    have hloops : ∀ e ∈ held steps, e.within r.packages = true → e.isInternal = true := by
      intro e he _
      simp [Edge.isInternal, ha e he]
    rw [parallelPairs_eq_zero hloops, apartPairs_eq_zero_iff]
    exact fun e he f hf => Edge.meets_of_loops (hwithin e he) (hwithin f hf) (ha e he) (ha f hf)
  · intro hloops hdegenerate
    have hinternal : ∀ e ∈ held steps, e.isInternal = true :=
      fun e he => beq_iff_eq.2 (hloops e he)
    have hzero := hiff.1 hdegenerate
    rw [parallelPairs_eq_zero fun e he _ => hinternal e he] at hzero
    exact exists_single_of_apartPairs hne hinternal hzero
  · intro a b hab hends
    obtain ⟨hapart, hparallel⟩ := pairs_of_two hab fun e he => ⟨hwithin e he, hends e he⟩
    refine hiff.trans ?_
    rw [hapart, hparallel, hrec.multiplicity, hrec.multiplicity, hrec.multiplicity, eq_comm]

def balancedSteps : List Step :=
  [.extend [⟨"a", "a", .calls⟩, ⟨"a", "a", .inherits⟩, ⟨"b", "b", .calls⟩],
    .insert ⟨"a", "b", .calls⟩, .insert ⟨"b", "a", .fieldAccess⟩]

theorem degenerate_iff_balanced :
    held balancedSteps ≠ [] ∧
    (∀ e ∈ held balancedSteps, (Registry.ofPackages ["a", "b"]).contains e.source = true ∧
      (Registry.ofPackages ["a", "b"]).contains e.target = true) ∧
    ((run balancedSteps).multiplicity "a" "b" ^ 2 =
      2 * ((run balancedSteps).multiplicity "a" "a" * (run balancedSteps).multiplicity "b" "b")) ∧
    apartPairs (Registry.ofPackages ["a", "b"]).packages (held balancedSteps) = 4 ∧
    parallelPairs (Registry.ofPackages ["a", "b"]).packages (held balancedSteps) = 4 := by
  have hin : ∀ e ∈ held balancedSteps, (Registry.ofPackages ["a", "b"]).contains e.source = true ∧
      (Registry.ofPackages ["a", "b"]).contains e.target = true := by decide
  obtain ⟨hiff, -, -, -, htwo⟩ := degenerate_iff_apart_eq_parallel (Registry.ofPackages ["a", "b"])
    balancedSteps (by decide) hin
  have hfour : parallelPairs (Registry.ofPackages ["a", "b"]).packages (held balancedSteps) = 4 := by
    decide
  have hdegenerate := (htwo "a" "b" (by decide) (by decide)).2 (by decide)
  exact ⟨by decide, hin, by decide, (hiff.1 hdegenerate).trans hfour, hfour⟩

/-- Edges of two packages can be without a score. -/
theorem degenerate_of_two_packages :
    (∀ e ∈ held balancedSteps, (Registry.ofPackages ["a", "b"]).contains e.source = true ∧
      (Registry.ofPackages ["a", "b"]).contains e.target = true) ∧
    (¬ ∃ a, ∀ e ∈ held balancedSteps, e.source = a ∧ e.target = a) ∧
    Modularity.of (Registry.ofPackages ["a", "b"]).packages (run balancedSteps) =
      .error (.degenerate 2) := by
  refine ⟨by decide, ?_, rfl⟩
  rintro ⟨a, ha⟩
  have hloop := ha ⟨"a", "b", .calls⟩ (by decide)
  exact absurd (hloop.1.trans hloop.2.symm) (by decide)

end EdgeMultiset

namespace Modularity

variable {m : Modularity}

theorem denominator_pos_iff : 0 < m.denominator ↔ m.squareSum < m.edges ^ 2 := by
  rw [denominator, ← Nat.cast_mul, pow_two]
  omega

theorem denominator_sub_numerator :
    m.denominator - m.numerator = m.edges * ((m.edges : Int) - m.internal) := by
  rw [denominator, numerator]
  ring

section
variable (hin : m.internal ≤ m.edges)
include hin

theorem numerator_le_denominator : m.numerator ≤ m.denominator := by
  have hdiff := m.denominator_sub_numerator
  have hpos : 0 ≤ (m.edges : Int) * ((m.edges : Int) - m.internal) :=
    Int.mul_nonneg (Int.natCast_nonneg _) (by omega)
  omega

theorem numerator_eq_denominator_iff : m.numerator = m.denominator ↔ m.internal = m.edges := by
  have hdiff := m.denominator_sub_numerator
  constructor
  · intro heq
    rw [heq, sub_self, eq_comm, Int.mul_eq_zero] at hdiff
    omega
  · intro heq
    rw [heq, sub_self, Int.mul_zero] at hdiff
    omega

theorem quotient_le_one_iff (hden : m.denominator ≠ 0)
    (hloops : m.internal = m.edges → 0 < m.denominator) :
    (m.numerator : ℚ) / m.denominator ≤ 1 ↔ 0 < m.denominator := by
  have hle : m.numerator ≤ m.denominator := numerator_le_denominator hin
  by_cases hpos : 0 < m.denominator
  · have hpos' : (0 : ℚ) < m.denominator := Int.cast_pos.2 hpos
    rw [div_le_one hpos', Int.cast_le]
    exact iff_of_true hle hpos
  · have hneg : m.denominator < 0 := by omega
    have hne : m.numerator ≠ m.denominator :=
      fun heq => hpos (hloops ((numerator_eq_denominator_iff hin).1 heq))
    have hneg' : (m.denominator : ℚ) < 0 := Int.cast_lt_zero.2 hneg
    have hlt : (m.numerator : ℚ) < m.denominator := Int.cast_lt.2 (by omega)
    rw [← not_lt, one_lt_div_of_neg hneg']
    exact iff_of_false (not_not.2 hlt) hpos

theorem quotient_eq_one_iff (hden : m.denominator ≠ 0) :
    (m.numerator : ℚ) / m.denominator = 1 ↔ m.internal = m.edges := by
  rw [div_eq_one_iff_eq (Int.cast_ne_zero.2 hden), Int.cast_inj, numerator_eq_denominator_iff hin]

end

end Modularity

namespace EdgeMultiset

/-- A score is at most one exactly where more pairs of edges do not meet than join the same two
packages, so wherever no edge joins two packages of the set. It is one only for loops alone. -/
theorem quotient_le_one_iff_parallel_lt_apart (r : Registry) (steps : List Step) {m : Modularity}
    (h : Modularity.of r.packages (run steps) = .ok m) :
    ((m.numerator : ℚ) / m.denominator ≤ 1 ↔ m.squareSum < m.edges ^ 2) ∧
    (m.squareSum < m.edges ^ 2 ↔
      parallelPairs r.packages (held steps) < apartPairs r.packages (held steps)) ∧
    ((∀ e ∈ held steps, r.contains e.source = true → r.contains e.target = true →
      e.source = e.target) → (m.numerator : ℚ) / m.denominator ≤ 1) ∧
    ((m.numerator : ℚ) / m.denominator = 1 ↔ ∀ e ∈ held steps, e.source = e.target) := by
  have hrec : Records (run steps) (held steps) := records_run steps
  obtain ⟨-, hne, hm⟩ := (hrec.of_eq_ok_iff r.packages).1 h
  have hpairs : m.denominator = (apartPairs r.packages (held steps) : Int) -
      parallelPairs r.packages (held steps) := hm ▸ denominator_tally hrec r.packages
  have hinternal : m.internal = (held steps).countP Edge.isInternal := hm ▸ hrec.internal
  have hedges : m.edges = (held steps).length := hm ▸ hrec.total
  have hden : m.denominator ≠ 0 := by omega
  have hin : m.internal ≤ m.edges := by
    rw [hinternal, hedges]
    exact List.countP_le_length
  have hloops : m.internal = m.edges ↔ ∀ e ∈ held steps, e.source = e.target := by
    rw [hinternal, hedges, List.countP_eq_length]
    simp only [Edge.isInternal, beq_iff_eq]
  -- without an edge across there are no parallel pairs, and then the denominator is not negative
  have hapart : (∀ e ∈ held steps, e.within r.packages = true → e.isInternal = true) →
      0 < m.denominator := by
    intro hcross
    rw [parallelPairs_eq_zero hcross] at hpairs
    omega
  have hle := Modularity.quotient_le_one_iff hin hden fun hall =>
    hapart fun e he _ => beq_iff_eq.2 (hloops.1 hall e he)
  refine ⟨hle.trans Modularity.denominator_pos_iff, ?_, ?_,
    (Modularity.quotient_eq_one_iff hin hden).trans hloops⟩
  · rw [← Modularity.denominator_pos_iff]
    omega
  · intro hcross
    refine hle.2 (hapart fun e he hw => ?_)
    obtain ⟨hs, ht⟩ := Bool.and_eq_true_iff.1 hw
    exact beq_iff_eq.2 (hcross e he hs ht)

/-- Loops in two packages, an edge across and one to a package outside the set. -/
def looseSteps : List Step :=
  [.extend [⟨"a", "a", .calls⟩, ⟨"a", "a", .inherits⟩, ⟨"b", "b", .calls⟩],
    .insert ⟨"a", "b", .calls⟩, .insert ⟨"b", "z", .fieldAccess⟩]

theorem quotient_le_one_loose :
    Modularity.of (Registry.ofPackages ["a", "b"]).packages (run looseSteps) = .ok ⟨5, 3, 5, 13⟩ ∧
    parallelPairs (Registry.ofPackages ["a", "b"]).packages (held looseSteps) <
      apartPairs (Registry.ofPackages ["a", "b"]).packages (held looseSteps) ∧
    ((Modularity.mk 5 3 5 13).numerator : ℚ) / (Modularity.mk 5 3 5 13).denominator ≤ 1 := by
  have h : Modularity.of (Registry.ofPackages ["a", "b"]).packages (run looseSteps) =
      .ok ⟨5, 3, 5, 13⟩ := rfl
  obtain ⟨hle, hpairs, -, -⟩ := quotient_le_one_iff_parallel_lt_apart _ looseSteps h
  exact ⟨h, hpairs.1 (by decide), hle.2 (by decide)⟩

/-- One edge between two packages has the score two. -/
theorem one_lt_quotient_of_crossing :
    Modularity.of (Registry.ofPackages ["a", "b"]).packages (run [.insert ⟨"a", "b", .calls⟩]) =
      .ok ⟨1, 0, 2, 2⟩ ∧
    1 < ((Modularity.mk 1 0 2 2).numerator : ℚ) / (Modularity.mk 1 0 2 2).denominator := by
  refine ⟨rfl, ?_⟩
  norm_num [Modularity.numerator, Modularity.denominator]

end EdgeMultiset

end PackageModularity
