import PackageModularity.Proofs.Coupling.PairCounts

/-!
The incidences of a multiset, and the counts of a score, are those of the edges put into it: an
edge counts at a package that it touches if both of its ends are in the package set.
-/
namespace PackageModularity

def Ends.countsAt (packages : PackageSet) (i : String) (k : Ends) : Bool :=
  packages.contains k.low && packages.contains k.high && (k.low == i || k.high == i)

def Edge.countsAt (packages : PackageSet) (i : String) (e : Edge) : Bool :=
  packages.contains e.source && packages.contains e.target && (e.source == i || e.target == i)

theorem Edge.countsAt_ends (packages : PackageSet) (i : String) (e : Edge) :
    e.ends.countsAt packages i = e.countsAt packages i := by
  refine Ends.symmetric_apply
    (fun a b => packages.contains a && packages.contains b && (a == i || b == i)) ?_ _ _
  intro a b
  rw [Bool.and_comm (packages.contains a), Bool.or_comm (a == i)]

def Edge.within (packages : PackageSet) (e : Edge) : Bool :=
  packages.contains e.source && packages.contains e.target

theorem Edge.countsAt_eq (packages : PackageSet) (i : String) (e : Edge) :
    e.countsAt packages i = (e.within packages && (e.source == i || e.target == i)) := rfl

section
variable {packages : PackageSet} {names : List String}
  (hp : ∀ p, (packages.get? p).isSome ↔ p ∈ names)
include hp

theorem Edge.sum_countsAt_mul (e : Edge) (g : String → Nat) :
    (∑ i ∈ names.toFinset, (if e.countsAt packages i then 1 else 0) * g i) =
      if e.within packages then g e.source + (if e.isInternal then 0 else g e.target) else 0 := by
  by_cases hw : e.within packages = true
  · obtain ⟨hs, ht⟩ := Bool.and_eq_true_iff.1 hw
    have hs : e.source ∈ names.toFinset := List.mem_toFinset.2 ((hp _).1 hs)
    have ht : e.target ∈ names.toFinset := List.mem_toFinset.2 ((hp _).1 ht)
    simp only [countsAt_eq, isInternal, hw, Bool.true_and, Bool.or_eq_true, beq_iff_eq, if_true,
      ite_mul, Nat.one_mul, Nat.zero_mul]
    by_cases hloop : e.source = e.target
    · simp only [hloop, or_self, if_true, Finset.sum_ite_eq, if_pos ht, Nat.add_zero]
    · have htwo : ∀ i ∈ names.toFinset, (if e.source = i ∨ e.target = i then g i else 0) =
          (if e.source = i then g i else 0) + if e.target = i then g i else 0 := by
        intro i _
        by_cases hi : e.source = i
        · subst hi
          simp [Ne.symm hloop]
        · simp [hi]
      rw [Finset.sum_congr rfl htwo, Finset.sum_add_distrib, Finset.sum_ite_eq, Finset.sum_ite_eq,
        if_pos hs, if_pos ht, if_neg hloop]
  · simp [countsAt_eq, hw]

theorem Edge.sum_countsAt (e : Edge) :
    (∑ i ∈ names.toFinset, if e.countsAt packages i then 1 else 0) +
      (if e.within packages && e.isInternal then 1 else 0) =
        2 * if e.within packages then 1 else 0 := by
  have hsum := e.sum_countsAt_mul hp fun _ => 1
  simp only [Nat.mul_one] at hsum
  rw [hsum]
  by_cases hw : e.within packages = true <;> by_cases hloop : e.isInternal = true <;>
    simp [hw, hloop]

theorem sum_countP_countsAt (es : List Edge) :
    (∑ i ∈ names.toFinset, es.countP (·.countsAt packages i)) +
      es.countP (fun e => e.within packages && e.isInternal) =
        2 * es.countP (·.within packages) := by
  induction es with
  | nil => simp
  | cons e es ih =>
    have he := e.sum_countsAt hp
    simp only [List.countP_cons, Finset.sum_add_distrib]
    omega

end

namespace EdgeMultiset

theorem Records.contains_of_mem_pairs {m : EdgeMultiset} {es : List Edge} (h : m.Records es)
    {packages : PackageSet} (hes : ∀ e ∈ es, e.within packages = true) {p : Ends × Nat}
    (hp : p ∈ m.pairs) : packages.contains p.1.low = true ∧ packages.contains p.1.high = true := by
  obtain ⟨e, he, hends⟩ := h.exists_of_mem_pairs hp
  have hw : (packages.contains e.ends.low && packages.contains e.ends.high) = e.within packages :=
    Ends.symmetric_apply (fun a b => packages.contains a && packages.contains b)
      (fun a b => Bool.and_comm _ _) _ _
  rw [hes e he, Bool.and_eq_true] at hw
  exact hends ▸ hw

theorem getD_alter_add (d : Dict String Nat) (name i : String) (n : Nat) :
    ((d.alter name fun old => old.getD 0 + n).get? i).getD 0 =
      (d.get? i).getD 0 + if name = i then n else 0 := by
  rw [Dict.get?_alter]
  by_cases h : i = name
  · simp [h]
  · have h' : name ≠ i := fun e => h e.symm
    simp [h, h']

theorem get?_addIncidence (packages : PackageSet) (d : Dict String Nat) (p : Ends × Nat)
    (i : String) : ((addIncidence packages d p).get? i).getD 0 =
      (d.get? i).getD 0 + (if p.1.countsAt packages i then 1 else 0) * p.2 := by
  obtain ⟨⟨a, b⟩, n⟩ := p
  by_cases hin : packages.contains a && packages.contains b
  · by_cases hab : a = b
    · subst hab
      simp only [addIncidence, hin, if_true, getD_alter_add, Ends.countsAt, Bool.true_and,
        Bool.or_self, beq_iff_eq, ite_mul, Nat.one_mul, Nat.zero_mul]
    · simp only [addIncidence, hin, hab, if_true, if_false, getD_alter_add, Ends.countsAt,
        Bool.true_and, Bool.or_eq_true, beq_iff_eq]
      by_cases ha : a = i
      · have hb : b ≠ i := fun hb => hab (ha.trans hb.symm)
        simp [ha, hb]
      · by_cases hb : b = i <;> simp [ha, hb]
  · simp [addIncidence, Ends.countsAt, hin]

theorem get?_foldl_addIncidence (packages : PackageSet) (ps : List (Ends × Nat))
    (d : Dict String Nat) (i : String) : ((ps.foldl (addIncidence packages) d).get? i).getD 0 =
      (d.get? i).getD 0 + (ps.map fun p => (if p.1.countsAt packages i then 1 else 0) * p.2).sum := by
  induction ps generalizing d with
  | nil => rfl
  | cons p ps ih =>
    rw [List.foldl_cons, ih, get?_addIncidence, List.map_cons, List.sum_cons, Nat.add_assoc]

theorem Records.incidence {m : EdgeMultiset} {es : List Edge} (h : Records m es)
    (packages : PackageSet) (i : String) :
    ((m.incidences packages).get? i).getD 0 = es.countP (·.countsAt packages i) := by
  rw [incidences, get?_foldl_addIncidence, Dict.get?_empty, Option.getD_none, Nat.zero_add,
    h.weight fun k => if k.countsAt packages i then 1 else 0]
  simp only [Edge.countsAt_ends, sum_map_indicator]

end EdgeMultiset

namespace Modularity

theorem sum_eq (ns : List Nat) : sum ns = ns.sum := by
  induction ns with
  | nil => rfl
  | cons n ns ih => rw [sum, ih, List.sum_cons]

/-- The counts of a score, from the edges themselves. -/
theorem tally_eq {m : EdgeMultiset} {es : List Edge} (h : m.Records es) {packages : PackageSet}
    {names : List String} (hp : ∀ p, (packages.get? p).isSome ↔ p ∈ names) :
    tally packages m = ⟨es.length, es.countP Edge.isInternal,
      ∑ i ∈ names.toFinset, es.countP (·.countsAt packages i),
      ∑ i ∈ names.toFinset, es.countP (·.countsAt packages i) ^ 2⟩ := by
  simp only [tally, sum_eq, h.total, h.internal, h.incidence, List.map_map, Dict.sum_keys hp,
    Function.comp_def, pow_two]

theorem incidenceSum_tally {m : EdgeMultiset} {es : List Edge} (h : m.Records es)
    (packages : PackageSet) : (tally packages m).incidenceSum +
      es.countP (fun e => e.within packages && e.isInternal) = 2 * es.countP (·.within packages) := by
  rw [tally_eq h fun _ => Dict.mem_keys_iff.symm]
  exact sum_countP_countsAt (fun _ => Dict.mem_keys_iff.symm) es

theorem of_eq {m : EdgeMultiset} {es : List Edge} (h : m.Records es) (packages : PackageSet) :
    Modularity.of packages m =
      if es.length = 0 then .error .noEdges
      else if (tally packages m).denominator = 0 then .error (.degenerate packages.size)
      else .ok (tally packages m) := by
  simp only [Modularity.of, h.total]

theorem eq_tally_of_ok {packages : PackageSet} {m : EdgeMultiset} {score : Modularity}
    (h : Modularity.of packages m = .ok score) : score = tally packages m := by
  simp only [Modularity.of] at h
  split at h
  · simp at h
  · split at h
    · simp at h
    · exact (Except.ok.inj h).symm

theorem incidenceSum_of_within {m : EdgeMultiset} {es : List Edge} (h : m.Records es)
    {packages : PackageSet} (hes : ∀ e ∈ es, e.within packages = true) {score : Modularity}
    (hs : Modularity.of packages m = .ok score) :
    score.internal ≤ score.edges ∧ score.incidenceSum = 2 * score.edges - score.internal := by
  have hm := eq_tally_of_ok hs
  have hedges : score.edges = es.length := hm ▸ h.total
  have hinternal : score.internal = es.countP Edge.isInternal := hm ▸ h.internal
  have hle := List.countP_le_length (p := Edge.isInternal) (l := es)
  have hloops : es.countP (fun e => e.within packages && e.isInternal) =
      es.countP Edge.isInternal :=
    List.countP_congr fun e he => by rw [hes e he, Bool.true_and]
  have hsum := incidenceSum_tally h packages
  rw [← hm, hloops, List.countP_eq_length.2 hes] at hsum
  omega

end Modularity

end PackageModularity
