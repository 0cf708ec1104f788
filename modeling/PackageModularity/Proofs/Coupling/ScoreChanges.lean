import PackageModularity.Proofs.Coupling.IncidenceSums
import PackageModularity.Proofs.Coupling.ScoreRange

/-!
What changes a score and what does not. An edge drawn into one of its packages raises it; other names
for the packages, further copies of all edges and packages that no edge touches leave it as it is.
-/
namespace PackageModularity

theorem Edge.countsAt_of_joins {packages : PackageSet} {e : Edge} {x y : String}
    (h : e.joins x y = true) (hx : packages.contains x = true) (hy : packages.contains y = true)
    (i : String) : e.countsAt packages i = (x == i || y == i) := by
  simp only [joins, Bool.or_eq_true, Bool.and_eq_true, beq_iff_eq] at h
  rcases h with ⟨rfl, rfl⟩ | ⟨rfl, rfl⟩
  · simp [countsAt, hx, hy]
  · simp [countsAt, hx, hy, Bool.or_comm]

theorem Edge.isInternal_of_joins {e : Edge} {x y : String} (h : e.joins x y = true) :
    e.isInternal = (x == y) := by
  simp only [joins, Bool.or_eq_true, Bool.and_eq_true, beq_iff_eq] at h
  rcases h with ⟨rfl, rfl⟩ | ⟨rfl, rfl⟩
  · rfl
  · exact BEq.comm

theorem sum_square_drawn_in {packages : PackageSet} {names : List String} {x y : String}
    (hxy : x ≠ y) (hy : y ∈ names) {e f : Edge}
    (he : ∀ i, e.countsAt packages i = (x == i || y == i))
    (hf : ∀ i, f.countsAt packages i = (x == i)) (rest : List Edge) :
    ∑ i ∈ names.toFinset, (e :: rest).countP (·.countsAt packages i) ^ 2 =
      (∑ i ∈ names.toFinset, (f :: rest).countP (·.countsAt packages i) ^ 2) +
        (2 * rest.countP (·.countsAt packages y) + 1) := by
  have hat : ∀ i ∈ names.toFinset, (e :: rest).countP (·.countsAt packages i) ^ 2 =
      (f :: rest).countP (·.countsAt packages i) ^ 2 +
        if y = i then 2 * rest.countP (·.countsAt packages y) + 1 else 0 := by
    intro i _
    simp only [List.countP_cons, he, hf]
    by_cases hi : y = i
    · subst hi
      simp only [hxy, beq_self_eq_true, Bool.or_true, if_true, beq_iff_eq, if_false, Nat.add_zero]
      ring
    · simp [hi]
  rw [Finset.sum_congr rfl hat, Finset.sum_add_distrib, Finset.sum_ite_eq,
    if_pos (List.mem_toFinset.2 hy)]

namespace Modularity

theorem one_sub_quotient {m : Modularity} (hden : m.denominator ≠ 0) :
    1 - (m.numerator : ℚ) / m.denominator =
      (m.edges * ((m.edges : ℚ) - m.internal)) / m.denominator := by
  have hdiff : (m.denominator : ℚ) - m.numerator = m.edges * ((m.edges : ℚ) - m.internal) := by
    exact_mod_cast congrArg (Int.cast : Int → ℚ) m.denominator_sub_numerator
  rw [one_sub_div (Int.cast_ne_zero.2 hden), hdiff]

/-- One loop more among as many edges, and a smaller sum of squares, make a larger quotient. -/
theorem quotient_lt_of_loop {m m' : Modularity} (hedges : m'.edges = m.edges)
    (hinternal : m'.internal = m.internal + 1) (hin : m.internal < m.edges)
    (hsquares : m'.squareSum < m.squareSum) (hpos : 0 < m.denominator) :
    m.denominator < m'.denominator ∧
      (m.numerator : ℚ) / m.denominator < (m'.numerator : ℚ) / m'.denominator := by
  have hden : m.denominator < m'.denominator := by
    rw [denominator, denominator, hedges]
    omega
  have hpos' : (0 : ℚ) < m.denominator := Int.cast_pos.2 hpos
  have hn : (0 : ℚ) < m.edges := Nat.cast_pos.2 (by omega)
  have hacross : (0 : ℚ) < (m.edges : ℚ) - m.internal := sub_pos.2 (Nat.cast_lt.2 hin)
  have hfewer : (m.edges : ℚ) - (m.internal + 1 : Nat) < m.edges - m.internal :=
    sub_lt_sub_left (Nat.cast_lt.2 (Nat.lt_succ_self _)) _
  -- what the score lacks to one has a smaller numerator and a larger denominator
  refine ⟨hden, (sub_lt_sub_iff_left 1).1 ?_⟩
  rw [one_sub_quotient (by omega), one_sub_quotient (by omega), hedges, hinternal]
  exact div_lt_div₀ (mul_lt_mul_of_pos_left hfewer hn) (Int.cast_le.2 hden.le)
    (mul_pos hn hacross).le hpos'

theorem of_eq_ok {packages : PackageSet} {m : EdgeMultiset} (hn : (tally packages m).edges ≠ 0)
    (hden : (tally packages m).denominator ≠ 0) :
    Modularity.of packages m = .ok (tally packages m) := by
  have hn : m.total ≠ 0 := hn
  rw [Modularity.of, if_neg hn, if_neg hden]

end Modularity

namespace EdgeMultiset

theorem Records.isFinite_of_ok {m : EdgeMultiset} {es : List Edge} (h : Records m es)
    {packages : PackageSet} {score : Modularity} (hs : Modularity.of packages m = .ok score)
    (hb : score.edges < 2 ^ 63) : score.q.isFinite = true := by
  rw [h.eq_ofList] at hs
  exact ListScore.isFinite_of_score es hs hb

theorem Records.tally_drawn_in {m m' : EdgeMultiset} {packages : PackageSet} {x y : String}
    {e f : Edge} {rest : List Edge} (h : Records m (e :: rest)) (h' : Records m' (f :: rest))
    (hxy : x ≠ y) (hx : packages.contains x = true) (hy : packages.contains y = true)
    (he : e.joins x y = true) (hf : f.joins x x = true) :
    (Modularity.tally packages m').edges = (Modularity.tally packages m).edges ∧
    (Modularity.tally packages m').internal = (Modularity.tally packages m).internal + 1 ∧
    (Modularity.tally packages m).internal < (Modularity.tally packages m).edges ∧
    (Modularity.tally packages m').squareSum < (Modularity.tally packages m).squareSum := by
  have hcross : e.isInternal = false := (Edge.isInternal_of_joins he).trans (by simp [hxy])
  have hloop : f.isInternal = true := (Edge.isInternal_of_joins hf).trans (by simp)
  have hrest := List.countP_le_length (p := Edge.isInternal) (l := rest)
  have hsum := sum_square_drawn_in hxy (Dict.mem_keys_iff.2 hy) (Edge.countsAt_of_joins he hx hy)
    (fun i => (Edge.countsAt_of_joins hf hx hx i).trans (Bool.or_self _)) rest
  rw [Modularity.tally_eq h fun _ => Dict.mem_keys_iff.symm,
    Modularity.tally_eq h' fun _ => Dict.mem_keys_iff.symm]
  simp only [List.length_cons, List.countP_cons_of_pos hloop,
    List.countP_cons_of_neg (Bool.eq_false_iff.1 hcross), true_and]
  omega

/-- Where a score has a positive denominator, drawing one edge between two packages of the set into
one of them leaves a score, and a larger one. -/
theorem score_lt_of_drawn_in (r : Registry) (s t : List Step) {x y : String} (hxy : x ≠ y)
    (hx : r.contains x = true) (hy : r.contains y = true) {e f : Edge} {rest : List Edge}
    (hs : (held s).Perm (e :: rest)) (he : e.joins x y = true)
    (ht : (held t).Perm (f :: rest)) (hf : f.joins x x = true)
    (hpos : 0 < (Modularity.tally r.packages (run s)).denominator) :
    ∃ m m', Modularity.of r.packages (run s) = .ok m ∧ Modularity.of r.packages (run t) = .ok m' ∧
      0 < m.denominator ∧ m.denominator < m'.denominator ∧
      (m.numerator : ℚ) / m.denominator < (m'.numerator : ℚ) / m'.denominator ∧
      (m'.edges < 2 ^ 63 → m'.q.isFinite = true) := by
  have hrec : Records (run s) (e :: rest) := (records_run s).perm hs
  have hrec' : Records (run t) (f :: rest) := (records_run t).perm ht
  obtain ⟨hedges, hinternal, hin, hsquares⟩ := hrec.tally_drawn_in hrec' hxy hx hy he hf
  obtain ⟨hden, hlt⟩ := Modularity.quotient_lt_of_loop hedges hinternal hin hsquares hpos
  have hok := Modularity.of_eq_ok (by omega) hpos.ne'
  have hok' := Modularity.of_eq_ok (by omega) (hpos.trans hden).ne'
  exact ⟨_, _, hok, hok', hpos, hden, hlt, hrec'.isFinite_of_ok hok'⟩

def drawnSteps : List Step :=
  [.insert ⟨"a", "a", .inherits⟩, .extend [⟨"b", "b", .calls⟩, ⟨"a", "a", .fieldAccess⟩],
    .extend [⟨"b", "z", .fieldAccess⟩, ⟨"a", "a", .calls⟩]]

theorem score_lt_of_drawn_in_loose :
    (held looseSteps).Perm (⟨"a", "b", .calls⟩ :: [⟨"a", "a", .calls⟩, ⟨"a", "a", .inherits⟩,
      ⟨"b", "b", .calls⟩, ⟨"b", "z", .fieldAccess⟩]) ∧
    (held drawnSteps).Perm (⟨"a", "a", .fieldAccess⟩ :: [⟨"a", "a", .calls⟩, ⟨"a", "a", .inherits⟩,
      ⟨"b", "b", .calls⟩, ⟨"b", "z", .fieldAccess⟩]) ∧
    (Modularity.tally (PackageSet.ofList ["a", "b"]) (run looseSteps)).denominator = 12 ∧
    ∃ m m', Modularity.of (PackageSet.ofList ["a", "b"]) (run looseSteps) = .ok m ∧
      Modularity.of (PackageSet.ofList ["a", "b"]) (run drawnSteps) = .ok m' ∧
      m = ⟨5, 3, 5, 13⟩ ∧ m' = ⟨5, 4, 4, 10⟩ ∧
      (m.numerator : ℚ) / m.denominator < (m'.numerator : ℚ) / m'.denominator := by
  have hloose : (held looseSteps).Perm (⟨"a", "b", .calls⟩ :: [⟨"a", "a", .calls⟩,
      ⟨"a", "a", .inherits⟩, ⟨"b", "b", .calls⟩, ⟨"b", "z", .fieldAccess⟩]) := by decide
  have hdrawn : (held drawnSteps).Perm (⟨"a", "a", .fieldAccess⟩ :: [⟨"a", "a", .calls⟩,
      ⟨"a", "a", .inherits⟩, ⟨"b", "b", .calls⟩, ⟨"b", "z", .fieldAccess⟩]) := by decide
  obtain ⟨m, m', hm, hm', -, -, hlt, -⟩ := score_lt_of_drawn_in (Registry.ofPackages ["a", "b"])
    looseSteps drawnSteps (show "a" ≠ "b" by decide) (by decide) (by decide) hloose (by decide)
    hdrawn (by decide) (by decide)
  exact ⟨hloose, hdrawn, by decide, m, m', hm, hm', (Except.ok.inj hm).symm,
    (Except.ok.inj hm').symm, hlt⟩

end EdgeMultiset

/-! ### Other names, copies and packages without edges -/

def namesOf (r : Registry) (es : List Edge) : List String :=
  r.packages.keys ++ es.flatMap fun e => [e.source, e.target]

def Edge.renamed (f : String → String) (e : Edge) : Edge := ⟨f e.source, f e.target, e.kind⟩

/-- The same packages under other names, and some more. -/
def Registry.renamed (r : Registry) (f : String → String) (added : List String) : Registry :=
  { r with packages := PackageSet.ofList (r.packages.keys.map f ++ added) }

theorem Registry.isSome_get?_renamed (r : Registry) (f : String → String) (added : List String)
    (p : String) : ((r.renamed f added).packages.get? p).isSome ↔
      p ∈ r.packages.keys.map f ++ added :=
  PackageSet.isSome_get?_ofList _ p

def copies (k : Nat) (es : List Edge) : List Edge := (List.replicate k es).flatten

theorem countP_copies (p : Edge → Bool) (k : Nat) (es : List Edge) :
    (copies k es).countP p = k * es.countP p := by
  rw [copies, List.countP_flatten, List.map_replicate, List.sum_replicate_nat]

theorem length_copies (k : Nat) (es : List Edge) : (copies k es).length = k * es.length := by
  rw [copies, List.length_flatten, List.map_replicate, List.sum_replicate_nat]

section
variable {r : Registry} {es : List Edge} {f : String → String} {added : List String}

theorem mem_namesOf_of_mem_keys {p : String} (h : p ∈ r.packages.keys) : p ∈ namesOf r es :=
  List.mem_append_left _ h

theorem ends_mem_namesOf {e : Edge} (he : e ∈ es) :
    e.source ∈ namesOf r es ∧ e.target ∈ namesOf r es :=
  ⟨List.mem_append_right _ (List.mem_flatMap.2 ⟨e, he, by simp⟩),
    List.mem_append_right _ (List.mem_flatMap.2 ⟨e, he, by simp⟩)⟩

theorem countP_copies_renamed (k : Nat) {p q : Edge → Bool}
    (h : ∀ e ∈ es, p (e.renamed f) = q e) :
    (copies k (es.map (·.renamed f))).countP p = k * es.countP q := by
  rw [countP_copies, List.countP_map]
  exact congrArg (k * ·) (List.countP_congr fun e he => by rw [Function.comp_apply, h e he])

variable (hf : ∀ p ∈ namesOf r es, ∀ q ∈ namesOf r es, f p = f q → p = q)
include hf

theorem renamed_beq {p q : String} (hp : p ∈ namesOf r es) (hq : q ∈ namesOf r es) :
    (f p == f q) = (p == q) := by
  rw [Bool.eq_iff_iff, beq_iff_eq, beq_iff_eq]
  exact ⟨hf p hp q hq, congrArg f⟩

theorem Edge.isInternal_renamed {e : Edge} (he : e ∈ es) :
    (e.renamed f).isInternal = e.isInternal :=
  renamed_beq hf (ends_mem_namesOf he).1 (ends_mem_namesOf he).2

variable (hadded : ∀ u ∈ added, u ∉ (namesOf r es).map f)
include hadded

theorem Registry.contains_renamed {p : String} (hp : p ∈ namesOf r es) :
    (r.renamed f added).packages.contains (f p) = r.packages.contains p := by
  have hkeys : r.packages.contains p = true ↔ p ∈ r.packages.keys := Dict.mem_keys_iff.symm
  rw [Bool.eq_iff_iff, renamed, PackageSet.contains_ofList, decide_eq_true_eq, List.mem_append, hkeys]
  constructor
  · rintro (hmem | hmem)
    · obtain ⟨q, hq, hqp⟩ := List.mem_map.1 hmem
      exact hf q (mem_namesOf_of_mem_keys hq) p hp hqp ▸ hq
    · exact absurd (List.mem_map_of_mem hp) (hadded _ hmem)
  · exact fun hmem => Or.inl (List.mem_map_of_mem hmem)

theorem Edge.within_renamed {e : Edge} (he : e ∈ es) :
    (e.renamed f).within (r.renamed f added).packages = e.within r.packages := by
  obtain ⟨hs, ht⟩ := ends_mem_namesOf (r := r) he
  rw [within, within, renamed, Registry.contains_renamed hf hadded hs,
    Registry.contains_renamed hf hadded ht]

theorem Edge.countsAt_renamed {e : Edge} (he : e ∈ es) {i : String} (hi : i ∈ r.packages.keys) :
    (e.renamed f).countsAt (r.renamed f added).packages (f i) = e.countsAt r.packages i := by
  obtain ⟨hs, ht⟩ := ends_mem_namesOf (r := r) he
  have hi : i ∈ namesOf r es := mem_namesOf_of_mem_keys hi
  rw [countsAt_eq, within_renamed hf hadded he, countsAt_eq, renamed, renamed_beq hf hs hi,
    renamed_beq hf ht hi]

omit hf in
theorem Edge.countsAt_added {e : Edge} (he : e ∈ es) {u : String} (hu : u ∈ added)
    (packages : PackageSet) : (e.renamed f).countsAt packages u = false := by
  obtain ⟨hs, ht⟩ := ends_mem_namesOf (r := r) he
  have hsource : f e.source ≠ u := fun h => hadded u hu (h ▸ List.mem_map_of_mem hs)
  have htarget : f e.target ≠ u := fun h => hadded u hu (h ▸ List.mem_map_of_mem ht)
  simp [countsAt, renamed, hsource, htarget]

omit hadded in
theorem sum_renamed {g : String → Nat} (hg : ∀ u ∈ added, g u = 0) :
    ∑ i ∈ (r.packages.keys.map f ++ added).toFinset, g i =
      ∑ i ∈ r.packages.keys.toFinset, g (f i) := by
  have hinj : Set.InjOn f (r.packages.keys.toFinset : Set String) := fun p hp q hq hpq =>
    hf p (mem_namesOf_of_mem_keys (List.mem_toFinset.1 hp)) q
      (mem_namesOf_of_mem_keys (List.mem_toFinset.1 hq)) hpq
  have himage : (r.packages.keys.map f).toFinset = r.packages.keys.toFinset.image f := by
    ext p
    simp
  rw [← Finset.sum_image hinj, List.toFinset_append, himage]
  refine (Finset.sum_subset Finset.subset_union_left fun u hu hnot => hg u ?_).symm
  exact List.mem_toFinset.1 ((Finset.mem_union.1 hu).resolve_left hnot)

end

namespace Modularity

def scaled (k : Nat) (m : Modularity) : Modularity :=
  ⟨k * m.edges, k * m.internal, k * m.incidenceSum, k ^ 2 * m.squareSum⟩

theorem numerator_scaled (k : Nat) (m : Modularity) :
    (m.scaled k).numerator = (k : Int) ^ 2 * m.numerator := by
  simp only [numerator, scaled]
  push_cast
  ring

theorem denominator_scaled (k : Nat) (m : Modularity) :
    (m.scaled k).denominator = (k : Int) ^ 2 * m.denominator := by
  simp only [denominator, scaled]
  push_cast
  ring

theorem quotient_scaled {k : Nat} (hk : k ≠ 0) (m : Modularity) :
    ((m.scaled k).numerator : ℚ) / (m.scaled k).denominator = m.numerator / m.denominator := by
  rw [numerator_scaled, denominator_scaled]
  push_cast
  exact mul_div_mul_left _ _ (pow_ne_zero 2 (Nat.cast_ne_zero.2 hk))

section
variable {r : Registry} {es : List Edge} {f : String → String} {added : List String}
  (hf : ∀ p ∈ namesOf r es, ∀ q ∈ namesOf r es, f p = f q → p = q)
  (hadded : ∀ u ∈ added, u ∉ (namesOf r es).map f)
include hf hadded

theorem tally_renamed (k : Nat) : tally (r.renamed f added).packages
    (EdgeMultiset.ofList (copies k (es.map (·.renamed f)))) =
      (tally r.packages (EdgeMultiset.ofList es)).scaled k := by
  have hat : ∀ i ∈ r.packages.keys.toFinset,
      (copies k (es.map (·.renamed f))).countP
        (·.countsAt (r.renamed f added).packages (f i)) = k * es.countP (·.countsAt r.packages i) :=
    fun i hi => countP_copies_renamed k fun e he =>
      Edge.countsAt_renamed hf hadded he (List.mem_toFinset.1 hi)
  have hnone : ∀ u ∈ added, (copies k (es.map (·.renamed f))).countP
      (·.countsAt (r.renamed f added).packages u) = 0 := by
    intro u hu
    rw [countP_copies_renamed k fun e he => Edge.countsAt_added hadded he hu _]
    simp
  rw [tally_eq (EdgeMultiset.records_ofList _) (r.isSome_get?_renamed f added),
    tally_eq (EdgeMultiset.records_ofList es) fun _ => Dict.mem_keys_iff.symm, scaled,
    sum_renamed hf hnone, sum_renamed hf fun u hu => by rw [hnone u hu]; rfl,
    length_copies, List.length_map, countP_copies_renamed k fun e he => Edge.isInternal_renamed hf he,
    Finset.sum_congr rfl hat, Finset.sum_congr rfl fun i hi => congrArg (· ^ 2) (hat i hi)]
  simp only [mul_pow, Finset.mul_sum]

end

end Modularity

namespace EdgeMultiset

/-- Other names for the packages, a number of copies of each edge and packages that no edge touches
leave a failure of its kind, and a score its quotient: the counts grow with the number of copies. -/
theorem score_of_renamed (r : Registry) (es : List Edge) (f : String → String)
    (added : List String) {k : Nat} (hk : 1 ≤ k)
    (hf : ∀ p ∈ namesOf r es, ∀ q ∈ namesOf r es, f p = f q → p = q)
    (hadded : ∀ u ∈ added, u ∉ (namesOf r es).map f) :
    (Modularity.of r.packages (ofList es) = .error .noEdges ∧
      Modularity.of (r.renamed f added).packages (ofList (copies k (es.map (·.renamed f)))) =
        .error .noEdges) ∨
    (Modularity.of r.packages (ofList es) = .error (.degenerate r.size) ∧
      Modularity.of (r.renamed f added).packages (ofList (copies k (es.map (·.renamed f)))) =
        .error (.degenerate (r.renamed f added).size)) ∨
    ∃ m m', Modularity.of r.packages (ofList es) = .ok m ∧
      Modularity.of (r.renamed f added).packages (ofList (copies k (es.map (·.renamed f)))) =
        .ok m' ∧
      m'.edges = k * m.edges ∧ m'.internal = k * m.internal ∧
      m'.incidenceSum = k * m.incidenceSum ∧ m'.numerator = k ^ 2 * m.numerator ∧
      m'.denominator = k ^ 2 * m.denominator ∧
      (m'.numerator : ℚ) / m'.denominator = (m.numerator : ℚ) / m.denominator ∧
      (m'.edges < 2 ^ 63 → m'.q.isFinite = true) := by
  have hrec := records_ofList (copies k (es.map (·.renamed f)))
  have hlength : (copies k (es.map (·.renamed f))).length = k * es.length := by
    rw [length_copies, List.length_map]
  have hk' : k ≠ 0 := by omega
  have hof := Modularity.of_eq (records_ofList es) r.packages
  have hof' := Modularity.of_eq hrec (r.renamed f added).packages
  rw [hlength, Modularity.tally_renamed hf hadded, Modularity.denominator_scaled] at hof'
  -- both scores go through the same branches: no edges, no denominator, a quotient
  by_cases hn : es.length = 0
  · rw [if_pos hn] at hof
    rw [if_pos (by rw [hn, Nat.mul_zero])] at hof'
    exact Or.inl ⟨hof, hof'⟩
  · rw [if_neg hn] at hof
    rw [if_neg (Nat.mul_ne_zero hk' hn)] at hof'
    by_cases hden : (Modularity.tally r.packages (ofList es)).denominator = 0
    · rw [if_pos hden] at hof
      rw [if_pos (by rw [hden, mul_zero])] at hof'
      exact Or.inr (Or.inl ⟨hof, hof'⟩)
    · rw [if_neg hden] at hof
      rw [if_neg (mul_ne_zero (pow_ne_zero 2 (Nat.cast_ne_zero.2 hk')) hden)] at hof'
      exact Or.inr (Or.inr ⟨_, _, hof, hof', rfl, rfl, rfl, Modularity.numerator_scaled k _,
        Modularity.denominator_scaled k _, Modularity.quotient_scaled hk' _, hrec.isFinite_of_ok hof'⟩)

def turnedName (p : String) : String := if p = "a" then "n" else if p = "b" then "m" else p

theorem score_of_renamed_turned :
    (∀ p ∈ namesOf (Registry.ofPackages ["a", "b"]) (held looseSteps),
      ∀ q ∈ namesOf (Registry.ofPackages ["a", "b"]) (held looseSteps),
        turnedName p = turnedName q → p = q) ∧
    (∀ u ∈ ["u", "a"],
      u ∉ (namesOf (Registry.ofPackages ["a", "b"]) (held looseSteps)).map turnedName) ∧
    ∃ m m', Modularity.of (PackageSet.ofList ["a", "b"]) (ofList (held looseSteps)) = .ok m ∧
      Modularity.of ((Registry.ofPackages ["a", "b"]).renamed turnedName ["u", "a"]).packages
        (ofList (copies 2 ((held looseSteps).map (·.renamed turnedName)))) = .ok m' ∧
      m = ⟨5, 3, 5, 13⟩ ∧ m' = ⟨10, 6, 10, 52⟩ ∧
      (m'.numerator : ℚ) / m'.denominator = (m.numerator : ℚ) / m.denominator := by
  have hf : ∀ p ∈ namesOf (Registry.ofPackages ["a", "b"]) (held looseSteps),
      ∀ q ∈ namesOf (Registry.ofPackages ["a", "b"]) (held looseSteps),
        turnedName p = turnedName q → p = q := by decide
  have hadded : ∀ u ∈ ["u", "a"],
      u ∉ (namesOf (Registry.ofPackages ["a", "b"]) (held looseSteps)).map turnedName := by decide
  have hok : Modularity.of (Registry.ofPackages ["a", "b"]).packages (ofList (held looseSteps)) =
      .ok ⟨5, 3, 5, 13⟩ := rfl
  rcases score_of_renamed (Registry.ofPackages ["a", "b"]) (held looseSteps) turnedName ["u", "a"]
    (show 1 ≤ 2 by decide) hf hadded with ⟨hnone, -⟩ | ⟨hnone, -⟩ | ⟨m, m', hm, hm', -, -, -, -, -, hq, -⟩
  · simp [hok] at hnone
  · simp [hok] at hnone
  · exact ⟨hf, hadded, m, m', hm, hm', (Except.ok.inj hm).symm, (Except.ok.inj hm').symm, hq⟩

end EdgeMultiset

end PackageModularity
