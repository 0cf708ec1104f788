import PackageModularity.Proofs.Coupling.ListScore

/-!
What the incidences of a multiset add up to, and how large the counts of a score become on the way
to it: below `2 ^ 63` edges all of them fit in machine words.
-/
namespace PackageModularity

def withinCount (packages : PackageSet) (es : List Edge) : Nat := es.countP (·.within packages)

def loopCount (packages : PackageSet) (es : List Edge) : Nat :=
  es.countP fun e => e.within packages && e.isInternal

theorem loopCount_le_withinCount (packages : PackageSet) (es : List Edge) :
    loopCount packages es ≤ withinCount packages es :=
  List.countP_mono_left fun _ _ h => (Bool.and_eq_true_iff.1 h).1

theorem countP_countsAt_le_withinCount (packages : PackageSet) (i : String) (es : List Edge) :
    es.countP (·.countsAt packages i) ≤ withinCount packages es :=
  List.countP_mono_left fun _ _ h => (Bool.and_eq_true_iff.1 h).1

namespace EdgeMultiset

theorem isSome_get?_addIncidence {packages : PackageSet} {d : Dict String Nat} {p : Ends × Nat}
    {i : String} (h : ((addIncidence packages d p).get? i).isSome = true) :
    packages.contains i = true ∨ (d.get? i).isSome = true := by
  simp only [addIncidence, Bool.and_eq_true] at h
  split at h
  · rename_i hin
    split at h
    · rcases Dict.isSome_get?_alter.1 h with rfl | h
      · exact Or.inl hin.1
      · exact Or.inr h
    · simp only [Dict.isSome_get?_alter] at h
      rcases h with rfl | rfl | h
      · exact Or.inl hin.2
      · exact Or.inl hin.1
      · exact Or.inr h
  · exact Or.inr h

theorem contains_of_isSome_incidences {m : EdgeMultiset} {packages : PackageSet} {i : String}
    (h : ((m.incidences packages).get? i).isSome = true) : packages.contains i = true := by
  have hfold : ∀ (ps : List (Ends × Nat)) (d : Dict String Nat),
      ((ps.foldl (addIncidence packages) d).get? i).isSome = true →
        packages.contains i = true ∨ (d.get? i).isSome = true := by
    intro ps
    induction ps with
    | nil => exact fun _ hd => Or.inr hd
    | cons p ps ih =>
      intro d hd
      rcases ih _ hd with hin | hd
      · exact Or.inl hin
      · exact isSome_get?_addIncidence hd
  rcases hfold m.pairs Dict.empty h with hin | hempty
  · exact hin
  · simp at hempty

section
variable {m : EdgeMultiset} {es : List Edge} (h : Records m es) (packages : PackageSet)
include h

theorem Records.incidence_le_withinCount {i : String} {n : Nat}
    (hn : (m.incidences packages).get? i = some n) : n ≤ withinCount packages es := by
  have hi := h.incidence packages i
  rw [hn, Option.getD_some] at hi
  exact hi ▸ countP_countsAt_le_withinCount packages i es

theorem Records.sum_values_incidences :
    (m.incidences packages).values.sum = (Modularity.tally packages m).incidenceSum := by
  have hkeys : ∀ p, ((m.incidences packages).get? p).isSome → p ∈ packages.keys :=
    fun p hs => Dict.mem_keys_iff.2 (contains_of_isSome_incidences hs)
  rw [Dict.sum_values hkeys, Modularity.tally_eq h fun _ => Dict.mem_keys_iff.symm]
  exact Finset.sum_congr rfl fun p _ => h.incidence packages p

theorem Records.incidenceSum_tally_eq : (Modularity.tally packages m).incidenceSum =
    2 * withinCount packages es - loopCount packages es := by
  have hsum : (Modularity.tally packages m).incidenceSum + loopCount packages es =
      2 * withinCount packages es := Modularity.incidenceSum_tally h packages
  omega

end

/-- The incidences over all packages are two for each edge within the set less one for each loop of
these, and no package has more than there are such edges. -/
theorem incidences_add_up (r : Registry) (steps : List Step) :
    ((run steps).incidences r.packages).values.sum =
      2 * withinCount r.packages (held steps) - loopCount r.packages (held steps) ∧
    loopCount r.packages (held steps) ≤ withinCount r.packages (held steps) ∧
    (∀ m, Modularity.of r.packages (run steps) = .ok m → m.incidenceSum =
      2 * withinCount r.packages (held steps) - loopCount r.packages (held steps)) ∧
    (∀ p, r.contains p = false → ((run steps).incidences r.packages).get? p = none) ∧
    (∀ p n, ((run steps).incidences r.packages).get? p = some n →
      n ≤ withinCount r.packages (held steps)) ∧
    ((∀ e ∈ held steps, r.contains e.source = true ∧ r.contains e.target = true) →
      ((run steps).incidences r.packages).values.sum = 2 * (run steps).total - (run steps).internal ∧
      ∀ m, Modularity.of r.packages (run steps) = .ok m →
        m.incidenceSum = 2 * m.edges - m.internal) := by
  have hrec : Records (run steps) (held steps) := records_run steps
  have hsum : ((run steps).incidences r.packages).values.sum =
      2 * withinCount r.packages (held steps) - loopCount r.packages (held steps) :=
    (hrec.sum_values_incidences r.packages).trans (hrec.incidenceSum_tally_eq r.packages)
  refine ⟨hsum, loopCount_le_withinCount _ _, ?_, ?_,
    fun p n hn => hrec.incidence_le_withinCount r.packages hn, ?_⟩
  · intro m hm
    rw [Modularity.eq_tally_of_ok hm]
    exact hrec.incidenceSum_tally_eq r.packages
  · intro p hp
    rw [← Option.not_isSome_iff_eq_none]
    intro hs
    have hin : r.contains p = true := contains_of_isSome_incidences hs
    simp [hp] at hin
  · intro hends
    have hwithin : ∀ e ∈ held steps, e.within r.packages = true :=
      fun e he => Bool.and_eq_true_iff.2 (hends e he)
    have hall : withinCount r.packages (held steps) = (run steps).total :=
      (List.countP_eq_length.2 hwithin).trans hrec.total.symm
    have hloops : loopCount r.packages (held steps) = (run steps).internal := by
      rw [hrec.internal, loopCount]
      exact List.countP_congr fun e he => by rw [hwithin e he, Bool.true_and]
    rw [hsum, hall, hloops]
    exact ⟨rfl, fun m hm => (Modularity.incidenceSum_of_within hrec hwithin hm).2⟩

-- Four of five edges lie within the set, and three of these are loops: the sum is 2 * 4 - 3.
example : ((ofList [⟨"a", "a", .calls⟩, ⟨"a", "a", .inherits⟩, ⟨"b", "b", .calls⟩,
    ⟨"b", "a", .calls⟩, ⟨"b", "z", .fieldAccess⟩]).incidences
      (PackageSet.ofList ["a", "b"])).values.sum = 5 := rfl

end EdgeMultiset

def IsWord (n : Nat) : Prop := n < 2 ^ 64

def IsWideWord (x : Int) : Prop := -2 ^ 127 ≤ x ∧ x < 2 ^ 127

theorem isWideWord_sub {a b : Nat} (ha : a < 2 ^ 127) (hb : b < 2 ^ 127) :
    IsWideWord ((a : Int) - b) := by
  simp only [IsWideWord]
  omega

theorem isWideWord_natCast {a : Nat} (ha : a < 2 ^ 127) : IsWideWord a := by
  simpa using isWideWord_sub ha (b := 0) (by decide)

theorem sum_map_le_of_perm {β : Type} (g : β → Nat) {front rest all : List β}
    (h : (front ++ rest).Perm all) : (front.map g).sum ≤ (all.map g).sum := by
  calc (front.map g).sum ≤ ((front ++ rest).map g).sum := by simp
    _ = (all.map g).sum := (h.map g).sum_eq

namespace EdgeMultiset

/-- The count of a package that no edge within the set touches is none at all. -/
def incidenceAt (m : EdgeMultiset) (packages : PackageSet) (p : String) : Nat :=
  ((m.incidences packages).get? p).getD 0

theorem Records.internal_le_total {m : EdgeMultiset} {es : List Edge} (h : Records m es) :
    m.internal ≤ m.total := by
  rw [h.internal, h.total]
  exact List.countP_le_length

section
variable {m : EdgeMultiset} {es : List Edge} (h : Records m es) (packages : PackageSet)
include h

theorem Records.incidenceAt_le_total (p : String) : m.incidenceAt packages p ≤ m.total := by
  rw [incidenceAt, h.incidence, h.total]
  exact List.countP_le_length

theorem Records.incidence_so_far_le {counted rest : List (Ends × Nat)}
    (hp : (counted ++ rest).Perm m.pairs) (p : String) :
    ((counted.foldl (addIncidence packages) Dict.empty).get? p).getD 0 ≤ m.total := by
  refine le_trans ?_ (h.incidenceAt_le_total packages p)
  rw [incidenceAt, incidences, get?_foldl_addIncidence, get?_foldl_addIncidence]
  exact Nat.add_le_add_left (sum_map_le_of_perm _ hp) _

theorem Records.tally_eq_counts :
    Modularity.tally packages m = ListScore.counts packages.keys es := by
  have htally := ListScore.tally_ofList packages.keys es
  rwa [PackageSet.ofList_keys, ← h.eq_ofList] at htally

theorem Records.incidenceSum_tally_le :
    (Modularity.tally packages m).incidenceSum ≤ 2 * m.total := by
  rw [h.tally_eq_counts, h.total]
  exact ListScore.incidenceSum_le packages.keys es

theorem Records.squareSum_tally_le :
    (Modularity.tally packages m).squareSum ≤ 2 * m.total ^ 2 := by
  rw [h.tally_eq_counts, h.total]
  exact ListScore.squareSum_le packages.keys es

end

/-- The two sums over the packages that a score is made from. -/
structure Sums where
  incidences : Nat
  squares : Nat

def Sums.visit (m : EdgeMultiset) (packages : PackageSet) (s : Sums) (p : String) : Sums :=
  let a := m.incidenceAt packages p
  ⟨s.incidences + a, s.squares + a * a⟩

/-- The sums after some packages are visited one by one. -/
def sumsOver (m : EdgeMultiset) (packages : PackageSet) (visited : List String) : Sums :=
  visited.foldl (Sums.visit m packages) ⟨0, 0⟩

theorem sumsOver_eq (m : EdgeMultiset) (packages : PackageSet) (visited : List String) :
    m.sumsOver packages visited = ⟨(visited.map (m.incidenceAt packages)).sum,
      (visited.map fun p => m.incidenceAt packages p * m.incidenceAt packages p).sum⟩ := by
  have hfold : ∀ s : Sums, visited.foldl (Sums.visit m packages) s =
      ⟨s.incidences + (visited.map (m.incidenceAt packages)).sum, s.squares +
        (visited.map fun p => m.incidenceAt packages p * m.incidenceAt packages p).sum⟩ := by
    induction visited with
    | nil => exact fun _ => rfl
    | cons p ps ih =>
      intro s
      rw [List.foldl_cons, ih]
      simp only [Sums.visit, List.map_cons, List.sum_cons, Nat.add_assoc]
  rw [sumsOver, hfold]
  simp only [Nat.zero_add]

/-- Once every package is visited the sums are those of the score, whatever the order was. -/
theorem sumsOver_of_perm (m : EdgeMultiset) {packages : PackageSet} {order : List String}
    (h : order.Perm packages.keys) : m.sumsOver packages order =
      ⟨(Modularity.tally packages m).incidenceSum, (Modularity.tally packages m).squareSum⟩ := by
  rw [sumsOver_eq, (h.map _).sum_eq, (h.map _).sum_eq]
  simp only [Modularity.tally, Modularity.sum_eq, List.map_map]
  rfl

theorem sumsOver_le_tally (m : EdgeMultiset) {packages : PackageSet} {visited rest : List String}
    (h : (visited ++ rest).Perm packages.keys) :
    (m.sumsOver packages visited).incidences ≤ (Modularity.tally packages m).incidenceSum ∧
    (m.sumsOver packages visited).squares ≤ (Modularity.tally packages m).squareSum := by
  have hall := (m.sumsOver_eq packages packages.keys).symm.trans
    (m.sumsOver_of_perm (List.Perm.refl packages.keys))
  obtain ⟨hincidences, hsquares⟩ := Sums.mk.inj hall
  rw [sumsOver_eq, ← hincidences, ← hsquares]
  exact ⟨sum_map_le_of_perm _ h, sum_map_le_of_perm _ h⟩

/-- Below `2 ^ 63` edges every count on the way to a score fits in a word of 64 bits, and every sum of
squares and product in a signed one of 128, in whatever order the pairs and packages are visited. -/
theorem counts_fit_words (r : Registry) (steps : List Step)
    (hn : (run steps).total ≤ 2 ^ 63 - 1) :
    (∀ counted rest : List (Ends × Nat), (counted ++ rest).Perm (run steps).pairs → ∀ p,
      IsWord (((counted.foldl (addIncidence r.packages) Dict.empty).get? p).getD 0)) ∧
    (∀ p, IsWord ((run steps).incidenceAt r.packages p)) ∧
    (∀ visited rest : List String, (visited ++ rest).Perm r.packages.keys →
      IsWord ((run steps).sumsOver r.packages visited).incidences ∧
      IsWideWord ((run steps).sumsOver r.packages visited).squares) ∧
    (∀ order : List String, order.Perm r.packages.keys → (run steps).sumsOver r.packages order =
      ⟨(Modularity.tally r.packages (run steps)).incidenceSum,
        (Modularity.tally r.packages (run steps)).squareSum⟩) ∧
    IsWideWord (((run steps).internal : Int) * (run steps).total) ∧
    IsWideWord (((run steps).total : Int) * (run steps).total) ∧
    IsWideWord (Modularity.tally r.packages (run steps)).numerator ∧
    IsWideWord (Modularity.tally r.packages (run steps)).denominator := by
  have hrec : Records (run steps) (held steps) := records_run steps
  have hword : ∀ n, n ≤ (run steps).total → IsWord n := fun n h => by
    simp only [IsWord]
    omega
  have hsquare : (run steps).total * (run steps).total ≤ (2 ^ 63 - 1) * (2 ^ 63 - 1) :=
    Nat.mul_le_mul hn hn
  have hinternal : (run steps).internal * (run steps).total ≤ (2 ^ 63 - 1) * (2 ^ 63 - 1) :=
    le_trans (Nat.mul_le_mul_right _ hrec.internal_le_total) hsquare
  have hsum := hrec.incidenceSum_tally_le r.packages
  have hsquares := hrec.squareSum_tally_le r.packages
  rw [pow_two] at hsquares
  -- what is added up so far is bounded by the whole, and the whole by the number of edges
  refine ⟨fun counted rest hp p => hword _ (hrec.incidence_so_far_le r.packages hp p),
    fun p => hword _ (hrec.incidenceAt_le_total r.packages p), ?_,
    fun order ho => sumsOver_of_perm (run steps) ho, ?_, ?_, ?_, ?_⟩
  · intro visited rest hp
    obtain ⟨hvisited, hvisitedSquares⟩ := sumsOver_le_tally (run steps) hp
    constructor
    · simp only [IsWord]
      omega
    · exact isWideWord_natCast (by omega)
  · rw [← Nat.cast_mul]
    exact isWideWord_natCast (by omega)
  · rw [← Nat.cast_mul]
    exact isWideWord_natCast (by omega)
  · rw [Modularity.numerator, ← Nat.cast_mul]
    exact isWideWord_sub (lt_of_le_of_lt hinternal (by decide)) (by omega)
  · rw [Modularity.denominator, ← Nat.cast_mul]
    exact isWideWord_sub (lt_of_le_of_lt hsquare (by decide)) (by omega)

def crossings (n : Nat) : List Step := [.extend (List.replicate n ⟨"a", "b", .calls⟩)]

theorem held_crossings (n : Nat) : held (crossings n) = List.replicate n ⟨"a", "b", .calls⟩ :=
  List.nil_append _

theorem total_crossings (n : Nat) : (run (crossings n)).total = n := by
  rw [(records_run (crossings n)).total, held_crossings, List.length_replicate]

theorem tally_crossings (n : Nat) :
    Modularity.tally (PackageSet.ofList ["a", "b"]) (run (crossings n)) = ⟨n, 0, 2 * n, 2 * n ^ 2⟩ := by
  have hat : ∀ i ∈ ["a", "b"].toFinset,
      (held (crossings n)).countP (·.countsAt (PackageSet.ofList ["a", "b"]) i) = n := by
    intro i hi
    rw [held_crossings, List.countP_replicate, if_pos]
    revert i
    decide
  rw [Modularity.tally_eq (records_run _) (PackageSet.isSome_get?_ofList _),
    Finset.sum_congr rfl hat, Finset.sum_congr rfl fun i hi => congrArg (· ^ 2) (hat i hi),
    held_crossings]
  simp [Edge.isInternal]

theorem counts_fit_words_crossings :
    (run (crossings (2 ^ 63 - 1))).total ≤ 2 ^ 63 - 1 ∧
    ((run (crossings (2 ^ 63 - 1))).sumsOver (PackageSet.ofList ["a", "b"]) ["b", "a"]).squares =
      2 * (2 ^ 63 - 1) ^ 2 ∧
    IsWideWord
      ((run (crossings (2 ^ 63 - 1))).sumsOver (PackageSet.ofList ["a", "b"]) ["b", "a"]).squares := by
  have horder : ["b", "a"].Perm (PackageSet.ofList ["a", "b"]).keys := List.Perm.swap _ _ _
  have htotal : (run (crossings (2 ^ 63 - 1))).total ≤ 2 ^ 63 - 1 := by rw [total_crossings]
  obtain ⟨-, -, hvisited, hall, -⟩ :=
    counts_fit_words (Registry.ofPackages ["a", "b"]) (crossings (2 ^ 63 - 1)) htotal
  have hsums := hall ["b", "a"] horder
  rw [Registry.ofPackages, tally_crossings] at hsums
  exact ⟨htotal, congrArg Sums.squares hsums, (hvisited ["b", "a"] [] horder).2⟩

theorem isWideWord_squareSum_crossings_iff (n : Nat) : IsWideWord
    (Modularity.tally (PackageSet.ofList ["a", "b"]) (run (crossings n))).squareSum ↔ n < 2 ^ 63 := by
  have hpow : n ^ 2 < (2 ^ 63) ^ 2 ↔ n < 2 ^ 63 := Nat.pow_lt_pow_iff_left (by decide)
  rw [tally_crossings, ← hpow]
  simp only [IsWideWord]
  omega

end EdgeMultiset

end PackageModularity
