import Mathlib.Data.String.Basic
import PackageModularity.Proofs.Coupling.PackageSet

/-!
An edge multiset holds, for each two packages, how many of the edges put into it join them, and
nothing else about these edges.
-/
namespace PackageModularity

namespace Ends

theorem low_le_high (a b : String) : (of a b).low ≤ (of a b).high := by
  by_cases h : a ≤ b
  · simp [of, h]
  · simpa [of, h] using (String.le_total a b).resolve_left h

theorem of_comm (a b : String) : of a b = of b a := by
  by_cases h : a ≤ b <;> by_cases h' : b ≤ a
  · simp [of, String.le_antisymm h h']
  · simp [of, h, h']
  · simp [of, h, h']
  · exact absurd ((String.le_total a b).resolve_left h) h'

theorem of_eq_iff (a b c d : String) :
    of a b = of c d ↔ (a = c ∧ b = d) ∨ (a = d ∧ b = c) := by
  constructor
  · intro h
    by_cases hab : a ≤ b <;> by_cases hcd : c ≤ d <;>
      simp only [of, hab, hcd, if_true, if_false, mk.injEq] at h
    · exact Or.inl h
    · exact Or.inr h
    · exact Or.inr ⟨h.2, h.1⟩
    · exact Or.inl ⟨h.2, h.1⟩
  · rintro (⟨rfl, rfl⟩ | ⟨rfl, rfl⟩)
    · rfl
    · exact of_comm a b

theorem of_low_high {k : Ends} (h : k.low ≤ k.high) : of k.low k.high = k := by
  simp [of, h]

theorem symmetric_apply {β : Type} (f : String → String → β) (hf : ∀ a b, f a b = f b a)
    (a b : String) : f (of a b).low (of a b).high = f a b := by
  by_cases h : a ≤ b
  · simp [of, h]
  · simp [of, h, hf b a]

end Ends

def Edge.joins (e : Edge) (a b : String) : Bool :=
  (e.source == a && e.target == b) || (e.source == b && e.target == a)

theorem Edge.joins_eq (e : Edge) (a b : String) : e.joins a b = decide (e.ends = Ends.of a b) := by
  rw [Bool.eq_iff_iff]
  simp [joins, ends, Ends.of_eq_iff]

theorem Edge.isInternal_eq (e : Edge) : e.isInternal = decide (e.ends.low = e.ends.high) := by
  exact (Ends.symmetric_apply (fun a b => decide (a = b)) (fun a b => by simp [eq_comm])
    e.source e.target).symm

theorem sum_map_indicator {β : Type} (p : β → Bool) (l : List β) :
    (l.map fun x => if p x then 1 else 0).sum = l.countP p := by
  simp [List.sum_map_ite, List.countP_eq_length_filter]

namespace EdgeMultiset

/-- What the three parts of a multiset tell of the edges put into it. -/
structure Records (m : EdgeMultiset) (es : List Edge) : Prop where
  total : m.total = es.length
  internal : m.internal = es.countP Edge.isInternal
  count : ∀ k, (m.counts.get? k).getD 0 = es.countP fun e => e.ends = k
  positive : ∀ k n, m.counts.get? k = some n → 1 ≤ n
  weight : ∀ w : Ends → Nat, (m.pairs.map fun p => w p.1 * p.2).sum = (es.map fun e => w e.ends).sum

theorem records_empty : Records empty [] where
  total := rfl
  internal := rfl
  count _ := rfl
  positive _ _ h := by simp [empty] at h
  weight _ := rfl

theorem Records.insert {m : EdgeMultiset} {es : List Edge} (h : Records m es) (e : Edge) :
    Records (m.insert e) (es ++ [e]) where
  total := by simp [EdgeMultiset.insert, h.total]
  internal := by
    by_cases he : e.isInternal <;> simp [EdgeMultiset.insert, he, h.internal]
  count k := by
    by_cases hk : k = e.ends
    · subst hk
      simp [EdgeMultiset.insert, Dict.get?_alter, h.count]
    · have hk' : e.ends ≠ k := fun he => hk he.symm
      simp [EdgeMultiset.insert, Dict.get?_alter, hk, hk', h.count]
  positive k n hn := by
    by_cases hk : k = e.ends
    · simp only [EdgeMultiset.insert, Dict.get?_alter, hk, if_true, Option.some.injEq] at hn
      omega
    · simp only [EdgeMultiset.insert, Dict.get?_alter, hk, if_false] at hn
      exact h.positive k n hn
  weight w := by
    have hs := Dict.sum_alter (fun p : Ends × Nat => w p.1 * p.2) m.counts e.ends
      fun old => old.getD 0 + 1
    have ho : ((m.counts.get? e.ends).map fun v => w e.ends * v).getD 0 =
        w e.ends * (m.counts.get? e.ends).getD 0 := by
      cases m.counts.get? e.ends <;> simp
    have hw := h.weight w
    simp only [pairs] at hw
    dsimp only at hs
    rw [ho, hw, Nat.mul_add] at hs
    simp only [pairs, EdgeMultiset.insert, List.map_append, List.sum_append, List.map_cons,
      List.map_nil, List.sum_cons, List.sum_nil]
    omega

theorem Records.extend {m : EdgeMultiset} {es : List Edge} (h : Records m es) (fs : List Edge) :
    Records (m.extend fs) (es ++ fs) := by
  induction fs generalizing m es with
  | nil => simpa [EdgeMultiset.extend] using h
  | cons f fs ih => simpa [EdgeMultiset.extend] using ih (h.insert f)

theorem records_ofList (es : List Edge) : Records (ofList es) es := records_empty.extend es

theorem Records.perm {m : EdgeMultiset} {es fs : List Edge} (h : Records m es)
    (hp : es.Perm fs) : Records m fs where
  total := h.total.trans hp.length_eq
  internal := h.internal.trans (hp.countP_eq _)
  count k := (h.count k).trans (hp.countP_eq _)
  positive := h.positive
  weight w := (h.weight w).trans (hp.map _).sum_eq

section
variable {m n : EdgeMultiset} {es fs : List Edge}

theorem Records.exists_of_mem_pairs (h : Records m es) {p : Ends × Nat} (hp : p ∈ m.pairs) :
    ∃ e ∈ es, e.ends = p.1 := by
  have hg : m.counts.get? p.1 = some p.2 := Dict.get?_eq_some_iff.2 hp
  have hn := h.positive p.1 p.2 hg
  have hc := h.count p.1
  rw [hg, Option.getD_some] at hc
  obtain ⟨e, hmem, he⟩ := List.one_le_countP_iff.1 (hc ▸ hn)
  exact ⟨e, hmem, of_decide_eq_true he⟩

theorem Records.pair (h : Records m es) {p : Ends × Nat} (hp : p ∈ m.pairs) :
    p.1.low ≤ p.1.high ∧ 1 ≤ p.2 := by
  obtain ⟨e, -, he⟩ := h.exists_of_mem_pairs hp
  rw [← he, Edge.ends]
  exact ⟨Ends.low_le_high _ _, h.positive p.1 p.2 (Dict.get?_eq_some_iff.2 hp)⟩

theorem Records.total_eq_sum (h : Records m es) : m.total = (m.pairs.map (·.2)).sum := by
  have hw : (m.pairs.map (·.2)).sum = es.length := by simpa using h.weight fun _ => 1
  rw [hw, h.total]

theorem Records.internal_eq_sum (h : Records m es) :
    m.internal = ((m.pairs.filter fun p => p.1.low = p.1.high).map (·.2)).sum := by
  have hw := h.weight fun k => if k.low = k.high then 1 else 0
  have hi : (es.map fun e => if e.ends.low = e.ends.high then 1 else 0).sum =
      es.countP Edge.isInternal := by
    simp [← sum_map_indicator, Edge.isInternal_eq]
  rw [h.internal, ← hi, ← hw]
  simp [List.sum_map_ite]

theorem Records.multiplicity (h : Records m es) (a b : String) :
    m.multiplicity a b = es.countP (·.joins a b) := by
  simp only [EdgeMultiset.multiplicity, h.count, Edge.joins_eq]

theorem multiplicity_comm (m : EdgeMultiset) (a b : String) :
    m.multiplicity a b = m.multiplicity b a := by
  rw [multiplicity, Ends.of_comm, multiplicity]

theorem countP_ends_eq (es : List Edge) (k : Ends) :
    (es.countP fun e => e.ends = k) =
      if k.low ≤ k.high then es.countP (·.joins k.low k.high) else 0 := by
  by_cases hk : k.low ≤ k.high
  · simp only [hk, if_true, Edge.joins_eq, Ends.of_low_high hk]
  · simp only [hk, if_false]
    refine List.countP_eq_zero.2 fun e _ he => hk ?_
    rw [← of_decide_eq_true he]
    exact Ends.low_le_high _ _

/-- The numbers of edges between each two packages fix all three parts. -/
theorem Records.eq_of_joins (hm : Records m es) (hn : Records n fs)
    (h : ∀ a b, es.countP (·.joins a b) = fs.countP (·.joins a b)) : m = n := by
  have hc : m.counts = n.counts := by
    refine Dict.ext_get? fun k => ?_
    have hk : (m.counts.get? k).getD 0 = (n.counts.get? k).getD 0 := by
      rw [hm.count, hn.count, countP_ends_eq, countP_ends_eq, h]
    cases hx : m.counts.get? k with
    | none =>
      cases hy : n.counts.get? k with
      | none => rfl
      | some y =>
        have := hn.positive k y hy
        simp only [hx, hy, Option.getD_none, Option.getD_some] at hk
        omega
    | some x =>
      cases hy : n.counts.get? k with
      | none =>
        have := hm.positive k x hx
        simp only [hx, hy, Option.getD_none, Option.getD_some] at hk
        omega
      | some y => simpa [hx, hy] using hk
  have ht : m.total = n.total := by rw [hm.total_eq_sum, hn.total_eq_sum, pairs, pairs, hc]
  have hi : m.internal = n.internal := by
    rw [hm.internal_eq_sum, hn.internal_eq_sum, pairs, pairs, hc]
  cases m; cases n
  simp_all

theorem Records.eq_ofList (h : Records m es) : m = ofList es :=
  h.eq_of_joins (records_ofList es) fun _ _ => rfl

end

theorem same_iff_eq (m n : EdgeMultiset) : m.same n = true ↔ m = n := by
  obtain ⟨⟨_, _⟩, _, _⟩ := m
  obtain ⟨⟨_, _⟩, _, _⟩ := n
  simp [same, pairs, Dict.toList, and_assoc]

/-- A multiset comes about by inserting one edge, by adding a batch to it, or by collecting a
batch into a new one. -/
inductive Step where
  | insert (e : Edge)
  | extend (es : List Edge)
  | collect (es : List Edge)

def Step.apply (m : EdgeMultiset) : Step → EdgeMultiset
  | .insert e => m.insert e
  | .extend es => m.extend es
  | .collect es => ofList es

def Step.held (es : List Edge) : Step → List Edge
  | .insert e => es ++ [e]
  | .extend fs => es ++ fs
  | .collect fs => fs

def run (steps : List Step) : EdgeMultiset := steps.foldl Step.apply empty

def held (steps : List Step) : List Edge := steps.foldl Step.held []

theorem Records.apply {m : EdgeMultiset} {es : List Edge} (h : Records m es) (s : Step) :
    Records (s.apply m) (s.held es) := by
  cases s with
  | insert e => exact h.insert e
  | extend fs => exact h.extend fs
  | collect fs => exact records_ofList fs

theorem records_run (steps : List Step) : Records (run steps) (held steps) := by
  have hrun : ∀ (m : EdgeMultiset) (es : List Edge), Records m es →
      Records (steps.foldl Step.apply m) (steps.foldl Step.held es) := by
    induction steps with
    | nil => exact fun _ _ h => h
    | cons s steps ih => exact fun m es h => ih (s.apply m) (s.held es) (h.apply s)
  exact hrun empty [] records_empty

/-- After any run of operations the counts, the total and the number of loops agree, and the
multiset is determined by how many edges joined each two packages. -/
theorem run_determined_by_joins (s t : List Step) :
    (∀ p ∈ (run s).pairs, p.1.low ≤ p.1.high ∧ 1 ≤ p.2) ∧
    (run s).total = ((run s).pairs.map (·.2)).sum ∧
    (run s).internal = (((run s).pairs.filter fun p => p.1.low = p.1.high).map (·.2)).sum ∧
    (∀ a b, (run s).multiplicity a b = (held s).countP (·.joins a b) ∧
      (run s).multiplicity a b = (run s).multiplicity b a) ∧
    ((run s).same (run t) = true ↔
      ∀ a b, (held s).countP (·.joins a b) = (held t).countP (·.joins a b)) ∧
    ((run s).same (run t) = true → ∀ P Q : List String, (∀ p, p ∈ P ↔ p ∈ Q) →
      (run s).incidences (Registry.ofPackages P).packages =
        (run t).incidences (Registry.ofPackages Q).packages ∧
      Modularity.of (Registry.ofPackages P).packages (run s) =
        Modularity.of (Registry.ofPackages Q).packages (run t)) := by
  have hs : Records (run s) (held s) := records_run s
  have ht : Records (run t) (held t) := records_run t
  refine ⟨fun p hp => hs.pair hp, hs.total_eq_sum, hs.internal_eq_sum,
    fun a b => ⟨hs.multiplicity a b, multiplicity_comm _ a b⟩, ?_, ?_⟩
  · rw [same_iff_eq]
    constructor
    · intro h a b
      rw [← hs.multiplicity, ← ht.multiplicity, h]
    · exact hs.eq_of_joins ht
  · intro h P Q hPQ
    have hset : (Registry.ofPackages P).packages = (Registry.ofPackages Q).packages :=
      PackageSet.ofList_congr hPQ
    rw [(same_iff_eq _ _).1 h, hset]
    exact ⟨rfl, rfl⟩

end EdgeMultiset

end PackageModularity
