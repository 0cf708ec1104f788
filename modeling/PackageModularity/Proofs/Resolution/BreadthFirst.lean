import Mathlib.Data.List.Infix
import Mathlib.Data.List.Nodup
import PackageModularity.Proofs.Resolution.DeclaredTypes

/-!
The types above a type in breadth-first order, nearest types first: round by round, the parents of
all types so far that have not been met. The rounds come to an end because a table has only so many
types, and with that the order holds every type above, once.
-/
namespace PackageModularity.TypeTable

variable (t : TypeTable)

/-- One of the written supertypes means this type, where the subtype stands. -/
def LeadsTo (s u : TypeSymbol) : Prop :=
  ∃ name ∈ s.decl.supertypes, t.type? name s.context s.decl.enclosing = some (.known u)

/-- The types that so many steps lead to. -/
inductive Above (s : TypeSymbol) : Nat → TypeSymbol → Prop where
  | start : Above s 0 s
  | step {n : Nat} {u v : TypeSymbol} (h : Above s n u) (huv : t.LeadsTo u v) : Above s (n + 1) v

def names (l : List TypeSymbol) : List String := l.map TypeSymbol.qualifiedName

/-- The first type of each name that has not been met. -/
def fresh : List String → List TypeSymbol → List TypeSymbol
  | _, [] => []
  | met, s :: r =>
    if s.qualifiedName ∈ met then fresh met r else s :: fresh (s.qualifiedName :: met) r

/-- The types at most so many steps above. -/
def rounds (s : TypeSymbol) : Nat → List TypeSymbol
  | 0 => [s]
  | n + 1 => rounds s n ++ fresh (names (rounds s n)) ((rounds s n).flatMap t.parents)

def breadthFirst (s : TypeSymbol) : List TypeSymbol := t.rounds s t.size

variable {t}

theorem mem_parents_iff {s u : TypeSymbol} : u ∈ t.parents s ↔ t.LeadsTo s u := by
  constructor
  · intro h
    obtain ⟨r, hr, hu⟩ := List.mem_filterMap.1 h
    obtain ⟨name, hname, htype⟩ := List.mem_filterMap.1 hr
    exact ⟨name, hname, known_of_known? hu ▸ htype⟩
  · rintro ⟨name, hname, htype⟩
    exact List.mem_filterMap.2 ⟨.known u, List.mem_filterMap.2 ⟨name, hname, htype⟩, rfl⟩

section
variable {met met' : List String} {l l' : List TypeSymbol}

theorem fresh_congr (h : ∀ q, q ∈ met ↔ q ∈ met') : fresh met l = fresh met' l := by
  induction l generalizing met met' with
  | nil => rfl
  | cons s l ih =>
    have hcons : ∀ q, q ∈ s.qualifiedName :: met ↔ q ∈ s.qualifiedName :: met' := by
      intro q
      rw [List.mem_cons, List.mem_cons, h]
    by_cases hs : s.qualifiedName ∈ met
    · rw [fresh, fresh, if_pos hs, if_pos ((h _).1 hs), ih h]
    · rw [fresh, fresh, if_neg hs, if_neg (mt (h _).2 hs), ih hcons]

theorem fresh_append : fresh met (l ++ l') = fresh met l ++ fresh (names l ++ met) l' := by
  induction l generalizing met with
  | nil => rfl
  | cons s l ih =>
    by_cases hs : s.qualifiedName ∈ met
    · rw [List.cons_append, fresh, fresh, if_pos hs, if_pos hs, ih]
      congr 1
      refine fresh_congr fun q => ?_
      simp only [names, List.map_cons, List.cons_append, List.mem_cons, List.mem_append]
      grind
    · rw [List.cons_append, fresh, fresh, if_neg hs, if_neg hs, ih, List.cons_append]
      congr 2
      refine fresh_congr fun q => ?_
      simp only [names, List.map_cons, List.cons_append, List.mem_cons, List.mem_append]
      grind

theorem fresh_mono (h : l <+: l') : fresh met l <+: fresh met l' := by
  obtain ⟨r, rfl⟩ := h
  rw [fresh_append]
  exact List.prefix_append _ _

theorem mem_of_mem_fresh {s : TypeSymbol} (h : s ∈ fresh met l) :
    s ∈ l ∧ s.qualifiedName ∉ met := by
  induction l generalizing met with
  | nil => simp [fresh] at h
  | cons u l ih =>
    by_cases hu : u.qualifiedName ∈ met
    · rw [fresh, if_pos hu] at h
      exact ⟨List.mem_cons_of_mem _ (ih h).1, (ih h).2⟩
    · rw [fresh, if_neg hu] at h
      rcases List.mem_cons.1 h with rfl | h
      · exact ⟨List.mem_cons_self, hu⟩
      · exact ⟨List.mem_cons_of_mem _ (ih h).1, fun hmet => (ih h).2 (List.mem_cons_of_mem _ hmet)⟩

theorem mem_names_fresh {q : String} : q ∈ names (fresh met l) ↔ q ∈ names l ∧ q ∉ met := by
  induction l generalizing met with
  | nil => simp [fresh, names]
  | cons u l ih =>
    simp only [names] at ih
    by_cases hu : u.qualifiedName ∈ met
    · rw [fresh, if_pos hu]
      simp only [names, ih, List.map_cons, List.mem_cons]
      grind
    · rw [fresh, if_neg hu]
      simp only [names, ih, List.map_cons, List.mem_cons]
      grind

theorem nodup_names_fresh : (names (fresh met l)).Nodup := by
  induction l generalizing met with
  | nil => exact List.nodup_nil
  | cons u l ih =>
    by_cases hu : u.qualifiedName ∈ met
    · rw [fresh, if_pos hu]
      exact ih
    · rw [fresh, if_neg hu]
      refine List.nodup_cons.2 ⟨fun hmem => ?_, ih⟩
      exact (mem_names_fresh.1 hmem).2 List.mem_cons_self

theorem fresh_eq_nil (h : ∀ q ∈ names l, q ∈ met) : fresh met l = [] := by
  rw [List.eq_nil_iff_forall_not_mem]
  intro s hs
  obtain ⟨hl, hmet⟩ := mem_of_mem_fresh hs
  exact hmet (h _ (List.mem_map_of_mem hl))

end

section
variable {s u v : TypeSymbol} {n m : Nat}

theorem Keyed.mem_of_name (hk : t.Keyed) {l : List TypeSymbol} (hl : ∀ v ∈ l, t.Declares v)
    (hu : t.Declares u) (h : u.qualifiedName ∈ names l) : u ∈ l := by
  obtain ⟨v, hv, hname⟩ := List.mem_map.1 h
  rwa [hk.eq_of_name hu (hl v hv) hname.symm]

theorem LeadsTo.declares (h : t.LeadsTo s u) : t.Declares u :=
  declares_of_parents (mem_parents_iff.2 h)

theorem declares_of_rounds (hs : t.Declares s) (h : u ∈ t.rounds s n) : t.Declares u := by
  induction n with
  | zero => rwa [List.mem_singleton.1 h]
  | succ n ih =>
    rcases List.mem_append.1 h with h | h
    · exact ih h
    · obtain ⟨v, -, hv⟩ := List.mem_flatMap.1 (mem_of_mem_fresh h).1
      exact declares_of_parents hv

theorem nodup_names_rounds : (names (t.rounds s n)).Nodup := by
  induction n with
  | zero => exact List.nodup_singleton _
  | succ n ih =>
    rw [rounds, names, List.map_append]
    refine List.nodup_append.2 ⟨ih, nodup_names_fresh, ?_⟩
    rintro q hq _ hf rfl
    exact (mem_names_fresh.1 hf).2 hq

theorem rounds_mono (h : m ≤ n) : t.rounds s m <+: t.rounds s n := by
  induction n, h using Nat.le_induction with
  | base => exact List.prefix_rfl
  | succ n _ ih => exact ih.trans (List.prefix_append _ _)

theorem name_mem_rounds_succ (hu : u ∈ t.rounds s n) (huv : v ∈ t.parents u) :
    v.qualifiedName ∈ names (t.rounds s (n + 1)) := by
  have hv : v.qualifiedName ∈ names ((t.rounds s n).flatMap t.parents) :=
    List.mem_map_of_mem (List.mem_flatMap.2 ⟨u, hu, huv⟩)
  rw [rounds, names, List.map_append, List.mem_append]
  by_cases hmet : v.qualifiedName ∈ names (t.rounds s n)
  · exact .inl hmet
  · exact .inr (mem_names_fresh.2 ⟨hv, hmet⟩)

/-- All parents count anew in each round, for what is met already adds nothing. -/
theorem rounds_succ : t.rounds s (n + 1) = fresh [] (s :: (t.rounds s n).flatMap t.parents) := by
  induction n with
  | zero => rfl
  | succ n ih =>
    set old := (t.rounds s n).flatMap t.parents with hold
    set new := fresh (names (t.rounds s n)) old with hnew
    have hrounds : t.rounds s (n + 1) = t.rounds s n ++ new := rfl
    have hdone : fresh (names (t.rounds s (n + 1))) old = [] := by
      refine fresh_eq_nil fun q hq => ?_
      obtain ⟨v, hv, rfl⟩ := List.mem_map.1 hq
      obtain ⟨u, hu, huv⟩ := List.mem_flatMap.1 hv
      exact name_mem_rounds_succ hu huv
    have hmet : ∀ q, q ∈ names old ++ names (t.rounds s (n + 1)) ↔ q ∈ names (s :: old) ++ [] := by
      intro q
      rw [ih, List.mem_append, mem_names_fresh, List.append_nil]
      simp only [names, List.map_cons, List.mem_cons]
      grind
    calc t.rounds s (n + 2)
        = t.rounds s (n + 1) ++ fresh (names (t.rounds s (n + 1)))
            (old ++ new.flatMap t.parents) := by
          rw [rounds, hrounds, List.flatMap_append]
      _ = fresh [] (s :: old) ++ fresh (names (s :: old) ++ []) (new.flatMap t.parents) := by
          rw [fresh_append, hdone, List.nil_append, fresh_congr hmet, ih]
      _ = fresh [] (s :: (t.rounds s (n + 1)).flatMap t.parents) := by
          rw [← fresh_append, hrounds, List.flatMap_append]
          rfl

theorem mem_rounds_succ (hk : t.Keyed) (hs : t.Declares s) :
    v ∈ t.rounds s (n + 1) ↔ v = s ∨ ∃ u ∈ t.rounds s n, t.LeadsTo u v := by
  constructor
  · intro h
    rw [rounds_succ] at h
    rcases List.mem_cons.1 (mem_of_mem_fresh h).1 with rfl | h
    · exact .inl rfl
    · obtain ⟨u, hu, huv⟩ := List.mem_flatMap.1 h
      exact .inr ⟨u, hu, mem_parents_iff.1 huv⟩
  · rintro (rfl | ⟨u, hu, huv⟩)
    · exact (rounds_mono (Nat.zero_le _)).subset (List.mem_singleton_self v)
    · exact hk.mem_of_name (fun _ => declares_of_rounds hs) huv.declares
        (name_mem_rounds_succ hu (mem_parents_iff.2 huv))

theorem mem_rounds_iff (hk : t.Keyed) (hs : t.Declares s) :
    v ∈ t.rounds s n ↔ ∃ m ≤ n, t.Above s m v := by
  induction n generalizing v with
  | zero =>
    constructor
    · intro h
      obtain rfl := List.mem_singleton.1 h
      exact ⟨0, Nat.le_refl 0, .start⟩
    · rintro ⟨m, hm, h⟩
      obtain rfl := Nat.le_zero.1 hm
      cases h
      exact List.mem_singleton_self _
  | succ n ih =>
    rw [mem_rounds_succ hk hs]
    constructor
    · rintro (rfl | ⟨u, hu, huv⟩)
      · exact ⟨0, Nat.zero_le _, .start⟩
      · obtain ⟨m, hm, h⟩ := ih.1 hu
        exact ⟨m + 1, Nat.succ_le_succ hm, .step h huv⟩
    · rintro ⟨m, hm, h⟩
      cases h with
      | start => exact .inl rfl
      | step h huv => exact .inr ⟨_, ih.2 ⟨_, Nat.le_of_succ_le_succ hm, h⟩, huv⟩

theorem length_le_size (hk : t.Keyed) {l : List TypeSymbol} (hl : ∀ u ∈ l, t.Declares u)
    (hnodup : (names l).Nodup) : l.length ≤ t.size := by
  have hsub : names l ⊆ t.keys := by
    intro q hq
    obtain ⟨u, hu, rfl⟩ := List.mem_map.1 hq
    rw [Dict.mem_keys_iff, hk.get? (hl u hu)]
    rfl
  have h := (List.subperm_of_subset hnodup hsub).length_le
  rwa [names, List.length_map, Dict.keys, List.length_map] at h

theorem rounds_eq_of_le (h : t.rounds s (m + 1) = t.rounds s m) (hmn : m ≤ n) :
    t.rounds s n = t.rounds s m := by
  induction n, hmn using Nat.le_induction with
  | base => rfl
  | succ n _ ih => rw [rounds_succ, ih, ← rounds_succ, h]

theorem lt_length_rounds (h : ∀ m < n, t.rounds s (m + 1) ≠ t.rounds s m) :
    n < (t.rounds s n).length := by
  induction n with
  | zero => exact Nat.one_pos
  | succ n ih =>
    have hn := ih fun m hm => h m (Nat.lt_succ_of_lt hm)
    have hne : (t.rounds s (n + 1)).length ≠ (t.rounds s n).length := fun he =>
      h n n.lt_succ_self ((rounds_mono n.le_succ).eq_of_length he.symm).symm
    have hle : (t.rounds s n).length ≤ (t.rounds s (n + 1)).length :=
      (rounds_mono n.le_succ).length_le
    omega

theorem rounds_eq_breadthFirst (hk : t.Keyed) (hs : t.Declares s) (h : t.size ≤ n) :
    t.rounds s n = t.breadthFirst s := by
  obtain ⟨m, hm, heq⟩ : ∃ m < t.size, t.rounds s (m + 1) = t.rounds s m := by
    by_contra hcon
    have hlt : t.size < (t.rounds s t.size).length := by
      refine lt_length_rounds fun m hm heq => hcon ⟨m, hm, heq⟩
    have hle : (t.rounds s t.size).length ≤ t.size :=
      length_le_size hk (fun _ => declares_of_rounds hs) nodup_names_rounds
    exact Nat.not_lt.2 hle hlt
  rw [breadthFirst, rounds_eq_of_le heq (hm.le.trans h), rounds_eq_of_le heq hm.le]

theorem mem_breadthFirst_iff (hk : t.Keyed) (hs : t.Declares s) :
    v ∈ t.breadthFirst s ↔ ∃ n, t.Above s n v := by
  constructor
  · intro h
    obtain ⟨n, -, hn⟩ := (mem_rounds_iff hk hs).1 h
    exact ⟨n, hn⟩
  · rintro ⟨n, hn⟩
    have hmem : v ∈ t.rounds s (max n t.size) :=
      (mem_rounds_iff hk hs).2 ⟨n, Nat.le_max_left _ _, hn⟩
    rwa [rounds_eq_breadthFirst hk hs (Nat.le_max_right _ _)] at hmem

theorem length_le_breadthFirst (hk : t.Keyed) (hs : t.Declares s) {l : List TypeSymbol}
    (hl : ∀ u ∈ l, ∃ n, t.Above s n u) (hnodup : (names l).Nodup) :
    l.length ≤ (t.breadthFirst s).length := by
  have hsub : l ⊆ t.breadthFirst s := fun u hu => (mem_breadthFirst_iff hk hs).2 (hl u hu)
  exact (List.subperm_of_subset hnodup.of_map hsub).length_le

theorem pairwise_rounds (hk : t.Keyed) (hs : t.Declares s) :
    (t.rounds s n).Pairwise fun u v => ∀ m, t.Above s m v → ∃ k ≤ m, t.Above s k u := by
  induction n with
  | zero => exact List.pairwise_singleton _ _
  | succ n ih =>
    -- what a round adds is farther than anything before it, and no farther than what it adds
    have hadd : ∀ u ∈ t.rounds s (n + 1),
        ∀ v ∈ fresh (names (t.rounds s n)) ((t.rounds s n).flatMap t.parents),
        ∀ m, t.Above s m v → ∃ k ≤ m, t.Above s k u := by
      intro u hu v hv m hm
      obtain ⟨k, hk', hu'⟩ := (mem_rounds_iff hk hs).1 hu
      have hnm : n < m := by
        by_contra hcon
        have hmem := (mem_rounds_iff hk hs).2 ⟨m, Nat.le_of_not_lt hcon, hm⟩
        exact (mem_of_mem_fresh hv).2 (List.mem_map_of_mem hmem)
      exact ⟨k, by omega, hu'⟩
    refine List.pairwise_append.2 ⟨ih, ?_, fun u hu => hadd u (List.mem_append_left _ hu)⟩
    exact List.pairwise_of_forall_mem_list fun u hu v hv => hadd u (List.mem_append_right _ hu) v hv

end

end PackageModularity.TypeTable
