import Mathlib.Algebra.BigOperators.Ring.Finset
import PackageModularity.Dict

/-! Sums over the entries of a map, its keys as a set, and what a list of entries leaves in it. -/
namespace PackageModularity.Dict

variable {κ α : Type} [Ord κ] [Std.TransOrd κ] [Std.LawfulEqOrd κ] [DecidableEq κ]

omit [Std.LawfulEqOrd κ] [DecidableEq κ] in
theorem nodup_keys (d : Dict κ α) : d.keys.Nodup := by
  have h : d.entries.Pairwise fun a b => a.1 ≠ b.1 := by
    refine d.increasing.imp ?_
    intro a b hab he
    simp [he] at hab
  exact List.pairwise_map.2 h

omit [Std.LawfulEqOrd κ] in
theorem mem_keys_iff {d : Dict κ α} {k : κ} : k ∈ d.keys ↔ (d.get? k).isSome := by
  constructor
  · intro h
    obtain ⟨e, he, rfl⟩ := List.mem_map.1 h
    rw [get?_eq_some_iff.2 he]
    rfl
  · intro h
    obtain ⟨v, hv⟩ := Option.isSome_iff_exists.1 h
    exact List.mem_map.2 ⟨(k, v), get?_eq_some_iff.1 hv, rfl⟩

theorem isSome_get?_alter {d : Dict κ α} {k k' : κ} {f : Option α → α} :
    ((d.alter k f).get? k').isSome ↔ k' = k ∨ (d.get? k').isSome := by
  rw [get?_alter]
  by_cases h : k' = k <;> simp [h]

omit [Std.LawfulEqOrd κ] in
theorem mem_values_of_get? {d : Dict κ α} {k : κ} {v : α} (h : d.get? k = some v) :
    v ∈ d.values :=
  List.mem_map.2 ⟨(k, v), get?_eq_some_iff.1 h, rfl⟩

omit [Std.LawfulEqOrd κ] in
theorem toFinset_keys {d : Dict κ α} {ks : List κ} (h : ∀ k, (d.get? k).isSome ↔ k ∈ ks) :
    d.keys.toFinset = ks.toFinset := by
  ext k
  simp only [List.mem_toFinset, mem_keys_iff, h]

omit [Std.LawfulEqOrd κ] in
theorem size_eq_card {d : Dict κ α} {ks : List κ} (h : ∀ k, (d.get? k).isSome ↔ k ∈ ks) :
    d.size = ks.toFinset.card := by
  rw [← toFinset_keys h, List.toFinset_card_of_nodup d.nodup_keys]
  simp [keys, size]

omit [Std.LawfulEqOrd κ] in
theorem sum_keys {d : Dict κ α} {ks : List κ} (h : ∀ k, (d.get? k).isSome ↔ k ∈ ks) (f : κ → Nat) :
    (d.keys.map f).sum = ∑ k ∈ ks.toFinset, f k := by
  rw [← toFinset_keys h, List.sum_toFinset f d.nodup_keys]

omit [Std.LawfulEqOrd κ] in
theorem sum_values {d : Dict κ Nat} {ks : List κ} (h : ∀ k, (d.get? k).isSome → k ∈ ks) :
    d.values.sum = ∑ k ∈ ks.toFinset, (d.get? k).getD 0 := by
  have hentries : d.values = d.keys.map fun k => (d.get? k).getD 0 := by
    rw [values, keys, List.map_map]
    refine List.map_congr_left fun e he => ?_
    simp [get?_eq_some_iff.2 (show (e.1, e.2) ∈ d.toList from he)]
  have hsub : d.keys.toFinset ⊆ ks.toFinset := fun k hk =>
    List.mem_toFinset.2 (h k (mem_keys_iff.1 (List.mem_toFinset.1 hk)))
  rw [hentries, ← List.sum_toFinset _ d.nodup_keys]
  refine Finset.sum_subset hsub fun k _ hk => ?_
  have hnone : d.get? k = none := by
    rw [← Option.not_isSome_iff_eq_none, ← mem_keys_iff]
    exact fun hmem => hk (List.mem_toFinset.2 hmem)
  rw [hnone, Option.getD_none]

theorem sum_place (w : κ × α → Nat) (k : κ) (f : Option α → α) {es : List (κ × α)}
    (h : Increasing es) :
    ((place k f es).map w).sum + ((find k es).map fun v => w (k, v)).getD 0 =
      (es.map w).sum + w (k, f (find k es)) := by
  induction es with
  | nil => simp [place, find]
  | cons p r ih =>
    obtain ⟨j, v⟩ := p
    cases c : compare k j with
    | lt =>
      have hk : k ≠ j := fun e => by simp [e] at c
      simp only [place, c, find, hk, if_false, find_below h c, List.map_cons, List.sum_cons,
        Option.map_none, Option.getD_none]
      omega
    | eq =>
      have hk := Std.LawfulEqCmp.eq_of_compare c
      subst hk
      simp only [place, c, find, if_true, List.map_cons, List.sum_cons, Option.map_some,
        Option.getD_some]
      omega
    | gt =>
      have hk : k ≠ j := fun e => by simp [e] at c
      have hr := ih (List.pairwise_cons.1 h).2
      simp only [place, c, find, hk, if_false, List.map_cons, List.sum_cons]
      omega

theorem sum_alter (w : κ × α → Nat) (d : Dict κ α) (k : κ) (f : Option α → α) :
    ((d.alter k f).toList.map w).sum + ((d.get? k).map fun v => w (k, v)).getD 0 =
      (d.toList.map w).sum + w (k, f (d.get? k)) :=
  sum_place w k f d.increasing

theorem get?_foldl_insert (es : List (κ × α)) (d : Dict κ α) (k : κ) :
    (es.foldl (fun d e => d.insert e.1 e.2) d).get? k =
      ((es.filter fun e => e.1 = k).getLast?.map (·.2)).or (d.get? k) := by
  induction es generalizing d with
  | nil => rfl
  | cons e es ih =>
    simp only [List.foldl_cons, ih, get?_insert, List.filter_cons, eq_comm (a := k)]
    by_cases h : e.1 = k
    · cases hl : (es.filter fun e => e.1 = k).getLast? <;> simp [h, hl, List.getLast?_cons]
    · simp [h]

theorem get?_ofList (es : List (κ × α)) (k : κ) :
    (ofList es).get? k = (es.filter fun e => e.1 = k).getLast?.map (·.2) := by
  rw [ofList, get?_foldl_insert, get?_empty, Option.or_none]

theorem get?_ofList_of_nodup {es : List (κ × α)} (h : (es.map (·.1)).Nodup) {k : κ} {v : α} :
    (ofList es).get? k = some v ↔ (k, v) ∈ es := by
  rw [get?_ofList]
  induction es with
  | nil => simp
  | cons e es ih =>
    obtain ⟨hk, hes⟩ := List.nodup_cons.1 h
    have ih := ih hes
    by_cases he : e.1 = k
    · obtain ⟨j, w⟩ := e
      obtain rfl : j = k := he
      have hfresh : ∀ d ∈ es, d.1 ≠ j := fun d hd hdj => hk (List.mem_map.2 ⟨d, hd, hdj⟩)
      have hnone : es.filter (fun e => e.1 = j) = [] :=
        List.filter_eq_nil_iff.2 fun d hd hdj => hfresh d hd (of_decide_eq_true hdj)
      have hnot : (j, v) ∉ es := fun hmem => hfresh _ hmem rfl
      rw [List.filter_cons_of_pos (by simp), hnone]
      simp [hnot, eq_comm]
    · have hne : (k, v) ≠ e := fun h => he (by rw [← h])
      rw [List.filter_cons_of_neg (by simpa using he), ih]
      simp [hne]

/-- Where entries come from sources in increasing order, each with one value for a key, the value from
the greatest source that has the key is what the key gets. -/
theorem get?_ofList_flatMap_iff {σ τ : Type} [LinearOrder τ] {place : σ → τ} {f : σ → List (κ × α)}
    {l : List σ} (hsorted : l.Pairwise fun s s' => place s < place s')
    (hvalue : ∀ s, ∀ e ∈ f s, ∀ e' ∈ f s, e.2 = e'.2) {k : κ} {v : α} :
    (ofList (l.flatMap f)).get? k = some v ↔
      ∃ s ∈ l, (k, v) ∈ f s ∧ ∀ s' ∈ l, ∀ v', (k, v') ∈ f s' → place s' ≤ place s := by
  rw [get?_ofList]
  induction l using List.reverseRecOn with
  | nil => simp
  | append_singleton l s ih =>
    obtain ⟨hl, -, hlast⟩ := List.pairwise_append.1 hsorted
    have hbefore : ∀ s' ∈ l, place s' < place s := fun s' hs' => hlast s' hs' s List.mem_cons_self
    rw [List.flatMap_append, List.filter_append, List.getLast?_append, List.flatMap_singleton]
    -- the last source decides if it has the key, else those before it do
    by_cases hk : ∃ w, (k, w) ∈ f s
    · obtain ⟨w, hw⟩ := hk
      have hmem : (k, w) ∈ (f s).filter fun e => e.1 = k := List.mem_filter.2 ⟨hw, by simp⟩
      obtain ⟨e, he⟩ : ∃ e, ((f s).filter fun e => e.1 = k).getLast? = some e :=
        ⟨_, List.getLast?_eq_some_getLast (List.ne_nil_of_mem hmem)⟩
      have hsource : e ∈ f s := List.mem_of_mem_filter (List.mem_of_getLast? he)
      rw [he, Option.some_or, Option.map_some, Option.some.injEq, hvalue s e hsource _ hw]
      constructor
      · rintro rfl
        refine ⟨s, List.mem_append_right _ List.mem_cons_self, hw, fun s' hs' v' _ => ?_⟩
        rcases List.mem_append.1 hs' with hs' | hs'
        · exact (hbefore s' hs').le
        · rw [List.mem_singleton.1 hs']
      · rintro ⟨s', hs', hv, hgreatest⟩
        have hle := hgreatest s (List.mem_append_right _ List.mem_cons_self) w hw
        rcases List.mem_append.1 hs' with hs' | hs'
        · exact absurd (hbefore s' hs') hle.not_gt
        · rw [List.mem_singleton.1 hs'] at hv
          exact hvalue s _ hw _ hv
    · have hnone : (f s).filter (fun e => e.1 = k) = [] :=
        List.filter_eq_nil_iff.2 fun e he hek => hk ⟨e.2, by rwa [← of_decide_eq_true hek]⟩
      rw [hnone, List.getLast?_nil, Option.none_or, ih hl]
      constructor
      · rintro ⟨s', hs', hv, hgreatest⟩
        refine ⟨s', List.mem_append_left _ hs', hv, fun s'' hs'' v' hv' => ?_⟩
        rcases List.mem_append.1 hs'' with hs'' | hs''
        · exact hgreatest s'' hs'' v' hv'
        · rw [List.mem_singleton.1 hs''] at hv'
          exact absurd ⟨v', hv'⟩ hk
      · rintro ⟨s', hs', hv, hgreatest⟩
        rcases List.mem_append.1 hs' with hs' | hs'
        · exact ⟨s', hs', hv, fun s'' hs'' => hgreatest s'' (List.mem_append_left _ hs'')⟩
        · rw [List.mem_singleton.1 hs'] at hv
          exact absurd ⟨v, hv⟩ hk

end PackageModularity.Dict
