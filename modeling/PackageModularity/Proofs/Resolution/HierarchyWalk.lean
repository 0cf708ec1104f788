import PackageModularity.Proofs.Resolution.BreadthFirst

/-!
The search for a member goes through the types above the start in breadth-first order, as far as the
first that answers or the limit. The queue it keeps may hold a type many times over, and the limit
is tested before the question whether a type was met.
-/
namespace PackageModularity.TypeTable

variable {t : TypeTable} {s : TypeSymbol} {α : Type}

/-- The search, one queued type at a time: the names met, the queue, the types tried, the answer. -/
inductive Walk (t : TypeTable) (probe : TypeDecl → Option α) :
    List String → List TypeSymbol → List TypeSymbol → Option (TypeSymbol × α) → Prop where
  | empty {met : List String} : Walk t probe met [] [] none
  | full {met : List String} {s : TypeSymbol} {r : List TypeSymbol}
      (h : hierarchyLimit ≤ met.length) : Walk t probe met (s :: r) [] none
  | skip {met : List String} {s : TypeSymbol} {r l : List TypeSymbol} {a : Option (TypeSymbol × α)}
      (h : met.length < hierarchyLimit) (hs : s.qualifiedName ∈ met) (hr : Walk t probe met r l a) :
      Walk t probe met (s :: r) l a
  | found {met : List String} {s : TypeSymbol} {r : List TypeSymbol} {a : α}
      (h : met.length < hierarchyLimit) (hs : s.qualifiedName ∉ met) (ha : probe s.decl = some a) :
      Walk t probe met (s :: r) [s] (some (s, a))
  | next {met : List String} {s : TypeSymbol} {r l : List TypeSymbol} {a : Option (TypeSymbol × α)}
      (h : met.length < hierarchyLimit) (hs : s.qualifiedName ∉ met) (ha : probe s.decl = none)
      (hr : Walk t probe (s.qualifiedName :: met) (r ++ t.parents s) l a) :
      Walk t probe met (s :: r) (s :: l) a

def tried (probe : TypeDecl → Option α) : List TypeSymbol → List TypeSymbol
  | [] => []
  | s :: r => if (probe s.decl).isSome then [s] else s :: tried probe r

def firstAnswer (probe : TypeDecl → Option α) (l : List TypeSymbol) : Option (TypeSymbol × α) :=
  l.findSome? fun u => (probe u.decl).map (u, ·)

/-- Each type above once, nearest first, and of those as near in the order in which the types before
them name them. -/
structure IsBreadthFirst (t : TypeTable) (s : TypeSymbol) (l : List TypeSymbol) : Prop where
  distinct : (names l).Nodup
  reached : ∀ u, u ∈ l ↔ ∃ n, t.Above s n u
  nearest : l.Pairwise fun u v => ∀ m, t.Above s m v → ∃ k ≤ m, t.Above s k u
  asNamed : l = fresh [] (s :: l.flatMap t.parents)

section
variable {n : Nat} {met : List String} {w r l : List TypeSymbol}

theorem visit_nil : t.visit n met [] = [] := by
  cases n with
  | zero => rfl
  | succ n => rfl

theorem visit_met (h : s.qualifiedName ∈ met) : t.visit n met (s :: r) = t.visit n met r := by
  cases n with
  | zero => rfl
  | succ n => simp [visit, h]

theorem visit_new (h : s.qualifiedName ∉ met) :
    t.visit (n + 1) met (s :: r) = s :: t.visit n (s.qualifiedName :: met) (r ++ t.parents s) := by
  simp [visit, h]

/-- The visited types are the new names among what waits and the parents of the visited types, in
this order, for a queue gives out first what it took in first. -/
theorem visit_eq :
    t.visit n met w = (fresh met (w ++ (t.visit n met w).flatMap t.parents)).take n := by
  induction n generalizing met w with
  | zero => rfl
  | succ n ih =>
    induction w with
    | nil => rw [visit_nil]; rfl
    | cons s r ihw =>
      by_cases hs : s.qualifiedName ∈ met
      · rw [visit_met hs, List.cons_append, fresh, if_pos hs]
        exact ihw
      · rw [visit_new hs, List.cons_append, fresh, if_neg hs, List.take_succ_cons,
          List.flatMap_cons, ← List.append_assoc, ← ih]

theorem starts_with_rounds (h : l = (fresh [] (s :: l.flatMap t.parents)).take n) (k : Nat) :
    (t.rounds s k).take n <+: l := by
  induction k with
  | zero =>
    rw [h]
    exact List.IsPrefix.take (List.prefix_append [s] _) n
  | succ k ih =>
    by_cases hk : (t.rounds s k).length ≤ n
    · -- all of the round is in the list, and so is what the round leads to, up to the cut
      rw [List.take_of_length_le hk] at ih
      obtain ⟨rest, hrest⟩ := ih
      have hmap : s :: (t.rounds s k).flatMap t.parents <+: s :: l.flatMap t.parents := by
        rw [← hrest, List.flatMap_append, ← List.cons_append]
        exact List.prefix_append _ _
      rw [rounds_succ]
      conv => rhs; rw [h]
      exact (fresh_mono hmap).take n
    · obtain ⟨new, hnew⟩ := rounds_mono (t := t) (s := s) k.le_succ
      rwa [← hnew, List.take_append_of_le_length (Nat.le_of_not_le hk)]

/-- The order is the only list of types above that agrees with what its own types name. -/
theorem eq_take_breadthFirst (hk : t.Keyed) (hs : t.Declares s)
    (h : l = (fresh [] (s :: l.flatMap t.parents)).take n) (hl : ∀ u ∈ l, ∃ k, t.Above s k u) :
    l = (t.breadthFirst s).take n := by
  have hnodup : (names l).Nodup := by
    rw [h, names, List.map_take]
    exact nodup_names_fresh.sublist (List.take_sublist _ _)
  have hsub : l.length ≤ (t.breadthFirst s).length := length_le_breadthFirst hk hs hl hnodup
  have hn : l.length ≤ n := by
    rw [h]
    exact List.length_take_le _ _
  refine ((starts_with_rounds h t.size).eq_of_length_le ?_).symm
  rw [List.length_take]
  exact Nat.le_min.2 ⟨hn, hsub⟩

end

section
variable {l : List TypeSymbol}

theorem hierarchy_eq (hk : t.Keyed) (hs : t.Declares s) :
    t.hierarchy s = (t.breadthFirst s).take hierarchyLimit := by
  refine eq_take_breadthFirst hk hs visit_eq fun u hu => ?_
  refine of_mem_hierarchy (P := fun u => ∃ k, t.Above s k u) ?_ ⟨0, .start⟩ hu
  rintro u v ⟨k, hu⟩ hv
  exact ⟨k + 1, .step hu (mem_parents_iff.1 hv)⟩

theorem isBreadthFirst_iff (hk : t.Keyed) (hs : t.Declares s) :
    IsBreadthFirst t s l ↔ l = t.breadthFirst s := by
  constructor
  · intro h
    have hle : l.length ≤ (t.breadthFirst s).length :=
      length_le_breadthFirst hk hs (fun u hu => (h.reached u).1 hu) h.distinct
    have htake : l = (fresh [] (s :: l.flatMap t.parents)).take (t.breadthFirst s).length := by
      rw [← h.asNamed, List.take_of_length_le hle]
    rw [eq_take_breadthFirst hk hs htake fun u hu => (h.reached u).1 hu, List.take_length]
  · rintro rfl
    refine ⟨nodup_names_rounds, fun u => mem_breadthFirst_iff hk hs, pairwise_rounds hk hs, ?_⟩
    rw [breadthFirst, ← rounds_succ, rounds_eq_breadthFirst hk hs (Nat.le_succ _), breadthFirst]

theorem Walk.eq_visit {probe : TypeDecl → Option α} {met : List String} {w : List TypeSymbol}
    {a : Option (TypeSymbol × α)} (h : Walk t probe met w l a) :
    l = tried probe (t.visit (hierarchyLimit - met.length) met w) ∧
      a = firstAnswer probe (t.visit (hierarchyLimit - met.length) met w) := by
  induction h with
  | empty => rw [visit_nil]; exact ⟨rfl, rfl⟩
  | full h => rw [Nat.sub_eq_zero_of_le h]; exact ⟨rfl, rfl⟩
  | skip h hs _ ih => rwa [visit_met hs]
  | @found met s r a h hs ha =>
    obtain ⟨n, hn⟩ := Nat.exists_eq_succ_of_ne_zero (Nat.sub_ne_zero_of_lt h)
    rw [hn, visit_new hs]
    simp [tried, firstAnswer, ha]
  | @next met s r l a h hs ha _ ih =>
    have hn : hierarchyLimit - met.length = hierarchyLimit - (met.length + 1) + 1 := by omega
    rw [hn, visit_new hs]
    rw [List.length_cons] at ih
    simpa [tried, firstAnswer, ha] using ih

/-- The search comes to an end: each step meets a name, of which the limit allows only so many, or
takes a type from the queue and adds none. -/
theorem exists_walk (probe : TypeDecl → Option α) (met : List String) (w : List TypeSymbol) :
    ∃ l a, Walk t probe met w l a := by
  -- on the names that the limit still allows, then on the queue while no new name is met
  induction hn : hierarchyLimit - met.length generalizing met w with
  | zero =>
    cases w with
    | nil => exact ⟨[], none, .empty⟩
    | cons s r => exact ⟨[], none, .full (Nat.le_of_sub_eq_zero hn)⟩
  | succ n ih =>
    induction w with
    | nil => exact ⟨[], none, .empty⟩
    | cons s r ihr =>
      have hlt : met.length < hierarchyLimit := by omega
      by_cases hs : s.qualifiedName ∈ met
      · obtain ⟨l, a, h⟩ := ihr
        exact ⟨l, a, .skip hlt hs h⟩
      · cases ha : probe s.decl with
        | some a => exact ⟨[s], some (s, a), .found hlt hs ha⟩
        | none =>
          obtain ⟨l, a, h⟩ := ih (s.qualifiedName :: met) (r ++ t.parents s) (by
            rw [List.length_cons]; omega)
          exact ⟨s :: l, a, .next hlt hs ha h⟩

theorem walk_iff (hk : t.Keyed) (hs : t.Declares s) {probe : TypeDecl → Option α}
    {a : Option (TypeSymbol × α)} :
    Walk t probe [] [s] l a ↔
      l = tried probe ((t.breadthFirst s).take hierarchyLimit) ∧ a = t.findMember probe s := by
  rw [← hierarchy_eq hk hs]
  refine ⟨Walk.eq_visit, ?_⟩
  rintro ⟨rfl, rfl⟩
  obtain ⟨l, a, h⟩ := exists_walk (t := t) probe [] [s]
  obtain ⟨rfl, rfl⟩ := h.eq_visit
  exact h

theorem findMember_eq (hk : t.Keyed) (hs : t.Declares s) (probe : TypeDecl → Option α) :
    t.findMember probe s = firstAnswer probe ((t.breadthFirst s).take hierarchyLimit) := by
  rw [← hierarchy_eq hk hs]
  rfl

theorem firstAnswer_eq_none {probe : TypeDecl → Option α} :
    firstAnswer probe l = none ↔ ∀ u ∈ l, probe u.decl = none := by
  rw [firstAnswer, List.findSome?_eq_none_iff]
  simp only [Option.map_eq_none_iff]

theorem firstAnswer_eq_some {probe : TypeDecl → Option α} {u : TypeSymbol} {a : α} :
    firstAnswer probe l = some (u, a) ↔
      ∃ before after, l = before ++ u :: after ∧ probe u.decl = some a ∧
        ∀ v ∈ before, probe v.decl = none := by
  rw [firstAnswer, List.findSome?_eq_some_iff]
  simp only [Option.map_eq_some_iff, Option.map_eq_none_iff, Prod.mk.injEq]
  constructor
  · rintro ⟨before, v, after, rfl, ⟨a', ha, rfl, rfl⟩, hbefore⟩
    exact ⟨before, after, rfl, ha, hbefore⟩
  · rintro ⟨before, after, rfl, ha, hbefore⟩
    exact ⟨before, u, after, rfl, ⟨a, ha, rfl, rfl⟩, hbefore⟩

theorem findMember_nearest (hk : t.Keyed) (hs : t.Declares s) {probe : TypeDecl → Option α}
    {u : TypeSymbol} {a : α} (h : t.findMember probe s = some (u, a)) :
    ∃ n, t.Above s n u ∧ probe u.decl = some a ∧
      ∀ v m, t.Above s m v → (probe v.decl).isSome → n ≤ m := by
  rw [findMember_eq hk hs] at h
  obtain ⟨before, after, htake, ha, hbefore⟩ := firstAnswer_eq_some.1 h
  have hall : t.breadthFirst s =
      before ++ u :: (after ++ (t.breadthFirst s).drop hierarchyLimit) := by
    conv => lhs; rw [← List.take_append_drop hierarchyLimit (t.breadthFirst s), htake]
    rw [List.append_assoc, List.cons_append]
  have hreach : ∃ n, t.Above s n u := by
    rw [← mem_breadthFirst_iff hk hs, hall]
    exact List.mem_append_right _ List.mem_cons_self
  have hlater : ∀ v ∈ after ++ (t.breadthFirst s).drop hierarchyLimit,
      ∀ m, t.Above s m v → ∃ k ≤ m, t.Above s k u := by
    have hpair := pairwise_rounds (n := t.size) hk hs
    rw [← breadthFirst, hall] at hpair
    exact (List.pairwise_cons.1 (List.pairwise_append.1 hpair).2.1).1
  classical
  refine ⟨Nat.find hreach, Nat.find_spec hreach, ha, fun v m hm hv => ?_⟩
  have hmem := (mem_breadthFirst_iff hk hs).2 ⟨m, hm⟩
  rw [hall] at hmem
  rcases List.mem_append.1 hmem with hmem | hmem
  · rw [hbefore v hmem] at hv
    simp at hv
  · rcases List.mem_cons.1 hmem with rfl | hmem
    · exact Nat.find_min' hreach hm
    · obtain ⟨k, hkm, hku⟩ := hlater v hmem m hm
      exact (Nat.find_min' hreach hku).trans hkm

theorem findMember_eq_none (hk : t.Keyed) (hs : t.Declares s) {probe : TypeDecl → Option α}
    (h : (t.breadthFirst s).length ≤ hierarchyLimit) :
    t.findMember probe s = none ↔ ∀ v n, t.Above s n v → probe v.decl = none := by
  rw [findMember_eq hk hs, List.take_of_length_le h, firstAnswer_eq_none]
  simp only [mem_breadthFirst_iff hk hs, forall_exists_index]

theorem methodIn?_enclosingSymbols {scope : Scope} {name : String}
    {p : TypeSymbol × Option String} :
    t.methodIn? (t.enclosingSymbols scope) name = some p ↔
      ∃ inner q outer o, scope.enclosing = inner ++ q :: outer ∧ t.get? q = some o ∧
        t.findMethod name o = some p ∧
        ∀ q' ∈ inner, ∀ x, t.get? q' = some x → t.findMethod name x = none := by
  rw [methodIn?, enclosingSymbols, ← List.head?_filterMap, List.filterMap_filterMap,
    List.head?_filterMap, List.findSome?_eq_some_iff]
  simp only [Option.bind_eq_some_iff, Option.bind_eq_none_iff]
  constructor
  · rintro ⟨inner, q, outer, he, ⟨o, ho, hp⟩, hinner⟩
    exact ⟨inner, q, outer, o, he, ho, hp, hinner⟩
  · rintro ⟨inner, q, outer, o, he, ho, hp, hinner⟩
    exact ⟨inner, q, outer, he, ⟨o, ho, hp⟩, hinner⟩

/-- What a search from a type does: it ends, it tries the types above in order as far as the first
that answers, no type that answers is nearer, and a small hierarchy is searched as a whole. -/
structure SearchesInOrder (t : TypeTable) (s : TypeSymbol) (probe : TypeDecl → Option α) : Prop where
  order : ∀ l, IsBreadthFirst t s l ↔ l = t.breadthFirst s
  run : ∀ l a, Walk t probe [] [s] l a ↔
    l = tried probe ((t.breadthFirst s).take 64) ∧ a = t.findMember probe s
  answer : t.findMember probe s = firstAnswer probe ((t.breadthFirst s).take 64)
  nearest : ∀ u a, t.findMember probe s = some (u, a) →
    ∃ n, t.Above s n u ∧ probe u.decl = some a ∧
      ∀ v m, t.Above s m v → (probe v.decl).isSome → n ≤ m
  complete : (t.breadthFirst s).length ≤ 64 →
    (t.findMember probe s = none ↔ ∀ v n, t.Above s n v → probe v.decl = none)

theorem Keyed.searchesInOrder (hk : t.Keyed) (hs : t.Declares s) (probe : TypeDecl → Option α) :
    SearchesInOrder t s probe where
  order _ := isBreadthFirst_iff hk hs
  run _ _ := walk_iff hk hs
  answer := findMember_eq hk hs probe
  nearest _ _ := findMember_nearest hk hs
  complete := findMember_eq_none hk hs

/-- Every search in the table of some units goes through the hierarchy in order, and a call without a
receiver means the method of the innermost enclosing type whose hierarchy has it. -/
theorem ofUnits_searchesInOrder (us : List SourceUnit) {s : TypeSymbol}
    (hs : (ofUnits us).Declares s) (probe : TypeDecl → Option α) :
    SearchesInOrder (ofUnits us) s probe ∧
    (∀ scope name p, (ofUnits us).methodIn? ((ofUnits us).enclosingSymbols scope) name = some p ↔
      ∃ inner q outer o, scope.enclosing = inner ++ q :: outer ∧ (ofUnits us).get? q = some o ∧
        (ofUnits us).findMethod name o = some p ∧
        ∀ q' ∈ inner, ∀ x, (ofUnits us).get? q' = some x →
          ∀ u ∈ ((ofUnits us).breadthFirst x).take 64, u.decl.methods.get? name = none) ∧
    ∀ c scope name, (ofUnits us).callTarget? c scope none name =
      ((ofUnits us).methodIn? ((ofUnits us).enclosingSymbols scope) name).map fun p =>
        (TypeRef.known p.1).declaration := by
  have hk := keyed_ofUnits us
  have hnone : ∀ name q x, (ofUnits us).get? q = some x →
      ((ofUnits us).findMethod name x = none ↔
        ∀ u ∈ ((ofUnits us).breadthFirst x).take 64, u.decl.methods.get? name = none) := by
    intro name q x hx
    rw [findMethod, findMember_eq hk ⟨q, hx⟩, firstAnswer_eq_none]
    rfl
  refine ⟨hk.searchesInOrder hs probe, fun scope name p => ?_, fun c scope name => ?_⟩
  · rw [methodIn?_enclosingSymbols]
    refine exists_congr fun inner => exists_congr fun q => exists_congr fun outer =>
      exists_congr fun o => and_congr_right fun _ => and_congr_right fun _ =>
      and_congr_right fun _ => forall₂_congr fun q' _ => forall₂_congr fun x hx => ?_
    exact hnone name q' x hx
  · cases h : (ofUnits us).methodIn? ((ofUnits us).enclosingSymbols scope) name with
    | none => simp only [callTarget?, h, Option.map_none]
    | some p => simp only [callTarget?, h, Option.map_some]

end

def ringContext : FileContext := ⟨some "p", Dict.empty, []⟩

def ringTypes : List TypeDecl :=
  [⟨"p.A", [], ["B"], Dict.empty, Dict.empty⟩, ⟨"p.B", [], ["A", "C", "B"], Dict.empty, Dict.empty⟩,
    ⟨"p.C", [], [], Dict.empty, Dict.empty.insert "run" none⟩,
    ⟨"p.A.D", ["p.A"], [], Dict.empty, Dict.empty⟩]

def ring : List SourceUnit := [⟨.ofText "Ring.java", ringContext, ringTypes, [], []⟩]

def ringType (n : Nat) : TypeSymbol := ⟨ringTypes.getD n default, ringContext⟩

/-- The inner type `D` has no such method, and the hierarchy of `A` around it has. -/
theorem searchesInOrder_ring :
    (ofUnits ring).Declares (ringType 0) ∧
    Walk (ofUnits ring) (fun d => d.methods.get? "run") [] [ringType 0]
      [ringType 0, ringType 1, ringType 2] (some (ringType 2, none)) ∧
    (∃ n, (ofUnits ring).Above (ringType 0) n (ringType 2) ∧
      ∀ v m, (ofUnits ring).Above (ringType 0) m v → (v.decl.methods.get? "run").isSome → n ≤ m) ∧
    (ofUnits ring).callTarget? ringContext ⟨["p.A.D", "p.A"], Dict.empty⟩ none "run" =
      some ⟨"p", .source⟩ := by
  have hs : (ofUnits ring).Declares (ringType 0) := ⟨"p.A", rfl⟩
  have hfound : (ofUnits ring).findMember (fun d => d.methods.get? "run") (ringType 0) =
      some (ringType 2, none) := rfl
  obtain ⟨hsearch, hmethod, htarget⟩ :=
    ofUnits_searchesInOrder ring hs fun d => d.methods.get? "run"
  have hcall := (hmethod ⟨["p.A.D", "p.A"], Dict.empty⟩ "run" (ringType 2, none)).2
    ⟨["p.A.D"], "p.A", [], ringType 0, rfl, rfl, hfound, by
      intro q hq x hx u hu
      obtain rfl := List.mem_singleton.1 hq
      obtain rfl : ringType 3 = x := Option.some.inj hx
      obtain rfl : u = ringType 3 := List.mem_singleton.1 hu
      rfl⟩
  obtain ⟨n, habove, -, hmin⟩ := hsearch.nearest _ _ hfound
  refine ⟨hs, (hsearch.run _ _).2 ⟨rfl, hfound.symm⟩, ⟨n, habove, hmin⟩, ?_⟩
  rw [htarget, hcall]
  rfl

end PackageModularity.TypeTable
