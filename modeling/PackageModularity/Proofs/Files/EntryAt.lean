import Mathlib.Data.List.Infix
import PackageModularity.Files.Entry
import PackageModularity.Proofs.Files.JoinedPath

/-!
What stands where in a tree after the entry under one list of names is replaced: the new entry there
and below, folders above, and everything else as it was.
-/
namespace PackageModularity.Entry

mutual

/-- Every name in a tree is one that an entry can have, and no folder has a name twice. -/
def wellNamed : Entry → Bool
  | .folder cs => wellNamedAll cs
  | _ => true

def wellNamedAll : List (String × Entry) → Bool
  | [] => true
  | (n, e) :: r =>
    decide (IsEntryName n) && decide (n ∉ r.map (·.1)) && wellNamed e && wellNamedAll r

end

theorem wellNamedAll_iff (cs : List (String × Entry)) :
    wellNamedAll cs = true ↔
      (cs.map (·.1)).Nodup ∧ ∀ c ∈ cs, IsEntryName c.1 ∧ c.2.wellNamed = true := by
  induction cs with
  | nil => simp [wellNamedAll]
  | cons c r ih =>
    simp only [wellNamedAll, Bool.and_eq_true, decide_eq_true_eq, ih, List.map_cons,
      List.nodup_cons, List.forall_mem_cons]
    tauto

theorem wellNamed_folder_iff (cs : List (String × Entry)) :
    (folder cs).wellNamed = true ↔
      (cs.map (·.1)).Nodup ∧ ∀ c ∈ cs, IsEntryName c.1 ∧ c.2.wellNamed = true := by
  rw [wellNamed, wellNamedAll_iff]

theorem mem_of_lookup {cs : List (String × Entry)} {n : String} {e : Entry}
    (h : cs.lookup n = some e) : (n, e) ∈ cs := by
  obtain ⟨front, back, rfl, -⟩ := List.lookup_eq_some_iff.1 h
  simp

theorem lookup_cons (k : String) (e : Entry) (r : List (String × Entry)) (n : String) :
    ((k, e) :: r).lookup n = if n = k then some e else r.lookup n := by
  by_cases hn : n = k
  · simp [hn]
  · rw [List.lookup_cons, beq_false_of_ne hn, if_neg hn]

theorem lookup_eq_some_iff {cs : List (String × Entry)} (hcs : (cs.map (·.1)).Nodup) (n : String)
    (e : Entry) : cs.lookup n = some e ↔ (n, e) ∈ cs := by
  refine ⟨mem_of_lookup, fun h => ?_⟩
  induction cs with
  | nil => simp at h
  | cons c r ih =>
    obtain ⟨k, d⟩ := c
    obtain ⟨hk, hr⟩ := List.nodup_cons.1 hcs
    rcases List.mem_cons.1 h with heq | hmem
    · obtain ⟨rfl, rfl⟩ := Prod.mk.inj heq
      simp
    · have hn : n ≠ k := by
        rintro rfl
        exact hk (List.mem_map.2 ⟨_, hmem, rfl⟩)
      rw [lookup_cons, if_neg hn]
      exact ih hr hmem

theorem wellNamed_child {e c : Entry} (he : e.wellNamed = true) {n : String}
    (h : e.child? n = some c) : IsEntryName n ∧ c.wellNamed = true := by
  cases e with
  | file bytes => simp [child?, children] at h
  | link target => simp [child?, children] at h
  | folder cs => exact ((wellNamed_folder_iff cs).1 he).2 _ (mem_of_lookup h)

/-! ### Going down a list of names -/

theorem at?_append (e : Entry) (names more : List String) :
    e.at? (names ++ more) = (e.at? names).bind (·.at? more) := by
  induction names generalizing e with
  | nil => simp [at?]
  | cons n r ih =>
    simp only [List.cons_append, at?, Option.bind_assoc]
    congr 1
    funext c
    exact ih c

theorem at?_snoc (e : Entry) (names : List String) (n : String) :
    e.at? (names ++ [n]) = (e.at? names).bind (·.child? n) := by
  rw [at?_append]
  congr 1
  funext c
  simp [at?]

theorem at?_below {e : Entry} (h : e.isFolder = false) {more : List String} (hmore : more ≠ []) :
    e.at? more = none := by
  cases more with
  | nil => exact absurd rfl hmore
  | cons n r =>
    cases e with
    | folder cs => simp [isFolder] at h
    | file bytes => simp [at?, child?, children]
    | link target => simp [at?, child?, children]

theorem wellNamed_at? {e c : Entry} (he : e.wellNamed = true) {names : List String}
    (h : e.at? names = some c) : (∀ n ∈ names, IsEntryName n) ∧ c.wellNamed = true := by
  induction names generalizing e with
  | nil =>
    simp only [at?, Option.some.injEq] at h
    exact ⟨by simp, h ▸ he⟩
  | cons n r ih =>
    obtain ⟨d, hd, hr⟩ := Option.bind_eq_some_iff.1 h
    obtain ⟨hn, hwd⟩ := wellNamed_child he hd
    obtain ⟨hnames, hc⟩ := ih hwd hr
    exact ⟨List.forall_mem_cons.2 ⟨hn, hnames⟩, hc⟩

theorem isEntryName_of_found {root : Entry} (hroot : root.wellNamed = true) {names : List String}
    (h : root.at? names ≠ none) {n : String} (hn : n ∈ names) : IsEntryName n := by
  obtain ⟨e, he⟩ := Option.ne_none_iff_exists'.1 h
  exact (wellNamed_at? hroot he).1 n hn

/-! ### Changing one child -/

theorem lookup_alterChild {cs : List (String × Entry)} (hcs : (cs.map (·.1)).Nodup)
    (n m : String) (f : Option Entry → Option Entry) :
    (alterChild n f cs).lookup m = if m = n then f (cs.lookup n) else cs.lookup m := by
  induction cs with
  | nil =>
    simp only [alterChild]
    split
    · rename_i e he
      by_cases hm : m = n <;> simp [lookup_cons, hm, he]
    · rename_i he
      by_cases hm : m = n <;> simp [hm, he]
  | cons c r ih =>
    obtain ⟨hc, hr⟩ := List.nodup_cons.1 hcs
    obtain ⟨k, e⟩ := c
    by_cases hk : k = n
    · subst hk
      have habsent : r.lookup k = none := by
        cases hl : r.lookup k with
        | none => rfl
        | some e => exact absurd (List.mem_map_of_mem (mem_of_lookup hl)) hc
      simp only [alterChild, if_true, lookup_cons]
      split
      · rename_i e' he
        by_cases hm : m = k <;> simp [lookup_cons, hm, he]
      · rename_i he
        by_cases hm : m = k <;> simp [hm, he, habsent]
    · simp only [alterChild, hk, Ne.symm hk, if_false, lookup_cons, ih hr]
      by_cases hm : m = k
      · subst hm
        simp [hk]
      · simp [hm]

theorem name_of_mem_alterChild {cs : List (String × Entry)} {n : String}
    {f : Option Entry → Option Entry} {c : String × Entry} (h : c ∈ alterChild n f cs) :
    c ∈ cs ∨ c.1 = n ∧ f (cs.lookup n) = some c.2 := by
  induction cs with
  | nil =>
    simp only [alterChild] at h
    split at h
    · rename_i e he
      rw [List.mem_singleton] at h
      exact Or.inr ⟨by rw [h], by rw [h]; exact he⟩
    · simp at h
  | cons d r ih =>
    obtain ⟨k, e⟩ := d
    by_cases hk : k = n
    · subst hk
      simp only [alterChild, if_true] at h
      split at h
      · rename_i e' he
        rcases List.mem_cons.1 h with h | h
        · exact Or.inr ⟨by rw [h], by rw [h]; simpa using he⟩
        · exact Or.inl (List.mem_cons_of_mem _ h)
      · exact Or.inl (List.mem_cons_of_mem _ h)
    · simp only [alterChild, hk, if_false] at h
      rcases List.mem_cons.1 h with h | h
      · exact Or.inl (h ▸ List.mem_cons_self)
      · rcases ih h with h | h
        · exact Or.inl (List.mem_cons_of_mem _ h)
        · exact Or.inr (by rwa [lookup_cons, if_neg (Ne.symm hk)])

theorem nodup_alterChild {cs : List (String × Entry)} (hcs : (cs.map (·.1)).Nodup) (n : String)
    (f : Option Entry → Option Entry) : ((alterChild n f cs).map (·.1)).Nodup := by
  induction cs with
  | nil =>
    simp only [alterChild]
    split <;> simp
  | cons d r ih =>
    obtain ⟨k, e⟩ := d
    obtain ⟨hk, hr⟩ := List.nodup_cons.1 hcs
    by_cases hkn : k = n
    · simp only [alterChild, hkn, if_true]
      split
      · subst hkn
        exact List.nodup_cons.2 ⟨hk, hr⟩
      · exact hr
    · simp only [alterChild, hkn, if_false, List.map_cons, List.nodup_cons]
      refine ⟨fun hmem => ?_, ih hr⟩
      obtain ⟨c, hc, hname⟩ := List.mem_map.1 hmem
      rcases name_of_mem_alterChild hc with hc | hc
      · exact hk (List.mem_map.2 ⟨c, hc, hname⟩)
      · exact hkn (hname ▸ hc.1)

/-! ### Replacing an entry -/

theorem nodup_children {e : Entry} (he : e.wellNamed = true) : (e.children.map (·.1)).Nodup := by
  cases e with
  | folder cs => exact ((wellNamed_folder_iff cs).1 he).1
  | file bytes => simp [children]
  | link target => simp [children]

theorem child?_set {root : Entry} (hroot : root.wellNamed = true) (new : Option Entry)
    (n m : String) (r : List String) :
    (root.set new (n :: r)).child? m =
      if m = n then
        if r = [] then new else some (((root.child? n).getD (.folder [])).set new r)
      else root.child? m := by
  rw [set, child?, children, lookup_alterChild (nodup_children hroot)]
  cases r <;> rfl

theorem wellNamed_getD_child {root : Entry} (hroot : root.wellNamed = true) (n : String) :
    ((root.child? n).getD (.folder [])).wellNamed = true := by
  cases h : root.child? n with
  | none => rfl
  | some c => exact (wellNamed_child hroot h).2

theorem at?_set_above {root e : Entry} (hroot : root.wellNamed = true) (new : Option Entry)
    {names : List String} (h : root.at? names = some e) (n : String) (r : List String) :
    (root.set new (names ++ n :: r)).at? names = some (e.set new (n :: r)) := by
  induction names generalizing root with
  | nil =>
    simp only [at?, Option.some.injEq] at h
    simp [at?, h]
  | cons k names ih =>
    obtain ⟨c, hc, hrest⟩ := Option.bind_eq_some_iff.1 h
    have hnil : names ++ n :: r ≠ [] := by simp
    simp only [List.cons_append, at?, child?_set hroot, if_true, hnil, if_false, hc,
      Option.getD_some, Option.bind_some]
    exact ih (wellNamed_child hroot hc).2 hrest

theorem at?_set_below {root : Entry} (hroot : root.wellNamed = true) (new : Option Entry)
    {names : List String} {cs : List (String × Entry)}
    (h : root.at? names = some (.folder cs)) (n : String) (more : List String) :
    (root.set new (names ++ [n])).at? (names ++ n :: more) = new.bind (·.at? more) := by
  have hcs := (wellNamed_at? hroot h).2
  rw [at?_append, at?_set_above hroot new h, Option.bind_some, at?, child?_set hcs]
  simp

theorem at?_set_self {root : Entry} (hroot : root.wellNamed = true) (new : Option Entry)
    {names : List String} {cs : List (String × Entry)}
    (h : root.at? names = some (.folder cs)) (n : String) :
    (root.set new (names ++ [n])).at? (names ++ [n]) = new := by
  rw [at?_set_below hroot new h]
  cases new <;> rfl

theorem at?_set_apart {root : Entry} (hroot : root.wellNamed = true) (new : Option Entry)
    {names others : List String} (h : ¬ names <+: others) (h' : ¬ others <+: names) :
    (root.set new names).at? others = root.at? others := by
  induction names generalizing root others with
  | nil => exact absurd List.nil_prefix h
  | cons n r ih =>
    cases others with
    | nil => exact absurd List.nil_prefix h'
    | cons m s =>
      simp only [at?, child?_set hroot]
      by_cases hm : m = n
      · subst hm
        rw [List.cons_prefix_cons] at h h'
        have hr : r ≠ [] := fun e => h ⟨rfl, e ▸ List.nil_prefix⟩
        have hs : s ≠ [] := fun e => h' ⟨rfl, e ▸ List.nil_prefix⟩
        rw [if_pos rfl, if_neg hr, Option.bind_some,
          ih (wellNamed_getD_child hroot m) (fun e => h ⟨rfl, e⟩) fun e => h' ⟨rfl, e⟩]
        cases root.child? m with
        | some c => rfl
        | none =>
          obtain ⟨k, t, rfl⟩ := List.exists_cons_of_ne_nil hs
          rfl
      · rw [if_neg hm]

theorem isFolder_set (e : Entry) (new : Option Entry) {names : List String} (h : names ≠ []) :
    (e.set new names).isFolder = true := by
  obtain ⟨n, r, rfl⟩ := List.exists_cons_of_ne_nil h
  rfl

/-- Where a list of names stands to the place of a replaced entry, and what it leads to then. -/
theorem at?_set_cases {root : Entry} (hroot : root.wellNamed = true) (new : Option Entry)
    {here : List String} {cs : List (String × Entry)} (h : root.at? here = some (.folder cs))
    (n : String) (names : List String) :
    (∃ more e, here = names ++ more ∧ root.at? names = some e ∧ e.isFolder = true ∧
      (root.set new (here ++ [n])).at? names = some (e.set new (more ++ [n]))) ∨
    (∃ more, names = here ++ n :: more ∧
      (root.set new (here ++ [n])).at? names = new.bind (·.at? more)) ∨
    (¬ names <+: here ++ [n] ∧ ¬ here ++ [n] <+: names ∧
      (root.set new (here ++ [n])).at? names = root.at? names) := by
  -- the names end above the entry, go on from it, or part from the way to it
  by_cases habove : names <+: here
  · obtain ⟨more, rfl⟩ := habove
    obtain ⟨e, he, hmore⟩ := Option.bind_eq_some_iff.1 ((at?_append _ _ _).symm.trans h)
    obtain ⟨k, r, hkr⟩ := List.exists_cons_of_ne_nil
      (List.append_ne_nil_of_right_ne_nil more (List.cons_ne_nil n []))
    refine Or.inl ⟨more, e, rfl, he, ?_, ?_⟩
    · cases hfolder : e.isFolder with
      | true => rfl
      | false =>
        cases more with
        | nil =>
          obtain rfl := Option.some.inj hmore
          simp [isFolder] at hfolder
        | cons m s => simp [at?_below hfolder (List.cons_ne_nil m s)] at hmore
    · rw [List.append_assoc, hkr]
      exact at?_set_above hroot new he k r
  · by_cases hbelow : here ++ [n] <+: names
    · obtain ⟨more, rfl⟩ := hbelow
      rw [List.append_assoc]
      exact Or.inr (Or.inl ⟨more, rfl, at?_set_below hroot new h n more⟩)
    · have hnot : ¬ names <+: here ++ [n] := by
        rw [List.prefix_concat_iff]
        rintro (rfl | e)
        · exact hbelow List.prefix_rfl
        · exact habove e
      exact Or.inr (Or.inr ⟨hnot, hbelow, at?_set_apart hroot new hbelow hnot⟩)

theorem wellNamed_set {root : Entry} (hroot : root.wellNamed = true) {new : Option Entry}
    (hnew : ∀ e, new = some e → e.wellNamed = true) {names : List String}
    (hnames : ∀ n ∈ names, IsEntryName n) : (root.set new names).wellNamed = true := by
  induction names generalizing root with
  | nil =>
    cases new with
    | none => exact hroot
    | some e => exact hnew e rfl
  | cons n r ih =>
    obtain ⟨hn, hr⟩ := List.forall_mem_cons.1 hnames
    rw [set, wellNamed_folder_iff]
    refine ⟨nodup_alterChild (nodup_children hroot) n _, fun c hc => ?_⟩
    rcases name_of_mem_alterChild hc with hc | ⟨hname, hentry⟩
    · cases root with
      | folder cs => exact ((wellNamed_folder_iff cs).1 hroot).2 c hc
      | file bytes => simp [children] at hc
      | link target => simp [children] at hc
    · refine ⟨hname ▸ hn, ?_⟩
      cases r with
      | nil => exact hnew _ hentry
      | cons m s =>
        rw [← Option.some.inj hentry]
        exact ih (wellNamed_getD_child hroot n) hr

/-! ### The files of a tree -/

theorem filesOf_append (cs ds : List (String × Entry)) :
    filesOf (cs ++ ds) = filesOf cs ++ filesOf ds := by
  induction cs with
  | nil => rfl
  | cons c r ih => simp [filesOf, ih]

theorem filesOf_alterChild {cs : List (String × Entry)} {n : String} {e : Entry}
    {f : Option Entry → Option Entry} (hlookup : cs.lookup n = some e)
    {e' : Entry} (hf : f (some e) = some e') (hfiles : e'.files = e.files) :
    filesOf (alterChild n f cs) = filesOf cs := by
  induction cs with
  | nil => simp at hlookup
  | cons c r ih =>
    obtain ⟨k, d⟩ := c
    by_cases hk : k = n
    · subst hk
      obtain rfl : d = e := by simpa using hlookup
      simp [alterChild, hf, filesOf, hfiles]
    · rw [lookup_cons, if_neg (Ne.symm hk)] at hlookup
      simp [alterChild, hk, filesOf, ih hlookup]

theorem alterChild_of_absent {cs : List (String × Entry)} {n : String} (e : Entry)
    (h : cs.lookup n = none) : alterChild n (fun _ => some e) cs = cs ++ [(n, e)] := by
  induction cs with
  | nil => rfl
  | cons c r ih =>
    obtain ⟨k, d⟩ := c
    by_cases hk : k = n
    · subst hk
      simp at h
    · rw [lookup_cons, if_neg (Ne.symm hk)] at h
      simp [alterChild, hk, ih h]

theorem files_set_newFolder {root : Entry} {names : List String} {n : String}
    {cs : List (String × Entry)} (h : root.at? names = some (.folder cs))
    (hnew : root.at? (names ++ [n]) = none) :
    (root.set (some (.folder [])) (names ++ [n])).files = root.files := by
  induction names generalizing root with
  | nil =>
    simp only [at?, Option.some.injEq] at h
    subst h
    have habsent : cs.lookup n = none := by simpa [at?, child?, children] using hnew
    rw [List.nil_append, set, children, files, alterChild_of_absent _ habsent, filesOf_append]
    simp [files, filesOf]
  | cons k names ih =>
    obtain ⟨c, hc, hrest⟩ := Option.bind_eq_some_iff.1 h
    have hbelow : c.at? (names ++ [n]) = none := by simpa [at?, hc] using hnew
    cases root with
    | file bytes => simp [child?, children] at hc
    | link target => simp [child?, children] at hc
    | folder ds =>
      obtain ⟨m, s, hms⟩ := List.exists_cons_of_ne_nil (List.append_ne_nil_of_right_ne_nil names
        (List.cons_ne_nil n []))
      have hfiles := ih hrest hbelow
      rw [List.cons_append, set, children, files, files]
      rw [hms] at hfiles ⊢
      exact filesOf_alterChild hc rfl hfiles

end PackageModularity.Entry
