import PackageModularity.Files.FileSystem
import PackageModularity.Proofs.Files.EntryAt

/-!
Where a path leads. Going along components stops with the same names in every tree that still has
what was passed on the way, and a path with one name more leads to that name in the folder that the
shorter path leads to.
-/
namespace PackageModularity

namespace Entry

def FolderAt (root : Entry) (names : List String) : Prop :=
  ∃ cs, root.at? names = some (.folder cs)

/-- What one tree has another has too: folders as folders, all else as it is. -/
structure Within (old new : Entry) : Prop where
  folder : ∀ {names}, old.FolderAt names → new.FolderAt names
  other : ∀ {names e}, e.isFolder = false → old.at? names = some e → new.at? names = some e

theorem Within.refl (root : Entry) : Within root root := ⟨id, fun _ h => h⟩

theorem Within.trans {a b c : Entry} (h : Within a b) (h' : Within b c) : Within a c :=
  ⟨fun hf => h'.folder (h.folder hf), fun he ha => h'.other he (h.other he ha)⟩

/-- What can be passed on the way in one tree can be passed in another: folders and links. -/
structure Thinned (old new : Entry) : Prop where
  folder : ∀ {names}, old.FolderAt names → new.FolderAt names
  link : ∀ {names target}, old.at? names = some (.link target) → new.at? names = some (.link target)

theorem Within.thinned {old new : Entry} (h : Within old new) : Thinned old new :=
  ⟨h.folder, h.other rfl⟩

theorem Thinned.trans {a b c : Entry} (h : Thinned a b) (h' : Thinned b c) : Thinned a c :=
  ⟨fun hf => h'.folder (h.folder hf), fun he => h'.link (h.link he)⟩

theorem folderAt_of_append {root : Entry} {names more : List String} (hmore : more ≠ [])
    (h : root.at? (names ++ more) ≠ none) : root.FolderAt names := by
  rw [at?_append] at h
  cases he : root.at? names with
  | none => simp [he] at h
  | some e =>
    cases e with
    | folder cs => exact ⟨cs, he⟩
    | file bytes => exact absurd (by rw [he]; exact at?_below rfl hmore) h
    | link target => exact absurd (by rw [he]; exact at?_below rfl hmore) h

theorem not_prefix_of_found {root : Entry} {names others : List String}
    (h : root.at? names = none) (hothers : root.at? others ≠ none) : ¬ names <+: others := by
  rintro ⟨more, rfl⟩
  rw [at?_append, h] at hothers
  exact hothers rfl

theorem FolderAt.set {root : Entry} (hroot : root.wellNamed = true) (new : Option Entry)
    {here names : List String} {n : String} (h : root.FolderAt names)
    (hhere : root.FolderAt here) (hapart : ¬ here ++ [n] <+: names) :
    (root.set new (here ++ [n])).FolderAt names := by
  obtain ⟨cs, hcs⟩ := hhere
  obtain ⟨ds, hds⟩ := h
  rcases at?_set_cases hroot new hcs n names with
    ⟨more, e, rfl, -, -, hset⟩ | ⟨more, rfl, -⟩ | ⟨-, -, hset⟩
  · obtain ⟨m, r, hmore⟩ := List.exists_cons_of_ne_nil
      (List.append_ne_nil_of_right_ne_nil more (List.cons_ne_nil n []))
    rw [hmore] at hset
    exact ⟨_, hset⟩
  · exact absurd (by simp) hapart
  · exact ⟨ds, hset.trans hds⟩

theorem Within.set {old root : Entry} (hw : Within old root) (hroot : root.wellNamed = true)
    (new : Option Entry) {here : List String} {n : String} (hhere : root.FolderAt here)
    (habsent : old.at? (here ++ [n]) = none) : Within old (root.set new (here ++ [n])) where
  folder := by
    rintro names ⟨cs, hcs⟩
    exact (hw.folder ⟨cs, hcs⟩).set hroot new hhere (not_prefix_of_found habsent (by simp [hcs]))
  other := by
    intro names e hfile he
    have hfound := hw.other hfile he
    obtain ⟨cs, hcs⟩ := hhere
    rcases at?_set_cases hroot new hcs n names with
      ⟨more, e', rfl, he', hfolder, -⟩ | ⟨more, rfl, -⟩ | ⟨-, -, hset⟩
    · obtain rfl := Option.some.inj (hfound.symm.trans he')
      simp [hfile] at hfolder
    · rw [List.append_cons, at?_append, habsent] at he
      simp at he
    · exact hset.trans hfound

end Entry

open Entry (FolderAt Within Thinned)

namespace FileSystem

abbrev Jump := List String → List Component → Except Fault (List String)

section
variable {root : Entry} {jump : Jump} {here : List String}

attribute [local simp] step

theorem step_nil : step root jump here [] = .ok here := rfl

theorem folderAt_of_step {c : Component} {rest : List Component} {names : List String}
    (h : step root jump here (c :: rest) = .ok names) : root.FolderAt here := by
  unfold step at h
  split at h
  · rename_i cs hcs
    exact ⟨cs, hcs⟩
  · simp at h
  · simp at h

theorem step_root (h : root.FolderAt here) (rest : List Component) :
    step root jump here (.root :: rest) = step root jump [] rest := by
  obtain ⟨cs, hcs⟩ := h
  rw [step, hcs]

theorem step_current (h : root.FolderAt here) (rest : List Component) :
    step root jump here (.current :: rest) = step root jump here rest := by
  obtain ⟨cs, hcs⟩ := h
  rw [step, hcs]

theorem step_parent (h : root.FolderAt here) (rest : List Component) :
    step root jump here (.parent :: rest) = step root jump here.dropLast rest := by
  obtain ⟨cs, hcs⟩ := h
  rw [step, hcs]

theorem step_absent (h : root.FolderAt here) {n : String} (hn : root.at? (here ++ [n]) = none)
    (rest : List Component) :
    step root jump here (.name n :: rest) =
      if rest = [] then .ok (here ++ [n]) else .error .missing := by
  obtain ⟨cs, hcs⟩ := h
  cases rest with
  | nil => simp [hcs, hn]
  | cons c r => simp [hcs, hn]

theorem step_link (h : root.FolderAt here) {n target : String}
    (hn : root.at? (here ++ [n]) = some (.link target)) (rest : List Component) :
    step root jump here (.name n :: rest) =
      jump here ((Path.ofText target).components ++ rest) := by
  obtain ⟨cs, hcs⟩ := h
  cases rest with
  | nil => simp [hcs, hn]
  | cons c r => simp [hcs, hn]

def NoLink (root : Entry) (names : List String) : Prop :=
  ∀ target, root.at? names ≠ some (.link target)

theorem noLink_of_folder {names : List String} (h : root.FolderAt names) : NoLink root names := by
  obtain ⟨cs, hcs⟩ := h
  intro target htarget
  simp [hcs] at htarget

theorem noLink_of_file {names : List String} {bytes : List UInt8}
    (h : root.at? names = some (.file bytes)) : NoLink root names := by
  intro target htarget
  simp [h] at htarget

theorem step_entry (h : root.FolderAt here) {n : String} (hn : root.at? (here ++ [n]) ≠ none)
    (hlink : NoLink root (here ++ [n])) (rest : List Component) :
    step root jump here (.name n :: rest) = step root jump (here ++ [n]) rest := by
  obtain ⟨cs, hcs⟩ := h
  obtain ⟨e, he⟩ := Option.ne_none_iff_exists'.1 hn
  cases e with
  | link target => exact absurd he (hlink target)
  | file bytes => simp [hcs, he]
  | folder ds => simp [hcs, he]

theorem step_stuck {e : Entry} (he : root.at? here = some e) (hfile : e.isFolder = false)
    (c : Component) (rest : List Component) :
    step root jump here (c :: rest) = .error .notFolder := by
  cases e with
  | folder cs => simp [Entry.isFolder] at hfile
  | file bytes => simp [he]
  | link target => simp [he]

theorem step_lost (h : root.at? here = none) (c : Component) (rest : List Component) :
    step root jump here (c :: rest) = .error .missing := by
  simp [h]

end

theorem name_or_moves (c : Component) (here : List String) : (∃ n, c = .name n) ∨
    ∃ next, next <+: here ∧ ∀ (root : Entry) jump rest, root.FolderAt here →
      step root jump here (c :: rest) = step root jump next rest := by
  cases c with
  | root => exact Or.inr ⟨[], List.nil_prefix, fun _ _ _ h => step_root h _⟩
  | current => exact Or.inr ⟨here, List.prefix_rfl, fun _ _ _ h => step_current h _⟩
  | parent => exact Or.inr ⟨here.dropLast, here.dropLast_prefix, fun _ _ _ h => step_parent h _⟩
  | name n => exact Or.inl ⟨n, rfl⟩

/-- What one component does, in a tree and in every tree that has what that one has: it goes on from
another place, it follows a link, or its name is missing in the first tree. -/
theorem step_cons_cases {old new : Entry} (hw : Within old new) {here : List String}
    (h : old.FolderAt here) (c : Component) :
    (∃ next, ∀ jump rest, step old jump here (c :: rest) = step old jump next rest ∧
      step new jump here (c :: rest) = step new jump next rest) ∨
    (∃ target, ∀ jump rest, step old jump here (c :: rest) = jump here (target ++ rest) ∧
      step new jump here (c :: rest) = jump here (target ++ rest)) ∨
    ∃ n, c = .name n ∧ old.at? (here ++ [n]) = none := by
  have hnew := hw.folder h
  rcases name_or_moves c here with ⟨n, rfl⟩ | ⟨next, -, hgo⟩
  · cases he : old.at? (here ++ [n]) with
    | none => exact Or.inr (Or.inr ⟨n, rfl, he⟩)
    | some e =>
      have hfound : old.at? (here ++ [n]) ≠ none := by simp [he]
      cases e with
      | link target =>
        exact Or.inr (Or.inl ⟨_, fun _ _ => ⟨step_link h he _, step_link hnew (hw.other rfl he) _⟩⟩)
      | file bytes =>
        have he' := hw.other rfl he
        exact Or.inl ⟨here ++ [n], fun _ _ => ⟨step_entry h hfound (noLink_of_file he) _,
          step_entry hnew (by simp [he']) (noLink_of_file he') _⟩⟩
      | folder ds =>
        obtain ⟨ds', he'⟩ := hw.folder ⟨ds, he⟩
        exact Or.inl ⟨here ++ [n], fun _ _ => ⟨step_entry h hfound (noLink_of_folder ⟨ds, he⟩) _,
          step_entry hnew (by simp [he']) (noLink_of_folder ⟨ds', he'⟩) _⟩⟩
  · exact Or.inl ⟨next, fun _ _ => ⟨hgo _ _ _ h, hgo _ _ _ hnew⟩⟩

/-! ### Longer paths -/

theorem follow_append {root : Entry} {n : Nat} {here names : List String} {cs : List Component}
    (h : follow root n here cs = .ok names) : ∃ m < n, ∀ more,
      follow root n here (cs ++ more) = step root (follow root m) names more := by
  induction n generalizing here cs with
  | zero => simp [follow] at h
  | succ n jump =>
    simp only [follow] at h ⊢
    induction cs generalizing here with
    | nil =>
      rw [step_nil, Except.ok.injEq] at h
      exact ⟨n, Nat.lt_succ_self n, fun more => by rw [List.nil_append, h]⟩
    | cons c rest ih =>
      have hhere := folderAt_of_step h
      simp only [List.cons_append]
      rcases step_cons_cases (.refl root) hhere c with ⟨next, hgo⟩ | ⟨target, hgo⟩ | ⟨k, rfl, hk⟩
      · simp only [(hgo _ _).1] at h ⊢
        exact ih h
      · simp only [(hgo _ _).1, ← List.append_assoc] at h ⊢
        obtain ⟨m, hm, hmore⟩ := jump h
        exact ⟨m, hm.trans (Nat.lt_succ_self n), hmore⟩
      · rw [step_absent hhere hk] at h
        have hrest : rest = [] := by
          by_contra hne
          simp [hne] at h
        subst hrest
        rw [if_pos rfl, Except.ok.injEq] at h
        refine ⟨n, Nat.lt_succ_self n, fun more => ?_⟩
        rw [List.nil_append, step_absent hhere hk]
        cases more with
        | nil => rw [if_pos rfl, h, step_nil]
        | cons d ds => rw [if_neg (by simp), ← h, step_lost hk]

theorem follow_init {root : Entry} {n : Nat} {here names : List String} {cs : List Component}
    {c : Component} (h : follow root n here (cs ++ [c]) = .ok names) :
    ∃ mid, follow root n here cs = .ok mid ∧ root.FolderAt mid := by
  induction n generalizing here cs with
  | zero => simp [follow] at h
  | succ n jump =>
    simp only [follow] at h ⊢
    induction cs generalizing here with
    | nil => exact ⟨here, rfl, folderAt_of_step h⟩
    | cons d rest ih =>
      have hhere := folderAt_of_step h
      simp only [List.cons_append] at h
      rcases step_cons_cases (.refl root) hhere d with ⟨next, hgo⟩ | ⟨target, hgo⟩ | ⟨k, rfl, hk⟩
      · simp only [(hgo _ _).1] at h ⊢
        exact ih h
      · simp only [(hgo _ _).1, ← List.append_assoc] at h ⊢
        exact jump h
      · simp [step_absent hhere hk] at h

/-! ### Other trees -/

/-- A path keeps leading to what it leads to in a tree that has all that can be passed on the way,
and with more links to follow. Files may be gone. -/
theorem follow_thinned {old new : Entry} (ht : Thinned old new) {n m : Nat} (hnm : n ≤ m)
    {here names : List String} {cs : List Component} (h : follow old n here cs = .ok names)
    (hnew : NoLink old names → NoLink new names) : follow new m here cs = .ok names := by
  -- on the links that are left to follow, and between two links on the components
  induction n generalizing m here cs with
  | zero => simp [follow] at h
  | succ n jump =>
    obtain ⟨m, rfl⟩ := Nat.exists_eq_succ_of_ne_zero (show m ≠ 0 by omega)
    have hlinks := Nat.le_of_succ_le_succ hnm
    simp only [follow] at h ⊢
    induction cs generalizing here with
    | nil => exact h
    | cons c rest ih =>
      have hhere := folderAt_of_step h
      have hhere' := ht.folder hhere
      rcases name_or_moves c here with ⟨k, rfl⟩ | ⟨next, -, hgo⟩
      · -- A name at which the path ends, there or missing.
        have hlast : NoLink old (here ++ [k]) → rest = [] → here ++ [k] = names →
            step new (follow new m) here (.name k :: rest) = .ok names := by
          rintro hlink rfl rfl
          by_cases habsent : new.at? (here ++ [k]) = none
          · rw [step_absent hhere' habsent, if_pos rfl]
          · rw [step_entry hhere' habsent (hnew hlink), step_nil]
        cases he : old.at? (here ++ [k]) with
        | none =>
          rw [step_absent hhere he] at h
          split at h
          · exact hlast (by simp [NoLink, he]) ‹_› (Except.ok.inj h)
          · simp at h
        | some e =>
          have hfound : old.at? (here ++ [k]) ≠ none := by simp [he]
          cases e with
          | link target =>
            rw [step_link hhere he] at h
            rw [step_link hhere' (ht.link he)]
            exact jump hlinks h
          | file bytes =>
            have hlink := noLink_of_file he
            rw [step_entry hhere hfound hlink] at h
            cases rest with
            | nil => exact hlast hlink rfl (Except.ok.inj h)
            | cons d ds => simp [step_stuck he rfl] at h
          | folder ds =>
            obtain ⟨ds', he'⟩ := ht.folder ⟨ds, he⟩
            rw [step_entry hhere hfound (noLink_of_folder ⟨ds, he⟩)] at h
            rw [step_entry hhere' (by simp [he']) (noLink_of_folder ⟨ds', he'⟩)]
            exact ih h
      · rw [hgo _ _ _ hhere] at h
        rw [hgo _ _ _ hhere']
        exact ih h

theorem follow_within {old new : Entry} (hw : Within old new) {n : Nat} {here names : List String}
    {cs : List Component} (h : follow old n here cs = .ok names) (hfound : old.at? names ≠ none) :
    follow new n here cs = .ok names := by
  refine follow_thinned hw.thinned le_rfl h fun hlink target htarget => ?_
  obtain ⟨e, he⟩ := Option.ne_none_iff_exists'.1 hfound
  cases e with
  | link t => exact hlink t he
  | file bytes => simp [hw.other rfl he] at htarget
  | folder cs =>
    obtain ⟨ds, hds⟩ := hw.folder ⟨cs, he⟩
    simp [hds] at htarget

theorem follow_error_within {old new : Entry} (hw : Within old new) {n : Nat} {here : List String}
    {cs : List Component} {e : Fault} (h : follow old n here cs = .error e) (he : e ≠ .missing) :
    follow new n here cs = .error e := by
  induction n generalizing here cs with
  | zero => exact h
  | succ n jump =>
    simp only [follow] at h ⊢
    induction cs generalizing here with
    | nil => simp [step_nil] at h
    | cons c rest ih =>
      cases hhere : old.at? here with
      | none =>
        rw [step_lost hhere, Except.error.injEq] at h
        exact absurd h.symm he
      | some d =>
        by_cases hd : d.isFolder
        · have hfolder : old.FolderAt here := by
            cases d with
            | folder ds => exact ⟨ds, hhere⟩
            | file bytes => simp [Entry.isFolder] at hd
            | link target => simp [Entry.isFolder] at hd
          rcases step_cons_cases hw hfolder c with ⟨next, hgo⟩ | ⟨target, hgo⟩ | ⟨k, rfl, hk⟩
          · rw [(hgo _ _).1] at h
            rw [(hgo _ _).2]
            exact ih h
          · rw [(hgo _ _).1] at h
            rw [(hgo _ _).2]
            exact jump h
          · rw [step_absent hfolder hk] at h
            split at h
            · simp at h
            · exact absurd (Except.error.inj h).symm he
        · have hfile : d.isFolder = false := by simpa using hd
          rw [step_stuck hhere hfile] at h
          rw [step_stuck (hw.other hfile hhere) hfile]
          exact h

end FileSystem

end PackageModularity
