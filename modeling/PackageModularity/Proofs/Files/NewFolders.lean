import PackageModularity.Proofs.Files.EntryOperations

/-!
Making a folder and the folders above it. Where it succeeds the path leads to a folder, no file came
or went, and what is made below that path afterwards is the same as if it had been there before.
-/
namespace PackageModularity

open Entry (FolderAt Within)

namespace Path

def HasPieces (p : Path) : Prop := ∀ n, .name n ∈ p.components → IsPiece n

theorem isPiece_of_component? {piece : List Char} {n : String} (hslash : '/' ∉ piece)
    (h : component? piece = some (.name n)) : IsPiece n := by
  unfold component? at h
  split at h
  · simp at h
  · rename_i hempty
    split at h
    · simp at h
    · rename_i hparent
      obtain rfl := Component.name.inj (Option.some.inj h)
      obtain ⟨h1, h2⟩ := not_or.1 hempty
      have hne : ∀ text : String, piece ≠ text.toList → String.ofList piece ≠ text := by
        rintro text htext rfl
        exact htext (by simp)
      exact ⟨hne _ h1, hne _ h2, hne _ hparent, by simpa using hslash⟩

theorem hasPieces_ofText (text : String) : (ofText text).HasPieces := by
  intro n hn
  rw [components_ofText] at hn
  rcases List.mem_append.1 hn with hn | hn
  · split at hn
    · simp at hn
    · split at hn <;> simp at hn
  · obtain ⟨piece, hpiece, hname⟩ := List.mem_filterMap.1 hn
    exact isPiece_of_component? (not_mem_of_mem_splitOnChar hpiece) hname

theorem HasPieces.append {q : Path} (hq : q.HasPieces) {n : String} (hn : IsPiece n) :
    (q.append [n]).HasPieces := by
  intro k hk
  rcases List.mem_append.1 hk with hk | hk
  · exact hq k hk
  · obtain rfl : k = n := by simpa using hk
    exact hn

theorem isEntryName_of_mem {p : Path} (hp : p.HasPieces) (hnul : p.hasNul = false) {n : String}
    (hn : .name n ∈ p.components) : IsEntryName n := by
  refine ⟨hp n hn, fun h => ?_⟩
  have hmem : n ∈ p.names := List.mem_filterMap.2 ⟨_, hn, rfl⟩
  simp only [hasNul, List.any_eq_false, List.contains_eq_mem, decide_eq_true_eq] at hnul
  exact hnul n hmem h

end Path

namespace FileSystem

/-- Folders may be added to a tree, and nothing else may change. -/
structure Grown (old new : FileSystem) : Prop where
  working : new.working = old.working
  wellNamed : new.root.wellNamed = true
  kept : ∀ {names e}, old.root.at? names = some e → ∃ e', new.root.at? names = some e' ∧
    e'.files = e.files ∧ e'.isFolder = e.isFolder ∧ (e.isFolder = false → e' = e)
  added : ∀ {names e}, e.isFolder = false → new.root.at? names = some e →
    old.root.at? names = some e

theorem Grown.refl {fs : FileSystem} (h : fs.root.wellNamed = true) : Grown fs fs :=
  ⟨rfl, h, fun he => ⟨_, he, rfl, rfl, fun _ => rfl⟩, fun _ he => he⟩

theorem Grown.trans {a b c : FileSystem} (h : Grown a b) (h' : Grown b c) : Grown a c where
  working := h'.working.trans h.working
  wellNamed := h'.wellNamed
  kept he := by
    obtain ⟨e', he', hfiles, hfolder, hsame⟩ := h.kept he
    obtain ⟨e'', he'', hfiles', hfolder', hsame'⟩ := h'.kept he'
    refine ⟨e'', he'', hfiles'.trans hfiles, hfolder'.trans hfolder, fun hfile => ?_⟩
    rw [hsame' (hfolder.trans hfile), hsame hfile]
  added hfile he := h.added hfile (h'.added hfile he)

theorem isFolder_eq_true_iff {e : Entry} : e.isFolder = true ↔ ∃ cs, e = .folder cs := by
  cases e <;> simp [Entry.isFolder]

theorem Grown.within {old new : FileSystem} (h : Grown old new) : Within old.root new.root where
  folder := by
    rintro names ⟨cs, hcs⟩
    obtain ⟨e', he', -, hfolder, -⟩ := h.kept hcs
    obtain ⟨ds, rfl⟩ := isFolder_eq_true_iff.1 (hfolder.trans rfl)
    exact ⟨ds, he'⟩
  other hfile he := by
    obtain ⟨e', he', -, -, hsame⟩ := h.kept he
    rw [he', hsame hfile]

theorem grown_newFolder {fs : FileSystem} (hroot : fs.root.wellNamed = true)
    {here : List String} {n : String} (hhere : fs.root.FolderAt here) (hn : IsEntryName n)
    (habsent : fs.root.at? (here ++ [n]) = none) :
    Grown fs { fs with root := fs.root.set (some (.folder [])) (here ++ [n]) } := by
  obtain ⟨cs, hcs⟩ := hhere
  refine ⟨rfl, ?_, fun {names e} he => ?_, fun {names e} hfile he => ?_⟩
  · refine Entry.wellNamed_set hroot (fun e he => ?_) fun k hk => ?_
    · rw [← Option.some.inj he]
      rfl
    · rcases List.mem_append.1 hk with hk | hk
      · exact (Entry.wellNamed_at? hroot hcs).1 k hk
      · rw [List.mem_singleton.1 hk]
        exact hn
  · rcases Entry.at?_set_cases hroot (some (.folder [])) hcs n names with
      ⟨more, e', rfl, he', hfolder, hset⟩ | ⟨more, rfl, hset⟩ | ⟨-, -, hset⟩
    · obtain rfl := Option.some.inj (he.symm.trans he')
      refine ⟨_, hset, ?_, ?_, fun hfile => by simp [hfolder] at hfile⟩
      · rw [Entry.at?_append, he, Option.bind_some] at hcs
        rw [List.append_assoc, Entry.at?_append, he, Option.bind_some] at habsent
        exact Entry.files_set_newFolder hcs habsent
      · rw [hfolder, Entry.isFolder_set _ _ (by simp)]
    · rw [List.append_cons, Entry.at?_append, habsent] at he
      simp at he
    · exact ⟨e, hset.trans he, rfl, rfl, fun _ => rfl⟩
  · rcases Entry.at?_set_cases hroot (some (.folder [])) hcs n names with
      ⟨more, e', rfl, he', hfolder, hset⟩ | ⟨more, rfl, hset⟩ | ⟨-, -, hset⟩
    · obtain rfl := Option.some.inj (he.symm.trans hset)
      simp [Entry.isFolder_set] at hfile
    · rw [hset, Option.bind_some] at he
      cases more with
      | nil =>
        obtain rfl := Option.some.inj he
        simp [Entry.isFolder] at hfile
      | cons m s => simp [Entry.at?, Entry.child?, Entry.children] at he
    · exact hset.symm.trans he

/-! ### Making one folder -/

theorem folderAt_of_last {root : Entry} {n : Nat} {here names : List String} {cs : List Component}
    {c : Component} (hc : ∀ k, c ≠ .name k) (h : follow root n here (cs ++ [c]) = .ok names) :
    root.FolderAt names := by
  obtain ⟨mid, hmid, hfolder⟩ := follow_init h
  obtain ⟨m, -, hm⟩ := follow_append hmid
  rcases name_or_moves c mid with ⟨k, rfl⟩ | ⟨next, ⟨more, rfl⟩, hgo⟩
  · exact absurd rfl (hc k)
  · rw [hm, hgo _ _ _ hfolder, step_nil, Except.ok.injEq] at h
    subst h
    cases more with
    | nil => simpa using hfolder
    | cons k r =>
      obtain ⟨ds, hds⟩ := hfolder
      exact Entry.folderAt_of_append (List.cons_ne_nil k r) (by simp [hds])

theorem makeFolder_eq_ok {fs fs' : FileSystem} {p : Path} (hp : p.HasPieces)
    (h : fs.makeFolder p = .ok fs') :
    ∃ cs n here, p.components = cs ++ [.name n] ∧ IsEntryName n ∧ p.hasNul = false ∧
      follow fs.root 41 fs.working cs = .ok here ∧ fs.root.FolderAt here ∧
      fs.root.at? (here ++ [n]) = none ∧
      fs' = { fs with root := fs.root.set (some (.folder [])) (here ++ [n]) } := by
  obtain ⟨names, hnames, habsent, rfl⟩ : ∃ names, fs.locateLast p = .ok names ∧
      fs.root.at? names = none ∧
      fs' = { fs with root := fs.root.set (some (.folder [])) names } := by
    simp only [makeFolder, bind, Except.bind] at h
    split at h
    · simp at h
    · rename_i names hnames
      split at h
      · simp at h
      · rename_i habsent
        exact ⟨names, hnames, habsent, (Except.ok.inj h).symm⟩
  rcases List.eq_nil_or_concat p.components with hnil | ⟨cs, c, hcs⟩
  · simp [locateLast, locate, hnil] at hnames
  · rw [List.concat_eq_append] at hcs
    by_cases hname : ∃ n, c = .name n
    · obtain ⟨n, rfl⟩ := hname
      have hnul : p.hasNul = false := by
        cases hp : p.hasNul with
        | false => rfl
        | true => simp [locateLast, hcs, hp] at hnames
      simp only [locateLast, hcs, List.getLast?_concat, hnul, Bool.false_eq_true, if_false, bind,
        Except.bind, List.dropLast_concat] at hnames
      split at hnames
      · simp at hnames
      · rename_i here hhere
        split at hnames
        · rename_i ds hds
          obtain rfl := Except.ok.inj hnames
          exact ⟨cs, n, here, hcs, Path.isEntryName_of_mem hp hnul (by simp [hcs]), hnul, hhere,
            ⟨ds, hds⟩, habsent, rfl⟩
        · simp at hnames
        · simp at hnames
    · -- any other last component leads to a folder, which is no place for a new one
      have hlast : ∀ k, c ≠ .name k := fun k hk => hname ⟨k, hk⟩
      have hlocate : fs.locate p = .ok names := by
        cases c with
        | name k => exact absurd rfl (hlast k)
        | root => simpa [locateLast, hcs] using hnames
        | current => simpa [locateLast, hcs] using hnames
        | parent => simpa [locateLast, hcs] using hnames
      have hfollow := (leads_of_locate hlocate).follow
      rw [hcs] at hfollow
      obtain ⟨ds, hds⟩ := folderAt_of_last hlast hfollow
      simp [hds] at habsent

theorem leads_of_makeFolder {fs fs' : FileSystem} {p : Path} (hroot : fs.root.wellNamed = true)
    (hp : p.HasPieces) (h : fs.makeFolder p = .ok fs') :
    Grown fs fs' ∧ ∃ here, fs'.Leads p here ∧ fs'.root.FolderAt here := by
  obtain ⟨cs, n, here, hcs, hn, hnul, hfollow, hhere, habsent, rfl⟩ := makeFolder_eq_ok hp h
  have hgrown := grown_newFolder hroot hhere hn habsent
  obtain ⟨ds, hds⟩ := hhere
  have hself := Entry.at?_set_self hroot (some (.folder [])) hds n
  refine ⟨hgrown, here ++ [n], ⟨hnul, ?_⟩, ⟨[], hself⟩⟩
  obtain ⟨m, -, hm⟩ := follow_append (follow_within hgrown.within hfollow (by simp [hds]))
  rw [hcs]
  change FileSystem.follow _ 41 fs.working _ = _
  rw [hm, step_entry (hgrown.within.folder ⟨ds, hds⟩) (by simp [hself])
    (fun t ht => by simp [hself] at ht), step_nil]

/-! ### Making a folder and those above it -/

def ensureFolder (fs : FileSystem) (p : Path) : Except Fault FileSystem :=
  match fs.makeFolder p with
  | .error e => if fs.isFolder p then .ok fs else .error e
  | made => made

theorem makeFolders_snoc (fs : FileSystem) (cs : List Component) (c : Component) :
    fs.makeFolders ⟨cs ++ [c]⟩ =
      match fs.makeFolder ⟨cs ++ [c]⟩ with
      | .error .missing => (fs.makeFolders ⟨cs⟩).bind (·.ensureFolder ⟨cs ++ [c]⟩)
      | _ => fs.ensureFolder ⟨cs ++ [c]⟩ := by
  simp only [makeFolders, List.reverse_append, List.reverse_cons, List.reverse_nil,
    List.nil_append, List.singleton_append, makeFoldersUp, List.reverse_reverse, bind]
  rfl

theorem leads_of_isFolder {fs : FileSystem} {p : Path} (h : fs.isFolder p = true) :
    ∃ here, fs.Leads p here ∧ fs.root.FolderAt here := by
  cases hentry : fs.entry p with
  | error why => simp [isFolder, hentry] at h
  | ok e =>
    obtain ⟨-, here, hleads, hat⟩ := entry_eq_ok_iff.1 hentry
    simp only [isFolder, hentry] at h
    obtain ⟨cs, rfl⟩ := isFolder_eq_true_iff.1 h
    exact ⟨here, hleads, cs, hat⟩

theorem leads_of_ensureFolder {fs fs' : FileSystem} {p : Path} (hroot : fs.root.wellNamed = true)
    (hp : p.HasPieces) (h : fs.ensureFolder p = .ok fs') :
    Grown fs fs' ∧ ∃ here, fs'.Leads p here ∧ fs'.root.FolderAt here := by
  unfold ensureFolder at h
  split at h
  · split at h
    · rename_i hfolder
      obtain rfl := Except.ok.inj h
      exact ⟨.refl hroot, leads_of_isFolder hfolder⟩
    · simp at h
  · exact leads_of_makeFolder hroot hp h

/-- A folder that was made is there, and so is everything that was there before. -/
theorem leads_of_makeFolders {fs fs' : FileSystem} {p : Path} (hroot : fs.root.wellNamed = true)
    (hworking : fs.root.FolderAt fs.working) (hp : p.HasPieces)
    (h : fs.makeFolders p = .ok fs') :
    Grown fs fs' ∧ ∃ here, fs'.Leads p here ∧ fs'.root.FolderAt here := by
  obtain ⟨components⟩ := p
  induction components using List.reverseRecOn generalizing fs' with
  | nil =>
    obtain rfl := Except.ok.inj h
    exact ⟨.refl hroot, fs.working, ⟨rfl, rfl⟩, hworking⟩
  | append_singleton cs c ih =>
    rw [makeFolders_snoc] at h
    split at h
    · obtain ⟨mid, hmid, hensure⟩ : ∃ mid, fs.makeFolders ⟨cs⟩ = .ok mid ∧
          mid.ensureFolder ⟨cs ++ [c]⟩ = .ok fs' := by
        cases hmid : fs.makeFolders ⟨cs⟩ with
        | error e => simp [hmid, Except.bind] at h
        | ok mid => exact ⟨mid, rfl, by simpa [hmid, Except.bind] using h⟩
      have hcs : (Path.mk cs).HasPieces := fun n hn => hp n (List.mem_append_left _ hn)
      obtain ⟨hgrown, -⟩ := ih hcs hmid
      obtain ⟨hgrown', hleads⟩ := leads_of_ensureFolder hgrown.wellNamed hp hensure
      exact ⟨hgrown.trans hgrown', hleads⟩
    · exact leads_of_ensureFolder hroot hp h

/-! ### One folder below another -/

theorem Leads.isFolder_eq_true {fs : FileSystem} {p : Path} {here : List String}
    (h : fs.Leads p here) (hp : p.components ≠ []) (hhere : fs.root.FolderAt here) :
    fs.isFolder p = true := by
  obtain ⟨cs, hcs⟩ := hhere
  have hentry := entry_eq_ok_iff.2 ⟨hp, here, h, hcs⟩
  simp [isFolder, hentry, Entry.isFolder]

theorem makeFolder_of_leads {fs : FileSystem} {p : Path} {here : List String}
    (h : fs.Leads p here) (hp : p.components ≠ []) (hhere : fs.root.FolderAt here) :
    fs.makeFolder p = .error .alreadyThere := by
  obtain ⟨ds, hds⟩ := hhere
  suffices hlast : ∃ names e, fs.locateLast p = .ok names ∧ fs.root.at? names = some e by
    obtain ⟨names, e, hnames, he⟩ := hlast
    simp [makeFolder, hnames, he, bind, Except.bind]
  rcases List.eq_nil_or_concat p.components with hnil | ⟨cs, c, hcs⟩
  · exact absurd hnil hp
  rw [List.concat_eq_append] at hcs
  cases c with
  | root => exact ⟨here, _, by simpa [locateLast, hcs] using h.locate hp, hds⟩
  | current => exact ⟨here, _, by simpa [locateLast, hcs] using h.locate hp, hds⟩
  | parent => exact ⟨here, _, by simpa [locateLast, hcs] using h.locate hp, hds⟩
  | name n =>
    have hfollow := hcs ▸ h.follow
    obtain ⟨mid, hmid, hfolder⟩ := follow_init hfollow
    obtain ⟨m, -, hm⟩ := follow_append hmid
    have hfound : fs.root.at? (mid ++ [n]) ≠ none := by
      intro habsent
      rw [hm, step_absent hfolder habsent, if_pos rfl, Except.ok.injEq] at hfollow
      simp [hfollow, hds] at habsent
    obtain ⟨e, he⟩ := Option.ne_none_iff_exists'.1 hfound
    obtain ⟨es, hes⟩ := hfolder
    refine ⟨mid ++ [n], e, ?_, he⟩
    simp [locateLast, hcs, h.noNul, hmid, hes, bind, Except.bind]

theorem makeFolders_of_leads {fs : FileSystem} {p : Path} {here : List String}
    (h : fs.Leads p here) (hhere : fs.root.FolderAt here) : fs.makeFolders p = .ok fs := by
  obtain ⟨components⟩ := p
  rcases List.eq_nil_or_concat components with rfl | ⟨cs, c, rfl⟩
  · rfl
  · rw [List.concat_eq_append] at h ⊢
    have hp : (Path.mk (cs ++ [c])).components ≠ [] := by simp
    have hmake := makeFolder_of_leads h hp hhere
    simp [makeFolders_snoc, ensureFolder, hmake, h.isFolder_eq_true hp hhere]

section
variable {fs made : FileSystem} {q : Path} {n : String} {here : List String}

theorem makeFolders_child (h : fs.Leads q here) (hhere : fs.root.FolderAt here)
    (hn : IsEntryName n) :
    fs.makeFolders (q.append [n]) =
      match fs.root.at? (here ++ [n]) with
      | none => .ok { fs with root := fs.root.set (some (.folder [])) (here ++ [n]) }
      | some _ =>
        if fs.isFolder (q.append [n]) then .ok fs else .error .alreadyThere := by
  have hpath : q.append [n] = ⟨q.components ++ [.name n]⟩ := rfl
  have hmake := makeFolder_child h hhere hn
  rw [hpath] at hmake ⊢
  rw [makeFolders_snoc, hmake]
  cases hat : fs.root.at? (here ++ [n]) with
  | none =>
    rw [hat] at hmake
    simp [ensureFolder, hmake]
  | some e =>
    rw [hat] at hmake
    simp [ensureFolder, hmake]

variable (hroot : fs.root.wellNamed = true) (hworking : fs.root.FolderAt fs.working)
  (hq : q.HasPieces) (hn : IsEntryName n)
include hq hn

theorem makeFolders_init (h : fs.makeFolders (q.append [n]) = .ok made) :
    ∃ mid, fs.makeFolders q = .ok mid := by
  have hpath : q.append [n] = ⟨q.components ++ [.name n]⟩ := rfl
  have hstay : ∀ here, (q.append [n]).hasNul = false →
      follow fs.root 41 fs.working q.components = .ok here →
      fs.root.FolderAt here → ∃ mid, fs.makeFolders q = .ok mid := by
    intro here hnul hfollow hhere
    rw [Path.hasNul_append_singleton, Bool.or_eq_false_iff] at hnul
    exact ⟨fs, makeFolders_of_leads ⟨hnul.1, hfollow⟩ hhere⟩
  rw [hpath, makeFolders_snoc] at h
  split at h
  · cases hmid : fs.makeFolders ⟨q.components⟩ with
    | error e => simp [hmid, Except.bind] at h
    | ok mid => exact ⟨mid, rfl⟩
  · rw [← hpath, ensureFolder] at h
    split at h
    · split at h
      · rename_i hfolder
        obtain ⟨names, hleads, -⟩ := leads_of_isFolder hfolder
        have hfollow := hleads.follow
        rw [Path.components_append_singleton] at hfollow
        obtain ⟨mid, hmid, hmidFolder⟩ := follow_init hfollow
        exact hstay mid hleads.noNul hmid hmidFolder
      · simp at h
    · obtain ⟨cs, k, here, hcs, -, hnul, hfollow, hhere, -⟩ :=
        makeFolder_eq_ok (hq.append hn.toIsPiece) h
      rw [Path.components_append_singleton] at hcs
      exact hstay here hnul ((List.append_inj' hcs rfl).1 ▸ hfollow) hhere

omit hq hn in
/-- Unless a folder cannot be made because there is none above it, the path above it leads to an
entry, or it leads nowhere for another reason. -/
theorem found_of_makeFolder (hnul : (q.append [n]).hasNul = false)
    (h : fs.makeFolder (q.append [n]) ≠ .error .missing) :
    (∃ mid e, follow fs.root 41 fs.working q.components = .ok mid ∧ fs.root.at? mid = some e) ∨
      ∃ e, follow fs.root 41 fs.working q.components = .error e ∧ e ≠ .missing := by
  cases hfollow : follow fs.root 41 fs.working q.components with
  | error e =>
    refine Or.inr ⟨e, rfl, fun he => h ?_⟩
    simp [makeFolder, locateLast, Path.components_append_singleton, hnul, hfollow, he, bind,
      Except.bind]
  | ok mid =>
    cases hmid : fs.root.at? mid with
    | none =>
      refine absurd ?_ h
      simp [makeFolder, locateLast, Path.components_append_singleton, hnul, hfollow, hmid, bind,
        Except.bind]
    | some e => exact Or.inl ⟨mid, e, rfl, hmid⟩

include hroot hworking

omit hn in
theorem makeFolders_above (hnul : (q.append [n]).hasNul = false)
    (hmissing : fs.makeFolder (q.append [n]) ≠ .error .missing)
    (h : fs.makeFolders q = .ok made) : made = fs := by
  obtain ⟨hgrown, here, hleads, cs, hcs⟩ := leads_of_makeFolders hroot hworking hq h
  have hnew := hleads.follow
  rw [hgrown.working] at hnew
  rcases found_of_makeFolder hnul hmissing with ⟨mid, e, hfollow, hmid⟩ | ⟨e, hfollow, he⟩
  · have hsame : mid = here := by
      rwa [follow_within hgrown.within hfollow (by simp [hmid]), Except.ok.injEq] at hnew
    have hfolder : fs.root.FolderAt mid := by
      cases hkind : e.isFolder with
      | true =>
        obtain ⟨es, rfl⟩ := isFolder_eq_true_iff.1 hkind
        exact ⟨es, hmid⟩
      | false =>
        rw [← hsame, hgrown.within.other hkind hmid, Option.some.injEq] at hcs
        simp [hcs, Entry.isFolder] at hkind
    exact Except.ok.inj (h.symm.trans (makeFolders_of_leads ⟨hleads.noNul, hfollow⟩ hfolder))
  · rw [follow_error_within hgrown.within hfollow he] at hnew
    simp at hnew

/-- It makes no difference whether the folder that a folder lies in has been made before. -/
theorem makeFolders_after (h : fs.makeFolders q = .ok made) :
    fs.makeFolders (q.append [n]) =
      made.makeFolders (q.append [n]) := by
  obtain ⟨hgrown, here, hleads, hhere⟩ :=
    leads_of_makeFolders hroot hworking hq h
  have hpath : q.append [n] = ⟨q.components ++ [.name n]⟩ := rfl
  have hnul : (q.append [n]).hasNul = false := by
    simp [Path.hasNul_append_singleton, hleads.noNul, hn.noNul]
  by_cases hmissing : fs.makeFolder (q.append [n]) = .error .missing
  · have hmake := makeFolders_child hleads hhere hn
    have hensure : made.makeFolders (q.append [n]) =
        made.ensureFolder (q.append [n]) := by
      rw [hmake, ensureFolder, makeFolder_child hleads hhere hn]
      cases made.root.at? (here ++ [n]) <;> rfl
    rw [hensure, hpath, makeFolders_snoc, ← hpath, hmissing]
    simp only [show fs.makeFolders ⟨q.components⟩ = .ok made from h, Except.bind]
  · rw [makeFolders_above hroot hworking hq hnul hmissing h]

end

end FileSystem

end PackageModularity
