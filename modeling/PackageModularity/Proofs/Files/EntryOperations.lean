import PackageModularity.Proofs.Files.Resolution

/-!
What the operations do on the text of a folder joined with a name: they find, make, write and remove
the entry of that name in the place that the folder's text leads to.
-/
namespace PackageModularity

open Entry (FolderAt Within Thinned)

/-- A path leads to names, the last of which may be missing in its folder. -/
structure FileSystem.Leads (fs : FileSystem) (p : Path) (names : List String) : Prop where
  noNul : p.hasNul = false
  follow : FileSystem.follow fs.root 41 fs.working p.components = .ok names

/-- Names are names, and the working folder is there. -/
structure FileSystem.WellFormed (fs : FileSystem) : Prop where
  wellNamed : fs.root.wellNamed = true
  working : fs.root.FolderAt fs.working

namespace Path

theorem ofText_joinText (base : String) {n : String} (hn : IsPiece n) :
    ofText (joinText base n) = (ofText base).append [n] := by
  have h := components_joinText base hn
  cases hp : ofText (joinText base n) with
  | mk components =>
    rw [hp] at h
    exact congrArg mk h

theorem components_append_singleton (q : Path) (n : String) :
    (q.append [n]).components = q.components ++ [.name n] := rfl

theorem hasNul_append_singleton (q : Path) (n : String) :
    (q.append [n]).hasNul = (q.hasNul || n.toList.contains '\x00') := by
  simp [hasNul, names, append, Component.name?]

theorem components_append_ne_nil (q : Path) (n : String) : (q.append [n]).components ≠ [] := by
  simp [append]

end Path

namespace FileSystem

variable {fs : FileSystem} {q : Path} {n : String} {here : List String}

theorem Leads.locate {p : Path} {names : List String} (h : fs.Leads p names)
    (hp : p.components ≠ []) : fs.locate p = .ok names := by
  simp [FileSystem.locate, hp, h.noNul, h.follow]

theorem leads_of_locate {p : Path} {names : List String} (h : fs.locate p = .ok names) :
    fs.Leads p names := by
  by_cases hp : p.components = []
  · simp [FileSystem.locate, hp] at h
  · by_cases hnul : p.hasNul
    · simp [FileSystem.locate, hp, hnul] at h
    · have hnul' : p.hasNul = false := by simpa using hnul
      exact ⟨hnul', by simpa [FileSystem.locate, hp, hnul'] using h⟩

theorem Leads.within {fs' : FileSystem} {p : Path} {names : List String} (h : fs.Leads p names)
    (hw : Within fs.root fs'.root) (hworking : fs'.working = fs.working)
    (hfound : fs.root.at? names ≠ none) : fs'.Leads p names :=
  ⟨h.noNul, by rw [hworking]; exact follow_within hw h.follow hfound⟩

theorem Leads.folder_within {fs' : FileSystem} {p : Path} {names : List String}
    (h : fs.Leads p names) (hfolder : fs.root.FolderAt names) (hw : Within fs.root fs'.root)
    (hworking : fs'.working = fs.working) : fs'.Leads p names ∧ fs'.root.FolderAt names := by
  obtain ⟨cs, hcs⟩ := hfolder
  exact ⟨h.within hw hworking (by simp [hcs]), hw.folder ⟨cs, hcs⟩⟩

theorem Leads.thinned {fs' : FileSystem} {p : Path} {names : List String} (h : fs.Leads p names)
    (ht : Thinned fs.root fs'.root) (hworking : fs'.working = fs.working)
    (hlink : NoLink fs'.root names) : fs'.Leads p names :=
  ⟨h.noNul, by rw [hworking]; exact follow_thinned ht le_rfl h.follow fun _ => hlink⟩

theorem Leads.unique {p : Path} {names names' : List String} (h : fs.Leads p names)
    (h' : fs.Leads p names') : names = names' :=
  Except.ok.inj (h.follow.symm.trans h'.follow)

theorem entry_eq_ok_iff {p : Path} {e : Entry} : fs.entry p = .ok e ↔
    p.components ≠ [] ∧ ∃ names, fs.Leads p names ∧ fs.root.at? names = some e := by
  constructor
  · intro h
    simp only [entry, bind, Except.bind] at h
    cases hlocate : fs.locate p with
    | error why => simp [hlocate] at h
    | ok names =>
      refine ⟨fun hnil => ?_, names, leads_of_locate hlocate, ?_⟩
      · simp [locate, hnil] at hlocate
      · cases hat : fs.root.at? names with
        | none => simp [hlocate, hat] at h
        | some e' => simpa [hlocate, hat] using h
  · rintro ⟨hp, names, hleads, hat⟩
    simp [entry, hleads.locate hp, hat, bind, Except.bind]

theorem entry_within {fs' : FileSystem} {p : Path} (hw : Within fs.root fs'.root)
    (hworking : fs'.working = fs.working) {e : Entry} (he : e.isFolder = false)
    (h : fs.entry p = .ok e) : fs'.entry p = .ok e := by
  obtain ⟨hp, names, hleads, hat⟩ := entry_eq_ok_iff.1 h
  exact entry_eq_ok_iff.2 ⟨hp, names, hleads.within hw hworking (by simp [hat]), hw.other he hat⟩

theorem entry_of_readText {p : Path} {text : String} (h : fs.readText p = .ok text) :
    ∃ bytes, fs.entry p = .ok (.file bytes) := by
  simp only [readText, bind, Except.bind] at h
  cases hentry : fs.entry p with
  | error why => simp [hentry] at h
  | ok e =>
    cases e with
    | file bytes => exact ⟨bytes, rfl⟩
    | folder cs => simp [hentry] at h
    | link target => simp [hentry] at h

theorem readText_eq {fs' : FileSystem} {p : Path} {e : Entry} (h : fs.entry p = .ok e)
    (h' : fs'.entry p = .ok e) : fs'.readText p = fs.readText p := by
  simp only [readText, h, h']

/-- The text of a path that leads to a folder, in a tree where names are names. -/
structure FolderText (fs : FileSystem) (text : String) (here : List String) : Prop where
  wellNamed : fs.root.wellNamed = true
  written : (Path.ofText text).components ≠ []
  leads : fs.Leads (.ofText text) here
  folder : fs.root.FolderAt here

theorem FolderText.entry {text : String} (h : fs.FolderText text here) {cs : List (String × Entry)}
    (hcs : fs.root.at? here = some (.folder cs)) : fs.entry (.ofText text) = .ok (.folder cs) :=
  entry_eq_ok_iff.2 ⟨h.written, here, h.leads, hcs⟩

/-! ### A path with a NUL -/

section
variable {p : Path} (hnul : p.hasNul = true)
include hnul

theorem locate_nul : fs.locate p = .error .nulInPath := by
  have hp : p.components ≠ [] := by
    intro hnil
    simp [Path.hasNul, Path.names, hnil] at hnul
  simp [locate, hp, hnul]

theorem locateLast_nul : fs.locateLast p = .error .nulInPath := by
  simp only [locateLast, hnul, if_true, locate_nul hnul]
  split <;> rfl

theorem isFile_nul : fs.isFile p = false := by
  simp [isFile, entry, locate_nul hnul, bind, Except.bind]

theorem writeText_nul (text : String) : fs.writeText p text = .error .nulInPath := by
  simp [writeText, locate_nul hnul, bind, Except.bind]

theorem removeFile_nul : fs.removeFile p = .error .nulInPath := by
  simp [removeFile, locateLast_nul hnul, bind, Except.bind]

end

/-! ### An entry of a folder -/

section
variable (h : fs.Leads q here) (hhere : fs.root.FolderAt here) (hn : IsEntryName n)
include h hhere hn

theorem Leads.child (hlink : NoLink fs.root (here ++ [n])) :
    fs.Leads (q.append [n]) (here ++ [n]) where
  noNul := by simp [Path.hasNul_append_singleton, h.noNul, hn.noNul]
  follow := by
    obtain ⟨m, -, hm⟩ := follow_append h.follow
    rw [Path.components_append_singleton, hm]
    by_cases habsent : fs.root.at? (here ++ [n]) = none
    · rw [step_absent hhere habsent, if_pos rfl]
    · rw [step_entry hhere habsent hlink, step_nil]

theorem locate_child (hlink : NoLink fs.root (here ++ [n])) :
    fs.locate (q.append [n]) = .ok (here ++ [n]) :=
  (h.child hhere hn hlink).locate (Path.components_append_ne_nil q n)

theorem locateLast_child : fs.locateLast (q.append [n]) = .ok (here ++ [n]) := by
  obtain ⟨cs, hcs⟩ := hhere
  have hnul : (q.append [n]).hasNul = false := by
    simp [Path.hasNul_append_singleton, h.noNul, hn.noNul]
  simp [locateLast, Path.components_append_singleton, hnul, h.follow, hcs, bind, Except.bind]

theorem entry_child (hlink : NoLink fs.root (here ++ [n])) :
    fs.entry (q.append [n]) =
      match fs.root.at? (here ++ [n]) with
      | some e => .ok e
      | none => .error .missing := by
  cases hat : fs.root.at? (here ++ [n]) <;>
    simp [entry, locate_child h hhere hn hlink, hat, bind, Except.bind]

theorem isFile_child (hlink : NoLink fs.root (here ++ [n])) :
    fs.isFile (q.append [n]) = ((fs.root.at? (here ++ [n])).map Entry.isFile).getD false := by
  rw [isFile, entry_child h hhere hn hlink]
  cases fs.root.at? (here ++ [n]) <;> rfl

theorem isFolder_child (hlink : NoLink fs.root (here ++ [n])) :
    fs.isFolder (q.append [n]) = ((fs.root.at? (here ++ [n])).map Entry.isFolder).getD false := by
  rw [isFolder, entry_child h hhere hn hlink]
  cases fs.root.at? (here ++ [n]) <;> rfl

theorem writeText_child (hlink : NoLink fs.root (here ++ [n])) (text : String) :
    fs.writeText (q.append [n]) text =
      match fs.root.at? (here ++ [n]) with
      | some (.folder _) => .error .isFolder
      | _ => .ok { fs with root := fs.root.set (some (.file (Utf8.encode text))) (here ++ [n]) } := by
  rcases hat : fs.root.at? (here ++ [n]) with _ | _ | _ | _ <;>
    simp [writeText, locate_child h hhere hn hlink, hat, bind, Except.bind]

theorem removeFile_child :
    fs.removeFile (q.append [n]) =
      match fs.root.at? (here ++ [n]) with
      | none => .error .missing
      | some (.folder _) => .error .isFolder
      | some _ => .ok { fs with root := fs.root.set none (here ++ [n]) } := by
  rcases hat : fs.root.at? (here ++ [n]) with _ | _ | _ | _ <;>
    simp [removeFile, locateLast_child h hhere hn, hat, bind, Except.bind]

theorem makeFolder_child :
    fs.makeFolder (q.append [n]) =
      match fs.root.at? (here ++ [n]) with
      | some _ => .error .alreadyThere
      | none => .ok { fs with root := fs.root.set (some (.folder [])) (here ++ [n]) } := by
  cases hat : fs.root.at? (here ++ [n]) <;>
    simp [makeFolder, locateLast_child h hhere hn, hat, bind, Except.bind]

end

theorem FolderText.within {fs' : FileSystem} {text : String} (h : fs.FolderText text here)
    (hroot : fs'.root.wellNamed = true) (hw : Within fs.root fs'.root)
    (hworking : fs'.working = fs.working) : fs'.FolderText text here := by
  obtain ⟨hleads, hfolder⟩ := h.leads.folder_within h.folder hw hworking
  exact ⟨hroot, h.written, hleads, hfolder⟩

theorem FolderText.child {text : String} (h : fs.FolderText text here)
    (hn : fs.root.FolderAt (here ++ [n])) :
    IsEntryName n ∧ fs.FolderText (Path.joinText text n) (here ++ [n]) := by
  have hname : IsEntryName n := by
    obtain ⟨cs, hcs⟩ := hn
    exact (Entry.wellNamed_at? h.wellNamed hcs).1 n (by simp)
  have hpath := Path.ofText_joinText text hname.toIsPiece
  refine ⟨hname, h.wellNamed, ?_, ?_, hn⟩
  · rw [hpath]
    exact Path.components_append_ne_nil _ _
  · rw [hpath]
    exact h.leads.child h.folder hname (noLink_of_folder hn)

theorem isFolder_of_isFile (hq : q.components ≠ []) (h : fs.isFile (q.append [n]) = true) :
    fs.isFolder q = true := by
  cases hentry : fs.entry (q.append [n]) with
  | error why => simp [isFile, hentry] at h
  | ok e =>
    obtain ⟨-, names, hleads, -⟩ := entry_eq_ok_iff.1 hentry
    obtain ⟨mid, hmid, cs, hcs⟩ := follow_init hleads.follow
    have hnul := hleads.noNul
    rw [Path.hasNul_append_singleton, Bool.or_eq_false_iff] at hnul
    have habove := entry_eq_ok_iff.2 ⟨hq, mid, ⟨hnul.1, hmid⟩, hcs⟩
    simp [isFolder, habove, Entry.isFolder]

end FileSystem

end PackageModularity
