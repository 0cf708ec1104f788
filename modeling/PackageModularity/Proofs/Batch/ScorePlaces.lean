import PackageModularity.Batch.Run
import PackageModularity.Proofs.Files.NewFolders

/-!
Where the scores of a batch lie. In a tree where no two projects share a score file, preparing a
project and writing its score change its own place only, and whether the score file is found depends
on what was written there last.
-/
namespace PackageModularity

open Entry (FolderAt Within)

namespace Batch

/-- The files besides the scores, and the names under which the scores lie: those that the output
path leads to, those of the folder of each data type and those of each project's score. -/
structure Layout where
  base : FileSystem
  output : List String
  site : String → List String
  place : ProjectEntry → List String

variable (b : Batch)

/-- The files without a project's old score, if that can be removed. -/
def unscored (p : ProjectEntry) (fs : FileSystem) : FileSystem :=
  match fs.removeFile (.ofText (b.scoreFile p)) with
  | .ok fs => fs
  | .error _ => fs

/-- The files with a project's score, if one is written and that is possible. -/
def scored (p : ProjectEntry) (score : Option String) (fs : FileSystem) : FileSystem :=
  ChildProcess.write { (default : ChildProcess) with score } fs (b.scoreFile p)

theorem prepare_eq (s : State) (p : ProjectEntry) :
    ((b.prepare s p).1.system, (b.prepare s p).2) =
      match s.system.makeFolders (.ofText (b.folderOf p)) with
      | .error _ => (s.system, false)
      | .ok fs => (b.unscored p fs, true) := by
  unfold prepare unscored
  cases s.system.makeFolders (.ofText (b.folderOf p)) with
  | error why => rfl
  | ok fs =>
    dsimp only
    cases fs.removeFile (.ofText (b.scoreFile p)) with
    | ok fs => rfl
    | error why =>
      dsimp only
      split <;> rfl

namespace Layout

variable (l : Layout) (ps : List ProjectEntry)

/-- A tree that has nothing but scores and folders for them besides what the bare tree has. -/
structure Keeps (fs : FileSystem) : Prop where
  working : fs.working = l.base.working
  wellNamed : fs.root.wellNamed = true
  within : Within l.base.root fs.root
  file : ∀ {names e}, e.isFolder = false → fs.root.at? names = some e →
    l.base.root.at? names = some e ∨ ∃ p ∈ ps, names = l.place p
  folder : ∀ {names}, fs.root.FolderAt names →
    l.base.root.FolderAt names ∨ ∃ p ∈ ps, names = l.site p.dataType
  apart : ∀ {names e}, l.base.root.at? names = some e →
    (∀ p ∈ ps, ¬ names <+: l.place p ∧ ¬ names <+: l.site p.dataType) →
    fs.root.at? names = some e

/-- The folder for the scores of a data type is missing yet, or it is there, or it can never be. -/
inductive Site (dataType : String) : Prop
  | missing (absent : l.base.root.at? (l.output ++ [dataType]) = none)
      (site : l.site dataType = l.output ++ [dataType])
  | there (leads : l.base.Leads (.ofText (Path.joinText b.output dataType)) (l.site dataType))
      (folder : l.base.root.FolderAt (l.site dataType))
  | never (e : Entry) (taken : l.base.root.at? (l.output ++ [dataType]) = some e)
      (noFolder : e.isFolder = false) (site : l.site dataType = l.output ++ [dataType])
      (closed : ∀ fs, l.Keeps ps fs →
        fs.isFolder (.ofText (Path.joinText b.output dataType)) = false)

/-- A score file that can be written: it has a name in a folder of its data type or of the bare
tree, and nothing stands there but scores. -/
structure Open (p : ProjectEntry) (q : Path) (here : List String) (n : String) : Prop where
  path : Path.ofText (b.scoreFile p) = q.append [n]
  name : IsEntryName n
  place : l.place p = here ++ [n]
  absent : l.base.root.at? (l.place p) = none
  folder : q = .ofText (b.folderOf p) ∧ here = l.site p.dataType ∨
    l.base.Leads q here ∧ l.base.root.FolderAt here

/-- A score file that can be written, or one that neither is there nor can be written or removed. -/
inductive Spot (p : ProjectEntry) : Prop
  | free (q : Path) (here : List String) (n : String) (isOpen : l.Open b p q here n)
  | closed (barred : ∀ fs, l.Keeps ps fs → fs.root.FolderAt (l.site p.dataType) →
      fs.isFile (.ofText (b.scoreFile p)) = false ∧
      (∀ text, ∃ e, fs.writeText (.ofText (b.scoreFile p)) text = .error e) ∧
      ∃ e, fs.removeFile (.ofText (b.scoreFile p)) = .error e)

/-- The places are those of a batch in a tree with its output folder, and no two projects share
one. -/
structure Fits (made : FileSystem) : Prop where
  dataType : ∀ p ∈ ps, IsEntryName p.dataType
  leads : l.base.Leads (.ofText b.output) l.output
  folder : l.base.root.FolderAt l.output
  keeps : l.Keeps ps made
  site : ∀ p ∈ ps, l.Site b ps p.dataType
  spot : ∀ p ∈ ps, l.Spot b ps p
  distinct : ∀ p ∈ ps, ∀ q ∈ ps, l.place p = l.place q → p = q
  unmixed : ∀ p ∈ ps, ∀ q ∈ ps, l.base.root.at? (l.place p) = none →
    l.place p ≠ l.site q.dataType

/-- What is known of a project's score file from its preparation on: the folder is there, and so is
the score that was written. -/
structure Slot (p : ProjectEntry) (score : Option String) (fs : FileSystem) : Prop where
  folder : fs.root.FolderAt (l.site p.dataType)
  content : ∀ q here n, l.Open b p q here n →
    fs.root.at? (l.place p) = score.map fun text => .file (Utf8.encode text)

def Refused (dataType : String) : Prop :=
  ∃ e, l.base.root.at? (l.site dataType) = some e ∧ e.isFolder = false

variable {b l ps}

theorem Keeps.leads {fs : FileSystem} (hk : l.Keeps ps fs) {q : Path} {here : List String}
    (hleads : l.base.Leads q here) (hfolder : l.base.root.FolderAt here) :
    fs.Leads q here ∧ fs.root.FolderAt here :=
  hleads.folder_within hfolder hk.within hk.working

theorem Slot.noLink {p : ProjectEntry} {score : Option String} {fs : FileSystem}
    (h : l.Slot b p score fs) {q : Path} {here : List String} {n : String}
    (ho : l.Open b p q here n) : FileSystem.NoLink fs.root (l.place p) := by
  intro target htarget
  cases score <;> simp [h.content q here n ho] at htarget

/-! ### The number of workers does not matter -/

theorem open_workers {workers : Nat} {p : ProjectEntry} {q : Path} {here : List String}
    {n : String} : l.Open { b with workers } p q here n ↔ l.Open b p q here n :=
  ⟨fun h => ⟨h.path, h.name, h.place, h.absent, h.folder⟩,
    fun h => ⟨h.path, h.name, h.place, h.absent, h.folder⟩⟩

theorem Site.workers {workers : Nat} {dataType : String} (h : l.Site b ps dataType) :
    l.Site { b with workers } ps dataType := by
  cases h with
  | missing absent site => exact .missing absent site
  | there leads folder => exact .there leads folder
  | never e taken noFolder site closed => exact .never e taken noFolder site closed

theorem Spot.workers {workers : Nat} {p : ProjectEntry} (h : l.Spot b ps p) :
    l.Spot { b with workers } ps p := by
  cases h with
  | free q here n isOpen => exact .free q here n (open_workers.2 isOpen)
  | closed barred => exact .closed barred

theorem Fits.workers {workers : Nat} {made : FileSystem} (h : l.Fits b ps made) :
    l.Fits { b with workers } ps made :=
  { dataType := h.dataType, leads := h.leads, folder := h.folder, keeps := h.keeps
    site := fun p hp => (h.site p hp).workers
    spot := fun p hp => (h.spot p hp).workers
    distinct := h.distinct, unmixed := h.unmixed }

/-! ### Changing one place -/

theorem Keeps.set {fs : FileSystem} (hk : l.Keeps ps fs) {here : List String} {n : String}
    (hhere : fs.root.FolderAt here) (hn : IsEntryName n)
    (habsent : l.base.root.at? (here ++ [n]) = none) {new : Option Entry}
    (hnew : ∀ e, new = some e → e.children = [] ∧ e.wellNamed = true)
    (hplace : (∃ p ∈ ps, here ++ [n] = l.place p) ∧ (∀ e, new = some e → e.isFolder = false) ∨
      (∃ p ∈ ps, here ++ [n] = l.site p.dataType) ∧ ∀ e, new = some e → e.isFolder = true) :
    l.Keeps ps { fs with root := fs.root.set new (here ++ [n]) } := by
  have hroot := hk.wellNamed
  have hwithin := hk.within.set hroot new hhere habsent
  obtain ⟨cs, hcs⟩ := hhere
  have hbelow : ∀ {more e}, new.bind (·.at? more) = some e → more = [] ∧ new = some e := by
    intro more e he
    obtain ⟨e', rfl, he⟩ := Option.bind_eq_some_iff.1 he
    cases more with
    | nil => exact ⟨rfl, he⟩
    | cons m s => simp [Entry.at?, Entry.child?, (hnew e' rfl).1] at he
  -- a list of names leads above the new entry, to it or elsewhere
  refine ⟨hk.working, ?_, hwithin, ?_, ?_, ?_⟩
  · refine Entry.wellNamed_set hroot (fun e he => (hnew e he).2) fun k hk => ?_
    rcases List.mem_append.1 hk with hk | hk
    · exact (Entry.wellNamed_at? hroot hcs).1 k hk
    · exact List.mem_singleton.1 hk ▸ hn
  · intro names e hfile he
    rcases Entry.at?_set_cases hroot new hcs n names with
      ⟨more, e', rfl, he', hfolder, hset⟩ | ⟨more, rfl, hset⟩ | ⟨-, -, hset⟩
    · obtain rfl := Option.some.inj (he.symm.trans hset)
      simp [Entry.isFolder_set] at hfile
    · obtain ⟨rfl, hself⟩ := hbelow (hset.symm.trans he)
      rcases hplace with ⟨hplace, -⟩ | ⟨-, hfolder⟩
      · exact Or.inr hplace
      · simp [hfolder e hself] at hfile
    · exact hk.file hfile (hset.symm.trans he)
  · rintro names ⟨ds, hds⟩
    rcases Entry.at?_set_cases hroot new hcs n names with
      ⟨more, e', rfl, he', hfolder, -⟩ | ⟨more, rfl, hset⟩ | ⟨-, -, hset⟩
    · obtain ⟨es, rfl⟩ := FileSystem.isFolder_eq_true_iff.1 hfolder
      exact hk.folder ⟨es, he'⟩
    · obtain ⟨rfl, hself⟩ := hbelow (hset.symm.trans hds)
      rcases hplace with ⟨-, hfile⟩ | ⟨hsite, -⟩
      · simpa [Entry.isFolder] using hfile _ hself
      · exact Or.inr hsite
    · exact hk.folder ⟨ds, hset.symm.trans hds⟩
  · intro names e he hapart
    rcases Entry.at?_set_cases hroot new hcs n names with
      ⟨more, e', rfl, -⟩ | ⟨more, rfl, -⟩ | ⟨-, -, hset⟩
    · have hbelow : names <+: names ++ more ++ [n] := by simp [List.append_assoc]
      rcases hplace with ⟨⟨p, hp, hplace⟩, -⟩ | ⟨⟨p, hp, hsite⟩, -⟩
      · exact absurd (hplace ▸ hbelow) (hapart p hp).1
      · exact absurd (hsite ▸ hbelow) (hapart p hp).2
    · rw [List.append_cons, Entry.at?_append, habsent] at he
      simp at he
    · exact hset.trans (hk.apart he hapart)

/-! ### Places stay apart -/

theorem Site.leads {dataType : String} (h : l.Site b ps dataType)
    (houtput : l.base.Leads (.ofText b.output) l.output) (hfolder : l.base.root.FolderAt l.output)
    (htype : IsEntryName dataType) {fs : FileSystem} (hk : l.Keeps ps fs)
    (hsite : fs.root.FolderAt (l.site dataType)) :
    fs.Leads (.ofText (Path.joinText b.output dataType)) (l.site dataType) := by
  obtain ⟨houtput', hfolder'⟩ := hk.leads houtput hfolder
  cases h with
  | missing habsent heq =>
    rw [heq] at hsite ⊢
    rw [Path.ofText_joinText _ htype.toIsPiece]
    exact houtput'.child hfolder' htype (FileSystem.noLink_of_folder hsite)
  | there hleads hfolder => exact (hk.leads hleads hfolder).1
  | never e htaken hfile heq _ =>
    obtain ⟨ds, hds⟩ := hsite
    rw [heq, hk.within.other hfile htaken, Option.some.injEq] at hds
    simp [hds, Entry.isFolder] at hfile

section
variable {made : FileSystem} (hl : l.Fits b ps made)
include hl

theorem Fits.place_not_above_site {p q : ProjectEntry} (hp : p ∈ ps) (hq : q ∈ ps)
    (habsent : l.base.root.at? (l.place p) = none) : ¬ l.place p <+: l.site q.dataType := by
  have habove : ∀ cs, l.base.root.at? l.output = some (.folder cs) → ∀ n,
      l.site q.dataType = l.output ++ [n] → ¬ l.place p <+: l.site q.dataType := by
    intro cs hcs n hsite hbelow
    rw [hsite, List.prefix_concat_iff] at hbelow
    rcases hbelow with heq | hbelow
    · exact hl.unmixed p hp q hq habsent (heq.trans hsite.symm)
    · exact Entry.not_prefix_of_found habsent (by simp [hcs]) hbelow
  obtain ⟨cs, hcs⟩ := hl.folder
  cases hl.site q hq with
  | missing _ hsite => exact habove cs hcs _ hsite
  | never _ _ _ hsite _ => exact habove cs hcs _ hsite
  | there _ hfolder =>
    obtain ⟨ds, hds⟩ := hfolder
    exact Entry.not_prefix_of_found habsent (by simp [hds])

theorem Fits.place_not_above_folder {p r : ProjectEntry} (hp : p ∈ ps) (hr : r ∈ ps)
    (habsent : l.base.root.at? (l.place p) = none) {q : Path} {here : List String} {n : String}
    (ho : l.Open b r q here n) : ¬ l.place p <+: here := by
  rcases ho.folder with ⟨-, rfl⟩ | ⟨-, cs, hcs⟩
  · exact hl.place_not_above_site hp hr habsent
  · exact Entry.not_prefix_of_found habsent (by simp [hcs])

theorem Fits.place_not_above_place {p r : ProjectEntry} (hp : p ∈ ps) (hr : r ∈ ps) (hne : p ≠ r)
    (habsent : l.base.root.at? (l.place p) = none) {q : Path} {here : List String} {n : String}
    (ho : l.Open b r q here n) : ¬ l.place p <+: l.place r := by
  intro hbelow
  rw [ho.place, List.prefix_concat_iff] at hbelow
  rcases hbelow with heq | hbelow
  · exact hne (hl.distinct p hp r hr (heq.trans ho.place.symm))
  · exact hl.place_not_above_folder hp hr habsent ho hbelow

variable {fs : FileSystem} (hk : l.Keeps ps fs) {p : ProjectEntry} (hp : p ∈ ps)
include hk hp

theorem Fits.leads_open (hsite : fs.root.FolderAt (l.site p.dataType)) {q : Path}
    {here : List String} {n : String} (ho : l.Open b p q here n) :
    fs.Leads q here ∧ fs.root.FolderAt here := by
  rcases ho.folder with ⟨rfl, rfl⟩ | ⟨hleads, hfolder⟩
  · exact ⟨(hl.site p hp).leads hl.leads hl.folder (hl.dataType p hp) hk hsite, hsite⟩
  · exact hk.leads hleads hfolder

theorem Fits.noFolder_open {q : Path} {here : List String} {n : String} (ho : l.Open b p q here n) :
    ∀ cs, fs.root.at? (here ++ [n]) ≠ some (.folder cs) := by
  intro cs hcs
  rw [← ho.place] at hcs
  rcases hk.folder ⟨cs, hcs⟩ with ⟨ds, hds⟩ | ⟨r, hr, heq⟩
  · simp [ho.absent] at hds
  · exact hl.unmixed p hp r hr ho.absent heq

theorem Fits.put_open (hsite : fs.root.FolderAt (l.site p.dataType)) {q : Path}
    {here : List String} {n : String} (ho : l.Open b p q here n) {new : Option Entry}
    (hnew : ∀ e, new = some e → ∃ bytes, e = .file bytes) :
    l.Keeps ps { fs with root := fs.root.set new (here ++ [n]) } ∧
      (fs.root.set new (here ++ [n])).at? (l.place p) = new ∧
      (fs.root.set new (here ++ [n])).FolderAt (l.site p.dataType) ∧
      ∀ r ∈ ps, r ≠ p → ∀ score, l.Slot b r score fs →
        l.Slot b r score { fs with root := fs.root.set new (here ++ [n]) } := by
  have hroot := hk.wellNamed
  have hhere := (hl.leads_open hk hp hsite ho).2
  have hplace := ho.place
  have hfile : ∀ e, new = some e → e.children = [] ∧ e.wellNamed = true ∧ e.isFolder = false := by
    intro e he
    obtain ⟨bytes, rfl⟩ := hnew e he
    exact ⟨rfl, rfl, rfl⟩
  have hfolder : ∀ r ∈ ps, fs.root.FolderAt (l.site r.dataType) →
      (fs.root.set new (here ++ [n])).FolderAt (l.site r.dataType) := by
    intro r hr hsite
    exact hsite.set hroot new hhere (hplace ▸ hl.place_not_above_site hp hr ho.absent)
  refine ⟨?_, ?_, hfolder p hp hsite, fun r hr hne score hslot => ⟨hfolder r hr hslot.folder, ?_⟩⟩
  · exact hk.set hhere ho.name (hplace ▸ ho.absent)
      (fun e he => ⟨(hfile e he).1, (hfile e he).2.1⟩)
      (Or.inl ⟨⟨p, hp, hplace.symm⟩, fun e he => (hfile e he).2.2⟩)
  · obtain ⟨cs, hcs⟩ := hhere
    rw [hplace, Entry.at?_set_self hroot new hcs]
  · intro q' here' n' ho'
    rw [← hslot.content q' here' n' ho', ← hplace]
    exact Entry.at?_set_apart hroot new
      (hl.place_not_above_place hp hr hne.symm ho.absent ho')
      (hl.place_not_above_place hr hp hne ho'.absent ho)

/-! ### Making, removing and writing -/

omit hp in
theorem Fits.leads_output : fs.Leads (.ofText b.output) l.output ∧ fs.root.FolderAt l.output :=
  hk.leads hl.leads hl.folder

theorem Fits.makeFolders_folderOf :
    fs.makeFolders (.ofText (b.folderOf p)) =
      match fs.root.at? (l.output ++ [p.dataType]) with
      | none => .ok { fs with root := fs.root.set (some (.folder [])) (l.output ++ [p.dataType]) }
      | some _ =>
        if fs.isFolder (.ofText (b.folderOf p)) then .ok fs else .error .alreadyThere := by
  obtain ⟨houtput, hfolder⟩ := hl.leads_output hk
  have htype := hl.dataType p hp
  rw [folderOf, Path.ofText_joinText _ htype.toIsPiece]
  exact FileSystem.makeFolders_child houtput hfolder htype

theorem Fits.makeFolders_missing
    (habsent : l.base.root.at? (l.output ++ [p.dataType]) = none)
    (hsite : l.site p.dataType = l.output ++ [p.dataType]) :
    ∃ fs', fs.makeFolders (.ofText (b.folderOf p)) = .ok fs' ∧
      l.Keeps ps fs' ∧ fs'.root.FolderAt (l.site p.dataType) ∧
      ∀ r ∈ ps, ∀ score, l.Slot b r score fs → l.Slot b r score fs' := by
  obtain ⟨houtput, hfolder⟩ := hl.leads_output hk
  have htype := hl.dataType p hp
  have hmake := hl.makeFolders_folderOf hk hp
  -- it is made now, or it was made for an earlier project of the same data type
  cases hat : fs.root.at? (l.output ++ [p.dataType]) with
  | none =>
    rw [hat] at hmake
    have hsites : ∃ r ∈ ps, l.output ++ [p.dataType] = l.site r.dataType := ⟨p, hp, hsite.symm⟩
    have hnew : ∀ e, some (Entry.folder []) = some e →
        (e.children = [] ∧ e.wellNamed = true) ∧ e.isFolder = true := by
      rintro e he
      rw [← Option.some.inj he]
      exact ⟨⟨rfl, rfl⟩, rfl⟩
    refine ⟨_, hmake, hk.set hfolder htype habsent (fun e he => (hnew e he).1)
      (Or.inr ⟨hsites, fun e he => (hnew e he).2⟩), ?_, fun r hr score hslot => ⟨?_, ?_⟩⟩
    · obtain ⟨cs, hcs⟩ := hfolder
      rw [hsite]
      exact ⟨[], Entry.at?_set_self hk.wellNamed _ hcs _⟩
    · obtain ⟨ds, hds⟩ := hslot.folder
      exact hslot.folder.set hk.wellNamed _ hfolder (Entry.not_prefix_of_found hat (by simp [hds]))
    · intro q here n ho
      obtain ⟨ds, hds⟩ := (hl.leads_open hk hr hslot.folder ho).2
      rw [← hslot.content q here n ho]
      refine Entry.at?_set_apart hk.wellNamed _ ?_ (hsite ▸ hl.place_not_above_site hr hp ho.absent)
      rw [ho.place, List.prefix_concat_iff]
      rintro (heq | hbelow)
      · exact hl.unmixed r hr p hp ho.absent ((ho.place.trans heq.symm).trans hsite.symm)
      · exact Entry.not_prefix_of_found hat (by simp [hds]) hbelow
  | some e =>
    have hthere : e.isFolder = true := by
      by_contra hfile
      rcases hk.file (by simpa using hfile) hat with he | ⟨r, hr, heq⟩
      · simp [habsent] at he
      · exact hl.unmixed r hr p hp (heq ▸ habsent) (heq.symm.trans hsite.symm)
    obtain ⟨cs, rfl⟩ := FileSystem.isFolder_eq_true_iff.1 hthere
    have hlink := FileSystem.noLink_of_folder ⟨cs, hat⟩
    have hisFolder := FileSystem.isFolder_child houtput hfolder htype hlink
    rw [← Path.ofText_joinText _ htype.toIsPiece, hat] at hisFolder
    rw [hat, folderOf, hisFolder] at hmake
    exact ⟨fs, hmake, hk, hsite ▸ ⟨cs, hat⟩, fun _ _ _ h => h⟩

theorem Fits.makeFolders_there (hsite : fs.root.FolderAt (l.site p.dataType)) :
    fs.makeFolders (.ofText (b.folderOf p)) = .ok fs :=
  FileSystem.makeFolders_of_leads
    ((hl.site p hp).leads hl.leads hl.folder (hl.dataType p hp) hk hsite) hsite

/-- The folder of a data type is made, or found, unless it can never be there. -/
theorem Fits.makeFolders_site :
    (l.Refused p.dataType → ∃ e, fs.makeFolders (.ofText (b.folderOf p)) = .error e) ∧
      (¬ l.Refused p.dataType → ∃ fs', fs.makeFolders (.ofText (b.folderOf p)) = .ok fs' ∧
        l.Keeps ps fs' ∧ fs'.root.FolderAt (l.site p.dataType) ∧
        ∀ r ∈ ps, ∀ score, l.Slot b r score fs → l.Slot b r score fs') := by
  cases hl.site p hp with
  | missing habsent hsite =>
    have hrefused : ¬ l.Refused p.dataType := by
      rintro ⟨e, he, -⟩
      rw [hsite, habsent] at he
      simp at he
    exact ⟨fun h => absurd h hrefused, fun _ => hl.makeFolders_missing hk hp habsent hsite⟩
  | there hleads hthere =>
    obtain ⟨cs, hcs⟩ := hthere
    have hrefused : ¬ l.Refused p.dataType := by
      rintro ⟨e, he, hfile⟩
      rw [hcs, Option.some.injEq] at he
      simp [← he, Entry.isFolder] at hfile
    have hsite := hk.within.folder ⟨cs, hcs⟩
    exact ⟨fun h => absurd h hrefused, fun _ =>
      ⟨fs, hl.makeFolders_there hk hp hsite, hk, hsite, fun _ _ _ h => h⟩⟩
  | never e htaken hfile hsite hclosed =>
    have hrefused : l.Refused p.dataType := ⟨e, hsite ▸ htaken, hfile⟩
    refine ⟨fun _ => ⟨.alreadyThere, ?_⟩, fun h => absurd hrefused h⟩
    have htaken' := hk.within.other hfile htaken
    rw [hl.makeFolders_folderOf hk hp, htaken']
    simp [folderOf, hclosed fs hk]

theorem Fits.closed (hsite : fs.root.FolderAt (l.site p.dataType))
    (hopen : ¬ ∃ q here n, l.Open b p q here n) :
    fs.isFile (.ofText (b.scoreFile p)) = false ∧
      (∀ text, ∃ e, fs.writeText (.ofText (b.scoreFile p)) text = .error e) ∧
      ∃ e, fs.removeFile (.ofText (b.scoreFile p)) = .error e := by
  cases hl.spot p hp with
  | free q here n ho => exact absurd ⟨q, here, n, ho⟩ hopen
  | closed hbarred => exact hbarred fs hk hsite

theorem Fits.unscored_slot (hsite : fs.root.FolderAt (l.site p.dataType)) :
    l.Keeps ps (b.unscored p fs) ∧ l.Slot b p none (b.unscored p fs) ∧
      ∀ r ∈ ps, r ≠ p → ∀ score, l.Slot b r score fs → l.Slot b r score (b.unscored p fs) := by
  by_cases hopen : ∃ q here n, l.Open b p q here n
  · obtain ⟨q, here, n, ho⟩ := hopen
    obtain ⟨hleads, hhere⟩ := hl.leads_open hk hp hsite ho
    have hremove := FileSystem.removeFile_child hleads hhere ho.name
    rw [← ho.path] at hremove
    cases hat : fs.root.at? (here ++ [n]) with
    | none =>
      rw [hat] at hremove
      rw [unscored, hremove]
      refine ⟨hk, ⟨hsite, fun _ _ _ _ => ?_⟩, fun _ _ _ _ h => h⟩
      rw [ho.place, hat]
      rfl
    | some e =>
      have hgone : fs.removeFile (.ofText (b.scoreFile p)) =
          .ok { fs with root := fs.root.set none (here ++ [n]) } := by
        rw [hremove, hat]
        cases e with
        | folder cs => exact absurd hat (hl.noFolder_open hk hp ho cs)
        | file bytes => rfl
        | link target => rfl
      rw [unscored, hgone]
      have hnone : ∀ e : Entry, none = some e → ∃ bytes, e = .file bytes := by simp
      obtain ⟨hkeeps, hself, hfolder, hothers⟩ := hl.put_open hk hp hsite ho hnone
      exact ⟨hkeeps, ⟨hfolder, fun _ _ _ _ => hself⟩, hothers⟩
  · obtain ⟨-, -, e, hremove⟩ := hl.closed hk hp hsite hopen
    rw [unscored, hremove]
    exact ⟨hk, ⟨hsite, fun q here n ho => absurd ⟨q, here, n, ho⟩ hopen⟩, fun _ _ _ _ h => h⟩

theorem Fits.writeText_open (hsite : fs.root.FolderAt (l.site p.dataType)) {q : Path}
    {here : List String} {n : String} (ho : l.Open b p q here n)
    (hlink : FileSystem.NoLink fs.root (l.place p)) (text : String) :
    fs.writeText (.ofText (b.scoreFile p)) text =
      .ok { fs with root := fs.root.set (some (.file (Utf8.encode text))) (here ++ [n]) } := by
  obtain ⟨hleads, hhere⟩ := hl.leads_open hk hp hsite ho
  have hwrite := FileSystem.writeText_child hleads hhere ho.name (ho.place ▸ hlink) text
  have hfolder := hl.noFolder_open hk hp ho
  rw [ho.path, hwrite]
  cases hat : fs.root.at? (here ++ [n]) with
  | none => rfl
  | some e =>
    cases e with
    | folder cs => exact absurd hat (hfolder cs)
    | file bytes => rfl
    | link target => rfl

/-- A written score is there unless it cannot be. It takes the place of an old one. -/
theorem Fits.written_slot (hsite : fs.root.FolderAt (l.site p.dataType))
    (hlink : (∃ q here n, l.Open b p q here n) → FileSystem.NoLink fs.root (l.place p))
    (text : String) :
    l.Keeps ps (b.scored p (some text) fs) ∧ l.Slot b p (some text) (b.scored p (some text) fs) ∧
      ∀ r ∈ ps, r ≠ p → ∀ score, l.Slot b r score fs →
        l.Slot b r score (b.scored p (some text) fs) := by
  by_cases hopen : ∃ q here n, l.Open b p q here n
  · have hnoLink := hlink hopen
    obtain ⟨q, here, n, ho⟩ := hopen
    rw [scored, ChildProcess.write]
    simp only [hl.writeText_open hk hp hsite ho hnoLink text]
    have hfile : ∀ e, some (Entry.file (Utf8.encode text)) = some e →
        ∃ bytes, e = .file bytes := fun e he => ⟨_, (Option.some.inj he).symm⟩
    obtain ⟨hkeeps, hself, hthere, hothers⟩ := hl.put_open hk hp hsite ho hfile
    exact ⟨hkeeps, ⟨hthere, fun _ _ _ _ => hself⟩, hothers⟩
  · obtain ⟨-, hwrite, -⟩ := hl.closed hk hp hsite hopen
    obtain ⟨e, hwrite⟩ := hwrite text
    have hscored : b.scored p (some text) fs = fs := by
      simp [scored, ChildProcess.write, hwrite]
    rw [hscored]
    exact ⟨hk, ⟨hsite, fun q here n ho => absurd ⟨q, here, n, ho⟩ hopen⟩, fun _ _ _ _ h => h⟩

theorem Fits.scored_slot (score : Option String) (hslot : l.Slot b p none fs) :
    l.Keeps ps (b.scored p score fs) ∧ l.Slot b p score (b.scored p score fs) ∧
      ∀ r ∈ ps, r ≠ p → ∀ score', l.Slot b r score' fs →
        l.Slot b r score' (b.scored p score fs) := by
  cases score with
  | none => exact ⟨hk, hslot, fun _ _ _ _ h => h⟩
  | some text =>
    exact hl.written_slot hk hp hslot.folder (fun ⟨_, _, _, ho⟩ => hslot.noLink ho) text

theorem Fits.isFile_slot {score : Option String} (hslot : l.Slot b p score fs) :
    fs.isFile (.ofText (b.scoreFile p)) = true ↔
      score ≠ none ∧ ∃ q here n, l.Open b p q here n := by
  by_cases hopen : ∃ q here n, l.Open b p q here n
  · obtain ⟨q, here, n, ho⟩ := hopen
    obtain ⟨hleads, hhere⟩ := hl.leads_open hk hp hslot.folder ho
    have hlink := hslot.noLink ho
    have hat := hslot.content q here n ho
    rw [ho.place] at hat hlink
    rw [ho.path, FileSystem.isFile_child hleads hhere ho.name hlink, hat]
    cases score with
    | none => simp
    | some text => simpa [Entry.isFile] using ⟨q, here, n, ho⟩
  · simp [(hl.closed hk hp hslot.folder hopen).1, hopen]

theorem Fits.entry_slot {score : Option String} (hslot : l.Slot b p score fs) {bytes : List UInt8} :
    fs.entry (.ofText (b.scoreFile p)) = .ok (.file bytes) ↔
      (∃ q here n, l.Open b p q here n) ∧ ∃ text, score = some text ∧ Utf8.encode text = bytes := by
  have hwritten : ∀ text, score = some text → (∃ q here n, l.Open b p q here n) →
      fs.entry (.ofText (b.scoreFile p)) = .ok (.file (Utf8.encode text)) := by
    rintro text rfl ⟨q, here, n, ho⟩
    obtain ⟨hleads, hhere⟩ := hl.leads_open hk hp hslot.folder ho
    have hlink := hslot.noLink ho
    have hat := hslot.content q here n ho
    rw [ho.place] at hat hlink
    rw [ho.path, FileSystem.entry_child hleads hhere ho.name hlink, hat]
    rfl
  constructor
  · intro h
    have hfile : fs.isFile (.ofText (b.scoreFile p)) = true := by
      simp [FileSystem.isFile, h, Entry.isFile]
    obtain ⟨hscore, hopen⟩ := (hl.isFile_slot hk hp hslot).1 hfile
    obtain ⟨text, rfl⟩ := Option.ne_none_iff_exists'.1 hscore
    rw [hwritten text rfl hopen, Except.ok.injEq, Entry.file.injEq] at h
    exact ⟨hopen, text, rfl, h⟩
  · rintro ⟨hopen, text, hscore, rfl⟩
    exact hwritten text hscore hopen

theorem Fits.open_iff_writable {score : Option String} (hslot : l.Slot b p score fs) :
    (∃ q here n, l.Open b p q here n) ↔
      ∃ text fs', fs.writeText (.ofText (b.scoreFile p)) text = .ok fs' := by
  constructor
  · rintro ⟨q, here, n, ho⟩
    exact ⟨"", _, hl.writeText_open hk hp hslot.folder ho (hslot.noLink ho) ""⟩
  · rintro ⟨text, fs', hwrite⟩
    by_contra hopen
    obtain ⟨e, he⟩ := (hl.closed hk hp hslot.folder hopen).2.1 text
    simp [hwrite] at he

end

end Layout

end Batch

end PackageModularity
