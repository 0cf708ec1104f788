import PackageModularity.Proofs.Batch.ExactListing
import PackageModularity.Proofs.Batch.ReportedScores
import PackageModularity.Proofs.Files.ReplacedFile

/-!
Score files of different projects. Their paths differ, and they are different files unless links make
the folders of two data types one folder. Removing or writing one leaves the others as they are. Where
two projects have one score file, the report depends on which child comes first.
-/
namespace PackageModularity

open Entry (FolderAt)

namespace Batch

/-- The text of the folder for a project's score leads to a folder. -/
structure FolderOf (b : Batch) (fs : FileSystem) (p : ProjectEntry) (here : List String) :
    Prop where
  leads : fs.Leads (.ofText (b.folderOf p)) here
  folder : fs.root.FolderAt here

def scorePlace (b : Batch) (p : ProjectEntry) (here : List String) : List String :=
  here ++ [b.config.scoreFileName p.name]

/-- Removing an old score of the one project and writing a new one leave a file of the other. A link
in place of an old score is removed like any other. -/
structure Spares (b : Batch) (fs : FileSystem) (p : ProjectEntry) (place other : List String) :
    Prop where
  removed : Entry.SameFile other fs.root (b.unscored p fs).root
  unlinked : FileSystem.NoLink (b.unscored p fs).root place
  written : FileSystem.NoLink fs.root place →
    ∀ score, Entry.SameFile other fs.root (b.scored p score fs).root

variable {b : Batch} {fs : FileSystem} {p q : ProjectEntry} {here there : List String}

theorem scorePlace_eq_iff : b.scorePlace p here = b.scorePlace q there ↔
    here = there ∧ p.name = q.name := by
  constructor
  · intro h
    obtain ⟨rfl, hfile⟩ := List.append_inj' h rfl
    exact ⟨rfl, scoreFileName_inj (List.singleton_inj.1 hfile)⟩
  · rintro ⟨rfl, hname⟩
    rw [scorePlace, scorePlace, hname]

section
variable (hroot : fs.root.wellNamed = true) (hslash : '/' ∉ b.config.scoreExtension.toList)
  (hname : IsEntryName p.name) (h : b.FolderOf fs p here)
include hslash hname h

theorem scored_eq (hlink : FileSystem.NoLink fs.root (b.scorePlace p here))
    (score : Option String) : b.scored p score fs = fs ∨
      ¬ fs.root.FolderAt (b.scorePlace p here) ∧ ∃ bytes, b.scored p score fs =
        { fs with root := fs.root.set (some (.file bytes)) (b.scorePlace p here) } := by
  rw [scored, ChildProcess.write]
  cases score with
  | none => exact Or.inl rfl
  | some text =>
    dsimp only
    rw [path_scoreFile hslash hname.toIsPiece]
    by_cases hnul : '\x00' ∈ (b.config.scoreFileName p.name).toList
    · rw [FileSystem.writeText_nul (by simp [Path.hasNul_append_singleton, hnul])]
      exact Or.inl rfl
    · rw [FileSystem.writeText_child h.leads h.folder
        ⟨isPiece_scoreFileName hslash hname.toIsPiece, hnul⟩ hlink]
      rw [scorePlace]
      cases hat : fs.root.at? (here ++ [b.config.scoreFileName p.name]) with
      | none => exact Or.inr ⟨by simp [FolderAt, hat], Utf8.encode text, rfl⟩
      | some e =>
        cases e with
        | folder cs => exact Or.inl rfl
        | file bytes => exact Or.inr ⟨by simp [FolderAt, hat], Utf8.encode text, rfl⟩
        | link target => exact absurd hat (hlink target)

include hroot

theorem unscored_eq : b.unscored p fs = fs ∧ FileSystem.NoLink fs.root (b.scorePlace p here) ∨
    ¬ fs.root.FolderAt (b.scorePlace p here) ∧
      b.unscored p fs = { fs with root := fs.root.set none (b.scorePlace p here) } := by
  rw [unscored, path_scoreFile hslash hname.toIsPiece]
  by_cases hnul : '\x00' ∈ (b.config.scoreFileName p.name).toList
  · rw [FileSystem.removeFile_nul (by simp [Path.hasNul_append_singleton, hnul])]
    refine Or.inl ⟨rfl, fun target htarget => ?_⟩
    exact ((Entry.wellNamed_at? hroot htarget).1 _ (by simp [scorePlace])).noNul hnul
  · rw [FileSystem.removeFile_child h.leads h.folder
      ⟨isPiece_scoreFileName hslash hname.toIsPiece, hnul⟩]
    rw [scorePlace]
    cases hat : fs.root.at? (here ++ [b.config.scoreFileName p.name]) with
    | none => exact Or.inl ⟨rfl, by simp [FileSystem.NoLink, hat]⟩
    | some e =>
      cases e with
      | folder cs => exact Or.inl ⟨rfl, by simp [FileSystem.NoLink, hat]⟩
      | file bytes => exact Or.inr ⟨by simp [FolderAt, hat], rfl⟩
      | link target => exact Or.inr ⟨by simp [FolderAt, hat], rfl⟩

theorem spares (hne : here ≠ there ∨ p.name ≠ q.name) :
    b.Spares fs p (b.scorePlace p here) (b.scorePlace q there) := by
  have hplaces : b.scorePlace q there ≠ b.scorePlace p here := fun heq => by
    obtain ⟨hhere, hsame⟩ := scorePlace_eq_iff.1 heq
    exact hne.elim (fun hne => hne hhere.symm) fun hne => hne hsame.symm
  constructor
  · rcases unscored_eq hroot hslash hname h with ⟨hsame, -⟩ | ⟨hfile, hset⟩
    · rw [hsame]
      exact .refl _ _
    · rw [hset]
      exact (Entry.sameElsewhere_set hroot (by simp) h.folder hfile).sameFile hplaces
  · rcases unscored_eq hroot hslash hname h with ⟨hsame, hlink⟩ | ⟨-, hset⟩
    · rwa [hsame]
    · obtain ⟨cs, hcs⟩ := h.folder
      intro target htarget
      rw [hset] at htarget
      rw [scorePlace, Entry.at?_set_self hroot none hcs] at htarget
      simp at htarget
  · intro hlink score
    rcases scored_eq hslash hname h hlink score with hsame | ⟨hfile, bytes, hset⟩
    · rw [hsame]
      exact .refl _ _
    · rw [hset]
      refine (Entry.sameElsewhere_set hroot ?_ h.folder hfile).sameFile hplaces
      rintro e ⟨⟩
      rfl

end

theorem FolderOf.eq_append {output : List String} (h : b.FolderOf fs p here)
    (hleads : fs.Leads (.ofText b.output) output) (hfolder : fs.root.FolderAt output)
    (htype : IsEntryName p.dataType)
    (hlink : FileSystem.NoLink fs.root (output ++ [p.dataType])) : here = output ++ [p.dataType] := by
  refine h.leads.unique ?_
  rw [folderOf, Path.ofText_joinText _ htype.toIsPiece]
  exact hleads.child hfolder htype hlink

/-- What keeps two projects apart: the paths of their score files, and the folders that these lead to
or the names in them. The folders are two where no links stand in their places. -/
structure Apart (b : Batch) (p q : ProjectEntry) : Prop where
  paths : Path.ofText (b.scoreFile p) ≠ Path.ofText (b.scoreFile q)
  places : ∀ here there, b.scorePlace p here = b.scorePlace q there ↔ here = there ∧ p.name = q.name
  spares : ∀ (fs : FileSystem) here there, fs.root.wellNamed = true → b.FolderOf fs p here →
    b.FolderOf fs q there → here ≠ there ∨ p.name ≠ q.name →
      b.Spares fs p (b.scorePlace p here) (b.scorePlace q there)
  unlinked : ∀ (fs : FileSystem) output here there, fs.Leads (.ofText b.output) output →
    fs.root.FolderAt output → FileSystem.NoLink fs.root (output ++ [p.dataType]) →
    FileSystem.NoLink fs.root (output ++ [q.dataType]) → b.FolderOf fs p here →
    b.FolderOf fs q there → here ≠ there ∨ p.name ≠ q.name

theorem apart_of_listed {dataset : String} (hslash : '/' ∉ b.config.scoreExtension.toList)
    (hp : p.ListedIn dataset) (hq : q.ListedIn dataset) (hne : p ≠ q) : b.Apart p q where
  paths h := by
    have hpath : ∀ {r : ProjectEntry}, r.ListedIn dataset →
        (Path.ofText (b.scoreFile r)).components = (Path.ofText b.output).components ++
          [.name r.dataType, .name (b.config.scoreFileName r.name)] := by
      intro r hr
      rw [path_scoreFile hslash hr.name.toIsPiece, folderOf,
        Path.ofText_joinText _ hr.dataType.toIsPiece]
      simp [Path.append]
    have hcomponents := congrArg Path.components h
    rw [hpath hp, hpath hq] at hcomponents
    obtain ⟨htype, hfile⟩ : p.dataType = q.dataType ∧
        b.config.scoreFileName p.name = b.config.scoreFileName q.name := by simpa using hcomponents
    refine hne (ProjectEntry.eq_of_id_eq hp hq ?_)
    rw [ProjectEntry.id, ProjectEntry.id, htype, scoreFileName_inj hfile]
  places _ _ := scorePlace_eq_iff
  spares _ _ _ hroot h _ hne := spares hroot hslash hp.name h hne
  unlinked fs output here there hleads hfolder hlink hlink' h h' := by
    by_contra hsame
    obtain ⟨hhere, hname⟩ := not_or.1 hsame
    rw [h.eq_append hleads hfolder hp.dataType hlink,
      h'.eq_append hleads hfolder hq.dataType hlink', not_not, List.append_cancel_left_eq,
      List.singleton_inj] at hhere
    refine hne (ProjectEntry.eq_of_id_eq hp hq ?_)
    rw [ProjectEntry.id, ProjectEntry.id, hhere, not_not.1 hname]

end Batch

namespace Dataset

/-- A dataset is listed exactly, whatever else there is and in whatever order. Each project has an id
and a score file of its own, and is known by the last name of its path. -/
theorem projects_exact {fs : FileSystem} {dataset : String} {here : List String}
    (h : fs.FolderText dataset here) :
    ∃ groups, projects fs dataset = .ok groups ∧ Lists fs dataset here groups ∧
      (∀ fs' there, fs'.FolderText dataset there → SameFolders fs.root here fs'.root there →
        projects fs' dataset = .ok groups) ∧
      (∀ p ∈ groups.flatMap (·.2), ∀ fs', projectName fs' p.path = p.name) ∧
      ∀ p ∈ groups.flatMap (·.2), ∀ q ∈ groups.flatMap (·.2), p ≠ q → p.id ≠ q.id ∧
        ∀ b : Batch, '/' ∉ b.config.scoreExtension.toList → b.Apart p q := by
  obtain ⟨groups, hgroups, hlists, hsame⟩ := exists_listing h
  obtain ⟨_, -, -, hlisted⟩ := listed_of_projects h.wellNamed hgroups
  refine ⟨groups, hgroups, hlists, hsame, fun p hp fs' => ?_, fun p hp q hq hne => ⟨?_, ?_⟩⟩
  · exact projectName_of_fileName (Command.fileName_of_listed (hlisted p hp).1)
  · exact fun hid => hne (ProjectEntry.eq_of_id_eq (hlisted p hp).1 (hlisted q hq).1 hid)
  · exact fun b hslash => Batch.apart_of_listed hslash (hlisted p hp).1 (hlisted q hq).1 hne

/-- Two data types, each with a project of the same name, and an output folder in which both have
links to one folder. -/
def sharedOutput : FileSystem where
  root := .folder [
    ("data", .folder [("b", .folder [("p", .folder [])]), ("a", .folder [("p", .folder [])])]),
    ("output", .folder [("x", .folder [])]),
    ("res", .folder [("a", .link "../output/x"), ("b", .link "../output/x")])]
  working := []

theorem folderText_sharedOutput : sharedOutput.FolderText "data" ["data"] :=
  ⟨by decide +kernel, by decide, ⟨by decide, rfl⟩, _, rfl⟩

theorem projects_exact_sharedOutput : ∃ groups, projects sharedOutput "data" = .ok groups ∧
    ⟨"a", "p", "data/a/p"⟩ ∈ groups.flatMap (·.2) ∧
    ⟨"b", "p", "data/b/p"⟩ ∈ groups.flatMap (·.2) ∧
    Batch.twoWorkers.Apart ⟨"a", "p", "data/a/p"⟩ ⟨"b", "p", "data/b/p"⟩ := by
  obtain ⟨groups, hgroups, hlists, -, -, hapart⟩ := projects_exact folderText_sharedOutput
  have ha : ⟨"a", "p", "data/a/p"⟩ ∈ groups.flatMap (·.2) :=
    hlists.mem_iff_folder.2 ⟨by decide, _, rfl⟩
  have hb : ⟨"b", "p", "data/b/p"⟩ ∈ groups.flatMap (·.2) :=
    hlists.mem_iff_folder.2 ⟨by decide, _, rfl⟩
  exact ⟨groups, hgroups, ha, hb, (hapart _ ha _ hb (by decide)).2 _ (by decide)⟩

def sharingBatch : Batch := ⟨Config.default, none, "res", 1, []⟩

/-- Where two data types have one folder, the score of a project is overwritten, and removed, along
with that of its namesake. -/
theorem score_overwritten : ∃ groups p q written, projects sharedOutput "data" = .ok groups ∧
    p ∈ groups.flatMap (·.2) ∧ q ∈ groups.flatMap (·.2) ∧ p ≠ q ∧
    '/' ∉ sharingBatch.config.scoreExtension.toList ∧
    written = sharingBatch.scored p (some "2") sharedOutput ∧
    written.readText (.ofText (sharingBatch.scoreFile p)) = .ok "2" ∧
    (sharingBatch.scored q (some "0.5") written).readText (.ofText (sharingBatch.scoreFile p)) =
      .ok "0.5" ∧
    (sharingBatch.unscored q written).isFile (.ofText (sharingBatch.scoreFile p)) = false := by
  obtain ⟨groups, hgroups, hlists, -⟩ := exists_listing folderText_sharedOutput
  exact ⟨groups, ⟨"a", "p", "data/a/p"⟩, ⟨"b", "p", "data/b/p"⟩, _, hgroups,
    hlists.mem_iff_folder.2 ⟨by decide, _, rfl⟩, hlists.mem_iff_folder.2 ⟨by decide, _, rfl⟩,
    by decide, by decide, rfl, by decide +kernel, by decide +kernel, by decide +kernel⟩

end Dataset

namespace Batch

open Dataset

end Batch

end PackageModularity
