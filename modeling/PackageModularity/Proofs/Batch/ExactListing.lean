import Mathlib.Data.List.Sort
import Mathlib.Data.String.Basic
import Mathlib.Tactic.Choose
import PackageModularity.Proofs.Batch.SingleRuns

/-!
What is listed of a dataset: each folder in it, and each folder in those, sorted by name. Nothing else
in the tree, and no order in which it keeps its entries, makes a difference.
-/
namespace PackageModularity.Dataset

open Entry (FolderAt)

/-- Two folders have the same folders, and these have the same folders. -/
def SameFolders (root : Entry) (here : List String) (other : Entry) (there : List String) : Prop :=
  ∀ names, names.length ≤ 2 → (root.FolderAt (here ++ names) ↔ other.FolderAt (there ++ names))

theorem pairwise_sortNames {names : List String} (h : names.Nodup) :
    (sortNames names).Pairwise (· < ·) := by
  have hsorted : (sortNames names).Pairwise (· ≤ ·) := by
    have hpairwise := @List.pairwise_mergeSort String (fun a b => decide (a ≤ b))
      (fun a b c => by simpa only [decide_eq_true_eq] using le_trans)
      (fun a b => by simpa only [Bool.or_eq_true, decide_eq_true_eq] using le_total a b) names
    simpa only [sortNames, decide_eq_true_eq] using hpairwise
  have hdistinct : (sortNames names).Pairwise (· ≠ ·) := (List.mergeSort_perm _ _).nodup_iff.2 h
  exact (hsorted.and hdistinct).imp fun h => lt_of_le_of_ne h.1 h.2

section
variable {fs : FileSystem} {text : String} {here : List String} (h : fs.FolderText text here)
include h

theorem exists_subfolders : ∃ names, subfolders fs text = .ok names ∧
    names.Pairwise (· < ·) ∧ ∀ n, n ∈ names ↔ fs.root.FolderAt (here ++ [n]) := by
  obtain ⟨cs, hcs⟩ := h.folder
  obtain ⟨hnodup, -⟩ := (Entry.wellNamed_folder_iff cs).1 (Entry.wellNamed_at? h.wellNamed hcs).2
  refine ⟨sortNames ((cs.filter fun e => e.2.isFolder).map (·.1)), ?_, ?_, fun n => ?_⟩
  · simp [subfolders, FileSystem.list, h.entry hcs, bind, Except.bind]
  · exact pairwise_sortNames (hnodup.sublist (List.filter_sublist.map _))
  · rw [sortNames, List.mem_mergeSort]
    constructor
    · intro hn
      obtain ⟨⟨k, e⟩, hmem, rfl⟩ := List.mem_map.1 hn
      obtain ⟨hmem, hfolder⟩ := List.mem_filter.1 hmem
      obtain ⟨ds, rfl⟩ := FileSystem.isFolder_eq_true_iff.1 hfolder
      refine ⟨ds, ?_⟩
      rw [Entry.at?_snoc, hcs, Option.bind_some, Entry.child?, Entry.children,
        (Entry.lookup_eq_some_iff hnodup k _).2 hmem]
    · rintro ⟨ds, hds⟩
      rw [Entry.at?_snoc, hcs, Option.bind_some] at hds
      exact List.mem_map.2 ⟨(n, .folder ds),
        List.mem_filter.2 ⟨Entry.mem_of_lookup hds, rfl⟩, rfl⟩

theorem subfolders_congr {fs' : FileSystem} {text' : String} {there : List String}
    (h' : fs'.FolderText text' there)
    (hsame : ∀ n, fs.root.FolderAt (here ++ [n]) ↔ fs'.root.FolderAt (there ++ [n])) :
    subfolders fs' text' = subfolders fs text := by
  obtain ⟨names, hnames, hsorted, hmem⟩ := exists_subfolders h
  obtain ⟨names', hnames', hsorted', hmem'⟩ := exists_subfolders h'
  rw [hnames, hnames']
  -- a strictly increasing list is known by its members
  exact congrArg _ (hsorted'.eq_of_mem_iff hsorted fun n => by rw [hmem, hmem', hsame])

end

theorem projects_of_subfolders {fs : FileSystem} {dataset : String} {types : List String}
    {names : String → List String} (htypes : subfolders fs dataset = .ok types)
    (hnames : ∀ t ∈ types, subfolders fs (Path.joinText dataset t) = .ok (names t)) :
    projects fs dataset = .ok (types.map fun t => (t, (names t).map fun n =>
      ⟨t, n, Path.joinText (Path.joinText dataset t) n⟩)) := by
  have hall : ∀ ts : List String, (∀ t ∈ ts, t ∈ types) →
      ts.mapM (projectsOf fs dataset) = .ok (ts.map fun t => (t, (names t).map fun n =>
        ⟨t, n, Path.joinText (Path.joinText dataset t) n⟩)) := by
    intro ts
    induction ts with
    | nil => exact fun _ => rfl
    | cons t ts ih =>
      intro hts
      obtain ⟨ht, hts⟩ := List.forall_mem_cons.1 hts
      rw [List.mapM_cons, projectsOf_of_subfolders (hnames t ht), ih hts]
      rfl
  simp only [projects, htypes]
  exact hall types fun _ ht => ht

/-- The groups of a listing: the folders of a dataset in order, each with the folders in it. -/
structure Lists (fs : FileSystem) (dataset : String) (here : List String)
    (groups : List (String × List ProjectEntry)) : Prop where
  increasing : (groups.map (·.1)).Pairwise (· < ·)
  mem_iff : ∀ t, t ∈ groups.map (·.1) ↔ fs.root.FolderAt (here ++ [t])
  names_increasing : ∀ g ∈ groups, (g.2.map ProjectEntry.name).Pairwise (· < ·)
  mem_group_iff : ∀ g ∈ groups, ∀ p, p ∈ g.2 ↔ p.dataType = g.1 ∧
    p.path = Path.joinText (Path.joinText dataset g.1) p.name ∧
    fs.root.FolderAt (here ++ [g.1, p.name])

variable {fs : FileSystem} {dataset : String} {here : List String}

theorem Lists.mem_iff_folder {groups : List (String × List ProjectEntry)}
    (h : Lists fs dataset here groups) {p : ProjectEntry} : p ∈ groups.flatMap (·.2) ↔
      p.path = Path.joinText (Path.joinText dataset p.dataType) p.name ∧
        fs.root.FolderAt (here ++ [p.dataType, p.name]) := by
  rw [List.mem_flatMap]
  constructor
  · rintro ⟨g, hg, hp⟩
    obtain ⟨htype, hpath, hfolder⟩ := (h.mem_group_iff g hg p).1 hp
    rw [htype]
    exact ⟨hpath, hfolder⟩
  · rintro ⟨hpath, hfolder⟩
    have habove : fs.root.FolderAt (here ++ [p.dataType]) := by
      obtain ⟨cs, hcs⟩ := hfolder
      rw [List.append_cons] at hcs
      exact Entry.folderAt_of_append (List.cons_ne_nil p.name []) (hcs.symm ▸ Option.some_ne_none _)
    obtain ⟨g, hg, htype⟩ := List.mem_map.1 ((h.mem_iff p.dataType).2 habove)
    exact ⟨g, hg, (h.mem_group_iff g hg p).2 ⟨htype.symm, htype ▸ hpath, htype ▸ hfolder⟩⟩

theorem exists_listing (h : fs.FolderText dataset here) :
    ∃ groups, projects fs dataset = .ok groups ∧ Lists fs dataset here groups ∧
      ∀ fs' there, fs'.FolderText dataset there → SameFolders fs.root here fs'.root there →
        projects fs' dataset = .ok groups := by
  obtain ⟨types, htypes, hsorted, hmem⟩ := exists_subfolders h
  have hnames : ∀ t, ∃ names : List String, t ∈ types →
      subfolders fs (Path.joinText dataset t) = .ok names ∧ names.Pairwise (· < ·) ∧
        ∀ n, n ∈ names ↔ fs.root.FolderAt (here ++ [t, n]) := by
    intro t
    by_cases ht : t ∈ types
    · obtain ⟨names, hnames⟩ := exists_subfolders (h.child ((hmem t).1 ht)).2
      simp only [List.append_assoc, List.singleton_append] at hnames
      exact ⟨names, fun _ => hnames⟩
    · exact ⟨[], fun hin => absurd hin ht⟩
  choose names hnames using hnames
  refine ⟨_, projects_of_subfolders htypes fun t ht => (hnames t ht).1, ⟨?_, fun t => ?_, ?_, ?_⟩,
    fun fs' there h' hsame => projects_of_subfolders ?_ fun t ht => ?_⟩
  · simpa [Function.comp_def] using hsorted
  · simpa [Function.comp_def] using hmem t
  · intro g hg
    obtain ⟨t, ht, rfl⟩ := List.mem_map.1 hg
    simpa [Function.comp_def] using (hnames t ht).2.1
  · intro g hg p
    obtain ⟨t, ht, rfl⟩ := List.mem_map.1 hg
    obtain ⟨dataType, name, path⟩ := p
    simp only [List.mem_map, (hnames t ht).2.2, ProjectEntry.mk.injEq]
    constructor
    · rintro ⟨n, hn, rfl, rfl, rfl⟩
      exact ⟨rfl, rfl, hn⟩
    · rintro ⟨rfl, rfl, hn⟩
      exact ⟨name, hn, rfl, rfl, rfl⟩
  · rw [subfolders_congr h h' fun n => hsame [n] (by simp), htypes]
  · have hfolder := (hmem t).1 ht
    have hfolder' := (hsame [t] (by simp)).1 hfolder
    rw [subfolders_congr (h.child hfolder).2 (h'.child hfolder').2 fun n => ?_,
      (hnames t ht).1]
    simpa using hsame [t, n] (by simp)

end PackageModularity.Dataset
