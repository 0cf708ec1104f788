import Mathlib.Data.List.Nodup
import Mathlib.Data.List.Forall2
import PackageModularity.Batch.Dataset
import PackageModularity.Proofs.Files.NewFolders

/-!
The projects of a dataset: each is a folder two names below the one that the dataset leads to, and
no two of them have the same id.
-/
namespace PackageModularity

open Entry (FolderAt)

/-- A project as a dataset lists it. -/
structure ProjectEntry.ListedIn (dataset : String) (p : ProjectEntry) : Prop where
  dataType : IsEntryName p.dataType
  name : IsEntryName p.name
  path : p.path = Path.joinText (Path.joinText dataset p.dataType) p.name

namespace ProjectEntry

theorem eq_of_id_eq {dataset : String} {p q : ProjectEntry} (hp : p.ListedIn dataset)
    (hq : q.ListedIn dataset) (h : p.id = q.id) : p = q := by
  have hpieces : splitOnChar '/' p.id.toList = splitOnChar '/' q.id.toList := by rw [h]
  have hsplit : ∀ r : ProjectEntry, r.ListedIn dataset →
      splitOnChar '/' r.id.toList = [r.dataType.toList, r.name.toList] := by
    intro r hr
    have hid : r.id.toList = r.dataType.toList ++ '/' :: r.name.toList := by simp [id]
    rw [hid, splitOnChar_append, splitOnChar_of_not_mem hr.dataType.noSlash,
      splitOnChar_of_not_mem hr.name.noSlash]
    rfl
  rw [hsplit p hp, hsplit q hq] at hpieces
  obtain ⟨htype, hname⟩ : p.dataType = q.dataType ∧ p.name = q.name := by
    simpa [String.toList_inj] using hpieces
  have hpath := hp.path
  obtain ⟨pt, pn, pp⟩ := p
  obtain ⟨qt, qn, qp⟩ := q
  obtain rfl : pt = qt := htype
  obtain rfl : pn = qn := hname
  rw [ProjectEntry.mk.injEq]
  exact ⟨rfl, rfl, hpath.trans hq.path.symm⟩

end ProjectEntry

namespace Dataset

theorem map_of_mapM {α β ε : Type} {f : α → Except ε β} {xs : List α} {ys : List β}
    (h : xs.mapM f = .ok ys) : xs.map f = ys.map .ok := by
  induction xs generalizing ys with
  | nil =>
    obtain rfl : [] = ys := by simpa [pure, Except.pure] using h
    rfl
  | cons x xs ih =>
    simp only [List.mapM_cons, bind, Except.bind, pure, Except.pure] at h
    split at h
    · simp at h
    · rename_i y hy
      split at h
      · simp at h
      · rename_i zs hzs
        obtain rfl := Except.ok.inj h
        rw [List.map_cons, List.map_cons, hy, ih hzs]

theorem sortNames_of_sorted {names : List String} (h : names.Pairwise (· ≤ ·)) :
    sortNames names = names :=
  List.mergeSort_of_pairwise (h.imp fun h => decide_eq_true h)

theorem subfolders_eq_ok {fs : FileSystem} (hroot : fs.root.wellNamed = true) {path : String}
    {names : List String} (h : subfolders fs path = .ok names) :
    names.Nodup ∧ ∃ here, fs.Leads (.ofText path) here ∧ fs.root.FolderAt here ∧
      ∀ n ∈ names, IsEntryName n ∧ fs.root.FolderAt (here ++ [n]) := by
  obtain ⟨here, cs, hleads, hcs, rfl⟩ : ∃ here cs, fs.Leads (.ofText path) here ∧
      fs.root.at? here = some (.folder cs) ∧
      names = sortNames ((cs.filter fun e => e.2.isFolder).map (·.1)) := by
    simp only [subfolders, FileSystem.list, FileSystem.entry, bind, Except.bind] at h
    cases hlocate : fs.locate (.ofText path) with
    | error e => simp [hlocate] at h
    | ok here =>
      cases he : fs.root.at? here with
      | none => simp [hlocate, he] at h
      | some e =>
        cases e with
        | folder cs =>
          refine ⟨here, cs, FileSystem.leads_of_locate hlocate, he, ?_⟩
          simpa [hlocate, he] using h.symm
        | file bytes => simp [hlocate, he] at h
        | link target => simp [hlocate, he] at h
  obtain ⟨hnodup, hwell⟩ := (Entry.wellNamed_folder_iff cs).1 (Entry.wellNamed_at? hroot hcs).2
  refine ⟨?_, here, hleads, ⟨cs, hcs⟩, fun n hn => ?_⟩
  · exact (List.mergeSort_perm _ _).nodup_iff.2 (hnodup.sublist (List.filter_sublist.map _))
  · obtain ⟨⟨k, e⟩, hmem, rfl⟩ := List.mem_map.1 ((List.mergeSort_perm _ _).mem_iff.1 hn)
    obtain ⟨hmem, hfolder⟩ := List.mem_filter.1 hmem
    obtain ⟨ds, hds⟩ := FileSystem.isFolder_eq_true_iff.1 hfolder
    refine ⟨(hwell _ hmem).1, ds, ?_⟩
    simp only at hds
    rw [Entry.at?_snoc, hcs, Option.bind_some, Entry.child?, Entry.children,
      (Entry.lookup_eq_some_iff hnodup k _).2 hmem, hds]

theorem projectsOf_of_subfolders {fs : FileSystem} {dataset dataType : String} {names : List String}
    (h : subfolders fs (Path.joinText dataset dataType) = .ok names) :
    projectsOf fs dataset dataType = .ok (dataType, names.map fun n =>
      ⟨dataType, n, Path.joinText (Path.joinText dataset dataType) n⟩) := by
  delta projectsOf
  dsimp only
  rw [h]

theorem projectsOf_eq_ok {fs : FileSystem} {dataset dataType : String}
    {g : String × List ProjectEntry} (h : projectsOf fs dataset dataType = .ok g) :
    ∃ names, subfolders fs (Path.joinText dataset dataType) = .ok names ∧
      g = (dataType, names.map fun n =>
        ⟨dataType, n, Path.joinText (Path.joinText dataset dataType) n⟩) := by
  cases hnames : subfolders fs (Path.joinText dataset dataType) with
  | error why =>
    delta projectsOf at h
    simp [hnames] at h
  | ok names =>
    rw [projectsOf_of_subfolders hnames] at h
    exact ⟨names, rfl, (Except.ok.inj h).symm⟩

theorem map_fst_of_projectsOf {fs : FileSystem} {dataset : String} {dataTypes : List String}
    {groups : List (String × List ProjectEntry)}
    (h : dataTypes.map (projectsOf fs dataset) = groups.map .ok) :
    groups.map (·.1) = dataTypes := by
  induction dataTypes generalizing groups with
  | nil =>
    obtain rfl : groups = [] := by simpa using h.symm
    rfl
  | cons t ts ih =>
    cases groups with
    | nil => simp at h
    | cons g gs =>
      obtain ⟨hg, hgs⟩ := List.cons.inj h
      obtain ⟨names, -, rfl⟩ := projectsOf_eq_ok hg
      rw [List.map_cons, ih hgs]

section
variable {fs : FileSystem} (hroot : fs.root.wellNamed = true) {dataset : String}
  {groups : List (String × List ProjectEntry)} (h : projects fs dataset = .ok groups)
include hroot h

theorem groups_of_projects :
    ∃ here, fs.Leads (.ofText dataset) here ∧ fs.root.FolderAt here ∧
      (groups.map (·.1)).Nodup ∧
      ∀ g ∈ groups, IsEntryName g.1 ∧ fs.root.FolderAt (here ++ [g.1]) ∧
        ∃ names : List String, names.Nodup ∧
          g.2 = names.map (fun n =>
            ⟨g.1, n, Path.joinText (Path.joinText dataset g.1) n⟩) ∧
          ∀ n ∈ names, IsEntryName n ∧ fs.root.FolderAt (here ++ [g.1] ++ [n]) := by
  unfold projects at h
  cases hsub : subfolders fs dataset with
  | error why => simp [hsub] at h
  | ok dataTypes =>
    simp only [hsub] at h
    obtain ⟨hnodup, here, hleads, hhere, hfolders⟩ := subfolders_eq_ok hroot hsub
    have hmap := map_of_mapM h
    refine ⟨here, hleads, hhere, (map_fst_of_projectsOf hmap).symm ▸ hnodup, fun g hg => ?_⟩
    obtain ⟨t, ht, hg⟩ : ∃ t ∈ dataTypes, projectsOf fs dataset t = .ok g :=
      List.mem_map.1 (hmap ▸ List.mem_map_of_mem hg)
    obtain ⟨names, hnames, rfl⟩ := projectsOf_eq_ok hg
    obtain ⟨htype, hfolder⟩ := hfolders t ht
    obtain ⟨hnodup, inner, hinner, -, hentries⟩ := subfolders_eq_ok hroot hnames
    have hchild := hleads.child hhere htype (FileSystem.noLink_of_folder hfolder)
    rw [← Path.ofText_joinText dataset htype.toIsPiece] at hchild
    obtain rfl := hinner.unique hchild
    exact ⟨htype, hfolder, names, hnodup, rfl, hentries⟩

/-- Every project is a folder two names below the dataset's. -/
theorem listed_of_projects :
    ∃ here, fs.Leads (.ofText dataset) here ∧ fs.root.FolderAt here ∧
      ∀ p ∈ groups.flatMap (·.2), p.ListedIn dataset ∧
        fs.root.FolderAt (here ++ [p.dataType]) ∧
        fs.root.FolderAt (here ++ [p.dataType] ++ [p.name]) := by
  obtain ⟨here, hleads, hhere, -, hgroups⟩ := groups_of_projects hroot h
  refine ⟨here, hleads, hhere, fun p hp => ?_⟩
  obtain ⟨g, hg, hp⟩ := List.mem_flatMap.1 hp
  obtain ⟨htype, hfolder, names, -, hnames, hentries⟩ := hgroups g hg
  rw [hnames] at hp
  obtain ⟨n, hn, rfl⟩ := List.mem_map.1 hp
  obtain ⟨hname, hproject⟩ := hentries n hn
  exact ⟨⟨htype, hname, rfl⟩, hfolder, hproject⟩

theorem nodup_projects : (groups.flatMap (·.2)).Nodup := by
  obtain ⟨_, -, -, hkeys, hgroups⟩ := groups_of_projects hroot h
  refine List.nodup_flatMap.2 ⟨fun g hg => ?_, ?_⟩
  · obtain ⟨-, -, names, hnodup, hnames, -⟩ := hgroups g hg
    rw [hnames]
    exact hnodup.map fun a b hab => (ProjectEntry.mk.inj hab).2.1
  · have hof : ∀ g ∈ groups, ∀ p ∈ g.2, p.dataType = g.1 := by
      intro g hg p hp
      obtain ⟨-, -, names, -, hnames, -⟩ := hgroups g hg
      rw [hnames] at hp
      obtain ⟨n, -, rfl⟩ := List.mem_map.1 hp
      rfl
    refine (List.pairwise_map.1 hkeys).imp_of_mem fun {g g'} hg hg' hne p hp hp' => ?_
    exact hne ((hof g hg p hp).symm.trans (hof g' hg' p hp'))

theorem nodup_ids : ((groups.flatMap (·.2)).map ProjectEntry.id).Nodup := by
  obtain ⟨_, -, -, hlisted⟩ := listed_of_projects hroot h
  refine (nodup_projects hroot h).map_on fun p hp q hq hid => ?_
  exact ProjectEntry.eq_of_id_eq (hlisted p hp).1 (hlisted q hq).1 hid

end

end Dataset

end PackageModularity
