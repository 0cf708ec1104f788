import PackageModularity.Batch.ScoreTable
import PackageModularity.Proofs.DictEntries
import PackageModularity.Proofs.Files.EntryOperations
import PackageModularity.Proofs.Files.FileExtension

/-!
What is collected from an output folder: one score for each file of its folders that has the
extension of scores and holds a number.
-/
namespace PackageModularity

open Entry (FolderAt)

namespace ScoreTable

def score? (fs : FileSystem) (extension folder name : String) : Option (String × Binary64) :=
  match project? fs extension folder name with
  | none => none
  | some project =>
    match readScore fs (Path.joinText folder name) with
    | .ok x => some (project, x)
    | .error _ => none

def groupScores (fs : FileSystem) (extension folder : String) (names : List String) :
    Dict String Binary64 :=
  Dict.ofList (names.filterMap (score? fs extension folder))

def group? (fs : FileSystem) (output extension : String) (group : String × Entry) :
    Option (String × Dict String Binary64) :=
  match group.2 with
  | .folder cs =>
    let scores := groupScores fs extension (Path.joinText output group.1) (cs.map (·.1))
    if scores.size = 0 then none else some (group.1, scores)
  | _ => none

variable {fs : FileSystem} {output extension folder : String}

theorem scores_foldl {α β : Type} {step : Found α → β → Found α}
    {item? : β → Option (String × α)}
    (hstep : ∀ f x, (step f x).scores =
      (item? x).elim f.scores fun e => f.scores.insert e.1 e.2) (xs : List β) (f : Found α) :
    (xs.foldl step f).scores =
      (xs.filterMap item?).foldl (fun d e => d.insert e.1 e.2) f.scores := by
  induction xs generalizing f with
  | nil => rfl
  | cons x xs ih =>
    rw [List.foldl_cons, ih, hstep, List.filterMap_cons]
    cases item? x <;> rfl

theorem scores_addEntry (f : Found Binary64) (name : String) :
    (addEntry fs extension folder f name).scores =
      (score? fs extension folder name).elim f.scores fun e => f.scores.insert e.1 e.2 := by
  rw [score?, addEntry]
  cases project? fs extension folder name with
  | none => rfl
  | some project =>
    dsimp only
    cases readScore fs (Path.joinText folder name) <;> rfl

theorem scores_addGroup (f : Found (Dict String Binary64)) (g : String × Entry) :
    (addGroup fs output extension f g).scores =
      (group? fs output extension g).elim f.scores fun e => f.scores.insert e.1 e.2 := by
  rw [group?, addGroup]
  cases g.2 with
  | file bytes => rfl
  | link target => rfl
  | folder cs =>
    have hgroup : ((cs.map (·.1)).foldl (addEntry fs extension (Path.joinText output g.1))
        ⟨Dict.empty, []⟩).scores =
          groupScores fs extension (Path.joinText output g.1) (cs.map (·.1)) :=
      scores_foldl scores_addEntry _ _
    simp only [hgroup]
    split <;> rfl

theorem project?_eq_some_iff {name project : String} :
    project? fs extension folder name = some project ↔
      FileName.ofText name = ⟨project, some extension⟩ ∧
        fs.isFile (.ofText (Path.joinText folder name)) = true := by
  rw [project?]
  cases FileName.ofText name with
  | mk stem ext =>
    simp only [Option.ite_none_right_eq_some, FileName.mk.injEq, Option.some.injEq]
    constructor
    · rintro ⟨⟨hext, hfile⟩, hstem⟩
      exact ⟨⟨hstem, hext⟩, hfile⟩
    · rintro ⟨⟨hstem, hext⟩, hfile⟩
      exact ⟨⟨hext, hfile⟩, hstem⟩

theorem score?_eq_some_iff {name project : String} {x : Binary64} :
    score? fs extension folder name = some (project, x) ↔
      FileName.ofText name = ⟨project, some extension⟩ ∧
        fs.isFile (.ofText (Path.joinText folder name)) = true ∧
        readScore fs (Path.joinText folder name) = .ok x := by
  rw [← and_assoc, ← project?_eq_some_iff, score?]
  cases project? fs extension folder name with
  | none => simp
  | some p =>
    cases readScore fs (Path.joinText folder name) with
    | error why => simp
    | ok y => simp

theorem name_of_score? {name name' project : String} {x x' : Binary64}
    (h : score? fs extension folder name = some (project, x))
    (h' : score? fs extension folder name' = some (project, x')) : name = name' := by
  rw [FileName.eq_append_of_ofText (score?_eq_some_iff.1 h).1,
    FileName.eq_append_of_ofText (score?_eq_some_iff.1 h').1]

theorem get?_groupScores {names : List String} (hnames : names.Nodup) {project : String}
    {x : Binary64} : (groupScores fs extension folder names).get? project = some x ↔
      ∃ name ∈ names, score? fs extension folder name = some (project, x) := by
  have hkeys : ((names.filterMap (score? fs extension folder)).map (·.1)).Nodup := by
    rw [List.map_filterMap]
    refine hnames.filterMap fun name name' project h h' => ?_
    obtain ⟨⟨_, x⟩, hscore, rfl⟩ := Option.map_eq_some_iff.1 h
    obtain ⟨⟨_, x'⟩, hscore', rfl⟩ := Option.map_eq_some_iff.1 h'
    exact name_of_score? hscore hscore'
  rw [groupScores, Dict.get?_ofList_of_nodup hkeys, List.mem_filterMap]

theorem group?_eq_some_iff {g : String × Entry} {d : String × Dict String Binary64} :
    group? fs output extension g = some d ↔ d.1 = g.1 ∧ ∃ cs, g.2 = .folder cs ∧
      groupScores fs extension (Path.joinText output g.1) (cs.map (·.1)) = d.2 ∧ d.2.size ≠ 0 := by
  obtain ⟨dataType, e⟩ := g
  obtain ⟨key, scores⟩ := d
  rw [group?]
  cases e with
  | file bytes => simp
  | link target => simp
  | folder cs =>
    dsimp only
    split
    · rename_i hempty
      simp only [reduceCtorEq, false_iff]
      rintro ⟨-, _, hcs, hscores, hsize⟩
      obtain rfl := Entry.folder.inj hcs
      exact hsize (hscores ▸ hempty)
    · rename_i hsize
      simp only [Option.some.injEq, Prod.mk.injEq]
      constructor
      · rintro ⟨rfl, rfl⟩
        exact ⟨rfl, cs, rfl, rfl, hsize⟩
      · rintro ⟨rfl, _, hcs, hscores, -⟩
        obtain rfl := Entry.folder.inj hcs
        exact ⟨rfl, hscores⟩

theorem keys_groups_sublist (groups : List (String × Entry)) :
    ((groups.filterMap (group? fs output extension)).map (·.1)).Sublist (groups.map (·.1)) := by
  induction groups with
  | nil => exact List.Sublist.slnil
  | cons g groups ih =>
    cases hg : group? fs output extension g with
    | none =>
      rw [List.filterMap_cons_none hg]
      exact ih.cons _
    | some d =>
      rw [List.filterMap_cons_some hg, List.map_cons, List.map_cons, (group?_eq_some_iff.1 hg).1]
      exact ih.cons_cons _

def entriesOf (groups : List (String × Entry)) : List (String × String) :=
  groups.flatMap fun g => g.2.children.map fun e => (g.1, e.1)

variable {groups : List (String × Entry)} {found : Found (Dict String Binary64)}

theorem mem_entriesOf {dataType name : String} : (dataType, name) ∈ entriesOf groups ↔
    ∃ cs, (dataType, .folder cs) ∈ groups ∧ name ∈ cs.map (·.1) := by
  simp only [entriesOf, List.mem_flatMap, List.mem_map, Prod.mk.injEq]
  constructor
  · rintro ⟨⟨_, e⟩, hg, ⟨_, d⟩, hd, rfl, rfl⟩
    cases e with
    | folder cs => exact ⟨cs, hg, _, hd, rfl⟩
    | file bytes => simp [Entry.children] at hd
    | link target => simp [Entry.children] at hd
  · rintro ⟨cs, hg, e, he, rfl⟩
    exact ⟨_, hg, e, he, rfl, rfl⟩

theorem get?_collect (hlist : fs.list (.ofText output) = .ok groups)
    (hgroups : (groups.map (·.1)).Nodup) (h : collect fs output extension = .ok found)
    {dataType : String} {scores : Dict String Binary64} :
    found.scores.get? dataType = some scores ↔ ∃ cs, (dataType, .folder cs) ∈ groups ∧
      groupScores fs extension (Path.joinText output dataType) (cs.map (·.1)) = scores ∧
      scores.size ≠ 0 := by
  have hscores : found.scores = Dict.ofList (groups.filterMap (group? fs output extension)) := by
    rw [collect, hlist] at h
    rw [← Except.ok.inj h]
    exact scores_foldl scores_addGroup _ _
  rw [hscores, Dict.get?_ofList_of_nodup (hgroups.sublist (keys_groups_sublist groups)),
    List.mem_filterMap]
  constructor
  · rintro ⟨⟨_, e⟩, hg, hmem⟩
    obtain ⟨rfl, cs, rfl, hscores, hsize⟩ := group?_eq_some_iff.1 hmem
    exact ⟨cs, hg, hscores, hsize⟩
  · rintro ⟨cs, hg, hscores, hsize⟩
    exact ⟨_, hg, group?_eq_some_iff.2 ⟨rfl, cs, rfl, hscores, hsize⟩⟩

theorem exists_get?_of_size {d : Dict String Binary64} (h : d.size ≠ 0) :
    ∃ project x, d.get? project = some x := by
  obtain ⟨⟨project, x⟩, hmem⟩ := List.exists_mem_of_length_pos (Nat.pos_of_ne_zero h)
  exact ⟨project, x, Dict.get?_eq_some_iff.2 hmem⟩

theorem get?_collect_entry (hlist : fs.list (.ofText output) = .ok groups)
    (hgroups : (groups.map (·.1)).Nodup) (hnames : ∀ g ∈ groups, (g.2.children.map (·.1)).Nodup)
    (h : collect fs output extension = .ok found) {dataType project : String} {x : Binary64} :
    (found.scores.get? dataType).bind (·.get? project) = some x ↔
      ∃ name, (dataType, name) ∈ entriesOf groups ∧
        score? fs extension (Path.joinText output dataType) name = some (project, x) := by
  rw [Option.bind_eq_some_iff]
  constructor
  · rintro ⟨scores, hscores, hx⟩
    obtain ⟨cs, hg, rfl, -⟩ := (get?_collect hlist hgroups h).1 hscores
    obtain ⟨name, hname, hscore⟩ := (get?_groupScores (hnames _ hg)).1 hx
    exact ⟨name, mem_entriesOf.2 ⟨cs, hg, hname⟩, hscore⟩
  · rintro ⟨name, hmem, hscore⟩
    obtain ⟨cs, hg, hname⟩ := mem_entriesOf.1 hmem
    have hnodup : (cs.map (·.1)).Nodup := hnames _ hg
    have hget := (get?_groupScores hnodup).2 ⟨name, hname, hscore⟩
    refine ⟨_, (get?_collect hlist hgroups h).2 ⟨cs, hg, rfl, fun hempty => ?_⟩, hget⟩
    have hentry := Dict.get?_eq_some_iff.1 hget
    simp [Dict.toList, List.length_eq_zero_iff.1 hempty] at hentry

/-- With a dot in the extension nothing is collected. -/
theorem collect_dot (hdot : '.' ∈ extension.toList) (hlist : fs.list (.ofText output) = .ok groups)
    (hgroups : (groups.map (·.1)).Nodup) (hnames : ∀ g ∈ groups, (g.2.children.map (·.1)).Nodup)
    (h : collect fs output extension = .ok found) : found.scores = Dict.empty := by
  refine Dict.ext_get? fun dataType => ?_
  rw [Dict.get?_empty, Option.eq_none_iff_forall_ne_some]
  intro scores hscores
  obtain ⟨-, -, -, hsize⟩ := (get?_collect hlist hgroups h).1 hscores
  obtain ⟨project, x, hx⟩ := exists_get?_of_size hsize
  obtain ⟨name, -, hscore⟩ := (get?_collect_entry hlist hgroups hnames h).1
    (Option.bind_eq_some_iff.2 ⟨scores, hscores, hx⟩)
  have hname := (score?_eq_some_iff.1 hscore).1
  exact FileName.dot_not_mem_extension (congrArg FileName.extension hname) hdot

theorem nodup_groups {here : List String} (hroot : fs.root.wellNamed = true)
    (hhere : fs.root.at? here = some (.folder groups)) : (groups.map (·.1)).Nodup ∧
      ∀ g ∈ groups, (g.2.children.map (·.1)).Nodup := by
  obtain ⟨hnodup, hentries⟩ :=
    (Entry.wellNamed_folder_iff groups).1 (Entry.wellNamed_at? hroot hhere).2
  exact ⟨hnodup, fun g hg => Entry.nodup_children (hentries g hg).2⟩

theorem mem_entriesOf_iff {here : List String} (hroot : fs.root.wellNamed = true)
    (hhere : fs.root.at? here = some (.folder groups)) {dataType name : String} :
    (dataType, name) ∈ entriesOf groups ↔ fs.root.at? (here ++ [dataType] ++ [name]) ≠ none := by
  have hgroup : ∀ e, fs.root.at? (here ++ [dataType]) = some e ↔ (dataType, e) ∈ groups := by
    intro e
    rw [Entry.at?_snoc, hhere, Option.bind_some, Entry.child?, Entry.children]
    exact Entry.lookup_eq_some_iff (nodup_groups hroot hhere).1 dataType e
  rw [mem_entriesOf]
  constructor
  · rintro ⟨cs, hg, hname⟩
    obtain ⟨⟨_, e⟩, he, rfl⟩ := List.mem_map.1 hname
    have hcs : (cs.map (·.1)).Nodup := (nodup_groups hroot hhere).2 _ hg
    rw [Entry.at?_snoc, (hgroup _).2 hg, Option.bind_some, Entry.child?, Entry.children,
      (Entry.lookup_eq_some_iff hcs _ _).2 he]
    exact Option.some_ne_none _
  · intro hfound
    obtain ⟨cs, hcs⟩ := Entry.folderAt_of_append (List.cons_ne_nil name []) hfound
    obtain ⟨e, he⟩ := Option.ne_none_iff_exists'.1 hfound
    rw [Entry.at?_snoc, hcs, Option.bind_some, Entry.child?, Entry.children] at he
    exact ⟨cs, (hgroup _).1 hcs, List.mem_map.2 ⟨_, Entry.mem_of_lookup he, rfl⟩⟩

section
variable {here : List String} (hroot : fs.root.wellNamed = true)
  (hleads : fs.Leads (.ofText output) here) (hhere : fs.root.at? here = some (.folder groups))
  (hlist : fs.list (.ofText output) = .ok groups)
  (hlinks : ∀ dataType name, FileSystem.NoLink fs.root (here ++ [dataType] ++ [name]))
include hroot hleads hhere hlist hlinks

omit hroot hlist hhere in
theorem score?_child {dataType name project : String} {x : Binary64}
    (hhere : fs.root.FolderAt here) (hfolder : fs.root.FolderAt (here ++ [dataType]))
    (htype : IsEntryName dataType) (hname : IsEntryName name) :
    score? fs extension (Path.joinText output dataType) name = some (project, x) ↔
      ∃ bytes text, fs.root.at? (here ++ [dataType] ++ [name]) = some (.file bytes) ∧
        FileName.ofText name = ⟨project, some extension⟩ ∧
        Utf8.decode? bytes = some text ∧ scoreOf text = .ok x := by
  have hpath : Path.ofText (Path.joinText (Path.joinText output dataType) name) =
      ((Path.ofText output).append [dataType]).append [name] := by
    rw [Path.ofText_joinText _ hname.toIsPiece, Path.ofText_joinText _ htype.toIsPiece]
  have hinner : fs.Leads ((Path.ofText output).append [dataType]) (here ++ [dataType]) :=
    hleads.child hhere htype (FileSystem.noLink_of_folder hfolder)
  have hentry := FileSystem.entry_child hinner hfolder hname (hlinks dataType name)
  rw [score?_eq_some_iff, readScore, FileSystem.isFile, FileSystem.readText, hpath, hentry]
  cases hat : fs.root.at? (here ++ [dataType] ++ [name]) with
  | none => simp
  | some e =>
    cases e with
    | folder cs => simp [Entry.isFile]
    | link target => exact absurd hat (hlinks dataType name target)
    | file bytes =>
      cases hdecode : Utf8.decode? bytes with
      | none => simp [hdecode, bind, Except.bind]
      | some text => simp [hdecode, bind, Except.bind, Entry.isFile]

theorem get?_get?_collect (h : collect fs output extension = .ok found)
    {dataType project : String} {x : Binary64} :
    (found.scores.get? dataType).bind (·.get? project) = some x ↔
      ∃ name bytes text, fs.root.at? (here ++ [dataType] ++ [name]) = some (.file bytes) ∧
        FileName.ofText name = ⟨project, some extension⟩ ∧
        Utf8.decode? bytes = some text ∧ scoreOf text = .ok x := by
  obtain ⟨hgroups, hnames⟩ := nodup_groups hroot hhere
  rw [get?_collect_entry hlist hgroups hnames h]
  refine exists_congr fun name => ?_
  rw [mem_entriesOf_iff hroot hhere]
  have hentry (hfound : fs.root.at? (here ++ [dataType] ++ [name]) ≠ none) :
      fs.root.FolderAt (here ++ [dataType]) ∧ IsEntryName dataType ∧ IsEntryName name :=
    ⟨Entry.folderAt_of_append (List.cons_ne_nil name []) hfound,
      Entry.isEntryName_of_found hroot hfound (by simp),
      Entry.isEntryName_of_found hroot hfound (by simp)⟩
  constructor
  · rintro ⟨hfound, hscore⟩
    obtain ⟨hfolder, htype, hname⟩ := hentry hfound
    exact (score?_child hleads hlinks ⟨_, hhere⟩ hfolder htype hname).1 hscore
  · rintro ⟨bytes, text, hfile, hheld⟩
    have hfound : fs.root.at? (here ++ [dataType] ++ [name]) ≠ none :=
      hfile.symm ▸ Option.some_ne_none _
    obtain ⟨hfolder, htype, hname⟩ := hentry hfound
    exact ⟨hfound, (score?_child hleads hlinks ⟨_, hhere⟩ hfolder htype hname).2
      ⟨bytes, text, hfile, hheld⟩⟩

end

end ScoreTable

end PackageModularity
