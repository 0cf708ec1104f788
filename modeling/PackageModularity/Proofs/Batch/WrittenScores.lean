import PackageModularity.CommandLine.Command
import PackageModularity.Proofs.Batch.CollectedFiles
import PackageModularity.Proofs.Files.ReplacedFile

/-!
Collecting is exact and can be repeated. The table has the number of each file with the extension in
each folder of the output folder, every other such file is told of once, and the file that the table
is written into has no part in it.
-/
namespace PackageModularity

open Entry (FolderAt Within)
open FileSystem (NoLink Replaced Unreached)

namespace ScoreTable

/-- What a file holds is a finite number with or without blanks around it. -/
def HoldsNumber (bytes : List UInt8) (x : Binary64) : Prop :=
  ∃ text, Utf8.decode? bytes = some text ∧ Decimal.read (trimBlanks text) = .ok x ∧
    x.isFinite = true

/-- A file, or a link to one, in a folder of the output folder that has the extension of scores. -/
structure FileOf (fs : FileSystem) (output extension : String) (here : List String)
    (dataType name project : String) (bytes : List UInt8) : Prop where
  folder : fs.root.FolderAt (here ++ [dataType])
  held : fs.HoldsFile (Path.joinText output dataType) (here ++ [dataType]) name bytes
  named : FileName.ofText name = ⟨project, some extension⟩

/-- An entry that is passed over, and why. -/
structure Skipped where
  dataType : String
  name : String
  why : ScoreFault

namespace Skipped

def path (output : String) (s : Skipped) : String :=
  Path.joinText (Path.joinText output s.dataType) s.name

def warning (output : String) (s : Skipped) : String :=
  "Skipping " ++ s.path output ++ ": " ++ s.why.message

end Skipped

/-- What is collected from an output folder: the numbers of its score files, by folder and stem, and
a warning for each of these files without a number. -/
structure Collects (fs : FileSystem) (output extension : String) (here : List String)
    (found : Found (Dict String Binary64)) : Prop where
  score_iff : ∀ dataType project x,
    (found.scores.get? dataType).bind (·.get? project) = some x ↔
      ∃ name bytes, FileOf fs output extension here dataType name project bytes ∧
        HoldsNumber bytes x
  exists_score : ∀ dataType scores, found.scores.get? dataType = some scores →
    ∃ project x, scores.get? project = some x
  name_unique : ∀ dataType project name name' bytes bytes',
    FileOf fs output extension here dataType name project bytes →
    FileOf fs output extension here dataType name' project bytes' → name = name'
  warnings_eq : ∃ skipped : List Skipped, found.warnings = skipped.map (Skipped.warning output) ∧
    (skipped.map fun s => (s.dataType, s.name)).Nodup ∧
    ∀ s, s ∈ skipped ↔ readScore fs (s.path output) = .error s.why ∧ ∃ project bytes,
      FileOf fs output extension here s.dataType s.name project bytes ∧
      ∀ x, ¬ HoldsNumber bytes x

/-! ### What is warned of -/

def skipped? (fs : FileSystem) (output extension : String) (e : String × String) :
    Option Skipped :=
  match project? fs extension (Path.joinText output e.1) e.2 with
  | none => none
  | some _ =>
    match readScore fs (Path.joinText (Path.joinText output e.1) e.2) with
    | .ok _ => none
    | .error why => some ⟨e.1, e.2, why⟩

variable {fs fs' : FileSystem} {output extension : String} {here : List String}

theorem warnings_foldl {α β : Type} {step : Found α → β → Found α} {more : β → List String}
    (hstep : ∀ f x, (step f x).warnings = f.warnings ++ more x) (xs : List β) (f : Found α) :
    (xs.foldl step f).warnings = f.warnings ++ xs.flatMap more := by
  induction xs generalizing f with
  | nil => simp
  | cons x xs ih => rw [List.foldl_cons, ih, hstep, List.flatMap_cons, List.append_assoc]

theorem warnings_addEntry (dataType : String) (f : Found Binary64) (name : String) :
    (addEntry fs extension (Path.joinText output dataType) f name).warnings = f.warnings ++
      ((skipped? fs output extension (dataType, name)).map (Skipped.warning output)).toList := by
  rw [skipped?, addEntry]
  cases project? fs extension (Path.joinText output dataType) name with
  | none => simp
  | some project =>
    dsimp only
    cases readScore fs (Path.joinText (Path.joinText output dataType) name) <;>
      simp [Skipped.warning, Skipped.path]

theorem warnings_addGroup (f : Found (Dict String Binary64)) (g : String × Entry) :
    (addGroup fs output extension f g).warnings = f.warnings ++
      ((g.2.children.map fun e => (g.1, e.1)).filterMap (skipped? fs output extension)).map
        (Skipped.warning output) := by
  rw [addGroup]
  cases g.2 with
  | file bytes => simp [Entry.children]
  | link target => simp [Entry.children]
  | folder cs =>
    have hentries : ((cs.map (·.1)).foldl (addEntry fs extension (Path.joinText output g.1))
        ⟨Dict.empty, []⟩).warnings =
          ((cs.map fun e => (g.1, e.1)).filterMap (skipped? fs output extension)).map
            (Skipped.warning output) := by
      rw [warnings_foldl (warnings_addEntry g.1), List.nil_append, List.flatMap_map,
        ← List.filterMap_eq_flatMap_toList, List.filterMap_map, List.map_filterMap]
      rfl
    simp only [hentries, Entry.children]
    split <;> rfl

variable {groups : List (String × Entry)} {found : Found (Dict String Binary64)}

theorem entry_of_skipped? {e : String × String} {s : Skipped}
    (h : skipped? fs output extension e = some s) : (s.dataType, s.name) = e := by
  simp only [skipped?] at h
  split at h
  · simp at h
  · split at h
    · simp at h
    · rw [← Option.some.inj h]

theorem warnings_collect (hlist : fs.list (.ofText output) = .ok groups)
    (h : collect fs output extension = .ok found) :
    found.warnings = ((entriesOf groups).filterMap (skipped? fs output extension)).map
      (Skipped.warning output) := by
  rw [collect, hlist] at h
  rw [← Except.ok.inj h, warnings_foldl warnings_addGroup, entriesOf, List.filterMap_flatMap,
    List.map_flatMap]
  rfl

/-! ### What is collected -/

theorem readScore_eq_ok_iff {path : String} {bytes : List UInt8} {x : Binary64}
    (hentry : fs.entry (.ofText path) = .ok (.file bytes)) :
    readScore fs path = .ok x ↔ HoldsNumber bytes x := by
  simp only [readScore, FileSystem.readText, hentry, bind, Except.bind, HoldsNumber]
  cases Utf8.decode? bytes with
  | none => simp
  | some text =>
    simp only [scoreOf, Option.some.injEq, exists_eq_left']
    cases Decimal.read (trimBlanks text) with
    | error why => simp
    | ok y =>
      by_cases hfinite : y.isFinite = true
      · simp only [hfinite, if_true, Except.ok.injEq]
        exact ⟨fun h => ⟨h, h ▸ hfinite⟩, And.left⟩
      · simp only [hfinite, if_false, Except.ok.injEq, reduceCtorEq, false_iff]
        rintro ⟨rfl, hy⟩
        exact hfinite hy

section
variable (h : fs.FolderText output here) {dataType name project : String} {bytes : List UInt8}
include h

theorem fileOf_iff (hfound : fs.root.at? (here ++ [dataType] ++ [name]) ≠ none) :
    FileOf fs output extension here dataType name project bytes ↔
      FileName.ofText name = ⟨project, some extension⟩ ∧
        fs.entry (.ofText (Path.joinText (Path.joinText output dataType) name)) =
          .ok (.file bytes) := by
  have hfolder := Entry.folderAt_of_append (List.cons_ne_nil name []) hfound
  rw [FileSystem.entry_eq_file_iff (h.child hfolder).2 hfound]
  exact ⟨fun hfile => ⟨hfile.named, hfile.held⟩, fun hfile => ⟨hfolder, hfile.2, hfile.1⟩⟩

theorem score?_eq_some_iff_fileOf (hfound : fs.root.at? (here ++ [dataType] ++ [name]) ≠ none)
    {x : Binary64} :
    score? fs extension (Path.joinText output dataType) name = some (project, x) ↔
      ∃ bytes, FileOf fs output extension here dataType name project bytes ∧
        HoldsNumber bytes x := by
  rw [score?_eq_some_iff, FileSystem.isFile_eq_true_iff]
  constructor
  · rintro ⟨hnamed, ⟨bytes, hentry⟩, hread⟩
    exact ⟨bytes, (fileOf_iff h hfound).2 ⟨hnamed, hentry⟩, (readScore_eq_ok_iff hentry).1 hread⟩
  · rintro ⟨bytes, hfile, hnumber⟩
    obtain ⟨hnamed, hentry⟩ := (fileOf_iff h hfound).1 hfile
    exact ⟨hnamed, ⟨bytes, hentry⟩, (readScore_eq_ok_iff hentry).2 hnumber⟩

theorem skipped?_eq_some_iff (hfound : fs.root.at? (here ++ [dataType] ++ [name]) ≠ none)
    {s : Skipped} : skipped? fs output extension (dataType, name) = some s ↔
      (s.dataType, s.name) = (dataType, name) ∧ readScore fs (s.path output) = .error s.why ∧
        ∃ project bytes, FileOf fs output extension here dataType name project bytes ∧
          ∀ x, ¬ HoldsNumber bytes x := by
  obtain ⟨g, n, why⟩ := s
  have hproject : ∀ p, project? fs extension (Path.joinText output dataType) name = some p ↔
      ∃ bytes, FileOf fs output extension here dataType name p bytes := by
    intro p
    simp only [fileOf_iff h hfound, exists_and_left, ← FileSystem.isFile_eq_true_iff,
      project?_eq_some_iff]
  rw [skipped?, Skipped.path, Prod.mk.injEq]
  cases hp : project? fs extension (Path.joinText output dataType) name with
  | none =>
    simp only [reduceCtorEq, false_iff]
    rintro ⟨⟨rfl, rfl⟩, -, project, bytes, hfile, -⟩
    simp [(hproject project).2 ⟨bytes, hfile⟩] at hp
  | some p =>
    cases hread : readScore fs (Path.joinText (Path.joinText output dataType) name) with
    | ok y =>
      simp only [reduceCtorEq, false_iff]
      rintro ⟨⟨rfl, rfl⟩, hwhy, -⟩
      simp [hread] at hwhy
    | error w =>
      simp only [Option.some.injEq, Skipped.mk.injEq]
      constructor
      · rintro ⟨rfl, rfl, rfl⟩
        obtain ⟨bytes, hfile⟩ := (hproject p).1 hp
        refine ⟨⟨rfl, rfl⟩, hread, p, bytes, hfile, fun x hx => ?_⟩
        have hread' := (readScore_eq_ok_iff ((fileOf_iff h hfound).1 hfile).2).2 hx
        simp [hread] at hread'
      · rintro ⟨⟨rfl, rfl⟩, hwhy, -⟩
        exact ⟨rfl, rfl, Except.error.inj (hread.symm.trans hwhy)⟩

end

theorem FileOf.name_eq {dataType name name' project : String} {bytes bytes' : List UInt8}
    (h : FileOf fs output extension here dataType name project bytes)
    (h' : FileOf fs output extension here dataType name' project bytes') : name = name' := by
  rw [FileName.eq_append_of_ofText h.named, FileName.eq_append_of_ofText h'.named]

theorem nodup_entriesOf (hgroups : (groups.map (·.1)).Nodup)
    (hnames : ∀ g ∈ groups, (g.2.children.map (·.1)).Nodup) : (entriesOf groups).Nodup := by
  rw [entriesOf, List.nodup_flatMap]
  constructor
  · intro g hg
    have hentries : g.2.children.map (fun e => (g.1, e.1)) =
        (g.2.children.map (·.1)).map (Prod.mk g.1) := by
      rw [List.map_map]
      rfl
    rw [hentries]
    exact (hnames g hg).map (Prod.mk_right_injective g.1)
  · refine (List.pairwise_map.1 hgroups).imp fun hne e he he' => hne ?_
    obtain ⟨c, -, rfl⟩ := List.mem_map.1 he
    obtain ⟨c', -, heq⟩ := List.mem_map.1 he'
    exact (congrArg Prod.fst heq).symm

theorem collects (h : fs.FolderText output here)
    (hcollect : collect fs output extension = .ok found) :
    Collects fs output extension here found := by
  obtain ⟨groups, hhere⟩ := h.folder
  have hlist : fs.list (.ofText output) = .ok groups := by
    simp [FileSystem.list, h.entry hhere, bind, Except.bind]
  obtain ⟨hgroups, hnames⟩ := nodup_groups h.wellNamed hhere
  constructor
  · intro dataType project x
    rw [get?_collect_entry hlist hgroups hnames hcollect]
    refine exists_congr fun name => ?_
    rw [mem_entriesOf_iff h.wellNamed hhere]
    constructor
    · rintro ⟨hfound, hscore⟩
      exact (score?_eq_some_iff_fileOf h hfound).1 hscore
    · rintro ⟨bytes, hfile, hnumber⟩
      have hfound := hfile.held.found
      exact ⟨hfound, (score?_eq_some_iff_fileOf h hfound).2 ⟨bytes, hfile, hnumber⟩⟩
  · intro dataType scores hscores
    obtain ⟨-, -, -, hsize⟩ := (get?_collect hlist hgroups hcollect).1 hscores
    exact exists_get?_of_size hsize
  · exact fun _ _ _ _ _ _ hfile hfile' => hfile.name_eq hfile'
  -- a warning names its entry, so no entry is warned of twice
  · refine ⟨_, warnings_collect hlist hcollect, ?_, fun s => ?_⟩
    · rw [List.map_filterMap]
      refine (nodup_entriesOf hgroups hnames).filterMap fun e e' key hkey hkey' => ?_
      obtain ⟨s, hs, rfl⟩ := Option.map_eq_some_iff.1 hkey
      obtain ⟨s', hs', heq⟩ := Option.map_eq_some_iff.1 hkey'
      rw [← entry_of_skipped? hs, ← entry_of_skipped? hs', heq]
    · rw [List.mem_filterMap]
      constructor
      · rintro ⟨⟨dataType, name⟩, hmem, hs⟩
        have hfound := (mem_entriesOf_iff h.wellNamed hhere).1 hmem
        obtain ⟨heq, hread, hfile⟩ := (skipped?_eq_some_iff h hfound).1 hs
        rw [Prod.mk.injEq] at heq
        obtain ⟨rfl, rfl⟩ := heq
        exact ⟨hread, hfile⟩
      · rintro ⟨hread, project, bytes, hfile, hnone⟩
        have hfound := hfile.held.found
        exact ⟨(s.dataType, s.name), (mem_entriesOf_iff h.wellNamed hhere).2 hfound,
          (skipped?_eq_some_iff h hfound).2 ⟨rfl, hread, project, bytes, hfile, hnone⟩⟩

/-! ### Other trees -/

theorem ext_score {t t' : ScoreTable}
    (ht : ∀ dataType scores, t.get? dataType = some scores → ∃ p x, scores.get? p = some x)
    (ht' : ∀ dataType scores, t'.get? dataType = some scores → ∃ p x, scores.get? p = some x)
    (h : ∀ dataType p x, (t.get? dataType).bind (·.get? p) = some x ↔
      (t'.get? dataType).bind (·.get? p) = some x) : t = t' := by
  refine Dict.ext_get? fun dataType => ?_
  have hget := h dataType
  cases hs : t.get? dataType with
  | none =>
    cases hs' : t'.get? dataType with
    | none => rfl
    | some scores' =>
      obtain ⟨p, x, hx⟩ := ht' dataType scores' hs'
      simpa [hs, hs', hx] using hget p x
  | some scores =>
    cases hs' : t'.get? dataType with
    | none =>
      obtain ⟨p, x, hx⟩ := ht dataType scores hs
      simpa [hs, hs', hx] using hget p x
    | some scores' =>
      refine congrArg some (Dict.ext_get? fun p => Option.ext fun x => ?_)
      simpa [hs, hs'] using hget p x

theorem Collects.scores_congr {found' : Found (Dict String Binary64)}
    (h : Collects fs output extension here found)
    (h' : Collects fs' output extension here found')
    (hsame : ∀ dataType name project bytes,
      FileOf fs output extension here dataType name project bytes ↔
        FileOf fs' output extension here dataType name project bytes) :
    found'.scores = found.scores := by
  refine ext_score h'.exists_score h.exists_score fun dataType project x => ?_
  simp only [h.score_iff, h'.score_iff, hsame]

theorem FileOf.within {dataType name project : String} {bytes : List UInt8}
    (h : FileOf fs output extension here dataType name project bytes)
    (hw : Within fs.root fs'.root) (hworking : fs'.working = fs.working) :
    FileOf fs' output extension here dataType name project bytes :=
  ⟨hw.folder h.folder, h.held.within hw hworking, h.named⟩

/-- A file in the output folder itself is no score file, nor does a link in one of its folders lead
to it if none does at all. -/
theorem FileOf.replaced {n dataType name project : String} {bytes : List UInt8}
    (h : FileOf fs output extension here dataType name project bytes)
    (hfolder : fs.FolderText output here) (hreplaced : Replaced (here ++ [n]) fs fs')
    (hplace : Unreached fs.root (here ++ [n])) :
    FileOf fs' output extension here dataType name project bytes := by
  have hname : IsEntryName name :=
    Entry.isEntryName_of_found hfolder.wellNamed h.held.found (by simp)
  -- a score file has one name more
  have hne : here ++ [dataType] ++ [name] ≠ here ++ [n] := by
    intro heq
    simpa using congrArg List.length heq
  have hleads := (hfolder.child h.folder).2.leads
  exact ⟨hreplaced.thinned.folder h.folder,
    hreplaced.holdsFile hplace hleads hne hname.toIsPiece h.held, h.named⟩

theorem exists_collect (h : fs.FolderText output here) (extension : String) :
    ∃ found, collect fs output extension = .ok found ∧ Collects fs output extension here found := by
  obtain ⟨groups, hhere⟩ := h.folder
  obtain ⟨found, hfound⟩ : ∃ found, collect fs output extension = .ok found := by
    rw [collect, FileSystem.list, h.entry hhere]
    exact ⟨_, rfl⟩
  exact ⟨found, hfound, collects h hfound⟩

theorem write_eq_ok_iff {written : Found (Dict String Binary64)} :
    write fs output extension = .ok (fs', written) ↔
      collect fs output extension = .ok written ∧
        fs.writeText (.ofText (Path.joinText output fileName)) (document written.scores) =
          .ok fs' := by
  simp only [write, bind, Except.bind]
  cases collect fs output extension with
  | error e => simp
  | ok found =>
    dsimp only
    cases hwrite : fs.writeText (.ofText (Path.joinText output fileName)) (document found.scores) with
    | error why =>
      simp only [reduceCtorEq, false_iff, Except.ok.injEq]
      rintro ⟨rfl, hok⟩
      simp [hwrite] at hok
    | ok made =>
      simp only [Except.ok.injEq, Prod.mk.injEq]
      constructor
      · rintro ⟨rfl, rfl⟩
        exact ⟨rfl, hwrite⟩
      · rintro ⟨rfl, hok⟩
        exact ⟨Except.ok.inj (hwrite.symm.trans hok), rfl⟩

/-- A run that writes the table changes one file, and the next run gives the same. -/
structure Repeats (output extension : String) (place : List String) (fs fs' : FileSystem)
    (found : Found (Dict String Binary64)) : Prop where
  replaced : Replaced place fs fs'
  content : fs'.root.at? place = some (.file (Utf8.encode (document found.scores)))
  again : ∃ found', write fs' output extension = .ok (fs', found') ∧
    found'.scores = found.scores

theorem isEntryName_fileName : IsEntryName fileName := by
  decide

theorem repeats_of_write (h : fs.FolderText output here)
    (hlink : NoLink fs.root (here ++ [fileName])) (hplace : Unreached fs.root (here ++ [fileName]))
    (hwrite : write fs output extension = .ok (fs', found)) :
    Repeats output extension (here ++ [fileName]) fs fs' found := by
  obtain ⟨hcollect, htext⟩ := write_eq_ok_iff.1 hwrite
  obtain ⟨hreplaced, h', hat, hsame⟩ :=
    FileSystem.replaced_of_writeText h isEntryName_fileName hlink htext
  obtain ⟨found', hcollect', hcollects'⟩ := exists_collect h' extension
  -- the score files before the write are those after it, in both directions by the same lemma
  have hscores : found'.scores = found.scores :=
    (collects h hcollect).scores_congr hcollects' fun _ _ _ _ =>
      ⟨fun hfile => hfile.replaced h hreplaced hplace,
        fun hfile => hfile.replaced h' hreplaced.symm (hreplaced.unreached hplace)⟩
  refine ⟨hreplaced, hat, found', write_eq_ok_iff.2 ⟨hcollect', ?_⟩, hscores⟩
  rwa [hscores]

theorem exists_write (h : fs.FolderText output here)
    (hplace : Entry.FileOrFree fs.root (here ++ [fileName]))
    (hcollect : collect fs output extension = .ok found) :
    ∃ fs', write fs output extension = .ok (fs', found) := by
  have htext := FileSystem.writeText_child h.leads h.folder isEntryName_fileName hplace.noLink
    (document found.scores)
  rw [← Path.ofText_joinText output isEntryName_fileName.toIsPiece] at htext
  split at htext
  · rename_i cs hcs
    exact absurd ⟨cs, hcs⟩ hplace.not_folderAt
  · exact ⟨_, write_eq_ok_iff.2 ⟨hcollect, htext⟩⟩

theorem perform_of_collect_error {e : CollectError} (he : collect fs output extension = .error e)
    (parse : Parser) {a : Arguments} {c : Config} (hmode : a.mode = .collect)
    (houtput : a.output = output) (hconfig : Config.loadOrDefault fs a.config = .ok c)
    (hextension : c.scoreExtension = extension) :
    Command.perform parse fs a = ⟨fs, 0, [e.message], []⟩ := by
  have hwrite : write fs a.output c.scoreExtension = .error e := by
    rw [houtput, hextension, write, he]
    rfl
  simp only [Command.perform, Command.withLogFolder, hmode, hconfig, hwrite]

/-- Collecting is exact, whatever the order of the entries. Writing the table changes one file, and
collecting once more gives the same if no link leads to it. What cannot be collected is not
written. -/
theorem collect_exact (fs : FileSystem) (output extension : String) :
    (∀ here, fs.FolderText output here → ∃ found, collect fs output extension = .ok found ∧
      Collects fs output extension here found ∧
      (∀ fs', fs'.root.wellNamed = true → fs.root.Reordered fs'.root → fs'.working = fs.working →
        ∃ found', collect fs' output extension = .ok found' ∧ found'.scores = found.scores) ∧
      (NoLink fs.root (here ++ [fileName]) → Unreached fs.root (here ++ [fileName]) →
        ∀ fs' written, write fs output extension = .ok (fs', written) →
          written = found ∧ Repeats output extension (here ++ [fileName]) fs fs' found)) ∧
    ∀ e, collect fs output extension = .error e → write fs output extension = .error e ∧
      ∀ parse a c, a.mode = .collect → a.output = output →
        Config.loadOrDefault fs a.config = .ok c → c.scoreExtension = extension →
          Command.perform parse fs a = ⟨fs, 0, [e.message], []⟩ := by
  constructor
  · intro here h
    obtain ⟨found, hfound, hcollects⟩ := exists_collect h extension
    refine ⟨found, hfound, hcollects, fun fs' hroot hsame hworking => ?_,
      fun hlink hplace fs' written hwrite => ?_⟩
    · obtain ⟨found', hfound', hcollects'⟩ :=
        exists_collect (h.within hroot hsame.1 hworking) extension
      refine ⟨found', hfound', hcollects.scores_congr hcollects' fun _ _ _ _ => ⟨?_, ?_⟩⟩
      · exact fun hfile => hfile.within hsame.1 hworking
      · exact fun hfile => hfile.within hsame.2 hworking.symm
    · obtain rfl := Except.ok.inj (hfound.symm.trans (write_eq_ok_iff.1 hwrite).1)
      exact ⟨rfl, repeats_of_write h hlink hplace hwrite⟩
  · intro e he
    refine ⟨?_, fun parse a c => perform_of_collect_error he parse⟩
    rw [write, he]
    rfl

/-- An output folder with a linked score, a linked folder, a folder named like a score and a file
without a number. -/
def linkedScores : FileSystem where
  root := .folder [
    ("kept", .file (Utf8.encode "-2")),
    ("out", .folder [
      ("other", .link "small"),
      ("small", .folder [
        ("old.txt", .folder []),
        ("gamma.txt", .file (Utf8.encode "gamma")),
        ("v1.2.txt", .file (Utf8.encode " 0.5\n")),
        ("beta.txt", .link "../../kept")])])]
  working := []

theorem folderText_linkedScores : linkedScores.FolderText "out" ["out"] :=
  ⟨by decide +kernel, by decide, ⟨by decide, rfl⟩, _, rfl⟩

theorem unreached_linkedScores : Unreached linkedScores.root ["out", fileName] :=
  FileSystem.unreached_of_links (by decide +kernel)

theorem collect_exact_linkedScores : ∃ found fs', collect linkedScores "out" "txt" = .ok found ∧
    (found.scores.get? "small").bind (·.get? "v1.2") = some (.ofRatio false 1 2) ∧
    (found.scores.get? "small").bind (·.get? "beta") = some (.ofRatio true 2 1) ∧
    write linkedScores "out" "txt" = .ok (fs', found) ∧
    Repeats "out" "txt" ["out", fileName] linkedScores fs' found := by
  have hplace : Entry.FileOrFree linkedScores.root (["out"] ++ [fileName]) := by
    rintro e ⟨⟩
  have hfolder : linkedScores.root.FolderAt (["out"] ++ ["small"]) := ⟨_, rfl⟩
  obtain ⟨found, hfound, hcollects, -, hwrites⟩ :=
    (collect_exact linkedScores "out" "txt").1 ["out"] folderText_linkedScores
  obtain ⟨fs', hwrite⟩ := exists_write folderText_linkedScores hplace hfound
  refine ⟨found, fs', hfound, ?_, ?_, hwrite,
    (hwrites hplace.noLink unreached_linkedScores fs' found hwrite).2⟩
  · exact (hcollects.score_iff _ _ _).2 ⟨"v1.2.txt", _, ⟨hfolder, Or.inl rfl, by decide⟩,
      " 0.5\n", by decide +kernel, by decide +kernel, by decide +kernel⟩
  · exact (hcollects.score_iff _ _ _).2 ⟨"beta.txt", _,
      ⟨hfolder, Or.inr ⟨_, ["kept"], rfl, ⟨by decide, rfl⟩, rfl⟩, by decide⟩,
      "-2", by decide +kernel, by decide +kernel, by decide +kernel⟩

end ScoreTable

end PackageModularity
