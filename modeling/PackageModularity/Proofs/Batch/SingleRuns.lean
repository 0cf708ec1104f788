import PackageModularity.Proofs.Batch.ReportedScores
import PackageModularity.Proofs.CommandLine.ChildArguments

/-!
A batch against single runs. If the arguments of its children can be read and the output lies
outside the projects, a batch leaves the score files that project mode would write on its own, in
whatever order the children run.
-/
namespace PackageModularity

open Entry (FolderAt Within)

namespace Config

variable {fs fs' : FileSystem} (hw : Within fs.root fs'.root) (hworking : fs'.working = fs.working)
  {config : Option String}
include hw hworking

theorem loadOrDefault_eq
    (h : ∀ path, config = some path → ∃ bytes, fs.entry (.ofText path) = .ok (.file bytes)) :
    loadOrDefault fs' config = loadOrDefault fs config := by
  cases config with
  | none => rfl
  | some path =>
    obtain ⟨bytes, hbytes⟩ := h path rfl
    have hbytes' := FileSystem.entry_within hw hworking rfl hbytes
    simp only [loadOrDefault, load, FileSystem.readText_eq hbytes hbytes']

theorem loadOrDefault_within {c : Config} (h : loadOrDefault fs config = .ok c) :
    loadOrDefault fs' config = .ok c := by
  rw [loadOrDefault_eq hw hworking, h]
  rintro path rfl
  cases hread : fs.readText (.ofText path) with
  | error why => simp [loadOrDefault, load, hread] at h
  | ok text => exact FileSystem.entry_of_readText hread

end Config

theorem projectName_of_fileName {fs : FileSystem} {root name : String}
    (h : (Path.ofText root).fileName? = some name) : projectName fs root = name := by
  simp [projectName, h]

theorem Scorer.score_eq (s : Scorer) {fs fs' : FileSystem} {root : String}
    {cs cs' : List (String × Entry)} (h : fs.entry (.ofText root) = .ok (.folder cs))
    (h' : fs'.entry (.ofText root) = .ok (.folder cs'))
    (hfiles : (Entry.folder cs).files = (Entry.folder cs').files) :
    s.score fs root = s.score fs' root := by
  have hdiscover : Registry.discover fs root s.config s.filter =
      Registry.discover fs' root s.config s.filter := by
    simp only [Registry.discover, h, h', Registry.sourceFiles, hfiles]
  simp only [Scorer.score, Scorer.index, ProjectIndex.of, hdiscover]

namespace Scorer

theorem config_of {c : Config} {parse : Parser} {s : Scorer} (h : Scorer.of c parse = .ok s) :
    s.config = c := by
  simp only [Scorer.of, bind, Except.bind] at h
  split at h
  · simp at h
  · rw [← Except.ok.inj h]

variable {b : Batch} {s : Scorer} (hconfig : s.config = b.config) {fs fs' : FileSystem}
  {p : ProjectEntry} (hname : projectName fs p.path = p.name)
  (hmake : fs.makeFolders (.ofText (b.folderOf p)) = .ok fs')
include hconfig hname hmake

theorem system_run : (s.run fs p.path (b.folderOf p)).system =
    match (s.score fs p.path).2 with
    | .error _ => fs
    | .ok m => b.scored p (some (scoreText m)) fs' := by
  unfold run
  cases s.score fs p.path with
  | mk lines scored =>
    cases scored with
    | error e => rfl
    | ok m =>
      have hfile : Path.joinText (b.folderOf p) (s.config.scoreFileName p.name) = b.scoreFile p := by
        rw [hconfig]
        rfl
      simp only [writeScore, hname, hmake, hfile, Batch.scored, ChildProcess.write]
      cases fs'.writeText (.ofText (b.scoreFile p)) (scoreText m) <;> rfl

theorem result_run_iff {file : String} : (s.run fs p.path (b.folderOf p)).result = .ok file ↔
    file = b.config.scoreFileName p.name ∧ ∃ m, (s.score fs p.path).2 = .ok m ∧
      ∃ fs'', fs'.writeText (.ofText (b.scoreFile p)) (scoreText m) = .ok fs'' := by
  unfold run
  cases s.score fs p.path with
  | mk lines scored =>
    cases scored with
    | error e => simp
    | ok m =>
      have hfile : Path.joinText (b.folderOf p) (b.config.scoreFileName p.name) = b.scoreFile p := rfl
      simp only [writeScore, hname, hmake, hconfig, hfile]
      cases hwrite : fs'.writeText (.ofText (b.scoreFile p)) (scoreText m) with
      | error e => simp [hwrite]
      | ok fs'' => simp [hwrite, eq_comm]

omit hconfig hname hmake in
theorem result_run_ne_ok {root output : String} {e : Fault}
    (hmake : fs.makeFolders (.ofText output) = .error e) {file : String} :
    (s.run fs root output).result ≠ .ok file := by
  unfold run
  cases s.score fs root with
  | mk lines scored =>
    cases scored with
    | error e => simp
    | ok m => simp [writeScore, hmake]

end Scorer

namespace Command

variable (parse : Parser)

def scoreOf (fs : FileSystem) (c : Config) (root : String) : Option String :=
  match Scorer.of c parse with
  | .error _ => none
  | .ok s =>
    match (s.score fs root).2 with
    | .error _ => none
    | .ok m => some (Scorer.scoreText m)

variable {parse} in
theorem exists_of_scoreOf {fs : FileSystem} {c : Config} {root score : String}
    (h : scoreOf parse fs c root = some score) : ∃ s m, Scorer.of c parse = .ok s ∧
      (s.score fs root).2 = .ok m ∧ score = Scorer.scoreText m := by
  unfold scoreOf at h
  split at h
  · simp at h
  · rename_i s hof
    split at h
    · simp at h
    · rename_i m hm
      exact ⟨s, m, hof, hm, (Option.some.inj h).symm⟩

def childProgram : Batch.Program := fun _ arguments fs => child parse arguments fs

theorem dataset_eq_run (fs : FileSystem) (c : Config) (a : Arguments) (path : String) :
    dataset parse fs c a path = (batch c a).run (childProgram parse) fs path := rfl

/-- Project mode on a root ends with a text in a file that it has written. -/
def Writes (fs : FileSystem) (c : Config) (root output path text : String) : Prop :=
  ∃ s file, Scorer.of c parse = .ok s ∧ (s.run fs root output).result = .ok file ∧
    Path.joinText output file = path ∧
    (s.run fs root output).system.entry (.ofText path) = .ok (.file (Utf8.encode text))

end Command

namespace Batch

/-- The scores of a batch are in the way of nothing that its children read: they replace no link, lie
in no project, and neither the dataset nor the settings are found through them. -/
structure Layout.Outside (l : Layout) (made : FileSystem) (ps : List ProjectEntry)
    (dataset : String) (config : Option String) (root : List String) : Prop where
  noLink : ∀ p ∈ ps, FileSystem.NoLink made.root (l.place p)
  dataset : l.base.Leads (.ofText dataset) root
  folder : l.base.root.FolderAt root
  apart : ∀ p ∈ ps, ∀ q ∈ ps, ¬ root ++ [p.dataType] ++ [p.name] <+: l.place q ∧
    ¬ root ++ [p.dataType] ++ [p.name] <+: l.site q.dataType
  config : ∀ path, config = some path → ∃ bytes, l.base.entry (.ofText path) = .ok (.file bytes)

variable {b : Batch} {l : Layout} {fs made : FileSystem} {dataset : String}
  {groups : List (String × List ProjectEntry)} {config : Option String} {root : List String}

section
variable (hl : l.Fits b (groups.flatMap (·.2)) made) (hfs : fs.WellFormed)
  (hmake : fs.makeFolders (.ofText b.output) = .ok made)
  (hout : l.Outside made (groups.flatMap (·.2)) dataset config root)
include hl hfs hmake hout

theorem Layout.Outside.entry_project (hlist : Dataset.projects fs dataset = .ok groups)
    {p : ProjectEntry} (hp : p ∈ groups.flatMap (·.2)) :
    ∃ cs cs', fs.entry (.ofText p.path) = .ok (.folder cs) ∧
      (Entry.folder cs).files = (Entry.folder cs').files ∧
      ∀ fs', l.Keeps (groups.flatMap (·.2)) fs' → fs'.entry (.ofText p.path) = .ok (.folder cs') := by
  obtain ⟨here, hleads, hhere, hlisted⟩ := Dataset.listed_of_projects hfs.wellNamed hlist
  obtain ⟨hp', htype, hproject⟩ := hlisted p hp
  have hgrown : fs.Grown made :=
    (FileSystem.leads_of_makeFolders hfs.wellNamed hfs.working (Path.hasPieces_ofText _) hmake).1
  have hpath : Path.ofText p.path = ((Path.ofText dataset).append [p.dataType]).append [p.name] := by
    rw [hp'.path, Path.ofText_joinText _ hp'.name.toIsPiece, Path.ofText_joinText _ hp'.dataType.toIsPiece]
  have hentry : ∀ {fs' : FileSystem}, fs'.Leads (.ofText dataset) here → ∀ {es},
      fs'.root.at? (here ++ [p.dataType] ++ [p.name]) = some (.folder es) →
      fs'.entry (.ofText p.path) = .ok (.folder es) := by
    intro fs' hleads es hes
    have hinner : fs'.root.FolderAt (here ++ [p.dataType]) :=
      Entry.folderAt_of_append (List.cons_ne_nil p.name []) (by rw [hes]; exact Option.some_ne_none _)
    have houter : fs'.root.FolderAt here := by
      obtain ⟨ds, hds⟩ := hinner
      exact Entry.folderAt_of_append (List.cons_ne_nil p.dataType []) (by simp [hds])
    have hproject := (hleads.child houter hp'.dataType (FileSystem.noLink_of_folder hinner)).child
      hinner hp'.name (FileSystem.noLink_of_folder ⟨es, hes⟩)
    rw [hpath]
    exact FileSystem.entry_eq_ok_iff.2 ⟨Path.components_append_ne_nil _ _, _, hproject, hes⟩
  obtain ⟨cs, hcs⟩ := hproject
  obtain ⟨e', he', hfiles, hfolder, -⟩ := hgrown.kept hcs
  obtain ⟨cs', rfl⟩ := FileSystem.isFolder_eq_true_iff.1 hfolder
  -- The dataset leads to the same names in all these trees.
  obtain rfl : root = here := (hl.keeps.leads hout.dataset hout.folder).1.unique
    (hleads.folder_within hhere hgrown.within hgrown.working).1
  have hbase : l.base.root.at? (root ++ [p.dataType] ++ [p.name]) = some (.folder cs') := by
    rcases hl.keeps.folder ⟨cs', he'⟩ with ⟨bs, hbs⟩ | ⟨q, hq, heq⟩
    · have hsame := hl.keeps.apart hbs fun q hq => hout.apart p hp q hq
      rw [he', Option.some.injEq] at hsame
      rw [hbs, ← hsame]
    · exact absurd (heq ▸ List.prefix_rfl) (hout.apart p hp q hq).2
  refine ⟨cs, cs', hentry hleads hcs, hfiles.symm, fun fs' hk => ?_⟩
  exact hentry (hk.leads hout.dataset hout.folder).1
    (hk.apart hbase fun q hq => hout.apart p hp q hq)

omit hl hfs hmake in
theorem Layout.Outside.loadOrDefault (hl : l.Fits b (groups.flatMap (·.2)) made)
    (hgrown : fs.Grown made) {c : Config} (hload : Config.loadOrDefault fs config = .ok c)
    {fs' : FileSystem} (hk : l.Keeps (groups.flatMap (·.2)) fs') :
    Config.loadOrDefault fs' config = .ok c := by
  -- Both the tree at the beginning and the bare tree pass their file on to the tree with the output.
  have hmade := Config.loadOrDefault_within hgrown.within hgrown.working hload
  rw [Config.loadOrDefault_eq hl.keeps.within hl.keeps.working hout.config] at hmade
  rw [Config.loadOrDefault_eq hk.within hk.working hout.config, hmade]

end

end Batch

namespace Command

variable {parse : Parser} {c : Config} {a : Arguments} {l : Batch.Layout} {fs made : FileSystem}
  {dataset : String} {groups : List (String × List ProjectEntry)} {root : List String}

/-- What the child of a project comes to, if it can read its arguments. -/
def childOutcome (parse : Parser) (fs : FileSystem) (c : Config) (a : Arguments)
    (p : ProjectEntry) : Batch.ChildOutcome :=
  if Readable c a p then ⟨[], [], scoreOf parse fs c p.path, .exited 0⟩
  else ⟨[], [], none, .exited 2⟩

theorem fileName_of_listed {p : ProjectEntry} (hp : p.ListedIn dataset) :
    (Path.ofText p.path).fileName? = some p.name := by
  rw [hp.path, Path.fileName?, Path.components_joinText _ hp.name.toIsPiece,
    List.getLast?_concat]

theorem childProgram_eq {p : ProjectEntry} (hp : p.ListedIn dataset)
    (hload : Config.loadOrDefault fs a.config = .ok c)
    (hfolder : fs.makeFolders (.ofText ((batch c a).folderOf p)) = .ok fs) :
    (childProgram parse p ((batch c a).argumentsFor p) fs).system =
        (batch c a).scored p (childOutcome parse fs c a p).score fs ∧
      (childProgram parse p ((batch c a).argumentsFor p) fs).ending =
        (childOutcome parse fs c a p).ending := by
  by_cases hreadable : Readable c a p
  · have hname : projectName fs p.path = p.name := projectName_of_fileName (fileName_of_listed hp)
    simp only [childProgram, child, read_argumentsFor, hreadable, if_true, hload, project,
      childOutcome, scoreOf]
    cases hof : Scorer.of c parse with
    | error e => exact ⟨rfl, rfl⟩
    | ok s =>
      have hsystem := Scorer.system_run (b := batch c a) (Scorer.config_of hof) hname hfolder
      simp only [hsystem]
      cases (s.score fs p.path).2 with
      | error e => exact ⟨rfl, trivial⟩
      | ok m => exact ⟨rfl, trivial⟩
  · simp only [childProgram, child, read_argumentsFor, hreadable, if_false, childOutcome]
    exact ⟨rfl, trivial⟩

variable (hl : l.Fits (batch c a) (groups.flatMap (·.2)) made) (hfs : fs.WellFormed)
  (hmake : fs.makeFolders (.ofText a.output) = .ok made)
  (hout : l.Outside made (groups.flatMap (·.2)) dataset a.config root)
  (hlist : Dataset.projects fs dataset = .ok groups)
include hl hfs hmake hout hlist

theorem behaves_child (hload : Config.loadOrDefault fs a.config = .ok c) :
    l.Behaves (batch c a) (groups.flatMap (·.2)) (childOutcome parse fs c a) (childProgram parse) := by
  intro p hp fs' hk hslot
  obtain ⟨_, -, -, hlisted⟩ := Dataset.listed_of_projects hfs.wellNamed hlist
  have hp' := (hlisted p hp).1
  have hgrown : fs.Grown made :=
    (FileSystem.leads_of_makeFolders hfs.wellNamed hfs.working (Path.hasPieces_ofText _) hmake).1
  obtain ⟨cs, cs', hcs, hfiles, hcs'⟩ := hout.entry_project hl hfs hmake hlist hp
  have hsame : childOutcome parse fs' c a p = childOutcome parse fs c a p := by
    simp only [childOutcome, scoreOf, Scorer.score_eq _ hcs (hcs' fs' hk) hfiles]
  rw [← hsame]
  exact childProgram_eq hp' (hout.loadOrDefault hl hgrown hload hk)
    (hl.makeFolders_there hk hp hslot.folder)

/-- Making the folder for a score at once or after the output folder comes to the same, and it works
unless the folder of the data type can never be there. No link stands at the place of the score. -/
theorem makeFolders_single {p : ProjectEntry} (hp : p ∈ groups.flatMap (·.2)) :
    (l.Refused p.dataType →
        ∃ e, fs.makeFolders (.ofText ((batch c a).folderOf p)) = .error e) ∧
      (¬ l.Refused p.dataType →
        ∃ fs', fs.makeFolders (.ofText ((batch c a).folderOf p)) = .ok fs' ∧
          l.Keeps (groups.flatMap (·.2)) fs' ∧ fs'.root.FolderAt (l.site p.dataType) ∧
          FileSystem.NoLink fs'.root (l.place p)) := by
  obtain ⟨_, -, -, hlisted⟩ := Dataset.listed_of_projects hfs.wellNamed hlist
  have htype := (hlisted p hp).1.dataType
  have hafter : fs.makeFolders (.ofText ((batch c a).folderOf p)) =
      made.makeFolders (.ofText ((batch c a).folderOf p)) := by
    rw [Batch.folderOf, Path.ofText_joinText _ htype.toIsPiece]
    exact FileSystem.makeFolders_after hfs.wellNamed hfs.working (Path.hasPieces_ofText _) htype hmake
  obtain ⟨hrefused, hmade⟩ := hl.makeFolders_site hl.keeps hp
  rw [← hafter] at hrefused hmade
  refine ⟨hrefused, fun h => ?_⟩
  obtain ⟨fs', hfolder, hk, hsite, -⟩ := hmade h
  refine ⟨fs', hfolder, hk, hsite, fun target htarget => ?_⟩
  have hgrown := (FileSystem.leads_of_makeFolders hfs.wellNamed hfs.working
    (Path.hasPieces_ofText _) hfolder).1
  have hgrown' := (FileSystem.leads_of_makeFolders hfs.wellNamed hfs.working
    (Path.hasPieces_ofText _) hmake).1
  exact hout.noLink p hp target (hgrown'.within.other rfl (hgrown.added rfl htarget))

theorem writes_iff {p : ProjectEntry} (hp : p ∈ groups.flatMap (·.2)) {text : String} :
    Writes parse fs c p.path ((batch c a).folderOf p) ((batch c a).scoreFile p) text ↔
      l.ready p = true ∧ (∃ q here n, l.Open (batch c a) p q here n) ∧
        ∃ score, scoreOf parse fs c p.path = some score ∧ Utf8.encode score = Utf8.encode text := by
  obtain ⟨_, -, -, hlisted⟩ := Dataset.listed_of_projects hfs.wellNamed hlist
  have hname : projectName fs p.path = p.name :=
    projectName_of_fileName (fileName_of_listed (hlisted p hp).1)
  obtain ⟨hrefused, hmade⟩ := makeFolders_single hl hfs hmake hout hlist hp
  rw [Batch.Layout.ready_iff]
  -- a data type without a folder has no score in either mode
  by_cases hready : l.Refused p.dataType
  · obtain ⟨e, he⟩ := hrefused hready
    simp only [hready, not_true_eq_false, false_and, iff_false]
    rintro ⟨s, file, -, hresult, -⟩
    exact Scorer.result_run_ne_ok he hresult
  · obtain ⟨fs', hfolder, hk, hsite, hlink⟩ := hmade hready
    have hentry : ∀ s : Scorer, Scorer.of c parse = .ok s → ∀ m,
        (s.score fs p.path).2 = .ok m →
        ((s.run fs p.path ((batch c a).folderOf p)).system.entry
            (.ofText ((batch c a).scoreFile p)) = .ok (.file (Utf8.encode text)) ↔
          (∃ q here n, l.Open (batch c a) p q here n) ∧
            Utf8.encode (Scorer.scoreText m) = Utf8.encode text) := by
      intro s hof m hm
      obtain ⟨hkeeps, hslot, -⟩ := hl.written_slot hk hp hsite (fun _ => hlink) (Scorer.scoreText m)
      rw [Scorer.system_run (b := batch c a) (Scorer.config_of hof) hname hfolder, hm]
      simpa using hl.entry_slot hkeeps hp hslot
    constructor
    · rintro ⟨s, file, hof, hresult, -, hholds⟩
      obtain ⟨-, m, hm, -⟩ := (Scorer.result_run_iff (b := batch c a) (Scorer.config_of hof) hname
        hfolder).1 hresult
      obtain ⟨hopen, htext⟩ := (hentry s hof m hm).1 hholds
      exact ⟨hready, hopen, _, by simp [scoreOf, hof, hm], htext⟩
    · rintro ⟨-, hopen, score, hscore, htext⟩
      obtain ⟨s, m, hof, hm, rfl⟩ := exists_of_scoreOf hscore
      obtain ⟨q, here, n, ho⟩ := id hopen
      exact ⟨s, _, hof, (Scorer.result_run_iff (b := batch c a) (Scorer.config_of hof) hname
        hfolder).2 ⟨rfl, m, hm, _, hl.writeText_open hk hp hsite ho hlink _⟩, rfl,
        (hentry s hof m hm).2 ⟨hopen, htext⟩⟩

theorem exists_writes_iff {p : ProjectEntry} (hp : p ∈ groups.flatMap (·.2)) :
    (Readable c a p ∧ ∃ text,
      Writes parse fs c p.path ((batch c a).folderOf p) ((batch c a).scoreFile p) text) ↔
      l.ready p = true ∧ l.scores (batch c a) (childOutcome parse fs c a) p = true := by
  simp only [writes_iff hl hfs hmake hout hlist hp, Batch.Layout.scores_iff, childOutcome]
  by_cases hreadable : Readable c a p
  · simp only [hreadable, if_true, Ending.error?, true_and]
    constructor
    · rintro ⟨text, hready, hopen, score, hscore, -⟩
      exact ⟨hready, by simp [hscore], hopen⟩
    · rintro ⟨hready, hscore, hopen⟩
      obtain ⟨score, hscore⟩ := Option.ne_none_iff_exists'.1 hscore
      exact ⟨score, hready, hopen, score, hscore, rfl⟩
  · simp [hreadable]

section
variable {x : Batch.Pool}
  (hplaced : x.Placed (batch c a) l (groups.flatMap (·.2)) (childOutcome parse fs c a) fs)
include hplaced

omit hout hlist in
theorem at?_placed {names : List String} {e : Entry} (hfile : e.isFolder = false)
    (hnames : ∀ p ∈ groups.flatMap (·.2), names ≠ l.place p) :
    x.state.system.root.at? names = some e ↔ fs.root.at? names = some e := by
  have hgrown : fs.Grown made :=
    (FileSystem.leads_of_makeFolders hfs.wellNamed hfs.working (Path.hasPieces_ofText _) hmake).1
  rcases hplaced.system with ⟨hsystem, -⟩ | hk
  · rw [hsystem]
  · have hbare : ∀ {fs' : FileSystem}, l.Keeps (groups.flatMap (·.2)) fs' →
        (fs'.root.at? names = some e ↔ l.base.root.at? names = some e) := by
      intro fs' hk'
      refine ⟨fun h => (hk'.file hfile h).resolve_right ?_, hk'.within.other hfile⟩
      rintro ⟨p, hp, heq⟩
      exact hnames p hp heq
    rw [hbare hk, ← hbare hl.keeps]
    exact ⟨hgrown.added hfile, hgrown.within.other hfile⟩

theorem entry_iff_writes (haccounts : x.Accounts (batch c a) (groups.flatMap (·.2)))
    (hslash : '/' ∉ c.scoreExtension.toList)
    (hdone : ∀ p ∈ groups.flatMap (·.2), l.ready p = true →
      p ∈ x.finished.map Batch.Started.project)
    {p : ProjectEntry} (hp : p ∈ groups.flatMap (·.2)) {text : String} :
    x.state.system.entry (.ofText ((batch c a).scoreFile p)) = .ok (.file (Utf8.encode text)) ↔
      Readable c a p ∧
        Writes parse fs c p.path ((batch c a).folderOf p) ((batch c a).scoreFile p) text := by
  obtain ⟨_, -, -, hlisted⟩ := Dataset.listed_of_projects hfs.wellNamed hlist
  rw [writes_iff hl hfs hmake hout hlist hp]
  cases hready : l.ready p with
  | false =>
    have hnone := hplaced.isFile_of_not_ready hl hfs hmake hslash hp
      (hlisted p hp).1.name.toIsPiece hready
    simp only [Bool.false_eq_true, false_and, and_false, iff_false]
    intro hentry
    simp [FileSystem.isFile, hentry, Entry.isFile] at hnone
  | true =>
    obtain ⟨d, hd, rfl⟩ := List.mem_map.1 (hdone p hp hready)
    obtain ⟨-, hk, hslot⟩ := hplaced.finished haccounts hd
    rw [hl.entry_slot hk hp hslot, childOutcome]
    by_cases hreadable : Readable c a d.project <;> simp [hreadable]

theorem isFile_iff_writes (haccounts : x.Accounts (batch c a) (groups.flatMap (·.2)))
    (hslash : '/' ∉ c.scoreExtension.toList)
    (hdone : ∀ p ∈ groups.flatMap (·.2), l.ready p = true →
      p ∈ x.finished.map Batch.Started.project)
    {p : ProjectEntry} (hp : p ∈ groups.flatMap (·.2)) :
    x.state.system.isFile (.ofText ((batch c a).scoreFile p)) = true ↔ Readable c a p ∧ ∃ text,
      Writes parse fs c p.path ((batch c a).folderOf p) ((batch c a).scoreFile p) text := by
  obtain ⟨_, -, -, hlisted⟩ := Dataset.listed_of_projects hfs.wellNamed hlist
  rw [exists_writes_iff hl hfs hmake hout hlist hp]
  cases hready : l.ready p with
  | false =>
    simp [hplaced.isFile_of_not_ready hl hfs hmake hslash hp (hlisted p hp).1.name.toIsPiece hready]
  | true =>
    obtain ⟨d, hd, rfl⟩ := List.mem_map.1 (hdone p hp hready)
    obtain ⟨-, hk, hslot⟩ := hplaced.finished haccounts hd
    rw [hl.isFile_slot hk hp hslot, Batch.Layout.scores_iff, childOutcome]
    by_cases hreadable : Readable c a d.project <;> simp [hreadable, Ending.error?]

end

end Command

namespace Command

variable {parse : Parser} {c : Config} {a : Arguments} {l : Batch.Layout} {fs : FileSystem}
  {dataset : String} {groups : List (String × List ProjectEntry)} {root : List String}

/-- Whichever way the children of a batch are scheduled, it scores the projects that project mode
would score on its own and leaves the same score files, and no score file of any other project. The
rest of the files stays as it is. Only a child that takes a path for an option writes nothing. -/
theorem batch_writes_as_project (hfs : fs.WellFormed)
    (hlist : Dataset.projects fs dataset = .ok groups) (hslash : '/' ∉ c.scoreExtension.toList)
    (hload : Config.loadOrDefault fs a.config = .ok c)
    (hplaces : ∀ made, fs.makeFolders (.ofText a.output) = .ok made →
      l.Fits (batch c a) (groups.flatMap (·.2)) made ∧
        l.Outside made (groups.flatMap (·.2)) dataset a.config root)
    {s : Batch.State} (hs : s.system = fs) {x : Batch.Pool}
    (hrun : Batch.Pool.Run (batch c a) (childProgram parse)
      (.start (batch c a) s (groups.flatMap (·.2))) x) (hx : x.Complete) :
    (∀ p ∈ groups.flatMap (·.2),
      (∀ text, x.state.system.entry (.ofText ((batch c a).scoreFile p)) =
          .ok (.file (Utf8.encode text)) ↔ Readable c a p ∧
        Writes parse fs c p.path ((batch c a).folderOf p) ((batch c a).scoreFile p) text) ∧
      (x.state.system.isFile (.ofText ((batch c a).scoreFile p)) = true ↔ Readable c a p ∧ ∃ text,
        Writes parse fs c p.path ((batch c a).folderOf p) ((batch c a).scoreFile p) text) ∧
      (p.id ∈ x.report.succeeded ↔ Readable c a p ∧ ∃ text,
        Writes parse fs c p.path ((batch c a).folderOf p) ((batch c a).scoreFile p) text) ∧
      (p.id ∈ x.report.failed ↔ ¬ (Readable c a p ∧ ∃ text,
        Writes parse fs c p.path ((batch c a).folderOf p) ((batch c a).scoreFile p) text))) ∧
    ∀ names e, e.isFolder = false → (∀ p ∈ groups.flatMap (·.2), names ≠ l.place p) →
      (x.state.system.root.at? names = some e ↔ fs.root.at? names = some e) := by
  obtain ⟨_, -, -, hlisted⟩ := Dataset.listed_of_projects hfs.wellNamed hlist
  have hps := Dataset.nodup_projects hfs.wellNamed hlist
  have hids := Dataset.nodup_ids hfs.wellNamed hlist
  have hfailed : ∀ p ∈ groups.flatMap (·.2), p.id ∈ x.report.failed ↔ p.id ∉ x.report.succeeded :=
    fun p hp => Batch.Pool.mem_failed_iff (Batch.Pool.report_perm hrun hx) hids hp
  -- without an output folder no child is started, and project mode cannot write either
  cases hmake : fs.makeFolders (.ofText a.output) with
  | error e =>
    have hmake' : fs.makeFolders (.ofText (batch c a).output) = .error e := hmake
    obtain ⟨hsystem, -, -, -, -, hsucceeded, -⟩ :=
      Batch.Pool.none_started hmake' (fun p hp => (hlisted p hp).1.dataType) hs hrun
    refine ⟨fun p hp => ?_, fun names e _ _ => by rw [hsystem]⟩
    have hp' := (hlisted p hp).1
    obtain ⟨e, he⟩ := Batch.makeFolders_folderOf (b := batch c a) hmake hp'.dataType
    have hnever : ∀ text, ¬ Writes parse fs c p.path ((batch c a).folderOf p)
        ((batch c a).scoreFile p) text := by
      rintro text ⟨s, file, -, hresult, -⟩
      exact Scorer.result_run_ne_ok he hresult
    have hnone : fs.isFile (.ofText ((batch c a).scoreFile p)) = false :=
      Batch.isFile_of_refused hslash hp'.dataType.toIsPiece hp'.name.toIsPiece he
    have hentry : ∀ bytes, fs.entry (.ofText ((batch c a).scoreFile p)) ≠ .ok (.file bytes) := by
      intro bytes hentry
      simp [FileSystem.isFile, hentry, Entry.isFile] at hnone
    simp [hfailed p hp, hsucceeded, hsystem, hnone, hnever, hentry]
  | ok made =>
    obtain ⟨hl, hout⟩ := hplaces made hmake
    obtain ⟨hplaced, hreport, hdone⟩ := Batch.Pool.complete_of_run hl hfs hmake
      (behaves_child hl hfs hmake hout hlist hload) hps hs hrun hx
    have haccounts := Batch.Pool.accounts_of_run hrun
    have hsucceeded : ∀ p ∈ groups.flatMap (·.2), p.id ∈ x.report.succeeded ↔
        Readable c a p ∧ ∃ text,
          Writes parse fs c p.path ((batch c a).folderOf p) ((batch c a).scoreFile p) text := by
      intro p hp
      rw [hreport, Batch.Pool.mem_reportOf hids hp]
      exact (exists_writes_iff hl hfs hmake hout hlist hp).symm
    refine ⟨fun p hp => ⟨fun text => ?_, ?_, hsucceeded p hp, ?_⟩, fun names e hfile hnames => ?_⟩
    · exact entry_iff_writes hl hfs hmake hout hlist hplaced haccounts hslash hdone hp
    · exact isFile_iff_writes hl hfs hmake hout hlist hplaced haccounts hslash hdone hp
    · rw [hfailed p hp, hsucceeded p hp]
    · exact at?_placed hl hfs hmake hplaced hfile hnames

end Command

/-! ### Where the conditions hold, and where they do not -/

namespace Batch

/-- The scores are in the way of nothing if there are no links at their places, none of these places
lies in a project and none is that of the settings. -/
theorem Layout.exists_outside {b : Batch} {made : FileSystem} {ps : List ProjectEntry}
    {dataset : String} {config : Option String} {output root : List String}
    (hmade : made.root.wellNamed = true) (hleads : made.Leads (.ofText b.output) output)
    (hfolder : made.root.FolderAt output) (hslash : '/' ∉ b.config.scoreExtension.toList)
    (hlisted : ∀ p ∈ ps, p.ListedIn dataset)
    (hlinks : ∀ p ∈ ps, FileSystem.NoLink made.root (output ++ [p.dataType]) ∧
      FileSystem.NoLink made.root (output ++ [p.dataType] ++ [b.config.scoreFileName p.name]))
    (hdataset : made.Leads (.ofText dataset) root) (hroot : made.root.FolderAt root)
    (hapart : ∀ p ∈ ps, ∀ q ∈ ps, ¬ root ++ [p.dataType] ++ [p.name] <+:
      output ++ [q.dataType] ++ [b.config.scoreFileName q.name])
    (hconfig : ∀ path, config = some path → ∃ names bytes,
      made.locate (.ofText path) = .ok names ∧ made.root.at? names = some (.file bytes) ∧
        ∀ p ∈ ps, names ≠ output ++ [p.dataType] ++ [b.config.scoreFileName p.name]) :
    ∃ l : Layout, l.Fits b ps made ∧ l.Outside made ps dataset config root := by
  obtain ⟨base, hfits, hthinned⟩ := exists_fits_plain hmade hleads hfolder hslash hlisted hlinks
  have hworking : base.working = made.working := hfits.keeps.working.symm
  have hroot' := hthinned.folder hroot
  have hdataset' : base.Leads (.ofText dataset) root :=
    hdataset.thinned hthinned hworking (FileSystem.noLink_of_folder hroot')
  refine ⟨_, hfits, fun p hp => (hlinks p hp).2, hdataset', hroot', fun p hp q hq => ?_, ?_⟩
  · exact ⟨hapart p hp q hq, fun hbelow => hapart p hp q hq (hbelow.trans (List.prefix_append _ _))⟩
  · intro path hpath
    obtain ⟨names, bytes, hlocate, hbytes, hnames⟩ := hconfig path hpath
    have hbase : base.root.at? names = some (.file bytes) := by
      refine (hfits.keeps.file rfl hbytes).resolve_right ?_
      rintro ⟨p, hp, heq⟩
      exact hnames p hp heq
    have hleads : base.Leads (.ofText path) names :=
      (FileSystem.leads_of_locate hlocate).thinned hthinned hworking
        (FileSystem.noLink_of_file hbase)
    refine ⟨bytes, FileSystem.entry_eq_ok_iff.2 ⟨fun hnil => ?_, names, hleads, hbase⟩⟩
    simp [FileSystem.locate, hnil] at hlocate

end Batch

namespace Command

def subclassText : String := "package x; import y.B; class A extends B {}"

def subclassTree : SyntaxTree :=
  .node .other .none (some subclassText) [
    .node .packageDeclaration .none (some "package x;") [.node .identifier .none (some "x") []],
    .node .importDeclaration .none (some "import y.B;") [
      .node .scopedIdentifier .none (some "y.B") [
        .node .identifier .none (some "y") [], .node .identifier .name (some "B") []]],
    .node .typeDeclaration .none (some "class A extends B {}") [
      .node .identifier .name (some "A") [],
      .node .superclass .none (some "extends B") [.node .typeIdentifier .none (some "B") []],
      .node .other .body (some "{}") []]]

def subclassParser : Parser := fun text =>
  if text = subclassText then some subclassTree
  else if text = "" then some (.node .other .none (some "") []) else none

def subclassProject : List (String × Entry) :=
  [("x", .folder [("A.java", .file (Utf8.encode subclassText))]),
    ("y", .folder [("B.java", .file [])])]

theorem exists_filter : ∃ f, SourceFilter.ofConfig Config.default = .ok f ∧
    Registry.sourceFiles f (.folder subclassProject) = (Entry.folder subclassProject).files := by
  have h : (match SourceFilter.ofConfig Config.default with
      | .ok f => decide (((Entry.folder subclassProject).files.filter
          fun e => f.accepts (Path.ofNames e.1)) = (Entry.folder subclassProject).files)
      | .error _ => false) = true := by decide +kernel
  split at h
  · rename_i f hf
    refine ⟨f, hf, ?_⟩
    rw [Registry.sourceFiles, of_decide_eq_true h]
    exact List.mergeSort_of_pairwise (by decide +kernel)
  · simp at h

theorem score_subclass {fs : FileSystem}
    (h : fs.entry (.ofText "data/t/a") = .ok (.folder subclassProject)) :
    ∃ s, Scorer.of Config.default subclassParser = .ok s ∧
      (s.score fs "data/t/a").2 = .ok ⟨1, 0, 2, 2⟩ ∧
      ∀ root, fs.entry (.ofText root) = .ok (.folder []) → ∀ m, (s.score fs root).2 ≠ .ok m := by
  obtain ⟨f, hf, hfiles⟩ := exists_filter
  refine ⟨⟨Config.default, f, subclassParser⟩, ?_, ?_, fun root hroot m => ?_⟩
  · simp [Scorer.of, hf, bind, Except.bind]
  · have hinput : Registry.isStandardInput (.ofText "data/t/a") = false := by decide
    simp only [Scorer.score, Scorer.index, ProjectIndex.of, Registry.discover, h, hinput, hfiles,
      bind, Except.bind]
    decide +kernel
  · have hnone : Registry.sourceFiles f (.folder []) = [] := by
      simp [Registry.sourceFiles, Entry.files, Entry.filesOf]
    simp only [Scorer.score, Scorer.index, ProjectIndex.of, Registry.discover, hroot, hnone,
      ite_self, bind, Except.bind]
    intro h
    cases h

theorem writes_subclass {fs fs' fs'' : FileSystem} {output : String}
    (h : fs.entry (.ofText "data/t/a") = .ok (.folder subclassProject))
    (hmake : fs.makeFolders (.ofText output) = .ok fs')
    (hwrite : fs'.writeText (.ofText (Path.joinText output "a.txt")) "2" = .ok fs'')
    (hentry : fs''.entry (.ofText (Path.joinText output "a.txt")) =
      .ok (.file (Utf8.encode "2"))) :
    Writes subclassParser fs Config.default "data/t/a" output (Path.joinText output "a.txt") "2" := by
  obtain ⟨s, hof, hm, -⟩ := score_subclass h
  have htext : Scorer.scoreText ⟨1, 0, 2, 2⟩ = "2" := by decide +kernel
  have hname : projectName fs "data/t/a" = "a" := projectName_of_fileName (by decide)
  have hfile : s.config.scoreFileName "a" = "a.txt" := by
    rw [Scorer.config_of hof]
    decide
  have hrun : (s.run fs "data/t/a" output).system = fs'' ∧
      (s.run fs "data/t/a" output).result = .ok "a.txt" := by
    unfold Scorer.run
    simp [hm, hname, Scorer.writeScore, hmake, hfile, htext, hwrite]
  exact ⟨s, _, hof, hrun.2, rfl, hrun.1 ▸ hentry⟩

def twoWorkerArguments (output : String) : Arguments :=
  ⟨.dataset "data", output, "./logs", 2, none, false⟩

theorem exists_outside_twoProjects {first old : List (String × Entry)} {c : Config}
    {output : String} {names : List String}
    (hroot : (Batch.twoProjects first old).root.wellNamed = true)
    (houtput : (Batch.twoProjects first old).Leads (.ofText output) ("out" :: names))
    (hfolder : (Batch.twoProjects first old).root.FolderAt ("out" :: names))
    (hslash : '/' ∉ c.scoreExtension.toList)
    (hlinks : ∀ p ∈ Batch.listedTwo.flatMap (·.2),
      FileSystem.NoLink (Batch.twoProjects first old).root ("out" :: names ++ [p.dataType]) ∧
      FileSystem.NoLink (Batch.twoProjects first old).root
        ("out" :: names ++ [p.dataType] ++ [c.scoreFileName p.name])) :
    ∃ l : Batch.Layout,
      l.Fits (batch c (twoWorkerArguments output)) (Batch.listedTwo.flatMap (·.2))
        (Batch.twoProjects first old) ∧
      l.Outside (Batch.twoProjects first old) (Batch.listedTwo.flatMap (·.2)) "data" none
        ["data"] := by
  obtain ⟨_, -, -, hlisted⟩ :=
    Dataset.listed_of_projects hroot (Batch.projects_twoProjects first old)
  have hdataset : (Batch.twoProjects first old).Leads (.ofText "data") ["data"] := ⟨rfl, rfl⟩
  have hapart : ∀ p ∈ Batch.listedTwo.flatMap (·.2), ∀ q ∈ Batch.listedTwo.flatMap (·.2),
      ¬ ["data"] ++ [p.dataType] ++ [p.name] <+:
        "out" :: names ++ [q.dataType] ++ [c.scoreFileName q.name] := by
    intro p _ q _ hbelow
    simpa using (List.cons_prefix_cons.1 hbelow).1
  exact Batch.Layout.exists_outside hroot houtput hfolder hslash
    (fun p hp => (hlisted p hp).1) hlinks hdataset ⟨_, rfl⟩ hapart (by simp)

def oneScorable : FileSystem := Batch.twoProjects subclassProject [("b.txt", .file [])]

/-- A batch scores the first project alone, and the old score of the second one is gone. -/
theorem batch_writes_oneScorable : ∃ x,
    Batch.Pool.Run (batch Config.default (twoWorkerArguments "out")) (childProgram subclassParser)
      (.start (batch Config.default (twoWorkerArguments "out")) ⟨oneScorable, []⟩
        (Batch.listedTwo.flatMap (·.2))) x ∧
    x.Complete ∧ "t/a" ∈ x.report.succeeded ∧
    x.state.system.entry (.ofText "out/t/a.txt") = .ok (.file (Utf8.encode "2")) := by
  have hfs : oneScorable.WellFormed := ⟨by decide +kernel, _, rfl⟩
  have houtput : oneScorable.Leads (.ofText "out") ["out"] := ⟨rfl, rfl⟩
  obtain ⟨l, hl, hout⟩ := exists_outside_twoProjects (c := Config.default) hfs.wellNamed houtput
    ⟨_, rfl⟩ (by decide) fun p hp => by
      rcases Batch.listedTwo_cases p hp with rfl | rfl <;>
        exact ⟨fun _ h => (nomatch h), fun _ h => nomatch h⟩
  have hplaces : ∀ made, oneScorable.makeFolders (.ofText "out") = .ok made →
      l.Fits (batch Config.default (twoWorkerArguments "out")) (Batch.listedTwo.flatMap (·.2)) made ∧
      l.Outside made (Batch.listedTwo.flatMap (·.2)) "data" none ["data"] := by
    intro made hmake
    obtain rfl := Except.ok.inj hmake
    exact ⟨hl, hout⟩
  obtain ⟨x, hrun, hx, -⟩ := Batch.Pool.run_runProjects
    (batch Config.default (twoWorkerArguments "out")) (childProgram subclassParser)
    ⟨oneScorable, []⟩ (Batch.listedTwo.flatMap (·.2))
  have hlist : Dataset.projects oneScorable "data" = .ok Batch.listedTwo :=
    Batch.projects_twoProjects subclassProject _
  obtain ⟨hprojects, -⟩ := batch_writes_as_project (c := Config.default)
    (a := twoWorkerArguments "out") hfs hlist (by decide) rfl hplaces rfl hrun hx
  obtain ⟨hentry, -, hsucceeded, -⟩ := hprojects ⟨"t", "a", "data/t/a"⟩ (by decide)
  have hwrites : Writes subclassParser oneScorable Config.default "data/t/a" "out/t" "out/t/a.txt"
      "2" := writes_subclass rfl rfl rfl rfl
  have hreadable : Readable Config.default (twoWorkerArguments "out") ⟨"t", "a", "data/t/a"⟩ :=
    readable_of_head _ _ _ "data" (by decide) (by decide) (by decide) (by decide)
      (by simp [twoWorkerArguments]) (by decide) (by decide) (by decide)
  exact ⟨x, hrun, hx, hsucceeded.2 ⟨hreadable, _, hwrites⟩, (hentry "2").2 ⟨hreadable, hwrites⟩⟩

/-- Children take an output path that begins with a hyphen for an option, so that nothing is scored,
while project mode writes there. -/
theorem batch_writes_nothing_of_hyphen :
    Writes subclassParser (Batch.twoProjects subclassProject []) Config.default "data/t/a" "-out/t"
      "-out/t/a.txt" "2" ∧
    (dataset subclassParser (Batch.twoProjects subclassProject []) Config.default
      (twoWorkerArguments "-out") "data").result = .ok ⟨[], ["t/a", "t/b"]⟩ ∧
    (dataset subclassParser (Batch.twoProjects subclassProject []) Config.default
      (twoWorkerArguments "-out") "data").system.isFile (.ofText "-out/t/a.txt") = false := by
  refine ⟨writes_subclass rfl rfl rfl rfl, ?_⟩
  rw [dataset_eq_run, Batch.run, Batch.projects_twoProjects]
  exact ⟨by decide +kernel, by decide +kernel⟩

end Command

end PackageModularity
