import PackageModularity.Proofs.Batch.CollectedFiles
import PackageModularity.Proofs.Batch.ObservedOutcomes
import PackageModularity.Proofs.Batch.SingleRuns
import PackageModularity.Proofs.Coupling.ListScore
import PackageModularity.Proofs.Number.WrittenNumber
import PackageModularity.Proofs.Text.EncodedText

/-!
The way of a score through its file. What a batch leaves in an empty output folder is collected from
there as the scores that its children came to, if the extension of the files has no dot.
-/
namespace PackageModularity

open Entry (FolderAt)

theorem ScoreTable.scoreOf_scoreText {m : Modularity} (hfinite : m.q.isFinite = true)
    (hread : Decimal.read (Scorer.scoreText m) = .ok m.q) :
    Utf8.decode? (Utf8.encode (Scorer.scoreText m)) = some (Scorer.scoreText m) ∧
      ScoreTable.scoreOf (Scorer.scoreText m) = .ok m.q := by
  have hvisible := Layout.isVisible_write m.q
  refine ⟨Utf8.decode?_encode _, ?_⟩
  have htrim : trimBlanks (Scorer.scoreText m) = Scorer.scoreText m :=
    trimBlanks_of_isVisible hvisible
  simp only [ScoreTable.scoreOf, htrim, hread, hfinite, if_true]

namespace Batch.Layout

variable {b : Batch} {made : FileSystem} {output : List String} {ps : List ProjectEntry}
  {dataset : String} (hmade : made.root.wellNamed = true)
  (hleads : made.Leads (.ofText b.output) output)
  (hempty : made.root.at? output = some (.folder []))
include hempty

theorem at?_empty (n : String) (more : List String) : made.root.at? (output ++ n :: more) = none := by
  rw [Entry.at?_append, hempty]
  rfl

theorem ready_empty (p : ProjectEntry) : (plain b made output).ready p = true := by
  rw [ready_iff]
  rintro ⟨e, he, -⟩
  have habsent : made.root.at? (output ++ [p.dataType]) = none := at?_empty hempty _ _
  simp [plain, habsent] at he

section
variable (hslash : '/' ∉ b.config.scoreExtension.toList)
  (hlisted : ∀ p ∈ ps, p.ListedIn dataset)
include hslash hlisted

theorem open_empty (hnul : '\x00' ∉ b.config.scoreExtension.toList) {p : ProjectEntry}
    (hp : p ∈ ps) : (plain b made output).Open b p (.ofText (b.folderOf p))
      (output ++ [p.dataType]) (b.config.scoreFileName p.name) where
  path := path_scoreFile hslash (hlisted p hp).name.toIsPiece
  name := isEntryName_scoreFileName hslash hnul (hlisted p hp).name
  place := rfl
  absent := by
    have habsent := at?_empty hempty p.dataType [b.config.scoreFileName p.name]
    rwa [List.append_cons] at habsent
  folder := Or.inl ⟨rfl, rfl⟩

theorem at?_scores (hnul : '\x00' ∉ b.config.scoreExtension.toList) {fs : FileSystem}
    (hk : (plain b made output).Keeps ps fs) {score : ProjectEntry → Option String}
    (hslots : ∀ p ∈ ps, (plain b made output).Slot b p (score p) fs) {dataType name : String}
    {e : Entry} : fs.root.at? (output ++ [dataType] ++ [name]) = some e ↔
      ∃ p ∈ ps, p.dataType = dataType ∧ b.config.scoreFileName p.name = name ∧
        ∃ text, score p = some text ∧ e = .file (Utf8.encode text) := by
  have hcontent : ∀ p ∈ ps, fs.root.at?
      (output ++ [p.dataType] ++ [b.config.scoreFileName p.name]) =
        (score p).map fun text => .file (Utf8.encode text) := fun p hp =>
    (hslots p hp).content _ _ _ (open_empty hempty hslash hlisted hnul hp)
  have habsent : made.root.at? (output ++ [dataType] ++ [name]) = none := by
    rw [List.append_assoc]
    exact at?_empty hempty _ _
  constructor
  · intro h
    have hfile : e.isFolder = false := by
      by_contra hfolder
      obtain ⟨cs, rfl⟩ := FileSystem.isFolder_eq_true_iff.1 (by simpa using hfolder)
      rcases hk.folder ⟨cs, h⟩ with ⟨ds, hds⟩ | ⟨p, hp, heq⟩
      · exact absurd (hds.symm.trans habsent) (Option.some_ne_none _)
      · have hlength := congrArg List.length heq
        simp [plain] at hlength
    rcases hk.file hfile h with hbase | ⟨p, hp, heq⟩
    · exact absurd (hbase.symm.trans habsent) (Option.some_ne_none _)
    · obtain ⟨hsite, hname⟩ := List.append_inj' heq rfl
      obtain ⟨-, htype⟩ := List.append_inj' hsite rfl
      obtain rfl : dataType = p.dataType := by simpa using htype
      obtain rfl : name = b.config.scoreFileName p.name := by simpa using hname
      rw [hcontent p hp] at h
      obtain ⟨text, hscore, rfl⟩ := Option.map_eq_some_iff.1 h
      exact ⟨p, hp, rfl, rfl, text, hscore, rfl⟩
  · rintro ⟨p, hp, rfl, rfl, text, hscore, rfl⟩
    rw [hcontent p hp, hscore]
    rfl

include hleads

theorem exists_collect (hnul : '\x00' ∉ b.config.scoreExtension.toList)
    (hcomponents : (Path.ofText b.output).components ≠ []) {fs : FileSystem}
    (hk : (plain b made output).Keeps ps fs) {score : ProjectEntry → Option String}
    (hslots : ∀ p ∈ ps, (plain b made output).Slot b p (score p) fs)
    (hread : ∀ p ∈ ps, ∀ text, score p = some text →
      Utf8.decode? (Utf8.encode text) = some text) :
    ∃ found, ScoreTable.collect fs b.output b.config.scoreExtension = .ok found ∧
      ('.' ∈ b.config.scoreExtension.toList → found.scores = Dict.empty) ∧
      ('.' ∉ b.config.scoreExtension.toList →
        (∀ dataType scores, found.scores.get? dataType = some scores →
          ∃ project q, scores.get? project = some q) ∧
        ∀ dataType project q, (found.scores.get? dataType).bind (·.get? project) = some q ↔
          ∃ p ∈ ps, p.dataType = dataType ∧ p.name = project ∧
            ∃ text, score p = some text ∧ ScoreTable.scoreOf text = .ok q) := by
  obtain ⟨hleads', groups, hgroups⟩ := hk.leads hleads ⟨_, hempty⟩
  have hlist : fs.list (.ofText b.output) = .ok groups := by
    have hentry := FileSystem.entry_eq_ok_iff.2 ⟨hcomponents, output, hleads', hgroups⟩
    simp [FileSystem.list, hentry, bind, Except.bind]
  have hroot := hk.wellNamed
  have hnames := (Entry.wellNamed_at? hroot hgroups).2
  have hat := fun dataType name e =>
    @at?_scores _ _ _ _ _ hempty hslash hlisted hnul _ hk _ hslots dataType name e
  have hlinks : ∀ dataType name, FileSystem.NoLink fs.root (output ++ [dataType] ++ [name]) := by
    intro dataType name target htarget
    obtain ⟨p, -, -, -, text, -, hfile⟩ := (hat _ _ _).1 htarget
    simp at hfile
  obtain ⟨found, hfound⟩ : ∃ found,
      ScoreTable.collect fs b.output b.config.scoreExtension = .ok found := by
    rw [ScoreTable.collect, hlist]
    exact ⟨_, rfl⟩
  refine ⟨found, hfound, fun hdot => ?_, fun hdot => ⟨fun dataType scores hscores => ?_, ?_⟩⟩
  · refine ScoreTable.collect_dot hdot hlist (Entry.nodup_children hnames) (fun g hg => ?_) hfound
    exact Entry.nodup_children (((Entry.wellNamed_folder_iff groups).1 hnames).2 g hg).2
  · obtain ⟨-, -, -, hsize⟩ :=
      (ScoreTable.get?_collect hlist (Entry.nodup_children hnames) hfound).1 hscores
    exact ScoreTable.exists_get?_of_size hsize
  · intro dataType project q
    rw [ScoreTable.get?_get?_collect hroot hleads' hgroups hlist hlinks hfound]
    constructor
    · rintro ⟨name, bytes, text, hfile, hname, hdecode, hq⟩
      obtain ⟨p, hp, htype, rfl, text', hscore, hbytes⟩ := (hat _ _ _).1 hfile
      obtain rfl := Entry.file.inj hbytes
      rw [hread p hp text' hscore, Option.some.injEq] at hdecode
      have hsplit := FileName.ofText_append (hlisted p hp).name.toIsPiece hdot
      have hproject : p.name = project := congrArg FileName.stem (hsplit.symm.trans hname)
      exact ⟨p, hp, htype, hproject, text', hscore, hdecode ▸ hq⟩
    · rintro ⟨p, hp, htype, rfl, text, hscore, hq⟩
      refine ⟨_, _, text, (hat _ _ _).2 ⟨p, hp, htype, rfl, text, hscore, rfl⟩, ?_,
        hread p hp text hscore, hq⟩
      exact FileName.ofText_append (hlisted p hp).name.toIsPiece hdot

include hmade

theorem fits_empty : (plain b made output).Fits b ps made := by
  have habsent : ∀ p : ProjectEntry,
      made.root.at? (output ++ [p.dataType] ++ [b.config.scoreFileName p.name]) = none := by
    intro p
    rw [List.append_assoc]
    exact at?_empty hempty _ _
  refine fits_plain hleads ⟨_, hempty⟩ hmade hslash hlisted (fun p hp target htarget => ?_)
    fun p hp e he => ?_
  · exact absurd (htarget.symm.trans (at?_empty hempty p.dataType [])) (Option.some_ne_none _)
  · exact absurd (he.symm.trans (habsent p)) (Option.some_ne_none _)

end

end Batch.Layout

theorem Scorer.isFinite_of_score {s : Scorer} {fs : FileSystem} {root : String} {m : Modularity}
    (h : (s.score fs root).2 = .ok m) (hm : m.edges < 2 ^ 63) : m.q.isFinite = true := by
  unfold score at h
  split at h
  · simp at h
  · exact ListScore.isFinite_of_score _ h hm

namespace Command

variable {parse : Parser} {c : Config} {a : Arguments} {fs : FileSystem} {dataset : String}
  {groups : List (String × List ProjectEntry)}

theorem score_childOutcome {p : ProjectEntry} {text : String} :
    (childOutcome parse fs c a p).score = some text ↔ Readable c a p ∧
      ∃ s m, Scorer.of c parse = .ok s ∧ (s.score fs p.path).2 = .ok m ∧ text = Scorer.scoreText m := by
  rw [childOutcome]
  by_cases hreadable : Readable c a p
  · simp only [hreadable, if_true, true_and]
    constructor
    · exact exists_of_scoreOf
    · rintro ⟨s, m, hof, hm, rfl⟩
      simp [scoreOf, hof, hm]
  · simp [hreadable]

section
variable (hfs : fs.WellFormed) (hlist : Dataset.projects fs dataset = .ok groups)
  (hslash : '/' ∉ c.scoreExtension.toList) (hnul : '\x00' ∉ c.scoreExtension.toList)
  (hload : Config.loadOrDefault fs a.config = .ok c) {s : Batch.State} (hs : s.system = fs)
  {x : Batch.Pool}
  (hrun : Batch.Pool.Run (batch c a) (childProgram parse)
    (.start (batch c a) s (groups.flatMap (·.2))) x) (hx : x.Complete)
include hfs hlist hslash hnul hload hs hrun hx

/-- In an empty output folder every child is started. It leaves the score that it comes to on the
files it finds, and its project counts as scored if there is one. -/
theorem children_of_empty {output : List String} (hleads : fs.Leads (.ofText a.output) output)
    (hempty : fs.root.at? output = some (.folder [])) :
    ∃ (score : ProjectEntry → Option String) (ran : ProjectEntry → FileSystem),
      (Batch.Layout.plain (batch c a) fs output).Keeps (groups.flatMap (·.2)) x.state.system ∧
      ∀ p ∈ groups.flatMap (·.2),
        (Batch.Layout.plain (batch c a) fs output).Slot (batch c a) p (score p) x.state.system ∧
        Batch.Pool.RanOn (batch c a) (childProgram parse)
          (.start (batch c a) s (groups.flatMap (·.2))) x p (ran p) ∧
        score p = (childOutcome parse (ran p) c a p).score ∧
        (p.id ∈ x.report.succeeded ↔ score p ≠ none) := by
  obtain ⟨_, -, -, hlisted⟩ := Dataset.listed_of_projects hfs.wellNamed hlist
  have hlisted : ∀ p ∈ groups.flatMap (·.2), p.ListedIn dataset := fun p hp => (hlisted p hp).1
  have hps := Dataset.nodup_projects hfs.wellNamed hlist
  have hids := Dataset.nodup_ids hfs.wellNamed hlist
  have hmake : fs.makeFolders (.ofText a.output) = .ok fs :=
    FileSystem.makeFolders_of_leads hleads ⟨_, hempty⟩
  let l := Batch.Layout.plain (batch c a) fs output
  have hl : l.Fits (batch c a) (groups.flatMap (·.2)) fs :=
    Batch.Layout.fits_empty hfs.wellNamed hleads hempty hslash hlisted
  have hown : ∀ p ∈ groups.flatMap (·.2), ∀ fs', l.Keeps (groups.flatMap (·.2)) fs' →
      l.Slot (batch c a) p none fs' →
      (childProgram parse p ((batch c a).argumentsFor p) fs').system =
          (batch c a).scored p (childOutcome parse fs' c a p).score fs' ∧
        (childProgram parse p ((batch c a).argumentsFor p) fs').ending =
          (childOutcome parse fs' c a p).ending := by
    intro p hp fs' hk hslot
    exact childProgram_eq (hlisted p hp)
      (Config.loadOrDefault_within hk.within hk.working hload) (hl.makeFolders_there hk hp hslot.folder)
  -- the run with these children is one with given outcomes, whose report is known
  obtain ⟨outcome, hchildren, hran⟩ := Batch.Pool.exists_outcome hl hfs hmake hps
    (fun p hp fs' hk hslot => (hown p hp fs' hk hslot).1) hs hrun
  obtain ⟨hplaced, hreport, hdone⟩ := Batch.Pool.complete_of_run hl hfs hmake
    (Batch.Pool.behaves_children outcome) hps hs hchildren hx
  have hfinished : ∀ p ∈ groups.flatMap (·.2), ∃ d ∈ x.finished, d.project = p := fun p hp =>
    List.mem_map.1 (hdone p hp (Batch.Layout.ready_empty hempty p))
  have hk : l.Keeps (groups.flatMap (·.2)) x.state.system := by
    rcases hplaced.system with ⟨hsame, -⟩ | hk
    · exact hsame ▸ hl.keeps
    · exact hk
  have : Nonempty FileSystem := ⟨fs⟩
  choose! ran hranOn hkept hslot hscore hending using fun p (hp : p ∈ groups.flatMap (·.2)) =>
    hran p ((hfinished p hp).imp fun d hd => ⟨hd.2, Or.inr hd.1⟩)
  refine ⟨fun p => (outcome p).score, ran, hk, fun p hp =>
    ⟨?_, hranOn p hp, hscore p hp, ?_⟩⟩
  · obtain ⟨d, hd, rfl⟩ := hfinished p hp
    exact (hplaced.finished (Batch.Pool.accounts_of_run hrun) hd).2.2
  · rw [hreport, Batch.Pool.mem_reportOf hids hp, Batch.Layout.scores_iff]
    refine ⟨fun h => h.2.2.1, fun h => ?_⟩
    obtain ⟨text, htext⟩ := Option.ne_none_iff_exists'.1 h
    have hreadable := (score_childOutcome.1 ((hscore p hp).symm.trans htext)).1
    refine ⟨Batch.Layout.ready_empty hempty p, ?_, h, _, _, _,
      Batch.Layout.open_empty hempty hslash hlisted hnul hp⟩
    rw [hending p hp, (hown p hp _ (hkept p hp) (hslot p hp)).2, childOutcome, if_pos hreadable]
    rfl

end

/-- If the output folder is empty at first, what a batch leaves in it is collected as one score for
each project that was scored, the one that its child came to, and no other. With a dot in the
extension nothing is collected. Scores must be numbers that are read as they are written. -/
theorem collect_batch (hfs : fs.WellFormed) (hlist : Dataset.projects fs dataset = .ok groups)
    (hslash : '/' ∉ c.scoreExtension.toList) (hnul : '\x00' ∉ c.scoreExtension.toList)
    (hload : Config.loadOrDefault fs a.config = .ok c)
    (hempty : fs.entry (.ofText a.output) = .ok (.folder []))
    {s : Batch.State} (hs : s.system = fs) {x : Batch.Pool}
    (hrun : Batch.Pool.Run (batch c a) (childProgram parse)
      (.start (batch c a) s (groups.flatMap (·.2))) x) (hx : x.Complete)
    (hread : ∀ p ∈ groups.flatMap (·.2), ∀ fs' scorer m,
      Batch.Pool.RanOn (batch c a) (childProgram parse)
        (.start (batch c a) s (groups.flatMap (·.2))) x p fs' →
      Scorer.of c parse = .ok scorer → (scorer.score fs' p.path).2 = .ok m →
      m.edges < 2 ^ 63 ∧ Decimal.read (Scorer.scoreText m) = .ok m.q) :
    ∃ found, ScoreTable.collect x.state.system a.output c.scoreExtension = .ok found ∧
      ('.' ∈ c.scoreExtension.toList → found.scores = Dict.empty) ∧
      ('.' ∉ c.scoreExtension.toList →
        (∀ dataType scores, found.scores.get? dataType = some scores →
          ∃ project q, scores.get? project = some q) ∧
        ∃ ran : ProjectEntry → FileSystem,
          (∀ p ∈ groups.flatMap (·.2), Batch.Pool.RanOn (batch c a) (childProgram parse)
            (.start (batch c a) s (groups.flatMap (·.2))) x p (ran p)) ∧
          ∀ dataType project q, (found.scores.get? dataType).bind (·.get? project) = some q ↔
            ∃ p ∈ groups.flatMap (·.2), p.dataType = dataType ∧ p.name = project ∧
              p.id ∈ x.report.succeeded ∧ ∃ scorer m, Scorer.of c parse = .ok scorer ∧
                (scorer.score (ran p) p.path).2 = .ok m ∧ m.q = q) := by
  obtain ⟨_, -, -, hlisted⟩ := Dataset.listed_of_projects hfs.wellNamed hlist
  obtain ⟨hcomponents, output, hleads, hat⟩ := FileSystem.entry_eq_ok_iff.1 hempty
  obtain ⟨score, ran, hk, hchildren⟩ :=
    children_of_empty hfs hlist hslash hnul hload hs hrun hx hleads hat
  -- the text that a child leaves is read back as the score it came to on the files it found
  have hrestored : ∀ p ∈ groups.flatMap (·.2), ∀ text, score p = some text → ∃ scorer m,
      Scorer.of c parse = .ok scorer ∧ (scorer.score (ran p) p.path).2 = .ok m ∧
        Utf8.decode? (Utf8.encode text) = some text ∧ ScoreTable.scoreOf text = .ok m.q := by
    intro p hp text htext
    obtain ⟨-, hran, hscore, -⟩ := hchildren p hp
    obtain ⟨-, scorer, m, hof, hm, rfl⟩ := score_childOutcome.1 (hscore ▸ htext)
    obtain ⟨hsize, hback⟩ := hread p hp _ _ _ hran hof hm
    exact ⟨scorer, m, hof, hm,
      ScoreTable.scoreOf_scoreText (Scorer.isFinite_of_score hm hsize) hback⟩
  obtain ⟨found, hfound, hdot, hscores⟩ := Batch.Layout.exists_collect (b := batch c a) hleads hat
    hslash (fun p hp => (hlisted p hp).1) hnul hcomponents hk (fun p hp => (hchildren p hp).1)
    fun p hp text htext => by
      obtain ⟨_, _, -, -, hdecode, -⟩ := hrestored p hp text htext
      exact hdecode
  refine ⟨found, hfound, hdot, fun hnodot =>
    ⟨(hscores hnodot).1, ran, fun p hp => (hchildren p hp).2.1, fun dataType project q => ?_⟩⟩
  rw [(hscores hnodot).2]
  constructor
  · rintro ⟨p, hp, htype, hname, text, htext, hq⟩
    obtain ⟨scorer, m, hof, hm, -, hscored⟩ := hrestored p hp text htext
    have hsame : m.q = q := Except.ok.inj (hscored.symm.trans hq)
    have hin := (hchildren p hp).2.2.2.2 (by simp [htext])
    exact ⟨p, hp, htype, hname, hin, scorer, m, hof, hm, hsame⟩
  · rintro ⟨p, hp, htype, hname, hin, scorer, m, hof, hm, rfl⟩
    obtain ⟨text, htext⟩ := Option.ne_none_iff_exists'.1 ((hchildren p hp).2.2.2.1 hin)
    obtain ⟨scorer', m', hof', hm', -, hscored⟩ := hrestored p hp text htext
    obtain rfl := Except.ok.inj (hof'.symm.trans hof)
    obtain rfl := Except.ok.inj (hm'.symm.trans hm)
    exact ⟨p, hp, htype, hname, text, htext, hscored⟩

theorem score_ranOn {l : Batch.Layout} {made : FileSystem} {root : List String}
    (hl : l.Fits (batch c a) (groups.flatMap (·.2)) made) (hfs : fs.WellFormed)
    (hmake : fs.makeFolders (.ofText a.output) = .ok made)
    (hout : l.Outside made (groups.flatMap (·.2)) dataset a.config root)
    (hlist : Dataset.projects fs dataset = .ok groups)
    (hload : Config.loadOrDefault fs a.config = .ok c) {s : Batch.State} (hs : s.system = fs)
    {x : Batch.Pool} {p : ProjectEntry} (hp : p ∈ groups.flatMap (·.2)) {fs' : FileSystem}
    (hran : Batch.Pool.RanOn (batch c a) (childProgram parse)
      (.start (batch c a) s (groups.flatMap (·.2))) x p fs') (scorer : Scorer) :
    scorer.score fs' p.path = scorer.score fs p.path := by
  obtain ⟨y, front, back, hrun, hrunning, rfl, -⟩ := hran
  have hbehaves : l.Behaves (batch c a) (groups.flatMap (·.2)) (childOutcome parse fs c a)
      (childProgram parse) := behaves_child hl hfs hmake hout hlist hload
  have hplaced := Batch.Pool.placed_of_run hl hfs hmake hbehaves
    (Dataset.nodup_projects hfs.wellNamed hlist) hs hrun
  obtain ⟨-, hk, -⟩ := hplaced.of_mem (Batch.Pool.accounts_of_run hrun)
    (Batch.Pool.mem_progress_of_working hrunning)
  obtain ⟨cs, cs', hcs, hfiles, hcs'⟩ := hout.entry_project hl hfs hmake hlist hp
  exact (scorer.score_eq hcs (hcs' _ hk) hfiles).symm

/-! ### Where a score is read back, and where it is not -/

theorem wellFormed_subclass : (Batch.twoProjects subclassProject []).WellFormed := ⟨rfl, _, rfl⟩

theorem score_ranOn_subclass {x : Batch.Pool} {p : ProjectEntry}
    (hp : p ∈ Batch.listedTwo.flatMap (·.2)) {fs' : FileSystem}
    (hran : Batch.Pool.RanOn (batch Config.default (twoWorkerArguments "out/t"))
      (childProgram subclassParser)
      (.start (batch Config.default (twoWorkerArguments "out/t"))
        ⟨Batch.twoProjects subclassProject [], []⟩ (Batch.listedTwo.flatMap (·.2))) x p fs') :
    ∃ s, Scorer.of Config.default subclassParser = .ok s ∧
      ∀ m, (s.score fs' p.path).2 = .ok m ↔ p.name = "a" ∧ m = ⟨1, 0, 2, 2⟩ := by
  have houtput : (Batch.twoProjects subclassProject []).Leads (.ofText "out/t") ["out", "t"] :=
    ⟨rfl, rfl⟩
  obtain ⟨l, hl, hout⟩ := exists_outside_twoProjects (c := Config.default)
    wellFormed_subclass.wellNamed houtput ⟨_, rfl⟩ (by decide) fun p hp => by
      rcases Batch.listedTwo_cases p hp with rfl | rfl <;>
        exact ⟨fun _ h => (nomatch h), fun _ h => nomatch h⟩
  have hlist := Batch.projects_twoProjects subclassProject []
  have hfirstFiles : (Batch.twoProjects subclassProject []).entry (.ofText "data/t/a") =
      .ok (.folder subclassProject) := rfl
  obtain ⟨s, hof, hfirst, hsecond⟩ := score_subclass hfirstFiles
  refine ⟨s, hof, fun m => ?_⟩
  rw [score_ranOn hl wellFormed_subclass rfl hout hlist rfl rfl hp hran]
  rcases Batch.listedTwo_cases p hp with rfl | rfl
  · rw [hfirst, Except.ok.injEq]
    simp [eq_comm]
  · have hnone := hsecond "data/t/b" rfl m
    simp [hnone]

/-- The score of the example is collected from an output folder that was empty. -/
theorem collect_batch_subclass : ∃ x found,
    Batch.Pool.Run (batch Config.default (twoWorkerArguments "out/t"))
      (childProgram subclassParser)
      (.start (batch Config.default (twoWorkerArguments "out/t"))
        ⟨Batch.twoProjects subclassProject [], []⟩ (Batch.listedTwo.flatMap (·.2))) x ∧
    x.Complete ∧ ScoreTable.collect x.state.system "out/t" "txt" = .ok found ∧
    (found.scores.get? "t").bind (·.get? "a") = some (Modularity.q ⟨1, 0, 2, 2⟩) ∧
    (found.scores.get? "t").bind (·.get? "b") = none := by
  have hlist := Batch.projects_twoProjects subclassProject []
  obtain ⟨x, hrun, hx, -⟩ := Batch.Pool.run_runProjects
    (batch Config.default (twoWorkerArguments "out/t")) (childProgram subclassParser)
    ⟨Batch.twoProjects subclassProject [], []⟩ (Batch.listedTwo.flatMap (·.2))
  have hfirst : (⟨"t", "a", "data/t/a"⟩ : ProjectEntry) ∈ Batch.listedTwo.flatMap (·.2) := by decide
  have hreadable : Readable Config.default (twoWorkerArguments "out/t") ⟨"t", "a", "data/t/a"⟩ :=
    readable_of_head _ _ _ "data" (by decide) (by decide) (by decide) (by decide)
      (by simp [twoWorkerArguments]) (by decide) (by decide) (by decide)
  obtain ⟨found, hfound, -, hscores⟩ := collect_batch (c := Config.default)
    (a := twoWorkerArguments "out/t") wellFormed_subclass hlist (by decide) (by decide) rfl rfl rfl
    hrun hx fun p hp fs' s m hran hof hm => by
      obtain ⟨s', hof', hscore⟩ := score_ranOn_subclass hp hran
      obtain rfl := Except.ok.inj (hof'.symm.trans hof)
      obtain ⟨-, rfl⟩ := (hscore m).1 hm
      exact ⟨by decide, by decide +kernel⟩
  obtain ⟨-, ran, hran, htable⟩ := hscores (by decide)
  refine ⟨x, found, hrun, hx, hfound, ?_, ?_⟩
  · have hleads : (Batch.twoProjects subclassProject []).Leads (.ofText "out/t") ["out", "t"] :=
      ⟨rfl, rfl⟩
    obtain ⟨score, ran', -, hchildren⟩ :=
      children_of_empty wellFormed_subclass hlist (by decide) (by decide) rfl rfl hrun hx hleads rfl
    obtain ⟨-, hran', hscore, hsucceeded⟩ := hchildren _ hfirst
    obtain ⟨s, hof, hs⟩ := score_ranOn_subclass hfirst hran'
    have hwritten := hscore.trans
      (score_childOutcome.2 ⟨hreadable, s, _, hof, (hs _).2 ⟨rfl, rfl⟩, rfl⟩)
    obtain ⟨s', hof', hs'⟩ := score_ranOn_subclass hfirst (hran _ hfirst)
    exact (htable "t" "a" _).2 ⟨_, hfirst, rfl, rfl, hsucceeded.2 (by simp [hwritten]), s', _, hof',
      (hs' _).2 ⟨rfl, rfl⟩, rfl⟩
  · rw [Option.eq_none_iff_forall_ne_some]
    intro q hq
    obtain ⟨p, hp, -, hname, -, s, m, hof, hm, -⟩ := (htable "t" "b" q).1 hq
    obtain ⟨s', hof', hscore⟩ := score_ranOn_subclass hp (hran p hp)
    obtain rfl := Except.ok.inj (hof'.symm.trans hof)
    obtain ⟨ha, -⟩ := (hscore m).1 hm
    exact absurd (hname.symm.trans ha) (by decide)

/-- A score file whose extension has a dot is not found. -/
theorem collect_batch_dot :
    let b : Batch := ⟨{ Config.default with scoreExtension := "q.txt" }, none, "out/t", 2, []⟩
    let ended := b.run (b.children Batch.firstScores) (Batch.twoProjects [] []) "data"
    ended.result = .ok ⟨["t/a"], ["t/b"]⟩ ∧
    ended.system.readText (.ofText "out/t/t/a.q.txt") = .ok "0.5" ∧
    (ScoreTable.collect ended.system "out/t" "q.txt").map (·.scores.size) = .ok 0 := by
  dsimp only
  rw [Batch.run, Batch.projects_twoProjects]
  exact ⟨by decide +kernel, by decide +kernel, by decide +kernel⟩

end Command

end PackageModularity
