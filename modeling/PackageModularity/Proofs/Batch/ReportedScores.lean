import PackageModularity.Proofs.Batch.PoolOutcome

/-!
The report of a batch and the score files that it leaves. A score file is there exactly if the
project's child wrote it in this run; the project counts as scored if that child also ended well.
-/
namespace PackageModularity.Batch

variable {b : Batch}

theorem path_scoreFile (hslash : '/' ∉ b.config.scoreExtension.toList) {p : ProjectEntry}
    (hname : IsPiece p.name) : Path.ofText (b.scoreFile p) =
      (Path.ofText (b.folderOf p)).append [b.config.scoreFileName p.name] :=
  Path.ofText_joinText _ (isPiece_scoreFileName hslash hname)

theorem isFile_of_refused (hslash : '/' ∉ b.config.scoreExtension.toList) {p : ProjectEntry}
    (htype : IsPiece p.dataType) (hname : IsPiece p.name) {fs : FileSystem} {e : Fault}
    (h : fs.makeFolders (.ofText (b.folderOf p)) = .error e) :
    fs.isFile (.ofText (b.scoreFile p)) = false := by
  by_contra hfile
  rw [Bool.not_eq_false, path_scoreFile hslash hname] at hfile
  have hfolder : fs.isFolder (.ofText (b.folderOf p)) = true := by
    refine FileSystem.isFolder_of_isFile ?_ hfile
    rw [folderOf, Path.ofText_joinText _ htype]
    exact Path.components_append_ne_nil _ _
  obtain ⟨here, hleads, hhere⟩ := FileSystem.leads_of_isFolder hfolder
  rw [FileSystem.makeFolders_of_leads hleads hhere] at h
  simp at h

namespace Pool

variable {fs : FileSystem} {dataset : String} {groups : List (String × List ProjectEntry)}

theorem Placed.isFile_of_not_ready {l : Layout} {ps : List ProjectEntry}
    {outcome : ProjectEntry → ChildOutcome} {made : FileSystem} {x : Pool} {p : ProjectEntry}
    (h : Placed b l ps outcome fs x) (hl : l.Fits b ps made) (hfs : fs.WellFormed)
    (hmake : fs.makeFolders (.ofText b.output) = .ok made)
    (hslash : '/' ∉ b.config.scoreExtension.toList) (hp : p ∈ ps) (hname : IsPiece p.name)
    (hready : l.ready p = false) :
    x.state.system.isFile (.ofText (b.scoreFile p)) = false := by
  have hrefused : l.Refused p.dataType := by
    by_contra hnot
    simp [Layout.ready_iff.2 hnot] at hready
  obtain ⟨fs₀, hk, -, hsame⟩ := h.exists_keeps hl hfs hmake
  obtain ⟨e, he⟩ := (hl.makeFolders_site hk hp).1 hrefused
  exact isFile_of_refused hslash (hl.dataType p hp).toIsPiece hname ((hsame p hp).trans he)

/-- After a complete run a project has a finished child, or it has no score file either. -/
theorem finished_or_absent (hfs : fs.WellFormed) (hlist : Dataset.projects fs dataset = .ok groups)
    (hslash : '/' ∉ b.config.scoreExtension.toList)
    (hseparate : b.Separate fs (groups.flatMap (·.2))) {s : State} (hs : s.system = fs)
    {outcome : ProjectEntry → ChildOutcome} {x : Pool}
    (hrun : Run b (b.children outcome) (start b s (groups.flatMap (·.2))) x) (hx : x.Complete)
    {p : ProjectEntry} (hp : p ∈ groups.flatMap (·.2)) :
    ((¬ ∃ c ∈ x.finished, c.project = p) ∧
      x.state.system.isFile (.ofText (b.scoreFile p)) = false) ∨
    ∃ l made, l.Fits b (groups.flatMap (·.2)) made ∧
      Placed b l (groups.flatMap (·.2)) outcome fs x ∧ ∃ c ∈ x.finished, c.project = p := by
  obtain ⟨_, -, -, hlisted⟩ := Dataset.listed_of_projects hfs.wellNamed hlist
  have hps := Dataset.nodup_projects hfs.wellNamed hlist
  have htype := (hlisted p hp).1.dataType
  have hname := (hlisted p hp).1.name
  cases hmake : fs.makeFolders (.ofText b.output) with
  | error e =>
    obtain ⟨hsystem, -, -, hfinished, -⟩ :=
      none_started hmake (fun p hp => (hlisted p hp).1.dataType) hs hrun
    obtain ⟨e, he⟩ := makeFolders_folderOf hmake htype
    refine .inl ⟨by simp [hfinished], ?_⟩
    rw [hsystem]
    exact isFile_of_refused hslash htype.toIsPiece hname.toIsPiece he
  | ok made =>
    obtain ⟨l, hl⟩ := hseparate made hmake
    obtain ⟨hplaced, -, hdone⟩ :=
      complete_of_run hl hfs hmake (behaves_children outcome) hps hs hrun hx
    cases hready : l.ready p with
    | false =>
      refine .inl ⟨?_, hplaced.isFile_of_not_ready hl hfs hmake hslash hp hname.toIsPiece hready⟩
      rintro ⟨c, hc, rfl⟩
      simp [hplaced.ready (accounts_of_run hrun) hc] at hready
    | true => exact .inr ⟨l, made, hl, hplaced, List.mem_map.1 (hdone p hp hready)⟩

/-- After a complete run a score file is there exactly if the child of its project was started and
wrote it, and if anything can be written there at all. The project counts as scored if that child
ended well too, so that report and files agree unless a child writes its score and then fails. -/
theorem score_left_iff (hfs : fs.WellFormed) (hlist : Dataset.projects fs dataset = .ok groups)
    (hslash : '/' ∉ b.config.scoreExtension.toList)
    (hseparate : b.Separate fs (groups.flatMap (·.2))) {s : State} (hs : s.system = fs)
    {outcome : ProjectEntry → ChildOutcome} {x : Pool}
    (hrun : Run b (b.children outcome) (start b s (groups.flatMap (·.2))) x) (hx : x.Complete)
    {p : ProjectEntry} (hp : p ∈ groups.flatMap (·.2)) :
    (x.state.system.isFile (.ofText (b.scoreFile p)) = true ↔
      (∃ c ∈ x.finished, c.project = p) ∧ (outcome p).score ≠ none ∧
        ∃ text fs', x.state.system.writeText (.ofText (b.scoreFile p)) text = .ok fs') ∧
    (p.id ∈ x.report.succeeded ↔
      x.state.system.isFile (.ofText (b.scoreFile p)) = true ∧
        (outcome p).ending.isSuccess = true) := by
  have hsucceeded := succeeded_iff hfs hlist hseparate hs hrun hx hp
  rcases finished_or_absent hfs hlist hslash hseparate hs hrun hx hp with
    ⟨hnone, hfile⟩ | ⟨l, made, hl, hplaced, hdone⟩
  · simp [hsucceeded, hfile, hnone]
  · obtain ⟨c, hc, hown⟩ := hdone
    obtain ⟨-, hk, hslot⟩ := hplaced.finished (accounts_of_run hrun) hc
    have hending := hplaced.ending c (Or.inr hc)
    rw [hown] at hslot hending
    refine ⟨?_, hsucceeded.trans ⟨?_, ?_⟩⟩
    · rw [hl.isFile_slot hk hp hslot, hl.open_iff_writable hk hp hslot]
      simp only [show ∃ c ∈ x.finished, c.project = p from ⟨c, hc, hown⟩, true_and]
    · rintro ⟨d, hd, hdown, hsuccess, hfile⟩
      rw [hplaced.ending d (Or.inr hd), hdown] at hsuccess
      exact ⟨hfile, hsuccess⟩
    · rintro ⟨hfile, hsuccess⟩
      exact ⟨c, hc, hown, hending ▸ hsuccess, hfile⟩

end Pool

def firstFails (p : ProjectEntry) : ChildOutcome :=
  ⟨[], [], if p.name = "a" then some "0.5" else none, .exited (if p.name = "a" then 1 else 0)⟩

theorem score_left_twoProjects : ∃ x,
    Pool.Run twoWorkers (twoWorkers.children firstFails)
      (Pool.start twoWorkers ⟨twoProjects [] [("b.txt", .file [])], []⟩ (listedTwo.flatMap (·.2))) x ∧
    x.Complete ∧
    x.state.system.isFile (.ofText (twoWorkers.scoreFile ⟨"t", "b", "data/t/b"⟩)) = false ∧
    "t/b" ∉ x.report.succeeded := by
  obtain ⟨x, hrun, hx, hsame⟩ := Pool.run_runProjects twoWorkers (twoWorkers.children firstFails)
    ⟨twoProjects [] [("b.txt", .file [])], []⟩ (listedTwo.flatMap (·.2))
  have hsecond : (⟨"t", "b", "data/t/b"⟩ : ProjectEntry) ∈ listedTwo.flatMap (·.2) := by decide
  obtain ⟨hfile, hscored⟩ := Pool.score_left_iff ⟨rfl, _, rfl⟩
    (projects_twoProjects [] [("b.txt", .file [])]) (by decide) separate_twoProjects rfl hrun hx hsecond
  have hnone : (firstFails ⟨"t", "b", "data/t/b"⟩).score = none := rfl
  rw [hnone] at hfile
  have hgone : x.state.system.isFile
      (.ofText (twoWorkers.scoreFile ⟨"t", "b", "data/t/b"⟩)) = false := by
    simpa using hfile
  exact ⟨x, hrun, hx, hgone, fun h => by simp [hgone] at hscored; exact hscored h⟩

/-- A score that was written before its child failed stays, though its project has failed. -/
theorem score_left_of_failed :
    (twoWorkers.run (twoWorkers.children firstFails) (twoProjects [] []) "data").system.isFile
      (.ofText (twoWorkers.scoreFile ⟨"t", "a", "data/t/a"⟩)) = true ∧
    (twoWorkers.run (twoWorkers.children firstFails) (twoProjects [] []) "data").result =
      .ok ⟨[], ["t/a", "t/b"]⟩ := by
  rw [run, projects_twoProjects]
  exact ⟨by decide +kernel, rfl⟩

end PackageModularity.Batch
