import PackageModularity.Proofs.Batch.UnlinkedPlaces
import PackageModularity.Proofs.Batch.WorkerPool

/-!
What a worker pool comes to. Where no two projects share a score file, the report and the score files
that a complete run leaves follow from what each child does, in whatever order the children run.
-/
namespace PackageModularity.Batch

/-- What a child prints, the score it writes, if it does, and how it ends. -/
structure ChildOutcome where
  stdout : List UInt8
  stderr : List UInt8
  score : Option String
  ending : Ending

theorem failure?_eq_none_iff (b : Batch) (fs : FileSystem) (c : Started) :
    b.failure? fs c = none ↔
      c.ending.isSuccess = true ∧ fs.isFile (.ofText (b.scoreFile c.project)) = true := by
  rw [failure?, Ending.isSuccess]
  cases c.ending.error? with
  | some text => simp
  | none => simp

variable (b : Batch)

/-- Children with given outcomes. Each writes the score file of its own project at most. -/
def children (outcome : ProjectEntry → ChildOutcome) : Program := fun p _ fs =>
  ⟨b.scored p (outcome p).score fs, (outcome p).stdout, (outcome p).stderr, (outcome p).ending⟩

variable (l : Layout) (ps : List ProjectEntry) (outcome : ProjectEntry → ChildOutcome)

/-- Children that come to given outcomes in every tree that a batch can bring about. -/
def Layout.Behaves (program : Program) : Prop :=
  ∀ p ∈ ps, ∀ fs, l.Keeps ps fs → l.Slot b p none fs →
    (program p (b.argumentsFor p) fs).system = b.scored p (outcome p).score fs ∧
      (program p (b.argumentsFor p) fs).ending = (outcome p).ending

open scoped Classical in
/-- A project that is scored: its child can be started, writes a score and ends well. -/
noncomputable def Layout.scores (p : ProjectEntry) : Bool :=
  decide ((outcome p).ending.error? = none ∧ (outcome p).score ≠ none ∧
    ∃ q here n, l.Open b p q here n)

open scoped Classical in
noncomputable def Layout.ready (p : ProjectEntry) : Bool := decide (¬ l.Refused p.dataType)

theorem Layout.ready_iff {l : Layout} {p : ProjectEntry} :
    l.ready p = true ↔ ¬ l.Refused p.dataType := by
  simp [Layout.ready]

theorem Layout.scores_iff {b : Batch} {l : Layout} {outcome : ProjectEntry → ChildOutcome}
    {p : ProjectEntry} : l.scores b outcome p = true ↔ (outcome p).ending.error? = none ∧
      (outcome p).score ≠ none ∧ ∃ q here n, l.Open b p q here n := by
  simp [Layout.scores]

/-- The report of a batch, in the order of the list: first the projects that could not be prepared,
then those whose child came to nothing. -/
noncomputable def Layout.reportOf : BatchReport where
  succeeded := ((ps.filter l.ready).filter (l.scores b outcome)).map ProjectEntry.id
  failed := (ps.filter (!l.ready ·)).map ProjectEntry.id ++
    ((ps.filter l.ready).filter (!l.scores b outcome ·)).map ProjectEntry.id

def Running.progress : Running → ProjectEntry × Option String
  | .working p => (p, none)
  | .leaving c => (c.project, (outcome c.project).score)

namespace Pool

/-- The projects that were prepared, with the score that was written since, if any. -/
def progress (x : Pool) : List (ProjectEntry × Option String) :=
  x.waiting.map (·, none) ++ x.running.map (Running.progress outcome) ++
    x.finished.map fun c => (Running.leaving c).progress outcome

/-- The tree of a pool: that of the beginning while no project is prepared, then one with the folder
of each data type that was prepared and the scores that were written. -/
structure Placed (fs : FileSystem) (x : Pool) : Prop where
  system : x.state.system = fs ∧ x.progress outcome = [] ∨ l.Keeps ps x.state.system
  slot : ∀ e ∈ x.progress outcome, l.Slot b e.1 e.2 x.state.system
  ending : ∀ c, .leaving c ∈ x.running ∨ c ∈ x.finished → c.ending = (outcome c.project).ending

variable {b l ps outcome}

theorem map_fst_progress (x : Pool) : (x.progress outcome).map Prod.fst =
    x.waiting ++ x.running.map Running.project ++ x.finished.map Started.project := by
  have hrunning : ∀ r : Running, (r.progress outcome).fst = r.project := by
    intro r
    cases r <;> rfl
  simp [progress, Function.comp_def, hrunning, Running.project]

theorem Accounts.nodup {x : Pool} (h : Accounts b ps x) (hps : ps.Nodup)
    (outcome : ProjectEntry → ChildOutcome) :
    (x.listed ++ (x.progress outcome).map Prod.fst).Nodup := by
  rw [List.nodup_iff_count_le_one]
  intro p
  have honce := h.once p
  have hone := List.nodup_iff_count_le_one.1 hps p
  simp only [map_fst_progress, List.count_append]
  omega

theorem Accounts.mem {x : Pool} (h : Accounts b ps x) (outcome : ProjectEntry → ChildOutcome)
    {p : ProjectEntry} (hp : p ∈ x.listed ++ (x.progress outcome).map Prod.fst) : p ∈ ps := by
  have honce := h.once p
  have hcount := List.count_pos_iff.2 hp
  rw [← List.count_pos_iff]
  simp only [map_fst_progress, List.count_append] at hcount
  omega

theorem mem_progress_of_working {x : Pool} {p : ProjectEntry} {front back : List Running}
    (running : x.running = front ++ .working p :: back) : (p, none) ∈ x.progress outcome := by
  simp [progress, running, Running.progress]

theorem Placed.of_mem {fs : FileSystem} {x : Pool} (h : Placed b l ps outcome fs x)
    (ha : Accounts b ps x) {e : ProjectEntry × Option String} (he : e ∈ x.progress outcome) :
    e.1 ∈ ps ∧ l.Keeps ps x.state.system ∧ l.Slot b e.1 e.2 x.state.system := by
  refine ⟨ha.mem outcome (List.mem_append_right _ (List.mem_map_of_mem he)), ?_, h.slot e he⟩
  rcases h.system with ⟨-, hnone⟩ | hk
  · simp [hnone] at he
  · exact hk

theorem Placed.of_same {fs : FileSystem} {x y : Pool} (h : Placed b l ps outcome fs x)
    (hsystem : y.state.system = x.state.system)
    (hprogress : ∀ e ∈ y.progress outcome, e ∈ x.progress outcome)
    (hleft : ∀ c, .leaving c ∈ y.running ∨ c ∈ y.finished →
      .leaving c ∈ x.running ∨ c ∈ x.finished) : Placed b l ps outcome fs y where
  system := by
    rw [hsystem]
    refine h.system.imp_left fun hnone => ⟨hnone.1, ?_⟩
    exact List.eq_nil_iff_forall_not_mem.2 fun e he => by simpa [hnone.2] using hprogress e he
  slot e he := hsystem ▸ h.slot e (hprogress e he)
  ending c hc := h.ending c (hleft c hc)

end Pool

section
variable {b l ps outcome} {fs made : FileSystem} (hl : l.Fits b ps made)
include hl

theorem Layout.Fits.prepare {s : State} {fs₀ : FileSystem} (hk : l.Keeps ps fs₀) {p : ProjectEntry}
    (hp : p ∈ ps) (hsame : s.system.makeFolders (.ofText (b.folderOf p)) =
      fs₀.makeFolders (.ofText (b.folderOf p))) :
    (l.Refused p.dataType ∧ (b.prepare s p).2 = false ∧ (b.prepare s p).1.system = s.system) ∨
      (¬ l.Refused p.dataType ∧ (b.prepare s p).2 = true ∧
        l.Keeps ps (b.prepare s p).1.system ∧ l.Slot b p none (b.prepare s p).1.system ∧
        ∀ r ∈ ps, r ≠ p → ∀ score, l.Slot b r score fs₀ →
          l.Slot b r score (b.prepare s p).1.system) := by
  have hprepare := b.prepare_eq s p
  rw [hsame] at hprepare
  obtain ⟨hrefused, hmade⟩ := hl.makeFolders_site hk hp
  by_cases h : l.Refused p.dataType
  · obtain ⟨e, he⟩ := hrefused h
    rw [he, Prod.mk.injEq] at hprepare
    exact Or.inl ⟨h, hprepare.2, hprepare.1⟩
  · obtain ⟨fs', hfs', hk', hfolder, hothers⟩ := hmade h
    rw [hfs', Prod.mk.injEq] at hprepare
    obtain ⟨hkeeps, hslot, hrest⟩ := hl.unscored_slot hk' hp hfolder
    rw [hprepare.1]
    exact Or.inr ⟨h, hprepare.2, hkeeps, hslot, fun r hr hne score hr' =>
      hrest r hr hne score (hothers r hr score hr')⟩

variable (hfs : fs.WellFormed) (hmake : fs.makeFolders (.ofText b.output) = .ok made)
include hfs hmake

namespace Pool

theorem Placed.exists_keeps {x : Pool} (h : Placed b l ps outcome fs x) :
    ∃ fs₀, l.Keeps ps fs₀ ∧ (∀ e ∈ x.progress outcome, l.Slot b e.1 e.2 fs₀) ∧
      ∀ p ∈ ps, x.state.system.makeFolders (.ofText (b.folderOf p)) =
        fs₀.makeFolders (.ofText (b.folderOf p)) := by
  rcases h.system with ⟨hsystem, hnone⟩ | hk
  · refine ⟨made, hl.keeps, by simp [hnone], fun p hp => ?_⟩
    have htype := hl.dataType p hp
    rw [hsystem, folderOf, Path.ofText_joinText _ htype.toIsPiece]
    exact FileSystem.makeFolders_after hfs.wellNamed hfs.working (Path.hasPieces_ofText _) htype hmake
  · exact ⟨_, hk, h.slot, fun _ _ => rfl⟩

omit hfs hmake in
theorem Placed.work {program : Program} (hprogram : l.Behaves b ps outcome program)
    (hps : ps.Nodup) {x : Pool} (h : Placed b l ps outcome fs x) (ha : Accounts b ps x)
    {p : ProjectEntry} {front back : List Running}
    (running : x.running = front ++ .working p :: back) :
    Placed b l ps outcome fs { x with
      state := (b.start program x.state p).1
      running := front ++ .leaving (b.start program x.state p).2 :: back } := by
  obtain ⟨A, B, hx, hy⟩ : ∃ A B, x.progress outcome = A ++ (p, none) :: B ∧
      progress outcome { x with
        state := (b.start program x.state p).1
        running := front ++ .leaving (b.start program x.state p).2 :: back } =
          A ++ (p, (outcome p).score) :: B := by
    refine ⟨x.waiting.map (·, none) ++ front.map (Running.progress outcome),
      back.map (Running.progress outcome) ++
        x.finished.map fun c => (Running.leaving c).progress outcome, ?_, ?_⟩
    · simp [progress, running, Running.progress]
    · simp [progress, Running.progress, Batch.start]
  obtain ⟨hp, hk, hfree⟩ := h.of_mem ha (mem_progress_of_working running)
  obtain ⟨hsystem, hending⟩ := hprogram p hp _ hk hfree
  obtain ⟨hkeeps, hslot, hothers⟩ := hl.scored_slot hk hp (outcome p).score hfree
  rw [← hsystem] at hkeeps hslot hothers
  refine ⟨Or.inr hkeeps, fun e he => ?_, fun c hc => ?_⟩
  · rw [hy] at he
    have hcases : e = (p, (outcome p).score) ∨ e ∈ A ++ B := by
      simp only [List.mem_append, List.mem_cons] at he ⊢
      tauto
    rcases hcases with rfl | hother
    · exact hslot
    · have hmem : e ∈ x.progress outcome := by
        rw [hx]
        simp only [List.mem_append, List.mem_cons] at hother ⊢
        tauto
      have hne : e.1 ≠ p := by
        have hnodup := (List.nodup_append.1 (ha.nodup hps outcome)).2.1
        rw [hx, List.map_append, List.map_cons, List.nodup_middle, List.nodup_cons,
          ← List.map_append] at hnodup
        intro heq
        exact hnodup.1 (List.mem_map.2 ⟨e, hother, heq⟩)
      obtain ⟨hin, -, hold⟩ := h.of_mem ha hmem
      exact hothers e.1 hin hne e.2 hold
  · by_cases hnew : c = (b.start program x.state p).2
    · rw [hnew]
      exact hending
    · refine h.ending c ?_
      simp only [running, List.mem_append, List.mem_cons] at hc ⊢
      rcases hc with (hc | hc | hc) | hc
      · tauto
      · exact absurd (Running.leaving.inj hc) hnew
      · tauto
      · tauto

theorem Placed.prepare (hps : ps.Nodup) {x : Pool} (h : Placed b l ps outcome fs x)
    (ha : Accounts b ps x) {p : ProjectEntry} {rest : List ProjectEntry}
    (listed : x.listed = p :: rest) :
    (b.prepare x.state p).2 = true ∧ l.Keeps ps (b.prepare x.state p).1.system ∧
        (∀ e, e = (p, none) ∨ e ∈ x.progress outcome →
          l.Slot b e.1 e.2 (b.prepare x.state p).1.system) ∨
      (b.prepare x.state p).2 = false ∧ (b.prepare x.state p).1.system = x.state.system := by
  obtain ⟨fs₀, hk, hslots, hsame⟩ := h.exists_keeps hl hfs hmake
  have hp : p ∈ ps := ha.mem outcome (by simp [listed])
  rcases hl.prepare hk hp (hsame p hp) with ⟨-, hnot, hsystem⟩ | ⟨-, hready, hkeeps, hslot, hothers⟩
  · exact Or.inr ⟨hnot, hsystem⟩
  · refine Or.inl ⟨hready, hkeeps, ?_⟩
    rintro e (rfl | he)
    · exact hslot
    · have hmem := List.mem_map_of_mem (f := Prod.fst) he
      have hne : e.1 ≠ p := by
        have hnodup := ha.nodup hps outcome
        rw [listed, List.cons_append, List.nodup_cons] at hnodup
        exact fun heq => hnodup.1 (List.mem_append_right _ (heq ▸ hmem))
      exact hothers e.1 (ha.mem outcome (List.mem_append_right _ hmem)) hne e.2 (hslots e he)

theorem Placed.step {program : Program} (hprogram : l.Behaves b ps outcome program)
    (hps : ps.Nodup) {x y : Pool} (h : Placed b l ps outcome fs x) (ha : Accounts b ps x)
    (hstep : Step b program x y) : Placed b l ps outcome fs y := by
  cases hstep with
  | @prepare p rest listed ready =>
    rcases h.prepare hl hfs hmake hps ha listed with ⟨-, hkeeps, hslots⟩ | ⟨hnot, -⟩
    · refine ⟨Or.inr hkeeps, fun e he => hslots e ?_, h.ending⟩
      simp only [progress, List.map_append, List.map_cons, List.map_nil, List.mem_append,
        List.mem_singleton] at he ⊢
      tauto
    · simp [hnot] at ready
  | @refuse p rest listed notReady =>
    rcases h.prepare hl hfs hmake hps ha listed with ⟨hready, -⟩ | ⟨-, hsystem⟩
    · simp [hready] at notReady
    · exact h.of_same hsystem (fun _ he => he) fun _ hc => hc
  | @acquire p front back permits waiting free =>
    refine h.of_same rfl (fun e he => ?_) fun c hc => by simpa using hc
    simp only [progress, waiting, List.map_append, List.map_cons, List.map_nil, List.mem_append,
      List.mem_cons, List.not_mem_nil, or_false] at he ⊢
    tauto
  | work running => exact h.work hl hprogram hps ha running
  | @release c front back running =>
    refine h.of_same rfl (fun e he => ?_) fun d hd => ?_
    · simp only [progress, running, List.map_append, List.map_cons, List.map_nil, List.mem_append,
        List.mem_cons, List.not_mem_nil, or_false] at he ⊢
      tauto
    · simp only [running, List.mem_append, List.mem_cons, List.not_mem_nil, or_false] at hd ⊢
      rcases hd with hd | hd | rfl
      · tauto
      · tauto
      · tauto
  | @await p rest c allListed handles done own =>
    exact h.of_same (system_conclude x.state x.report [c]) (fun _ he => he) fun _ hc => hc

theorem placed_of_run {program : Program} (hprogram : l.Behaves b ps outcome program)
    (hps : ps.Nodup) {s : State} (hs : s.system = fs) {x : Pool}
    (hrun : Run b program (start b s ps) x) : Placed b l ps outcome fs x := by
  induction hrun with
  | refl =>
    refine ⟨Or.inl ⟨hs, rfl⟩, fun e he => absurd he List.not_mem_nil, fun c hc => ?_⟩
    rcases hc with hc | hc
    · exact absurd hc List.not_mem_nil
    · exact absurd hc List.not_mem_nil
  | tail hrun hstep ih => exact ih.step hl hfs hmake hprogram hps (accounts_of_run hrun) hstep

end Pool

end

/-! ### The report -/

namespace Pool

/-- What the report says when so many projects are prepared or refused and so many awaited. -/
structure Reported (before settled : List ProjectEntry) (x : Pool) : Prop where
  listed : before ++ x.listed = ps
  handles : before.filter l.ready = settled ++ x.handles
  succeeded : x.report.succeeded = (settled.filter (l.scores b outcome)).map ProjectEntry.id
  failed : x.report.failed = (before.filter (!l.ready ·)).map ProjectEntry.id ++
    (settled.filter (!l.scores b outcome ·)).map ProjectEntry.id
  inTurn : x.listed = [] ∨ settled = []
  finished : ∀ p ∈ settled, p ∈ x.finished.map Started.project

variable {b l ps outcome}
variable {fs made : FileSystem} (hl : l.Fits b ps made)
include hl

omit hl in
theorem Placed.finished {x : Pool} (h : Placed b l ps outcome fs x) (ha : Accounts b ps x)
    {c : Started} (hc : c ∈ x.finished) :
    c.project ∈ ps ∧ l.Keeps ps x.state.system ∧
      l.Slot b c.project (outcome c.project).score x.state.system :=
  h.of_mem ha (List.mem_append_right _ (List.mem_map.2 ⟨c, hc, rfl⟩))

omit hl in
theorem Placed.ready {x : Pool} (h : Placed b l ps outcome fs x) (ha : Accounts b ps x)
    {c : Started} (hc : c ∈ x.finished) : l.ready c.project = true := by
  obtain ⟨-, hk, hslot⟩ := h.finished ha hc
  obtain ⟨cs, hcs⟩ := hslot.folder
  rw [Layout.ready_iff]
  rintro ⟨e, he, hfile⟩
  rw [hk.within.other hfile he, Option.some.injEq] at hcs
  simp [hcs, Entry.isFolder] at hfile

theorem Placed.failure?_eq_none_iff {x : Pool} (h : Placed b l ps outcome fs x)
    (ha : Accounts b ps x) {c : Started} (hc : c ∈ x.finished) :
    b.failure? x.state.system c = none ↔ l.scores b outcome c.project = true := by
  obtain ⟨hp, hk, hslot⟩ := h.finished ha hc
  have hfile := hl.isFile_slot hk hp hslot
  rw [Batch.failure?_eq_none_iff, hfile, Ending.isSuccess, h.ending c (Or.inr hc), Layout.scores_iff]
  simp

variable (hfs : fs.WellFormed) (hmake : fs.makeFolders (.ofText b.output) = .ok made)
include hfs hmake

theorem Placed.prepare_snd {x : Pool} (h : Placed b l ps outcome fs x) (ha : Accounts b ps x)
    {p : ProjectEntry} {rest : List ProjectEntry} (listed : x.listed = p :: rest) :
    (b.prepare x.state p).2 = l.ready p := by
  obtain ⟨fs₀, hk, -, hsame⟩ := h.exists_keeps hl hfs hmake
  have hp : p ∈ ps := ha.mem outcome (by simp [listed])
  rcases hl.prepare hk hp (hsame p hp) with ⟨hrefused, hnot, -⟩ | ⟨hallowed, hready, -⟩
  · simp [hnot, Layout.ready, hrefused]
  · simp [hready, Layout.ready, hallowed]

theorem Reported.step {program : Program} {before settled : List ProjectEntry} {x y : Pool}
    (h : Reported b l ps outcome before settled x) (hx : Placed b l ps outcome fs x)
    (ha : Accounts b ps x) (hstep : Step b program x y) :
    ∃ before' settled', Reported b l ps outcome before' settled' y := by
  -- only preparing, refusing and awaiting move a project on in the report
  cases hstep with
  | @prepare p rest listed ready =>
    have hfilter : l.ready p = true := (hx.prepare_snd hl hfs hmake ha listed).symm.trans ready
    have hsettled : settled = [] := by simpa [listed] using h.inTurn
    refine ⟨before ++ [p], settled, ?_, ?_, h.succeeded, ?_, Or.inr hsettled, h.finished⟩
    · simpa [listed] using h.listed
    · simp [hfilter, h.handles]
    · simp [hfilter, h.failed]
  | @refuse p rest listed notReady =>
    have hfilter : l.ready p = false :=
      (hx.prepare_snd hl hfs hmake ha listed).symm.trans notReady
    have hsettled : settled = [] := by simpa [listed] using h.inTurn
    refine ⟨before ++ [p], settled, ?_, ?_, h.succeeded, ?_, Or.inr hsettled, h.finished⟩
    · simpa [listed] using h.listed
    · simp [hfilter, h.handles]
    · simp [hfilter, h.failed, hsettled]
  | acquire waiting free =>
    exact ⟨before, settled, h.listed, h.handles, h.succeeded, h.failed, h.inTurn, h.finished⟩
  | work running =>
    exact ⟨before, settled, h.listed, h.handles, h.succeeded, h.failed, h.inTurn, h.finished⟩
  | release running =>
    refine ⟨before, settled, h.listed, h.handles, h.succeeded, h.failed, h.inTurn, fun p hp => ?_⟩
    simpa using Or.inl (h.finished p hp)
  | @await p rest c allListed handles done own =>
    have hreport : (b.conclude x.state x.report [c]).2 =
        if l.scores b outcome p then
          { x.report with succeeded := x.report.succeeded ++ [p.id] }
        else { x.report with failed := x.report.failed ++ [p.id] } := by
      simp only [conclude_singleton, hx.failure?_eq_none_iff hl ha done, own]
    refine ⟨before, settled ++ [p], h.listed, ?_, ?_, ?_, Or.inl allListed, ?_⟩
    · simp [h.handles, handles]
    · rw [hreport]
      cases hscores : l.scores b outcome p <;> simp [hscores, h.succeeded]
    · rw [hreport]
      cases hscores : l.scores b outcome p <;> simp [hscores, h.failed]
    · intro q hq
      rcases List.mem_append.1 hq with hq | hq
      · exact h.finished q hq
      · exact List.mem_map.2 ⟨c, done, own.trans (List.mem_singleton.1 hq).symm⟩

/-- The report of a complete run, and what it leaves: it depends on the outcomes of the children
alone. -/
theorem complete_of_run {program : Program} (hprogram : l.Behaves b ps outcome program)
    (hps : ps.Nodup) {s : State} (hs : s.system = fs) {x : Pool}
    (hrun : Run b program (start b s ps) x) (hx : x.Complete) :
    Placed b l ps outcome fs x ∧ x.report = l.reportOf b ps outcome ∧
      ∀ p ∈ ps, l.ready p = true → p ∈ x.finished.map Started.project := by
  have hreported : ∃ before settled, Reported b l ps outcome before settled x := by
    clear hx
    -- nothing is prepared and nothing awaited at the start
    induction hrun with
    | refl => exact ⟨[], [], rfl, rfl, rfl, rfl, Or.inr rfl, by simp⟩
    | tail hrun hstep ih =>
      obtain ⟨before, settled, h⟩ := ih
      exact h.step hl hfs hmake (placed_of_run hl hfs hmake hprogram hps hs hrun)
        (accounts_of_run hrun) hstep
  obtain ⟨before, settled, h⟩ := hreported
  obtain rfl : before = ps := by simpa [hx.1] using h.listed
  have hsettled : before.filter l.ready = settled := by simpa [hx.2] using h.handles
  refine ⟨placed_of_run hl hfs hmake hprogram hps hs hrun, ?_, fun p hp hready => ?_⟩
  · rw [Layout.reportOf, hsettled, ← h.succeeded, ← h.failed]
  · exact h.finished p (hsettled ▸ List.mem_filter.2 ⟨hp, hready⟩)

end Pool

/-! ### Without an output folder -/

variable {b l ps outcome}

theorem makeFolders_folderOf {fs : FileSystem} {e : Fault}
    (hmake : fs.makeFolders (.ofText b.output) = .error e) {p : ProjectEntry}
    (htype : IsEntryName p.dataType) :
    ∃ e, fs.makeFolders (.ofText (b.folderOf p)) = .error e := by
  rw [folderOf, Path.ofText_joinText _ htype.toIsPiece]
  cases hfolder : fs.makeFolders ((Path.ofText b.output).append [p.dataType]) with
  | error e => exact ⟨e, rfl⟩
  | ok fs' =>
    obtain ⟨mid, hmid⟩ := FileSystem.makeFolders_init (Path.hasPieces_ofText _) htype hfolder
    simp [hmake] at hmid

theorem Pool.none_started {fs : FileSystem} {e : Fault}
    (hmake : fs.makeFolders (.ofText b.output) = .error e)
    (htypes : ∀ p ∈ ps, IsEntryName p.dataType) {program : Program} {s : State} (hs : s.system = fs)
    {x : Pool} (hrun : Run b program (start b s ps) x) :
    x.state.system = fs ∧ x.waiting = [] ∧ x.running = [] ∧ x.finished = [] ∧
      x.handles = [] ∧ x.report.succeeded = [] ∧
      x.report.failed ++ x.listed.map ProjectEntry.id = ps.map ProjectEntry.id := by
  induction hrun with
  | refl => exact ⟨hs, rfl, rfl, rfl, rfl, rfl, rfl⟩
  | @tail x y hrun hstep ih =>
    obtain ⟨hsystem, hwaiting, hrunning, hfinished, hhandles, hsucceeded, hfailed⟩ := ih
    have hprepare : ∀ p ∈ x.listed, ((b.prepare x.state p).1.system, (b.prepare x.state p).2) =
        (x.state.system, false) := by
      intro p hp
      have htype := htypes p ((accounts_of_run hrun).mem (fun _ => ⟨[], [], none, .exited 0⟩)
        (List.mem_append_left _ hp))
      obtain ⟨e, he⟩ := makeFolders_folderOf hmake htype
      rw [prepare_eq, hsystem, he]
    cases hstep with
    | @prepare p rest listed ready =>
      have hnot := (Prod.mk.inj (hprepare p (by simp [listed]))).2
      simp [hnot] at ready
    | @refuse p rest listed notReady =>
      have hsame := (Prod.mk.inj (hprepare p (by simp [listed]))).1
      refine ⟨hsame.trans hsystem, hwaiting, hrunning, hfinished, hhandles, hsucceeded, ?_⟩
      simpa [listed] using hfailed
    | acquire waiting free => simp [hwaiting] at waiting
    | work running => simp [hrunning] at running
    | release running => simp [hrunning] at running
    | await allListed handles done own => simp [hhandles] at handles

/-! ### Scheduling -/

namespace Pool

variable {fs : FileSystem} {dataset : String} {groups : List (String × List ProjectEntry)}

theorem behaves_children (outcome : ProjectEntry → ChildOutcome) :
    l.Behaves b ps outcome (b.children outcome) := fun _ _ _ _ _ => ⟨rfl, rfl⟩

theorem mem_reportOf (hids : (ps.map ProjectEntry.id).Nodup) {p : ProjectEntry} (hp : p ∈ ps) :
    p.id ∈ (l.reportOf b ps outcome).succeeded ↔
      l.ready p = true ∧ l.scores b outcome p = true := by
  rw [Layout.reportOf, List.mem_map]
  constructor
  · rintro ⟨q, hq, hid⟩
    obtain ⟨⟨hq, hready⟩, hscores⟩ := by simpa only [List.mem_filter] using hq
    rw [← List.inj_on_of_nodup_map hids hq hp hid]
    exact ⟨hready, hscores⟩
  · rintro ⟨hready, hscores⟩
    exact ⟨p, by simp only [List.mem_filter]; exact ⟨⟨hp, hready⟩, hscores⟩, rfl⟩

/-- A project counts as scored if its child ended well and its score file is there in the end. -/
theorem succeeded_iff (hfs : fs.WellFormed) (hlist : Dataset.projects fs dataset = .ok groups)
    (hseparate : b.Separate fs (groups.flatMap (·.2))) {s : State} (hs : s.system = fs) {x : Pool}
    (hrun : Run b (b.children outcome) (start b s (groups.flatMap (·.2))) x) (hx : x.Complete)
    {p : ProjectEntry} (hp : p ∈ groups.flatMap (·.2)) :
    p.id ∈ x.report.succeeded ↔ ∃ c ∈ x.finished, c.project = p ∧ c.ending.isSuccess = true ∧
      x.state.system.isFile (.ofText (b.scoreFile p)) = true := by
  have hps := Dataset.nodup_projects hfs.wellNamed hlist
  have hids := Dataset.nodup_ids hfs.wellNamed hlist
  obtain ⟨_, -, -, hlisted⟩ := Dataset.listed_of_projects hfs.wellNamed hlist
  cases hmake : fs.makeFolders (.ofText b.output) with
  | error e =>
    obtain ⟨-, -, -, hfinished, -, hsucceeded, -⟩ :=
      none_started hmake (fun p hp => (hlisted p hp).1.dataType) hs hrun
    simp [hfinished, hsucceeded]
  | ok made =>
    obtain ⟨l, hl⟩ := hseparate made hmake
    obtain ⟨hplaced, hreport, hdone⟩ :=
      complete_of_run hl hfs hmake (behaves_children outcome) hps hs hrun hx
    have hchild : ∀ c ∈ x.finished, c.project = p → l.ready p = true ∧
        (l.scores b outcome p = true ↔ c.ending.isSuccess = true ∧
          x.state.system.isFile (.ofText (b.scoreFile p)) = true) := by
      rintro c hc rfl
      have ha := accounts_of_run hrun
      exact ⟨hplaced.ready ha hc,
        (hplaced.failure?_eq_none_iff hl ha hc).symm.trans (b.failure?_eq_none_iff _ c)⟩
    rw [hreport, mem_reportOf hids hp]
    constructor
    · rintro ⟨hready, hscores⟩
      obtain ⟨c, hc, hown⟩ := List.mem_map.1 (hdone p hp hready)
      exact ⟨c, hc, hown, (hchild c hc hown).2.1 hscores⟩
    · rintro ⟨c, hc, hown, hsuccess⟩
      exact ⟨(hchild c hc hown).1, (hchild c hc hown).2.2 hsuccess⟩

theorem mem_failed_iff {x : Pool} (hreport : (x.report.succeeded ++ x.report.failed).Perm
    (ps.map ProjectEntry.id)) (hids : (ps.map ProjectEntry.id).Nodup) {p : ProjectEntry}
    (hp : p ∈ ps) : p.id ∈ x.report.failed ↔ p.id ∉ x.report.succeeded := by
  have hmem : p.id ∈ x.report.succeeded ++ x.report.failed :=
    hreport.mem_iff.2 (List.mem_map_of_mem hp)
  have hnodup := List.nodup_append.1 (hreport.nodup_iff.2 hids)
  constructor
  · exact fun hfailed hsucceeded => hnodup.2.2 _ hsucceeded _ hfailed rfl
  · exact fun hnot => (List.mem_append.1 hmem).resolve_left hnot

theorem report_perm {program : Program} {s : State} {x : Pool}
    (hrun : Run b program (start b s ps) x) (hx : x.Complete) :
    (x.report.succeeded ++ x.report.failed).Perm (ps.map ProjectEntry.id) := by
  refine List.perm_iff_count.2 fun id => ?_
  have hreport := (accounts_of_run hrun).report id
  rw [hx.1, hx.2] at hreport
  simpa using hreport

end Pool

def twoProjects (first old : List (String × Entry)) : FileSystem where
  root := .folder [("data", .folder [("t", .folder [("a", .folder first), ("b", .folder [])])]),
    ("out", .folder [("t", .folder old)])]
  working := []

def twoWorkers : Batch := ⟨Config.default, none, "out", 2, []⟩

def firstScores (p : ProjectEntry) : ChildOutcome :=
  ⟨[], [], if p.name = "a" then some "0.5" else none, .exited 0⟩

def listedTwo : List (String × List ProjectEntry) :=
  [("t", [⟨"t", "a", "data/t/a"⟩, ⟨"t", "b", "data/t/b"⟩])]

theorem projects_twoProjects (first old : List (String × Entry)) :
    Dataset.projects (twoProjects first old) "data" = .ok listedTwo := by
  have hone : ["t"].Pairwise (· ≤ ·) := by decide
  have htwo : ["a", "b"].Pairwise (· ≤ ·) := by decide
  have htypes : Dataset.subfolders (twoProjects first old) "data" = .ok ["t"] :=
    congrArg Except.ok (Dataset.sortNames_of_sorted hone)
  have hnames : Dataset.subfolders (twoProjects first old) (Path.joinText "data" "t") =
      .ok ["a", "b"] := congrArg Except.ok (Dataset.sortNames_of_sorted htwo)
  simp only [Dataset.projects, htypes, List.mapM_cons, List.mapM_nil,
    Dataset.projectsOf_of_subfolders hnames]
  rfl

theorem listedTwo_cases : ∀ p ∈ listedTwo.flatMap (·.2),
    p = ⟨"t", "a", "data/t/a"⟩ ∨ p = ⟨"t", "b", "data/t/b"⟩ := by
  simp [listedTwo]

theorem separate_twoProjects :
    twoWorkers.Separate (twoProjects [] [("b.txt", .file [])]) (listedTwo.flatMap (·.2)) := by
  obtain ⟨_, -, -, hlisted⟩ := Dataset.listed_of_projects rfl (projects_twoProjects [] [])
  refine separate_of_unlinked ⟨rfl, _, rfl⟩ (by decide) (fun p hp => (hlisted p hp).1) ?_
  intro made output hmake hleads p hp
  obtain rfl : twoProjects [] [("b.txt", .file [])] = made := Except.ok.inj hmake
  obtain rfl : ["out"] = output := Except.ok.inj hleads.follow
  rcases listedTwo_cases p hp with rfl | rfl <;>
    exact ⟨fun _ h => (nomatch h), fun _ h => nomatch h⟩

end PackageModularity.Batch
