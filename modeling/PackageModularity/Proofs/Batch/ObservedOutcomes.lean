import Mathlib.Logic.Function.Basic
import PackageModularity.Proofs.Batch.PoolOutcome

/-!
Children that depend on the files they find. In one run each child does its work once, so what it
came to in that run can be taken for an outcome that it was given beforehand.
-/
namespace PackageModularity.Batch.Pool

variable {b : Batch}

def Worked (x : Pool) (p : ProjectEntry) : Prop :=
  ∃ c : Started, c.project = p ∧ (.leaving c ∈ x.running ∨ c ∈ x.finished)

/-- A pool after the child of a project, running between others, has done its work. -/
def afterWork (b : Batch) (program : Program) (x : Pool) (p : ProjectEntry)
    (front back : List Running) : Pool :=
  { x with
    state := (b.start program x.state p).1
    running := front ++ .leaving (b.start program x.state p).2 :: back }

/-- On the way from one pool to another a project's child ran on some files. -/
def RanOn (b : Batch) (program : Program) (first last : Pool) (p : ProjectEntry)
    (fs : FileSystem) : Prop :=
  ∃ x front back, Run b program first x ∧ x.running = front ++ .working p :: back ∧
    x.state.system = fs ∧ Run b program (afterWork b program x p front back) last

theorem RanOn.step {program : Program} {first x y : Pool} {p : ProjectEntry} {fs : FileSystem}
    (h : RanOn b program first x p fs) (hstep : Step b program x y) :
    RanOn b program first y p fs := by
  obtain ⟨z, front, back, hfirst, hrunning, hsystem, hlast⟩ := h
  exact ⟨z, front, back, hfirst, hrunning, hsystem, hlast.tail hstep⟩

theorem Step.work_or_free {program : Program} {x y : Pool} (h : Step b program x y) :
    (∃ p front back, x.running = front ++ .working p :: back ∧
      y = afterWork b program x p front back) ∨
    (∀ program', Step b program' x y) ∧ ∀ p, y.Worked p ↔ x.Worked p := by
  cases h with
  | prepare listed ready => exact Or.inr ⟨fun _ => .prepare listed ready, fun _ => Iff.rfl⟩
  | refuse listed notReady => exact Or.inr ⟨fun _ => .refuse listed notReady, fun _ => Iff.rfl⟩
  | acquire waiting free =>
    refine Or.inr ⟨fun _ => .acquire waiting free, fun p => ?_⟩
    simp [Worked]
  | work running => exact Or.inl ⟨_, _, _, running, rfl⟩
  | @release c front back running =>
    refine Or.inr ⟨fun _ => .release running, fun p => exists_congr fun d => and_congr_right fun _ => ?_⟩
    simp only [running, List.mem_append, List.mem_cons, List.not_mem_nil, or_false,
      Running.leaving.injEq]
    tauto
  | await allListed handles done own =>
    exact Or.inr ⟨fun _ => .await allListed handles done own, fun _ => Iff.rfl⟩

theorem worked_afterWork {program : Program} {x : Pool} {p q : ProjectEntry}
    {front back : List Running} (hrunning : x.running = front ++ .working p :: back) :
    (afterWork b program x p front back).Worked q ↔ q = p ∨ x.Worked q := by
  have hproject : (b.start program x.state p).2.project = p := rfl
  constructor
  · rintro ⟨c, rfl, hc⟩
    simp only [afterWork, List.mem_append, List.mem_cons, Running.leaving.injEq] at hc
    by_cases hnew : c = (b.start program x.state p).2
    · exact Or.inl (by rw [hnew, hproject])
    · refine Or.inr ⟨c, rfl, ?_⟩
      simp only [hrunning, List.mem_append, List.mem_cons]
      tauto
  · rintro (rfl | ⟨c, rfl, hc⟩)
    · exact ⟨_, hproject, Or.inl (by simp [afterWork])⟩
    · refine ⟨c, rfl, hc.imp_left fun hc => ?_⟩
      simp only [hrunning, afterWork, List.mem_append, List.mem_cons, reduceCtorEq, false_or] at hc ⊢
      tauto

theorem Accounts.not_worked {ps : List ProjectEntry} {x : Pool} (h : Accounts b ps x)
    (hps : ps.Nodup) {p : ProjectEntry} {front back : List Running}
    (hrunning : x.running = front ++ .working p :: back) : ¬ x.Worked p := by
  have honce := h.once p
  have hone := List.nodup_iff_count_le_one.1 hps p
  simp only [hrunning, List.map_append, List.map_cons, List.count_append, List.count_cons,
    Running.project, beq_self_eq_true, if_true] at honce
  rintro ⟨c, rfl, hc⟩
  have hmem : c.project ∈ front.map Running.project ∨ c.project ∈ back.map Running.project ∨
      c.project ∈ x.finished.map Started.project := by
    rcases hc with hc | hc
    · simp only [hrunning, List.mem_append, List.mem_cons, reduceCtorEq, false_or] at hc
      rcases hc with hc | hc
      · exact Or.inl (List.mem_map.2 ⟨_, hc, rfl⟩)
      · exact Or.inr (Or.inl (List.mem_map.2 ⟨_, hc, rfl⟩))
    · exact Or.inr (Or.inr (List.mem_map_of_mem hc))
  simp only [← List.count_pos_iff] at hmem
  omega

theorem start_children_congr {outcome : ProjectEntry → ChildOutcome} {program : Program}
    {s : State} {p : ProjectEntry}
    (h : program p (b.argumentsFor p) s.system =
      b.children outcome p (b.argumentsFor p) s.system) :
    b.start program s p = b.start (b.children outcome) s p := by
  simp only [Batch.start, h]

theorem run_of_agree {outcome outcome' : ProjectEntry → ChildOutcome} {first x : Pool}
    (hrun : Run b (b.children outcome) first x) (hagree : ∀ p, x.Worked p → outcome p = outcome' p) :
    Run b (b.children outcome') first x := by
  induction hrun with
  | refl => exact .refl
  | @tail x y hrun hstep ih =>
    rcases hstep.work_or_free with ⟨p, front, back, hrunning, rfl⟩ | ⟨hfree, hworked⟩
    · have hold : ∀ q, x.Worked q → outcome q = outcome' q := fun q hq =>
        hagree q ((worked_afterWork hrunning).2 (Or.inr hq))
      have hnew : outcome p = outcome' p := hagree p ((worked_afterWork hrunning).2 (Or.inl rfl))
      have hstart : b.start (b.children outcome) x.state p = b.start (b.children outcome') x.state p :=
        start_children_congr (by simp only [children, hnew])
      refine (ih hold).tail ?_
      rw [afterWork, hstart]
      exact .work hrunning
    · exact (ih fun q hq => hagree q ((hworked q).2 hq)).tail (hfree _)

theorem update_of_not_worked {x : Pool} {p q : ProjectEntry} (hp : ¬ x.Worked p) (hq : x.Worked q)
    (outcome : ProjectEntry → ChildOutcome) (o : ChildOutcome) :
    Function.update outcome p o q = outcome q := by
  have hne : q ≠ p := by
    rintro rfl
    exact hp hq
  exact Function.update_of_ne hne ..

/-- A child that does its work might have been given what it comes to beforehand. -/
theorem run_afterWork {outcome : ProjectEntry → ChildOutcome} {program : Program} {first x : Pool}
    {p : ProjectEntry} {front back : List Running} {o : ChildOutcome}
    (hrun : Run b (b.children outcome) first x) (hp : ¬ x.Worked p)
    (hrunning : x.running = front ++ .working p :: back)
    (ho : program p (b.argumentsFor p) x.state.system =
      ⟨b.scored p o.score x.state.system, o.stdout, o.stderr, o.ending⟩) :
    Run b (b.children (Function.update outcome p o)) first (afterWork b program x p front back) := by
  have hexecution : program p (b.argumentsFor p) x.state.system =
      b.children (Function.update outcome p o) p (b.argumentsFor p) x.state.system := by
    rw [ho, children, Function.update_self]
  refine (run_of_agree hrun fun q hq => (update_of_not_worked hp hq outcome o).symm).tail ?_
  rw [afterWork, start_children_congr hexecution]
  exact .work hrunning

/-- A run with children that write their own scores at most is a run with the outcomes that these
children had in it. -/
theorem exists_outcome {l : Layout} {ps : List ProjectEntry} {fs made : FileSystem}
    (hl : l.Fits b ps made) (hfs : fs.WellFormed)
    (hmake : fs.makeFolders (.ofText b.output) = .ok made) (hps : ps.Nodup) {program : Program}
    {score : ProjectEntry → FileSystem → Option String}
    (hown : ∀ p ∈ ps, ∀ fs', l.Keeps ps fs' → l.Slot b p none fs' →
      (program p (b.argumentsFor p) fs').system = b.scored p (score p fs') fs')
    {s : State} (hs : s.system = fs) {x : Pool} (hrun : Run b program (start b s ps) x) :
    ∃ outcome, Run b (b.children outcome) (start b s ps) x ∧ ∀ p, x.Worked p →
      ∃ fs', RanOn b program (start b s ps) x p fs' ∧ l.Keeps ps fs' ∧ l.Slot b p none fs' ∧
        (outcome p).score = score p fs' ∧
        (outcome p).ending = (program p (b.argumentsFor p) fs').ending := by
  induction hrun with
  | refl =>
    refine ⟨fun _ => ⟨[], [], none, .exited 0⟩, .refl, fun p hp => ?_⟩
    obtain ⟨c, -, hc | hc⟩ := hp
    · exact absurd hc List.not_mem_nil
    · exact absurd hc List.not_mem_nil
  | @tail x y hrun hstep ih =>
    obtain ⟨outcome, hchildren, hran⟩ := ih
    rcases hstep.work_or_free with ⟨p, front, back, hrunning, rfl⟩ | ⟨hfree, hworked⟩
    · have haccounts := accounts_of_run hrun
      have hplaced := placed_of_run hl hfs hmake (behaves_children outcome) hps hs hchildren
      obtain ⟨hp, hk, hslot⟩ := hplaced.of_mem haccounts (mem_progress_of_working hrunning)
      have hsystem := hown p hp _ hk hslot
      have hnot := haccounts.not_worked hps hrunning
      -- The outcome of this child is what it came to on the files of this moment.
      let e := program p (b.argumentsFor p) x.state.system
      refine ⟨Function.update outcome p ⟨e.stdout, e.stderr, score p x.state.system, e.ending⟩,
        run_afterWork hchildren hnot hrunning ?_, fun q hq => ?_⟩
      · rw [← hsystem]
      · rcases (worked_afterWork hrunning).1 hq with rfl | hq
        · rw [Function.update_self]
          exact ⟨x.state.system, ⟨x, front, back, hrun, hrunning, rfl, .refl⟩, hk, hslot, rfl, rfl⟩
        · obtain ⟨fs', hranOn, hkept⟩ := hran q hq
          rw [update_of_not_worked hnot hq]
          exact ⟨fs', hranOn.step hstep, hkept⟩
    · refine ⟨outcome, hchildren.tail (hfree _), fun p hp => ?_⟩
      obtain ⟨fs', hranOn, hkept⟩ := hran p ((hworked p).1 hp)
      exact ⟨fs', hranOn.step hstep, hkept⟩

end PackageModularity.Batch.Pool
