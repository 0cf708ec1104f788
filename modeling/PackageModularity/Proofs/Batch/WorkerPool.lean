import Mathlib.Data.List.Perm.Subperm
import Mathlib.Logic.Relation
import PackageModularity.Batch.Run

/-!
A batch as a worker pool. Projects are prepared in turn; the children of prepared ones wait for one
of so many permits, run, give their permit back and are awaited in the order of preparation, each at
any time that these rules allow. What the pool never loses count of holds whatever the children do.
-/
namespace PackageModularity.Batch

/-- A child with a permit: still at work, or ended and about to give the permit back. -/
inductive Running where
  | working (p : ProjectEntry)
  | leaving (c : Started)

def Running.project : Running → ProjectEntry
  | .working p => p
  | .leaving c => c.project

/-- The listed projects that are not prepared yet, the prepared ones that are still to be awaited,
those whose child waits for a permit, the children with a permit and those that gave it back. The
starts are kept in order. -/
structure Pool where
  state : State
  listed : List ProjectEntry
  handles : List ProjectEntry
  waiting : List ProjectEntry
  running : List Running
  finished : List Started
  permits : Nat
  starts : List ProjectEntry
  report : BatchReport

variable (b : Batch) (program : Program)

namespace Pool

def start (s : State) (projects : List ProjectEntry) : Pool :=
  ⟨s, projects, [], [], [], [], b.slots, [], ⟨[], []⟩⟩

/-- What can happen next. A child does its work at one moment between its start and its end. -/
inductive Step : Pool → Pool → Prop
  | prepare {x : Pool} {p : ProjectEntry} {rest : List ProjectEntry}
      (listed : x.listed = p :: rest) (ready : (b.prepare x.state p).2 = true) :
      Step x { x with
        state := (b.prepare x.state p).1
        listed := rest
        handles := x.handles ++ [p]
        waiting := x.waiting ++ [p] }
  | refuse {x : Pool} {p : ProjectEntry} {rest : List ProjectEntry}
      (listed : x.listed = p :: rest) (notReady : (b.prepare x.state p).2 = false) :
      Step x { x with
        state := (b.prepare x.state p).1
        listed := rest
        report := { x.report with failed := x.report.failed ++ [p.id] } }
  | acquire {x : Pool} {p : ProjectEntry} {front back : List ProjectEntry} {permits : Nat}
      (waiting : x.waiting = front ++ p :: back) (free : x.permits = permits + 1) :
      Step x { x with
        waiting := front ++ back
        running := x.running ++ [.working p]
        permits := permits
        starts := x.starts ++ [p] }
  | work {x : Pool} {p : ProjectEntry} {front back : List Running}
      (running : x.running = front ++ .working p :: back) :
      Step x { x with
        state := (b.start program x.state p).1
        running := front ++ .leaving (b.start program x.state p).2 :: back }
  | release {x : Pool} {c : Started} {front back : List Running}
      (running : x.running = front ++ .leaving c :: back) :
      Step x { x with
        running := front ++ back
        finished := x.finished ++ [c]
        permits := x.permits + 1 }
  | await {x : Pool} {p : ProjectEntry} {rest : List ProjectEntry} {c : Started}
      (allListed : x.listed = []) (handles : x.handles = p :: rest) (done : c ∈ x.finished)
      (own : c.project = p) :
      Step x { x with
        state := (b.conclude x.state x.report [c]).1
        handles := rest
        report := (b.conclude x.state x.report [c]).2 }

abbrev Run : Pool → Pool → Prop := Relation.ReflTransGen (Step b program)

def Complete (x : Pool) : Prop := x.listed = [] ∧ x.handles = []

/-! ### Accounts -/

/-- Permits are neither lost nor made, a project is in one place only, and each has its line in the
report or is still to get it. -/
structure Accounts (projects : List ProjectEntry) (x : Pool) : Prop where
  permits : x.permits + x.running.length = b.slots
  held : ∀ p, x.handles.count p ≤ x.waiting.count p + (x.running.map Running.project).count p +
    (x.finished.map Started.project).count p
  once : ∀ p, x.listed.count p + x.waiting.count p + (x.running.map Running.project).count p +
    (x.finished.map Started.project).count p ≤ projects.count p
  starts : ∀ p, x.starts.count p =
    (x.running.map Running.project).count p + (x.finished.map Started.project).count p
  report : ∀ id, x.report.succeeded.count id + x.report.failed.count id +
    (x.handles.map ProjectEntry.id).count id + (x.listed.map ProjectEntry.id).count id =
      (projects.map ProjectEntry.id).count id

variable {b program}

theorem conclude_singleton (s : State) (r : BatchReport) (c : Started) :
    (b.conclude s r [c]).2 =
      if b.failure? s.system c = none then { r with succeeded := r.succeeded ++ [c.project.id] }
      else { r with failed := r.failed ++ [c.project.id] } := by
  rw [conclude]
  cases b.failure? s.system c <;> rfl

theorem system_conclude (s : State) (r : BatchReport) (cs : List Started) :
    (b.conclude s r cs).1.system = s.system := by
  induction cs generalizing s r with
  | nil => rfl
  | cons c cs ih =>
    rw [conclude]
    cases b.failure? s.system c with
    | none => exact ih _ _
    | some f => exact ih _ _

theorem accounts_start (s : State) (projects : List ProjectEntry) :
    Accounts b projects (start b s projects) := by
  constructor <;> simp [start]

theorem Accounts.step {projects : List ProjectEntry} {x y : Pool} (h : Accounts b projects x)
    (hstep : Step b program x y) : Accounts b projects y := by
  cases hstep with
  | prepare listed ready =>
    refine ⟨h.permits, fun q => ?_, fun q => ?_, h.starts, fun id => ?_⟩
    · have hheld := h.held q
      simp only [List.count_append] at hheld ⊢
      omega
    · have honce := h.once q
      simp only [listed, List.count_append, List.count_cons, List.count_nil] at honce ⊢
      omega
    · have hreport := h.report id
      simp only [listed, List.map_append, List.map_cons, List.map_nil, List.count_append,
        List.count_cons, List.count_nil] at hreport ⊢
      omega
  | refuse listed notReady =>
    refine ⟨h.permits, h.held, fun q => ?_, h.starts, fun id => ?_⟩
    · have honce := h.once q
      simp only [listed, List.count_cons] at honce ⊢
      omega
    · have hreport := h.report id
      simp only [listed, List.map_cons, List.count_append, List.count_cons, List.count_nil]
        at hreport ⊢
      omega
  | acquire waiting free =>
    refine ⟨?_, fun q => ?_, fun q => ?_, fun q => ?_, h.report⟩
    · have hpermits := h.permits
      simp only [free, List.length_append, List.length_singleton] at hpermits ⊢
      omega
    · have hheld := h.held q
      simp only [waiting, List.map_append, List.map_cons, List.map_nil, Running.project,
        List.count_append, List.count_cons, List.count_nil] at hheld ⊢
      omega
    · have honce := h.once q
      simp only [waiting, List.map_append, List.map_cons, List.map_nil, Running.project,
        List.count_append, List.count_cons, List.count_nil] at honce ⊢
      omega
    · have hstarts := h.starts q
      simp only [List.map_append, List.map_cons, List.map_nil, Running.project,
        List.count_append, List.count_cons, List.count_nil] at hstarts ⊢
      omega
  | work running =>
    refine ⟨?_, fun q => ?_, fun q => ?_, fun q => ?_, h.report⟩
    · simpa [running] using h.permits
    · simpa [running, Running.project, Batch.start] using h.held q
    · simpa [running, Running.project, Batch.start] using h.once q
    · simpa [running, Running.project, Batch.start] using h.starts q
  | release running =>
    refine ⟨?_, fun q => ?_, fun q => ?_, fun q => ?_, h.report⟩
    · have hpermits := h.permits
      simp only [running, List.length_append, List.length_cons] at hpermits ⊢
      omega
    · have hheld := h.held q
      simp only [running, List.map_append, List.map_cons, List.map_nil, Running.project,
        List.count_append, List.count_cons, List.count_nil] at hheld ⊢
      omega
    · have honce := h.once q
      simp only [running, List.map_append, List.map_cons, List.map_nil, Running.project,
        List.count_append, List.count_cons, List.count_nil] at honce ⊢
      omega
    · have hstarts := h.starts q
      simp only [running, List.map_append, List.map_cons, List.map_nil, Running.project,
        List.count_append, List.count_cons, List.count_nil] at hstarts ⊢
      omega
  | await allListed handles done own =>
    refine ⟨h.permits, fun q => ?_, h.once, h.starts, fun id => ?_⟩
    · have hheld := h.held q
      simp only [handles, List.count_cons] at hheld ⊢
      omega
    have hreport := h.report id
    rw [conclude_singleton]
    simp only [handles, own, List.map_cons, List.count_cons] at hreport ⊢
    split
    · simp only [List.count_append, List.count_cons, List.count_nil]
      omega
    · simp only [List.count_append, List.count_cons, List.count_nil]
      omega

theorem accounts_of_run {s : State} {projects : List ProjectEntry} {x : Pool}
    (hrun : Run b program (start b s projects) x) : Accounts b projects x := by
  induction hrun with
  | refl => exact accounts_start s projects
  | tail _ hstep ih => exact ih.step hstep

theorem exists_step {s : State} {projects : List ProjectEntry} {x : Pool}
    (hrun : Run b program (start b s projects) x) (hx : ¬ x.Complete) :
    ∃ y, Step b program x y := by
  have haccounts := accounts_of_run hrun
  cases hlisted : x.listed with
  | cons p rest =>
    cases hready : (b.prepare x.state p).2 with
    | true => exact ⟨_, .prepare hlisted hready⟩
    | false => exact ⟨_, .refuse hlisted hready⟩
  | nil =>
    cases hrunning : x.running with
    | cons r back =>
      cases r with
      | working p => exact ⟨_, .work (show x.running = [] ++ .working p :: back from hrunning)⟩
      | leaving c => exact ⟨_, .release (show x.running = [] ++ .leaving c :: back from hrunning)⟩
    | nil =>
      cases hhandles : x.handles with
      | nil => exact absurd ⟨hlisted, hhandles⟩ hx
      | cons p rest =>
        have hheld := haccounts.held p
        simp only [hhandles, hrunning, List.count_cons_self, List.map_nil, List.count_nil] at hheld
        by_cases hfinished : p ∈ x.finished.map Started.project
        · obtain ⟨c, hc, hown⟩ := List.mem_map.1 hfinished
          exact ⟨_, .await hlisted hhandles hc hown⟩
        · have hwaiting : p ∈ x.waiting := by
            rw [← List.count_pos_iff]
            have hnone := List.count_eq_zero.2 hfinished
            omega
          obtain ⟨front, back, hwaiting⟩ := List.append_of_mem hwaiting
          obtain ⟨permits, hpermits⟩ : ∃ permits, x.permits = permits + 1 := by
            have hslots := haccounts.permits
            rw [hrunning, slots, List.length_nil] at hslots
            exact ⟨x.permits - 1, by omega⟩
          exact ⟨_, .acquire hwaiting hpermits⟩

/-! ### The run without overlap -/

theorem run_prepareAll {projects : List ProjectEntry} {x : Pool} (hx : x.listed = projects) :
    Run b program x { x with
      state := (b.prepareAll x.state projects).1
      listed := []
      handles := x.handles ++ (b.prepareAll x.state projects).2.1
      waiting := x.waiting ++ (b.prepareAll x.state projects).2.1
      report := { x.report with
        failed := x.report.failed ++
          (b.prepareAll x.state projects).2.2.map ProjectEntry.id } } := by
  induction projects generalizing x with
  | nil =>
    obtain ⟨state, listed, handles, waiting, running, finished, permits, starts, report⟩ := x
    obtain rfl : listed = [] := hx
    simp only [prepareAll, List.append_nil, List.map_nil]
    exact .refl
  | cons p rest ih =>
    cases hready : (b.prepare x.state p).2 with
    | true =>
      refine .head (.prepare hx hready) ?_
      simpa [prepareAll, hready] using ih (x := { x with
        state := (b.prepare x.state p).1
        listed := rest
        handles := x.handles ++ [p]
        waiting := x.waiting ++ [p] }) rfl
    | false =>
      refine .head (.refuse hx hready) ?_
      simpa [prepareAll, hready] using ih (x := { x with
        state := (b.prepare x.state p).1
        listed := rest
        report := { x.report with failed := x.report.failed ++ [p.id] } }) rfl

theorem run_child {p : ProjectEntry} {rest : List ProjectEntry} {x : Pool}
    (hx : x.waiting = p :: rest) (hrunning : x.running = []) (hpermits : 0 < x.permits) :
    Run b program x { x with
      state := (b.start program x.state p).1
      waiting := rest
      finished := x.finished ++ [(b.start program x.state p).2]
      starts := x.starts ++ [p] } := by
  obtain ⟨state, listed, handles, waiting, running, finished, permits, starts, report⟩ := x
  obtain rfl : running = [] := hrunning
  obtain ⟨n, rfl⟩ := Nat.exists_eq_succ_of_ne_zero (show permits ≠ 0 from Nat.ne_of_gt hpermits)
  refine .head (.acquire (show waiting = [] ++ p :: rest from hx) rfl) ?_
  refine .head (.work (show [] ++ [Running.working p] = [] ++ .working p :: [] from rfl)) ?_
  refine .head (.release (show [] ++ [Running.leaving _] = [] ++ .leaving _ :: [] from rfl)) ?_
  exact .refl

theorem run_startAll {projects : List ProjectEntry} {x : Pool} (hx : x.waiting = projects)
    (hrunning : x.running = []) (hpermits : 0 < x.permits) :
    Run b program x { x with
      state := (b.startAll program x.state projects).1
      waiting := []
      finished := x.finished ++ (b.startAll program x.state projects).2
      starts := x.starts ++ projects } := by
  induction projects generalizing x with
  | nil =>
    obtain ⟨state, listed, handles, waiting, running, finished, permits, starts, report⟩ := x
    obtain rfl : waiting = [] := hx
    simp only [startAll, List.append_nil]
    exact .refl
  | cons p rest ih =>
    refine (run_child hx hrunning hpermits).trans ?_
    simpa [startAll] using ih (x := { x with
      state := (b.start program x.state p).1
      waiting := rest
      finished := x.finished ++ [(b.start program x.state p).2]
      starts := x.starts ++ [p] }) rfl hrunning hpermits

theorem project_startAll (s : State) (projects : List ProjectEntry) :
    (b.startAll program s projects).2.map Started.project = projects := by
  induction projects generalizing s with
  | nil => rfl
  | cons p rest ih =>
    rw [startAll]
    exact congrArg (p :: ·) (ih _)

theorem run_conclude {children : List Started} {x : Pool} (hx : x.listed = [])
    (hhandles : x.handles = children.map Started.project)
    (hfinished : ∀ c ∈ children, c ∈ x.finished) :
    Run b program x { x with
      state := (b.conclude x.state x.report children).1
      handles := []
      report := (b.conclude x.state x.report children).2 } := by
  induction children generalizing x with
  | nil =>
    obtain ⟨state, listed, handles, waiting, running, finished, permits, starts, report⟩ := x
    obtain rfl : handles = [] := hhandles
    exact .refl
  | cons c rest ih =>
    have hsplit : ∀ s r, b.conclude s r (c :: rest) =
        b.conclude (b.conclude s r [c]).1 (b.conclude s r [c]).2 rest := by
      intro s r
      simp only [conclude]
      cases b.failure? s.system c <;> rfl
    obtain ⟨hc, hrest⟩ := List.forall_mem_cons.1 hfinished
    refine .head (.await hx hhandles hc rfl) ?_
    rw [hsplit]
    exact ih (x := { x with
      state := (b.conclude x.state x.report [c]).1
      handles := rest.map Started.project
      report := (b.conclude x.state x.report [c]).2 }) hx rfl hrest

/-- Preparing all projects, running the children one after another and then awaiting them is one
run of the pool. -/
theorem run_runProjects (b : Batch) (program : Program) (s : State) (projects : List ProjectEntry) :
    ∃ x, Run b program (start b s projects) x ∧ x.Complete ∧
      (x.state, x.finished, x.report) = b.runProjects program s projects := by
  have hprepare : Run b program (start b s projects) _ := run_prepareAll rfl
  have hpermits : 0 < b.slots := Nat.lt_of_lt_of_le Nat.one_pos (Nat.le_max_left 1 b.workers)
  have hstart : Run b program (start b s projects) _ :=
    hprepare.trans (run_startAll rfl rfl hpermits)
  have hall : Run b program (start b s projects) _ :=
    hstart.trans (run_conclude rfl (project_startAll _ _).symm fun c hc =>
      List.mem_append_right _ hc)
  exact ⟨_, hall, ⟨rfl, rfl⟩, rfl⟩

end Pool

end PackageModularity.Batch
