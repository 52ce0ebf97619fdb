import Rustytree.Lib.Collect
import Rustytree.Lib.Runs
/-!
# Fork-join tasks that share a pool of permits

A job waits for a permit, works while it holds it and gives it back; then it
fails, or forks further jobs and waits for all of them. A failed child fails its
parent with its error, and the other children are dropped together with the
permits they hold.

No task waits for another while it holds a permit, and this is why the pool
cannot deadlock: permits are conserved, every step makes the tree of tasks
smaller, and a task that is blocked holds nothing. What a task returns is fixed,
but which error a failing one ends with is up to the schedule: the error of any
job of the tree, and of no other.
-/

namespace Lib.ForkJoin
open Lib.Runs Relation

variable {α ε : Type}

/-- What a job does after its work: fail, or record `label` and fork. -/
inductive Job (α ε : Type) where
  | fail (err : ε)
  | fork (label : α) (jobs : List (Job α ε))

/-- A job on its way. -/
inductive TaskTree (α ε : Type) where
  | waiting (job : Job α ε)
  /-- Holds a permit; the work is in flight. -/
  | working (job : Job α ε)
  /-- Holds a permit; the work has ended. -/
  | worked (job : Job α ε)
  | released (job : Job α ε)
  /-- `out` was recorded before the fork. -/
  | joining (out : List α) (tasks : List (TaskTree α ε))
  | done (out : List α)
  | failed (err : ε)

def TaskTree.Finished : TaskTree α ε → Prop
  | .done _ | .failed _ => True
  | _ => False

mutual
/-- The permits held in a task. -/
def TaskTree.held : TaskTree α ε → Nat
  | .working _ | .worked _ => 1
  | .joining _ tasks => heldAll tasks
  | _ => 0

def heldAll : List (TaskTree α ε) → Nat
  | [] => 0
  | task :: tasks => task.held + heldAll tasks
end

mutual
/-- The pieces of work in flight. -/
def TaskTree.inFlight : TaskTree α ε → Nat
  | .working _ => 1
  | .joining _ tasks => inFlightAll tasks
  | _ => 0

def inFlightAll : List (TaskTree α ε) → Nat
  | [] => 0
  | task :: tasks => task.inFlight + inFlightAll tasks
end

/-- The tasks and the free permits. -/
structure State (α ε : Type) where
  task : TaskTree α ε
  free : Nat

/-- One step of one task; steps of different tasks interleave in any order. -/
inductive Step : State α ε → State α ε → Prop
  | acquire {job : Job α ε} {free : Nat} : Step ⟨.waiting job, free + 1⟩ ⟨.working job, free⟩
  | work {job : Job α ε} {free : Nat} : Step ⟨.working job, free⟩ ⟨.worked job, free⟩
  | release {job : Job α ε} {free : Nat} : Step ⟨.worked job, free⟩ ⟨.released job, free + 1⟩
  | fail {err : ε} {free : Nat} : Step ⟨.released (.fail err), free⟩ ⟨.failed err, free⟩
  | fork {label : α} {jobs : List (Job α ε)} {free : Nat} :
      Step ⟨.released (.fork label jobs), free⟩ ⟨.joining [label] (jobs.map .waiting), free⟩
  | child {out : List α} {pre post : List (TaskTree α ε)} {task task' : TaskTree α ε} {free free' : Nat} :
      Step ⟨task, free⟩ ⟨task', free'⟩ →
      Step ⟨.joining out (pre ++ task :: post), free⟩ ⟨.joining out (pre ++ task' :: post), free'⟩
  | join {out : List α} {outs : List (List α)} {free : Nat} :
      Step ⟨.joining out (outs.map .done), free⟩ ⟨.done (out ++ outs.flatten), free⟩
  -- The children that are dropped give back what they hold.
  | drop {out : List α} {tasks : List (TaskTree α ε)} {err : ε} {free : Nat} :
      .failed err ∈ tasks → Step ⟨.joining out tasks, free⟩ ⟨.failed err, free + heldAll tasks⟩

/-! ## Permits are conserved -/

@[simp] theorem heldAll_append (xs ys : List (TaskTree α ε)) : heldAll (xs ++ ys) = heldAll xs + heldAll ys := by
  induction xs with
  | nil => simp [heldAll]
  | cons x xs ih => simp only [List.cons_append, heldAll, ih]; omega

theorem heldAll_eq_zero {tasks : List (TaskTree α ε)} (h : ∀ task ∈ tasks, task.held = 0) : heldAll tasks = 0 := by
  induction tasks with
  | nil => rfl
  | cons task tasks ih =>
    rw [heldAll, h task (by simp), ih fun t ht => h t (by simp [ht])]

theorem TaskTree.Finished.held {task : TaskTree α ε} (h : task.Finished) : task.held = 0 := by
  cases task with
  | done out => rfl
  | failed err => rfl
  | _ => cases h

@[simp] theorem heldAll_waiting (jobs : List (Job α ε)) : heldAll (jobs.map .waiting) = 0 := by
  apply heldAll_eq_zero
  intro task ht
  obtain ⟨job, -, rfl⟩ := List.mem_map.1 ht
  rfl

/-- No step loses or makes a permit. -/
theorem Step.permits {s t : State α ε} (h : Step s t) : t.task.held + t.free = s.task.held + s.free := by
  induction h with
  | acquire => simp only [TaskTree.held]; omega
  | work => rfl
  | release => simp only [TaskTree.held]; omega
  | fail => rfl
  | fork => simp only [TaskTree.held, heldAll_waiting]
  | child _ ih =>
    simp only [TaskTree.held, heldAll_append, heldAll] at ih ⊢
    omega
  | @join out outs free =>
    have hnone : heldAll (outs.map (TaskTree.done (ε := ε))) = 0 := heldAll_eq_zero fun task ht => by
      obtain ⟨out, -, rfl⟩ := List.mem_map.1 ht
      rfl
    simp only [TaskTree.held, hnone]
  | drop => simp only [TaskTree.held]; omega

/-- Work in flight holds a permit. -/
theorem TaskTree.inFlight_le_held : ∀ task : TaskTree α ε, task.inFlight ≤ task.held
  | .working _ => Nat.le_refl 1
  | .joining _ tasks => inFlightAll_le_heldAll tasks
  | .waiting _ | .worked _ | .released _ | .done _ | .failed _ => Nat.zero_le _
where
  inFlightAll_le_heldAll : ∀ tasks : List (TaskTree α ε), inFlightAll tasks ≤ heldAll tasks
    | [] => Nat.le_refl 0
    | task :: tasks => Nat.add_le_add task.inFlight_le_held (inFlightAll_le_heldAll tasks)

/-! ## Every step makes the tasks smaller -/

mutual
def Job.size : Job α ε → Nat
  | .fail _ => 1
  | .fork _ jobs => 1 + jobsSize jobs

def jobsSize : List (Job α ε) → Nat
  | [] => 0
  | job :: jobs => (job.size + 4) + jobsSize jobs
end

mutual
/-- An upper bound of the steps a task can still take. -/
def TaskTree.size : TaskTree α ε → Nat
  | .waiting job => job.size + 4
  | .working job => job.size + 3
  | .worked job => job.size + 2
  | .released job => job.size + 1
  | .joining _ tasks => 1 + tasksSize tasks
  | .done _ | .failed _ => 0

def tasksSize : List (TaskTree α ε) → Nat
  | [] => 0
  | task :: tasks => task.size + tasksSize tasks
end

theorem tasksSize_append (xs ys : List (TaskTree α ε)) : tasksSize (xs ++ ys) = tasksSize xs + tasksSize ys := by
  induction xs with
  | nil => simp [tasksSize]
  | cons x xs ih => simp only [List.cons_append, tasksSize, ih]; omega

theorem tasksSize_waiting (jobs : List (Job α ε)) : tasksSize (jobs.map .waiting) = jobsSize jobs := by
  induction jobs with
  | nil => rfl
  | cons job jobs ih => simp only [List.map_cons, tasksSize, jobsSize, TaskTree.size, ih]

theorem Step.size_lt {s t : State α ε} (h : Step s t) : t.task.size < s.task.size := by
  induction h with
  | acquire => simp only [TaskTree.size]; omega
  | work => simp only [TaskTree.size]; omega
  | release => simp only [TaskTree.size]; omega
  | fail => simp only [TaskTree.size]; omega
  | fork => simp only [TaskTree.size, Job.size, tasksSize_waiting]; omega
  | child _ ih => simp only [TaskTree.size, tasksSize_append, tasksSize] at ih ⊢; omega
  | join => simp only [TaskTree.size]; omega
  | drop => simp only [TaskTree.size]; omega

/-! ## Blocked tasks hold nothing -/

theorem exists_done {tasks : List (TaskTree α ε)} (h : ∀ task ∈ tasks, task.Finished)
    (hf : ∀ err, .failed err ∉ tasks) : ∃ outs : List (List α), tasks = outs.map .done := by
  induction tasks with
  | nil => exact ⟨[], rfl⟩
  | cons task tasks ih =>
    simp only [List.mem_cons, not_or] at hf
    obtain ⟨outs, rfl⟩ := ih (fun t ht => h t (by simp [ht])) fun err => (hf err).2
    have htask := h task (by simp)
    cases task with
    | done out => exact ⟨out :: outs, rfl⟩
    | failed err => exact absurd rfl (hf err).1
    | _ => cases htask

mutual
/-- A task that is not finished can move, or no permit is free and it holds none. -/
theorem TaskTree.moves (free : Nat) : ∀ task : TaskTree α ε,
    task.Finished ∨ (∃ t, Step ⟨task, free⟩ t) ∨ (free = 0 ∧ task.held = 0)
  | .waiting job => by
    cases free with
    | zero => exact .inr (.inr ⟨rfl, rfl⟩)
    | succ free => exact .inr (.inl ⟨_, .acquire⟩)
  | .working job => .inr (.inl ⟨_, .work⟩)
  | .worked job => .inr (.inl ⟨_, .release⟩)
  | .released (.fail err) => .inr (.inl ⟨_, .fail⟩)
  | .released (.fork label jobs) => .inr (.inl ⟨_, .fork⟩)
  | .joining out tasks => by
    have htasks := tasks_move free tasks
    by_cases hfailed : ∃ err, .failed err ∈ tasks
    · obtain ⟨err, hfailed⟩ := hfailed
      exact .inr (.inl ⟨_, .drop hfailed⟩)
    by_cases hmove : ∃ task ∈ tasks, ∃ t, Step ⟨task, free⟩ t
    · -- One child that moves is enough.
      obtain ⟨task, hmem, ⟨task', free'⟩, hstep⟩ := hmove
      obtain ⟨pre, post, rfl⟩ := List.append_of_mem hmem
      exact .inr (.inl ⟨_, .child hstep⟩)
    have hblocked : ∀ task ∈ tasks, task.Finished ∨ (free = 0 ∧ task.held = 0) := fun task ht =>
      (htasks task ht).imp_right fun h => h.resolve_left fun hstep => hmove ⟨task, ht, hstep⟩
    by_cases hfinished : ∀ task ∈ tasks, task.Finished
    · obtain ⟨outs, rfl⟩ := exists_done hfinished (not_exists.1 hfailed)
      exact .inr (.inl ⟨_, .join⟩)
    · -- A child that is blocked tells that the pool is empty.
      obtain ⟨task, hnot⟩ := not_forall.1 hfinished
      obtain ⟨ht, hnot⟩ := Classical.not_imp.1 hnot
      refine .inr (.inr ⟨((hblocked task ht).resolve_left hnot).1, heldAll_eq_zero fun t ht => ?_⟩)
      exact (hblocked t ht).elim TaskTree.Finished.held And.right
  | .done out => .inl trivial
  | .failed err => .inl trivial

theorem tasks_move (free : Nat) : ∀ tasks : List (TaskTree α ε), ∀ task ∈ tasks,
    task.Finished ∨ (∃ t, Step ⟨task, free⟩ t) ∨ (free = 0 ∧ task.held = 0)
  | [] => List.forall_mem_nil _
  | task :: tasks => List.forall_mem_cons.2 ⟨TaskTree.moves free task, tasks_move free tasks⟩
end

/-! ## The jobs one after the other -/

mutual
/-- What a job records, in the order of the tree, up to the first that fails. -/
def Job.run : Job α ε → Except ε (List α)
  | .fail err => .error err
  | .fork label jobs => (jobsRun jobs).map (label :: ·)

def jobsRun : List (Job α ε) → Except ε (List α)
  | [] => .ok []
  | job :: jobs => do
    let out ← job.run
    let outs ← jobsRun jobs
    .ok (out ++ outs)
end

/-- Jobs made from a list run as the list does. -/
theorem jobsRun_map {β : Type} {f : β → Job α ε} {g : β → Except ε (List α)} {l : List β}
    (h : ∀ b ∈ l, (f b).run = g b) : jobsRun (l.map f) = (l.mapM g).map List.flatten := by
  induction l with
  | nil => rfl
  | cons b l ih =>
    rw [List.map_cons, jobsRun, h b (by simp), ih fun c hc => h c (by simp [hc]), List.mapM_cons]
    cases g b with
    | error err => rfl
    | ok out =>
      cases l.mapM g with
      | error err => rfl
      | ok outs => rfl

/-! ## What a finished task returns -/

mutual
/-- What a task is bound to return. -/
def TaskTree.expected : TaskTree α ε → Option (List α)
  | .waiting job | .working job | .worked job | .released job => job.run.toOption
  | .joining out tasks => (tasksExpected tasks).map (out ++ ·)
  | .done out => some out
  | .failed _ => none

def tasksExpected : List (TaskTree α ε) → Option (List α)
  | [] => some []
  | task :: tasks => task.expected.bind fun out => (tasksExpected tasks).map (out ++ ·)
end

theorem tasksExpected_congr {pre post : List (TaskTree α ε)} {task task' : TaskTree α ε}
    (h : task'.expected = task.expected) :
    tasksExpected (pre ++ task' :: post) = tasksExpected (pre ++ task :: post) := by
  induction pre with
  | nil => simp only [List.nil_append, tasksExpected, h]
  | cons first pre ih => simp only [List.cons_append, tasksExpected, ih]

theorem tasksExpected_waiting (jobs : List (Job α ε)) :
    tasksExpected (jobs.map .waiting) = (jobsRun jobs).toOption := by
  induction jobs with
  | nil => rfl
  | cons job jobs ih =>
    rw [List.map_cons, tasksExpected, TaskTree.expected, ih, jobsRun]
    cases job.run with
    | error err => rfl
    | ok out =>
      cases jobsRun jobs with
      | error err => rfl
      | ok outs => rfl

theorem tasksExpected_done (outs : List (List α)) :
    tasksExpected (outs.map (TaskTree.done (ε := ε))) = some outs.flatten := by
  induction outs with
  | nil => rfl
  | cons out outs ih => simp [tasksExpected, TaskTree.expected, ih]

theorem tasksExpected_failed {tasks : List (TaskTree α ε)} {err : ε} (h : .failed err ∈ tasks) :
    tasksExpected tasks = none := by
  induction tasks with
  | nil => cases h
  | cons task tasks ih =>
    rcases List.mem_cons.1 h with rfl | h
    · rfl
    · simp [tasksExpected, ih h]

/-- Whatever the order of the steps, what a task is bound to return is fixed. -/
theorem Step.expected {s t : State α ε} (h : Step s t) : t.task.expected = s.task.expected := by
  induction h with
  | acquire => rfl
  | work => rfl
  | release => rfl
  | fail => rfl
  | @fork label jobs free =>
    simp only [TaskTree.expected, tasksExpected_waiting, Job.run]
    cases jobsRun jobs <;> rfl
  | child _ ih => simp only [TaskTree.expected] at ih ⊢; rw [tasksExpected_congr ih]
  | join => simp [TaskTree.expected, tasksExpected_done]
  | drop hfailed => simp [TaskTree.expected, tasksExpected_failed hfailed]

/-! ## Runs -/

/-- The pool has `total` permits, held or free. -/
def Conserved (total : Nat) (s : State α ε) : Prop := s.task.held + s.free = total

theorem Step.conserved {total : Nat} {s t : State α ε} (h : Step s t) (hs : Conserved total s) : Conserved total t :=
  h.permits.trans hs

/-- With one permit at least, a task that is not finished can move. -/
theorem Conserved.moves {total : Nat} (hpos : 0 < total) {s : State α ε} (hs : Conserved total s)
    (h : ¬ s.task.Finished) : ∃ t, Step s t := by
  rcases s.task.moves s.free with hf | hstep | ⟨hfree, hheld⟩
  · contradiction
  · exact hstep
  · unfold Conserved at hs
    omega

/-- Work that holds no permit at first and is bound to return `out` can be run to
its end, which returns every permit. -/
theorem reaches_expected {total : Nat} (hpos : 0 < total) {start : TaskTree α ε} (hheld : start.held = 0) {out : List α}
    (h : start.expected = some out) : Reaches Step ⟨start, total⟩ ⟨.done out, total⟩ := by
  have hstart : Conserved total (⟨start, total⟩ : State α ε) := by
    unfold Conserved
    rw [hheld, Nat.zero_add]
  obtain ⟨⟨task, free⟩, hreach, hconserved, hfinished⟩ := reaches_final (Conserved total)
    (fun s => s.task.Finished) (fun s => s.task.size) (fun _ _ => Step.size_lt)
    (fun _ _ hs hst => hst.conserved hs) (fun _ hs => hs.moves hpos) hstart
  have hexpected : task.expected = some out := (constant hreach fun _ _ => Step.expected).trans h
  have hfree : free = total := by
    have hheld := hfinished.held
    simp only [Conserved] at hconserved hheld
    omega
  cases task with
  | done out' => rwa [Option.some.inj hexpected, hfree] at hreach
  | failed err => cases hexpected
  | _ => cases hfinished

/-- A job that records `out` can be run to its end. -/
theorem reaches_done {total : Nat} (hpos : 0 < total) {job : Job α ε} {out : List α} (h : job.run = .ok out) :
    Reaches Step ⟨.waiting job, total⟩ ⟨.done out, total⟩ := reaches_expected hpos rfl (congrArg Except.toOption h)

/-- Work that is bound to return `out` returns nothing else. -/
theorem finished_expected {total : Nat} {start : TaskTree α ε} {out : List α} (h : start.expected = some out)
    {s : State α ε} (hs : Reaches Step ⟨start, total⟩ s) (hfinished : s.task.Finished) : s.task = .done out := by
  have hexpected : s.task.expected = some out := (constant hs fun _ _ => Step.expected).trans h
  obtain ⟨task, free⟩ := s
  cases task with
  | done out' => exact congrArg TaskTree.done (Option.some.inj hexpected)
  | failed err => cases hexpected
  | _ => cases hfinished

/-- A pool of `total` permits, all free at first, cannot deadlock under `start`:
permits are never lost or made, no run is infinite, and as long as the work is
not finished some task can take a step. -/
structure DeadlockFree (total : Nat) (start : TaskTree α ε) : Prop where
  permits : ∀ s, Reaches Step ⟨start, total⟩ s → s.task.held + s.free = total
  finite : ¬ ∃ run : Nat → State α ε, run 0 = ⟨start, total⟩ ∧ ∀ i, Step (run i) (run (i + 1))
  moves : ∀ s, Reaches Step ⟨start, total⟩ s → ¬ s.task.Finished → ∃ t, Step s t

theorem deadlockFree {total : Nat} (hpos : 0 < total) {start : TaskTree α ε} (hstart : start.held = 0) :
    DeadlockFree total start := by
  have hconserved : ∀ s, Reaches Step ⟨start, total⟩ s → Conserved total s := by
    intro s h
    refine invariant h ?_ fun _ _ hs hst => hst.conserved hs
    unfold Conserved
    rw [hstart, Nat.zero_add]
  refine ⟨hconserved, ?_, fun s h hnot => (hconserved s h).moves hpos hnot⟩
  rintro ⟨run, -, hrun⟩
  exact no_infinite_run (fun _ _ hst => hst.size_lt) run hrun

/-! ## The error a failing task ends with -/

/-- Some job of the tree fails with `err`. -/
inductive Fails : Job α ε → ε → Prop
  | here {err : ε} : Fails (.fail err) err
  | child {label : α} {jobs : List (Job α ε)} {job : Job α ε} {err : ε} :
      job ∈ jobs → Fails job err → Fails (.fork label jobs) err

theorem fails_fail_iff {err err' : ε} : Fails (.fail err : Job α ε) err' ↔ err' = err := by
  constructor
  · rintro ⟨⟩
    rfl
  · rintro rfl
    exact .here

theorem fails_fork_iff {label : α} {jobs : List (Job α ε)} {err : ε} :
    Fails (.fork label jobs) err ↔ ∃ job ∈ jobs, Fails job err := by
  constructor
  · rintro ⟨⟩
    next job hmem hfails => exact ⟨job, hmem, hfails⟩
  · rintro ⟨job, hmem, hfails⟩
    exact .child hmem hfails

/-- The task can still end with `err`. -/
inductive MayFail : TaskTree α ε → ε → Prop
  | waiting {job : Job α ε} {err : ε} : Fails job err → MayFail (.waiting job) err
  | working {job : Job α ε} {err : ε} : Fails job err → MayFail (.working job) err
  | worked {job : Job α ε} {err : ε} : Fails job err → MayFail (.worked job) err
  | released {job : Job α ε} {err : ε} : Fails job err → MayFail (.released job) err
  | joining {out : List α} {tasks : List (TaskTree α ε)} {task : TaskTree α ε} {err : ε} :
      task ∈ tasks → MayFail task err → MayFail (.joining out tasks) err
  | failed {err : ε} : MayFail (.failed err) err

/-- No step brings an error in. -/
theorem Step.mayFail {s t : State α ε} (h : Step s t) {err : ε} (ht : MayFail t.task err) : MayFail s.task err := by
  induction h with
  | acquire =>
    obtain ⟨⟩ := ht
    next hfails => exact .waiting hfails
  | work =>
    obtain ⟨⟩ := ht
    next hfails => exact .working hfails
  | release =>
    obtain ⟨⟩ := ht
    next hfails => exact .worked hfails
  | fail =>
    obtain ⟨⟩ := ht
    exact .released .here
  | fork =>
    obtain ⟨⟩ := ht
    next task hmem htask =>
      obtain ⟨job, hjob, rfl⟩ := List.mem_map.1 hmem
      obtain ⟨⟩ := htask
      next hfails => exact .released (.child hjob hfails)
  | @child out pre post task task' free free' hstep ih =>
    obtain ⟨⟩ := ht
    next t hmem htask =>
      rcases List.mem_append.1 hmem with hmem | hmem
      · exact .joining (List.mem_append_left _ hmem) htask
      rcases List.mem_cons.1 hmem with rfl | hmem
      · exact .joining (List.mem_append_right _ List.mem_cons_self) (ih htask)
      · exact .joining (List.mem_append_right _ (List.mem_cons_of_mem _ hmem)) htask
  | join => obtain ⟨⟩ := ht
  | drop hmem =>
    obtain ⟨⟩ := ht
    exact .joining hmem .failed

/-- A child runs while the others wait. -/
theorem reaches_child {task task' : TaskTree α ε} {free free' : Nat} (h : Reaches Step ⟨task, free⟩ ⟨task', free'⟩)
    (out : List α) (pre post : List (TaskTree α ε)) :
    Reaches Step ⟨.joining out (pre ++ task :: post), free⟩ ⟨.joining out (pre ++ task' :: post), free'⟩ :=
  h.lift (fun s : State α ε => (⟨.joining out (pre ++ s.task :: post), s.free⟩ : State α ε)) fun _ _ hst => .child hst

/-- A job that gets its permit comes to the end of its work. -/
theorem reaches_released {total : Nat} (hpos : 0 < total) (job : Job α ε) :
    Reaches Step ⟨.waiting job, total⟩ ⟨.released job, total⟩ := by
  obtain ⟨free, rfl⟩ := Nat.exists_eq_add_of_le' hpos
  exact .head .acquire (.head .work (.single .release))

/-- Every error of the tree is the first to come in in some schedule. -/
theorem reaches_of_fails {total : Nat} (hpos : 0 < total) {job : Job α ε} {err : ε} (h : Fails job err) :
    Reaches Step ⟨.waiting job, total⟩ ⟨.failed err, total⟩ := by
  induction h with
  | here => exact (reaches_released hpos _).tail .fail
  | @child label jobs job err hmem _ ih =>
    obtain ⟨pre, post, rfl⟩ := List.append_of_mem hmem
    have hchild := reaches_child ih [label] (pre.map .waiting) (post.map .waiting)
    have hfailed : TaskTree.failed err ∈ pre.map .waiting ++ .failed err :: post.map .waiting := by simp
    have hdrop := hchild.tail (.drop hfailed)
    simp only [heldAll_append, heldAll, TaskTree.held, heldAll_waiting, Nat.add_zero] at hdrop
    refine ((reaches_released hpos _).tail .fork).trans ?_
    rw [List.map_append, List.map_cons]
    exact hdrop

mutual

/-- The first error in the order of the tree is one of its errors. -/
theorem fails_of_run {err : ε} : ∀ {job : Job α ε}, job.run = .error err → Fails job err
  | .fail err', h => by
    cases h
    exact .here
  | .fork label jobs, h => by
    rw [Job.run] at h
    cases hjobs : jobsRun jobs with
    | error err' =>
      rw [hjobs] at h
      cases h
      obtain ⟨job, hmem, hfails⟩ := exists_fails_of_jobsRun hjobs
      exact .child hmem hfails
    | ok outs =>
      rw [hjobs] at h
      cases h

theorem exists_fails_of_jobsRun {err : ε} : ∀ {jobs : List (Job α ε)}, jobsRun jobs = .error err →
    ∃ job ∈ jobs, Fails job err
  | [], h => by cases h
  | job :: jobs, h => by
    rw [jobsRun] at h
    cases hjob : job.run with
    | error err' =>
      rw [hjob] at h
      cases h
      exact ⟨job, List.mem_cons_self, fails_of_run hjob⟩
    | ok out =>
      cases hjobs : jobsRun jobs with
      | error err' =>
        rw [hjob, hjobs] at h
        cases h
        obtain ⟨job', hmem, hfails⟩ := exists_fails_of_jobsRun hjobs
        exact ⟨job', List.mem_cons_of_mem _ hmem, hfails⟩
      | ok outs =>
        rw [hjob, hjobs] at h
        cases h

end

/-- Every job of a list that runs to its end does so itself. -/
theorem run_ok_of_jobsRun {jobs : List (Job α ε)} {outs : List α} (h : jobsRun jobs = .ok outs) :
    ∀ job ∈ jobs, ∃ out, job.run = .ok out := by
  induction jobs generalizing outs with
  | nil => simp
  | cons job jobs ih =>
    rw [jobsRun] at h
    obtain ⟨out, hjob, h⟩ := Lib.Collect.bind_eq_ok.1 h
    obtain ⟨rest, hjobs, -⟩ := Lib.Collect.bind_eq_ok.1 h
    intro job' hmem
    rcases List.mem_cons.1 hmem with rfl | hmem
    · exact ⟨out, hjob⟩
    · exact ih hjobs job' hmem

/-- A tree that runs to its end has no error. -/
theorem not_fails_of_run {job : Job α ε} {err : ε} (h : Fails job err) {out : List α} : job.run ≠ .ok out := by
  induction h generalizing out with
  | here =>
    intro hrun
    cases hrun
  | @child label jobs job err hmem _ ih =>
    intro hrun
    rw [Job.run] at hrun
    cases hjobs : jobsRun jobs with
    | error err' =>
      rw [hjobs] at hrun
      cases hrun
    | ok outs =>
      obtain ⟨out', hjob⟩ := run_ok_of_jobsRun hjobs job hmem
      exact ih hjob

/-! ## A permit for every job -/

mutual
/-- The jobs that a job can still fork. -/
def Job.forks : Job α ε → Nat
  | .fail _ => 0
  | .fork _ jobs => jobsCount jobs

def jobsCount : List (Job α ε) → Nat
  | [] => 0
  | job :: jobs => (job.forks + 1) + jobsCount jobs
end

mutual
/-- The tasks that wait for a permit. -/
def TaskTree.waits : TaskTree α ε → Nat
  | .waiting _ => 1
  | .joining _ tasks => waitsAll tasks
  | _ => 0

def waitsAll : List (TaskTree α ε) → Nat
  | [] => 0
  | task :: tasks => task.waits + waitsAll tasks
end

mutual
/-- The jobs below a task that have not given a permit back. -/
def TaskTree.load : TaskTree α ε → Nat
  | .waiting job | .working job | .worked job => job.forks + 1
  | .released job => job.forks
  | .joining _ tasks => loadAll tasks
  | .done _ | .failed _ => 0

def loadAll : List (TaskTree α ε) → Nat
  | [] => 0
  | task :: tasks => task.load + loadAll tasks
end

theorem loadAll_append (xs ys : List (TaskTree α ε)) : loadAll (xs ++ ys) = loadAll xs + loadAll ys := by
  induction xs with
  | nil => simp [loadAll]
  | cons x xs ih => simp only [List.cons_append, loadAll, ih]; omega

theorem loadAll_waiting (jobs : List (Job α ε)) : loadAll (jobs.map .waiting) = jobsCount jobs := by
  induction jobs with
  | nil => rfl
  | cons job jobs ih => simp only [List.map_cons, loadAll, jobsCount, TaskTree.load, ih]

theorem Step.load_le {s t : State α ε} (h : Step s t) : t.task.load ≤ s.task.load := by
  induction h with
  | acquire => exact Nat.le_refl _
  | work => exact Nat.le_refl _
  | release => exact Nat.le_succ _
  | fail => exact Nat.zero_le _
  | fork => simp only [TaskTree.load, Job.forks, loadAll_waiting, Nat.le_refl]
  | child _ ih => simp only [TaskTree.load, loadAll_append, loadAll] at ih ⊢; omega
  | join => exact Nat.zero_le _
  | drop => exact Nat.zero_le _

/-- A task that waits or holds a permit has yet to give one back. -/
theorem TaskTree.waits_le_load : ∀ task : TaskTree α ε, task.waits + task.held ≤ task.load
  | .waiting job | .working job | .worked job => by simp only [waits, held, load]; omega
  | .joining _ tasks => waitsAll_le_loadAll tasks
  | .released _ | .done _ | .failed _ => Nat.zero_le _
where
  waitsAll_le_loadAll : ∀ tasks : List (TaskTree α ε), waitsAll tasks + heldAll tasks ≤ loadAll tasks
    | [] => Nat.le_refl 0
    | task :: tasks => by
      have hhead := task.waits_le_load
      have htail := waitsAll_le_loadAll tasks
      simp only [waitsAll, heldAll, loadAll]
      omega

/-- With a permit for every job none ever waits: there is a free permit for each
task that asks for one. -/
theorem waits_le_free {total : Nat} {job : Job α ε} (hjob : job.forks + 1 ≤ total) {s : State α ε}
    (hs : Reaches Step ⟨.waiting job, total⟩ s) : s.task.waits ≤ s.free := by
  have hconserved : Conserved total s := invariant hs (Nat.zero_add total) fun _ _ hs hst => hst.conserved hs
  have hload : s.task.load ≤ job.forks + 1 :=
    invariant (I := fun s => s.task.load ≤ job.forks + 1) hs (Nat.le_refl _) fun _ _ hs hst => hst.load_le.trans hs
  have hwaits := s.task.waits_le_load
  unfold Conserved at hconserved
  omega

/-! ## Independent tasks -/

/-- One task for each result, all joined. -/
def joinAll (results : List α) : TaskTree α ε := .joining [] (results.map fun result => .waiting (.fork result []))

@[simp] theorem joinAll_held (results : List α) : (joinAll results : TaskTree α ε).held = 0 := by
  apply heldAll_eq_zero
  intro task ht
  obtain ⟨result, -, rfl⟩ := List.mem_map.1 ht
  rfl

/-- The results are returned in the order of the tasks. -/
theorem joinAll_expected (results : List α) : (joinAll results : TaskTree α ε).expected = some results := by
  have hall : tasksExpected (results.map fun result => TaskTree.waiting (.fork result [] : Job α ε)) =
      some results := by
    induction results with
    | nil => rfl
    | cons result results ih =>
      rw [List.map_cons, tasksExpected, ih]
      rfl
  rw [joinAll, TaskTree.expected, hall]
  rfl

end Lib.ForkJoin
