import Rustytree.Eager
import Rustytree.Lib.ForkJoin
import Rustytree.VanillaWalk
/-!
# The permit discipline

`discover_paths` and `eager_phase` as fork-join tasks under the semaphore of
`walk_recursive`. A discovery task acquires, opens its group and lists the
children, releases, and only then spawns and joins the tasks of the children;
an eager task acquires, reads, releases and is done. `try_join_all` returns at
the first error and drops the other futures with their permits.
-/

namespace Rustytree
open Glob Lib.ForkJoin Lib.Runs

variable {J E : Type}

/-! ## The source -/

/-- `Semaphore::new(max_concurrency.unwrap_or(32).max(1))`. -/
def semaphorePermits (maxConcurrency : Option Nat) : Nat := max (maxConcurrency.getD 32) 1

/-- The tasks of `discover_paths`: a group that does not open or list fails its
task; the others record their path and fork into their unpruned children. The
source has no bound on the depth, and `outOfFuel` is no error of its. -/
def discoverJob (store : ZarrsStore J) (glob : Option GlobPredicate) : Nat → Str → Job Str RustytreeError
  | 0, _ => .fail .outOfFuel
  | fuel + 1, path =>
    match store.groupOpen path with
    | .error err => .fail (mapGroupOpenErr path " during walk" err)
    | .ok _ =>
      match store.childGroupPaths path with
      | .error err => .fail (.other s!"failed to list child groups in {shown path}: {err}")
      | .ok childPaths => .fork path ((childPaths.filter (passes glob)).map (discoverJob store glob fuel))

/-- The tasks of `eager_phase`: no read fails its task, and none forks. -/
def eagerTasks (work : List (Nat × Nat × ZarrArray J)) : TaskTree (Nat × Nat) RustytreeError :=
  .joining [] (work.map fun task => .waiting (.fork (task.1, task.2.1) []))

/-- The same tasks with what each of them returns. -/
def eagerFetches (fetch : Nat → Nat → ZarrArray J → Except RustytreeError E) (nodes : List (NodeData J E)) :
    TaskTree (Nat × Nat × Option E) RustytreeError := joinAll ((eagerWork nodes).map (eagerTask fetch))

/-- What a run of `eager_phase` under the semaphore leaves in the nodes: the
results of its tasks are written back in the order in which they are returned. -/
def EagerReturns (fetch : Nat → Nat → ZarrArray J → Except RustytreeError E) (permits : Nat)
    (nodes nodes' : List (NodeData J E)) : Prop :=
  ∃ (results : List (Nat × Nat × Option E)) (free : Nat),
    Reaches Step ⟨eagerFetches fetch nodes, permits⟩ ⟨.done results, free⟩ ∧ nodes' = results.foldl assignEager nodes

/-! ## No deadlock -/

theorem semaphorePermits_pos (maxConcurrency : Option Nat) : 0 < semaphorePermits maxConcurrency :=
  Nat.lt_of_lt_of_le Nat.one_pos (Nat.le_max_right _ 1)

theorem eagerTasks_held (work : List (Nat × Nat × ZarrArray J)) : (eagerTasks work).held = 0 := by
  apply heldAll_eq_zero
  intro task ht
  obtain ⟨_, -, rfl⟩ := List.mem_map.1 ht
  rfl

/-- Neither the discovery of any tree of groups, each of which may fail, nor the
eager phase over any work list can deadlock, for any `max_concurrency`. -/
theorem permit_discipline (maxConcurrency : Option Nat) :
    (∀ tree : Job Str RustytreeError, DeadlockFree (semaphorePermits maxConcurrency) (.waiting tree)) ∧
    (∀ work : List (Nat × Nat × ZarrArray J), DeadlockFree (semaphorePermits maxConcurrency) (eagerTasks work)) := by
  refine ⟨fun tree => ?_, fun work => ?_⟩
  · exact deadlockFree (semaphorePermits_pos maxConcurrency) rfl
  · exact deadlockFree (semaphorePermits_pos maxConcurrency) (eagerTasks_held work)

/-! ## The descent in the order of the tree -/

/-- Run one after the other, the tasks are the sequential descent. -/
theorem discoverJob_run (store : ZarrsStore J) (glob : Option GlobPredicate) (fuel : Nat) (path : Str) :
    (discoverJob store glob fuel path).run = discoverPaths store glob fuel path := by
  induction fuel generalizing path with
  | zero => rfl
  | succ fuel ih =>
    unfold discoverJob discoverPaths
    cases store.groupOpen path with
    | error err => rfl
    | ok attributes =>
      cases store.childGroupPaths path with
      | error err => rfl
      | ok childPaths =>
        simp only [Job.run, jobsRun_map fun child _ => ih child]
        cases (childPaths.filter (passes glob)).mapM (discoverPaths store glob fuel) with
        | error err => rfl
        | ok outs => rfl

/-- The unpruned groups below `path` end `fuel` levels down. -/
def DescentEnds (store : ZarrsStore J) (glob : Option GlobPredicate) : Nat → Str → Prop
  | 0, _ => False
  | fuel + 1, path => ∀ attributes childPaths, store.groupOpen path = .ok attributes →
      store.childGroupPaths path = .ok childPaths →
      ∀ child ∈ childPaths.filter (passes glob), DescentEnds store glob fuel child

/-- Deeper down there is nothing more to do. -/
theorem DescentEnds.discoverJob_eq {store : ZarrsStore J} {glob : Option GlobPredicate} {fuel fuel' : Nat} {path : Str}
    (h : DescentEnds store glob fuel path) (hle : fuel ≤ fuel') :
    discoverJob store glob fuel' path = discoverJob store glob fuel path := by
  induction fuel generalizing fuel' path with
  | zero => cases h
  | succ fuel ih =>
    obtain ⟨fuel', rfl⟩ := Nat.exists_eq_add_of_le' (Nat.lt_of_lt_of_le (Nat.succ_pos fuel) hle)
    unfold discoverJob
    cases hopen : store.groupOpen path with
    | error err => rfl
    | ok attributes =>
      cases hlist : store.childGroupPaths path with
      | error err => rfl
      | ok childPaths =>
        have hjobs : (childPaths.filter (passes glob)).map (discoverJob store glob fuel') =
            (childPaths.filter (passes glob)).map (discoverJob store glob fuel) :=
          List.map_congr_left fun child hchild =>
            ih (h attributes childPaths hopen hlist child hchild) (Nat.le_of_succ_le_succ hle)
        simp only [hjobs]

/-- A descent that succeeds has come to the end. -/
theorem descentEnds_of_ok {store : ZarrsStore J} {glob : Option GlobPredicate} {fuel : Nat} {path : Str}
    {out : List Str} (h : discoverPaths store glob fuel path = .ok out) : DescentEnds store glob fuel path := by
  induction fuel generalizing path out with
  | zero => cases h
  | succ fuel ih =>
    intro attributes childPaths hopen hlist child hchild
    unfold discoverPaths at h
    simp only [hopen, hlist] at h
    obtain ⟨subResults, hsub, -⟩ := Lib.Collect.bind_eq_ok.1 h
    obtain ⟨sub, -, hout⟩ := Lib.Collect.exists_of_forall₂ (Lib.Collect.mapM_eq_ok.1 hsub) hchild
    exact ih hout

/-! ## Results are written back to their variables -/

/-- In whatever order the reads end, the phase leaves what the sequential one does. -/
theorem eagerReturns_iff {fetch : Nat → Nat → ZarrArray J → Except RustytreeError E} {permits : Nat}
    (hpos : 0 < permits) {nodes nodes' : List (NodeData J E)} :
    EagerReturns fetch permits nodes nodes' ↔ nodes' = eagerPhase fetch nodes := by
  have hexpected : (eagerFetches fetch nodes).expected = some ((eagerWork nodes).map (eagerTask fetch)) :=
    joinAll_expected _
  rw [eagerPhase_foldl]
  constructor
  · rintro ⟨results, free, hreach, rfl⟩
    cases finished_expected hexpected hreach trivial
    rfl
  · rintro rfl
    exact ⟨_, permits, reaches_expected hpos (joinAll_held _) hexpected, rfl⟩

/-- With nothing fetched before, for any `max_concurrency` and in whatever order
the reads end, the phase ends without an error, and each result stands at its
own variable. -/
theorem eager_phase_assigns (fetch : Nat → Nat → ZarrArray J → Except RustytreeError E) {nodes : List (NodeData J E)}
    (hnone : ∀ node ∈ nodes, ∀ var ∈ node.vars, var.eager = none) (maxConcurrency : Option Nat) :
    DeadlockFree (semaphorePermits maxConcurrency) (eagerFetches fetch nodes) ∧
    ∀ s, Reaches Step ⟨eagerFetches fetch nodes, semaphorePermits maxConcurrency⟩ s → s.task.Finished →
      ∃ results, s.task = .done results ∧ Assigned fetch nodes (results.foldl assignEager nodes) := by
  refine ⟨deadlockFree (semaphorePermits_pos maxConcurrency) (joinAll_held _), ?_⟩
  intro s hs hfinished
  refine ⟨_, finished_expected (joinAll_expected _) hs hfinished, ?_⟩
  rw [← eagerPhase_foldl]
  exact eagerPhase_assigned fetch hnone

/-- A one-dimensional variable named as its dimension. -/
def coordinate (name : Str) (size : Nat) : VarMeta Nat (List Nat) := varMeta ('/' :: name)
  ⟨'/' :: name, ⟨some [some name], [size], ⟨.float64, some "float64", "float64 / <f8"⟩, []⟩⟩

/-- A group with two of them. -/
def coordinates : List (NodeData Nat (List Nat)) :=
  [⟨['/'], ∅, [coordinate "range".toList 3, coordinate "azimuth".toList 2]⟩]

/-- The read of the first variable of a node fails. -/
def fetchSecond (_ vi : Nat) (_ : ZarrArray Nat) : Except RustytreeError (List Nat) :=
  if vi = 0 then .error (.other "timeout") else .ok [7, 8]

/-- A run of the two reads with one permit. -/
theorem eager_phase_assigns_coordinates :
    ∃ results, Reaches Step ⟨eagerFetches fetchSecond coordinates, semaphorePermits (some 1)⟩ ⟨.done results, 1⟩ ∧
      Assigned fetchSecond coordinates (results.foldl assignEager coordinates) := by
  have hrun : Reaches Step ⟨eagerFetches fetchSecond coordinates, semaphorePermits (some 1)⟩ ⟨.done _, 1⟩ :=
    reaches_expected Nat.one_pos (joinAll_held _) (joinAll_expected _)
  have hnone : ∀ node ∈ coordinates, ∀ var ∈ node.vars, var.eager = none := by
    simp [coordinates, coordinate, varMeta]
  obtain ⟨results, hdone, hassigned⟩ := (eager_phase_assigns fetchSecond hnone (some 1)).2 _ hrun trivial
  cases hdone
  exact ⟨_, hrun, hassigned⟩

end Rustytree
