import Rustytree.HeldStores
import Rustytree.WalkSteps
/-!
# How a walk ends

Whatever a vanilla store answers, and in whatever order its requests end, a
walk whose descent ends does so too, and as reading the groups one after the
other does: it succeeds if that succeeds and fails if that fails.
-/

namespace Rustytree
open Glob Lib.ForkJoin Lib.Runs

variable {J E : Type} {store : ZarrsStore J} {glob : Option GlobPredicate} {fuel permits : Nat} {rootPath : Str}
  {recursive : Bool}

/-! ## It does not get stuck -/

/-- Group opens wait for nothing but the store. -/
theorem openingGroups_moves {opens : List (Str × OpenStage)} {free : Nat} (hopened : ∀ o ∈ opens, Opened E store o) :
    ∃ t, WalkStep E store (.openingGroups opens free) t := by
  by_cases hall : ∀ o ∈ opens, o.2 = .done
  · have hopens : opens = (opens.map (·.1)).map fun p => (p, .done) := by
      rw [List.map_map]
      conv_lhs => rw [← List.map_id opens]
      exact List.map_congr_left fun o ho => Prod.ext rfl (hall o ho)
    have hnode : ∀ p ∈ opens.map (·.1), ∃ node : NodeData J E, openSingle store p = .ok node := by
      intro p hp
      obtain ⟨⟨path, stage⟩, ho, rfl⟩ := List.mem_map.1 hp
      obtain rfl : stage = .done := hall _ ho
      exact hopened _ ho
    obtain ⟨nodes, hnodes⟩ := Lib.Collect.exists_forall₂ hnode
    rw [hopens]
    exact ⟨_, .groupsJoined (Lib.Collect.mapM_eq_ok.2 hnodes)⟩
  · obtain ⟨⟨path, stage⟩, hnot⟩ := not_forall.1 hall
    obtain ⟨hmem, hstage⟩ := Classical.not_imp.1 hnot
    have hknown := hopened _ hmem
    obtain ⟨pre, post, rfl⟩ := List.append_of_mem hmem
    cases stage with
    | todo => exact ⟨_, .openGroup⟩
    | opening =>
      cases hopen : store.groupOpen path with
      | error err => exact ⟨_, .groupNotOpened hopen⟩
      | ok attributes => exact ⟨_, .groupOpened hopen⟩
    | opened =>
      obtain ⟨attributes, hgroup⟩ := hknown
      cases hopen : openSingle (E := E) store path with
      | error err =>
        have hfail := openFails_of_openSingle hopen
        simp only [OpenFails, hgroup] at hfail
        exact ⟨_, .arraysNotOpened hgroup hfail⟩
      | ok node => exact ⟨_, .arraysOpened hopen⟩
    | done => exact absurd rfl hstage

theorem follows_moves (hpos : 0 < permits) {s : WalkState} (hs : Follows E store glob fuel rootPath recursive permits s)
    (hfinished : s ≠ .finished) (hfailed : ∀ err, s ≠ .failed err) : ∃ t, WalkStep E store s t := by
  cases s with
  | discovering s =>
    by_cases hf : s.task.Finished
    · obtain ⟨task, free⟩ := s
      cases task with
      | done paths => exact ⟨_, .discovered⟩
      | failed err => exact ⟨_, .notDiscovered⟩
      | _ => cases hf
    · obtain ⟨t, ht⟩ := hs.1.moves hpos hf
      exact ⟨_, .discover ht⟩
  | openingGroups opens free => exact openingGroups_moves hs.2.2
  | fetching s =>
    obtain ⟨hconserved, nodes, -, hexpected⟩ := hs
    by_cases hf : s.task.Finished
    · obtain ⟨task, free⟩ := s
      cases task with
      | done out => exact ⟨_, .fetched⟩
      | failed err => cases hexpected
      | _ => cases hf
    · obtain ⟨t, ht⟩ := hconserved.moves hpos hf
      exact ⟨_, .fetch ht⟩
  | finished => exact absurd rfl hfinished
  | failed err => exact absurd rfl (hfailed err)

/-! ## It ends -/

/-- The steps left in one `open_single`. -/
def OpenStage.left : OpenStage → Nat
  | .todo => 3
  | .opening => 2
  | .opened => 1
  | .done => 0

/-- The phases in their order; within each what is left of it. -/
def WalkState.rank : WalkState → Nat ×ₗ Nat
  | .discovering s => toLex (3, s.task.size)
  | .openingGroups opens _ => toLex (2, (opens.map (·.2.left)).sum)
  | .fetching s => toLex (1, s.task.size)
  | .finished | .failed _ => toLex (0, 0)

theorem phase_lt {m n a b : Nat} (h : m < n) : toLex (m, a) < toLex (n, b) := Prod.Lex.toLex_lt_toLex.2 (.inl h)

theorem left_lt {n a b : Nat} (h : a < b) : toLex (n, a) < toLex (n, b) := Prod.Lex.toLex_lt_toLex.2 (.inr ⟨rfl, h⟩)

theorem rank_lt {s t : WalkState} (h : WalkStep E store s t) : t.rank < s.rank := by
  cases h with
  | discover hst => exact left_lt hst.size_lt
  | fetch hst => exact left_lt hst.size_lt
  | openGroup => exact left_lt (by simp [OpenStage.left])
  | groupOpened => exact left_lt (by simp [OpenStage.left])
  | arraysOpened => exact left_lt (by simp [OpenStage.left])
  | discovered => exact phase_lt (by decide)
  | notDiscovered => exact phase_lt (by decide)
  | groupNotOpened => exact phase_lt (by decide)
  | arraysNotOpened => exact phase_lt (by decide)
  | groupsJoined => exact phase_lt (by decide)
  | fetched => exact phase_lt (by decide)

/-- More fuel changes nothing for a descent that has come to its end. -/
theorem walkStart_eq {fuel' : Nat} (hends : recursive = true → DescentEnds store glob fuel rootPath)
    (hle : fuel ≤ fuel') : walkStart store glob fuel' rootPath recursive permits =
      walkStart store glob fuel rootPath recursive permits := by
  unfold walkStart
  cases recursive with
  | false => rfl
  | true => rw [(hends rfl).discoverJob_eq hle]

/-- For every store, pattern and root such that the descent ends, for every
`max_concurrency` and in every order of the requests: no walk runs for ever; a
walk is stuck only when it has finished or failed; it finishes only if the
sequential walk succeeds and fails only if that fails; and the eager phase works
on the nodes that the sequential walk returns. -/
theorem walk_ends_as_sequential {store : ZarrsStore J} {glob : Option GlobPredicate} {fuel : Nat} {rootPath : Str}
    {recursive : Bool} (hends : recursive = true → DescentEnds store glob fuel rootPath)
    (maxConcurrency : Option Nat) :
    (∀ fuel', fuel ≤ fuel' → walkStart store glob fuel' rootPath recursive (semaphorePermits maxConcurrency) =
      walkStart store glob fuel rootPath recursive (semaphorePermits maxConcurrency)) ∧
    (¬ ∃ run : Nat → WalkState,
      run 0 = walkStart store glob fuel rootPath recursive (semaphorePermits maxConcurrency) ∧
        ∀ i, WalkStep E store (run i) (run (i + 1))) ∧
    ∀ s, Reaches (WalkStep E store)
        (walkStart store glob fuel rootPath recursive (semaphorePermits maxConcurrency)) s →
      (s ≠ .finished → (∀ err, s ≠ .failed err) → ∃ t, WalkStep E store s t) ∧
      (s = .finished → ∃ nodes : List (NodeData J E), walkViaZarrs fuel store rootPath recursive glob = .ok nodes) ∧
      (∀ err, s = .failed err →
        ∃ err', walkViaZarrs (E := E) fuel store rootPath recursive glob = .error err') ∧
      ∀ eager, s = .fetching eager → ∃ nodes : List (NodeData J E),
        walkViaZarrs fuel store rootPath recursive glob = .ok nodes ∧
          eager.task.expected = some (eagerPositions nodes) := by
  refine ⟨fun fuel' => walkStart_eq hends, ?_, ?_⟩
  · rintro ⟨run, -, hrun⟩
    exact no_infinite_descent WalkState.rank (fun _ _ => rank_lt) run hrun
  · intro s hs
    have hfollows : Follows E store glob fuel rootPath recursive (semaphorePermits maxConcurrency) s :=
      invariant hs follows_start fun _ _ => follows_step
    refine ⟨follows_moves (semaphorePermits_pos maxConcurrency) hfollows, ?_, ?_, ?_⟩
    · rintro rfl
      exact hfollows
    · rintro err rfl
      cases hwalk : walkViaZarrs (E := E) fuel store rootPath recursive glob with
      | error err' => exact ⟨err', rfl⟩
      | ok nodes => exact absurd hwalk (walkViaZarrs_of_canFail hfollows)
    · rintro eager rfl
      exact hfollows.2

/-- One permit for the walk of the radar tree. -/
theorem walk_ends_as_sequential_radar :
    (¬ ∃ run : Nat → WalkState,
      run 0 = walkStart (storeOf radarTree) none 3 "/".toList true (semaphorePermits (some 1)) ∧
        ∀ i, WalkStep Unit (storeOf radarTree) (run i) (run (i + 1))) ∧
    ∀ s, Reaches (WalkStep Unit (storeOf radarTree))
        (walkStart (storeOf radarTree) none 3 "/".toList true (semaphorePermits (some 1))) s →
      s ≠ .finished → (∀ err, s ≠ .failed err) → ∃ t, WalkStep Unit (storeOf radarTree) s t := by
  have hpaths : discoverPaths (storeOf radarTree) none 3 "/".toList = .ok (radarTree.groupPaths.map pathStr) := by
    decide
  have hends : true = true → DescentEnds (storeOf radarTree) none 3 "/".toList := fun _ => descentEnds_of_ok hpaths
  obtain ⟨-, hfinite, hrun⟩ := walk_ends_as_sequential (E := Unit) hends (some 1)
  exact ⟨hfinite, fun s hs => (hrun s hs).1⟩

end Rustytree
