import Rustytree.Permits
/-!
# The steps of a vanilla walk

The vanilla walk as one machine: discovery, then one `open_single` for each
discovered group, then the eager phase. Discovery and the eager phase take a
permit around their requests; `open_single` takes none.

In whatever order its requests end, the walk follows the sequential one, and the
error it fails with is one of a request that it makes.
-/

namespace Rustytree
open Glob Lib.ForkJoin Lib.Runs

variable {J E : Type}

/-! ## The source -/

/-- Where one `open_single` is: its group open in flight, or its arrays. -/
inductive OpenStage where
  | todo
  | opening
  | opened
  | done
  deriving DecidableEq

/-- The phases of `walk_recursive` on a vanilla store. -/
inductive WalkState where
  | discovering (s : State Str RustytreeError)
  | openingGroups (opens : List (Str × OpenStage)) (free : Nat)
  | fetching (s : State (Nat × Nat) RustytreeError)
  | finished
  | failed (err : RustytreeError)

/-- The arrays of an opened group do not list, or one of them does not open. -/
def ArraysFail (store : ZarrsStore J) (path : Str) (err : RustytreeError) : Prop :=
  match store.childArrayPaths path with
  | .error listErr => err = .other s!"failed to list arrays in {shown path}: {listErr}"
  | .ok arrayPaths => ∃ arrayPath ∈ arrayPaths, ∃ msg, store.arrayOpen arrayPath = .error msg ∧
      err = .other s!"failed to open array {shown arrayPath}: {msg}"

/-- One step of one task of the walk. -/
inductive WalkStep (E : Type) (store : ZarrsStore J) : WalkState → WalkState → Prop
  | discover {s t : State Str RustytreeError} : Step s t → WalkStep E store (.discovering s) (.discovering t)
  | discovered {paths : List Str} {free : Nat} :
      WalkStep E store (.discovering ⟨.done paths, free⟩) (.openingGroups (paths.map fun p => (p, .todo)) free)
  | notDiscovered {err : RustytreeError} {free : Nat} :
      WalkStep E store (.discovering ⟨.failed err, free⟩) (.failed err)
  -- `open_single` starts its group open without a permit.
  | openGroup {pre post : List (Str × OpenStage)} {path : Str} {free : Nat} :
      WalkStep E store (.openingGroups (pre ++ (path, .todo) :: post) free)
        (.openingGroups (pre ++ (path, .opening) :: post) free)
  | groupOpened {pre post : List (Str × OpenStage)} {path : Str} {free : Nat} {attributes : List (Str × J)} :
      store.groupOpen path = .ok attributes →
      WalkStep E store (.openingGroups (pre ++ (path, .opening) :: post) free)
        (.openingGroups (pre ++ (path, .opened) :: post) free)
  | groupNotOpened {pre post : List (Str × OpenStage)} {path : Str} {free : Nat} {err : GroupCreateError} :
      store.groupOpen path = .error err →
      WalkStep E store (.openingGroups (pre ++ (path, .opening) :: post) free) (.failed (mapGroupOpenErr path "" err))
  | arraysOpened {pre post : List (Str × OpenStage)} {path : Str} {free : Nat} {node : NodeData J E} :
      openSingle store path = .ok node →
      WalkStep E store (.openingGroups (pre ++ (path, .opened) :: post) free)
        (.openingGroups (pre ++ (path, .done) :: post) free)
  -- `try_join_all` over the arrays returns the error that comes in first.
  | arraysNotOpened {pre post : List (Str × OpenStage)} {path : Str} {free : Nat} {attributes : List (Str × J)}
      {err : RustytreeError} :
      store.groupOpen path = .ok attributes → ArraysFail store path err →
      WalkStep E store (.openingGroups (pre ++ (path, .opened) :: post) free) (.failed err)
  -- `try_join_all` returns the nodes in the order of the paths.
  | groupsJoined {paths : List Str} {nodes : List (NodeData J E)} {free : Nat} :
      paths.mapM (openSingle store) = .ok nodes →
      WalkStep E store (.openingGroups (paths.map fun p => (p, .done)) free)
        (.fetching ⟨eagerTasks (eagerWork nodes), free⟩)
  | fetch {s t : State (Nat × Nat) RustytreeError} : Step s t → WalkStep E store (.fetching s) (.fetching t)
  | fetched {out : List (Nat × Nat)} {free : Nat} : WalkStep E store (.fetching ⟨.done out, free⟩) .finished

/-- The start of a walk: without recursion discovery is skipped. -/
def walkStart (store : ZarrsStore J) (glob : Option GlobPredicate) (fuel : Nat) (rootPath : Str) (recursive : Bool)
    (permits : Nat) : WalkState :=
  if recursive then .discovering ⟨.waiting (discoverJob store glob fuel rootPath), permits⟩
  else .openingGroups [(rootPath, .todo)] permits

/-! ## What fails a walk -/

/-- The groups the sequential walk opens. -/
def pathsToOpen (store : ZarrsStore J) (glob : Option GlobPredicate) (fuel : Nat) (rootPath : Str)
    (recursive : Bool) : Except RustytreeError (List Str) :=
  if recursive then discoverPaths store glob fuel rootPath else .ok [rootPath]

/-- A request that `open_single` makes for the group fails with `err`. -/
def OpenFails (store : ZarrsStore J) (path : Str) (err : RustytreeError) : Prop :=
  match store.groupOpen path with
  | .error openErr => err = mapGroupOpenErr path "" openErr
  | .ok _ => ArraysFail store path err

/-- A request of the walk fails with `err`: one of its descent or, once that has
ended, one for a group it has found. -/
def CanFail (store : ZarrsStore J) (glob : Option GlobPredicate) (fuel : Nat) (rootPath : Str) (recursive : Bool)
    (err : RustytreeError) : Prop :=
  (recursive = true ∧ Fails (discoverJob store glob fuel rootPath) err) ∨
  ∃ paths, pathsToOpen store glob fuel rootPath recursive = .ok paths ∧ ∃ path ∈ paths, OpenFails store path err

section
variable {store : ZarrsStore J} {glob : Option GlobPredicate} {fuel permits : Nat} {rootPath : Str} {recursive : Bool}

theorem walkViaZarrs_of_paths {paths : List Str} (h : pathsToOpen store glob fuel rootPath recursive = .ok paths) :
    walkViaZarrs (E := E) fuel store rootPath recursive glob = paths.mapM (openSingle store) := by
  unfold pathsToOpen at h
  rw [walkViaZarrs, h]

theorem walkViaZarrs_of_error {err : RustytreeError}
    (h : pathsToOpen store glob fuel rootPath recursive = .error err) :
    walkViaZarrs (E := E) fuel store rootPath recursive glob = .error err := by
  unfold pathsToOpen at h
  rw [walkViaZarrs, h]

theorem openArrayMeta_error {arrayPath : Str} {err : RustytreeError}
    (h : openArrayMeta (E := E) store arrayPath = .error err) :
    ∃ msg, store.arrayOpen arrayPath = .error msg ∧ err = .other s!"failed to open array {shown arrayPath}: {msg}" := by
  unfold openArrayMeta at h
  cases hmsg : store.arrayOpen arrayPath with
  | error msg =>
    simp only [hmsg, Except.error.injEq] at h
    exact ⟨msg, rfl, h.symm⟩
  | ok array =>
    simp only [hmsg] at h
    cases h

/-- What a group fails with in order is the error of one of its requests. -/
theorem openFails_of_openSingle {path : Str} {err : RustytreeError} (h : openSingle (E := E) store path = .error err) :
    OpenFails store path err := by
  unfold openSingle at h
  unfold OpenFails ArraysFail
  cases hopen : store.groupOpen path with
  | error openErr =>
    simp only [hopen, Except.error.injEq] at h
    exact h.symm
  | ok attributes =>
    cases hlist : store.childArrayPaths path with
    | error listErr =>
      simp only [hopen, hlist, Except.error.injEq] at h
      exact h.symm
    | ok arrayPaths =>
      simp only [hopen, hlist] at h
      cases hvars : arrayPaths.mapM (openArrayMeta (E := E) store) with
      | ok vars =>
        rw [hvars] at h
        cases h
      | error err' =>
        rw [hvars] at h
        cases h
        obtain ⟨arrayPath, hmem, harray⟩ := Lib.Collect.exists_of_mapM_error hvars
        exact ⟨arrayPath, hmem, openArrayMeta_error harray⟩

/-- A group with a request that fails does not open. -/
theorem openSingle_of_openFails {path : Str} {err : RustytreeError} (h : OpenFails store path err)
    {node : NodeData J E} : openSingle store path ≠ .ok node := by
  intro hnode
  unfold openSingle at hnode
  unfold OpenFails ArraysFail at h
  cases hopen : store.groupOpen path with
  | error openErr =>
    simp only [hopen] at hnode
    cases hnode
  | ok attributes =>
    cases hlist : store.childArrayPaths path with
    | error listErr =>
      simp only [hopen, hlist] at hnode
      cases hnode
    | ok arrayPaths =>
      simp only [hopen, hlist] at h hnode
      obtain ⟨vars, hvars, -⟩ := Lib.Collect.bind_eq_ok.1 hnode
      obtain ⟨arrayPath, hmem, msg, hmsg, -⟩ := h
      obtain ⟨var, -, hvar⟩ := Lib.Collect.exists_of_forall₂ (Lib.Collect.mapM_eq_ok.1 hvars) hmem
      simp only [openArrayMeta, hmsg] at hvar
      cases hvar

/-- The error of the sequential walk is one of a request. -/
theorem canFail_of_walkViaZarrs {err : RustytreeError}
    (h : walkViaZarrs (E := E) fuel store rootPath recursive glob = .error err) :
    CanFail store glob fuel rootPath recursive err := by
  cases hpaths : pathsToOpen store glob fuel rootPath recursive with
  | error err' =>
    rw [walkViaZarrs_of_error hpaths] at h
    cases h
    unfold pathsToOpen at hpaths
    cases recursive with
    | false => cases hpaths
    | true => exact .inl ⟨rfl, fails_of_run ((discoverJob_run store glob fuel rootPath).trans hpaths)⟩
  | ok paths =>
    rw [walkViaZarrs_of_paths hpaths] at h
    obtain ⟨path, hmem, hopen⟩ := Lib.Collect.exists_of_mapM_error h
    exact .inr ⟨paths, hpaths, path, hmem, openFails_of_openSingle hopen⟩

/-- With a request that fails the sequential walk does not succeed. -/
theorem walkViaZarrs_of_canFail {err : RustytreeError} (h : CanFail store glob fuel rootPath recursive err)
    {nodes : List (NodeData J E)} : walkViaZarrs fuel store rootPath recursive glob ≠ .ok nodes := by
  intro hwalk
  cases hpaths : pathsToOpen store glob fuel rootPath recursive with
  | error err' =>
    rw [walkViaZarrs_of_error hpaths] at hwalk
    cases hwalk
  | ok paths =>
    rw [walkViaZarrs_of_paths hpaths] at hwalk
    rcases h with ⟨rfl, hfails⟩ | ⟨paths', hpaths', path, hmem, hopen⟩
    · exact not_fails_of_run hfails ((discoverJob_run store glob fuel rootPath).trans hpaths)
    · cases hpaths.symm.trans hpaths'
      obtain ⟨node, -, hnode⟩ := Lib.Collect.exists_of_forall₂ (Lib.Collect.mapM_eq_ok.1 hwalk) hmem
      exact openSingle_of_openFails hopen hnode

end

/-! ## The walk follows the sequential one -/

/-- The variables to fetch eagerly, by node and position in the node. -/
def eagerPositions (nodes : List (NodeData J E)) : List (Nat × Nat) :=
  (eagerWork nodes).map fun task => (task.1, task.2.1)

/-- What is known of a group by the stage of its `open_single`. -/
def Opened (E : Type) (store : ZarrsStore J) : Str × OpenStage → Prop
  | (path, .opened) => ∃ attributes, store.groupOpen path = .ok attributes
  | (path, .done) => ∃ node : NodeData J E, openSingle store path = .ok node
  | _ => True

/-- How far the walk has come in what the sequential walk does; all permits are accounted for. -/
def Follows (E : Type) (store : ZarrsStore J) (glob : Option GlobPredicate) (fuel : Nat) (rootPath : Str)
    (recursive : Bool) (permits : Nat) : WalkState → Prop
  | .discovering s => Conserved permits s ∧
      s.task.expected = (pathsToOpen store glob fuel rootPath recursive).toOption ∧
      ∀ err, MayFail s.task err → CanFail store glob fuel rootPath recursive err
  | .openingGroups opens free => free = permits ∧
      pathsToOpen store glob fuel rootPath recursive = .ok (opens.map (·.1)) ∧ ∀ o ∈ opens, Opened E store o
  | .fetching s => Conserved permits s ∧ ∃ nodes : List (NodeData J E),
      walkViaZarrs fuel store rootPath recursive glob = .ok nodes ∧ s.task.expected = some (eagerPositions nodes)
  | .finished => ∃ nodes : List (NodeData J E), walkViaZarrs fuel store rootPath recursive glob = .ok nodes
  | .failed err => CanFail store glob fuel rootPath recursive err

section
variable {store : ZarrsStore J} {glob : Option GlobPredicate} {fuel permits : Nat} {rootPath : Str} {recursive : Bool}
  {paths : List Str}

theorem follows_start : Follows E store glob fuel rootPath recursive permits
    (walkStart store glob fuel rootPath recursive permits) := by
  unfold walkStart
  cases recursive with
  | true =>
    refine ⟨Nat.zero_add permits, congrArg Except.toOption (discoverJob_run store glob fuel rootPath), fun err h => ?_⟩
    obtain ⟨⟩ := h
    next hfails => exact .inl ⟨rfl, hfails⟩
  | false => exact ⟨rfl, rfl, by simp [Opened]⟩

theorem eagerTasks_expected (nodes : List (NodeData J E)) :
    (eagerTasks (eagerWork nodes)).expected = some (eagerPositions nodes) := by
  rw [← joinAll_expected, joinAll, eagerPositions, List.map_map]
  rfl

/-- One task moves on; the groups of the others are as open as before. -/
theorem opened_replace {pre post : List (Str × OpenStage)} {path : Str} {stage stage' : OpenStage}
    (hall : ∀ o ∈ pre ++ (path, stage) :: post, Opened E store o) (hnew : Opened E store (path, stage')) :
    ∀ o ∈ pre ++ (path, stage') :: post, Opened E store o := by
  intro o ho
  rcases List.mem_append.1 ho with ho | ho
  · exact hall o (List.mem_append_left _ ho)
  · rcases List.mem_cons.1 ho with rfl | ho
    · exact hnew
    · exact hall o (List.mem_append_right _ (List.mem_cons_of_mem _ ho))

theorem follows_step {s t : WalkState} (hs : Follows E store glob fuel rootPath recursive permits s)
    (h : WalkStep E store s t) : Follows E store glob fuel rootPath recursive permits t := by
  cases h with
  | discover hst =>
    obtain ⟨hconserved, hexpected, hfails⟩ := hs
    exact ⟨hst.conserved hconserved, hst.expected.trans hexpected, fun err h => hfails err (hst.mayFail h)⟩
  | @discovered found free =>
    obtain ⟨hconserved, hexpected, -⟩ := hs
    have hfree : free = permits := by
      unfold Conserved at hconserved
      exact (Nat.zero_add free).symm.trans hconserved
    refine ⟨hfree, ?_, by simp [Opened]⟩
    rw [List.map_map]
    cases hpaths : pathsToOpen store glob fuel rootPath recursive with
    | error err =>
      rw [hpaths] at hexpected
      cases hexpected
    | ok paths =>
      rw [hpaths] at hexpected
      rw [Option.some.inj hexpected]
      exact congrArg Except.ok (List.map_id paths).symm
  | notDiscovered => exact hs.2.2 _ .failed
  | openGroup =>
    obtain ⟨hfree, hpaths, hall⟩ := hs
    exact ⟨hfree, by simpa using hpaths, opened_replace hall trivial⟩
  | groupOpened hopen =>
    obtain ⟨hfree, hpaths, hall⟩ := hs
    exact ⟨hfree, by simpa using hpaths, opened_replace hall ⟨_, hopen⟩⟩
  | @groupNotOpened pre post path free err hopen =>
    exact .inr ⟨_, hs.2.1, path, by simp, by simp only [OpenFails, hopen]⟩
  | arraysOpened hopen =>
    obtain ⟨hfree, hpaths, hall⟩ := hs
    exact ⟨hfree, by simpa using hpaths, opened_replace hall ⟨_, hopen⟩⟩
  | @arraysNotOpened pre post path free attributes err hopen hfail =>
    exact .inr ⟨_, hs.2.1, path, by simp, by simpa only [OpenFails, hopen] using hfail⟩
  | @groupsJoined paths nodes free hjoin =>
    obtain ⟨hfree, hpaths, -⟩ := hs
    rw [List.map_map] at hpaths
    have hids : paths.map (Prod.fst ∘ fun p => (p, OpenStage.done)) = paths := List.map_id paths
    refine ⟨?_, nodes, ?_, eagerTasks_expected nodes⟩
    · show (eagerTasks (eagerWork nodes)).held + free = permits
      rw [eagerTasks_held, Nat.zero_add]
      exact hfree
    · rw [walkViaZarrs_of_paths hpaths, hids]
      exact hjoin
  | fetch hst =>
    obtain ⟨hconserved, nodes, hnodes, hexpected⟩ := hs
    exact ⟨hst.conserved hconserved, nodes, hnodes, hst.expected.trans hexpected⟩
  | fetched =>
    obtain ⟨-, nodes, hnodes, -⟩ := hs
    exact ⟨nodes, hnodes⟩

/-! ## Runs to the group opens -/

theorem reaches_discover {s t : State Str RustytreeError} (h : Reaches Step s t) :
    Reaches (WalkStep E store) (.discovering s) (.discovering t) :=
  h.lift WalkState.discovering fun _ _ hst => .discover hst

/-- The group opens can all start before one ends. -/
theorem reaches_opening (pre : List (Str × OpenStage)) (todo : List Str) (free : Nat) :
    Reaches (WalkStep E store) (.openingGroups (pre ++ todo.map fun p => (p, .todo)) free)
      (.openingGroups (pre ++ todo.map fun p => (p, .opening)) free) := by
  induction todo generalizing pre with
  | nil => exact .refl
  | cons path todo ih =>
    have hrest := ih (pre ++ [(path, .opening)])
    rw [List.append_assoc, List.append_assoc] at hrest
    exact .head .openGroup hrest

/-- A walk reaches the state with all its group opens in flight. -/
theorem reaches_all_opening (hpos : 0 < permits)
    (hpaths : pathsToOpen store glob fuel rootPath recursive = .ok paths) :
    Reaches (WalkStep E store) (walkStart store glob fuel rootPath recursive permits)
      (.openingGroups (paths.map fun p => (p, .opening)) permits) := by
  have hopen : Reaches (WalkStep E store) (.openingGroups (paths.map fun p => (p, .todo)) permits)
      (.openingGroups (paths.map fun p => (p, .opening)) permits) := reaches_opening [] paths permits
  unfold walkStart
  cases recursive with
  | true =>
    rw [pathsToOpen, if_pos rfl, ← discoverJob_run] at hpaths
    exact (reaches_discover (reaches_done hpos hpaths)).trans (.head .discovered hopen)
  | false =>
    cases hpaths
    exact hopen

end

end Rustytree
