import Rustytree.Backend
import Rustytree.WalkSteps
/-!
# The order of a walk

Whatever the number of permits and the order in which tasks end, a run of a
walker returns the list that its sequential reading computes. The vanilla list
is the pre-order of the pruned tree. The icechunk list is sorted by the texts of
the paths, and a path's text is the beginning of the text of every path below
it; so both put a group after its ancestors, whatever the names.
-/

namespace Rustytree
open Glob Lib.Buckets Lib.Dict Lib.ForkJoin Lib.Preorder Lib.Runs

variable {J E : Type}

/-! ## Runs of the walkers -/

/-- A run of `walk_via_zarrs` under the semaphore returns `nodes`: all groups that
discovery found are open, and `try_join_all` hands their nodes on. -/
def VanillaReturns (fuel : Nat) (store : ZarrsStore J) (rootPath : Str) (maxConcurrency : Option Nat)
    (recursive : Bool) (glob : Option GlobPredicate) (nodes : List (NodeData J E)) : Prop :=
  ∃ (paths : List Str) (free : Nat),
    Reaches (WalkStep E store) (walkStart store glob fuel rootPath recursive (semaphorePermits maxConcurrency))
      (.openingGroups (paths.map fun p => (p, .done)) free) ∧
    paths.mapM (openSingle store) = .ok nodes

/-- A run of `walk_icechunk_session_snapshot` returns `nodes`: its jobs run on
`threads` blocking threads, and their results are collected in the order of the jobs. -/
def IcechunkReturns (threads : Nat) (session : Session J) (rootPath : Str) (recursive : Bool)
    (glob : Option GlobPredicate) (nodes : List (NodeData J E)) : Prop :=
  ∃ parent nodesIter snapshots groups arrays results free groupJobs attached,
    session.pathNew rootPath = .ok parent ∧ session.listNodes parent = .ok nodesIter ∧
    nodesIter.mapM id = .ok snapshots ∧
    materialise session (normalizePath rootPath) recursive glob snapshots ∅ [] = .ok (groups, arrays) ∧
    Reaches Step ⟨joinAll (ε := RustytreeError) ((byParent arrays).toList.map (groupJob (E := E) session)), threads⟩
      ⟨.done results, free⟩ ∧
    results.mapM id = .ok groupJobs ∧ attachVars groupJobs groups = .ok attached ∧
    nodes = attached.toList.map (·.2)

/-- A run of `walk_recursive` returns `nodes`: one of a walker, and then one of the eager phase. -/
def WalkReturns (fuel threads : Nat) (fetch : Nat → Nat → ZarrArray J → Except RustytreeError E)
    (source : WalkSource J) (rootPath : Str) (maxConcurrency : Option Nat) (recursive : Bool)
    (glob : Option GlobPredicate) (nodes : List (NodeData J E)) : Prop :=
  ∃ walked : List (NodeData J E),
    (match source with
      | .icechunk session => IcechunkReturns threads session rootPath recursive glob walked
      | .vanilla store => VanillaReturns fuel store rootPath maxConcurrency recursive glob walked) ∧
    EagerReturns fetch (semaphorePermits maxConcurrency) walked nodes

/-- The group opens in flight can all end well. -/
theorem reaches_opened {store : ZarrsStore J} (pre : List (Str × OpenStage)) {todo : List Str}
    (h : ∀ path ∈ todo, ∃ node : NodeData J E, openSingle store path = .ok node) (free : Nat) :
    Reaches (WalkStep E store) (.openingGroups (pre ++ todo.map fun p => (p, .opening)) free)
      (.openingGroups (pre ++ todo.map fun p => (p, .done)) free) := by
  induction todo generalizing pre with
  | nil => exact .refl
  | cons path todo ih =>
    obtain ⟨node, hnode⟩ := h path List.mem_cons_self
    obtain ⟨attributes, hgroup⟩ : ∃ attributes, store.groupOpen path = .ok attributes := by
      cases hg : store.groupOpen path with
      | ok attributes => exact ⟨attributes, rfl⟩
      | error err => simp [openSingle, hg] at hnode
    have hrest := ih (pre ++ [(path, .done)]) fun p hp => h p (List.mem_cons_of_mem path hp)
    rw [List.append_assoc, List.append_assoc] at hrest
    exact .head (.groupOpened hgroup) (.head (.arraysOpened hnode) hrest)

/-- In any order of the opens, the vanilla walk returns the nodes of the discovered paths. -/
theorem vanillaReturns_iff {fuel : Nat} {store : ZarrsStore J} {rootPath : Str} (maxConcurrency : Option Nat)
    {recursive : Bool} {glob : Option GlobPredicate} {paths : List Str} {nodes : List (NodeData J E)}
    (hpaths : pathsToOpen store glob fuel rootPath recursive = .ok paths) :
    VanillaReturns fuel store rootPath maxConcurrency recursive glob nodes ↔
      paths.mapM (openSingle store) = .ok nodes := by
  constructor
  · rintro ⟨found, free, hreach, hjoin⟩
    have hfollows : Follows E store glob fuel rootPath recursive (semaphorePermits maxConcurrency)
        (.openingGroups (found.map fun p => (p, .done)) free) :=
      invariant hreach follows_start fun _ _ => follows_step
    have hfound : found = paths := by simpa [Function.comp_def] using hfollows.2.1.symm.trans hpaths
    rwa [← hfound]
  · intro hjoin
    have hsingle : ∀ path ∈ paths, ∃ node : NodeData J E, openSingle store path = .ok node := by
      intro path hp
      obtain ⟨node, -, hnode⟩ := Lib.Collect.exists_of_forall₂ (Lib.Collect.mapM_eq_ok.1 hjoin) hp
      exact ⟨node, hnode⟩
    exact ⟨paths, _, (reaches_all_opening (semaphorePermits_pos _) hpaths).trans (reaches_opened [] hsingle _), hjoin⟩

/-- In any order of the jobs, the icechunk walk returns what its sequential reading does. -/
theorem icechunkReturns_iff {threads : Nat} (hthreads : 0 < threads) {session : Session J} {rootPath : Str}
    {recursive : Bool} {glob : Option GlobPredicate} {nodes : List (NodeData J E)} :
    IcechunkReturns threads session rootPath recursive glob nodes ↔
      walkIcechunkSessionSnapshot session rootPath recursive glob = .ok nodes := by
  have hjobs : ∀ entries : List (Str × List NodeSnapshot),
      (entries.map (groupJob (E := E) session)).mapM id = entries.mapM (groupJob session) := fun entries => by
    rw [List.mapM_map]
    rfl
  constructor
  · rintro ⟨parent, nodesIter, snapshots, groups, arrays, results, free, groupJobs, attached, hparent, hiter, hsnaps,
      hmat, hreach, hcollect, hattach, rfl⟩
    cases finished_expected (joinAll_expected _) hreach trivial
    rw [hjobs] at hcollect
    simp only [walkIcechunkSessionSnapshot, hparent, hiter, hsnaps, hmat, bind, Except.bind, hcollect, hattach]
  · intro h
    unfold walkIcechunkSessionSnapshot at h
    cases hparent : session.pathNew rootPath with
    | error err => simp [hparent] at h
    | ok parent =>
      cases hiter : session.listNodes parent with
      | error err => simp [hparent, hiter] at h
      | ok nodesIter =>
        cases hsnaps : nodesIter.mapM id with
        | error err => simp [hparent, hiter, hsnaps] at h
        | ok snapshots =>
          simp only [hparent, hiter, hsnaps] at h
          obtain ⟨⟨groups, arrays⟩, hmat, h⟩ := Lib.Collect.bind_eq_ok.1 h
          obtain ⟨groupJobs, hcollect, h⟩ := Lib.Collect.bind_eq_ok.1 h
          obtain ⟨attached, hattach, h⟩ := Lib.Collect.bind_eq_ok.1 h
          have hreach := reaches_expected hthreads (joinAll_held _)
            (joinAll_expected (ε := RustytreeError) ((byParent arrays).toList.map (groupJob (E := E) session)))
          exact ⟨parent, nodesIter, snapshots, groups, arrays, _, threads, groupJobs, attached, hparent, hiter, hsnaps,
            hmat, hreach, (hjobs _).trans hcollect, hattach, (Except.ok.inj h).symm⟩

/-! ## The icechunk list is sorted -/

/-- Every entry of the map is filed under its own path. -/
def Keyed (groups : Std.TreeMap Str (NodeData J E)) : Prop :=
  ∀ (k : Str) (node : NodeData J E), groups[k]? = some node → node.path = k

theorem Keyed.insert {groups : Std.TreeMap Str (NodeData J E)} (h : Keyed groups) {k : Str} {node : NodeData J E}
    (hk : node.path = k) : Keyed (groups.insert k node) := by
  intro k' node' hget
  by_cases heq : k = k'
  · subst heq
    rw [Std.TreeMap.getElem?_insert_self] at hget
    rw [← Option.some.inj hget, hk]
  · rw [getElem?_insert_ne heq] at hget
    exact h k' node' hget

theorem materialise_keyed {session : Session J} {rootNormalized : Str} {recursive : Bool} {glob : Option GlobPredicate}
    {snaps : List NodeSnapshot} {groups : Std.TreeMap Str (NodeData J E)} {arrays : List NodeSnapshot}
    {result : Std.TreeMap Str (NodeData J E) × List NodeSnapshot} (hgroups : Keyed groups)
    (h : materialise session rootNormalized recursive glob snaps groups arrays = .ok result) : Keyed result.1 := by
  induction snaps generalizing groups arrays with
  | nil =>
    cases h
    exact hgroups
  | cons snap snaps ih =>
    unfold materialise at h
    cases hkind : snap.nodeData with
    | group =>
      simp only [hkind] at h
      split at h
      · exact ih hgroups h
      · split at h
        · exact ih hgroups h
        · split at h
          · cases h
          · refine ih (hgroups.insert ?_) h
            rfl
    | array =>
      simp only [hkind] at h
      split at h
      · exact ih hgroups h
      · split at h
        · exact ih hgroups h
        · exact ih hgroups h

theorem attachVars_keyed {jobs : List (Str × List (VarMeta J E))} {groups attached : Std.TreeMap Str (NodeData J E)}
    (hgroups : Keyed groups) (h : attachVars jobs groups = .ok attached) : Keyed attached := by
  induction jobs generalizing groups with
  | nil =>
    cases h
    exact hgroups
  | cons job jobs ih =>
    obtain ⟨parentPath, vars⟩ := job
    rw [attachVars] at h
    split at h
    next node hnode =>
      have hpath : node.path = parentPath := hgroups parentPath node hnode
      refine ih (hgroups.insert ?_) h
      exact hpath
    next =>
      split at h
      · cases h
      · exact ih hgroups h

theorem Keyed.paths {groups : Std.TreeMap Str (NodeData J E)} (h : Keyed groups) :
    (groups.toList.map (·.2)).map (·.path) = groups.toList.map (·.1) := by
  rw [List.map_map]
  apply List.map_congr_left
  rintro ⟨k, node⟩ hmem
  exact h k node (mem_toList.1 hmem)

/-- Whatever the session holds, the nodes are returned in the order of their paths. -/
theorem walkIcechunk_sorted {session : Session J} {rootPath : Str} {recursive : Bool} {glob : Option GlobPredicate}
    {nodes : List (NodeData J E)} (h : walkIcechunkSessionSnapshot session rootPath recursive glob = .ok nodes) :
    (nodes.map (·.path)).Pairwise fun a b => compare a b = .lt := by
  obtain ⟨_, _, _, groups, arrays, _, _, groupJobs, attached, -, -, -, hmat, -, -, hattach, rfl⟩ :=
    (icechunkReturns_iff Nat.one_pos).2 h
  have hempty : Keyed (∅ : Std.TreeMap Str (NodeData J E)) := by
    intro k node hget
    simp at hget
  rw [(attachVars_keyed (materialise_keyed hempty hmat) hattach).paths, List.pairwise_map]
  exact Std.TreeMap.ordered_keys_toList

/-- A text comes before its continuations. -/
theorem compare_append (s : Str) (c : Char) (t : Str) : compare s (s ++ c :: t) = .lt := by
  induction s with
  | nil => exact List.compare_nil_cons
  | cons x s ih =>
    have hx : compare x x = .eq := Std.ReflOrd.compare_self
    rw [List.cons_append, List.compare_cons_cons, hx, ih]
    rfl

theorem pathStr_continues {p q : Path} (h : p <+: q) (hne : p ≠ q) : ∃ c t, pathStr q = pathStr p ++ c :: t := by
  obtain ⟨rest, rfl⟩ := h
  cases rest with
  | nil => simp at hne
  | cons name rest =>
    cases p with
    | nil =>
      obtain ⟨c, cs, hname⟩ := List.exists_cons_of_ne_nil name.2.1
      exact ⟨c, cs ++ joined rest, by simp [pathStr, joined, hname]⟩
    | cons n p => exact ⟨'/', name.1 ++ joined rest, by simp [pathStr, joined]⟩

/-- A path sorts before the paths below it. -/
theorem compare_pathStr {p q : Path} (h : p <+: q) (hne : p ≠ q) : compare (pathStr p) (pathStr q) = .lt := by
  obtain ⟨c, t, heq⟩ := pathStr_continues h hne
  rw [heq]
  exact compare_append _ c t

/-! ## Both walks are in topological order -/

/-- The nodes are those of `paths`, each once, the root first and every group
after its ancestors; a dictionary by path has an entry for each, in this order. -/
structure TopologicalWalk (root : Path) (nodes : List (NodeData J E)) (paths : List Path) : Prop where
  listed : nodes.map (·.path) = paths.map pathStr
  nodup : paths.Nodup
  rootFirst : paths.head? = some root
  ancestorsFirst : AncestorsFirst (· <+: ·) paths
  keyed : nodesToPydict nodes = nodes.map fun node => (node.path, node)

theorem topologicalWalk_of {root : Path} {nodes : List (NodeData J E)} {paths : List Path}
    (hlisted : nodes.map (·.path) = paths.map pathStr) (hnodup : paths.Nodup) (hroot : root ∈ paths)
    (hbelow : ∀ p ∈ paths, root <+: p) (hancestors : AncestorsFirst (· <+: ·) paths) :
    TopologicalWalk root nodes paths := by
  refine ⟨hlisted, hnodup, hancestors.head? hroot hbelow, hancestors, ?_⟩
  apply nodesToPydict_keyed
  rw [hlisted]
  exact hnodup.map pathStr_injective

theorem openSingle_path {store : ZarrsStore J} {path : Str} {node : NodeData J E}
    (h : openSingle store path = .ok node) : node.path = path := by
  unfold openSingle at h
  split at h
  · cases h
  · split at h
    · cases h
    · obtain ⟨vars, -, h⟩ := Lib.Collect.bind_eq_ok.1 h
      cases h
      rfl

section
variable {H : Hierarchy J} {root : Path} {fuel threads : Nat}

/-- The discovered paths, with recursion or without, are a pruned tree in pre-order. -/
theorem walkedPaths_preorder {store : ZarrsStore J} (h : Serves store H) {children : Path → List Path}
    (hlisted : ∀ p ∈ H.groupPaths, store.childGroupPaths (pathStr p) = .ok ((children p).map pathStr))
    (hchildren : ∀ p ∈ H.groupPaths, (children p).Perm (H.childGroups p)) (hr : root ∈ H.groupPaths)
    (hfuel : H.height ≤ fuel) (recursive : Bool) (glob : Option GlobPredicate) :
    ∃ t, IsPruned children (fun q => recursive && passes glob (pathStr q)) t ∧ t.label = root ∧
      (if recursive then discoverPaths store glob fuel (pathStr root) else .ok [pathStr root]) =
        .ok (t.preorder.map pathStr) := by
  cases recursive with
  | true => exact discoverPaths_preorder h hlisted hchildren fuel hr (by omega)
  | false =>
    refine ⟨.node root [], .node ?_ (fun t ht => absurd ht List.not_mem_nil), rfl, rfl⟩
    simp

/-- Every run of the vanilla walk returns the nodes of a pruned tree in pre-order. -/
theorem vanilla_walk {store : ZarrsStore J} (h : Serves store H) {children : Path → List Path}
    (hlisted : ∀ p ∈ H.groupPaths, store.childGroupPaths (pathStr p) = .ok ((children p).map pathStr))
    (hchildren : ∀ p ∈ H.groupPaths, (children p).Perm (H.childGroups p)) (hr : root ∈ H.groupPaths)
    (hfuel : H.height ≤ fuel) (maxConcurrency : Option Nat) (recursive : Bool) (glob : Option GlobPredicate) :
    ∃ (walked : List (NodeData J E)) (t : RoseTree Path),
      (∀ nodes, VanillaReturns fuel store (pathStr root) maxConcurrency recursive glob nodes ↔ nodes = walked) ∧
      walked.map (·.path) = t.preorder.map pathStr ∧
      IsPruned children (fun q => recursive && passes glob (pathStr q)) t ∧ t.label = root := by
  obtain ⟨t, hpruned, hlabel, hpaths⟩ := walkedPaths_preorder h hlisted hchildren hr hfuel recursive glob
  obtain ⟨walked, hwalk, -⟩ := walkViaZarrs_ok (E := E) h hr hfuel recursive glob
  have hjoin : (t.preorder.map pathStr).mapM (openSingle store) = .ok walked := by
    rw [← hwalk, walkViaZarrs, hpaths]
  refine ⟨walked, t, ?_, ?_, hpruned, hlabel⟩
  · intro nodes
    rw [vanillaReturns_iff maxConcurrency hpaths, hjoin, Except.ok.injEq, eq_comm]
  · rw [← List.forall₂_eq_eq_eq, List.forall₂_map_left_iff]
    exact ((Lib.Collect.mapM_eq_ok.1 hjoin).imp fun _ _ hopen => openSingle_path hopen).flip

/-- Every run of the icechunk walk returns the nodes of its region, sorted. -/
theorem icechunk_walk {session : Session J} (hh : HoldsAt session H root) (hr : root ∈ H.groupPaths)
    (hthreads : 0 < threads) (recursive : Bool) {glob : Option GlobPredicate}
    (hpass : passes glob (pathStr root) = true) :
    ∃ (walked : List (NodeData J E)) (paths : List Path),
      (∀ nodes, IcechunkReturns threads session (pathStr root) recursive glob nodes ↔ nodes = walked) ∧
      walked.map (·.path) = paths.map pathStr ∧ paths.Nodup ∧ (∀ q, q ∈ paths ↔ Region H root recursive glob q) ∧
      AncestorsFirst (· <+: ·) paths := by
  obtain ⟨l, hperm, hlists⟩ := hh
  obtain ⟨walked, hwalk, hwalked⟩ := walkIcechunk_ok (E := E) hlists hperm hr hpass recursive
  obtain ⟨paths, hnodup, hmem, hpaths⟩ := (hwalked.imp fun _ _ _ hn => hn.describes hperm).paths
  refine ⟨walked, paths, ?_, hpaths, hnodup, hmem, ?_⟩
  · intro nodes
    rw [icechunkReturns_iff hthreads, hwalk, Except.ok.injEq, eq_comm]
  · have hsorted := walkIcechunk_sorted hwalk
    rw [hpaths, List.pairwise_map] at hsorted
    apply ancestorsFirst_of_pairwise hsorted
    intro p q hpq hne hqp
    rw [Std.OrientedCmp.gt_of_lt (compare_pathStr hpq hne)] at hqp
    cases hqp

theorem walkReturns_iff {fetch : Nat → Nat → ZarrArray J → Except RustytreeError E} {source : WalkSource J}
    {maxConcurrency : Option Nat} {recursive : Bool} {glob : Option GlobPredicate} {walked : List (NodeData J E)}
    (h : ∀ nodes, (match source with
      | .icechunk session => IcechunkReturns threads session (pathStr root) recursive glob nodes
      | .vanilla store => VanillaReturns fuel store (pathStr root) maxConcurrency recursive glob nodes) ↔
        nodes = walked)
    (nodes : List (NodeData J E)) :
    WalkReturns fuel threads fetch source (pathStr root) maxConcurrency recursive glob nodes ↔
      nodes = eagerPhase fetch walked := by
  unfold WalkReturns
  simp only [h, eagerReturns_iff (semaphorePermits_pos maxConcurrency), exists_eq_left]

/-- Every run of `walk_recursive` on a vanilla store returns the pre-order of one pruned tree. -/
theorem vanilla_topological {store : ZarrsStore J} (hs : Serves store H) (hr : root ∈ H.groupPaths)
    (hfuel : H.height ≤ fuel) (maxConcurrency : Option Nat) (recursive : Bool) (glob : Option GlobPredicate)
    (fetch : Nat → Nat → ZarrArray J → Except RustytreeError E) :
    ∃ (nodes : List (NodeData J E)) (children : Path → List Path) (t : RoseTree Path),
      (∀ returned, WalkReturns fuel threads fetch (.vanilla store) (pathStr root) maxConcurrency recursive glob
        returned ↔ returned = nodes) ∧
      (∀ p ∈ H.groupPaths, store.childGroupPaths (pathStr p) = .ok ((children p).map pathStr)) ∧
      IsPruned children (fun q => recursive && passes glob (pathStr q)) t ∧ t.label = root ∧
      TopologicalWalk root nodes t.preorder ∧ Contiguous (· <+: ·) t.preorder := by
  have hchildren := hs.childGroups
  choose! children hlisted hperm using hchildren
  obtain ⟨walked, t, hreturns, hpaths, hpruned, hlabel⟩ :=
    vanilla_walk (E := E) hs hlisted hperm hr hfuel maxConcurrency recursive glob
  obtain ⟨hordered, hbelow⟩ := hpruned.ordered hperm (hlabel ▸ hr)
  refine ⟨eagerPhase fetch walked, children, t, walkReturns_iff hreturns, hlisted, hpruned, hlabel,
    topologicalWalk_of ((eagerPhase_paths fetch walked).trans hpaths) (hpruned.nodup hperm (hlabel ▸ hr)) ?_
      (hlabel ▸ hbelow) ?_, hordered.contiguous⟩
  · rw [← hlabel]
    cases t with
    | node p ts => exact List.mem_cons_self
  · apply ancestorsFirst_of_pairwise hordered.pairwise
    intro p q hpq _ hqp
    exact hqp hpq

/-- Every run of `walk_recursive` on an icechunk session returns one list in topological order. -/
theorem icechunk_topological {session : Session J} (hh : HoldsAt session H root) (hr : root ∈ H.groupPaths)
    (hthreads : 0 < threads) (maxConcurrency : Option Nat) (recursive : Bool) {glob : Option GlobPredicate}
    (hpass : passes glob (pathStr root) = true) (fetch : Nat → Nat → ZarrArray J → Except RustytreeError E) :
    ∃ (nodes : List (NodeData J E)) (paths : List Path),
      (∀ returned, WalkReturns fuel threads fetch (.icechunk session) (pathStr root) maxConcurrency recursive glob
        returned ↔ returned = nodes) ∧
      TopologicalWalk root nodes paths := by
  obtain ⟨walked, paths, hreturns, hpaths, hnodup, hmem, hfirst⟩ :=
    icechunk_walk (E := E) hh hr hthreads recursive hpass
  refine ⟨eagerPhase fetch walked, paths, walkReturns_iff hreturns,
    topologicalWalk_of ((eagerPhase_paths fetch walked).trans hpaths) hnodup ?_ ?_ hfirst⟩
  · rw [hmem]
    refine ⟨hr, ?_⟩
    cases recursive with
    | true => exact ⟨List.prefix_refl root, .inl rfl⟩
    | false => rfl
  · intro p hp
    exact ((hmem p).1 hp).below_root

/-- From any root, with a glob only from `/`, for any `max_concurrency` and in
every run: the vanilla walk returns the pre-order of its pruned tree, each
group directly followed by its descendants, and both walks return a list in
topological order without a path twice. -/
theorem walk_topological (hr : root ∈ H.groupPaths) (recursive : Bool) (glob : Option GlobPredicate)
    (hcombo : glob = none ∨ root = []) (hfuel : H.height ≤ fuel) (hthreads : 0 < threads)
    (maxConcurrency : Option Nat) (fetch : Nat → Nat → ZarrArray J → Except RustytreeError E) :
    (∀ store, Serves store H → ∃ (nodes : List (NodeData J E)) (children : Path → List Path) (t : RoseTree Path),
      (∀ returned, WalkReturns fuel threads fetch (.vanilla store) (pathStr root) maxConcurrency recursive glob
        returned ↔ returned = nodes) ∧
      (∀ p ∈ H.groupPaths, store.childGroupPaths (pathStr p) = .ok ((children p).map pathStr)) ∧
      IsPruned children (fun q => recursive && passes glob (pathStr q)) t ∧ t.label = root ∧
      TopologicalWalk root nodes t.preorder ∧ Contiguous (· <+: ·) t.preorder) ∧
    (∀ session, HoldsAt session H root → ∃ (nodes : List (NodeData J E)) (paths : List Path),
      (∀ returned, WalkReturns fuel threads fetch (.icechunk session) (pathStr root) maxConcurrency recursive glob
        returned ↔ returned = nodes) ∧
      TopologicalWalk root nodes paths) := by
  refine ⟨fun store hs => vanilla_topological hs hr hfuel maxConcurrency recursive glob fetch, fun session hh => ?_⟩
  have hpass : passes glob (pathStr root) = true := by
    rcases hcombo with rfl | rfl
    · rfl
    · exact passes_root glob
  exact icechunk_topological hh hr hthreads maxConcurrency recursive hpass fetch

end

/-- The radar tree with one permit, from both kinds of store. -/
theorem walk_topological_radar :
    (∃ (nodes : List (NodeData Nat Unit)) (t : RoseTree Path),
      WalkReturns 9 1 (fun _ _ _ => .ok ()) (.vanilla (storeOf radarTree)) (pathStr []) (some 1) true
        (some (.parse "/VCP-12/*".toList)) nodes ∧ TopologicalWalk [] nodes t.preorder) ∧
    (∃ (nodes : List (NodeData Nat Unit)) (paths : List Path),
      WalkReturns 9 1 (fun _ _ _ => .ok ()) (.icechunk (sessionOf radarTree)) (pathStr []) (some 1) true
        (some (.parse "/VCP-12/*".toList)) nodes ∧ TopologicalWalk [] nodes paths) := by
  have hroot : ([] : Path) ∈ radarTree.groupPaths := by decide
  have hfuel : radarTree.height ≤ 9 := by decide
  have hwalk := walk_topological hroot true (some (.parse "/VCP-12/*".toList)) (.inr rfl) hfuel Nat.one_pos (some 1)
    fun _ _ _ => (.ok () : Except RustytreeError Unit)
  obtain ⟨nodes, children, t, hreturns, -, -, -, htopological, -⟩ := hwalk.1 _ (storeOf_serves radarTree)
  obtain ⟨nodes', paths, hreturns', htopological'⟩ := hwalk.2 _ (sessionOf_holds radarTree [])
  exact ⟨⟨nodes, t, (hreturns nodes).2 rfl, htopological⟩, nodes', paths, (hreturns' nodes').2 rfl, htopological'⟩

end Rustytree
