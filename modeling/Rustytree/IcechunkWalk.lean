import Rustytree.Lib.Buckets
import Rustytree.VanillaWalk
/-!
# The icechunk walker (`walk_icechunk_session_snapshot`)

One listing of the whole subtree is filtered flat: groups go into a map by
path, arrays into buckets by the path of their parent, and the buckets are then
attached to the groups. We prove that every bucket finds its group.
-/

namespace Rustytree
open Glob Lib.Buckets

variable {J E : Type}

/-! ## The source -/

/-- `parse_group_attrs`. -/
def parseGroupAttrs (session : Session J) (userData : List UInt8) (path : Str) : Except RustytreeError (Attrs J) :=
  if userData.isEmpty then .ok ∅
  else match session.groupMetadata userData with
  | .error err => .error (.other s!"icechunk: failed to parse group zarr.json at {shown path}: {err}")
  | .ok attributes => .ok (cloneAttrs attributes)

/-- `build_var_meta_from_snapshot`. -/
def buildVarMetaFromSnapshot (session : Session J) (snap : NodeSnapshot) (arrayPath : Str) :
    Except RustytreeError (VarMeta J E) :=
  match session.arrayMetadata snap.userData with
  | .error err => .error (.other s!"icechunk: failed to parse array zarr.json at {shown arrayPath}: {err}")
  | .ok metadata =>
    match session.newWithMetadata arrayPath metadata with
    | .error err => .error (.other s!"icechunk: failed to construct Array from snapshot for {shown arrayPath}: {err}")
    | .ok array => .ok (varMeta arrayPath array)

/-- The loop over the snapshots: groups by path, and the arrays to attach. -/
def materialise (session : Session J) (rootNormalized : Str) (recursive : Bool) (glob : Option GlobPredicate) :
    List NodeSnapshot → Std.TreeMap Str (NodeData J E) → List NodeSnapshot →
      Except RustytreeError (Std.TreeMap Str (NodeData J E) × List NodeSnapshot)
  | [], groups, arrays => .ok (groups, arrays)
  | snap :: snaps, groups, arrays =>
    match snap.nodeData with
    | .group =>
      let path := icePathToString snap.path
      -- Here the root is asked as well, unlike in `discover_paths`.
      if !recursive && path != rootNormalized then materialise session rootNormalized recursive glob snaps groups arrays
      else if !passes glob path then materialise session rootNormalized recursive glob snaps groups arrays
      else match parseGroupAttrs session snap.userData path with
        | .error err => .error err
        | .ok attrs =>
          materialise session rootNormalized recursive glob snaps
            (groups.insert path { path, attrs, vars := [] }) arrays
    | .array =>
      let parent := parentOf (icePathToString snap.path)
      if !recursive && parent != rootNormalized then
        materialise session rootNormalized recursive glob snaps groups arrays
      else if !passes glob parent then materialise session rootNormalized recursive glob snaps groups arrays
      else materialise session rootNormalized recursive glob snaps groups (arrays ++ [snap])

/-- `by_parent`. -/
def byParent (arrays : List NodeSnapshot) : Std.TreeMap Str (List NodeSnapshot) :=
  arrays.foldl (push fun snap => parentOf (icePathToString snap.path)) ∅

/-- One job for each parent. -/
def groupJob (session : Session J) (entry : Str × List NodeSnapshot) :
    Except RustytreeError (Str × List (VarMeta J E)) := do
  let vars ← entry.2.mapM fun snap => buildVarMetaFromSnapshot session snap (icePathToString snap.path)
  .ok (entry.1, vars)

/-- The loop over the finished jobs. -/
def attachVars : List (Str × List (VarMeta J E)) → Std.TreeMap Str (NodeData J E) →
    Except RustytreeError (Std.TreeMap Str (NodeData J E))
  | [], groups => .ok groups
  | (parentPath, vars) :: jobs, groups =>
    match groups[parentPath]? with
    | some node => attachVars jobs (groups.insert parentPath { node with vars })
    | none =>
      if !vars.isEmpty then .error (.other s!"icechunk: arrays under {shown parentPath} have no parent group")
      else attachVars jobs groups

/-- `walk_icechunk_session_snapshot`. -/
def walkIcechunkSessionSnapshot (session : Session J) (rootPath : Str) (recursive : Bool)
    (glob : Option GlobPredicate) : Except RustytreeError (List (NodeData J E)) :=
  match session.pathNew rootPath with
  | .error err => .error (.invalidInput s!"icechunk: invalid root path {(shown rootPath).quote}: {err}")
  | .ok parent =>
    match session.listNodes parent with
    | .error err => .error (.other s!"icechunk: list_nodes({shown rootPath}) failed: {err}")
    | .ok nodesIter =>
      match nodesIter.mapM id with
      | .error err => .error (.other s!"icechunk: snapshot enumeration failed: {err}")
      | .ok snapshots => do
        let (groups, arrays) ← materialise session (normalizePath rootPath) recursive glob snapshots ∅ []
        let groupJobs ← (byParent arrays).toList.mapM (groupJob session)
        let groups ← attachVars groupJobs groups
        -- In the order of the paths: the map is sorted.
        .ok (groups.toList.map (·.2))

/-! ## The two passes -/

/-- The filters leave the group at `p` in. -/
def keeps (root : Path) (recursive : Bool) (glob : Option GlobPredicate) (p : Path) : Bool :=
  (recursive || p == root) && passes glob (pathStr p)

/-- `snap` is the snapshot of an array. -/
def IsArraySnapshot (session : Session J) (a : Path × ArrayMetadata J) (snap : NodeSnapshot) : Prop :=
  IsSnapshot session (a.1, .array a.2) snap

/-- The groups of a listing, as entries of the map. -/
def groupEntries (keep : Path → Bool) (l : List (Path × Node J)) : List (Str × NodeData J E) :=
  ((groupsIn l).filter fun g => keep g.1).map fun g =>
    (pathStr g.1, { path := pathStr g.1, attrs := cloneAttrs g.2, vars := [] })

/-- The arrays of a listing whose parents are kept. -/
def keptArrays (keep : Path → Bool) (l : List (Path × Node J)) : List (Path × ArrayMetadata J) :=
  (arraysIn l).filter fun a => keep a.1.dropLast

section
variable {session : Session J} {root : Path} {recursive : Bool} {glob : Option GlobPredicate}

theorem parseGroupAttrs_ok {p : Path} {attributes : List (Str × J)} {snap : NodeSnapshot}
    (h : IsSnapshot session (p, .group attributes) snap) :
    parseGroupAttrs session snap.userData (pathStr p) = .ok (cloneAttrs attributes) := by
  obtain ⟨-, -, hdata⟩ := h
  rw [parseGroupAttrs]
  split at hdata
  next hnil => rw [hnil, hdata]; rfl
  next hne => simp [hne, hdata]

theorem buildVarMeta_ok {a : Path × ArrayMetadata J} {snap : NodeSnapshot} (h : IsArraySnapshot session a snap) :
    buildVarMetaFromSnapshot (E := E) session snap (icePathToString snap.path) =
      .ok (varMeta (pathStr a.1) ⟨pathStr a.1, a.2⟩) := by
  obtain ⟨hpath, -, hmeta, hnew⟩ := h
  simp only [buildVarMetaFromSnapshot, hmeta, hpath, icePathToString, hnew]

/-- The two filters of the loop are one test. -/
theorem filters_eq {α : Type} (skip keep : α) (p : Path) :
    (if !recursive && pathStr p != pathStr root then skip else if !passes glob (pathStr p) then skip else keep) =
      if keeps root recursive glob p then keep else skip := by
  have hne : (pathStr p != pathStr root) = !(p == root) := by
    rw [bne, Bool.not_inj_iff, Bool.eq_iff_iff, beq_iff_eq, beq_iff_eq, pathStr_inj]
  rw [hne, keeps]
  cases recursive <;> cases p == root <;> cases passes glob (pathStr p) <;> rfl

/-- The loop inserts the kept groups and collects the kept arrays, in the order of the listing. -/
theorem materialise_ok {l : List (Path × Node J)} {snaps : List NodeSnapshot}
    (h : List.Forall₂ (IsSnapshot session) l snaps) (hroot : ∀ metadata, (([], .array metadata) : Path × Node J) ∉ l)
    (groups : Std.TreeMap Str (NodeData J E)) (arrays : List NodeSnapshot) :
    ∃ kept, materialise session (pathStr root) recursive glob snaps groups arrays =
        .ok (insertAll (groupEntries (keeps root recursive glob) l) groups, arrays ++ kept) ∧
      List.Forall₂ (IsArraySnapshot session) (keptArrays (keeps root recursive glob) l) kept := by
  -- On the listing; the two accumulators are arbitrary.
  induction h generalizing groups arrays with
  | nil => exact ⟨[], by simp [materialise, groupEntries, groupsIn, insertAll], .nil⟩
  | @cons node snap l snaps hsnap _ ih =>
    have hroot' : ∀ metadata, (([], .array metadata) : Path × Node J) ∉ l := fun m hm => hroot m (by simp [hm])
    obtain ⟨p, node⟩ := node
    cases node with
    | group attributes =>
      have hparse := parseGroupAttrs_ok hsnap
      obtain ⟨hpath, hkind, -⟩ := hsnap
      have hgroups : groupsIn ((p, .group attributes) :: l) = (p, attributes) :: groupsIn l := rfl
      simp only [materialise, hkind, hpath, icePathToString, filters_eq, hparse, groupEntries, hgroups,
        List.filter_cons]
      split
      next => exact ih hroot' _ _
      next => exact ih hroot' _ _
    | array metadata =>
      have hp : p ≠ [] := fun hnil => hroot metadata (by simp [hnil])
      obtain ⟨parent, name, rfl⟩ := (List.eq_nil_or_concat p).resolve_left hp
      rw [List.concat_eq_append] at hsnap ⊢
      have harray := hsnap
      obtain ⟨hpath, hkind, -⟩ := hsnap
      have harrays : arraysIn ((parent ++ [name], .array metadata) :: l) =
          (parent ++ [name], metadata) :: arraysIn l := rfl
      simp only [materialise, hkind, hpath, icePathToString, parentOf_pathStr, filters_eq, keptArrays, harrays,
        List.filter_cons, List.dropLast_concat]
      split
      next =>
        obtain ⟨kept, hrun, hkept⟩ := ih hroot' groups (arrays ++ [snap])
        exact ⟨snap :: kept, by rw [hrun, List.append_assoc]; rfl, .cons harray hkept⟩
      next => exact ih hroot' _ _

/-! ## Attaching the arrays -/

/-- The variables of the arrays whose parent's path is `k`. -/
def jobVars (arrays : List (Path × ArrayMetadata J)) (k : Str) : List (VarMeta J E) :=
  (arrays.filter fun a => parentOf (pathStr a.1) = k).map fun a => varMeta (pathStr a.1) ⟨pathStr a.1, a.2⟩

/-- The jobs: one for each parent of an array, with the variables of its arrays. -/
theorem groupJobs_ok {arrays : List (Path × ArrayMetadata J)} {kept : List NodeSnapshot}
    (h : List.Forall₂ (IsArraySnapshot session) arrays kept) :
    ∃ keys : List Str, keys.Nodup ∧ (∀ k, k ∈ keys ↔ jobVars (E := E) arrays k ≠ []) ∧
      (byParent kept).toList.mapM (groupJob session) = .ok (keys.map fun k => (k, jobVars (E := E) arrays k)) := by
  have hbucket : ∀ k, List.Forall₂ (IsArraySnapshot session) (arrays.filter fun a => parentOf (pathStr a.1) = k)
      (kept.filter fun snap => parentOf (icePathToString snap.path) = k) := fun k =>
    Lib.Collect.forall₂_filter h fun a snap hs => by rw [hs.1]; rfl
  have hget : ∀ k, (byParent kept)[k]? =
      if kept.filter (fun snap => parentOf (icePathToString snap.path) = k) = [] then none
      else some (kept.filter fun snap => parentOf (icePathToString snap.path) = k) := getElem?_buckets _ kept
  refine ⟨(byParent kept).toList.map (·.1), nodup_toList_keys _, fun k => ?_, ?_⟩
  · have hnil : jobVars (E := E) arrays k = [] ↔
        kept.filter (fun snap => parentOf (icePathToString snap.path) = k) = [] := by
      rw [jobVars, List.map_eq_nil_iff, ← List.length_eq_zero_iff, (hbucket k).length_eq, List.length_eq_zero_iff]
    rw [ne_eq, hnil, List.mem_map]
    constructor
    · rintro ⟨⟨k', snaps⟩, hmem, rfl⟩ hempty
      rw [mem_toList, hget, if_pos hempty] at hmem
      cases hmem
    · intro hne
      exact ⟨(k, _), mem_toList.2 (by rw [hget, if_neg hne]), rfl⟩
  · -- The bucket of a key holds the snapshots of that key's arrays, in order.
    rw [List.map_map]
    apply Lib.Collect.mapM_ok_of
    rintro ⟨k, snaps⟩ hmem
    rw [mem_toList, hget] at hmem
    split at hmem
    · cases hmem
    · cases hmem
      have hvars : (kept.filter fun snap => parentOf (icePathToString snap.path) = k).mapM (fun snap =>
          buildVarMetaFromSnapshot (E := E) session snap (icePathToString snap.path)) = .ok (jobVars arrays k) := by
        rw [Lib.Collect.mapM_eq_ok, jobVars, List.forall₂_map_right_iff]
        exact ((hbucket k).imp fun _ _ hs => buildVarMeta_ok hs).flip
      simp only [groupJob, hvars]
      rfl

/-- Every job finds its group, and replaces its variables. -/
theorem attachVars_ok {keys : List Str} (hnd : keys.Nodup) (vars : Str → List (VarMeta J E))
    (groups : Std.TreeMap Str (NodeData J E)) (hin : ∀ k ∈ keys, ∃ node, groups[k]? = some node) :
    ∃ groups', attachVars (keys.map fun k => (k, vars k)) groups = .ok groups' ∧
      ∀ k, groups'[k]? = groups[k]?.map fun node => if k ∈ keys then { node with vars := vars k } else node := by
  induction keys generalizing groups with
  | nil => exact ⟨groups, rfl, fun k => by simp⟩
  | cons key keys ih =>
    obtain ⟨hkey, hnd⟩ := List.nodup_cons.1 hnd
    obtain ⟨node, hnode⟩ := hin key (by simp)
    -- A later job has another key, so its group is still there.
    have hin' : ∀ k ∈ keys, ∃ n, (groups.insert key { node with vars := vars key })[k]? = some n := by
      intro k hk
      have hne : key ≠ k := by rintro rfl; exact hkey hk
      rw [getElem?_insert_ne hne]
      exact hin k (by simp [hk])
    obtain ⟨groups', hrun, hget⟩ := ih hnd _ hin'
    refine ⟨groups', by simp only [List.map_cons, attachVars, hnode, hrun], fun k => ?_⟩
    rw [hget]
    by_cases hk : key = k
    · subst hk
      rw [Std.TreeMap.getElem?_insert_self, hnode]
      simp [hkey]
    · rw [getElem?_insert_ne hk]
      simp [Ne.symm hk]

/-! ## The whole walk -/

/-- The node of a group of the listing, with its arrays in the order of the listing. -/
def Listed (l : List (Path × Node J)) (p : Path) (node : NodeData J E) : Prop :=
  ∃ attributes, (p, .group attributes) ∈ l ∧
    node = { path := pathStr p, attrs := cloneAttrs attributes, vars := varsIn l p }

variable {H : Hierarchy J} {l : List (Path × Node J)}

theorem mem_listing (hperm : l.Perm (H.below root)) {q : Path} {node : Node J} :
    (q, node) ∈ l ↔ root <+: q ∧ (q, node) ∈ H.nodes := by rw [hperm.mem_iff, Hierarchy.mem_below]

/-- Below the root of the listing, the listing has the arrays of the hierarchy. -/
theorem Listed.describes (hperm : l.Perm (H.below root)) {p : Path} {node : NodeData J E} (h : Listed l p node) :
    Describes H p node := by
  obtain ⟨attributes, hmem, rfl⟩ := h
  have hp := (mem_listing hperm).1 hmem
  refine ⟨rfl, ⟨attributes, hp.2, rfl⟩, ?_⟩
  have hvars := varsIn_perm (E := E) hperm p
  rwa [Hierarchy.below, varsIn_below hp.1] at hvars

theorem jobVars_pathStr {p : Path} {keep : Path → Bool} (hp : keep p = true)
    (hroot : ∀ metadata, (([], .array metadata) : Path × Node J) ∉ l) :
    jobVars (E := E) (keptArrays keep l) (pathStr p) = varsIn l p := by
  rw [jobVars, keptArrays, List.filter_filter, varsIn]
  congr 1
  apply List.filter_congr
  intro a ha
  obtain ⟨q, metadata⟩ := a
  have hq : q ≠ [] := fun hnil => hroot metadata (hnil ▸ mem_arraysIn.1 ha)
  obtain ⟨parent, name, rfl⟩ := (List.eq_nil_or_concat q).resolve_left hq
  simp only [List.concat_eq_append, parentOf_pathStr, pathStr_inj, List.dropLast_concat, isChild]
  by_cases h : parent = p
  · simp [h, hp]
  · simp [h]

theorem listing_nodup (hperm : l.Perm (H.below root)) : (l.map (·.1)).Nodup :=
  (hperm.map _).nodup_iff.2 (H.nodup.sublist (List.filter_sublist.map _))

/-- The map of the groups that the loop builds from the listing. -/
theorem getElem?_groupEntries (hperm : l.Perm (H.below root)) {keep : Path → Bool} {k : Str} {node : NodeData J E} :
    (insertAll (groupEntries keep l) ∅)[k]? = some node ↔ ∃ p attributes, k = pathStr p ∧ keep p = true ∧
      (p, .group attributes) ∈ l ∧ node = { path := pathStr p, attrs := cloneAttrs attributes, vars := [] } := by
  have hnd : ((groupEntries (E := E) keep l).map (·.1)).Nodup := by
    have hkept : (((groupsIn l).filter fun g => keep g.1).map (·.1)).Nodup :=
      ((listing_nodup hperm).sublist (groupsIn_paths_sublist l)).sublist (List.filter_sublist.map _)
    simpa [groupEntries, Function.comp_def] using hkept.map pathStr_injective
  rw [getElem?_insertAll hnd, groupEntries]
  simp only [List.mem_map, List.mem_filter, Prod.exists, Prod.mk.injEq, mem_groupsIn]
  constructor
  · rintro ⟨p, attributes, ⟨hmem, hkeep⟩, rfl, rfl⟩
    exact ⟨p, attributes, rfl, hkeep, hmem, rfl⟩
  · rintro ⟨p, attributes, rfl, hkeep, hmem, rfl⟩
    exact ⟨p, attributes, ⟨hmem, hkeep⟩, rfl, rfl⟩

/-- An array of the listing lies in a group of the listing. -/
theorem listed_array_parent (hperm : l.Perm (H.below root)) (hr : root ∈ H.groupPaths) {q : Path}
    {metadata : ArrayMetadata J} (h : (q, .array metadata) ∈ l) :
    ∃ parent name attributes, q = parent ++ [name] ∧ (parent, .group attributes) ∈ l := by
  obtain ⟨hpre, hmem⟩ := (mem_listing hperm).1 h
  obtain ⟨rootAttrs, hroot⟩ := Hierarchy.mem_groupPaths.1 hr
  have hne : q ≠ root := by
    rintro rfl
    cases Hierarchy.node_unique hroot hmem
  rcases List.eq_nil_or_concat q with rfl | ⟨parent, name, rfl⟩
  · exact absurd (List.prefix_nil.1 hpre).symm hne
  · rw [List.concat_eq_append] at hpre hmem hne ⊢
    obtain ⟨attributes, hg⟩ := H.closed _ _ _ hmem
    have hpre : root <+: parent := (List.prefix_concat_iff.1 hpre).resolve_left hne.symm
    exact ⟨parent, name, attributes, rfl, (mem_listing hperm).2 ⟨hpre, hg⟩⟩

theorem listed_array_not_root (hperm : l.Perm (H.below root)) (hr : root ∈ H.groupPaths)
    (metadata : ArrayMetadata J) : (([], .array metadata) : Path × Node J) ∉ l := by
  intro h
  obtain ⟨parent, name, -, hnil, -⟩ := listed_array_parent hperm hr h
  simp at hnil

/-- The parent of a kept array is a kept group of the listing. -/
theorem parent_listed (hperm : l.Perm (H.below root)) (hr : root ∈ H.groupPaths) {keep : Path → Bool} {k : Str}
    (hk : jobVars (E := E) (keptArrays keep l) k ≠ []) :
    ∃ p attributes, k = pathStr p ∧ keep p = true ∧ (p, .group attributes) ∈ l := by
  rw [jobVars, ne_eq, List.map_eq_nil_iff, List.filter_eq_nil_iff, not_forall] at hk
  obtain ⟨⟨q, metadata⟩, hk⟩ := hk
  simp only [decide_eq_true_eq, not_forall, not_not, keptArrays, List.mem_filter, mem_arraysIn] at hk
  obtain ⟨⟨hmem, hkeep⟩, rfl⟩ := hk
  obtain ⟨parent, name, attributes, rfl, hg⟩ := listed_array_parent hperm hr hmem
  rw [List.dropLast_concat] at hkeep
  exact ⟨parent, attributes, parentOf_pathStr parent name, hkeep, hg⟩

/-- A map whose entries are the nodes of some paths lists each of them once. -/
theorem walked_toList {groups : Std.TreeMap Str (NodeData J E)} {region : Path → Prop}
    {isNode : Path → NodeData J E → Prop} (hnode : ∀ k node, groups[k]? = some node ↔
      ∃ p, k = pathStr p ∧ region p ∧ isNode p node)
    (htotal : ∀ p, region p → ∃ node, isNode p node) : Walked region isNode (groups.toList.map (·.2)) := by
  obtain ⟨out, hout⟩ := Lib.Collect.exists_forall₂
    (R := fun (e : Str × NodeData J E) (p : Path) => e.1 = pathStr p ∧ region p ∧ isNode p e.2)
    (l := groups.toList) fun e he => (hnode e.1 e.2).1 (mem_toList.1 he)
  have hkeys : groups.toList.map (·.1) = out.map pathStr := by
    rw [← List.forall₂_eq_eq_eq, List.forall₂_map_left_iff, List.forall₂_map_right_iff]
    exact hout.imp fun _ _ h => h.1
  refine ⟨out, (hkeys ▸ nodup_toList_keys groups).of_map, fun q => ⟨fun hq => ?_, fun hq => ?_⟩, ?_⟩
  · have hkey : pathStr q ∈ groups.toList.map (·.1) := hkeys ▸ List.mem_map_of_mem hq
    obtain ⟨⟨k, node⟩, hmem, heq⟩ := List.mem_map.1 hkey
    obtain ⟨p, hp, hreg, -⟩ := (hnode k node).1 (mem_toList.1 hmem)
    rwa [pathStr_injective (heq.symm.trans hp)]
  · obtain ⟨node, hn⟩ := htotal q hq
    have hmem : (pathStr q, node) ∈ groups.toList := mem_toList.2 ((hnode _ node).2 ⟨q, rfl, hq, hn⟩)
    have hkey : pathStr q ∈ out.map pathStr := hkeys ▸ List.mem_map_of_mem hmem
    obtain ⟨p, hp, heq⟩ := List.mem_map.1 hkey
    rwa [← pathStr_injective heq]
  · rw [List.forall₂_map_right_iff]
    exact (hout.imp fun _ _ h => h.2.2).flip

/-- What the filters leave in is the region. -/
theorem region_iff (hperm : l.Perm (H.below root)) (hr : root ∈ H.groupPaths)
    (hpass : passes glob (pathStr root) = true) {p : Path} :
    Region H root recursive glob p ↔
      keeps root recursive glob p = true ∧ ∃ attributes, (p, .group attributes) ∈ l := by
  simp only [Region, keeps, mem_listing hperm, Bool.and_eq_true, Bool.or_eq_true, beq_iff_eq, exists_and_left,
    Hierarchy.mem_groupPaths]
  cases recursive with
  | true =>
    simp only [if_true, true_or, true_and]
    constructor
    · rintro ⟨hg, hpre, rfl | hp⟩
      · exact ⟨hpass, hpre, hg⟩
      · exact ⟨hp, hpre, hg⟩
    · rintro ⟨hp, hpre, hg⟩
      exact ⟨hg, hpre, .inr hp⟩
  | false =>
    simp only [Bool.false_eq_true, if_false, false_or]
    constructor
    · rintro ⟨hg, rfl⟩
      exact ⟨⟨rfl, hpass⟩, List.prefix_refl p, hg⟩
    · rintro ⟨⟨rfl, -⟩, -, hg⟩
      exact ⟨hg, rfl⟩

/-- A fully enumerated listing is collected as it is. -/
theorem collect_snapshots (snaps : List NodeSnapshot) :
    (snaps.map (Except.ok : NodeSnapshot → Except String NodeSnapshot)).mapM id = .ok snaps := by
  rw [Lib.Collect.mapM_eq_ok, List.forall₂_map_left_iff, List.forall₂_same]
  exact fun _ _ => rfl

/-- The walk over a listing is its loop, its jobs and the attaching, in turn. -/
theorem walkIcechunk_eq {snaps : List NodeSnapshot} (hnew : session.pathNew (pathStr root) = .ok ⟨pathStr root⟩)
    (hlist : session.listNodes ⟨pathStr root⟩ = .ok (snaps.map .ok)) :
    walkIcechunkSessionSnapshot (E := E) session (pathStr root) recursive glob = (do
      let (groups, arrays) ← materialise session (pathStr root) recursive glob snaps ∅ []
      let groupJobs ← (byParent arrays).toList.mapM (groupJob session)
      let groups ← attachVars groupJobs groups
      .ok (groups.toList.map (·.2))) := by
  simp only [walkIcechunkSessionSnapshot, hnew, hlist, collect_snapshots, normalizePath_pathStr]

/-- Once the jobs are attached, the map holds the region's groups with all
their arrays: a group without a job has none. -/
theorem attached_iff (hperm : l.Perm (H.below root)) (hr : root ∈ H.groupPaths)
    (hpass : passes glob (pathStr root) = true) {keys : List Str} {groups : Std.TreeMap Str (NodeData J E)}
    (hkeys : ∀ k, k ∈ keys ↔ jobVars (E := E) (keptArrays (keeps root recursive glob) l) k ≠ [])
    (hget : ∀ k, groups[k]? = (insertAll (groupEntries (keeps root recursive glob) l) ∅)[k]?.map fun node =>
      if k ∈ keys then { node with vars := jobVars (keptArrays (keeps root recursive glob) l) k } else node)
    (k : Str) (node : NodeData J E) :
    groups[k]? = some node ↔ ∃ p, k = pathStr p ∧ Region H root recursive glob p ∧ Listed l p node := by
  have hvars : ∀ p attributes, keeps root recursive glob p = true → (if pathStr p ∈ keys then
      { path := pathStr p, attrs := cloneAttrs attributes,
        vars := jobVars (keptArrays (keeps root recursive glob) l) (pathStr p) }
      else { path := pathStr p, attrs := cloneAttrs attributes, vars := [] } : NodeData J E) =
      { path := pathStr p, attrs := cloneAttrs attributes, vars := varsIn l p } := by
    intro p attributes hp
    rw [← jobVars_pathStr hp (listed_array_not_root hperm hr)]
    split
    next => rfl
    next hk => rw [not_not.1 (mt (hkeys _).2 hk)]
  rw [hget, Option.map_eq_some_iff]
  constructor
  · rintro ⟨n, hn, rfl⟩
    obtain ⟨p, attributes, rfl, hp, hmem, rfl⟩ := (getElem?_groupEntries hperm).1 hn
    exact ⟨p, rfl, (region_iff hperm hr hpass).2 ⟨hp, attributes, hmem⟩, attributes, hmem, hvars p attributes hp⟩
  · rintro ⟨p, rfl, hreg, attributes, hmem, rfl⟩
    have hp := ((region_iff hperm hr hpass).1 hreg).1
    exact ⟨_, (getElem?_groupEntries hperm).2 ⟨p, attributes, rfl, hp, hmem, rfl⟩, hvars p attributes hp⟩

/-- The icechunk walk returns the groups of its region, as the listing has them. -/
theorem walkIcechunk_ok (hl : Lists session l root) (hperm : l.Perm (H.below root)) (hr : root ∈ H.groupPaths)
    (hpass : passes glob (pathStr root) = true) (recursive : Bool) :
    ∃ nodes : List (NodeData J E), walkIcechunkSessionSnapshot session (pathStr root) recursive glob = .ok nodes ∧
      Walked (Region H root recursive glob) (Listed l) nodes := by
  obtain ⟨hnew, snaps, hlist, hsnaps⟩ := hl
  obtain ⟨kept, hmat, hkept⟩ : ∃ kept, materialise session (pathStr root) recursive glob snaps
      (∅ : Std.TreeMap Str (NodeData J E)) [] = .ok (insertAll (groupEntries (keeps root recursive glob) l) ∅, kept) ∧
      List.Forall₂ (IsArraySnapshot session) (keptArrays (keeps root recursive glob) l) kept :=
    materialise_ok hsnaps (listed_array_not_root hperm hr) ∅ []
  obtain ⟨keys, hnd, hkeys, hjobs⟩ := groupJobs_ok (E := E) hkept
  -- No job is left without a group, so that the orphan check stays silent.
  have hfound : ∀ k ∈ keys, ∃ node : NodeData J E,
      (insertAll (groupEntries (keeps root recursive glob) l) ∅)[k]? = some node := by
    intro k hk
    obtain ⟨p, attributes, hp⟩ := parent_listed hperm hr ((hkeys k).1 hk)
    exact ⟨_, (getElem?_groupEntries hperm).2 ⟨p, attributes, hp.1, hp.2.1, hp.2.2, rfl⟩⟩
  obtain ⟨groups, hattach, hget⟩ := attachVars_ok hnd _ _ hfound
  refine ⟨groups.toList.map (·.2), ?_, walked_toList (attached_iff hperm hr hpass hkeys hget) fun p hp => ?_⟩
  · rw [walkIcechunk_eq hnew hlist, hmat]
    simp only [bind, Except.bind, hjobs, hattach]
  · obtain ⟨-, attributes, hmem⟩ := (region_iff hperm hr hpass).1 hp
    exact ⟨_, attributes, hmem, rfl⟩

/-! ## Roots that are no groups -/

/-- An empty listing gives an empty walk. -/
theorem walkIcechunk_empty (hl : Lists session ([] : List (Path × Node J)) root) (recursive : Bool)
    (glob : Option GlobPredicate) :
    walkIcechunkSessionSnapshot (E := E) session (pathStr root) recursive glob = .ok [] := by
  obtain ⟨hnew, snaps, hlist, hsnaps⟩ := hl
  cases hsnaps
  rw [walkIcechunk_eq hnew hlist]
  rfl

/-- Jobs without any group fail. -/
theorem attachVars_orphan {keys : List Str} {vars : Str → List (VarMeta J E)} (hkeys : ∀ k ∈ keys, vars k ≠ [])
    {key : Str} (h : key ∈ keys) : ∃ msg, attachVars (keys.map fun k => (k, vars k)) ∅ = .error (.other msg) := by
  cases keys with
  | nil => cases h
  | cons first keys =>
    have hvars := hkeys first (by simp)
    simp [attachVars, hvars]

/-- An array that is listed alone has no group to go to: the walk fails, unless
the filter on its parent leaves the array out. -/
theorem walkIcechunk_array {metadata : ArrayMetadata J} (hl : Lists session [(root, .array metadata)] root)
    (recursive : Bool) :
    if recursive ∨ root = [] then
      ∃ msg, walkIcechunkSessionSnapshot (E := E) session (pathStr root) recursive none = .error (.other msg)
    else walkIcechunkSessionSnapshot (E := E) session (pathStr root) recursive none = .ok [] := by
  obtain ⟨hnew, snaps, hlist, hsnaps⟩ := hl
  obtain ⟨snap, rest, hsnap, hrest, rfl⟩ := List.forall₂_cons_left_iff.1 hsnaps
  cases hrest
  have harray : List.Forall₂ (IsArraySnapshot session) [(root, metadata)] [snap] := .cons hsnap .nil
  obtain ⟨hpath, hkind, -⟩ := hsnap
  rw [walkIcechunk_eq hnew hlist]
  by_cases hskip : recursive ∨ root = []
  · rw [if_pos hskip]
    have hkeep : (!recursive && parentOf (pathStr root) != pathStr root) = false := by
      rcases hskip with rfl | hnil
      · rfl
      · rw [parentOf_pathStr_self.2 hnil]; simp
    have hmat : materialise session (pathStr root) recursive none [snap] (∅ : Std.TreeMap Str (NodeData J E)) [] =
        .ok (∅, [snap]) := by
      simp only [materialise, hkind, hpath, icePathToString, hkeep, passes]
      rfl
    obtain ⟨keys, -, hkeys, hjobs⟩ := groupJobs_ok (E := E) harray
    obtain ⟨msg, hattach⟩ := attachVars_orphan (fun k hk => (hkeys k).1 hk)
      ((hkeys (parentOf (pathStr root))).2 (by simp [jobVars]))
    refine ⟨msg, ?_⟩
    simp only [hmat, bind, Except.bind, hjobs, hattach]
  · rw [if_neg hskip]
    rw [not_or, Bool.not_eq_true] at hskip
    obtain ⟨rfl, hroot⟩ := hskip
    have hdrop : (!false && parentOf (pathStr root) != pathStr root) = true := by
      simpa using mt parentOf_pathStr_self.1 hroot
    have hmat : materialise session (pathStr root) false none [snap] (∅ : Std.TreeMap Str (NodeData J E)) [] =
        .ok (∅, []) := by
      simp only [materialise, hkind, hpath, icePathToString, hdrop, if_true]
    rw [hmat]
    rfl

end

end Rustytree
