import Rustytree.IcechunkWalk
/-!
# Which sessions the icechunk walker accepts

`list_nodes` always lists the whole subtree, whatever part of it was asked for.
The walk fails exactly when the listing does or a node within the requested part
is unsound, and it reports such a failure; nodes outside never matter. So a
request for less never fails where the request for more succeeds.
-/

namespace Rustytree
open Glob Lib.Buckets Lib.Collect

variable {J E : Type}

/-- The group that decides whether a snapshot is asked for: an array's is its parent. -/
def groupOf (snap : NodeSnapshot) : Str :=
  match snap.nodeData with
  | .group => icePathToString snap.path
  | .array => parentOf (icePathToString snap.path)

/-- Both filters leave the snapshot in. -/
def inRequest (rootNormalized : Str) (recursive : Bool) (glob : Option GlobPredicate) (snap : NodeSnapshot) : Bool :=
  (recursive || groupOf snap == rootNormalized) && passes glob (groupOf snap)

/-- The listing has a group at the path. -/
def hasGroup (snapshots : List NodeSnapshot) (path : Str) : Bool :=
  snapshots.any fun snap => match snap.nodeData with
    | .group => icePathToString snap.path == path
    | .array => false

/-- What is unsound about one snapshot of a listing, whatever was asked for. -/
def snapshotError (session : Session J) (snapshots : List NodeSnapshot) (snap : NodeSnapshot) : Option RustytreeError :=
  let path := icePathToString snap.path
  match snap.nodeData with
  | .group =>
    if snap.userData.isEmpty then none
    else match session.groupMetadata snap.userData with
      | .error err => some (.other s!"icechunk: failed to parse group zarr.json at {shown path}: {err}")
      | .ok _ => none
  | .array =>
    match session.arrayMetadata snap.userData with
    | .error err => some (.other s!"icechunk: failed to parse array zarr.json at {shown path}: {err}")
    | .ok metadata =>
      match session.newWithMetadata path metadata with
      | .error err => some (.other s!"icechunk: failed to construct Array from snapshot for {shown path}: {err}")
      | .ok _ =>
        if hasGroup snapshots (parentOf path) then none
        else some (.other s!"icechunk: arrays under {shown (parentOf path)} have no parent group")

/-- A step of the walk fails with `err`: the listing, or a snapshot that was asked for. -/
def SnapshotFails (session : Session J) (rootPath : Str) (recursive : Bool) (glob : Option GlobPredicate)
    (err : RustytreeError) : Prop :=
  match session.pathNew rootPath with
  | .error pathErr => err = .invalidInput s!"icechunk: invalid root path {(shown rootPath).quote}: {pathErr}"
  | .ok parent =>
    match session.listNodes parent with
    | .error listErr => err = .other s!"icechunk: list_nodes({shown rootPath}) failed: {listErr}"
    | .ok nodesIter =>
      match nodesIter.mapM id with
      | .error itemErr => err = .other s!"icechunk: snapshot enumeration failed: {itemErr}"
      | .ok snapshots => ∃ snap ∈ snapshots,
          inRequest (normalizePath rootPath) recursive glob snap = true ∧
            snapshotError session snapshots snap = some err

section
variable {session : Session J} {root : Str} {recursive : Bool} {glob : Option GlobPredicate}
  {snapshots : List NodeSnapshot} {snap : NodeSnapshot}

/-! ## One snapshot -/

theorem filters_request {α : Type} (skip keep : α) (snap : NodeSnapshot) :
    (if !recursive && groupOf snap != root then skip else if !passes glob (groupOf snap) then skip else keep) =
      if inRequest root recursive glob snap then keep else skip := by
  unfold inRequest bne
  cases recursive <;> cases groupOf snap == root <;> cases passes glob (groupOf snap) <;> rfl

theorem hasGroup_iff {path : Str} :
    hasGroup snapshots path = true ↔ ∃ snap ∈ snapshots, snap.nodeData = .group ∧ icePathToString snap.path = path := by
  rw [hasGroup, List.any_eq_true]
  constructor
  · rintro ⟨snap, hmem, h⟩
    cases hkind : snap.nodeData with
    | group => exact ⟨snap, hmem, hkind, by simpa [hkind] using h⟩
    | array => simp [hkind] at h
  · rintro ⟨snap, hmem, hkind, h⟩
    exact ⟨snap, hmem, by simpa [hkind] using h⟩

/-- A group is unsound exactly if its attributes do not parse. -/
theorem snapshotError_group (hkind : snap.nodeData = .group) :
    (∀ err, parseGroupAttrs session snap.userData (icePathToString snap.path) = .error err →
      snapshotError session snapshots snap = some err) ∧
    ∀ attrs, parseGroupAttrs session snap.userData (icePathToString snap.path) = .ok attrs →
      snapshotError session snapshots snap = none := by
  unfold parseGroupAttrs snapshotError
  simp only [hkind]
  split
  · simp
  · cases session.groupMetadata snap.userData <;> simp

/-- An array is unsound if it cannot be built, and else if it has no parent group. -/
theorem snapshotError_array (hkind : snap.nodeData = .array) :
    (∀ err, buildVarMetaFromSnapshot (E := E) session snap (icePathToString snap.path) = .error err →
      snapshotError session snapshots snap = some err) ∧
    ∀ var, buildVarMetaFromSnapshot (E := E) session snap (icePathToString snap.path) = .ok var →
      snapshotError session snapshots snap = if hasGroup snapshots (groupOf snap) then none
        else some (.other s!"icechunk: arrays under {shown (groupOf snap)} have no parent group") := by
  unfold buildVarMetaFromSnapshot snapshotError groupOf
  simp only [hkind]
  cases session.arrayMetadata snap.userData with
  | error err => simp
  | ok metadata =>
    simp only
    cases session.newWithMetadata (icePathToString snap.path) metadata <;> simp

/-! ## The loop over the snapshots -/

/-- Arrays that were asked for. -/
def requestedArray (root : Str) (recursive : Bool) (glob : Option GlobPredicate) (snap : NodeSnapshot) : Bool :=
  match snap.nodeData with
  | .group => false
  | .array => inRequest root recursive glob snap

theorem materialise_group (hkind : snap.nodeData = .group) (snaps : List NodeSnapshot)
    (groups : Std.TreeMap Str (NodeData J E)) (arrays : List NodeSnapshot) :
    materialise session root recursive glob (snap :: snaps) groups arrays =
      if inRequest root recursive glob snap then
        match parseGroupAttrs session snap.userData (icePathToString snap.path) with
        | .error err => .error err
        | .ok attrs => materialise session root recursive glob snaps
            (groups.insert (icePathToString snap.path) { path := icePathToString snap.path, attrs, vars := [] }) arrays
      else materialise session root recursive glob snaps groups arrays := by
  rw [← filters_request]
  cases hparse : parseGroupAttrs session snap.userData (icePathToString snap.path) with
  | error err => simp only [materialise, hkind, groupOf, hparse]
  | ok attrs => simp only [materialise, hkind, groupOf, hparse]

theorem materialise_array (hkind : snap.nodeData = .array) (snaps : List NodeSnapshot)
    (groups : Std.TreeMap Str (NodeData J E)) (arrays : List NodeSnapshot) :
    materialise session root recursive glob (snap :: snaps) groups arrays =
      if inRequest root recursive glob snap then materialise session root recursive glob snaps groups (arrays ++ [snap])
      else materialise session root recursive glob snaps groups arrays := by
  rw [← filters_request]
  simp only [materialise, hkind, groupOf]

/-- A group snapshot at `path` was asked for. -/
def RequestedGroup (root : Str) (recursive : Bool) (glob : Option GlobPredicate) (snaps : List NodeSnapshot)
    (path : Str) : Prop :=
  ∃ snap ∈ snaps, snap.nodeData = .group ∧ inRequest root recursive glob snap = true ∧ icePathToString snap.path = path

theorem requestedGroup_cons {snaps : List NodeSnapshot} {path : Str} :
    RequestedGroup root recursive glob (snap :: snaps) path ↔
      (snap.nodeData = .group ∧ inRequest root recursive glob snap = true ∧ icePathToString snap.path = path) ∨
        RequestedGroup root recursive glob snaps path := by
  simp [RequestedGroup]

/-- The loop fails on a group that was asked for, or ends with the groups and the arrays that were. -/
theorem materialise_cases (session : Session J) (root : Str) (recursive : Bool) (glob : Option GlobPredicate)
    (snaps : List NodeSnapshot) (groups : Std.TreeMap Str (NodeData J E))
    (arrays : List NodeSnapshot) :
    (∃ snap ∈ snaps, ∃ err, snap.nodeData = .group ∧ inRequest root recursive glob snap = true ∧
      parseGroupAttrs session snap.userData (icePathToString snap.path) = .error err ∧
      materialise session root recursive glob snaps groups arrays = .error err) ∨
    (∀ snap ∈ snaps, snap.nodeData = .group → inRequest root recursive glob snap = true →
      ∃ attrs, parseGroupAttrs session snap.userData (icePathToString snap.path) = .ok attrs) ∧
    ∃ groups', materialise session root recursive glob snaps groups arrays =
        .ok (groups', arrays ++ snaps.filter (requestedArray root recursive glob)) ∧
      ∀ k, k ∈ groups' ↔ k ∈ groups ∨ RequestedGroup root recursive glob snaps k := by
  induction snaps generalizing groups arrays with
  | nil => exact .inr ⟨by simp, groups, by simp [materialise], by simp [RequestedGroup]⟩
  | cons snap snaps ih =>
    cases hkind : snap.nodeData with
    | group =>
      have hfilter : (snap :: snaps).filter (requestedArray root recursive glob) =
          snaps.filter (requestedArray root recursive glob) := by simp [requestedArray, hkind]
      rw [materialise_group hkind, hfilter]
      by_cases hin : inRequest root recursive glob snap = true
      · rw [if_pos hin]
        cases hparse : parseGroupAttrs session snap.userData (icePathToString snap.path) with
        | error err => exact .inl ⟨snap, by simp, err, hkind, hin, hparse, rfl⟩
        | ok attrs =>
          rcases ih (groups.insert (icePathToString snap.path) { path := icePathToString snap.path, attrs, vars := [] })
            arrays with ⟨snap', hmem, hfail⟩ | ⟨hparsed, groups', hrun, hkeys⟩
          · exact .inl ⟨snap', by simp [hmem], hfail⟩
          · refine .inr ⟨List.forall_mem_cons.2 ⟨fun _ _ => ⟨attrs, hparse⟩, hparsed⟩, groups', hrun, fun k => ?_⟩
            rw [hkeys, requestedGroup_cons, Std.TreeMap.mem_insert, Std.LawfulEqCmp.compare_eq_iff_eq]
            simp only [hkind, hin, true_and]
            rw [or_assoc, or_left_comm]
      · rw [if_neg hin]
        rcases ih groups arrays with ⟨snap', hmem, hfail⟩ | ⟨hparsed, groups', hrun, hkeys⟩
        · exact .inl ⟨snap', by simp [hmem], hfail⟩
        · refine .inr ⟨List.forall_mem_cons.2 ⟨fun _ h => absurd h hin, hparsed⟩, groups', hrun, fun k => ?_⟩
          simp [hkeys, requestedGroup_cons, hin]
    | array =>
      have hgroup : ∀ k, RequestedGroup root recursive glob (snap :: snaps) k ↔
          RequestedGroup root recursive glob snaps k := by simp [requestedGroup_cons, hkind]
      have hfilter : arrays ++ (snap :: snaps).filter (requestedArray root recursive glob) =
          (if inRequest root recursive glob snap then arrays ++ [snap] else arrays) ++
            snaps.filter (requestedArray root recursive glob) := by
        rw [List.filter_cons]
        split <;> simp_all [requestedArray]
      have hrun : materialise session root recursive glob (snap :: snaps) groups arrays =
          materialise session root recursive glob snaps groups
            (if inRequest root recursive glob snap then arrays ++ [snap] else arrays) := by
        rw [materialise_array hkind]
        split <;> rfl
      rw [hrun, hfilter]
      simp only [hgroup]
      rcases ih groups (if inRequest root recursive glob snap then arrays ++ [snap] else arrays) with
        ⟨snap', hmem, hfail⟩ | ⟨hparsed, hrest⟩
      · exact .inl ⟨snap', by simp [hmem], hfail⟩
      · refine .inr ⟨List.forall_mem_cons.2 ⟨fun h => ?_, hparsed⟩, hrest⟩
        rw [hkind] at h
        cases h

/-! ## The jobs -/

theorem mem_byParent {arrays : List NodeSnapshot} {entry : Str × List NodeSnapshot} :
    entry ∈ (byParent arrays).toList ↔ entry.2 ≠ [] ∧
      entry.2 = arrays.filter fun snap => parentOf (icePathToString snap.path) = entry.1 := by
  have hget : (byParent arrays)[entry.1]? =
      if arrays.filter (fun snap => parentOf (icePathToString snap.path) = entry.1) = [] then none
      else some (arrays.filter fun snap => parentOf (icePathToString snap.path) = entry.1) :=
    getElem?_buckets _ arrays _
  rw [show entry = (entry.1, entry.2) from rfl, mem_toList, hget]
  split
  next h => simp [h]
  next h =>
    simp only [Option.some.injEq]
    constructor
    · rintro hbucket
      exact ⟨hbucket ▸ h, hbucket.symm⟩
    · exact fun hbucket => hbucket.2.symm

theorem groupJob_cases (session : Session J) (entry : Str × List NodeSnapshot) :
    (∃ snap ∈ entry.2, ∃ err, buildVarMetaFromSnapshot (E := E) session snap (icePathToString snap.path) = .error err ∧
      groupJob (E := E) session entry = .error err) ∨
    ∃ vars, groupJob session entry = .ok (entry.1, vars) ∧ List.Forall₂ (fun snap (var : VarMeta J E) =>
      buildVarMetaFromSnapshot session snap (icePathToString snap.path) = .ok var) entry.2 vars := by
  unfold groupJob
  rcases mapM_cases (fun snap => buildVarMetaFromSnapshot (E := E) session snap (icePathToString snap.path)) entry.2
    with ⟨snap, hmem, err, herr, hrun⟩ | ⟨vars, hrun, hvars⟩
  · exact .inl ⟨snap, hmem, err, herr, by rw [hrun]; rfl⟩
  · exact .inr ⟨vars, by rw [hrun]; rfl, hvars⟩

/-- The jobs fail on an array, or build every array, with a job for each parent. -/
theorem jobs_cases (session : Session J) (arrays : List NodeSnapshot) :
    (∃ snap ∈ arrays, ∃ err, buildVarMetaFromSnapshot (E := E) session snap (icePathToString snap.path) = .error err ∧
      (byParent arrays).toList.mapM (groupJob (E := E) session) = .error err) ∨
    (∀ snap ∈ arrays, ∃ var, buildVarMetaFromSnapshot (E := E) session snap (icePathToString snap.path) = .ok var) ∧
    ∃ jobs, (byParent arrays).toList.mapM (groupJob (E := E) session) = .ok jobs ∧ (∀ job ∈ jobs, job.2 ≠ []) ∧
      ∀ k, k ∈ jobs.map (·.1) ↔ ∃ snap ∈ arrays, parentOf (icePathToString snap.path) = k := by
  have hbucket : ∀ snap ∈ arrays, ∃ entry ∈ (byParent arrays).toList, snap ∈ entry.2 ∧
      entry.1 = parentOf (icePathToString snap.path) := by
    intro snap hsnap
    have hin : snap ∈ arrays.filter fun other =>
        parentOf (icePathToString other.path) = parentOf (icePathToString snap.path) := by simp [hsnap]
    exact ⟨(parentOf (icePathToString snap.path), _), mem_byParent.2 ⟨List.ne_nil_of_mem hin, rfl⟩, hin, rfl⟩
  rcases mapM_cases (groupJob (E := E) session) (byParent arrays).toList with
    ⟨entry, hentry, err, herr, hrun⟩ | ⟨jobs, hrun, hjobs⟩
  · rcases groupJob_cases (E := E) session entry with ⟨snap, hsnap, err', herr', hjob⟩ | ⟨vars, hjob, -⟩
    · rw [herr] at hjob
      cases hjob
      rw [(mem_byParent.1 hentry).2] at hsnap
      exact .inl ⟨snap, List.mem_of_mem_filter hsnap, err, herr', hrun⟩
    · rw [herr] at hjob
      cases hjob
  · -- Every entry's job went through, so it built all arrays of its bucket.
    have hbuilt : ∀ entry ∈ (byParent arrays).toList, ∀ job, groupJob (E := E) session entry = .ok job →
        job.1 = entry.1 ∧ List.Forall₂ (fun snap var =>
          buildVarMetaFromSnapshot session snap (icePathToString snap.path) = .ok var) entry.2 job.2 := by
      intro entry _ job hjob
      rcases groupJob_cases (E := E) session entry with ⟨_, _, _, _, hfail⟩ | ⟨vars, hok, hvars⟩
      · rw [hfail] at hjob
        cases hjob
      · rw [hok] at hjob
        cases hjob
        exact ⟨rfl, hvars⟩
    refine .inr ⟨fun snap hsnap => ?_, jobs, hrun, fun job hjob => ?_, fun k => ?_⟩
    · obtain ⟨entry, hentry, hin, -⟩ := hbucket snap hsnap
      obtain ⟨job, -, hjob⟩ := exists_of_forall₂ hjobs hentry
      obtain ⟨var, -, hvar⟩ := exists_of_forall₂ (hbuilt entry hentry job hjob).2 hin
      exact ⟨var, hvar⟩
    · obtain ⟨entry, hentry, hok⟩ := exists_of_forall₂ hjobs.flip hjob
      have hlen := (hbuilt entry hentry job hok).2.length_eq
      intro hnil
      exact (mem_byParent.1 hentry).1 (List.length_eq_zero_iff.1 (by rw [hlen, hnil]; rfl))
    · constructor
      · intro hk
        obtain ⟨job, hjob, rfl⟩ := List.mem_map.1 hk
        obtain ⟨entry, hentry, hok⟩ := exists_of_forall₂ hjobs.flip hjob
        obtain ⟨hne, hfilter⟩ := mem_byParent.1 hentry
        obtain ⟨snap, hsnap⟩ := List.exists_mem_of_ne_nil _ hne
        rw [hfilter] at hsnap
        rw [(hbuilt entry hentry job hok).1]
        exact ⟨snap, List.mem_of_mem_filter hsnap, by simpa using (List.mem_filter.1 hsnap).2⟩
      · rintro ⟨snap, hsnap, rfl⟩
        obtain ⟨entry, hentry, -, hkey⟩ := hbucket snap hsnap
        obtain ⟨job, hjob, hok⟩ := exists_of_forall₂ hjobs hentry
        exact List.mem_map.2 ⟨job, hjob, (hbuilt entry hentry job hok).1.trans hkey⟩

/-- Attaching fails on a job without a group, or there is a group for each. -/
theorem attachVars_cases (jobs : List (Str × List (VarMeta J E))) (groups : Std.TreeMap Str (NodeData J E))
    (hne : ∀ job ∈ jobs, job.2 ≠ []) :
    (∃ job ∈ jobs, job.1 ∉ groups ∧ attachVars jobs groups =
      .error (.other s!"icechunk: arrays under {shown job.1} have no parent group")) ∨
    (∀ job ∈ jobs, job.1 ∈ groups) ∧ ∃ groups', attachVars jobs groups = .ok groups' := by
  induction jobs generalizing groups with
  | nil => exact .inr ⟨by simp, groups, rfl⟩
  | cons job jobs ih =>
    obtain ⟨parentPath, vars⟩ := job
    cases hget : groups[parentPath]? with
    | none =>
      have hout : parentPath ∉ groups := by simpa using hget
      have hvars : vars ≠ [] := hne (parentPath, vars) (by simp)
      exact .inl ⟨(parentPath, vars), by simp, hout, by simp [attachVars, hget, hvars]⟩
    | some node =>
      have hin : parentPath ∈ groups := Std.TreeMap.mem_iff_isSome_getElem?.2 (by rw [hget]; rfl)
      -- Replacing the variables of a group adds no key.
      have hkeys : ∀ k, k ∈ groups.insert parentPath { node with vars } ↔ k ∈ groups := by
        intro k
        rw [Std.TreeMap.mem_insert, Std.LawfulEqCmp.compare_eq_iff_eq]
        constructor
        · rintro (rfl | h)
          · exact hin
          · exact h
        · exact .inr
      simp only [attachVars, hget]
      rcases ih (groups.insert parentPath { node with vars }) fun job hjob => hne job (by simp [hjob]) with
        ⟨job, hjob, hout, hrun⟩ | ⟨hall, hrun⟩
      · exact .inl ⟨job, by simp [hjob], fun h => hout ((hkeys _).2 h), hrun⟩
      · exact .inr ⟨List.forall_mem_cons.2 ⟨hin, fun job hjob => (hkeys _).1 (hall job hjob)⟩, hrun⟩

/-! ## The whole walk -/

theorem requestedArray_iff :
    requestedArray root recursive glob snap = true ↔
      snap.nodeData = .array ∧ inRequest root recursive glob snap = true := by
  unfold requestedArray
  cases snap.nodeData <;> simp

/-- The parent of an array that was asked for is a group of the walk if it is one of the listing. -/
theorem requestedGroup_parent (hkind : snap.nodeData = .array) (hin : inRequest root recursive glob snap = true) :
    RequestedGroup root recursive glob snapshots (parentOf (icePathToString snap.path)) ↔
      hasGroup snapshots (groupOf snap) = true := by
  have hparent : groupOf snap = parentOf (icePathToString snap.path) := by simp [groupOf, hkind]
  rw [hasGroup_iff, hparent]
  constructor
  · rintro ⟨group, hmem, hgroup, -, hpath⟩
    exact ⟨group, hmem, hgroup, hpath⟩
  · rintro ⟨group, hmem, hgroup, hpath⟩
    -- Both filters ask the same path of an array and of its parent.
    have hsame : groupOf group = groupOf snap := by rw [hparent, ← hpath, groupOf, hgroup]
    exact ⟨group, hmem, hgroup, by rw [inRequest, hsame]; exact hin, hpath⟩

/-- Once the listing is there, the walk fails on an unsound snapshot that was asked for, or there is none. -/
theorem walk_cases (recursive : Bool) (glob : Option GlobPredicate) {rootPath : Str} {parent : IcePath}
    {nodesIter : List (Except String NodeSnapshot)}
    (hpath : session.pathNew rootPath = .ok parent) (hlist : session.listNodes parent = .ok nodesIter)
    (hitems : nodesIter.mapM id = .ok snapshots) :
    (∃ snap ∈ snapshots, inRequest (normalizePath rootPath) recursive glob snap = true ∧ ∃ err,
      snapshotError session snapshots snap = some err ∧
      walkIcechunkSessionSnapshot (E := E) session rootPath recursive glob = .error err) ∨
    (∀ snap ∈ snapshots, inRequest (normalizePath rootPath) recursive glob snap = true →
      snapshotError session snapshots snap = none) ∧
    ∃ nodes, walkIcechunkSessionSnapshot (E := E) session rootPath recursive glob = .ok nodes := by
  unfold walkIcechunkSessionSnapshot
  simp only [hpath, hlist, hitems]
  rcases materialise_cases (E := E) session (normalizePath rootPath) recursive glob snapshots ∅ [] with
    ⟨snap, hmem, err, hkind, hin, hparse, hrun⟩ | ⟨hparsed, groups, hrun, hgroups⟩
  · exact .inl ⟨snap, hmem, hin, err, (snapshotError_group hkind).1 err hparse, by rw [hrun]; rfl⟩
  simp only [hrun, List.nil_append, bind, Except.bind]
  rcases jobs_cases (E := E) session
    (snapshots.filter (requestedArray (normalizePath rootPath) recursive glob)) with
    ⟨snap, hmem, err, herr, hjobs⟩ | ⟨hbuilt, jobs, hjobs, hne, hparents⟩
  · obtain ⟨hsnap, harray⟩ := List.mem_filter.1 hmem
    obtain ⟨hkind, hin⟩ := requestedArray_iff.1 harray
    exact .inl ⟨snap, hsnap, hin, err, (snapshotError_array hkind).1 err herr, by rw [hjobs]⟩
  simp only [hjobs]
  rcases attachVars_cases jobs groups hne with ⟨job, hjob, hout, hattach⟩ | ⟨hall, groups', hattach⟩
  · obtain ⟨snap, hmem, hparent⟩ := (hparents job.1).1 (List.mem_map_of_mem hjob)
    obtain ⟨hsnap, harray⟩ := List.mem_filter.1 hmem
    obtain ⟨hkind, hin⟩ := requestedArray_iff.1 harray
    obtain ⟨var, hvar⟩ := hbuilt snap hmem
    have hnone : ¬ hasGroup snapshots (groupOf snap) = true := by
      rw [← requestedGroup_parent hkind hin, hparent]
      exact fun h => hout ((hgroups job.1).2 (.inr h))
    have hkey : groupOf snap = job.1 := by rw [← hparent, groupOf, hkind]
    have herr : snapshotError session snapshots snap = _ := (snapshotError_array hkind).2 var hvar
    rw [if_neg hnone, hkey] at herr
    exact .inl ⟨snap, hsnap, hin, _, herr, by rw [hattach]⟩
  · refine .inr ⟨fun snap hsnap hin => ?_, _, by rw [hattach]⟩
    cases hkind : snap.nodeData with
    | group =>
      obtain ⟨attrs, hparse⟩ := hparsed snap hsnap hkind hin
      exact (snapshotError_group hkind).2 attrs hparse
    | array =>
      have hmem : snap ∈ snapshots.filter (requestedArray (normalizePath rootPath) recursive glob) :=
        List.mem_filter.2 ⟨hsnap, requestedArray_iff.2 ⟨hkind, hin⟩⟩
      obtain ⟨var, hvar⟩ := hbuilt snap hmem
      obtain ⟨job, hjob, hkey⟩ := List.mem_map.1 ((hparents _).2 ⟨snap, hmem, rfl⟩)
      have hgroup : RequestedGroup (normalizePath rootPath) recursive glob snapshots
          (parentOf (icePathToString snap.path)) := by
        have hin := (hgroups _).1 (hall job hjob)
        rw [hkey] at hin
        exact hin.resolve_left (by simp)
      rw [(snapshotError_array hkind).2 var hvar, if_pos ((requestedGroup_parent hkind hin).1 hgroup)]

/-- The walk fails with one of the request's failures, or the request has none. -/
theorem snapshot_walk_cases (session : Session J) (rootPath : Str) (recursive : Bool) (glob : Option GlobPredicate) :
    (∃ err, walkIcechunkSessionSnapshot (E := E) session rootPath recursive glob = .error err ∧
      SnapshotFails session rootPath recursive glob err) ∨
    (∃ nodes, walkIcechunkSessionSnapshot (E := E) session rootPath recursive glob = .ok nodes) ∧
      ∀ err, ¬ SnapshotFails session rootPath recursive glob err := by
  cases hpath : session.pathNew rootPath with
  | error pathErr =>
    simp only [walkIcechunkSessionSnapshot, SnapshotFails, hpath]
    exact .inl ⟨_, rfl, rfl⟩
  | ok parent =>
    cases hlist : session.listNodes parent with
    | error listErr =>
      simp only [walkIcechunkSessionSnapshot, SnapshotFails, hpath, hlist]
      exact .inl ⟨_, rfl, rfl⟩
    | ok nodesIter =>
      cases hitems : nodesIter.mapM id with
      | error itemErr =>
        simp only [walkIcechunkSessionSnapshot, SnapshotFails, hpath, hlist, hitems]
        exact .inl ⟨_, rfl, rfl⟩
      | ok snapshots =>
        simp only [SnapshotFails, hpath, hlist, hitems]
        rcases walk_cases (E := E) recursive glob hpath hlist hitems with
          ⟨snap, hmem, hin, err, herr, hrun⟩ | ⟨hsound, hrun⟩
        · exact .inl ⟨err, hrun, snap, hmem, hin, herr⟩
        · refine .inr ⟨hrun, ?_⟩
          rintro err ⟨snap, hmem, hin, herr⟩
          rw [hsound snap hmem hin] at herr
          cases herr

/-- A request for less has fewer failures. -/
theorem SnapshotFails.widen {rootPath : Str} {err : RustytreeError}
    (h : SnapshotFails session rootPath recursive glob err) : SnapshotFails session rootPath true none err := by
  unfold SnapshotFails at h ⊢
  cases hpath : session.pathNew rootPath with
  | error pathErr => simpa only [hpath] using h
  | ok parent =>
    cases hlist : session.listNodes parent with
    | error listErr => simpa only [hpath, hlist] using h
    | ok nodesIter =>
      cases hitems : nodesIter.mapM id with
      | error itemErr => simpa only [hpath, hlist, hitems] using h
      | ok snapshots =>
        simp only [hpath, hlist, hitems] at h ⊢
        obtain ⟨snap, hmem, -, herr⟩ := h
        exact ⟨snap, hmem, rfl, herr⟩

end

/-- Whatever an icechunk session answers, the walk fails exactly when the listing
does or a snapshot that was asked for is unsound, and the error it reports is one
of theirs; what was not asked for never matters. So where the whole subtree can be
opened, every part of it can. -/
theorem snapshot_walk_reports (session : Session J) (rootPath : Str) (recursive : Bool) (glob : Option GlobPredicate) :
    (∀ err, walkIcechunkSessionSnapshot (E := E) session rootPath recursive glob = .error err →
      SnapshotFails session rootPath recursive glob err) ∧
    ((∃ nodes, walkIcechunkSessionSnapshot (E := E) session rootPath recursive glob = .ok nodes) ↔
      ∀ err, ¬ SnapshotFails session rootPath recursive glob err) ∧
    ((∃ nodes, walkIcechunkSessionSnapshot (E := E) session rootPath true none = .ok nodes) →
      ∃ nodes, walkIcechunkSessionSnapshot (E := E) session rootPath recursive glob = .ok nodes) := by
  have hiff : ∀ recursive glob, (∃ nodes, walkIcechunkSessionSnapshot (E := E) session rootPath recursive glob =
      .ok nodes) ↔ ∀ err, ¬ SnapshotFails session rootPath recursive glob err := by
    intro recursive glob
    rcases snapshot_walk_cases (E := E) session rootPath recursive glob with ⟨err, hrun, hfails⟩ | ⟨hok, hnone⟩
    · constructor
      · rintro ⟨nodes, hok⟩
        rw [hrun] at hok
        cases hok
      · intro hnone
        exact absurd hfails (hnone err)
    · exact ⟨fun _ => hnone, fun _ => hok⟩
  refine ⟨?_, hiff recursive glob, fun hwhole => (hiff recursive glob).2 fun err hfails => ?_⟩
  · intro err hrun
    rcases snapshot_walk_cases (E := E) session rootPath recursive glob with ⟨err', hrun', hfails⟩ | ⟨⟨nodes, hok⟩, -⟩
    · rw [hrun] at hrun'
      cases hrun'
      exact hfails
    · rw [hrun] at hok
      cases hok
  · exact (hiff true none).1 hwhole err hfails.widen

end Rustytree
