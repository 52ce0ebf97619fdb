import Rustytree.Lib.Dict
import Rustytree.PurePath
import Rustytree.Walk
/-!
# The xarray entry points (`backend.py`)

`open_datatree` and `open_dataset` around the Rust walk: the group is made
canonical, the walk's nodes become a dictionary, and the dictionary is checked,
filtered or re-rooted. How a node becomes a dataset and how datasets merge is
xarray's, and may raise; both are parameters.
-/

namespace Rustytree
open Glob Lib.Dict

/-! ## The source -/

/-- A `dict` with string keys. -/
abbrev Dict (V : Type) := List (Str × V)

/-- `ROOT`. -/
def ROOT : Str := ['/']

/-- `repr` of a string, for printable text. -/
def pyRepr (s : Str) : String :=
  let quote := if s.contains '\x27' && !s.contains '\x22' then '\x22' else '\x27'
  shown (quote :: (s.flatMap fun c => if c = '\x5c' ∨ c = quote then ['\x5c', c] else [c]) ++ [quote])

/-- The keyword arguments that decide what is opened. -/
structure OpenKwargs where
  group : Option Str := none
  groupFilter : Option Str := none
  zarrFormat : Option Int := none
  consolidated : Option Bool := none
  includeAncestorCoords : Bool := true

/-- What an open works with: the store behind `filename_or_obj`, whether it came
as session bytes, the read of an array's elements, and xarray's two functions. -/
structure Opener (J E D : Type) where
  source : WalkSource J
  sourceIsBytes : Bool
  fuel : Nat
  fetch : ZarrArray J → Except RustytreeError E
  nodeToDataset : NodeData J E → Except PyErr D
  merge : List D → Except PyErr D

/-- No node fails to become a dataset. -/
def Opener.Converts {J E D : Type} (o : Opener J E D) : Prop := ∀ node, ∃ ds, o.nodeToDataset node = .ok ds

/-- No merge fails. -/
def Opener.Merges {J E D : Type} (o : Opener J E D) : Prop := ∀ datasets, ∃ ds, o.merge datasets = .ok ds

section
variable {J E D V : Type}

/-- `_validate_group_filter`. -/
def validateGroupFilter (group groupFilter : Option Str) : Except PyErr Unit :=
  if group.isSome && groupFilter.isSome then
    .error (.valueError "group and group_filter are mutually exclusive: group selects an exact group path while group_filter is a glob pattern over all group paths.")
  else if groupFilter = some [] then .error (.valueError "group_filter must be a non-empty glob pattern")
  else .ok ()

/-- `_check_zarr_v3_only`. -/
def checkZarrV3Only (zarrFormat : Option Int) (consolidated : Option Bool) : Except PyErr Unit :=
  match zarrFormat with
  | some format =>
    if format ≠ 3 then
      .error (.notImplementedError s!"rustytree currently supports Zarr v3 only; got zarr_format={format}. Use `engine='zarr'` for Zarr v{format} stores.")
    else checkConsolidated
  | none => checkConsolidated
where
  checkConsolidated : Except PyErr Unit :=
    if consolidated = some true then
      .error (.notImplementedError "rustytree does not support consolidated metadata (`consolidated=True`); that's the Zarr v2 convention and rustytree currently supports Zarr v3 only. icechunk's snapshot plays the same role for icechunk repos. Use `engine='zarr'` if you need consolidated v2 metadata, or pass `consolidated=False` (or omit the kwarg) for Zarr v3.")
    else .ok ()

/-- `_normalize_literal_group`. -/
def normalizeLiteralGroup : Option Str → Option Str
  | none => none
  | some [] => some ROOT
  | some group => some (PurePosixPath.parse (if ['/'].isPrefixOf group then group else '/' :: group)).str

/-- `nodes_to_pydict`. -/
def nodesToPydict (nodes : List (NodeData J E)) : Dict (NodeData J E) :=
  nodes.foldl (fun dict node => set dict node.path node) []

/-- `open_datatree` of `lib.rs`. -/
def rustOpen (o : Opener J E D) (group : Option Str) (recursive : Option Bool) (glob : Option Str) :
    Except PyErr (Dict (NodeData J E)) :=
  match walkRecursive o.fuel (fun _ _ => o.fetch) o.source (group.getD ROOT) (recursive.getD true)
      (glob.map GlobPredicate.parse) with
  | .error err => .error err.toPyErr
  | .ok nodes => .ok (nodesToPydict nodes)

/-- `_is_python_credentials_fetcher_error`. -/
def isPythonCredentialsFetcherError (msg : String) : Bool :=
  let holds (text : String) : Bool := decide (text.toList <:+: msg.toList)
  holds "PythonCredentialsFetcher" || (holds "unknown variant" && holds "there are no variants")

/-- What `_rust_open_or_explain` raises for an exception of the Rust side. -/
def explanation (sourceIsBytes : Bool) : PyErr → PyErr
  | .valueError msg =>
    if sourceIsBytes && isPythonCredentialsFetcherError msg then
      .valueError "rustytree could not deserialize this icechunk session: it carries a credentials fetcher the Rust core does not recognize. This usually means the installed icechunk-python is newer than the icechunk version rustytree was built against and the credentials format drifted. Align icechunk / icechunk-python versions, or rebuild the session with anonymous or static credentials."
    else .valueError msg
  | err => err

/-- `_rust_open_or_explain`. -/
def rustOpenOrExplain (o : Opener J E D) (group : Option Str) (recursive : Option Bool) (glob : Option Str) :
    Except PyErr (Dict (NodeData J E)) :=
  (rustOpen o group recursive glob).mapError (explanation o.sourceIsBytes)

/-- The paths of `tree` that match, in its order. -/
def matchedPaths (pattern : PurePosixPath) : List Str → Except PyErr (List Str)
  | [] => .ok []
  | path :: paths => do
    let hit ← (PurePosixPath.parse path).matches pattern
    let rest ← matchedPaths pattern paths
    .ok (if hit then path :: rest else rest)

/-- `_filter_by_glob`. -/
def filterByGlob (tree : Dict V) (pattern : Str) : Except PyErr (Dict V) := do
  let matched ← matchedPaths (.parse pattern) (tree.map (·.1))
  let keep := matched ++ matched.flatMap fun p => (PurePosixPath.parse p).parents.map (·.str)
  .ok (tree.filter fun entry => entry.1 ∈ keep)

/-- The key a path gets under the new root, for `root` without trailing slashes. -/
def rerootedKey (root path : Str) : Option Str :=
  let stem := root ++ ['/']
  if path = root then some ROOT
  else if stem.isPrefixOf path then some (ROOT ++ path.drop stem.length)
  else none

/-- `_reroot`. -/
def reroot (groups : Dict V) (root : Str) : Dict V :=
  let root := trimEndMatches '/' root
  groups.foldl (fun out entry => setSome out (rerootedKey root entry.1) entry.2) []

/-- The group of `if group and group != ROOT`. -/
def literalSubtree (group : Option Str) : Option Str := group.filter fun g => g != [] && g != ROOT

/-- The Rust side as Python calls it on one source: by group, `recursive` and `glob`. -/
abbrev RustSide (J E : Type) := Option Str → Option Bool → Option Str → Except PyErr (Dict (NodeData J E))

/-- `open_dataset`, where `connect` converts the source. -/
def openDatasetWith (nodeToDataset : NodeData J E → Except PyErr D) (connect : Except PyErr (RustSide J E))
    (kwargs : OpenKwargs) : Except PyErr D := do
  checkZarrV3Only kwargs.zarrFormat kwargs.consolidated
  validateGroupFilter kwargs.group kwargs.groupFilter
  match kwargs.groupFilter with
  | some pattern => .error (.notImplementedError s!"rustytree.open_dataset: group_filter ({pyRepr pattern}) is not supported because `open_dataset` returns a single Dataset, so a multi-match glob has no defined target. Use `xr.open_datatree(group_filter=...)` instead.")
  | none =>
    let group := normalizeLiteralGroup kwargs.group
    let rustSide ← connect
    let tree ← rustSide group (some false) none
    let targetPath := (literalSubtree group).getD ROOT
    match tree.lookup targetPath with
    | none => .error (.keyError s!"rustytree.open_dataset: group {pyRepr targetPath} not found in store")
    | some node => nodeToDataset node

/-- `open_dataset` of the store. -/
def openDataset (o : Opener J E D) (kwargs : OpenKwargs) : Except PyErr D :=
  openDatasetWith o.nodeToDataset (.ok (rustOpenOrExplain o)) kwargs

/-- The filter by `group_filter`, or the check that a literal group is there. -/
def selectNodes (tree : Dict (NodeData J E)) (group groupFilter : Option Str) :
    Except PyErr (Dict (NodeData J E)) :=
  match groupFilter with
  | some pattern => filterByGlob tree pattern
  | none =>
    match literalSubtree group with
    | some g =>
      if (tree.lookup g).isNone then .error (.keyError s!"rustytree.open_datatree: group {pyRepr g} not found in store")
      else .ok tree
    | none => .ok tree

/-- The nodes of a dictionary as datasets, in its order. -/
def toDatasets (nodeToDataset : NodeData J E → Except PyErr D) (tree : Dict (NodeData J E)) : Except PyErr (Dict D) :=
  tree.mapM fun entry => (nodeToDataset entry.2).map fun ds => (entry.1, ds)

/-- The ancestors' datasets merged into the new root. `openAncestor` is
`open_dataset` on the source of the call, for the `i`th ancestor. -/
def mergeAncestorsWith (merge : List D → Except PyErr D) (openAncestor : Nat → OpenKwargs → Except PyErr D)
    (kwargs : OpenKwargs) (group : Str) (groups : Dict D) : Except PyErr (Dict D) := do
  let ancestorDses ← (PurePosixPath.parse group).parents.zipIdx.mapM fun ancestor =>
    openAncestor ancestor.2
      { group := some ancestor.1.str, zarrFormat := kwargs.zarrFormat, consolidated := kwargs.consolidated }
  match groups.lookup ROOT with
  | none => .error (.keyError (pyRepr ROOT))
  | some root => (merge (root :: ancestorDses)).map (set groups ROOT)

/-- What `open_datatree` calls once its source is converted: the Rust side, and
`open_dataset` for each ancestor. -/
structure Connection (J E D : Type) where
  rustSide : RustSide J E
  openAncestor : Nat → OpenKwargs → Except PyErr D

/-- `open_datatree`, where `connect` converts the source; the result is the
dictionary handed to xarray. -/
def openDatatreeWith (nodeToDataset : NodeData J E → Except PyErr D) (merge : List D → Except PyErr D)
    (connect : Except PyErr (Connection J E D)) (kwargs : OpenKwargs) : Except PyErr (Dict D) := do
  checkZarrV3Only kwargs.zarrFormat kwargs.consolidated
  validateGroupFilter kwargs.group kwargs.groupFilter
  let connection ← connect
  let group := normalizeLiteralGroup kwargs.group
  let tree ← connection.rustSide group none kwargs.groupFilter
  let tree ← selectNodes tree group kwargs.groupFilter
  let groups ← toDatasets nodeToDataset tree
  -- A filter excludes a group, so its result stays rooted at `/`.
  match literalSubtree group with
  | none => .ok groups
  | some g =>
    let groups := reroot groups g
    if kwargs.includeAncestorCoords then mergeAncestorsWith merge connection.openAncestor kwargs g groups
    else .ok groups

/-- `open_datatree` of the store. -/
def openDatatree (o : Opener J E D) (kwargs : OpenKwargs) : Except PyErr (Dict D) :=
  openDatatreeWith o.nodeToDataset o.merge (.ok ⟨rustOpenOrExplain o, fun _ => openDataset o⟩) kwargs

/-- The ancestors' part of it. -/
def mergeAncestors (o : Opener J E D) (kwargs : OpenKwargs) (group : Str) (groups : Dict D) :
    Except PyErr (Dict D) := mergeAncestorsWith o.merge (fun _ => openDataset o) kwargs group groups

/-! ## Canonical groups -/

theorem literalSubtree_pathStr (g : Path) :
    literalSubtree (some (pathStr g)) = if g = [] then none else some (pathStr g) := by
  have hne : pathStr g ≠ [] := by
    obtain ⟨s, hs⟩ := pathStr_cons g
    simp [hs]
  have hroot : pathStr g = ROOT ↔ g = [] := pathStr_inj (q := [])
  unfold literalSubtree
  by_cases h : g = []
  · simp [h, pathStr, ROOT]
  · simp [h, hne, hroot]

theorem normalizeLiteralGroup_pathStr {g : Path} (h : NoDots g) :
    normalizeLiteralGroup (some (pathStr g)) = some (pathStr g) := by
  obtain ⟨s, hs⟩ := pathStr_cons g
  have hnorm : normalizeLiteralGroup (some (pathStr g)) = some (PurePosixPath.parse (pathStr g)).str := by
    simp [hs, normalizeLiteralGroup]
  rw [hnorm, parse_pathStr h, str_posix]

/-- A group below the new root keeps the rest of its path; others get no key. -/
theorem rerootedKey_pathStr (g p : Path) :
    rerootedKey (joined g) (pathStr p) = if g <+: p then some (pathStr (p.drop g.length)) else none := by
  unfold rerootedKey
  by_cases hpre : g <+: p
  · obtain ⟨r, rfl⟩ := hpre
    rw [if_pos (List.prefix_append g r), List.drop_left]
    cases r with
    | nil =>
      rw [List.append_nil]
      by_cases hg : g = []
      · subst hg; decide
      · rw [if_pos (pathStr_of_ne_nil hg)]; rfl
    | cons n r =>
      have hstr : pathStr (g ++ n :: r) = joined g ++ ['/'] ++ (n.1 ++ joined r) := by
        rw [pathStr_of_ne_nil (by simp), joined_append]
        simp [joined]
      have hne : joined g ++ ['/'] ++ (n.1 ++ joined r) ≠ joined g := by
        intro h
        simpa using congrArg List.length h
      have hstem : (joined g ++ ['/']).isPrefixOf (joined g ++ ['/'] ++ (n.1 ++ joined r)) = true :=
        List.isPrefixOf_iff_prefix.2 (List.prefix_append _ _)
      simp only [hstr, hne, hstem, if_true, if_false, List.drop_left]
      simp [ROOT, pathStr, joined]
  · -- Text that starts with the stem splits into the names of `g` and others.
    have hsegs : ∀ t, pathStr p = joined g ++ t → segments (joined g ++ t) = g.map (·.1) ++ segments t →
        g <+: p := by
      intro t ht hsplit
      have hseg := congrArg segments ht
      rw [segments_pathStr, hsplit] at hseg
      exact (List.prefix_map_iff_of_injective Subtype.val_injective).1 ⟨segments t, hseg.symm⟩
    have hroot : pathStr p ≠ joined g := fun h =>
      hpre (hsegs [] (by simpa using h) (by simp [segments_joined]))
    have hstem : ¬ (joined g ++ ['/']).isPrefixOf (pathStr p) = true := by
      intro h
      obtain ⟨t, ht⟩ := List.isPrefixOf_iff_prefix.1 h
      refine hpre (hsegs ('/' :: t) (by simpa using ht.symm) ?_)
      rw [segments_append_slash, segments_joined, segments_slash]
    rw [if_neg hroot, if_neg hstem, if_neg hpre]

/-- Below one root, paths that differ still differ without it. -/
theorem rerooted_nodup {out : List Path} (hnd : out.Nodup) (f : Path → V) (g : Path) :
    (((out.filter (g.isPrefixOf ·)).map fun p => (pathStr (p.drop g.length), f p)).map (·.1)).Nodup := by
  rw [List.map_map]
  apply (hnd.filter _).map_on
  intro p hp q hq heq
  obtain ⟨r, rfl⟩ := List.isPrefixOf_iff_prefix.1 (List.mem_filter.1 hp).2
  obtain ⟨s, rfl⟩ := List.isPrefixOf_iff_prefix.1 (List.mem_filter.1 hq).2
  have hrs := pathStr_injective heq
  rw [List.drop_left, List.drop_left] at hrs
  rw [hrs]

/-- Re-rooting keeps exactly the groups at or below the root, each under a key of its own. -/
theorem reroot_pathStr {out : List Path} (hnd : out.Nodup) (f : Path → V) (g : Path) :
    reroot (out.map fun p => (pathStr p, f p)) (pathStr g) =
      (out.filter (g.isPrefixOf ·)).map fun p => (pathStr (p.drop g.length), f p) := by
  have hentries : (out.map fun p => (pathStr p, f p)).filterMap
      (fun entry => (rerootedKey (joined g) entry.1).map fun key => (key, entry.2)) =
      (out.filter (g.isPrefixOf ·)).map fun p => (pathStr (p.drop g.length), f p) := by
    rw [List.filterMap_map, ← List.filterMap_eq_map, ← List.filterMap_eq_filter, List.filterMap_filterMap]
    apply List.filterMap_congr
    intro p _
    simp only [Function.comp_apply, rerootedKey_pathStr, ← List.isPrefixOf_iff_prefix, Option.guard]
    split <;> rfl
  unfold reroot
  simp only [trimEnd_pathStr]
  rw [foldl_setSome (fun entry : Str × V => rerootedKey (joined g) entry.1) (·.2), hentries,
    setAll_nil (rerooted_nodup hnd f g)]

/-! ## The walk as a dictionary -/

theorem keys_nodup {out : List Path} (hnd : out.Nodup) (f : Path → V) :
    ((out.map fun p => (pathStr p, f p)).map (·.1)).Nodup := by
  rw [List.map_map]
  exact hnd.map pathStr_injective

/-- Nodes with distinct paths become one entry each. -/
theorem nodesToPydict_keyed {nodes : List (NodeData J E)} (h : (nodes.map (·.path)).Nodup) :
    nodesToPydict nodes = nodes.map fun node => (node.path, node) := by
  have hkeys : ((nodes.map fun node => (node.path, node)).map (·.1)).Nodup := by
    rw [List.map_map]
    exact h
  rw [← setAll_nil hkeys, setAll, List.foldl_map]
  rfl

theorem nodesToPydict_eq {out : List Path} (hnd : out.Nodup) {nodeOf : Path → NodeData J E}
    (hpath : ∀ p ∈ out, (nodeOf p).path = pathStr p) :
    nodesToPydict (out.map nodeOf) = out.map fun p => (pathStr p, nodeOf p) := by
  have hpaths : (out.map nodeOf).map (·.path) = out.map pathStr := by
    rw [List.map_map]
    exact List.map_congr_left hpath
  rw [nodesToPydict_keyed (hpaths ▸ hnd.map pathStr_injective), List.map_map]
  apply List.map_congr_left
  intro p hp
  rw [Function.comp_apply, hpath p hp]

theorem lookup_paths {out : List Path} (hnd : out.Nodup) (f : Path → V) {p : Path} (hp : p ∈ out) :
    (out.map fun p => (pathStr p, f p)).lookup (pathStr p) = some (f p) :=
  (lookup_eq_some (keys_nodup hnd f)).2 (List.mem_map_of_mem hp)

theorem mem_entries {out : List Path} (f : Path → V) {q : Path} {v : V} :
    (pathStr q, v) ∈ out.map (fun p => (pathStr p, f p)) ↔ q ∈ out ∧ f q = v := by
  rw [List.mem_map]
  constructor
  · rintro ⟨p, hp, heq⟩
    obtain ⟨hstr, rfl⟩ := Prod.mk.inj heq
    rw [← pathStr_injective hstr]
    exact ⟨hp, rfl⟩
  · rintro ⟨hq, rfl⟩
    exact ⟨q, hq, rfl⟩

/-- The presence check passes on a path of the walk. -/
theorem lookup_paths_found {out : List Path} (hnd : out.Nodup) (f : Path → V) {p : Path} (hp : p ∈ out) :
    ¬ ((out.map fun p => (pathStr p, f p)).lookup (pathStr p)).isNone = true := by
  rw [lookup_paths hnd f hp]
  simp

variable {o : Opener J E D} {group : Option Str} {recursive : Option Bool} {glob : Option Str}

theorem rustOpenOrExplain_ok {tree : Dict (NodeData J E)} (h : rustOpen o group recursive glob = .ok tree) :
    rustOpenOrExplain o group recursive glob = .ok tree := by
  unfold rustOpenOrExplain
  rw [h]
  rfl

/-- An empty walk is an empty dictionary. -/
theorem rustOpenOrExplain_empty (h : walkRecursive o.fuel (fun _ _ => o.fetch) o.source (group.getD ROOT)
    (recursive.getD true) (glob.map GlobPredicate.parse) = .ok []) :
    rustOpenOrExplain o group recursive glob = .ok [] := by
  apply rustOpenOrExplain_ok
  unfold rustOpen
  rw [h]
  rfl

/-- A failed walk raises, and a `KeyError` exactly for an absent node. -/
theorem rustOpenOrExplain_error (o : Opener J E D) (group : Option Str) (recursive : Option Bool) (glob : Option Str)
    {err : RustytreeError} (h : walkRecursive o.fuel (fun _ _ => o.fetch) o.source (group.getD ROOT)
      (recursive.getD true) (glob.map GlobPredicate.parse) = .error err) :
    ∃ e, rustOpenOrExplain o group recursive glob = .error e ∧ e.isKeyError = err.toPyErr.isKeyError := by
  have hopen : rustOpen o group recursive glob = .error err.toPyErr := by
    unfold rustOpen
    rw [h]
  unfold rustOpenOrExplain
  rw [hopen]
  refine ⟨explanation o.sourceIsBytes err.toPyErr, rfl, ?_⟩
  cases err.toPyErr with
  | valueError msg =>
    rw [explanation]
    split <;> rfl
  | _ => rfl

/-- Opening from a group the source holds gives a dictionary with one node for
each group of the region. -/
theorem opened_ok {H : Hierarchy J} {roots : Path → Prop} (hsource : HeldFrom H roots o.source)
    (hfuel : H.height ≤ o.fuel) :
    ∃ nodeOf : Path → NodeData J E, ∀ root ∈ H.groupPaths, roots root → ∀ (recursive : Option Bool) (glob : Option Str),
      passes (glob.map GlobPredicate.parse) (pathStr root) = true →
      ∃ out : List Path, out.Nodup ∧
        (∀ q, q ∈ out ↔ Region H root (recursive.getD true) (glob.map GlobPredicate.parse) q) ∧
        rustOpenOrExplain o (some (pathStr root)) recursive glob = .ok (out.map fun p => (pathStr p, nodeOf p)) := by
  obtain ⟨nodeOf, hpath, hwalk⟩ := walkRecursive_ok hsource o.fetch hfuel
  refine ⟨nodeOf, fun root hr hroot recursive glob hpass => ?_⟩
  obtain ⟨out, hnd, hmem, hrun⟩ := hwalk root hr hroot (recursive.getD true) (glob.map GlobPredicate.parse) hpass
  have hout : ∀ p ∈ out, (nodeOf p).path = pathStr p := fun p hp => hpath p ((hmem p).1 hp).1
  refine ⟨out, hnd, hmem, rustOpenOrExplain_ok ?_⟩
  unfold rustOpen
  rw [Option.getD_some, hrun]
  simp only [nodesToPydict_eq hnd hout]

/-! ## Nodes as datasets -/

variable {nodeToDataset : NodeData J E → Except PyErr D} {nodeOf : Path → NodeData J E} {out : List Path}

theorem toDatasets_ok {dataset : Path → D} (h : ∀ p ∈ out, nodeToDataset (nodeOf p) = .ok (dataset p)) :
    toDatasets nodeToDataset (out.map fun p => (pathStr p, nodeOf p)) =
      .ok (out.map fun p => (pathStr p, dataset p)) := by
  unfold toDatasets
  rw [List.mapM_map]
  apply Lib.Collect.mapM_ok_of
  intro p hp
  rw [Function.comp_apply, h p hp]
  rfl

theorem toDatasets_keys {tree : Dict (NodeData J E)} {groups : Dict D}
    (h : toDatasets nodeToDataset tree = .ok groups) : groups.map (·.1) = tree.map (·.1) := by
  rw [← List.forall₂_eq_eq_eq, List.forall₂_map_left_iff, List.forall₂_map_right_iff]
  apply (Lib.Collect.mapM_eq_ok.1 h).flip.imp
  intro entry node hentry
  cases hds : nodeToDataset node.2 with
  | error err =>
    rw [hds] at hentry
    cases hentry
  | ok ds =>
    rw [hds] at hentry
    cases hentry
    rfl

/-- Every node becomes a dataset, or the first that does not is raised. -/
theorem dataset_of_toDatasets {groups : Dict D}
    (h : toDatasets nodeToDataset (out.map fun p => (pathStr p, nodeOf p)) = .ok groups) :
    ∀ p ∈ out, ∃ ds, nodeToDataset (nodeOf p) = .ok ds := by
  unfold toDatasets at h
  rw [List.mapM_map] at h
  intro p hp
  obtain ⟨entry, -, hentry⟩ := Lib.Collect.exists_of_forall₂ (Lib.Collect.mapM_eq_ok.1 h) hp
  simp only [Function.comp_apply] at hentry
  cases hds : nodeToDataset (nodeOf p) with
  | ok ds => exact ⟨ds, rfl⟩
  | error err =>
    rw [hds] at hentry
    cases hentry

/-- If all of them do, the dictionary has the dataset of each under its path. -/
theorem toDatasets_eq {groups : Dict D} {g : Path} (hg : g ∈ out)
    (h : toDatasets nodeToDataset (out.map fun p => (pathStr p, nodeOf p)) = .ok groups) :
    ∃ dataset : Path → D, (∀ p ∈ out, nodeToDataset (nodeOf p) = .ok (dataset p)) ∧
      groups = out.map fun p => (pathStr p, dataset p) := by
  have hall := dataset_of_toDatasets h
  obtain ⟨ds, -⟩ := hall g hg
  have : Nonempty D := ⟨ds⟩
  choose! dataset hdataset using hall
  rw [toDatasets_ok hdataset] at h
  exact ⟨dataset, hdataset, (Except.ok.inj h).symm⟩

/-! ## The entry points on valid arguments -/

@[simp] theorem checkZarrV3Only_default : checkZarrV3Only none none = .ok () := rfl

@[simp] theorem validateGroupFilter_group (group : Option Str) : validateGroupFilter group none = .ok () := by
  cases group <;> rfl

@[simp] theorem validateGroupFilter_filter {pattern : Str} (h : pattern ≠ []) :
    validateGroupFilter none (some pattern) = .ok () := by simp [validateGroupFilter, h]

/-- `open_dataset` of a canonical group. -/
theorem openDataset_canonical (o : Opener J E D) {g : Path} (hdots : NoDots g) :
    openDataset o { group := some (pathStr g) } =
      match rustOpenOrExplain o (some (pathStr g)) (some false) none with
      | .error err => .error err
      | .ok tree =>
        match tree.lookup (pathStr g) with
        | none => .error (.keyError s!"rustytree.open_dataset: group {pyRepr (pathStr g)} not found in store")
        | some node => o.nodeToDataset node := by
  have htarget : (literalSubtree (some (pathStr g))).getD ROOT = pathStr g := by
    rw [literalSubtree_pathStr]
    split
    next h => rw [h]; rfl
    next => rfl
  unfold openDataset openDatasetWith
  simp only [checkZarrV3Only_default, validateGroupFilter_group, bind, Except.bind,
    normalizeLiteralGroup_pathStr hdots, htarget]
  cases rustOpenOrExplain o (some (pathStr g)) (some false) none with
  | error err => rfl
  | ok tree => rfl

/-- `open_datatree` of the root. -/
theorem openDatatree_root (o : Opener J E D) (includeAncestorCoords : Bool) :
    openDatatree o { group := some (pathStr []), includeAncestorCoords } =
      match rustOpenOrExplain o (some (pathStr [])) none none with
      | .error err => .error err
      | .ok tree => toDatasets o.nodeToDataset tree := by
  unfold openDatatree openDatatreeWith selectNodes
  have hdots : NoDots [] := by simp [NoDots]
  simp only [checkZarrV3Only_default, validateGroupFilter_group, bind, Except.bind,
    normalizeLiteralGroup_pathStr hdots, literalSubtree_pathStr, if_true]
  cases rustOpenOrExplain o (some (pathStr [])) none none with
  | error err => rfl
  | ok tree => cases htree : toDatasets o.nodeToDataset tree <;> simp only [htree]

/-- Without a group the root is opened. -/
theorem openDatatree_default (o : Opener J E D) :
    openDatatree o {} = openDatatree o { group := some (pathStr []) } := by
  rw [openDatatree_root]
  have hwalk : rustOpenOrExplain o none none none = rustOpenOrExplain o (some (pathStr [])) none none := rfl
  have hnone : literalSubtree none = none := rfl
  unfold openDatatree openDatatreeWith selectNodes
  simp only [checkZarrV3Only_default, validateGroupFilter_group, bind, Except.bind, normalizeLiteralGroup, hwalk, hnone]
  cases rustOpenOrExplain o (some (pathStr [])) none none with
  | error err => rfl
  | ok tree => cases htree : toDatasets o.nodeToDataset tree <;> simp only [htree]

/-- `open_datatree` of a canonical group other than the root. -/
theorem openDatatree_canonical (o : Opener J E D) (includeAncestorCoords : Bool) {g : Path} (hdots : NoDots g)
    (hg : g ≠ []) :
    openDatatree o { group := some (pathStr g), includeAncestorCoords } =
      match rustOpenOrExplain o (some (pathStr g)) none none with
      | .error err => .error err
      | .ok tree =>
        if (tree.lookup (pathStr g)).isNone then
          .error (.keyError s!"rustytree.open_datatree: group {pyRepr (pathStr g)} not found in store")
        else
          match toDatasets o.nodeToDataset tree with
          | .error err => .error err
          | .ok groups =>
            if includeAncestorCoords then
              mergeAncestors o { group := some (pathStr g), includeAncestorCoords } (pathStr g)
                (reroot groups (pathStr g))
            else .ok (reroot groups (pathStr g)) := by
  unfold openDatatree openDatatreeWith selectNodes
  simp only [checkZarrV3Only_default, validateGroupFilter_group, bind, Except.bind,
    normalizeLiteralGroup_pathStr hdots, literalSubtree_pathStr, if_neg hg]
  cases rustOpenOrExplain o (some (pathStr g)) none none with
  | error err => rfl
  | ok tree =>
    by_cases h : (tree.lookup (pathStr g)).isNone = true
    · simp only [if_pos h]
    · simp only [if_neg h]
      cases toDatasets o.nodeToDataset tree <;> rfl

/-- `open_datatree` with a filter. -/
theorem openDatatree_filter (o : Opener J E D) (includeAncestorCoords : Bool) {pattern : Str} (h : pattern ≠ []) :
    openDatatree o { groupFilter := some pattern, includeAncestorCoords } =
      match rustOpenOrExplain o none none (some pattern) with
      | .error err => .error err
      | .ok tree =>
        match filterByGlob tree pattern with
        | .error err => .error err
        | .ok kept => toDatasets o.nodeToDataset kept := by
  unfold openDatatree openDatatreeWith selectNodes
  have hnone : literalSubtree none = none := rfl
  simp only [checkZarrV3Only_default, validateGroupFilter_filter h, bind, Except.bind, normalizeLiteralGroup, hnone]
  cases rustOpenOrExplain o none none (some pattern) with
  | error err => rfl
  | ok tree =>
    cases hfilter : filterByGlob tree pattern with
    | error err => simp only [hfilter]
    | ok kept => cases hkept : toDatasets o.nodeToDataset kept <;> simp only [hfilter, hkept]

end

end Rustytree
