import Rustytree.Ancestors
import Rustytree.Parity
import Rustytree.Prune
import Rustytree.WalkOrder
/-!
# The dictionary handed to `DataTree.from_dict`

`from_dict` wants a hierarchy: every group's parent is there and stands before
it. Whatever is selected, by a literal group or by a filter, `open_datatree`
hands over such a dictionary, or raises: for its arguments, for a group that does
not become a dataset, or for the merge.
-/

namespace Rustytree
open Glob Lib.Dict Lib.Preorder

/-- The keys of the dictionary: each once, closed under parents, parents first. -/
structure WellFormed {V : Type} (dict : Dict V) (keys : List Path) : Prop where
  listed : dict.map (·.1) = keys.map pathStr
  nodup : keys.Nodup
  closed : ∀ q ∈ keys, ∀ p, p <+: q → p ∈ keys
  ancestorsFirst : AncestorsFirst (· <+: ·) keys

/-- The group that becomes the new root. -/
def newRoot (kwargs : OpenKwargs) : Path := (kwargs.group.map spelledPath).getD []

/-- A group that the walk's predicate and the filter leave. -/
def Kept {J : Type} (H : Hierarchy J) (pattern : Str) (q : Path) : Prop :=
  q ∈ H.groupPaths ∧ passes (some (.parse pattern)) (pathStr q) = true

/-- The groups an open selects, by their keys. -/
def Selected {J : Type} (H : Hierarchy J) (kwargs : OpenKwargs) (q : Path) : Prop :=
  match kwargs.groupFilter with
  | some pattern => ∃ m, q <+: m ∧ Kept H pattern m ∧ MatchesPath pattern m
  | none => newRoot kwargs ++ q ∈ H.groupPaths

/-- The arguments that `open_datatree` accepts on the hierarchy. -/
structure Accepted {J : Type} (H : Hierarchy J) (kwargs : OpenKwargs) : Prop where
  format : checkZarrV3Only kwargs.zarrFormat kwargs.consolidated = .ok ()
  exclusive : validateGroupFilter kwargs.group kwargs.groupFilter = .ok ()
  present : newRoot kwargs ∈ H.groupPaths
  matchable : ∀ pattern, kwargs.groupFilter = some pattern → Matchable pattern

/-- What an open with the keys `keys` below `g` comes to: the dataset of every
group, and with the ancestors' coordinates the new root merged from the datasets
of `g` and all above it, nearest first. -/
def assembled {D : Type} (merge : List D → Except PyErr D) (includeAncestorCoords : Bool) (g : Path)
    (datasetAt : Path → Except PyErr D) (keys : List Path) : Except PyErr (Dict D) := do
  let groups ← keys.mapM fun q => (datasetAt (g ++ q)).map fun ds => (pathStr q, ds)
  if includeAncestorCoords = true ∧ g ≠ [] then do
    let lineage ← (g :: ancestors g).mapM datasetAt
    let top ← merge lineage
    .ok (set groups ROOT top)
  else .ok groups

/-- The datasets that the call needs can be had: every selected group opens by
itself, and so do the group and all above it if they are merged, and the merge. -/
structure Loads {J E D : Type} (o : Opener J E D) (H : Hierarchy J) (kwargs : OpenKwargs) : Prop where
  selected : ∀ q, Selected H kwargs q → ∃ ds, openDataset o { group := some (pathStr (newRoot kwargs ++ q)) } = .ok ds
  merged : kwargs.includeAncestorCoords = true ∧ newRoot kwargs ≠ [] → ∃ lineage top,
    ((newRoot kwargs :: ancestors (newRoot kwargs)).mapM fun a => openDataset o { group := some (pathStr a) }) =
        .ok lineage ∧
      o.merge lineage = .ok top

/-! ## The order of a walk -/

/-- No path of the list is above one that stands before it, nor twice in it. -/
abbrev Ordered (paths : List Path) : Prop := paths.Pairwise fun p q => ¬ q <+: p

theorem Ordered.nodup {paths : List Path} (h : Ordered paths) : paths.Nodup := by
  apply h.imp
  rintro p q hqp rfl
  exact hqp (List.prefix_refl p)

theorem Ordered.ancestorsFirst {paths : List Path} (h : Ordered paths) : AncestorsFirst (· <+: ·) paths := by
  apply ancestorsFirst_of_pairwise h
  intro p q hpq _ hqp
  exact hqp hpq

section
variable {J E D V : Type} {H : Hierarchy J} {root : Path} {roots : Path → Prop}

theorem vanilla_ordered {store : ZarrsStore J} (h : Serves store H) (hr : root ∈ H.groupPaths) {fuel : Nat}
    (hfuel : H.height ≤ fuel) {recursive : Bool} {glob : Option GlobPredicate} {nodes : List (NodeData J E)}
    (hwalk : walkViaZarrs fuel store (pathStr root) recursive glob = .ok nodes) :
    ∃ paths, nodes.map (·.path) = paths.map pathStr ∧ Ordered paths := by
  have hchildren := h.childGroups
  choose! children hlisted hperm using hchildren
  obtain ⟨t, hpruned, hlabel, hpaths⟩ := walkedPaths_preorder h hlisted hperm hr hfuel recursive glob
  rw [walkViaZarrs, hpaths] at hwalk
  refine ⟨t.preorder, ?_, (hpruned.ordered hperm (hlabel ▸ hr)).1.pairwise⟩
  rw [← List.forall₂_eq_eq_eq, List.forall₂_map_left_iff]
  exact ((Lib.Collect.mapM_eq_ok.1 hwalk).imp fun _ _ hopen => openSingle_path hopen).flip

theorem ordered_of_sorted {paths : List Path}
    (h : (paths.map pathStr).Pairwise fun a b => compare a b = .lt) : Ordered paths := by
  rw [List.pairwise_map] at h
  apply h.imp
  intro p q hlt hqp
  by_cases heq : q = p
  · subst heq
    rw [Std.ReflOrd.compare_self] at hlt
    cases hlt
  · rw [Std.OrientedCmp.gt_of_lt (compare_pathStr hqp heq)] at hlt
    cases hlt

/-- The nodes of a walk stand in order. -/
theorem walk_ordered {source : WalkSource J} (hsource : HeldFrom H roots source) (hr : root ∈ H.groupPaths) {fuel : Nat}
    (hfuel : H.height ≤ fuel) {fetch : Nat → Nat → ZarrArray J → Except RustytreeError E} {recursive : Bool}
    {glob : Option GlobPredicate} {nodes : List (NodeData J E)}
    (hwalk : walkRecursive fuel fetch source (pathStr root) recursive glob = .ok nodes) {paths : List Path}
    (hpaths : nodes.map (·.path) = paths.map pathStr) : Ordered paths := by
  cases source with
  | vanilla store =>
    cases hrun : walkViaZarrs (E := E) fuel store (pathStr root) recursive glob with
    | error err =>
      simp only [walkRecursive, metadataWalk, hrun] at hwalk
      cases hwalk
    | ok walked =>
      simp only [walkRecursive, metadataWalk, hrun] at hwalk
      cases hwalk
      obtain ⟨ordered, hordered, h⟩ := vanilla_ordered hsource hr hfuel hrun
      rw [eagerPhase_paths, hordered] at hpaths
      rwa [← List.map_injective_iff.2 pathStr_injective hpaths]
  | icechunk session =>
    cases hrun : walkIcechunkSessionSnapshot (E := E) session (pathStr root) recursive glob with
    | error err =>
      simp only [walkRecursive, metadataWalk, hrun] at hwalk
      cases hwalk
    | ok walked =>
      simp only [walkRecursive, metadataWalk, hrun] at hwalk
      cases hwalk
      have hsorted := walkIcechunk_sorted hrun
      rw [← eagerPhase_paths fetch, hpaths] at hsorted
      exact ordered_of_sorted hsorted

/-- From a group the source holds, an open gives its region in order. -/
theorem opened_ordered {o : Opener J E D} {nodeOf : Path → NodeData J E} (hsource : HeldFrom H roots o.source)
    (hfuel : H.height ≤ o.fuel) (hnodes : ReturnsNodes H roots o.fuel o.fetch o.source nodeOf)
    (hr : root ∈ H.groupPaths) (hroot : roots root) (recursive : Option Bool) (glob : Option Str)
    (hpass : passes (glob.map GlobPredicate.parse) (pathStr root) = true) :
    ∃ out : List Path, Ordered out ∧
      (∀ q, q ∈ out ↔ Region H root (recursive.getD true) (glob.map GlobPredicate.parse) q) ∧
      rustOpenOrExplain o (some (pathStr root)) recursive glob = .ok (out.map fun p => (pathStr p, nodeOf p)) := by
  obtain ⟨hpath, hwalk⟩ := hnodes
  obtain ⟨out, hnd, hmem, hrun⟩ := hwalk root hr hroot (recursive.getD true) (glob.map GlobPredicate.parse) hpass
  have hout : ∀ p ∈ out, (nodeOf p).path = pathStr p := fun p hp => hpath p ((hmem p).1 hp).1
  refine ⟨out, walk_ordered hsource hr hfuel hrun ?_, hmem, rustOpenOrExplain_ok ?_⟩
  · rw [List.map_map]
    exact List.map_congr_left hout
  · unfold rustOpen
    rw [Option.getD_some, hrun]
    simp only [nodesToPydict_eq hnd hout]

/-! ## Well-formed dictionaries -/

/-- A subtree's groups are those below its root. -/
theorem rerooted_keys {g : Path} {out : List Path} (h : Ordered out)
    (hmem : ∀ q, q ∈ out ↔ q ∈ H.groupPaths ∧ g <+: q) :
    ∃ keys : List Path, Ordered keys ∧ (∀ q, q ∈ keys ↔ g ++ q ∈ H.groupPaths) ∧ out = keys.map (g ++ ·) := by
  refine ⟨out.map (·.drop g.length), ?_, ?_, ?_⟩
  · rw [Ordered, List.pairwise_map]
    apply h.imp_of_mem
    intro p q hp hq hqp hdrop
    obtain ⟨-, r, rfl⟩ := (hmem p).1 hp
    obtain ⟨-, s, rfl⟩ := (hmem q).1 hq
    rw [List.drop_left, List.drop_left] at hdrop
    exact hqp ((List.prefix_append_right_inj g).2 hdrop)
  · intro q
    rw [List.mem_map]
    constructor
    · rintro ⟨p, hp, rfl⟩
      obtain ⟨hgroup, r, rfl⟩ := (hmem p).1 hp
      rwa [List.drop_left]
    · intro hq
      exact ⟨g ++ q, (hmem _).2 ⟨hq, List.prefix_append g q⟩, by rw [List.drop_left]⟩
  · rw [List.map_map]
    conv_lhs => rw [← List.map_id out]
    apply List.map_congr_left
    intro p hp
    obtain ⟨-, r, rfl⟩ := (hmem p).1 hp
    rw [Function.comp_apply, List.drop_left, id_eq]

/-! ## What is assembled -/

section
variable {merge : List D → Except PyErr D} {includeAncestorCoords : Bool} {g : Path}
  {datasetAt : Path → Except PyErr D} {keys : List Path}

theorem assembled_congr {datasetAt' : Path → Except PyErr D}
    (hkeys : ∀ q ∈ keys, datasetAt (g ++ q) = datasetAt' (g ++ q))
    (habove : ∀ a, a <+: g → datasetAt a = datasetAt' a) :
    assembled merge includeAncestorCoords g datasetAt keys =
      assembled merge includeAncestorCoords g datasetAt' keys := by
  have hgroups : (keys.mapM fun q => (datasetAt (g ++ q)).map fun ds => (pathStr q, ds)) =
      keys.mapM fun q => (datasetAt' (g ++ q)).map fun ds => (pathStr q, ds) :=
    Lib.Collect.mapM_congr fun q hq => by rw [hkeys q hq]
  have hlineage : (g :: ancestors g).mapM datasetAt = (g :: ancestors g).mapM datasetAt' :=
    Lib.Collect.mapM_congr fun a ha => habove a (mem_lineage.1 ha)
  unfold assembled
  rw [hgroups, hlineage]

/-- One group without a dataset fails the whole. -/
theorem assembled_error {err : PyErr} (h : (keys.mapM fun q => datasetAt (g ++ q)) = .error err) :
    assembled merge includeAncestorCoords g datasetAt keys = .error err := by
  unfold assembled
  rw [Lib.Collect.mapM_pair, h]
  rfl

/-- The datasets of all groups stand under their keys; a merge puts its own at the root. -/
theorem assembled_datasets {datasets : List D} (h : (keys.mapM fun q => datasetAt (g ++ q)) = .ok datasets) :
    assembled merge includeAncestorCoords g datasetAt keys =
      if includeAncestorCoords = true ∧ g ≠ [] then
        ((g :: ancestors g).mapM datasetAt).bind fun lineage =>
          (merge lineage).map (set ((keys.map pathStr).zip datasets) ROOT)
      else .ok ((keys.map pathStr).zip datasets) := by
  unfold assembled
  rw [Lib.Collect.mapM_pair, h]
  rfl

/-- It succeeds exactly if every dataset can be had, and the merge. -/
theorem assembled_ok_iff : (∃ dict, assembled merge includeAncestorCoords g datasetAt keys = .ok dict) ↔
    (∀ q ∈ keys, ∃ ds, datasetAt (g ++ q) = .ok ds) ∧
      (includeAncestorCoords = true ∧ g ≠ [] → ∃ lineage top, (g :: ancestors g).mapM datasetAt = .ok lineage ∧
        merge lineage = .ok top) := by
  rcases Lib.Collect.mapM_cases (fun q => datasetAt (g ++ q)) keys with
    ⟨q, hq, err, herr, hrun⟩ | ⟨datasets, hrun, hall⟩
  · rw [assembled_error hrun]
    constructor
    · rintro ⟨dict, ⟨⟩⟩
    · rintro ⟨h, -⟩
      obtain ⟨ds, hds⟩ := h q hq
      rw [herr] at hds
      cases hds
  · have hdatasets : ∀ q ∈ keys, ∃ ds, datasetAt (g ++ q) = .ok ds := by
      intro q hq
      obtain ⟨ds, -, hds⟩ := Lib.Collect.exists_of_forall₂ hall hq
      exact ⟨ds, hds⟩
    rw [assembled_datasets hrun]
    by_cases hmerged : includeAncestorCoords = true ∧ g ≠ []
    · rw [if_pos hmerged]
      constructor
      · rintro ⟨dict, hdict⟩
        obtain ⟨lineage, hlineage, hmerge⟩ := Lib.Collect.bind_eq_ok.1 hdict
        cases htop : merge lineage with
        | error err =>
          rw [htop] at hmerge
          cases hmerge
        | ok top => exact ⟨hdatasets, fun _ => ⟨lineage, top, hlineage, htop⟩⟩
      · rintro ⟨-, h⟩
        obtain ⟨lineage, top, hlineage, htop⟩ := h hmerged
        rw [hlineage, Except.bind, htop]
        exact ⟨_, rfl⟩
    · rw [if_neg hmerged]
      exact ⟨fun _ => ⟨hdatasets, fun h => absurd h hmerged⟩, fun _ => ⟨_, rfl⟩⟩

/-- A merge changes no key, where the new root is one. -/
theorem assembled_keys (hroot : g ≠ [] → [] ∈ keys) {dict : Dict D}
    (h : assembled merge includeAncestorCoords g datasetAt keys = .ok dict) : dict.map (·.1) = keys.map pathStr := by
  rcases Lib.Collect.mapM_cases (fun q => datasetAt (g ++ q)) keys with ⟨-, -, err, -, hrun⟩ | ⟨datasets, hrun, hall⟩
  · rw [assembled_error hrun] at h
    cases h
  have hzip : ((keys.map pathStr).zip datasets).map (·.1) = keys.map pathStr :=
    List.map_fst_zip (by rw [List.length_map, hall.length_eq])
  rw [assembled_datasets hrun] at h
  split at h
  next hmerged =>
    obtain ⟨lineage, -, hmerge⟩ := Lib.Collect.bind_eq_ok.1 h
    cases htop : merge lineage with
    | error err =>
      rw [htop] at hmerge
      cases hmerge
    | ok top =>
      rw [htop] at hmerge
      cases hmerge
      have hmem : ROOT ∈ ((keys.map pathStr).zip datasets).map (·.1) := by
        rw [hzip]
        exact List.mem_map_of_mem (hroot hmerged.2)
      rw [set_keys hmem, hzip]
  next =>
    cases h
    exact hzip

end

/-! ## Accepted arguments -/

variable {o : Opener J E D} {nodeOf : Path → NodeData J E}

theorem openDataset_present (hsource : HeldFrom H (· ∈ H.groupPaths) o.source) (hfuel : H.height ≤ o.fuel)
    (hnodes : ReturnsNodes H (· ∈ H.groupPaths) o.fuel o.fetch o.source nodeOf) {g : Path} (hg : g ∈ H.groupPaths)
    (hdots : NoDots g) : openDataset o { group := some (pathStr g) } = o.nodeToDataset (nodeOf g) := by
  obtain ⟨out, hordered, hmem, hopen⟩ := opened_ordered hsource hfuel hnodes hg hg (some false) none rfl
  exact openDataset_group hordered.nodup ((hmem g).2 ⟨hg, rfl⟩) hdots hopen

/-- The first group that does not become a dataset is what the open raises. -/
theorem openDatatree_error {out : List Path} (hnd : out.Nodup) {g : Path} (hg : g ∈ out) (hdots : NoDots g)
    (hopen : rustOpenOrExplain o (some (pathStr g)) none none = .ok (out.map fun p => (pathStr p, nodeOf p)))
    (includeAncestorCoords : Bool) {err : PyErr}
    (h : toDatasets o.nodeToDataset (out.map fun p => (pathStr p, nodeOf p)) = .error err) :
    openDatatree o { group := some (pathStr g), includeAncestorCoords } = .error err := by
  by_cases hnil : g = []
  · subst hnil
    rw [openDatatree_root, hopen]
    exact h
  · rw [openDatatree_canonical o includeAncestorCoords hdots hnil, hopen]
    simp only [if_neg (lookup_paths_found hnd nodeOf hg), h]

/-- A literal group that is there, with its ancestors' coordinates or without. -/
theorem open_literal_eq (hsource : HeldFrom H (· ∈ H.groupPaths) o.source) (hfuel : H.height ≤ o.fuel)
    (hnodes : ReturnsNodes H (· ∈ H.groupPaths) o.fuel o.fetch o.source nodeOf) {g : Path}
    (hg : g ∈ H.groupPaths) (hdots : NoDots g) (includeAncestorCoords : Bool) :
    ∃ keys : List Path, Ordered keys ∧ (∀ q, q ∈ keys ↔ g ++ q ∈ H.groupPaths) ∧
      openDatatree o { group := some (pathStr g), includeAncestorCoords } =
        assembled o.merge includeAncestorCoords g (fun p => o.nodeToDataset (nodeOf p)) keys := by
  obtain ⟨out, hordered, hmem, hopen⟩ := opened_ordered hsource hfuel hnodes hg hg none none rfl
  have hout : ∀ q, q ∈ out ↔ q ∈ H.groupPaths ∧ g <+: q := fun q => (hmem q).trans region_recursive
  have hbelow : ∀ q ∈ out, g <+: q := fun q hq => ((hout q).1 hq).2
  have hmine : g ∈ out := (hout g).2 ⟨hg, List.prefix_refl g⟩
  obtain ⟨keys, hkeysOrdered, hkeys, hkeysOut⟩ := rerooted_keys hordered hout
  refine ⟨keys, hkeysOrdered, hkeys, ?_⟩
  cases hrun : toDatasets o.nodeToDataset (out.map fun p => (pathStr p, nodeOf p)) with
  | error err =>
    rw [openDatatree_error hordered.nodup hmine hdots hopen includeAncestorCoords hrun]
    unfold toDatasets at hrun
    simp only [hkeysOut, List.mapM_map, Function.comp_def] at hrun
    rw [Lib.Collect.mapM_pair (fun q => pathStr (g ++ q)) fun q => o.nodeToDataset (nodeOf (g ++ q))] at hrun
    cases hdatasets : keys.mapM fun q => o.nodeToDataset (nodeOf (g ++ q)) with
    | ok datasets =>
      rw [hdatasets] at hrun
      cases hrun
    | error err' =>
      rw [hdatasets] at hrun
      cases hrun
      exact (assembled_error hdatasets).symm
  | ok groups =>
    obtain ⟨dataset, hdataset, rfl⟩ := toDatasets_eq hmine hrun
    have hdatasets : (keys.mapM fun q => o.nodeToDataset (nodeOf (g ++ q))) =
        .ok (keys.map fun q => dataset (g ++ q)) := by
      apply Lib.Collect.mapM_ok_of
      intro q hq
      apply hdataset
      rw [hkeysOut]
      exact List.mem_map_of_mem hq
    have hentries : ∀ f : Path → D, (out.map fun p => (pathStr (p.drop g.length), f p)) =
        keys.map fun q => (pathStr q, f (g ++ q)) := by
      intro f
      rw [hkeysOut, List.map_map]
      apply List.map_congr_left
      intro q _
      rw [Function.comp_apply, List.drop_left]
    rw [assembled_datasets hdatasets, List.zip_map']
    by_cases hmerged : includeAncestorCoords = true ∧ g ≠ []
    · obtain ⟨rfl, hnil⟩ := hmerged
      have habove : ((ancestors g).mapM fun a => openDataset o { group := some (pathStr a) }) =
          (ancestors g).mapM fun a => o.nodeToDataset (nodeOf a) := by
        apply Lib.Collect.mapM_congr
        intro a ha
        have hpre : a <+: g := mem_lineage.1 (List.mem_cons_of_mem g ha)
        exact openDataset_present hsource hfuel hnodes (Hierarchy.group_of_prefix hg hpre) (noDots_above hpre hdots)
      rw [if_pos ⟨rfl, hnil⟩, openDatatree_ancestors hordered.nodup hbelow hmine hdots hnil hopen hdataset, habove,
        List.mapM_cons, hdataset g hmine]
      have hset : ∀ top, set (keys.map fun q => (pathStr q, dataset (g ++ q))) ROOT top =
          out.map fun p => (pathStr (p.drop g.length), if p = g then top else dataset p) := by
        intro top
        rw [← hentries dataset, set_rerooted hbelow hmine]
      cases (ancestors g).mapM fun a => o.nodeToDataset (nodeOf a) with
      | error err => rfl
      | ok above =>
        simp only [bind, Except.bind, pure, Except.pure]
        congr 1
        funext top
        exact (hset top).symm
    · rw [if_neg hmerged, ← hentries dataset]
      cases includeAncestorCoords with
      | false => exact openDatatree_group hordered.nodup hbelow hmine hdots hopen hdataset
      | true =>
        obtain rfl : g = [] := by simpa using hmerged
        rw [openDatatree_root, hopen]
        exact hrun

/-- A pattern: the groups it selects, each with its own dataset. -/
theorem open_filter_eq (hsource : HeldFrom H (· ∈ H.groupPaths) o.source) (hfuel : H.height ≤ o.fuel)
    (hnodes : ReturnsNodes H (· ∈ H.groupPaths) o.fuel o.fetch o.source nodeOf) (hroot : [] ∈ H.groupPaths)
    (hdots : ∀ p ∈ H.groupPaths, NoDots p) {pattern : Str} (hpattern : pattern ≠ []) (hmatch : Matchable pattern)
    (includeAncestorCoords : Bool) :
    ∃ keys : List Path, Ordered keys ∧ (∀ q, q ∈ keys ↔ ∃ m, q <+: m ∧ Kept H pattern m ∧ MatchesPath pattern m) ∧
      openDatatree o { groupFilter := some pattern, includeAncestorCoords } =
        assembled o.merge includeAncestorCoords [] (fun p => o.nodeToDataset (nodeOf p)) keys := by
  obtain ⟨out, hordered, hmem, hopen⟩ :=
    opened_ordered hsource hfuel hnodes hroot hroot none (some pattern) (passes_root _)
  have hout : ∀ q, q ∈ out ↔ Kept H pattern q := fun q => (hmem q).trans region_root
  obtain ⟨kept, hsub, hkept, hfilter⟩ := filterByGlob_ok hmatch (fun p hp => hdots p ((hout p).1 hp).1) nodeOf
  have hopen' : rustOpenOrExplain o none none (some pattern) = .ok (out.map fun p => (pathStr p, nodeOf p)) := hopen
  refine ⟨kept, hordered.sublist hsub, ?_, ?_⟩
  · -- Above a survivor everything survives, so a match brings its ancestors.
    intro q
    rw [hkept]
    constructor
    · rintro ⟨-, m, hm, hpre, hmatches⟩
      exact ⟨m, hpre, (hout m).1 hm, hmatches⟩
    · rintro ⟨m, hpre, hm, hmatches⟩
      have hq : Kept H pattern q := ⟨Hierarchy.group_of_prefix hm.1 hpre, passes_prefix hpre hm.2⟩
      exact ⟨(hout q).2 hq, m, (hout m).2 hm, hpre, hmatches⟩
  · have hgroups : (kept.mapM fun q => (o.nodeToDataset (nodeOf ([] ++ q))).map fun ds => (pathStr q, ds)) =
        toDatasets o.nodeToDataset (kept.map fun p => (pathStr p, nodeOf p)) := by
      unfold toDatasets
      rw [List.mapM_map]
      rfl
    rw [openDatatree_filter o includeAncestorCoords hpattern, hopen', assembled, hgroups]
    simp only [hfilter, ne_eq, not_true_eq_false, and_false, if_false, bind, Except.bind]
    cases toDatasets o.nodeToDataset (kept.map fun p => (pathStr p, nodeOf p)) <;> rfl

/-- What an open with accepted arguments comes to: the groups it selects, in order, with their datasets. -/
theorem accepted_eq (hsource : HeldFrom H (· ∈ H.groupPaths) o.source) (hfuel : H.height ≤ o.fuel)
    (hnodes : ReturnsNodes H (· ∈ H.groupPaths) o.fuel o.fetch o.source nodeOf) (hroot : [] ∈ H.groupPaths)
    (hdots : ∀ p ∈ H.groupPaths, NoDots p) {kwargs : OpenKwargs}
    (htwo : ∀ group, kwargs.group = some group → ¬ TwoSlashes group) (h : Accepted H kwargs) :
    ∃ keys : List Path, Ordered keys ∧ (∀ q, q ∈ keys ↔ Selected H kwargs q) ∧
      openDatatree o kwargs = assembled o.merge kwargs.includeAncestorCoords (newRoot kwargs)
        (fun p => o.nodeToDataset (nodeOf p)) keys := by
  obtain ⟨group, groupFilter, zarrFormat, consolidated, includeAncestorCoords⟩ := kwargs
  obtain ⟨hformat, hexclusive, hpresent, hmatchable⟩ := h
  rw [openDatatree_format o _ hformat]
  cases groupFilter with
  | some pattern =>
    cases group with
    | some group => cases hexclusive
    | none =>
      have hpattern : pattern ≠ [] := by
        rintro rfl
        cases hexclusive
      exact open_filter_eq hsource hfuel hnodes hroot hdots hpattern (hmatchable pattern rfl) includeAncestorCoords
  | none =>
    cases group with
    | some group =>
      simp only
      rw [openDatatree_spelled o includeAncestorCoords (htwo group rfl)]
      exact open_literal_eq hsource hfuel hnodes hpresent (spelledPath_noDots group) includeAncestorCoords
    | none =>
      have hdefault : openDatatree o { includeAncestorCoords } =
          openDatatree o { group := some (pathStr []), includeAncestorCoords } := by
        have hspelled := openDatatree_default o
        rw [openDatatree_root] at hspelled ⊢
        exact hspelled
      simp only [hdefault]
      exact open_literal_eq hsource hfuel hnodes hroot (by simp [NoDots]) includeAncestorCoords

/-- A selected group is one of the hierarchy's. -/
theorem Selected.group {kwargs : OpenKwargs} {q : Path} (hq : Selected H kwargs q) (h : Accepted H kwargs) :
    newRoot kwargs ++ q ∈ H.groupPaths := by
  unfold Selected at hq
  split at hq
  next pattern hpattern =>
    obtain ⟨m, hqm, hm, -⟩ := hq
    have hnone : kwargs.group = none := by
      have hexclusive := h.exclusive
      rw [hpattern] at hexclusive
      cases hgroup : kwargs.group with
      | none => rfl
      | some group =>
        rw [hgroup] at hexclusive
        cases hexclusive
    rw [newRoot, hnone]
    exact Hierarchy.group_of_prefix hm.1 hqm
  next => exact hq

/-- With a selected group, all above it are selected. -/
theorem Selected.closed {kwargs : OpenKwargs} {p q : Path} (h : Selected H kwargs q) (hpq : p <+: q) :
    Selected H kwargs p := by
  unfold Selected at h ⊢
  split
  next pattern hpattern =>
    rw [hpattern] at h
    obtain ⟨m, hqm, hm⟩ := h
    exact ⟨m, hpq.trans hqm, hm⟩
  next hnone =>
    rw [hnone] at h
    exact Hierarchy.group_of_prefix h ((List.prefix_append_right_inj _).2 hpq)

/-- A new root that is not the old one is selected. -/
theorem selected_root {kwargs : OpenKwargs} (h : Accepted H kwargs) (hroot : newRoot kwargs ≠ []) :
    Selected H kwargs [] := by
  have hpresent := h.present
  unfold Selected
  cases hfilter : kwargs.groupFilter with
  | none =>
    simp only [List.append_nil]
    exact hpresent
  | some pattern =>
    have hexclusive := h.exclusive
    rw [hfilter] at hexclusive
    cases hgroup : kwargs.group with
    | none => exact absurd (by rw [newRoot, hgroup]; rfl) hroot
    | some group =>
      rw [hgroup] at hexclusive
      cases hexclusive

/-! ## Rejected arguments -/

/-- A source that can be asked from everywhere can be asked from a group. -/
theorem heldFrom_groups {source : WalkSource J} (h : HeldFrom H (fun _ => True) source) :
    HeldFrom H (· ∈ H.groupPaths) source := by
  cases source with
  | vanilla store => exact h
  | icechunk session =>
    obtain ⟨order, hperm, hlists⟩ := h
    exact ⟨order, hperm, fun root _ => hlists root trivial⟩

/-- Whether `match` raises depends on the pattern alone. -/
theorem matchable_of {pattern : Str} {path : PurePosixPath} {hit : Bool} (h : path.matches (.parse pattern) = .ok hit) :
    Matchable pattern := by
  intro other
  unfold PurePosixPath.matches at h ⊢
  split
  · exact ⟨_, rfl⟩
  next hrelative =>
    rw [if_neg hrelative] at h
    split
    next hempty =>
      rw [if_pos hempty] at h
      cases h
    next => exact ⟨_, rfl⟩

theorem matchable_of_filter {tree kept : Dict V} {pattern : Str} (hne : tree ≠ [])
    (h : filterByGlob tree pattern = .ok kept) : Matchable pattern := by
  obtain ⟨entry, rest, rfl⟩ := List.exists_cons_of_ne_nil hne
  obtain ⟨matched, hmatched, -⟩ := Lib.Collect.bind_eq_ok.1 h
  rw [List.map_cons, matchedPaths] at hmatched
  obtain ⟨hit, hhit, -⟩ := Lib.Collect.bind_eq_ok.1 hmatched
  exact matchable_of hhit

/-- A path without a group opens neither store. -/
theorem outcome_missing (entry : EntryPoint) (hsource : HeldFrom H (fun _ => True) o.source) (hfuel : H.height ≤ o.fuel)
    (hroot : [] ∈ H.groupPaths) {p : Path} (hdots : NoDots p) (hp : p ∉ H.groupPaths) :
    entry.outcome o (pathStr p) ≠ .success := by
  have hne : p ≠ [] := by
    rintro rfl
    exact hp hroot
  have hcases : (∃ metadata, (p, .array metadata) ∈ H.nodes) ∨ ∀ node, (p, node) ∉ H.nodes := by
    by_contra hneither
    rw [not_or, not_forall_not] at hneither
    obtain ⟨harray, node, hnode⟩ := hneither
    cases node with
    | group attributes => exact hp (Hierarchy.mem_groupPaths.2 ⟨attributes, hnode⟩)
    | array metadata => exact harray ⟨metadata, hnode⟩
  cases ho : o.source with
  | vanilla store =>
    rw [ho] at hsource
    obtain ⟨-, harray, habsent⟩ := vanilla_outcome entry ho hsource hfuel hdots
    rcases hcases with ⟨metadata, hm⟩ | hnone
    · simp [harray metadata hm]
    · simp [habsent hnone]
  | icechunk session =>
    rw [ho] at hsource
    obtain ⟨order, hperm, hlists⟩ := hsource
    have hholds : ∀ q, q <+: p → HoldsAt session H q := fun q _ =>
      ⟨_, hperm.filter _, hlists q trivial⟩
    obtain ⟨-, harray, habsent⟩ := icechunk_outcome entry ho hholds hfuel hdots
    rcases hcases with ⟨metadata, hm⟩ | hnone
    · rw [harray metadata hm]
      split <;> simp
    · simp [habsent hnone, hne]

theorem openDatatree_missing (hsource : HeldFrom H (fun _ => True) o.source) (hfuel : H.height ≤ o.fuel)
    (hroot : [] ∈ H.groupPaths) {p : Path} (hdots : NoDots p) (hp : p ∉ H.groupPaths) (includeAncestorCoords : Bool)
    (dict : Dict D) : openDatatree o { group := some (pathStr p), includeAncestorCoords } ≠ .ok dict := by
  intro hopen
  apply outcome_missing (.openDatatree includeAncestorCoords) hsource hfuel hroot hdots hp
  simp only [EntryPoint.outcome, hopen, Outcome.of]

theorem accepted_of_ok (hsource : HeldFrom H (fun _ => True) o.source) (hfuel : H.height ≤ o.fuel)
    (hroot : [] ∈ H.groupPaths) {kwargs : OpenKwargs}
    (htwo : ∀ group, kwargs.group = some group → ¬ TwoSlashes group) {dict : Dict D}
    (h : openDatatree o kwargs = .ok dict) : Accepted H kwargs := by
  obtain ⟨⟨⟩, hformat, hrest⟩ := Lib.Collect.bind_eq_ok.1 h
  obtain ⟨⟨⟩, hexclusive, -⟩ := Lib.Collect.bind_eq_ok.1 hrest
  refine ⟨hformat, hexclusive, ?_, ?_⟩
  · by_contra hmissing
    obtain ⟨group, groupFilter, zarrFormat, consolidated, includeAncestorCoords⟩ := kwargs
    cases group with
    | none => exact hmissing hroot
    | some group =>
      cases groupFilter with
      | some pattern => cases hexclusive
      | none =>
        rw [openDatatree_format o _ hformat] at h
        simp only at h
        rw [openDatatree_spelled o includeAncestorCoords (htwo group rfl)] at h
        exact openDatatree_missing hsource hfuel hroot (spelledPath_noDots group) hmissing includeAncestorCoords dict h
  · intro pattern hpattern
    obtain ⟨group, groupFilter, zarrFormat, consolidated, includeAncestorCoords⟩ := kwargs
    simp only at hpattern
    subst hpattern
    cases group with
    | some group => cases hexclusive
    | none =>
      have hne : pattern ≠ [] := by
        rintro rfl
        cases hexclusive
      obtain ⟨nodeOf, hnodes⟩ := walkRecursive_ok (heldFrom_groups hsource) o.fetch hfuel
      obtain ⟨out, -, hmem, hopen⟩ :=
        opened_ordered (heldFrom_groups hsource) hfuel hnodes hroot hroot none (some pattern) (passes_root _)
      have hout : [] ∈ out := (hmem []).2 (region_root.2 ⟨hroot, passes_root _⟩)
      have hopen' : rustOpenOrExplain o none none (some pattern) = .ok (out.map fun p => (pathStr p, nodeOf p)) := hopen
      rw [openDatatree_format o _ hformat, openDatatree_filter o includeAncestorCoords hne, hopen'] at h
      simp only at h
      split at h
      · cases h
      next kept hkept =>
        apply matchable_of_filter _ hkept
        rw [Ne, List.map_eq_nil_iff]
        exact List.ne_nil_of_mem hout

/-- `open_datatree` returns exactly if it accepts its arguments, every dataset it
needs can be had and the merge succeeds, and what it then hands to `from_dict` is
well formed: the selected groups, each once, with their parents before them. -/
theorem from_dict_wellFormed (hsource : HeldFrom H (fun _ => True) o.source) (hfuel : H.height ≤ o.fuel)
    (hroot : [] ∈ H.groupPaths) (hdots : ∀ p ∈ H.groupPaths, NoDots p) {kwargs : OpenKwargs}
    (htwo : ∀ group, kwargs.group = some group → ¬ TwoSlashes group) :
    ((∃ dict, openDatatree o kwargs = .ok dict) ↔ Accepted H kwargs ∧ Loads o H kwargs) ∧
      ∀ dict, openDatatree o kwargs = .ok dict →
        ∃ keys, WellFormed dict keys ∧ ∀ q, q ∈ keys ↔ Selected H kwargs q := by
  have hgroups := heldFrom_groups hsource
  obtain ⟨nodeOf, hnodes⟩ := walkRecursive_ok hgroups o.fetch hfuel
  -- Every dataset of the call is what `open_dataset` gives for its group.
  have hopened : Accepted H kwargs → ∃ keys : List Path, Ordered keys ∧ (∀ q, q ∈ keys ↔ Selected H kwargs q) ∧
      openDatatree o kwargs = assembled o.merge kwargs.includeAncestorCoords (newRoot kwargs)
        (fun p => openDataset o { group := some (pathStr p) }) keys := by
    intro h
    obtain ⟨keys, hordered, hkeys, hopen⟩ := accepted_eq hgroups hfuel hnodes hroot hdots htwo h
    refine ⟨keys, hordered, hkeys, hopen.trans (assembled_congr ?_ ?_)⟩
    · intro q hq
      have hgroup := ((hkeys q).1 hq).group h
      exact (openDataset_present hgroups hfuel hnodes hgroup (hdots _ hgroup)).symm
    · intro a ha
      have hgroup := Hierarchy.group_of_prefix h.present ha
      exact (openDataset_present hgroups hfuel hnodes hgroup (hdots _ hgroup)).symm
  constructor
  · constructor
    · rintro ⟨dict, hopen⟩
      have haccepted := accepted_of_ok hsource hfuel hroot htwo hopen
      obtain ⟨keys, -, hkeys, heq⟩ := hopened haccepted
      rw [heq] at hopen
      obtain ⟨hselected, hmerged⟩ := assembled_ok_iff.1 ⟨dict, hopen⟩
      exact ⟨haccepted, fun q hq => hselected q ((hkeys q).2 hq), hmerged⟩
    · rintro ⟨haccepted, hloads⟩
      obtain ⟨keys, -, hkeys, heq⟩ := hopened haccepted
      rw [heq]
      exact assembled_ok_iff.2
        ⟨fun q hq => hloads.selected q ((hkeys q).1 hq), hloads.merged⟩
  · intro dict hopen
    have haccepted := accepted_of_ok hsource hfuel hroot htwo hopen
    obtain ⟨keys, hordered, hkeys, heq⟩ := hopened haccepted
    rw [heq] at hopen
    have hclosed : ∀ q ∈ keys, ∀ p, p <+: q → p ∈ keys := fun q hq p hpq => (hkeys p).2 (((hkeys q).1 hq).closed hpq)
    have hnew : newRoot kwargs ≠ [] → [] ∈ keys := fun hroot => (hkeys []).2 (selected_root haccepted hroot)
    exact ⟨keys, ⟨assembled_keys hnew hopen, hordered.nodup, hclosed, hordered.ancestorsFirst⟩, hkeys⟩

end

/-- The sweeps of all volumes of the radar tree. -/
theorem from_dict_wellFormed_radar :
    ((∃ dict, openDatatree (radarOpener (.vanilla (storeOf radarTree)) false)
        { groupFilter := some "*/sweep_0".toList } = .ok dict) ↔
          Accepted radarTree { groupFilter := some "*/sweep_0".toList } ∧
            Loads (radarOpener (.vanilla (storeOf radarTree)) false) radarTree
              { groupFilter := some "*/sweep_0".toList }) ∧
      ∀ dict, openDatatree (radarOpener (.vanilla (storeOf radarTree)) false)
          { groupFilter := some "*/sweep_0".toList } = .ok dict →
        ∃ keys, WellFormed dict keys ∧
          ∀ q, q ∈ keys ↔ Selected radarTree { groupFilter := some "*/sweep_0".toList } q := by
  have hsource : HeldFrom radarTree (fun _ => True) (radarOpener (.vanilla (storeOf radarTree)) false).source :=
    storeOf_serves radarTree
  exact from_dict_wellFormed hsource (by decide) (by decide) (by decide) (by rintro group ⟨⟩)

example : (openDatatree (radarOpener (.vanilla (storeOf radarTree)) false)
    { groupFilter := some "*/sweep_0".toList }).toOption.map (fun dict => dict.map (·.1)) =
    some ["/".toList, "/VCP-12".toList, "/VCP-12/sweep_0".toList] := by decide

end Rustytree
