import Rustytree.Backend
/-!
# Opening a subtree

`open_datatree(group=g)` is the part of the whole tree below `g`, re-anchored
at the root, and `open_dataset(group=g)` is its dataset there.
-/

namespace Rustytree
open Lib.Dict

section
variable {J E D : Type} {o : Opener J E D} {H : Hierarchy J} {g : Path}

/-- The groups a walk from `g` without a filter returns. -/
theorem region_recursive {q : Path} : Region H g true none q ↔ q ∈ H.groupPaths ∧ g <+: q := by
  simp [Region, passes]

theorem filter_below {out : List Path} (h : ∀ q ∈ out, g <+: q) : out.filter (g.isPrefixOf ·) = out :=
  List.filter_eq_self.2 fun q hq => List.isPrefixOf_iff_prefix.2 (h q hq)

/-- Under the re-anchored key `r` stands what `g` and `r` together name. -/
theorem mem_rerooted {V : Type} {out : List Path} (hbelow : ∀ q ∈ out, g <+: q) (f : Path → V) {r : Path} {v : V} :
    (pathStr r, v) ∈ out.map (fun p => (pathStr (p.drop g.length), f p)) ↔ g ++ r ∈ out ∧ f (g ++ r) = v := by
  rw [List.mem_map]
  constructor
  · rintro ⟨p, hp, heq⟩
    obtain ⟨hstr, rfl⟩ := Prod.mk.inj heq
    obtain ⟨s, rfl⟩ := hbelow p hp
    rw [List.drop_left] at hstr
    rw [← pathStr_injective hstr]
    exact ⟨hp, rfl⟩
  · rintro ⟨hr, rfl⟩
    exact ⟨g ++ r, hr, by rw [List.drop_left]⟩

/-- The entries of a subtree, each under the rest of its path. -/
theorem reroot_below {V : Type} {out : List Path} (hnd : out.Nodup) (hbelow : ∀ q ∈ out, g <+: q) (f : Path → V) :
    reroot (out.map fun p => (pathStr p, f p)) (pathStr g) = out.map fun p => (pathStr (p.drop g.length), f p) := by
  rw [reroot_pathStr hnd f, filter_below hbelow]

/-- A recursive open of a canonical group that is there: the presence check
passes and every key is re-anchored, here without ancestors. -/
theorem openDatatree_group {out : List Path} (hnd : out.Nodup) (hbelow : ∀ q ∈ out, g <+: q) (hg : g ∈ out)
    (hdots : NoDots g) {nodeOf : Path → NodeData J E}
    (hopen : rustOpenOrExplain o (some (pathStr g)) none none = .ok (out.map fun p => (pathStr p, nodeOf p)))
    {dataset : Path → D} (hdataset : ∀ p ∈ out, o.nodeToDataset (nodeOf p) = .ok (dataset p)) :
    openDatatree o { group := some (pathStr g), includeAncestorCoords := false } =
      .ok (out.map fun p => (pathStr (p.drop g.length), dataset p)) := by
  by_cases hnil : g = []
  · subst hnil
    rw [openDatatree_root, hopen]
    exact toDatasets_ok hdataset
  · rw [openDatatree_canonical o false hdots hnil, hopen]
    simp only [if_neg (lookup_paths_found hnd nodeOf hg), toDatasets_ok hdataset, reroot_below hnd hbelow]
    rfl

/-- `open_dataset` of a canonical group that is there. -/
theorem openDataset_group {out : List Path} (hnd : out.Nodup) (hg : g ∈ out) (hdots : NoDots g)
    {nodeOf : Path → NodeData J E} (hopen : rustOpenOrExplain o (some (pathStr g)) (some false) none =
      .ok (out.map fun p => (pathStr p, nodeOf p))) :
    openDataset o { group := some (pathStr g) } = o.nodeToDataset (nodeOf g) := by
  rw [openDataset_canonical o hdots, hopen]
  simp only [lookup_paths hnd _ hg]

/-- The whole tree opens where every node becomes a dataset. -/
theorem openDatatree_converts (hsource : HeldFrom H (· ∈ H.groupPaths) o.source) (hfuel : H.height ≤ o.fuel)
    (hroot : [] ∈ H.groupPaths) (hconverts : o.Converts) : ∃ full, openDatatree o {} = .ok full := by
  obtain ⟨nodeOf, hopened⟩ := opened_ok hsource hfuel
  obtain ⟨all, -, -, hopen⟩ := hopened [] hroot hroot none none rfl
  choose dataset hdataset using fun p => hconverts (nodeOf p)
  rw [openDatatree_default, openDatatree_root, hopen]
  exact ⟨_, toDatasets_ok fun p _ => hdataset p⟩

/-- Opening a subtree commutes with opening the whole tree: the keys are the
groups at or below `g` without its prefix, each once, with the datasets of the
whole tree; `open_dataset` gives the whole tree's dataset at `g`. The whole tree
opens where every node becomes a dataset. -/
theorem open_subtree_commutes (hsource : HeldFrom H (· ∈ H.groupPaths) o.source) (hfuel : H.height ≤ o.fuel)
    (hg : g ∈ H.groupPaths) (hdots : NoDots g) :
    (o.Converts → ∃ full, openDatatree o {} = .ok full) ∧
    ∀ full, openDatatree o {} = .ok full → ∃ (sub : Dict D) (ds : D),
      openDatatree o { group := some (pathStr g), includeAncestorCoords := false } = .ok sub ∧
      openDataset o { group := some (pathStr g) } = .ok ds ∧
      (full.map (·.1)).Perm (H.groupPaths.map pathStr) ∧
      (sub.map (·.1)).Perm ((H.groupPaths.filter (g.isPrefixOf ·)).map fun q => pathStr (q.drop g.length)) ∧
      (sub.map (·.1)).Nodup ∧
      (∀ r d, (pathStr r, d) ∈ sub ↔ (pathStr (g ++ r), d) ∈ full) ∧
      (pathStr g, ds) ∈ full := by
  have hroot : [] ∈ H.groupPaths := Hierarchy.group_of_prefix hg (List.nil_prefix)
  obtain ⟨nodeOf, hopened⟩ := opened_ok hsource hfuel
  obtain ⟨all, hndAll, hmemAll, hopenAll⟩ := hopened [] hroot hroot none none rfl
  obtain ⟨out, hnd, hmem, hopen⟩ := hopened g hg hg none none rfl
  obtain ⟨one, hndOne, hmemOne, hopenOne⟩ := hopened g hg hg (some false) none rfl
  have hall : ∀ q, q ∈ all ↔ q ∈ H.groupPaths := by
    intro q
    simpa using (hmemAll q).trans region_recursive
  have hout : ∀ q, q ∈ out ↔ q ∈ H.groupPaths ∧ g <+: q := fun q => (hmem q).trans region_recursive
  have hbelow : ∀ q ∈ out, g <+: q := fun q hq => ((hout q).1 hq).2
  have hone : g ∈ one := (hmemOne g).2 ⟨hg, rfl⟩
  have hperm : out.Perm (H.groupPaths.filter (g.isPrefixOf ·)) :=
    (List.perm_ext_iff_of_nodup hnd (Hierarchy.groupPaths_nodup.filter _)).2 fun q => by
      rw [hout, List.mem_filter, List.isPrefixOf_iff_prefix]
  refine ⟨openDatatree_converts hsource hfuel hroot, fun full hfull => ?_⟩
  rw [openDatatree_default, openDatatree_root, hopenAll] at hfull
  -- All three opens read the same nodes, so their datasets agree.
  obtain ⟨dataset, hdataset, rfl⟩ := toDatasets_eq ((hall g).2 hg) hfull
  have hdatasets : ∀ p ∈ out, o.nodeToDataset (nodeOf p) = .ok (dataset p) := fun p hp =>
    hdataset p ((hall p).2 ((hout p).1 hp).1)
  have hsub := openDatatree_group hnd hbelow ((hout g).2 ⟨hg, List.prefix_refl g⟩) hdots hopen hdatasets
  refine ⟨out.map fun p => (pathStr (p.drop g.length), dataset p), dataset g, hsub,
    (openDataset_group hndOne hone hdots hopenOne).trans (hdataset g ((hall g).2 hg)), ?_, ?_, ?_, fun r d => ?_, ?_⟩
  · rw [List.map_map]
    exact ((List.perm_ext_iff_of_nodup hndAll Hierarchy.groupPaths_nodup).2 hall).map pathStr
  · rw [List.map_map]
    exact hperm.map _
  · have hkeys := rerooted_nodup hnd dataset g
    rwa [filter_below hbelow] at hkeys
  · rw [mem_rerooted hbelow dataset, mem_entries dataset, hout, hall]
    simp only [List.prefix_append, and_true]
  · exact (mem_entries dataset).2 ⟨(hall g).2 hg, rfl⟩

end

/-- Datasets that are the absolute paths they were read from. -/
def radarOpener (source : WalkSource Nat) (sourceIsBytes : Bool) : Opener Nat Unit Str where
  source := source
  sourceIsBytes := sourceIsBytes
  fuel := 9
  fetch _ := .ok ()
  nodeToDataset node := .ok node.path
  merge datasets := .ok (datasets.headD [])

theorem heldFrom_sessionOf {J : Type} (H : Hierarchy J) (roots : Path → Prop) :
    HeldFrom H roots (.icechunk (sessionOf H)) :=
  ⟨H.nodes, .refl _, fun root _ => sessionOf_lists H root⟩

/-- `/VCP-1` beside `/VCP-12`. -/
theorem open_subtree_commutes_radar :
    ((radarOpener (.icechunk (sessionOf radarTree)) true).Converts →
      ∃ full, openDatatree (radarOpener (.icechunk (sessionOf radarTree)) true) {} = .ok full) ∧
    ∀ full, openDatatree (radarOpener (.icechunk (sessionOf radarTree)) true) {} = .ok full →
      ∃ (sub : Dict Str) (ds : Str),
        openDatatree (radarOpener (.icechunk (sessionOf radarTree)) true)
          { group := some (pathStr [vcp1]), includeAncestorCoords := false } = .ok sub ∧
        openDataset (radarOpener (.icechunk (sessionOf radarTree)) true) { group := some (pathStr [vcp1]) } = .ok ds ∧
        (full.map (·.1)).Perm (radarTree.groupPaths.map pathStr) ∧
        (sub.map (·.1)).Perm ((radarTree.groupPaths.filter ([vcp1].isPrefixOf ·)).map fun q => pathStr (q.drop 1)) ∧
        (sub.map (·.1)).Nodup ∧
        (∀ r d, (pathStr r, d) ∈ sub ↔ (pathStr ([vcp1] ++ r), d) ∈ full) ∧
        (pathStr [vcp1], ds) ∈ full :=
  open_subtree_commutes (o := radarOpener (.icechunk (sessionOf radarTree)) true)
    (heldFrom_sessionOf radarTree _) (by decide) (by decide) (by decide)

example : openDatatree (radarOpener (.vanilla (storeOf radarTree)) false)
    { group := some "/VCP-12".toList, includeAncestorCoords := false } =
    .ok [("/".toList, "/VCP-12".toList), ("/sweep_0".toList, "/VCP-12/sweep_0".toList)] := by decide

end Rustytree
