import Rustytree.LiteralGroup
import Rustytree.Subtree
import Rustytree.Lib.Preorder
/-!
# Coordinates of the ancestors

`open_datatree(group=g)` merges the datasets above `g` into its new root, so the
root shows what the whole tree lets `g` inherit: of every name, the variable of
the nearest group at or above `g` that has one. Nothing else changes.
-/

namespace Rustytree
open Lib.Dict Lib.Preorder

/-! ## The groups above a group -/

/-- The groups above `g`, closest first. -/
def ancestors (g : Path) : List Path := (List.range g.length).map fun i => g.take (g.length - 1 - i)

/-- `a` is below `c`, thus closer to a group below both. -/
def Closer (a c : Path) : Prop := c <+: a ∧ c ≠ a

theorem closer_asymm (a c : Path) (h : Closer a c) : ¬ Closer c a := by
  intro h'
  exact h.2 (h.1.eq_of_length_le h'.1.length_le)

theorem parents_posix (g : Path) : (posix g).parents = (ancestors g).map posix := by
  unfold PurePosixPath.parents ancestors
  rw [List.map_map]
  simp [posix, Function.comp_def]

/-- The group and those above it are its prefixes, from long to short. -/
theorem lineage_eq (g : Path) : g :: ancestors g = (List.range (g.length + 1)).map fun i => g.take (g.length - i) := by
  rw [List.range_succ_eq_map, List.map_cons, List.map_map, Nat.sub_zero, List.take_length]
  congr 1
  apply List.map_congr_left
  intro i _
  rw [Function.comp_apply, Nat.sub_sub, Nat.succ_eq_one_add]

theorem mem_lineage {g a : Path} : a ∈ g :: ancestors g ↔ a <+: g := by
  rw [lineage_eq, List.mem_map]
  constructor
  · rintro ⟨i, -, rfl⟩
    exact List.take_prefix _ g
  · intro h
    have hlen := h.length_le
    refine ⟨g.length - a.length, by simp, ?_⟩
    rw [Nat.sub_sub_self hlen]
    exact (List.prefix_iff_eq_take.1 h).symm

theorem lineage_pairwise (g : Path) : (g :: ancestors g).Pairwise Closer := by
  rw [lineage_eq, List.pairwise_map]
  apply List.pairwise_lt_range.imp_of_mem
  intro i j hi hj hij
  rw [List.mem_range] at hi hj
  refine ⟨List.take_prefix_take_left (by omega), ?_⟩
  intro h
  have hlen := congrArg List.length h
  rw [List.length_take, List.length_take] at hlen
  omega

theorem noDots_above {g a : Path} (h : a <+: g) (hdots : NoDots g) : NoDots a :=
  fun n hn => hdots n (h.subset hn)

/-- The first answer from a group upwards is that of the nearest group with one. -/
theorem findSome?_lineage {β : Type} {g : Path} {f : Path → Option β} {b : β} :
    (g :: ancestors g).findSome? f = some b ↔
      ∃ a, a <+: g ∧ f a = some b ∧ ∀ c, c <+: g → Closer c a → f c = none := by
  rw [findSome?_pairwise (lineage_pairwise g) closer_asymm]
  simp only [mem_lineage]

section
variable {J E D V : Type} {o : Opener J E D} {H : Hierarchy J} {g : Path}

/-! ## The new root -/

/-- The new root's entry set: the rest of the dictionary stays. -/
theorem set_rerooted {out : List Path} (hbelow : ∀ q ∈ out, g <+: q) (hg : g ∈ out) (f : Path → V) (v : V) :
    set (out.map fun p => (pathStr (p.drop g.length), f p)) ROOT v =
      out.map fun p => (pathStr (p.drop g.length), if p = g then v else f p) := by
  have hroot : ∀ p ∈ out, pathStr (p.drop g.length) = ROOT ↔ p = g := by
    intro p hp
    obtain ⟨r, rfl⟩ := hbelow p hp
    rw [List.drop_left]
    constructor
    · intro h
      have hr : r = [] := pathStr_inj.1 h
      rw [hr, List.append_nil]
    · intro h
      have hr : r = [] := by simpa using h
      rw [hr]
      rfl
  have hmem : ROOT ∈ (out.map fun p => (pathStr (p.drop g.length), f p)).map (·.1) := by
    rw [List.map_map]
    exact List.mem_map.2 ⟨g, hg, (hroot g hg).2 rfl⟩
  unfold Lib.Dict.set
  rw [if_pos hmem, List.map_map]
  apply List.map_congr_left
  intro p hp
  simp only [Function.comp_apply]
  by_cases h : p = g
  · rw [if_pos ((hroot p hp).2 h), if_pos h, (hroot p hp).2 h]
  · rw [if_neg (mt (hroot p hp).1 h), if_neg h]

/-- Arguments that pass the check of the format play no further part. -/
theorem openDataset_format (o : Opener J E D) (group : Option Str) {zarrFormat : Option Int}
    {consolidated : Option Bool} (h : checkZarrV3Only zarrFormat consolidated = .ok ()) :
    openDataset o { group, zarrFormat, consolidated } = openDataset o { group } := by
  unfold openDataset openDatasetWith
  simp only [h, checkZarrV3Only_default]

theorem openDatatree_format (o : Opener J E D) (kwargs : OpenKwargs)
    (h : checkZarrV3Only kwargs.zarrFormat kwargs.consolidated = .ok ()) :
    openDatatree o kwargs = openDatatree o { kwargs with zarrFormat := none, consolidated := none } := by
  unfold openDatatree openDatatreeWith mergeAncestorsWith
  simp only [h, checkZarrV3Only_default, bind, Except.bind, openDataset_format o _ h]

/-- Nor does the spelling of the group. -/
theorem openDatatree_normalized (o : Opener J E D) (includeAncestorCoords : Bool) {a b : Str}
    (h : normalizeLiteralGroup (some a) = normalizeLiteralGroup (some b)) :
    openDatatree o { group := some a, includeAncestorCoords } =
      openDatatree o { group := some b, includeAncestorCoords } := by
  unfold openDatatree openDatatreeWith
  simp only [validateGroupFilter_group, h]
  rfl

theorem openDatatree_spelled (o : Opener J E D) (includeAncestorCoords : Bool) {group : Str} (h : ¬ TwoSlashes group) :
    openDatatree o { group := some group, includeAncestorCoords } =
      openDatatree o { group := some (pathStr (spelledPath group)), includeAncestorCoords } := by
  apply openDatatree_normalized
  rw [normalizeLiteralGroup_pathStr (spelledPath_noDots group)]
  by_cases hne : group = []
  · subst hne
    rfl
  · exact normalizeLiteralGroup_spelled hne h

/-! ## Opening a subtree with its ancestors -/

/-- A recursive open of a canonical group that is there: the ancestors are
opened, and their datasets join the new root's after those of the groups closer
to it. -/
theorem openDatatree_ancestors {out : List Path} (hnd : out.Nodup) (hbelow : ∀ q ∈ out, g <+: q) (hg : g ∈ out)
    (hdots : NoDots g) (hroot : g ≠ []) {nodeOf : Path → NodeData J E}
    (hopen : rustOpenOrExplain o (some (pathStr g)) none none = .ok (out.map fun p => (pathStr p, nodeOf p)))
    {dataset : Path → D} (hdataset : ∀ p ∈ out, o.nodeToDataset (nodeOf p) = .ok (dataset p)) :
    openDatatree o { group := some (pathStr g) } =
      ((ancestors g).mapM fun a => openDataset o { group := some (pathStr a) }).bind fun above =>
        (o.merge (dataset g :: above)).map fun top =>
          out.map fun p => (pathStr (p.drop g.length), if p = g then top else dataset p) := by
  have habove : ((posix g).parents.zipIdx.mapM fun ancestor => openDataset o { group := some ancestor.1.str }) =
      (ancestors g).mapM fun a => openDataset o { group := some (pathStr a) } := by
    rw [Lib.Collect.mapM_zipIdx fun ancestor : PurePosixPath => openDataset o { group := some ancestor.str },
      parents_posix, List.mapM_map]
    congr 1
    funext a
    rw [Function.comp_apply, str_posix]
  have htop : (out.map fun p => (pathStr (p.drop g.length), dataset p)).lookup ROOT = some (dataset g) := by
    have hkeys := rerooted_nodup hnd dataset g
    rw [filter_below hbelow] at hkeys
    apply (lookup_eq_some hkeys).2
    exact (mem_rerooted hbelow dataset (r := [])).2 (by simp [hg])
  rw [openDatatree_canonical o true hdots hroot, hopen]
  simp only [if_neg (lookup_paths_found hnd nodeOf hg), toDatasets_ok hdataset, reroot_below hnd hbelow, if_true]
  unfold mergeAncestors mergeAncestorsWith
  simp only [parse_pathStr hdots, habove, htop, bind, Except.bind]
  cases (ancestors g).mapM fun a => openDataset o { group := some (pathStr a) } with
  | error err => rfl
  | ok above =>
    simp only
    congr 1
    funext top
    exact set_rerooted hbelow hg dataset top

/-- With the ancestors' coordinates, opening a subtree of a tree that opens,
however its group is spelled, merges the datasets of the group and all above it,
nearest first, and raises only what the merge raises. It changes only the new
root: there every name has the variable of the nearest group at or above it that
has one in the whole tree. -/
theorem open_inherits_nearest (hsource : HeldFrom H (· ∈ H.groupPaths) o.source) (hfuel : H.height ≤ o.fuel)
    {zarrFormat : Option Int} {consolidated : Option Bool} (hformat : checkZarrV3Only zarrFormat consolidated = .ok ())
    {group : Str} (htwo : ¬ TwoSlashes group) (hg : spelledPath group ∈ H.groupPaths) (hroot : spelledPath group ≠ [])
    {K W : Type} {var : D → K → Option W}
    (hmerge : ∀ datasets top, o.merge datasets = .ok top →
      ∀ name, var top name = datasets.findSome? fun ds => var ds name)
    {full : Dict D} (hfull : openDatatree o {} = .ok full) :
    ∃ lineage : List D,
      List.Forall₂ (fun a d => (pathStr a, d) ∈ full) (spelledPath group :: ancestors (spelledPath group)) lineage ∧
      (∀ err, o.merge lineage = .error err →
        openDatatree o { group := some group, zarrFormat, consolidated } = .error err) ∧
      ∀ top, o.merge lineage = .ok top → ∃ sub : Dict D,
        openDatatree o { group := some group, zarrFormat, consolidated } = .ok sub ∧
        (full.map (·.1)).Perm (H.groupPaths.map pathStr) ∧
        (sub.map (·.1)).Nodup ∧
        (∀ r d, r ≠ [] → ((pathStr r, d) ∈ sub ↔ (pathStr (spelledPath group ++ r), d) ∈ full)) ∧
        (∀ d, (ROOT, d) ∈ sub ↔ d = top) ∧
        ∀ name v, var top name = some v ↔
          ∃ a d, a <+: spelledPath group ∧ (pathStr a, d) ∈ full ∧ var d name = some v ∧
            ∀ b, b <+: spelledPath group → Closer b a → ∀ d', (pathStr b, d') ∈ full → var d' name = none := by
  have hdots := spelledPath_noDots group
  rw [openDatatree_format o { group := some group, zarrFormat, consolidated } hformat,
    openDatatree_spelled o true htwo]
  generalize spelledPath group = g at *
  have hnil : [] ∈ H.groupPaths := Hierarchy.group_of_prefix hg List.nil_prefix
  obtain ⟨nodeOf, hopened⟩ := opened_ok hsource hfuel
  obtain ⟨all, hndAll, hmemAll, hopenAll⟩ := hopened [] hnil hnil none none rfl
  obtain ⟨out, hnd, hmem, hopen⟩ := hopened g hg hg none none rfl
  have hall : ∀ q, q ∈ all ↔ q ∈ H.groupPaths := by
    intro q
    simpa using (hmemAll q).trans region_recursive
  have hout : ∀ q, q ∈ out ↔ q ∈ H.groupPaths ∧ g <+: q := fun q => (hmem q).trans region_recursive
  have hbelow : ∀ q ∈ out, g <+: q := fun q hq => ((hout q).1 hq).2
  have hmine : g ∈ out := (hout g).2 ⟨hg, List.prefix_refl g⟩
  have hlineage : ∀ a, a <+: g → a ∈ all := fun a ha => (hall a).2 (Hierarchy.group_of_prefix hg ha)
  rw [openDatatree_default, openDatatree_root, hopenAll] at hfull
  obtain ⟨dataset, hdataset, rfl⟩ := toDatasets_eq ((hall g).2 hg) hfull
  have hfull : ∀ {q : Path} {d : D}, (pathStr q, d) ∈ all.map (fun p => (pathStr p, dataset p)) ↔
      q ∈ all ∧ dataset q = d := mem_entries dataset
  -- Every ancestor opens, to the dataset the whole tree has for it.
  have habove : ((ancestors g).mapM fun a => openDataset o { group := some (pathStr a) }) =
      .ok ((ancestors g).map dataset) := by
    apply Lib.Collect.mapM_ok_of
    intro a ha
    have hpre : a <+: g := mem_lineage.1 (List.mem_cons_of_mem g ha)
    have haH := Hierarchy.group_of_prefix hg hpre
    obtain ⟨one, hndOne, hmemOne, hopenOne⟩ := hopened a haH haH (some false) none rfl
    rw [openDataset_group hndOne ((hmemOne a).2 ⟨haH, rfl⟩) (noDots_above hpre hdots) hopenOne]
    exact hdataset a (hlineage a hpre)
  have hdatasets : ∀ p ∈ out, o.nodeToDataset (nodeOf p) = .ok (dataset p) := fun p hp =>
    hdataset p ((hall p).2 ((hout p).1 hp).1)
  have hsub := openDatatree_ancestors hnd hbelow hmine hdots hroot hopen hdatasets
  rw [habove] at hsub
  refine ⟨(g :: ancestors g).map dataset, ?_, ?_, ?_⟩
  · rw [List.forall₂_map_right_iff, List.forall₂_same]
    intro a ha
    exact hfull.2 ⟨hlineage a (mem_lineage.1 ha), rfl⟩
  · intro err herr
    rw [hsub, Except.bind, ← List.map_cons, herr]
    rfl
  intro top htop
  refine ⟨out.map fun p => (pathStr (p.drop g.length), if p = g then top else dataset p), ?_, ?_, ?_, ?_, ?_, ?_⟩
  · rw [hsub, Except.bind, ← List.map_cons, htop]
    rfl
  · rw [List.map_map]
    exact ((List.perm_ext_iff_of_nodup hndAll Hierarchy.groupPaths_nodup).2 hall).map pathStr
  · have hkeys := rerooted_nodup hnd (fun p => if p = g then top else dataset p) g
    rwa [filter_below hbelow] at hkeys
  · intro r d hr
    have hlower : ¬ g ++ r = g := by simpa using hr
    rw [mem_rerooted hbelow (fun p => if p = g then top else dataset p), hfull, hout, hall, if_neg hlower]
    simp only [List.prefix_append, and_true]
  · intro d
    have hentry := mem_rerooted (V := D) hbelow (fun p => if p = g then top else dataset p) (r := []) (v := d)
    rw [ROOT, show ['/'] = pathStr [] from rfl, hentry, List.append_nil]
    simp only [hmine, true_and, if_true, eq_comm]
  · intro name v
    rw [hmerge _ _ htop, List.findSome?_map, findSome?_lineage]
    constructor
    · rintro ⟨a, hpre, hval, hnone⟩
      refine ⟨a, _, hpre, hfull.2 ⟨hlineage a hpre, rfl⟩, hval, ?_⟩
      intro b hb hcloser d' hd'
      rw [← (hfull.1 hd').2]
      exact hnone b hb hcloser
    · rintro ⟨a, d, hpre, hd, hval, hnone⟩
      refine ⟨a, hpre, ?_, ?_⟩
      · rw [← (hfull.1 hd).2] at hval
        exact hval
      · intro b hb hcloser
        exact hnone b hb hcloser _ (hfull.2 ⟨hlineage b hb, rfl⟩)

end

def range : Name := ⟨"range".toList, by decide⟩
def latitude : Name := ⟨"latitude".toList, by decide⟩

/-- A sweep with a `range` of its own below a volume with another. -/
def volumeTree : Hierarchy Nat where
  nodes := [([], .group []), ([latitude], .array dbzMetadata), ([vcp12], .group []),
    ([vcp12, range], .array dbzMetadata), ([vcp12, sweep0], .group []), ([vcp12, sweep0, range], .array dbzMetadata)]
  nodup := by decide
  closed := closed_of_dropLast (by simp [groupsIn])

/-- Datasets with, for each variable, the group it was read from; the first to
have a name wins. -/
def namingOpener (source : WalkSource Nat) : Opener Nat Unit (Dict Str) where
  source := source
  sourceIsBytes := true
  fuel := 12
  fetch _ := .ok ()
  nodeToDataset node := .ok (node.vars.map fun var => (var.name, node.path))
  merge datasets := .ok datasets.flatten

/-- `sweep_0`, written with a doubled and a trailing slash. -/
theorem open_inherits_nearest_sweep :
    ∃ full : Dict (Dict Str), openDatatree (namingOpener (.icechunk (sessionOf volumeTree))) {} = .ok full ∧
    ∃ lineage : List (Dict Str),
      List.Forall₂ (fun a d => (pathStr a, d) ∈ full)
        (spelledPath "VCP-12//sweep_0/".toList :: ancestors (spelledPath "VCP-12//sweep_0/".toList)) lineage ∧
      (∀ err, (namingOpener (.icechunk (sessionOf volumeTree))).merge lineage = .error err →
        openDatatree (namingOpener (.icechunk (sessionOf volumeTree)))
          { group := some "VCP-12//sweep_0/".toList, zarrFormat := some 3, consolidated := some false } = .error err) ∧
      ∀ top, (namingOpener (.icechunk (sessionOf volumeTree))).merge lineage = .ok top → ∃ sub : Dict (Dict Str),
        openDatatree (namingOpener (.icechunk (sessionOf volumeTree)))
          { group := some "VCP-12//sweep_0/".toList, zarrFormat := some 3, consolidated := some false } = .ok sub ∧
        (full.map (·.1)).Perm (volumeTree.groupPaths.map pathStr) ∧
        (sub.map (·.1)).Nodup ∧
        (∀ r d, r ≠ [] → ((pathStr r, d) ∈ sub ↔ (pathStr (spelledPath "VCP-12//sweep_0/".toList ++ r), d) ∈ full)) ∧
        (∀ d, (ROOT, d) ∈ sub ↔ d = top) ∧
        ∀ name v, top.lookup name = some v ↔
          ∃ a d, a <+: spelledPath "VCP-12//sweep_0/".toList ∧ (pathStr a, d) ∈ full ∧ d.lookup name = some v ∧
            ∀ b, b <+: spelledPath "VCP-12//sweep_0/".toList → Closer b a →
              ∀ d', (pathStr b, d') ∈ full → d'.lookup name = none := by
  have hmerge : ∀ (datasets : List (Dict Str)) (top : Dict Str),
      (namingOpener (.icechunk (sessionOf volumeTree))).merge datasets = .ok top →
        ∀ name, top.lookup name = datasets.findSome? fun d => d.lookup name := by
    rintro datasets top ⟨⟩ name
    exact lookup_flatten datasets
  have hconverts : (namingOpener (.icechunk (sessionOf volumeTree))).Converts := fun node => ⟨_, rfl⟩
  have hroot : ([] : Path) ∈ volumeTree.groupPaths := by decide
  obtain ⟨full, hfull⟩ := openDatatree_converts (heldFrom_sessionOf volumeTree _) (by decide) hroot hconverts
  exact ⟨full, hfull, open_inherits_nearest (heldFrom_sessionOf volumeTree _) (by decide) (by decide) (by decide)
    (by decide) (by decide) hmerge hfull⟩

/-- The sweep keeps its own `range` and inherits `latitude`. -/
example : (openDatatree (namingOpener (.icechunk (sessionOf volumeTree)))
    { group := some "VCP-12/sweep_0".toList }).toOption.map
      (fun sub => sub.map fun e => (e.1, e.2.lookup range.1, e.2.lookup latitude.1)) =
    some [("/".toList, some "/VCP-12/sweep_0".toList, some "/".toList)] := by decide

end Rustytree
