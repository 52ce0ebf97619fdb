import Rustytree.FromDict
/-!
# One group as a dataset

`open_dataset` walks the one group it is asked for, `open_datatree` the whole
tree. Whatever the one returns, the other has under the group's path.
-/

namespace Rustytree
open Lib.Dict

section
variable {J E D : Type} {o : Opener J E D} {H : Hierarchy J} {nodeOf : Path → NodeData J E}

/-- Nothing but the normalised group counts. -/
theorem openDataset_normalized (o : Opener J E D) {a b : Option Str}
    (h : normalizeLiteralGroup a = normalizeLiteralGroup b) :
    openDataset o { group := a } = openDataset o { group := b } := by
  unfold openDataset openDatasetWith
  simp only [validateGroupFilter_group, h]

theorem openDataset_spelled (o : Opener J E D) {group : Str} (h : ¬ TwoSlashes group) :
    openDataset o { group := some group } = openDataset o { group := some (pathStr (spelledPath group)) } := by
  apply openDataset_normalized
  rw [normalizeLiteralGroup_pathStr (spelledPath_noDots group)]
  by_cases hne : group = []
  · subst hne
    rfl
  · exact normalizeLiteralGroup_spelled hne h

/-- Without a group the root is opened. -/
theorem openDataset_default (o : Opener J E D) : openDataset o {} = openDataset o { group := some (pathStr []) } := by
  rw [openDataset_canonical o (by simp [NoDots])]
  have hwalk : rustOpenOrExplain o none (some false) none =
      rustOpenOrExplain o (some (pathStr [])) (some false) none := rfl
  have hnone : (literalSubtree none).getD ROOT = pathStr [] := rfl
  unfold openDataset openDatasetWith
  simp only [checkZarrV3Only_default, validateGroupFilter_group, bind, Except.bind, normalizeLiteralGroup, hwalk, hnone]
  cases rustOpenOrExplain o (some (pathStr [])) (some false) none with
  | error err => rfl
  | ok tree => rfl

/-- Accepted formats and no filter leave the path of the group. -/
theorem openDataset_path (o : Opener J E D) {kwargs : OpenKwargs}
    (hformat : checkZarrV3Only kwargs.zarrFormat kwargs.consolidated = .ok ()) (hfilter : kwargs.groupFilter = none)
    (htwo : ∀ group, kwargs.group = some group → ¬ TwoSlashes group) :
    openDataset o kwargs = openDataset o { group := some (pathStr (newRoot kwargs)) } := by
  obtain ⟨group, groupFilter, zarrFormat, consolidated, includeAncestorCoords⟩ := kwargs
  subst hfilter
  have hcoords : openDataset o { group, zarrFormat, consolidated, includeAncestorCoords } =
      openDataset o { group, zarrFormat, consolidated } := rfl
  rw [hcoords, openDataset_format o group hformat]
  cases group with
  | none => exact openDataset_default o
  | some group => exact openDataset_spelled o (htwo group rfl)

/-- A dataset is returned for accepted formats and no filter only. -/
theorem openDataset_checked {kwargs : OpenKwargs} {dataset : D} (h : openDataset o kwargs = .ok dataset) :
    checkZarrV3Only kwargs.zarrFormat kwargs.consolidated = .ok () ∧ kwargs.groupFilter = none := by
  obtain ⟨⟨⟩, hformat, hrest⟩ := Lib.Collect.bind_eq_ok.1 h
  obtain ⟨⟨⟩, -, hopen⟩ := Lib.Collect.bind_eq_ok.1 hrest
  refine ⟨hformat, ?_⟩
  cases hfilter : kwargs.groupFilter with
  | none => rfl
  | some pattern =>
    rw [hfilter] at hopen
    cases hopen

theorem openDataset_missing (hsource : HeldFrom H (fun _ => True) o.source) (hfuel : H.height ≤ o.fuel)
    (hroot : [] ∈ H.groupPaths) {g : Path} (hdots : NoDots g) (hg : g ∉ H.groupPaths) (dataset : D) :
    openDataset o { group := some (pathStr g) } ≠ .ok dataset := by
  intro hopen
  apply outcome_missing .openDataset hsource hfuel hroot hdots hg
  simp only [EntryPoint.outcome, hopen, Outcome.of]

/-- `open_dataset` returns a dataset exactly if its formats are accepted, it has
no filter, and the whole tree, where that opens, has that dataset under the path of
the group. The whole tree opens exactly if every group of it opens by itself, and a
path that is no group never does. -/
theorem open_dataset_agrees (hsource : HeldFrom H (fun _ => True) o.source) (hfuel : H.height ≤ o.fuel)
    (hroot : [] ∈ H.groupPaths) :
    (∀ full, openDatatree o {} = .ok full →
      ∀ kwargs : OpenKwargs, (∀ group, kwargs.group = some group → ¬ TwoSlashes group) →
        ∀ dataset, openDataset o kwargs = .ok dataset ↔
          checkZarrV3Only kwargs.zarrFormat kwargs.consolidated = .ok () ∧ kwargs.groupFilter = none ∧
            (pathStr (newRoot kwargs), dataset) ∈ full) ∧
    ((∀ p ∈ H.groupPaths, NoDots p) → ((∃ full, openDatatree o {} = .ok full) ↔
      ∀ p ∈ H.groupPaths, ∃ dataset, openDataset o { group := some (pathStr p) } = .ok dataset)) ∧
    ∀ kwargs : OpenKwargs, (∀ group, kwargs.group = some group → ¬ TwoSlashes group) →
      ∀ dataset, openDataset o kwargs = .ok dataset → newRoot kwargs ∈ H.groupPaths := by
  have hgroups := heldFrom_groups hsource
  obtain ⟨nodeOf, hnodes⟩ := walkRecursive_ok hgroups o.fetch hfuel
  obtain ⟨all, -, hmem, hopen⟩ := opened_ordered hgroups hfuel hnodes hroot hroot none none rfl
  have hall : ∀ q, q ∈ all ↔ q ∈ H.groupPaths := by
    intro q
    simpa using (hmem q).trans region_recursive
  have hwhole : openDatatree o {} = toDatasets o.nodeToDataset (all.map fun p => (pathStr p, nodeOf p)) := by
    rw [openDatatree_default, openDatatree_root, hopen]
  have hdots : ∀ kwargs, NoDots (newRoot kwargs) := by
    intro kwargs
    unfold newRoot
    cases kwargs.group with
    | none => simp [NoDots]
    | some group => exact spelledPath_noDots group
  have hpresent : ∀ kwargs : OpenKwargs, (∀ group, kwargs.group = some group → ¬ TwoSlashes group) →
      ∀ dataset, openDataset o kwargs = .ok dataset → newRoot kwargs ∈ H.groupPaths := by
    intro kwargs htwo dataset h
    obtain ⟨hformat, hfilter⟩ := openDataset_checked h
    rw [openDataset_path o hformat hfilter htwo] at h
    by_contra hmissing
    exact openDataset_missing hsource hfuel hroot (hdots kwargs) hmissing dataset h
  refine ⟨?_, ?_, hpresent⟩
  · intro full hfull kwargs htwo dataset
    rw [hwhole] at hfull
    obtain ⟨datasetAt, hdataset, rfl⟩ := toDatasets_eq ((hall []).2 hroot) hfull
    rw [mem_entries datasetAt, hall]
    constructor
    · intro h
      have hg := hpresent kwargs htwo dataset h
      obtain ⟨hformat, hfilter⟩ := openDataset_checked h
      rw [openDataset_path o hformat hfilter htwo] at h
      rw [openDataset_present hgroups hfuel hnodes hg (hdots kwargs), hdataset _ ((hall _).2 hg), Except.ok.injEq] at h
      exact ⟨hformat, hfilter, hg, h⟩
    · rintro ⟨hformat, hfilter, hg, rfl⟩
      rw [openDataset_path o hformat hfilter htwo, openDataset_present hgroups hfuel hnodes hg (hdots kwargs)]
      exact hdataset _ ((hall _).2 hg)
  · intro hdots
    rw [hwhole]
    constructor
    · rintro ⟨full, hfull⟩ p hp
      obtain ⟨datasetAt, hdataset, -⟩ := toDatasets_eq ((hall p).2 hp) hfull
      exact ⟨datasetAt p, (openDataset_present hgroups hfuel hnodes hp (hdots p hp)).trans (hdataset p ((hall p).2 hp))⟩
    · intro h
      have hdataset : ∀ p ∈ H.groupPaths, ∃ dataset, o.nodeToDataset (nodeOf p) = .ok dataset := by
        intro p hp
        rw [← openDataset_present hgroups hfuel hnodes hp (hdots p hp)]
        exact h p hp
      have : Nonempty D := ⟨(hdataset [] hroot).choose⟩
      choose! datasetAt hdataset using hdataset
      exact ⟨_, toDatasets_ok fun p hp => hdataset p ((hall p).1 hp)⟩

end

theorem open_dataset_agrees_radar :
    (∀ full, openDatatree (radarOpener (.icechunk (sessionOf radarTree)) true) {} = .ok full →
      ∀ kwargs : OpenKwargs, (∀ group, kwargs.group = some group → ¬ TwoSlashes group) →
        ∀ dataset, openDataset (radarOpener (.icechunk (sessionOf radarTree)) true) kwargs = .ok dataset ↔
          checkZarrV3Only kwargs.zarrFormat kwargs.consolidated = .ok () ∧ kwargs.groupFilter = none ∧
            (pathStr (newRoot kwargs), dataset) ∈ full) ∧
    ((∀ p ∈ radarTree.groupPaths, NoDots p) →
      ((∃ full, openDatatree (radarOpener (.icechunk (sessionOf radarTree)) true) {} = .ok full) ↔
        ∀ p ∈ radarTree.groupPaths, ∃ dataset,
          openDataset (radarOpener (.icechunk (sessionOf radarTree)) true) { group := some (pathStr p) } =
            .ok dataset)) ∧
    ∀ kwargs : OpenKwargs, (∀ group, kwargs.group = some group → ¬ TwoSlashes group) →
      ∀ dataset, openDataset (radarOpener (.icechunk (sessionOf radarTree)) true) kwargs = .ok dataset →
        newRoot kwargs ∈ radarTree.groupPaths :=
  open_dataset_agrees (heldFrom_sessionOf radarTree _) (by decide) (by decide)

/-- A sweep, spelled with doubled and trailing slashes. -/
example : openDataset (radarOpener (.icechunk (sessionOf radarTree)) true) { group := some "VCP-12//sweep_0/".toList } =
    .ok "/VCP-12/sweep_0".toList := by decide

end Rustytree
