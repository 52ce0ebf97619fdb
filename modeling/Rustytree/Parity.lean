import Rustytree.Ancestors
/-!
# The two stores report alike

What an open of a literal group ends in, for a vanilla store and an icechunk
session that hold the same hierarchy: success, a `KeyError`, or another error.
The table is given for each kind of store; the two are then compared.
-/

namespace Rustytree
open Lib.Dict

/-- How an open ends, as far as callers tell it apart. -/
inductive Outcome where
  | success
  | keyError
  | otherError
  deriving DecidableEq, Repr

def Outcome.of {α : Type} : Except PyErr α → Outcome
  | .ok _ => .success
  | .error err => if err.isKeyError then .keyError else .otherError

/-- The entry points that take a literal group. -/
inductive EntryPoint where
  | openDatatree (includeAncestorCoords : Bool)
  | openDataset
  deriving DecidableEq

/-- The entry point walks below the group. -/
def EntryPoint.recursive : EntryPoint → Bool
  | .openDatatree _ => true
  | .openDataset => false

/-- How the entry point ends on a group. -/
def EntryPoint.outcome {J E D : Type} (entry : EntryPoint) (o : Opener J E D) (group : Str) : Outcome :=
  match entry with
  | .openDatatree includeAncestorCoords => .of (Rustytree.openDatatree o { group := some group, includeAncestorCoords })
  | .openDataset => .of (Rustytree.openDataset o { group := some group })

section
variable {J E D : Type} {o : Opener J E D} {H : Hierarchy J} {p : Path} {entry : EntryPoint}

/-! ## A group that is there -/

theorem openDataset_success (hsource : HeldFrom H (· = p) o.source) (hfuel : H.height ≤ o.fuel)
    (hconverts : o.Converts) (hp : p ∈ H.groupPaths) (hdots : NoDots p) :
    ∃ ds, openDataset o { group := some (pathStr p) } = .ok ds := by
  obtain ⟨nodeOf, hopened⟩ := opened_ok hsource hfuel
  obtain ⟨out, hnd, hmem, hopen⟩ := hopened p hp rfl (some false) none rfl
  rw [openDataset_group hnd ((hmem p).2 ⟨hp, rfl⟩) hdots hopen]
  exact hconverts (nodeOf p)

/-- Every ancestor of a group is a group, so the merge finds them all. -/
theorem openDatatree_success (hsource : ∀ q, q <+: p → HeldFrom H (· = q) o.source) (hfuel : H.height ≤ o.fuel)
    (hconverts : o.Converts) (hmerges : o.Merges) (hp : p ∈ H.groupPaths) (hdots : NoDots p)
    (includeAncestorCoords : Bool) :
    ∃ tree, openDatatree o { group := some (pathStr p), includeAncestorCoords } = .ok tree := by
  obtain ⟨nodeOf, hopened⟩ := opened_ok (hsource p (List.prefix_refl p)) hfuel
  obtain ⟨out, hnd, hmem, hopen⟩ := hopened p hp rfl none none rfl
  have hin : p ∈ out := (hmem p).2 (region_recursive.2 ⟨hp, List.prefix_refl p⟩)
  have hbelow : ∀ q ∈ out, p <+: q := fun q hq => (region_recursive.1 ((hmem q).1 hq)).2
  choose dataset hdataset using fun q => hconverts (nodeOf q)
  cases includeAncestorCoords with
  | false => exact ⟨_, openDatatree_group hnd hbelow hin hdots hopen fun q _ => hdataset q⟩
  | true =>
    by_cases hnil : p = []
    · subst hnil
      rw [openDatatree_root, hopen]
      exact ⟨_, toDatasets_ok fun q _ => hdataset q⟩
    have hancestor : ∀ a ∈ ancestors p, ∃ ds, openDataset o { group := some (pathStr a) } = .ok ds := by
      intro a ha
      have hpre : a <+: p := mem_lineage.1 (List.mem_cons_of_mem p ha)
      exact openDataset_success (hsource a hpre) hfuel hconverts (Hierarchy.group_of_prefix hp hpre)
        (noDots_above hpre hdots)
    obtain ⟨above, habove⟩ := Lib.Collect.exists_forall₂ hancestor
    obtain ⟨top, htop⟩ := hmerges (dataset p :: above)
    rw [openDatatree_ancestors hnd hbelow hin hdots hnil hopen fun q _ => hdataset q,
      Lib.Collect.mapM_eq_ok.2 habove, Except.bind, htop]
    exact ⟨_, rfl⟩

theorem outcome_group (hsource : ∀ q, q <+: p → HeldFrom H (· = q) o.source) (hfuel : H.height ≤ o.fuel)
    (hconverts : o.Converts) (hmerges : o.Merges) (hp : p ∈ H.groupPaths) (hdots : NoDots p) :
    entry.outcome o (pathStr p) = .success := by
  cases entry with
  | openDatatree includeAncestorCoords =>
    obtain ⟨tree, htree⟩ := openDatatree_success hsource hfuel hconverts hmerges hp hdots includeAncestorCoords
    simp only [EntryPoint.outcome, htree, Outcome.of]
  | openDataset =>
    obtain ⟨ds, hds⟩ := openDataset_success (hsource p (List.prefix_refl p)) hfuel hconverts hp hdots
    simp only [EntryPoint.outcome, hds, Outcome.of]

/-! ## A failed walk, and an empty one -/

/-- A failed walk is raised as it is. -/
theorem outcome_error (hdots : NoDots p) {err : RustytreeError}
    (h : walkRecursive o.fuel (fun _ _ => o.fetch) o.source (pathStr p) entry.recursive none = .error err) :
    entry.outcome o (pathStr p) = if err.toPyErr.isKeyError then .keyError else .otherError := by
  cases entry with
  | openDatatree includeAncestorCoords =>
    obtain ⟨e, hopen, hclass⟩ := rustOpenOrExplain_error o (some (pathStr p)) none none h
    have hraise : openDatatree o { group := some (pathStr p), includeAncestorCoords } = .error e := by
      by_cases hnil : p = []
      · subst hnil
        rw [openDatatree_root, hopen]
      · rw [openDatatree_canonical o includeAncestorCoords hdots hnil, hopen]
    simp only [EntryPoint.outcome, hraise, Outcome.of, hclass]
  | openDataset =>
    obtain ⟨e, hopen, hclass⟩ := rustOpenOrExplain_error o (some (pathStr p)) (some false) none h
    have hraise : openDataset o { group := some (pathStr p) } = .error e := by
      rw [openDataset_canonical o hdots, hopen]
    simp only [EntryPoint.outcome, hraise, Outcome.of, hclass]

/-- An empty walk is a `KeyError`, except that `open_datatree` exempts the root. -/
theorem outcome_empty (hdots : NoDots p)
    (h : walkRecursive o.fuel (fun _ _ => o.fetch) o.source (pathStr p) entry.recursive none = .ok []) :
    entry.outcome o (pathStr p) = if entry.recursive ∧ p = [] then .success else .keyError := by
  cases entry with
  | openDatatree includeAncestorCoords =>
    have hopen : rustOpenOrExplain o (some (pathStr p)) none none = .ok [] := rustOpenOrExplain_empty h
    by_cases hnil : p = []
    · subst hnil
      simp only [EntryPoint.outcome, openDatatree_root, hopen]
      rfl
    · simp only [EntryPoint.outcome, openDatatree_canonical o includeAncestorCoords hdots hnil, hopen]
      simp [hnil, Outcome.of, PyErr.isKeyError]
  | openDataset =>
    have hopen : rustOpenOrExplain o (some (pathStr p)) (some false) none = .ok [] := rustOpenOrExplain_empty h
    simp only [EntryPoint.outcome, openDataset_canonical o hdots, hopen]
    simp [EntryPoint.recursive, Outcome.of, PyErr.isKeyError]

/-! ## The table for each store -/

/-- A vanilla store: the error of opening the group decides. -/
theorem vanilla_outcome (entry : EntryPoint) {store : ZarrsStore J} (ho : o.source = .vanilla store)
    (hs : Serves store H) (hfuel : H.height ≤ o.fuel) (hdots : NoDots p) :
    (o.Converts → o.Merges → p ∈ H.groupPaths → entry.outcome o (pathStr p) = .success) ∧
    (∀ metadata, (p, .array metadata) ∈ H.nodes → entry.outcome o (pathStr p) = .otherError) ∧
    ((∀ node, (p, node) ∉ H.nodes) → entry.outcome o (pathStr p) = .keyError) := by
  have hpos : 0 < o.fuel := Nat.lt_of_lt_of_le (Nat.succ_pos _) hfuel
  have hwalk : ∀ {err}, store.groupOpen (pathStr p) = .error err → ∃ ctx,
      walkRecursive o.fuel (fun _ _ => o.fetch) o.source (pathStr p) entry.recursive none =
        .error (mapGroupOpenErr (pathStr p) ctx err) := fun {err} herr => by
    obtain ⟨ctx, hrun⟩ := walkViaZarrs_error (E := E) herr hpos entry.recursive none
    exact ⟨ctx, by simp only [walkRecursive, metadataWalk, ho, hrun]⟩
  refine ⟨fun hconverts hmerges hp => outcome_group (fun q _ => ho ▸ hs) hfuel hconverts hmerges hp hdots,
    fun metadata hm => ?_, fun habsent => ?_⟩
  · obtain ⟨msg, herr⟩ := hs.notGroup p metadata hm
    obtain ⟨ctx, hrun⟩ := hwalk herr
    rw [outcome_error hdots hrun]
    rfl
  · obtain ⟨ctx, hrun⟩ := hwalk (hs.absent p habsent)
    rw [outcome_error hdots hrun]
    rfl

/-- An icechunk session: an array at the path is an orphan of the walk, or is
filtered out with everything else; nothing at the path is an empty walk. -/
theorem icechunk_outcome (entry : EntryPoint) {session : Session J} (ho : o.source = .icechunk session)
    (hh : ∀ q, q <+: p → HoldsAt session H q) (hfuel : H.height ≤ o.fuel) (hdots : NoDots p) :
    (o.Converts → o.Merges → p ∈ H.groupPaths → entry.outcome o (pathStr p) = .success) ∧
    (∀ metadata, (p, .array metadata) ∈ H.nodes →
      entry.outcome o (pathStr p) = if entry.recursive ∨ p = [] then .otherError else .keyError) ∧
    ((∀ node, (p, node) ∉ H.nodes) →
      entry.outcome o (pathStr p) = if entry.recursive ∧ p = [] then .success else .keyError) := by
  obtain ⟨l, hperm, hlists⟩ := hh p (List.prefix_refl p)
  refine ⟨fun hconverts hmerges hp =>
      outcome_group (fun q hq => ho ▸ heldFrom_of_holdsAt (hh q hq)) hfuel hconverts hmerges hp hdots,
    fun metadata hm => ?_, fun habsent => ?_⟩
  · rw [Hierarchy.below_array hm, List.perm_singleton] at hperm
    subst hperm
    have hwalk := walkIcechunk_array (E := E) hlists entry.recursive
    by_cases hkept : entry.recursive ∨ p = []
    · rw [if_pos hkept] at hwalk ⊢
      obtain ⟨msg, hrun⟩ := hwalk
      have hwalk : walkRecursive o.fuel (fun _ _ => o.fetch) o.source (pathStr p) entry.recursive none =
          .error (.other msg) := by simp only [walkRecursive, metadataWalk, ho, hrun]
      rw [outcome_error hdots hwalk]
      rfl
    · rw [if_neg hkept] at hwalk ⊢
      rw [outcome_empty hdots (by simp only [walkRecursive, metadataWalk, ho, hwalk]; rfl),
        if_neg fun h => hkept (.inr h.2)]
  · rw [Hierarchy.below_absent habsent, List.perm_nil] at hperm
    subst hperm
    have hrun := walkIcechunk_empty (E := E) hlists entry.recursive none
    exact outcome_empty hdots (by simp only [walkRecursive, metadataWalk, ho, hrun]; rfl)

/-! ## The stores compared -/

/-- Both stores end alike, and in a `KeyError` where there is no node. -/
def ReportsAlike (H : Hierarchy J) (entry : EntryPoint) (vanilla ice : Opener J E D) (p : Path) : Prop :=
  entry.outcome vanilla (pathStr p) = entry.outcome ice (pathStr p) ∧
  ((∀ node, (p, node) ∉ H.nodes) →
    entry.outcome vanilla (pathStr p) = .keyError ∧ entry.outcome ice (pathStr p) = .keyError)

/-- Where the remaining steps succeed, so that every node becomes a dataset and
every merge is made, the stores report alike except in two cases: `open_datatree`
on the root of an empty hierarchy, and `open_dataset` on an array other than the
root. -/
theorem reportsAlike_iff {store : ZarrsStore J} {session : Session J} {vanilla ice : Opener J E D}
    (hvanilla : vanilla.source = .vanilla store) (hice : ice.source = .icechunk session) (hs : Serves store H)
    (hh : ∀ q, q <+: p → HoldsAt session H q) (hfuel : H.height ≤ vanilla.fuel) (hfuel' : H.height ≤ ice.fuel)
    (hconverts : vanilla.Converts) (hmerges : vanilla.Merges) (hconverts' : ice.Converts) (hmerges' : ice.Merges)
    (hdots : NoDots p) :
    ReportsAlike H entry vanilla ice p ↔
      ¬ (entry.recursive ∧ p = [] ∧ H.nodes = []) ∧
      ¬ (entry = .openDataset ∧ p ≠ [] ∧ ∃ metadata, (p, .array metadata) ∈ H.nodes) := by
  obtain ⟨hgroupV, harrayV, habsentV⟩ := vanilla_outcome entry hvanilla hs hfuel hdots
  obtain ⟨hgroupI, harrayI, habsentI⟩ := icechunk_outcome entry hice hh hfuel' hdots
  have hentry : entry = .openDataset ↔ ¬ entry.recursive = true := by cases entry <;> simp [EntryPoint.recursive]
  unfold ReportsAlike
  by_cases habsent : ∀ node, (p, node) ∉ H.nodes
  · -- Nothing there: the icechunk open raises unless the root is exempt.
    have hroot : p = [] → H.nodes = [] := fun hnil => Hierarchy.absent_root_iff.1 (hnil ▸ habsent)
    rw [habsentV habsent, habsentI habsent]
    by_cases hexempt : entry.recursive = true ∧ p = []
    · simp [hexempt, hroot hexempt.2]
    · have hno : ¬ ∃ metadata, (p, .array metadata) ∈ H.nodes := fun ⟨metadata, hm⟩ => habsent _ hm
      rw [if_neg hexempt]
      simp only [hno, and_false, not_false_eq_true, and_true, implies_true, true_iff]
      exact fun h => hexempt ⟨h.1, h.2.1⟩
  · obtain ⟨node, hnode⟩ := not_forall_not.1 habsent
    have hne : H.nodes ≠ [] := List.ne_nil_of_mem hnode
    cases node with
    | group attributes =>
      have hp : p ∈ H.groupPaths := Hierarchy.mem_groupPaths.2 ⟨attributes, hnode⟩
      have hno : ¬ ∃ metadata, (p, .array metadata) ∈ H.nodes := by
        rintro ⟨metadata, hm⟩
        cases Hierarchy.node_unique hnode hm
      rw [hgroupV hconverts hmerges hp, hgroupI hconverts' hmerges' hp]
      simp [habsent, hne, hno]
    | array metadata =>
      rw [harrayV metadata hnode, harrayI metadata hnode, hentry]
      by_cases hkept : entry.recursive = true ∨ p = []
      · rw [if_pos hkept]
        simp only [habsent, hne, false_implies, and_true, and_false, not_false_eq_true, true_and, true_iff]
        exact fun h => hkept.elim h.1 h.2.1
      · rw [if_neg hkept]
        rw [not_or] at hkept
        simp only [reduceCtorEq, false_and, false_iff]
        exact fun h => h.2 ⟨hkept.1, hkept.2, metadata, hnode⟩

end

/-- The hierarchy without a node. -/
def emptyTree : Hierarchy Nat where
  nodes := []
  nodup := by decide
  closed _ _ _ h := by cases h

/-- A missing group of the radar tree, from `open_datatree`. -/
theorem reportsAlike_radar :
    ReportsAlike radarTree (.openDatatree true) (radarOpener (.vanilla (storeOf radarTree)) false)
        (radarOpener (.icechunk (sessionOf radarTree)) true) [sweep0] ↔
      ¬ ((EntryPoint.openDatatree true).recursive ∧ [sweep0] = ([] : Path) ∧ radarTree.nodes = []) ∧
      ¬ (EntryPoint.openDatatree true = .openDataset ∧ [sweep0] ≠ ([] : Path) ∧
        ∃ metadata, ([sweep0], .array metadata) ∈ radarTree.nodes) :=
  reportsAlike_iff rfl rfl (storeOf_serves radarTree) (fun q _ => sessionOf_holds radarTree q) (by decide) (by decide)
    (fun _ => ⟨_, rfl⟩) (fun _ => ⟨_, rfl⟩) (fun _ => ⟨_, rfl⟩) (fun _ => ⟨_, rfl⟩) (by decide)

/-- `open_dataset` on an array, and `open_datatree` on an empty store. -/
theorem reports_differ :
    ¬ ReportsAlike radarTree .openDataset (radarOpener (.vanilla (storeOf radarTree)) false)
        (radarOpener (.icechunk (sessionOf radarTree)) true) [vcp12, sweep0, dbz] ∧
    ¬ ReportsAlike emptyTree (.openDatatree true) (radarOpener (.vanilla (storeOf emptyTree)) false)
        (radarOpener (.icechunk (sessionOf emptyTree)) true) [] := by
  constructor
  · intro h
    exact absurd h.1 (by decide)
  · intro h
    exact absurd h.1 (by decide)

end Rustytree
