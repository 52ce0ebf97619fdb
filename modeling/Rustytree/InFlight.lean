import Rustytree.HeldStores
import Rustytree.WalkSteps
/-!
# Requests in flight

Discovery and the eager phase take a permit around their requests; `open_single`
takes none. So the bound of `max_concurrency` holds exactly for walks of at most
that many groups.
-/

namespace Rustytree
open Glob Lib.ForkJoin Lib.Runs

variable {J : Type}

/-- The group opens and eager reads in flight. -/
def WalkState.inFlight : WalkState → Nat
  | .discovering s => s.task.inFlight
  | .openingGroups opens _ => opens.countP fun o => o.2 == .opening
  | .fetching s => s.task.inFlight
  | .finished | .failed _ => 0

/-! ## What bounds a walk -/

section
variable {E : Type} {store : ZarrsStore J} {glob : Option GlobPredicate} {fuel permits : Nat} {rootPath : Str}
  {recursive : Bool} {paths : List Str}

/-- Phases under permits are bounded by the permits, the other by its groups. -/
theorem inFlight_le {s : WalkState} (hs : Follows E store glob fuel rootPath recursive permits s)
    (hpaths : pathsToOpen store glob fuel rootPath recursive = .ok paths) (hle : paths.length ≤ permits) :
    s.inFlight ≤ permits := by
  cases s with
  | discovering s => exact s.task.inFlight_le_held.trans (Nat.le.intro hs.1)
  | openingGroups opens free =>
    cases hpaths.symm.trans hs.2.1
    rw [List.length_map] at hle
    exact List.countP_le_length.trans hle
  | fetching s => exact s.task.inFlight_le_held.trans (Nat.le.intro hs.1)
  | finished => exact Nat.zero_le _
  | failed err => exact Nat.zero_le _

/-- The bound holds in every reachable state exactly for walks of at most
as many groups as there are permits. -/
theorem inFlight_le_iff (hpos : 0 < permits)
    (hpaths : pathsToOpen store glob fuel rootPath recursive = .ok paths) :
    (∀ s, Reaches (WalkStep E store) (walkStart store glob fuel rootPath recursive permits) s → s.inFlight ≤ permits) ↔
      paths.length ≤ permits := by
  constructor
  · intro h
    have hall := h _ (reaches_all_opening hpos hpaths)
    have hcount : (paths.map fun p => (p, OpenStage.opening)).countP (fun o => o.2 == .opening) = paths.length := by
      rw [List.countP_map]
      exact (List.countP_eq_length (l := paths)).2 fun _ _ => rfl
    exact hcount ▸ hall
  · intro h s hs
    have hfollows : Follows E store glob fuel rootPath recursive permits s :=
      invariant hs follows_start fun _ _ => follows_step
    exact inFlight_le hfollows hpaths h

/-- The groups a walk opens. -/
def walkedGroups (H : Hierarchy J) (root : Path) (recursive : Bool) (glob : Option GlobPredicate) : List Path :=
  H.groupPaths.filter fun q =>
    if recursive then root.isPrefixOf q && (q == root || passes glob (pathStr q)) else q == root

theorem mem_walkedGroups {H : Hierarchy J} {root q : Path} :
    q ∈ walkedGroups H root recursive glob ↔ Region H root recursive glob q := by
  rw [walkedGroups, List.mem_filter, Region]
  cases recursive <;> simp

/-- With the cap `m`, at most `m` group opens and eager reads are in flight in
every reachable state exactly if the walk opens at most `m` groups. -/
theorem inFlight_bounded_iff {H : Hierarchy J} (hs : Serves store H) {root : Path} (hr : root ∈ H.groupPaths)
    (hfuel : H.height ≤ fuel) (recursive : Bool) (glob : Option GlobPredicate) {m : Nat} (hm : 1 ≤ m) :
    (∀ s, Reaches (WalkStep E store)
        (walkStart store glob fuel (pathStr root) recursive (semaphorePermits (some m))) s → s.inFlight ≤ m) ↔
      (walkedGroups H root recursive glob).length ≤ m := by
  obtain ⟨out, hout, hnd, hmem⟩ := walkedPaths_ok hs hr hfuel recursive glob
  have hperm : out.Perm (walkedGroups H root recursive glob) :=
    (List.perm_ext_iff_of_nodup hnd (Hierarchy.groupPaths_nodup.filter _)).2 fun q => by
      rw [hmem]
      exact mem_walkedGroups.symm
  have hpermits : semaphorePermits (some m) = m := Nat.max_eq_left hm
  rw [hpermits, ← hperm.length_eq, inFlight_le_iff hm hout, List.length_map]

end

/-- Four permits for the four groups of the radar tree. -/
theorem inFlight_bounded_radar :
    (∀ s, Reaches (WalkStep Unit (storeOf radarTree))
        (walkStart (storeOf radarTree) none 9 (pathStr []) true (semaphorePermits (some 4))) s → s.inFlight ≤ 4) ↔
      (walkedGroups radarTree [] true none).length ≤ 4 :=
  inFlight_bounded_iff (storeOf_serves radarTree) (by decide) (by decide) true none (by decide)

/-- With one permit the walk of the radar tree still has four group opens in flight. -/
theorem inFlight_exceeds_radar :
    ∃ s, Reaches (WalkStep Unit (storeOf radarTree))
        (walkStart (storeOf radarTree) none 9 (pathStr []) true (semaphorePermits (some 1))) s ∧ s.inFlight = 4 := by
  have hpaths : pathsToOpen (storeOf radarTree) none 9 (pathStr []) true = .ok (radarTree.groupPaths.map pathStr) := by
    decide
  exact ⟨_, reaches_all_opening (by decide) hpaths, by decide⟩

end Rustytree
