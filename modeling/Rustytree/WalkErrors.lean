import Rustytree.WalkOutcome
/-!
# Which error a walk reports

`try_join_all` is documented to report the first error that comes in, so with
several faulty groups or arrays the error of a vanilla walk depends on the order
in which its requests end. It is always the error of one request that the walk makes, and
whether its descent gets there is up to the store alone. Which of these errors
can win is also up to the semaphore, whose queue is first in, first out: with a
permit for every task of the descent nothing waits in it, and each can.
-/

namespace Rustytree
open Glob Lib.ForkJoin Lib.Runs

variable {J E : Type}

/-! ## The requests of a walk -/

/-- The groups the descent gets to. -/
inductive Visited (store : ZarrsStore J) (glob : Option GlobPredicate) (rootPath : Str) : Str → Prop
  | root : Visited store glob rootPath rootPath
  | child {path child : Str} {attributes : List (Str × J)} {childPaths : List Str} :
      Visited store glob rootPath path → store.groupOpen path = .ok attributes →
      store.childGroupPaths path = .ok childPaths → child ∈ childPaths → passes glob child = true →
      Visited store glob rootPath child

/-- The error of visiting one group, if there is one. -/
def visitError (store : ZarrsStore J) (path : Str) : Option RustytreeError :=
  match store.groupOpen path with
  | .error err => some (mapGroupOpenErr path " during walk" err)
  | .ok _ =>
    match store.childGroupPaths path with
    | .error err => some (.other s!"failed to list child groups in {shown path}: {err}")
    | .ok _ => none

/-- A request of the walk fails with `err`: of a group that is visited, or, once
all are, of a group that is opened. -/
def RequestFails (store : ZarrsStore J) (glob : Option GlobPredicate) (fuel : Nat) (rootPath : Str) (recursive : Bool)
    (err : RustytreeError) : Prop :=
  (recursive = true ∧ ∃ path, Visited store glob rootPath path ∧ visitError store path = some err) ∨
  ∃ paths, pathsToOpen store glob fuel rootPath recursive = .ok paths ∧ ∃ path ∈ paths, OpenFails store path err

/-- Some run of the walk ends with `err`. -/
def Reported (E : Type) (store : ZarrsStore J) (glob : Option GlobPredicate) (fuel : Nat) (rootPath : Str)
    (recursive : Bool) (permits : Nat) (err : RustytreeError) : Prop :=
  Reaches (WalkStep E store) (walkStart store glob fuel rootPath recursive permits) (.failed err)

section
variable {store : ZarrsStore J} {glob : Option GlobPredicate} {fuel permits : Nat} {rootPath : Str} {recursive : Bool}

/-! ## The errors of the descent -/

theorem Visited.of_child {root child path : Str} {attributes : List (Str × J)} {childPaths : List Str}
    (hopen : store.groupOpen root = .ok attributes) (hlist : store.childGroupPaths root = .ok childPaths)
    (hmem : child ∈ childPaths) (hpass : passes glob child = true) (h : Visited store glob child path) :
    Visited store glob root path := by
  induction h with
  | root => exact .child .root hopen hlist hmem hpass
  | child _ hopen' hlist' hmem' hpass' ih => exact .child ih hopen' hlist' hmem' hpass'

/-- What fails in a descent that ends is the visit of a group. -/
theorem visited_of_fails {root : Str} {err : RustytreeError} (hends : DescentEnds store glob fuel root)
    (h : Fails (discoverJob store glob fuel root) err) :
    ∃ path, Visited store glob root path ∧ visitError store path = some err := by
  induction fuel generalizing root with
  | zero => cases hends
  | succ fuel ih =>
    unfold discoverJob at h
    cases hopen : store.groupOpen root with
    | error openErr =>
      simp only [hopen, fails_fail_iff] at h
      exact ⟨root, .root, by simp only [visitError, hopen, h]⟩
    | ok attributes =>
      cases hlist : store.childGroupPaths root with
      | error listErr =>
        simp only [hopen, hlist, fails_fail_iff] at h
        exact ⟨root, .root, by simp only [visitError, hopen, hlist, h]⟩
      | ok childPaths =>
        simp only [hopen, hlist, fails_fork_iff, List.mem_map, exists_exists_and_eq_and] at h
        obtain ⟨child, hchild, hfails⟩ := h
        obtain ⟨hmem, hpass⟩ := List.mem_filter.1 hchild
        obtain ⟨path, hvisited, hvisit⟩ := ih (hends attributes childPaths hopen hlist child hchild) hfails
        exact ⟨path, hvisited.of_child hopen hlist hmem hpass, hvisit⟩

/-- The tasks below a visited group are among those of the descent. -/
theorem Visited.fails {root path : Str} (hends : DescentEnds store glob fuel root) (h : Visited store glob root path) :
    ∃ left, DescentEnds store glob left path ∧
      ∀ err, Fails (discoverJob store glob left path) err → Fails (discoverJob store glob fuel root) err := by
  induction h with
  | root => exact ⟨fuel, hends, fun _ hfails => hfails⟩
  | @child path child attributes childPaths _ hopen hlist hmem hpass ih =>
    obtain ⟨left, hleft, hfails⟩ := ih
    have hchild : child ∈ childPaths.filter (passes glob) := List.mem_filter.2 ⟨hmem, hpass⟩
    cases left with
    | zero => cases hleft
    | succ left =>
      refine ⟨left, hleft attributes childPaths hopen hlist child hchild, fun err herr => hfails err ?_⟩
      unfold discoverJob
      simp only [hopen, hlist]
      exact .child (List.mem_map_of_mem hchild) herr

theorem fails_of_visited {root path : Str} {err : RustytreeError} (hends : DescentEnds store glob fuel root)
    (h : Visited store glob root path) (hvisit : visitError store path = some err) :
    Fails (discoverJob store glob fuel root) err := by
  obtain ⟨left, hleft, hfails⟩ := h.fails hends
  apply hfails
  cases left with
  | zero => cases hleft
  | succ left =>
    unfold visitError at hvisit
    unfold discoverJob
    cases hopen : store.groupOpen path with
    | error openErr =>
      simp only [hopen, Option.some.injEq] at hvisit
      exact fails_fail_iff.2 hvisit.symm
    | ok attributes =>
      cases hlist : store.childGroupPaths path with
      | error listErr =>
        simp only [hopen, hlist, Option.some.injEq] at hvisit
        exact fails_fail_iff.2 hvisit.symm
      | ok childPaths =>
        simp only [hopen, hlist] at hvisit
        cases hvisit

theorem canFail_iff {err : RustytreeError} (hends : recursive = true → DescentEnds store glob fuel rootPath) :
    CanFail store glob fuel rootPath recursive err ↔ RequestFails store glob fuel rootPath recursive err := by
  unfold CanFail RequestFails
  apply or_congr_left
  apply and_congr_right
  intro hrec
  constructor
  · exact visited_of_fails (hends hrec)
  · rintro ⟨path, hvisited, hvisit⟩
    exact fails_of_visited (hends hrec) hvisited hvisit

/-! ## What the runs report -/

theorem canFail_of_reported {err : RustytreeError}
    (h : Reported E store glob fuel rootPath recursive permits err) :
    CanFail store glob fuel rootPath recursive err := by
  have hfollows : Follows E store glob fuel rootPath recursive permits (.failed err) :=
    invariant h follows_start fun _ _ => follows_step
  exact hfollows

/-- A group of which a request fails can be the first to do so. -/
theorem reaches_openFails {pre post : List (Str × OpenStage)} {path : Str} {free : Nat} {err : RustytreeError}
    (h : OpenFails store path err) :
    Reaches (WalkStep E store) (.openingGroups (pre ++ (path, .opening) :: post) free) (.failed err) := by
  unfold OpenFails at h
  cases hopen : store.groupOpen path with
  | error openErr =>
    simp only [hopen] at h
    rw [h]
    exact .single (.groupNotOpened hopen)
  | ok attributes =>
    simp only [hopen] at h
    exact .head (.groupOpened hopen) (.single (.arraysNotOpened hopen h))

theorem reported_of_canFail (hpos : 0 < permits) {err : RustytreeError}
    (h : CanFail store glob fuel rootPath recursive err) :
    Reported E store glob fuel rootPath recursive permits err := by
  rcases h with ⟨rfl, hfails⟩ | ⟨paths, hpaths, path, hmem, hopen⟩
  · exact (reaches_discover (reaches_of_fails hpos hfails)).tail .notDiscovered
  · have hopening := reaches_all_opening (E := E) hpos hpaths
    obtain ⟨pre, post, rfl⟩ := List.append_of_mem hmem
    rw [List.map_append, List.map_cons] at hopening
    exact hopening.trans (reaches_openFails hopen)

/-- The states of the descent are those of its tasks. -/
theorem reaches_discovering {start s : State Str RustytreeError}
    (h : Reaches (WalkStep E store) (.discovering start) (.discovering s)) : Reaches Step start s := by
  have hinv := invariant (I := fun t => ∀ s, t = WalkState.discovering s → Reaches Step start s) h ?_ ?_
  · exact hinv s rfl
  · intro s hs
    cases hs
    exact .refl
  · rintro t t' ih hst s rfl
    cases hst with
    | discover hstep => exact (ih _ rfl).tail hstep

/-- With a permit for every task of the descent none of them waits for one. -/
theorem discovering_waits (hpermits : recursive = true → (discoverJob store glob fuel rootPath).forks + 1 ≤ permits)
    {s : State Str RustytreeError}
    (h : Reaches (WalkStep E store) (walkStart store glob fuel rootPath recursive permits) (.discovering s)) :
    s.task.waits ≤ s.free := by
  unfold walkStart at h
  cases recursive with
  | true => exact waits_le_free (hpermits rfl) (reaches_discovering h)
  | false =>
    have hnever := invariant (I := fun t => ∀ s, t ≠ WalkState.discovering s) h nofun ?_
    · exact absurd rfl (hnever s)
    · rintro t t' ih hst s rfl
      cases hst with
      | discover hstep => exact ih _ rfl

theorem mapGroupOpenErr_notFound {path : Str} {ctx text : String} {openErr : GroupCreateError}
    (h : mapGroupOpenErr path ctx openErr = .notFound text) :
    openErr = .missingMetadata ∧ text = s!"group {shown path} not found in store" := by
  cases openErr with
  | missingMetadata => exact ⟨rfl, (RustytreeError.notFound.inj h).symm⟩
  | other display => cases h

/-- Only a group without metadata is reported as not found, and by its path. -/
theorem requestFails_notFound {text : String}
    (h : RequestFails store glob fuel rootPath recursive (.notFound text)) :
    ∃ path, store.groupOpen path = .error .missingMetadata ∧ text = s!"group {shown path} not found in store" := by
  rcases h with ⟨-, path, -, hvisit⟩ | ⟨-, -, path, -, hfails⟩
  · unfold visitError at hvisit
    cases hopen : store.groupOpen path with
    | error openErr =>
      simp only [hopen, Option.some.injEq] at hvisit
      obtain ⟨rfl, htext⟩ := mapGroupOpenErr_notFound hvisit
      exact ⟨path, hopen, htext⟩
    | ok attributes =>
      simp only [hopen] at hvisit
      split at hvisit <;> cases hvisit
  · unfold OpenFails ArraysFail at hfails
    cases hopen : store.groupOpen path with
    | error openErr =>
      simp only [hopen] at hfails
      obtain ⟨rfl, htext⟩ := mapGroupOpenErr_notFound hfails.symm
      exact ⟨path, hopen, htext⟩
    | ok attributes =>
      simp only [hopen] at hfails
      split at hfails
      · cases hfails
      · obtain ⟨_, -, _, -, hother⟩ := hfails
        cases hother

/-- For every store whose descent ends, and for any `max_concurrency`: a walk
reports only errors of its own requests. With a permit for every task of the
descent no task ever waits for one, and each of these errors is reported in some
run. One that becomes a `KeyError` is of a group without metadata, and names it.
The sequential walk ends with the error of a request, and where it succeeds no
run reports an error. -/
theorem walk_reports (hends : recursive = true → DescentEnds store glob fuel rootPath)
    (maxConcurrency : Option Nat) :
    (∀ err, Reported E store glob fuel rootPath recursive (semaphorePermits maxConcurrency) err →
      RequestFails store glob fuel rootPath recursive err) ∧
    ((recursive = true → (discoverJob store glob fuel rootPath).forks + 1 ≤ semaphorePermits maxConcurrency) →
      (∀ s, Reaches (WalkStep E store)
          (walkStart store glob fuel rootPath recursive (semaphorePermits maxConcurrency)) (.discovering s) →
        s.task.waits ≤ s.free) ∧
      ∀ err, RequestFails store glob fuel rootPath recursive err →
        Reported E store glob fuel rootPath recursive (semaphorePermits maxConcurrency) err) ∧
    (∀ err, Reported E store glob fuel rootPath recursive (semaphorePermits maxConcurrency) err →
      err.toPyErr.isKeyError = true → ∃ path, store.groupOpen path = .error .missingMetadata ∧
        err = .notFound s!"group {shown path} not found in store") ∧
    (∀ err, walkViaZarrs (E := E) fuel store rootPath recursive glob = .error err →
      RequestFails store glob fuel rootPath recursive err) ∧
    ∀ nodes : List (NodeData J E), walkViaZarrs fuel store rootPath recursive glob = .ok nodes →
      ∀ err, ¬ Reported E store glob fuel rootPath recursive (semaphorePermits maxConcurrency) err := by
  refine ⟨?_, ?_, ?_, ?_, ?_⟩
  · intro err hreported
    exact (canFail_iff hends).1 (canFail_of_reported hreported)
  · intro hpermits
    refine ⟨fun s => discovering_waits hpermits, fun err hfails => ?_⟩
    exact reported_of_canFail (semaphorePermits_pos maxConcurrency) ((canFail_iff hends).2 hfails)
  · intro err hreported hkey
    obtain ⟨text, rfl⟩ := err.toPyErr_isKeyError.1 hkey
    obtain ⟨path, hmissing, rfl⟩ := requestFails_notFound ((canFail_iff hends).1 (canFail_of_reported hreported))
    exact ⟨path, hmissing, rfl⟩
  · intro err hwalk
    exact (canFail_iff hends).1 (canFail_of_walkViaZarrs hwalk)
  · intro nodes hwalk err hreported
    exact walkViaZarrs_of_canFail (canFail_of_reported hreported) hwalk

end

/-! ## A store with two faults -/

/-- The root lists two groups: one does not answer, the other is not there. -/
def faultyStore : ZarrsStore Nat where
  groupOpen path :=
    if path = "/".toList then .ok []
    else if path = "/a".toList then .error (.other "timeout")
    else .error .missingMetadata
  childGroupPaths _ := .ok ["/a".toList, "/b".toList]
  childArrayPaths _ := .ok []
  arrayOpen _ := .error "no such array"

theorem faultyStore_ends : DescentEnds faultyStore none 2 "/".toList := by
  intro attributes childPaths _ hlist child hchild attributes' childPaths' hopen
  cases hlist
  -- Neither child opens.
  have hnot : ∀ child ∈ ["/a".toList, "/b".toList], faultyStore.groupOpen child ≠ .ok attributes' := by
    simp [faultyStore]
  exact absurd hopen (hnot child (List.mem_filter.1 hchild).1)

/-- Read in order the store does not answer; in another order Python sees a `KeyError`. -/
theorem walk_reports_faulty :
    discoverPaths faultyStore none 2 "/".toList = .error (.other "failed to open group /a during walk: timeout") ∧
    Reported Unit faultyStore none 2 "/".toList true (semaphorePermits (some 3))
      (.notFound "group /b not found in store") := by
  have hends : true = true → DescentEnds faultyStore none 2 "/".toList := fun _ => faultyStore_ends
  have hvisited : Visited faultyStore none "/".toList "/b".toList := .child .root rfl rfl (by decide) rfl
  refine ⟨by decide, ((walk_reports (E := Unit) hends (some 3)).2.1 fun _ => by decide).2 _ ?_⟩
  exact .inl ⟨rfl, "/b".toList, hvisited, by decide⟩

end Rustytree
