import Rustytree.DatetimeDtype
import Rustytree.DatetimePatch
/-!
# Calls of the installed function (`patched` and its `original`)

Where decoding two zeros raises, a context's `patched` calls the function that
its context had read: xarray's, or the `patched` of another context, which may
have left long ago. However contexts interleave, these fallbacks lead back to
xarray's function, and a call ends as under one patch or under none.
-/

namespace Rustytree.DatetimePatch
open DatetimeDtype Lib.Runs

/-! ## The source -/

/-- The module attribute, the contexts, and the `original` in the closure of each
context's `patched`, which outlives the context. -/
structure Closures where
  state : Module
  original : Nat → Option Decoder

/-- A step; a context that enters has its `original` fixed by it. -/
def ClosureStep (s t : Closures) : Prop :=
  Step s.state t.state ∧
    ∀ c, t.original c = if s.state.stage c = .outside then (t.state.stage c).saved else s.original c

def closuresStart (present : Bool) : Closures := ⟨start present, fun _ => none⟩

/-- A call of a decoder, with at most `depth` functions on the stack; `none`
if that many do not suffice. -/
def call (xtimes : Xarray) (original : Nat → Option Decoder) (data : TimeVariable) (args : DecodeArgs) :
    Nat → Decoder → Option (Except String NpDtype)
  | 0, _ => none
  | _ + 1, .original => some (xtimes.decodeCfDatetimeDtype data args)
  | depth + 1, .patched c =>
    match xtimes.decodeCfDatetime (zeros data.dtype) args with
    | .ok result => some (.ok (result.getD .object))
    | .error _ =>
      match original c with
      | none => none
      | some f => call xtimes original data args depth f

/-! ## Chains of fallbacks -/

/-- The fallbacks lead from the decoder to xarray's function, in so many steps. -/
inductive Resolves (original : Nat → Option Decoder) : Decoder → Nat → Prop
  | original : Resolves original .original 0
  | patched {c : Nat} {f : Decoder} {n : Nat} :
      original c = some f → Resolves original f n → Resolves original (.patched c) (n + 1)

/-- More closures do not lengthen a chain. -/
theorem Resolves.mono {original original' : Nat → Option Decoder} {f : Decoder} {n : Nat} (h : Resolves original f n)
    (hmore : ∀ c f, original c = some f → original' c = some f) : Resolves original' f n := by
  induction h with
  | original => exact .original
  | patched hc _ ih => exact .patched (hmore _ _ hc) ih

/-- A chain that ends bounds the stack of a call, and the call ends as xarray's
function or as one patch of it. -/
theorem call_of_resolves {original : Nat → Option Decoder} {f : Decoder} {n : Nat} (h : Resolves original f n)
    (xtimes : Xarray) (data : TimeVariable) (args : DecodeArgs) {depth : Nat} (hdepth : n < depth) :
    call xtimes original data args depth f =
      some (if f = .original then xtimes.decodeCfDatetimeDtype data args else patched xtimes data args) := by
  induction h generalizing depth with
  | original =>
    obtain ⟨depth, rfl⟩ := Nat.exists_eq_succ_of_ne_zero (Nat.ne_of_gt hdepth)
    rfl
  | @patched c f n hc _ ih =>
    obtain ⟨depth, rfl⟩ := Nat.exists_eq_succ_of_ne_zero (Nat.ne_of_gt (Nat.lt_of_le_of_lt (Nat.zero_le _) hdepth))
    rw [call, if_neg (by simp)]
    cases hzeros : xtimes.decodeCfDatetime (zeros data.dtype) args with
    | ok result => simp only [patched, hzeros]
    | error err =>
      -- Every patch on the way raises on the same zeros and falls back.
      have hpatched : patched xtimes data args = xtimes.decodeCfDatetimeDtype data args := by rw [patched, hzeros]
      have hrest := ih (Nat.lt_of_succ_lt_succ hdepth)
      simp only [hpatched, ite_self] at hrest ⊢
      simp only [hc, hrest]

/-! ## The closures of a run -/

/-- Every closure's fallbacks lead to xarray's function, over no more patches than
contexts have entered, and no function is installed or saved but these. -/
structure Linked (s : Closures) : Prop where
  fresh : ∀ c, s.state.stage c = .outside → s.original c = none
  saved : ∀ c f, (s.state.stage c).saved = some f → s.original c = some f
  slot : ∀ c, s.state.slot = some (.patched c) → (s.original c).isSome
  resolves : ∃ entered : Finset Nat, (∀ c, c ∈ entered ↔ (s.original c).isSome) ∧
    ∀ c ∈ entered, ∃ n ≤ entered.card, Resolves s.original (.patched c) n

theorem linked_start (present : Bool) : Linked (closuresStart present) where
  fresh c _ := rfl
  saved c f h := by cases h
  slot c h := by cases present <;> cases h
  resolves := ⟨∅, by simp [closuresStart], by simp⟩

/-- What a closure falls back to is linked as well. -/
theorem Linked.original_isSome {s : Closures} (hs : Linked s) {c d : Nat} (h : s.original c = some (.patched d)) :
    (s.original d).isSome := by
  obtain ⟨entered, hentered, hresolves⟩ := hs.resolves
  obtain ⟨n, -, hchain⟩ := hresolves c ((hentered c).2 (by rw [h]; rfl))
  cases hchain with
  | patched hc hrest =>
    rw [h] at hc
    cases hc
    cases hrest with
    | patched hd _ => rw [hd]; rfl

/-- A step that takes no context in leaves the closures as they are. -/
theorem linked_goes {s : Closures} (hs : Linked s) {c : Nat} {stage : Stage} {slot : Option Decoder}
    {original : Nat → Option Decoder}
    (horiginal : ∀ d, original d = if s.state.stage d = .outside
      then (({ s.state.goes c stage with slot := slot } : Module).stage d).saved else s.original d)
    (hstage : stage ≠ .outside) (hsaved : ∀ f, stage.saved = some f → s.original c = some f)
    (hslot : ∀ d, slot = some (.patched d) → (s.original d).isSome) :
    Linked ⟨{ s.state.goes c stage with slot := slot }, original⟩ := by
  have hsame : original = s.original := by
    funext d
    rw [horiginal]
    split
    next houtside =>
      rw [hs.fresh d houtside]
      by_cases hd : d = c
      · subst hd
        rw [Option.eq_none_iff_forall_ne_some]
        intro f hf
        have hnone := hs.fresh d houtside
        rw [hsaved f (by simpa using hf)] at hnone
        cases hnone
      · simp only [goes_of_ne _ hd, houtside, Stage.saved]
    next => rfl
  subst hsame
  refine ⟨?_, ?_, hslot, hs.resolves⟩
  · intro d houtside
    by_cases hd : d = c
    · subst hd
      exact absurd (by simpa using houtside) hstage
    · exact hs.fresh d (by simpa [goes_of_ne _ hd] using houtside)
  · intro d f hf
    by_cases hd : d = c
    · subst hd
      exact hsaved f (by simpa using hf)
    · exact hs.saved d f (by simpa [goes_of_ne _ hd] using hf)

/-- A context that enters adds its own closure to the front of a chain. -/
theorem linked_read {s : Closures} (hs : Linked s) {c : Nat} {f : Decoder} {original : Nat → Option Decoder}
    (horiginal : ∀ d, original d = if s.state.stage d = .outside
      then ((s.state.goes c (.read f)).stage d).saved else s.original d)
    (houtside : s.state.stage c = .outside) (hslot : s.state.slot = some f) :
    Linked ⟨s.state.goes c (.read f), original⟩ := by
  have hc : original c = some f := by rw [horiginal, if_pos houtside, goes_self]; rfl
  have hother : ∀ d, d ≠ c → original d = s.original d := by
    intro d hd
    rw [horiginal]
    split
    next h => rw [goes_of_ne _ hd, h, hs.fresh d h]; rfl
    next => rfl
  have hnone := hs.fresh c houtside
  have hmore : ∀ d g, s.original d = some g → original d = some g := by
    intro d g h
    rw [hother d, h]
    rintro rfl
    rw [hnone] at h
    cases h
  refine ⟨?_, ?_, ?_, ?_⟩
  · intro d hd
    have hdc : d ≠ c := by
      rintro rfl
      simp at hd
    have hout : s.state.stage d = .outside := by simpa [goes_of_ne _ hdc] using hd
    exact (hother d hdc).trans (hs.fresh d hout)
  · intro d g hg
    by_cases hd : d = c
    · subst hd
      have hfg : some f = some g := by simpa [Stage.saved] using hg
      exact hc.trans hfg
    · exact hmore d g (hs.saved d g (by simpa [goes_of_ne _ hd] using hg))
  · intro d hd
    obtain ⟨g, hg⟩ := Option.isSome_iff_exists.1 (hs.slot d hd)
    exact Option.isSome_iff_exists.2 ⟨g, hmore d g hg⟩
  · obtain ⟨entered, hentered, hresolves⟩ := hs.resolves
    have hnew : c ∉ entered := by
      rw [hentered, hnone]
      simp
    refine ⟨insert c entered, ?_, ?_⟩
    · intro d
      rw [Finset.mem_insert, hentered]
      by_cases hd : d = c
      · simp [hd, hc]
      · simp [hd, hother d hd]
    · rw [Finset.card_insert_of_notMem hnew]
      intro d hd
      rcases Finset.mem_insert.1 hd with rfl | hd
      · cases f with
        | original => exact ⟨1, by omega, .patched hc .original⟩
        | patched e =>
          obtain ⟨n, hn, hchain⟩ := hresolves e ((hentered e).2 (hs.slot e hslot))
          exact ⟨n + 1, by omega, .patched hc (hchain.mono hmore)⟩
      · obtain ⟨n, hn, hchain⟩ := hresolves d hd
        exact ⟨n, by omega, hchain.mono hmore⟩

theorem linked_step {s t : Closures} (hs : Linked s) (h : ClosureStep s t) : Linked t := by
  obtain ⟨hstep, horiginal⟩ := h
  obtain ⟨state, original⟩ := t
  cases hstep with
  | read houtside hslot => exact linked_read hs horiginal houtside hslot
  | skip => exact linked_goes hs horiginal (by simp) (by simp [Stage.saved]) hs.slot
  | @install c f hread =>
    have hc : s.original c = some f := hs.saved c f (by rw [hread]; rfl)
    refine linked_goes hs horiginal (by simp) ?_ ?_
    · rintro g ⟨⟩
      exact hc
    · rintro d ⟨⟩
      rw [hc]
      rfl
  | @body c f hinstalled =>
    refine linked_goes hs horiginal (by simp) ?_ hs.slot
    rintro g ⟨⟩
    exact hs.saved c f (by rw [hinstalled]; rfl)
  | @restore c f hran =>
    refine linked_goes hs horiginal (by simp) (by simp [Stage.saved]) ?_
    rintro d ⟨⟩
    exact hs.original_isSome (hs.saved c (.patched d) (by rw [hran]; rfl))
  | leave => exact linked_goes hs horiginal (by simp) (by simp [Stage.saved]) hs.slot

/-- In every state that contexts can come to, however they interleave, a call of the
installed function ends, with no more functions on the stack than contexts have
entered and one, as xarray's function does or as one patch of it does. -/
theorem installed_call_ends {present : Bool} {s : Closures} (h : Reaches ClosureStep (closuresStart present) s)
    {f : Decoder} (hf : s.state.slot = some f) (xtimes : Xarray) (data : TimeVariable) (args : DecodeArgs) :
    ∃ entered : Finset Nat, (∀ c ∈ entered, s.state.stage c ≠ .outside) ∧
      ∀ depth, entered.card < depth → call xtimes s.original data args depth f =
        some (if f = .original then xtimes.decodeCfDatetimeDtype data args else patched xtimes data args) := by
  have hs : Linked s := invariant h (linked_start present) fun _ _ => linked_step
  obtain ⟨entered, hentered, hresolves⟩ := hs.resolves
  refine ⟨entered, ?_, ?_⟩
  · intro c hc houtside
    rw [hentered, hs.fresh c houtside] at hc
    cases hc
  · intro depth hdepth
    cases f with
    | original => exact call_of_resolves .original xtimes data args (Nat.lt_of_le_of_lt (Nat.zero_le _) hdepth)
    | patched c =>
      obtain ⟨n, hn, hchain⟩ := hresolves c ((hentered c).2 (hs.slot c hf))
      exact call_of_resolves hchain xtimes data args (Nat.lt_of_le_of_lt hn hdepth)

/-! ## A patch left behind -/

/-- The next step of context `c`, with the closures. -/
def Closures.next (s : Closures) (c : Nat) : Closures where
  state := s.state.next c
  original d := if s.state.stage d = .outside then ((s.state.next c).stage d).saved else s.original d

theorem reaches_closures {s : Closures} {schedule : List Nat} (h : s.state.canRun schedule = true) :
    Reaches ClosureStep s (schedule.foldl Closures.next s) := by
  induction schedule generalizing s with
  | nil => exact .refl
  | cons c schedule ih =>
    rw [Module.canRun, Bool.and_eq_true, bne_iff_ne] at h
    have hstep : ClosureStep s (s.next c) := ⟨step_next h.1, fun _ => rfl⟩
    exact .head hstep (ih h.2)

/-- Contexts 0 and 1 overlap and leave; context 2 enters on the patch they left. -/
def thirdContext : Closures := [0, 0, 1, 1, 0, 0, 1, 1, 2, 2].foldl Closures.next (closuresStart true)

theorem installed_call_ends_third :
    ∃ entered : Finset Nat, (∀ c ∈ entered, thirdContext.state.stage c ≠ .outside) ∧
      ∀ depth, entered.card < depth →
        call xarrayTimes thirdContext.original (twoDays 30 (by decide)) (defaultArgs "months since 2000".toList) depth
            (.patched 2) =
          some (if Decoder.patched 2 = .original
            then xarrayTimes.decodeCfDatetimeDtype (twoDays 30 (by decide)) (defaultArgs "months since 2000".toList)
            else patched xarrayTimes (twoDays 30 (by decide)) (defaultArgs "months since 2000".toList)) := by
  have hrun : (closuresStart true).state.canRun [0, 0, 1, 1, 0, 0, 1, 1, 2, 2] = true := by decide
  have hslot : thirdContext.state.slot = some (.patched 2) := by decide
  exact installed_call_ends (reaches_closures hrun) hslot xarrayTimes _ _

/-- Units that do not decode are reported by xarray's function, behind two patches. -/
example : call xarrayTimes thirdContext.original (twoDays 30 (by decide)) (defaultArgs "months since 2000".toList) 3
    (.patched 2) = some (.error "unable to decode time units") := by rfl

end Rustytree.DatetimePatch
