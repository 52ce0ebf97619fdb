import Rustytree.Lib.Runs
/-!
# The datetime patch (`_metadata_only_datetime_dtype`)

Every context reads the module's `_decode_cf_datetime_dtype`, installs its own
function there, runs its body and writes back what it read. Contexts of
different threads interleave between these steps.

Only the context that leaves last decides what is left behind. It leaves the
attribute as it was exactly if that is what it had read; a context that entered
under another's patch and leaves after it leaves that patch behind.
-/

namespace Rustytree.DatetimePatch
open Lib.Runs

/-! ## The source -/

/-- A function `_decode_cf_datetime_dtype` can name: xarray's, or the `patched`
of a context. -/
inductive Decoder where
  | original
  | patched (context : Nat)
  deriving DecidableEq

/-- Where a context is. -/
inductive Stage where
  | outside
  | read (f : Decoder)
  | installed (f : Decoder)
  /-- The body has returned or raised; `finally` comes next. -/
  | ran (f : Decoder)
  /-- The attribute was missing: the context yields without a patch. -/
  | skipping
  | left
  deriving DecidableEq

/-- Between its first and its last step. -/
def Stage.active : Stage → Bool
  | .outside | .left => false
  | .read _ | .installed _ | .ran _ | .skipping => true

/-- The module attribute and the contexts. -/
structure Module where
  slot : Option Decoder
  stage : Nat → Stage

/-- Context `c` goes on to `stage`. -/
def Module.goes (s : Module) (c : Nat) (stage : Stage) : Module := { s with stage := Function.update s.stage c stage }

/-- One step of one context. -/
inductive Step : Module → Module → Prop
  | read {s : Module} {c : Nat} {f : Decoder} :
      s.stage c = .outside → s.slot = some f → Step s (s.goes c (.read f))
  | skip {s : Module} {c : Nat} : s.stage c = .outside → s.slot = none → Step s (s.goes c .skipping)
  | install {s : Module} {c : Nat} {f : Decoder} :
      s.stage c = .read f → Step s { s.goes c (.installed f) with slot := some (.patched c) }
  | body {s : Module} {c : Nat} {f : Decoder} : s.stage c = .installed f → Step s (s.goes c (.ran f))
  | restore {s : Module} {c : Nat} {f : Decoder} :
      s.stage c = .ran f → Step s { s.goes c .left with slot := some f }
  | leave {s : Module} {c : Nat} : s.stage c = .skipping → Step s (s.goes c .left)

/-- No context has started; the attribute is xarray's function, or missing. -/
def start (present : Bool) : Module := ⟨if present then some .original else none, fun _ => .outside⟩

/-- No context is between its first and its last step. -/
def Module.Idle (s : Module) : Prop := ∀ c, (s.stage c).active = false

/-! ## Who leaves last -/

/-- All contexts but `c` are outside or have left. -/
def Module.Alone (s : Module) (c : Nat) : Prop := ∀ d, d ≠ c → (s.stage d).active = false

/-- If the step is the write-back of the only active context, that context had
entered while no patch was installed: what it read (`exists_read`) is xarray's
function. -/
def ClosesClean (s t : Module) : Prop :=
  ∀ c f, s.stage c = .ran f → t.stage c = .left → s.Alone c → f = .original

@[simp] theorem goes_self (s : Module) (c : Nat) (stage : Stage) : (s.goes c stage).stage c = stage := by
  simp [Module.goes]

theorem goes_of_ne (s : Module) {c d : Nat} (h : d ≠ c) (stage : Stage) : (s.goes c stage).stage d = s.stage d := by
  simp [Module.goes, h]

theorem not_idle_goes (s : Module) {c : Nat} {stage : Stage} (h : stage.active = true) : ¬ (s.goes c stage).Idle := by
  intro hidle
  have hc := hidle c
  rw [goes_self, h] at hc
  cases hc

theorem idle_goes_left (s : Module) (c : Nat) : (s.goes c .left).Idle ↔ s.Alone c := by
  constructor
  · intro h d hd
    have hidle := h d
    rwa [goes_of_ne s hd] at hidle
  · intro h d
    by_cases hd : d = c
    · rw [hd, goes_self]
      rfl
    · rw [goes_of_ne s hd]
      exact h d hd

/-- A step other than a write-back closes nothing. -/
theorem closesClean_of {s t : Module} {c : Nat} {stage : Stage} (hstage : t.stage = (s.goes c stage).stage)
    (h : ∀ f, s.stage c = .ran f → stage ≠ .left) : ClosesClean s t := by
  intro d f hran hleft _
  rw [hstage] at hleft
  by_cases hd : d = c
  · subst hd
    rw [goes_self] at hleft
    exact absurd hleft (h f hran)
  · rw [goes_of_ne s hd, hran] at hleft
    cases hleft

/-! ## The missing attribute -/

/-- The function a context has read and not yet written back. -/
def Stage.saved : Stage → Option Decoder
  | .read f | .installed f | .ran f => some f
  | .outside | .skipping | .left => none

/-- The attribute stays present or stays missing, and contexts take the path for it. -/
structure Consistent (present : Bool) (s : Module) : Prop where
  slot : s.slot.isSome = present
  saved : ∀ c, (s.stage c).saved.isSome = true → present = true
  skipping : ∀ c, s.stage c = .skipping → present = false

theorem consistent_start (present : Bool) : Consistent present (start present) where
  slot := by cases present <;> rfl
  saved c h := by cases h
  skipping c h := by cases h

theorem consistent_goes {present : Bool} {s : Module} (hs : Consistent present s) {c : Nat} {stage : Stage}
    {value : Option Decoder} (hvalue : value.isSome = present) (hsaved : stage.saved.isSome = true → present = true)
    (hskipping : stage = .skipping → present = false) :
    Consistent present { s.goes c stage with slot := value } where
  slot := hvalue
  saved d h := by
    by_cases hd : d = c
    · subst hd
      exact hsaved (by simpa using h)
    · exact hs.saved d (by simpa [goes_of_ne s hd] using h)
  skipping d h := by
    by_cases hd : d = c
    · subst hd
      exact hskipping (by simpa using h)
    · exact hs.skipping d (by simpa [goes_of_ne s hd] using h)

theorem consistent_step {present : Bool} {s t : Module} (hs : Consistent present s) (h : Step s t) :
    Consistent present t := by
  cases h with
  | read _ hslot =>
    have hpresent : present = true := by rw [← hs.slot, hslot]; rfl
    exact consistent_goes hs hs.slot (fun _ => hpresent) (by simp)
  | skip _ hslot =>
    have hmissing : present = false := by rw [← hs.slot, hslot]; rfl
    exact consistent_goes hs hs.slot (by simp [Stage.saved]) (fun _ => hmissing)
  | @install c f hread =>
    have hpresent := hs.saved c (by rw [hread]; rfl)
    exact consistent_goes hs hpresent.symm (fun _ => hpresent) (by simp)
  | @body c f hinstalled =>
    have hpresent := hs.saved c (by rw [hinstalled]; rfl)
    exact consistent_goes hs hs.slot (fun _ => hpresent) (by simp)
  | @restore c f hran =>
    have hpresent := hs.saved c (by rw [hran]; rfl)
    exact consistent_goes hs hpresent.symm (by simp [Stage.saved]) (by simp)
  | leave => exact consistent_goes hs hs.slot (by simp [Stage.saved]) (by simp)

/-! ## What a context has read -/

/-- A step leaves what a context has read as it was, or is its read of the attribute. -/
theorem saved_step {s t : Module} (h : Step s t) {c : Nat} {f : Decoder} (hsaved : (t.stage c).saved = some f) :
    (s.stage c).saved = some f ∨ (s.stage c = .outside ∧ s.slot = some f ∧ t = s.goes c (.read f)) := by
  -- `stage` is where the context `d` that moves goes to.
  have hmoves : ∀ (d : Nat) (stage : Stage), t.stage = (s.goes d stage).stage →
      (d ≠ c ∧ (s.stage c).saved = some f) ∨ (d = c ∧ stage.saved = some f) := by
    intro d stage hstage
    rw [hstage] at hsaved
    by_cases hd : d = c
    · subst hd
      rw [goes_self] at hsaved
      exact .inr ⟨rfl, hsaved⟩
    · rw [goes_of_ne s (Ne.symm hd)] at hsaved
      exact .inl ⟨hd, hsaved⟩
  cases h with
  | @read d g houtside hslot =>
    rcases hmoves d (.read g) rfl with ⟨-, h⟩ | ⟨rfl, h⟩
    · exact .inl h
    · cases h
      exact .inr ⟨houtside, hslot, rfl⟩
  | @skip d =>
    rcases hmoves d .skipping rfl with ⟨-, h⟩ | ⟨-, h⟩
    · exact .inl h
    · cases h
  | @install d g hread =>
    rcases hmoves d (.installed g) rfl with ⟨-, h⟩ | ⟨rfl, h⟩
    · exact .inl h
    · exact .inl (hread ▸ h)
  | @body d g hinstalled =>
    rcases hmoves d (.ran g) rfl with ⟨-, h⟩ | ⟨rfl, h⟩
    · exact .inl h
    · exact .inl (hinstalled ▸ h)
  | @restore d =>
    rcases hmoves d .left rfl with ⟨-, h⟩ | ⟨-, h⟩
    · exact .inl h
    · cases h
  | @leave d =>
    rcases hmoves d .left rfl with ⟨-, h⟩ | ⟨-, h⟩
    · exact .inl h
    · cases h

/-- The function a context is to write back is the one that the attribute named
when it entered. -/
theorem exists_read {present : Bool} {s : Module} (h : Reaches Step (start present) s) {c : Nat} {f : Decoder}
    (hsaved : (s.stage c).saved = some f) :
    ∃ u, Reaches Step (start present) u ∧ u.stage c = .outside ∧ u.slot = some f ∧
      Reaches Step (u.goes c (.read f)) s := by
  induction h with
  | refl => cases hsaved
  | tail hreach hstep ih =>
    rcases saved_step hstep hsaved with hbefore | ⟨houtside, hslot, rfl⟩
    · obtain ⟨u, hu, houtside, hslot, hlater⟩ := ih hbefore
      exact ⟨u, hu, houtside, hslot, hlater.tail hstep⟩
    · exact ⟨_, hreach, houtside, hslot, .refl⟩

/-! ## What is left behind -/

/-- With no context active, the attribute is what it was before any started. -/
def Restored (present : Bool) (s : Module) : Prop := s.Idle → s.slot = (start present).slot

/-- A step into an active stage leaves nothing behind and closes nothing. -/
theorem restored_iff_of_active {present : Bool} {s : Module} {c : Nat} {stage : Stage} (h : stage.active = true)
    (value : Option Decoder) :
    Restored present { s.goes c stage with slot := value } ↔ ClosesClean s { s.goes c stage with slot := value } := by
  refine iff_of_true (fun hidle => absurd hidle (not_idle_goes s h)) (closesClean_of rfl fun f _ => ?_)
  rintro rfl
  cases h

/-- The write-back of the only active context decides what is left. -/
theorem restored_iff_of_restore {s : Module} {c : Nat} {f : Decoder} (hran : s.stage c = .ran f) :
    Restored true { s.goes c .left with slot := some f } ↔ ClosesClean s { s.goes c .left with slot := some f } := by
  constructor
  · intro h d g hran' hleft halone
    have hdc : d = c := by
      by_contra hd
      have hstay := goes_of_ne s hd .left
      rw [hran'] at hstay
      exact absurd (hstay.symm.trans hleft) (by simp)
    subst hdc
    cases hran.symm.trans hran'
    exact Option.some.inj (h ((idle_goes_left s d).2 halone))
  · intro h hidle
    exact congrArg some (h c f hran (goes_self s c .left) ((idle_goes_left s c).1 hidle))

/-- A step leaves the attribute restored exactly if it closes clean. -/
theorem restored_step_iff {present : Bool} {s t : Module} (hs : Consistent present s) (h : Step s t) :
    Restored present t ↔ ClosesClean s t := by
  cases h with
  | read => exact restored_iff_of_active rfl s.slot
  | skip => exact restored_iff_of_active rfl s.slot
  | install => exact restored_iff_of_active rfl _
  | body => exact restored_iff_of_active rfl s.slot
  | @leave c hskipping =>
    -- The attribute was missing all along.
    have hmissing := hs.skipping c hskipping
    have hslot : s.slot.isSome = false := hs.slot.trans hmissing
    subst hmissing
    have hclean : ClosesClean s (s.goes c .left) := closesClean_of (c := c) rfl fun f hran => by
      rw [hskipping] at hran
      cases hran
    exact iff_of_true (fun _ => by simpa [start, Module.goes] using hslot) hclean
  | @restore c f hran =>
    have hpresent : present = true := hs.saved c (by rw [hran]; rfl)
    subst hpresent
    exact restored_iff_of_restore hran

/-- In every run, the attribute is what it was before any context started in
every state without an active context, exactly if every context that leaves last
had entered while no patch was installed. -/
theorem restored_iff_closesClean (present : Bool) {run : List Module} (h : (start present :: run).IsChain Step) :
    (∀ s ∈ run, Restored present s) ↔ (start present :: run).IsChain ClosesClean := by
  -- The induction needs an arbitrary first state, of which only consistency is known.
  have hstart := consistent_start present
  generalize start present = s at h hstart
  induction run generalizing s with
  | nil => simp
  | cons t run ih =>
    obtain ⟨hst, hrun⟩ := List.isChain_cons_cons.1 h
    rw [List.forall_mem_cons, List.isChain_cons_cons]
    exact and_congr (restored_step_iff hstart hst) (ih t hrun (consistent_step hstart hst))

/-! ## Schedules -/

/-- The next step of context `c`. -/
def Module.next (s : Module) (c : Nat) : Module :=
  match s.stage c with
  | .outside =>
    match s.slot with
    | some f => s.goes c (.read f)
    | none => s.goes c .skipping
  | .read f => { s.goes c (.installed f) with slot := some (.patched c) }
  | .installed f => s.goes c (.ran f)
  | .ran f => { s.goes c .left with slot := some f }
  | .skipping => s.goes c .left
  | .left => s

/-- The states a schedule of contexts goes through. -/
def Module.trace (s : Module) : List Nat → List Module
  | [] => []
  | c :: schedule => s.next c :: (s.next c).trace schedule

/-- No context is scheduled after it has left. -/
def Module.canRun (s : Module) : List Nat → Bool
  | [] => true
  | c :: schedule => s.stage c != .left && (s.next c).canRun schedule

theorem step_next {s : Module} {c : Nat} (h : s.stage c ≠ .left) : Step s (s.next c) := by
  unfold Module.next
  cases hc : s.stage c with
  | outside =>
    cases hslot : s.slot with
    | some f => exact .read hc hslot
    | none => exact .skip hc hslot
  | read f => exact .install hc
  | installed f => exact .body hc
  | ran f => exact .restore hc
  | skipping => exact .leave hc
  | left => exact absurd hc h

/-- A step of one context does not touch another. -/
theorem next_stage_of_ne (s : Module) {c d : Nat} (h : d ≠ c) : (s.next c).stage d = s.stage d := by
  unfold Module.next
  cases s.stage c with
  | outside => cases s.slot <;> exact goes_of_ne s h _
  | left => rfl
  | _ => exact goes_of_ne s h _

theorem trace_isChain {s : Module} {schedule : List Nat} (h : s.canRun schedule = true) :
    (s :: s.trace schedule).IsChain Step := by
  induction schedule generalizing s with
  | nil => exact .singleton s
  | cons c schedule ih =>
    rw [Module.canRun, Bool.and_eq_true, bne_iff_ne] at h
    exact .cons_cons (step_next h.1) (ih h.2)

theorem reaches_schedule {s : Module} {schedule : List Nat} (h : s.canRun schedule = true) :
    Reaches Step s (schedule.foldl Module.next s) := by
  induction schedule generalizing s with
  | nil => exact .refl
  | cons c schedule ih =>
    rw [Module.canRun, Bool.and_eq_true, bne_iff_ne] at h
    exact .head (step_next h.1) (ih h.2)

/-- Two contexts, one inside the other. -/
theorem restored_nested :
    (∀ s ∈ (start true).trace [0, 0, 1, 1, 1, 1, 0, 0], Restored true s) ↔
      (start true :: (start true).trace [0, 0, 1, 1, 1, 1, 0, 0]).IsChain ClosesClean :=
  restored_iff_closesClean true (trace_isChain (by decide))

/-- Two contexts that overlap: the second leaves the first one's patch behind. -/
theorem patch_left_behind :
    ∃ s, Reaches Step (start true) s ∧ s.Idle ∧ s.slot = some (.patched 0) := by
  have hrun : (start true).canRun [0, 0, 1, 1, 0, 0, 1, 1] = true := by decide
  refine ⟨_, reaches_schedule hrun, fun c => ?_, by decide⟩
  by_cases h0 : c = 0
  · subst h0
    decide
  by_cases h1 : c = 1
  · subst h1
    decide
  · simp only [List.foldl, next_stage_of_ne _ h0, next_stage_of_ne _ h1]
    rfl

/-! ## Contexts that nest -/

/-- A step that keeps contexts nested: only the innermost context leaves. The
list holds the active contexts, the innermost first. -/
inductive NestedStep : Module × List Nat → Module × List Nat → Prop
  | enter {s : Module} {stack : List Nat} {c : Nat} :
      s.stage c = .outside → NestedStep (s, stack) (s.next c, c :: stack)
  | inside {s : Module} {stack : List Nat} {c : Nat} {f : Decoder} :
      s.stage c = .read f ∨ s.stage c = .installed f → NestedStep (s, stack) (s.next c, stack)
  | exit {s : Module} {stack : List Nat} {c : Nat} {f : Decoder} :
      s.stage c = .ran f → NestedStep (s, c :: stack) (s.next c, stack)

theorem NestedStep.step {s t : Module} {stack stack' : List Nat} (h : NestedStep (s, stack) (t, stack')) :
    Step s t := by
  cases h with
  | enter houtside => exact step_next (by simp [houtside])
  | inside hinside => exact step_next (by rcases hinside with h | h <;> simp [h])
  | exit hran => exact step_next (by simp [hran])

/-- The outermost context holds xarray's function; without one it is in place. -/
def Anchored (s : Module) (stack : List Nat) : Prop :=
  match stack.getLast? with
  | none => s.slot = some .original
  | some c => (s.stage c).saved = some .original

/-- The list holds the active contexts, and the outermost one is anchored. -/
structure Nested (s : Module) (stack : List Nat) : Prop where
  active : ∀ c, (s.stage c).active = true ↔ c ∈ stack
  nodup : stack.Nodup
  anchored : Anchored s stack

theorem nested_start : Nested (start true) [] where
  active c := by simp [start, Stage.active]
  nodup := List.nodup_nil
  anchored := rfl

/-- A step inside a context keeps what it has read. -/
theorem next_inside {s : Module} {c : Nat} {f : Decoder} (h : s.stage c = .read f ∨ s.stage c = .installed f) :
    ((s.next c).stage c).saved = (s.stage c).saved ∧ ((s.next c).stage c).active = true ∧
      (s.stage c).active = true := by
  rcases h with h | h
  · simp [Module.next, h, Module.goes, Stage.saved, Stage.active]
  · simp [Module.next, h, Module.goes, Stage.saved, Stage.active]

theorem active_next {s : Module} {c : Nat} {stack stack' : List Nat}
    (hs : ∀ d, (s.stage d).active = true ↔ d ∈ stack) (hc : ((s.next c).stage c).active = true ↔ c ∈ stack')
    (hother : ∀ d, d ≠ c → (d ∈ stack' ↔ d ∈ stack)) (d : Nat) :
    ((s.next c).stage d).active = true ↔ d ∈ stack' := by
  by_cases hd : d = c
  · exact hd ▸ hc
  · rw [next_stage_of_ne s hd, hs d, hother d hd]

/-- What is anchored at the outermost context stays so while its saved function does. -/
theorem anchored_congr {s t : Module} {stack : List Nat} (hne : stack ≠ [])
    (h : ∀ b ∈ stack, (t.stage b).saved = (s.stage b).saved) : Anchored t stack ↔ Anchored s stack := by
  obtain ⟨b, hlast⟩ : ∃ b, stack.getLast? = some b := ⟨_, List.getLast?_eq_some_getLast hne⟩
  unfold Anchored
  simp only [hlast, h b (List.mem_of_getLast? hlast)]

/-- A context inside others does not become the outermost one. -/
theorem anchored_cons {s : Module} {stack : List Nat} (hne : stack ≠ []) (c : Nat) :
    Anchored s (c :: stack) ↔ Anchored s stack := by
  unfold Anchored
  rw [List.getLast?_cons, List.getLast?_eq_some_getLast hne, Option.getD_some]

theorem anchored_next {s : Module} {c : Nat} {stack : List Nat} (hnot : c ∉ stack) (hne : stack ≠ []) :
    Anchored (s.next c) stack ↔ Anchored s stack := by
  apply anchored_congr hne
  intro b hb
  have hbc : b ≠ c := by
    rintro rfl
    exact hnot hb
  rw [next_stage_of_ne s hbc]

theorem nested_enter {s : Module} {stack : List Nat} {c : Nat} (hs : Nested s stack) (houtside : s.stage c = .outside) :
    Nested (s.next c) (c :: stack) := by
  have hnew : c ∉ stack := by
    intro hc
    have hactive := (hs.active c).2 hc
    rw [houtside] at hactive
    cases hactive
  have hstage : ((s.next c).stage c).active = true := by
    cases hslot : s.slot <;> simp [Module.next, houtside, hslot, Module.goes, Stage.active]
  refine ⟨active_next hs.active (by simp [hstage]) fun d hd => by simp [hd], List.nodup_cons.2 ⟨hnew, hs.nodup⟩, ?_⟩
  by_cases hnil : stack = []
  · -- The context enters alone and reads xarray's function.
    subst hnil
    have hslot : s.slot = some .original := hs.anchored
    simp [Anchored, Module.next, houtside, hslot, Module.goes, Stage.saved]
  · exact (anchored_cons hnil c).2 ((anchored_next hnew hnil).2 hs.anchored)

theorem nested_inside {s : Module} {stack : List Nat} {c : Nat} {f : Decoder} (hs : Nested s stack)
    (hinside : s.stage c = .read f ∨ s.stage c = .installed f) : Nested (s.next c) stack := by
  obtain ⟨hsaved, hactive, hbefore⟩ := next_inside hinside
  have hin : c ∈ stack := (hs.active c).1 hbefore
  refine ⟨active_next hs.active (by simp [hactive, hin]) fun d _ => Iff.rfl, hs.nodup, ?_⟩
  refine (anchored_congr (List.ne_nil_of_mem hin) fun b _ => ?_).2 hs.anchored
  by_cases hbc : b = c
  · rw [hbc, hsaved]
  · rw [next_stage_of_ne s hbc]

theorem nested_exit {s : Module} {stack : List Nat} {c : Nat} {f : Decoder} (hs : Nested s (c :: stack))
    (hran : s.stage c = .ran f) : Nested (s.next c) stack := by
  obtain ⟨hnot, hnodup⟩ := List.nodup_cons.1 hs.nodup
  have hstage : (s.next c).stage c = .left := by simp [Module.next, hran, Module.goes]
  refine ⟨active_next hs.active (by simp [hstage, hnot, Stage.active]) fun d hd => by simp [hd], hnodup, ?_⟩
  by_cases hnil : stack = []
  · -- The outermost context leaves and writes xarray's function back.
    subst hnil
    have hanchored := hs.anchored
    have hf : f = .original := by simpa [Anchored, hran, Stage.saved] using hanchored
    subst hf
    simp [Anchored, Module.next, hran]
  · exact (anchored_next hnot hnil).2 ((anchored_cons hnil c).1 hs.anchored)

theorem nested_step {s t : Module} {stack stack' : List Nat} (hs : Nested s stack)
    (h : NestedStep (s, stack) (t, stack')) : Nested t stack' := by
  cases h with
  | enter houtside => exact nested_enter hs houtside
  | inside hinside => exact nested_inside hs hinside
  | exit hran => exact nested_exit hs hran

/-- Where contexts nest, the only active one is the outermost, and has read xarray's function. -/
theorem Nested.closesClean {s t : Module} {stack : List Nat} (hs : Nested s stack) : ClosesClean s t := by
  intro c f hran _ halone
  have hin : c ∈ stack := (hs.active c).1 (by rw [hran]; rfl)
  obtain ⟨b, hlast⟩ : ∃ b, stack.getLast? = some b :=
    ⟨_, List.getLast?_eq_some_getLast (List.ne_nil_of_mem hin)⟩
  have hbc : b = c := by
    by_contra hne
    have hactive := (hs.active b).2 (List.mem_of_getLast? hlast)
    rw [halone b hne] at hactive
    cases hactive
  have hanchored := hs.anchored
  simp only [Anchored, hlast, hbc, hran, Stage.saved, Option.some.injEq] at hanchored
  exact hanchored

/-- Contexts that only nest or follow one another meet the condition at every
step, and so leave the attribute as it was. -/
theorem nested_restored {s : Module} {stack : List Nat} (h : Reaches NestedStep (start true, []) (s, stack)) :
    Restored true s := by
  have hinv : Consistent true s ∧ Nested s stack ∧ Restored true s :=
    invariant (I := fun u => Consistent true u.1 ∧ Nested u.1 u.2 ∧ Restored true u.1) h
      ⟨consistent_start true, nested_start, fun _ => rfl⟩
      fun u v hu huv => by
        obtain ⟨hconsistent, hnested, -⟩ := hu
        have hrestored := (restored_step_iff hconsistent huv.step).2 hnested.closesClean
        exact ⟨consistent_step hconsistent huv.step, nested_step hnested huv, hrestored⟩
  exact hinv.2.2

end Rustytree.DatetimePatch
