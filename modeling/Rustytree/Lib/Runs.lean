import Mathlib
/-!
# Runs of a step relation

Invariants hold along runs, a measure that every step decreases makes every run
finite, and a system that can move whenever it is not final reaches a final
state.
-/

namespace Lib.Runs
open Relation

variable {σ : Type} {step : σ → σ → Prop}

/-- Reached by finitely many steps. -/
abbrev Reaches (step : σ → σ → Prop) : σ → σ → Prop := ReflTransGen step

/-- What holds at first and is kept by every step holds in every state reached. -/
theorem invariant {I : σ → Prop} {s t : σ} (h : Reaches step s t) (h0 : I s)
    (hstep : ∀ s t, I s → step s t → I t) : I t := by
  induction h with
  | refl => exact h0
  | tail _ hst ih => exact hstep _ _ ih hst

/-- A function of the state that no step changes. -/
theorem constant {β : Type} {f : σ → β} {s t : σ} (h : Reaches step s t) (hstep : ∀ s t, step s t → f t = f s) :
    f t = f s :=
  invariant (I := fun u => f u = f s) h rfl fun u v hu huv => (hstep u v huv).trans hu

/-- A measure that every step decreases rules infinite runs out. -/
theorem no_infinite_run {size : σ → Nat} (hstep : ∀ s t, step s t → size t < size s) (run : Nat → σ) :
    ¬ ∀ i, step (run i) (run (i + 1)) := by
  intro h
  have hbound : ∀ i, size (run i) + i ≤ size (run 0) := by
    intro i
    induction i with
    | zero => omega
    | succ i ih =>
      have := hstep _ _ (h i)
      omega
  have := hbound (size (run 0) + 1)
  omega

/-- The same for a measure in any well-founded order. -/
theorem no_infinite_descent {β : Type} [Preorder β] [WellFoundedLT β] (rank : σ → β)
    (hstep : ∀ s t, step s t → rank t < rank s) (run : Nat → σ) : ¬ ∀ i, step (run i) (run (i + 1)) := by
  intro h
  obtain ⟨-, ⟨i, rfl⟩, hmin⟩ := wellFounded_lt.has_min (Set.range fun i => rank (run i)) ⟨_, 0, rfl⟩
  exact hmin _ ⟨i + 1, rfl⟩ (hstep _ _ (h i))

/-- Where every step decreases a measure and only final states are stuck, a
final state is reached. -/
theorem reaches_final (I final : σ → Prop) (size : σ → Nat) (hsize : ∀ s t, step s t → size t < size s)
    (hstep : ∀ s t, I s → step s t → I t) (hmove : ∀ s, I s → ¬ final s → ∃ t, step s t) {s : σ} (hs : I s) :
    ∃ t, Reaches step s t ∧ I t ∧ final t := by
  induction hn : size s using Nat.strong_induction_on generalizing s with
  | _ n ih =>
    by_cases hf : final s
    · exact ⟨s, .refl, hs, hf⟩
    · obtain ⟨t, ht⟩ := hmove s hs hf
      obtain ⟨u, hu, hIu, hfu⟩ := ih (size t) (hn ▸ hsize s t ht) (hstep s t hs ht) rfl
      exact ⟨u, .head ht hu, hIu, hfu⟩

/-! ## A condition that once lost is lost for good -/

/-- A list in time order is a first stretch in which the condition holds, and the rest. -/
theorem dropWhile_lost {α : Type} {p : α → Bool} {l : List α} (h : l.Pairwise fun a b => p b = true → p a = true) :
    ∀ a ∈ l.dropWhile p, p a = false := by
  induction h with
  | nil => simp
  | @cons a l ha _ ih =>
    rw [List.dropWhile_cons]
    split
    · exact ih
    next hlost =>
      rw [Bool.not_eq_true] at hlost
      intro b hb
      rcases List.mem_cons.1 hb with rfl | hb
      · exact hlost
      · rw [← Bool.not_eq_true]
        intro hp
        rw [ha b hb hp] at hlost
        cases hlost

end Lib.Runs
