import Rustytree.Lib.RowMajor
/-!
# Covering every point once

A list of sets, each given by a predicate on its points, covers a region once
when every point lies in just one of them. We follow such a list through growth
of its sets, through a change of points, and through products.
-/

namespace Lib.Cover
open Lib.RowMajor

variable {α β γ δ : Type}

/-- Every point of the region lies in exactly one member of the list. -/
def CoversOnce (P : β → α → Prop) [∀ b a, Decidable (P b a)] (region : α → Prop) (l : List β) : Prop :=
  ∀ a, region a → l.countP (fun b => P b a) = 1

section
variable {P Q : β → α → Prop} [∀ b a, Decidable (P b a)] [∀ b a, Decidable (Q b a)]
  {region : α → Prop} {l : List β}

/-- Two predicates, one weaker than the other, hold of equally many members only if they agree. -/
theorem countP_eq_iff {p q : β → Bool} (h : ∀ b ∈ l, p b = true → q b = true) :
    l.countP q = l.countP p ↔ ∀ b ∈ l, q b = true → p b = true := by
  induction l with
  | nil => simp
  | cons b l ih =>
    have htail := ih fun b' hb' => h b' (by simp [hb'])
    have hle : l.countP p ≤ l.countP q := List.countP_mono_left fun b' hb' => h b' (by simp [hb'])
    have hhead := h b (by simp)
    rw [List.forall_mem_cons, ← htail, List.countP_cons, List.countP_cons]
    by_cases hp : p b = true
    · simp [hp, hhead hp]
    · by_cases hq : q b = true
      · -- The list's head alone tells the two counts apart.
        simp only [hp, hq, if_true, if_false, Bool.false_eq_true, imp_false, not_true_eq_false, false_and, iff_false]
        omega
      · simp [hp, hq]

/-- If every set grows, each point still lies in just one of them only where none has grown. -/
theorem coversOnce_grown_iff (hgrow : ∀ b ∈ l, ∀ a, region a → P b a → Q b a) (h : CoversOnce P region l) :
    CoversOnce Q region l ↔ ∀ b ∈ l, ∀ a, region a → Q b a → P b a := by
  have hpoint : ∀ a, region a → (l.countP (fun b => Q b a) = 1 ↔ ∀ b ∈ l, Q b a → P b a) := by
    intro a ha
    have hiff := countP_eq_iff (l := l) (p := fun b => decide (P b a)) (q := fun b => decide (Q b a))
      fun b hb => by simpa using hgrow b hb a ha
    rw [h a ha] at hiff
    simpa using hiff
  constructor
  · intro hQ b hb a ha hq
    exact (hpoint a ha).1 (hQ a ha) b hb hq
  · intro hno a ha
    exact (hpoint a ha).2 fun b hb hq => hno b hb a ha hq

/-- Points may be renamed as long as none of the region is left out. -/
theorem coversOnce_rename {R : β → γ → Prop} [∀ b c, Decidable (R b c)] {region' : γ → Prop} (f : α → γ)
    (hf : ∀ a, region a → region' (f a)) (hsurj : ∀ c, region' c → ∃ a, region a ∧ f a = c)
    (hiff : ∀ b ∈ l, ∀ a, region a → (R b (f a) ↔ P b a)) : CoversOnce R region' l ↔ CoversOnce P region l := by
  have hcount : ∀ a, region a → l.countP (fun b => R b (f a)) = l.countP (fun b => P b a) := by
    intro a ha
    apply List.countP_congr
    intro b hb
    simpa using hiff b hb a ha
  constructor
  · intro h a ha
    rw [← hcount a ha]
    exact h (f a) (hf a ha)
  · intro h c hc
    obtain ⟨a, ha, rfl⟩ := hsurj c hc
    rw [hcount a ha]
    exact h a ha

end

/-- Where each member yields at most one set, the yield covers what the members cover through it. -/
theorem coversOnce_flatMap {P : γ → α → Prop} [∀ c a, Decidable (P c a)] {region : α → Prop} {f : β → List γ}
    {l : List β} (h : ∀ b ∈ l, (f b).length ≤ 1) :
    CoversOnce P region (l.flatMap f) ↔ CoversOnce (fun b a => ∃ c ∈ f b, P c a) region l := by
  have hcount : ∀ a, (l.flatMap f).countP (fun c => P c a) = l.countP fun b => decide (∃ c ∈ f b, P c a) := by
    intro a
    induction l with
    | nil => rfl
    | cons b l ih =>
      rw [List.flatMap_cons, List.countP_append, ih fun b' hb' => h b' (by simp [hb']), List.countP_cons, Nat.add_comm]
      congr 1
      have hb := h b (by simp)
      match hfb : f b with
      | [] => simp
      | [c] => simp
      | c :: c' :: rest => simp [hfb] at hb
  simp only [CoversOnce, hcount]

/-! ## Products -/

section
variable {P : β → α → Prop} [∀ b a, Decidable (P b a)]

theorem sum_ite_eq (l : List β) (a : α) (n : Nat) :
    (l.map fun b => if P b a then n else 0).sum = l.countP (fun b => P b a) * n := by
  induction l with
  | nil => simp
  | cons b l ih =>
    rw [List.map_cons, List.sum_cons, ih, List.countP_cons, Nat.add_mul, Nat.add_comm]
    congr 1
    split <;> simp_all

/-- In a product, as many boxes hold a point as the sides hold its coordinates, multiplied. -/
theorem countP_grid {ls : List (List β)} {idx : List α} (h : ls.length = idx.length) :
    (grid ls).countP (fun box => List.Forall₂ P box idx) =
      (List.zipWith (fun l a => l.countP fun b => P b a) ls idx).prod := by
  induction ls generalizing idx with
  | nil => cases idx <;> simp_all [grid]
  | cons l ls ih =>
    cases idx with
    | nil => simp at h
    | cons a idx =>
      have hinner : ∀ b, ((grid ls).map (b :: ·)).countP (fun box => List.Forall₂ P box (a :: idx)) =
          if P b a then (grid ls).countP (fun box => List.Forall₂ P box idx) else 0 := by
        intro b
        rw [List.countP_map]
        split
        next hb => simp [Function.comp_def, hb]
        next hb => simp [Function.comp_def, hb]
      rw [grid, List.countP_flatMap, List.zipWith_cons_cons, List.prod_cons, ← ih (by simpa using h), ← sum_ite_eq]
      congr 1
      exact List.map_congr_left fun b _ => hinner b

/-- Sides that cover their axes once cover the box once. -/
theorem coversOnce_grid {region : δ → α → Prop} {axes : List δ} {side : δ → List β}
    (h : ∀ axis ∈ axes, CoversOnce P (region axis) (side axis)) :
    CoversOnce (List.Forall₂ P) (fun idx => List.Forall₂ region axes idx) (grid (axes.map side)) := by
  intro idx hidx
  rw [countP_grid (by simpa using hidx.length_eq)]
  induction hidx with
  | nil => rfl
  | @cons axis a axes idx ha _ ih =>
    rw [List.map_cons, List.zipWith_cons_cons, List.prod_cons, ih fun x hx => h x (by simp [hx]),
      h axis (by simp) a ha]

end

end Lib.Cover
