import Mathlib
/-!
# Pre-order lists of trees

A relation `le a b` says that `a` is at or above `b`. A tree that is ordered by it
from the root down, with branches apart from each other, is listed in pre-order:
nothing stands before what is above it, and every member is directly followed
by the members below it.
-/

namespace Lib.Preorder

variable {α : Type}

/-- A tree with labels and ordered branches. -/
inductive RoseTree (α : Type) where
  | node (label : α) (children : List (RoseTree α))
  deriving Inhabited

def RoseTree.label : RoseTree α → α
  | .node label _ => label

mutual
/-- The label, then the lists of the branches in turn. -/
def RoseTree.preorder : RoseTree α → List α
  | .node label children => label :: preorderAll children

def preorderAll : List (RoseTree α) → List α
  | [] => []
  | t :: ts => t.preorder ++ preorderAll ts
end

theorem preorderAll_eq (ts : List (RoseTree α)) : preorderAll ts = ts.flatMap RoseTree.preorder := by
  induction ts with
  | nil => rfl
  | cons t ts ih => rw [preorderAll, ih, List.flatMap_cons]

theorem mem_preorderAll {ts : List (RoseTree α)} {a : α} : a ∈ preorderAll ts ↔ ∃ t ∈ ts, a ∈ t.preorder := by
  rw [preorderAll_eq, List.mem_flatMap]

/-! ## Lists -/

variable {le : α → α → Prop}

/-- Whatever is above a member stands before it. -/
def AncestorsFirst (le : α → α → Prop) (l : List α) : Prop :=
  ∀ pre b post, l = pre ++ b :: post → ∀ a ∈ l, le a b → a ≠ b → a ∈ pre

/-- Every member is directly followed by the members below it. -/
def Contiguous (le : α → α → Prop) (l : List α) : Prop :=
  ∀ a ∈ l, ∃ pre below post, l = pre ++ a :: (below ++ post) ∧ (∀ b ∈ below, le a b) ∧ ∀ b ∈ pre ++ post, ¬ le a b

/-- In a list sorted by an order that puts what is above first, ancestors come first. -/
theorem ancestorsFirst_of_pairwise {r : α → α → Prop} {l : List α} (h : l.Pairwise r)
    (hr : ∀ a b, le a b → a ≠ b → ¬ r b a) : AncestorsFirst le l := by
  rintro pre b post rfl a ha hab hne
  rcases List.mem_append.1 ha with hpre | hpost
  · exact hpre
  · rcases List.mem_cons.1 hpost with rfl | hpost
    · contradiction
    · have hba : r b a := (List.pairwise_cons.1 (List.pairwise_append.1 h).2.1).1 a hpost
      exact absurd hba (hr a b hab hne)

/-- A member above all others is the first. -/
theorem AncestorsFirst.head? {l : List α} (h : AncestorsFirst le l) {root : α} (hmem : root ∈ l)
    (hroot : ∀ a ∈ l, le root a) : l.head? = some root := by
  cases l with
  | nil => cases hmem
  | cons first rest =>
    by_cases heq : root = first
    · rw [heq, List.head?_cons]
    · have hin : root ∈ ([] : List α) := h [] first rest rfl root hmem (hroot first List.mem_cons_self) heq
      cases hin

theorem Contiguous.cons {a : α} {l : List α} (h : Contiguous le l) (ha : ∀ b ∈ l, le a b ∧ ¬ le b a) :
    Contiguous le (a :: l) := by
  intro b hmem
  rcases List.mem_cons.1 hmem with rfl | hb
  · refine ⟨[], l, [], by simp, ?_, by simp⟩
    intro c hc
    exact (ha c hc).1
  · have hnot : ¬ le b a := (ha b hb).2
    obtain ⟨pre, below, post, rfl, hbelow, hapart⟩ := h b hb
    refine ⟨a :: pre, below, post, rfl, hbelow, ?_⟩
    intro c hc
    rcases List.mem_cons.1 hc with rfl | hc
    · exact hnot
    · exact hapart c hc

theorem Contiguous.append {xs ys : List α} (hxs : Contiguous le xs) (hys : Contiguous le ys)
    (hapart : ∀ x ∈ xs, ∀ y ∈ ys, ¬ le x y ∧ ¬ le y x) : Contiguous le (xs ++ ys) := by
  intro a ha
  rcases List.mem_append.1 ha with ha | ha
  · obtain ⟨pre, below, post, rfl, hbelow, hrest⟩ := hxs a ha
    refine ⟨pre, below, post ++ ys, by simp, hbelow, ?_⟩
    intro b hb
    rw [← List.append_assoc] at hb
    rcases List.mem_append.1 hb with hb | hb
    · exact hrest b hb
    · exact (hapart a ha b hb).1
  · obtain ⟨pre, below, post, rfl, hbelow, hrest⟩ := hys a ha
    refine ⟨xs ++ pre, below, post, by simp, hbelow, ?_⟩
    intro b hb
    rw [List.append_assoc] at hb
    rcases List.mem_append.1 hb with hb | hb
    · exact (hapart b hb a ha).2
    · exact hrest b hb

/-! ## Ordered trees -/

/-- Everything in a tree is strictly below its label, and its branches are apart. -/
inductive RoseTree.Ordered (le : α → α → Prop) : RoseTree α → Prop
  | node {a : α} {ts : List (RoseTree α)} : (∀ t ∈ ts, t.Ordered le) → (∀ b ∈ preorderAll ts, le a b ∧ ¬ le b a) →
      ts.Pairwise (fun t u => ∀ x ∈ t.preorder, ∀ y ∈ u.preorder, ¬ le x y ∧ ¬ le y x) → Ordered le (.node a ts)

/-- The pre-order of an ordered tree puts nothing before what is above it. -/
theorem RoseTree.Ordered.pairwise {t : RoseTree α} (h : t.Ordered le) : t.preorder.Pairwise fun a b => ¬ le b a := by
  induction h with
  | @node a ts _ hbelow hapart ih =>
    rw [RoseTree.preorder, List.pairwise_cons, preorderAll_eq, List.pairwise_flatMap]
    refine ⟨?_, ih, ?_⟩
    · intro b hb
      rw [← preorderAll_eq] at hb
      exact (hbelow b hb).2
    · apply hapart.imp
      intro t u htu x hx y hy
      exact (htu x hx y hy).2

/-- The pre-order of an ordered tree lists every subtree in one piece. -/
theorem RoseTree.Ordered.contiguous {t : RoseTree α} (h : t.Ordered le) : Contiguous le t.preorder := by
  induction h with
  | @node a ts _ hbelow hapart ih =>
    have hall : ∀ us : List (RoseTree α), (∀ u ∈ us, Contiguous le u.preorder) →
        us.Pairwise (fun t u => ∀ x ∈ t.preorder, ∀ y ∈ u.preorder, ¬ le x y ∧ ¬ le y x) →
        Contiguous le (preorderAll us) := by
      intro us hus hpw
      induction us with
      | nil => exact fun a ha => absurd ha List.not_mem_nil
      | cons u us ihus =>
        obtain ⟨hu, hpw⟩ := List.pairwise_cons.1 hpw
        apply (hus u List.mem_cons_self).append (ihus (fun v hv => hus v (List.mem_cons_of_mem u hv)) hpw)
        intro x hx y hy
        obtain ⟨v, hv, hyv⟩ := mem_preorderAll.1 hy
        exact hu v hv x hx y hyv
    exact (hall ts ih hapart).cons hbelow

/-! ## Searching a sorted list -/

/-- In a list sorted by `r`, a search finds the answer of the first member that has one. -/
theorem findSome?_pairwise {β : Type} {r : α → α → Prop} {l : List α} (h : l.Pairwise r)
    (hr : ∀ a b, r a b → ¬ r b a) {f : α → Option β} {b : β} :
    l.findSome? f = some b ↔ ∃ a ∈ l, f a = some b ∧ ∀ c ∈ l, r c a → f c = none := by
  rw [List.findSome?_eq_some_iff]
  constructor
  · rintro ⟨pre, a, post, rfl, hfound, hnone⟩
    refine ⟨a, by simp, hfound, ?_⟩
    intro c hc hca
    rcases List.mem_append.1 hc with hpre | hpost
    · exact hnone c hpre
    · rcases List.mem_cons.1 hpost with rfl | hpost
      · exact absurd hca (hr c c hca)
      · have hac : r a c := (List.pairwise_cons.1 (List.pairwise_append.1 h).2.1).1 c hpost
        exact absurd hca (hr a c hac)
  · rintro ⟨a, ha, hfound, hnone⟩
    obtain ⟨pre, post, rfl⟩ := List.append_of_mem ha
    refine ⟨pre, a, post, rfl, hfound, ?_⟩
    intro c hc
    exact hnone c (List.mem_append_left _ hc) ((List.pairwise_append.1 h).2.2 c hc a (by simp))

end Lib.Preorder
