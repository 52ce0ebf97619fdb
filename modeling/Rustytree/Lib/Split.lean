import Mathlib
/-!
# Splitting and trimming lists

Cutting a list at the first occurrence of a separator, and stripping what
satisfies a predicate from both ends.
-/

namespace Lib.Split

variable {α : Type} [DecidableEq α]

/-- The parts before and after the first occurrence of `sep`. -/
def splitOnce (sep : List α) : List α → Option (List α × List α)
  | [] => if sep = [] then some ([], []) else none
  | x :: s =>
    if sep.isPrefixOf (x :: s) then some ([], (x :: s).drop sep.length)
    else (splitOnce sep s).map fun parts => (x :: parts.1, parts.2)

theorem splitOnce_singleton_some {x : α} {s before after : List α} :
    splitOnce [x] s = some (before, after) ↔ s = before ++ x :: after ∧ x ∉ before := by
  induction s generalizing before with
  | nil => simp [splitOnce]
  | cons y s ih =>
    rw [splitOnce]
    by_cases h : x = y
    · subst h
      cases before with
      | nil => simp [List.isPrefixOf]
      | cons b before => simp [List.isPrefixOf]; grind
    · have hnot : [x].isPrefixOf (y :: s) = false := by simp [List.isPrefixOf, h]
      rw [hnot, if_neg Bool.false_ne_true, Option.map_eq_some_iff]
      constructor
      · rintro ⟨⟨pre, post⟩, hsplit, heq⟩
        obtain ⟨rfl, rfl⟩ := Prod.mk.inj heq
        obtain ⟨rfl, hpre⟩ := ih.1 hsplit
        exact ⟨rfl, by simp [h, hpre]⟩
      · rintro ⟨heq, hbefore⟩
        cases before with
        | nil => exact absurd (List.cons.inj heq).1.symm h
        | cons b before =>
          obtain ⟨rfl, rfl⟩ := List.cons.inj heq
          exact ⟨(before, after), ih.2 ⟨rfl, fun hx => hbefore (List.mem_cons_of_mem _ hx)⟩, rfl⟩

theorem splitOnce_singleton_none {x : α} {s : List α} : splitOnce [x] s = none ↔ x ∉ s := by
  constructor
  · intro h hx
    obtain ⟨before, after, rfl, hbefore⟩ := List.eq_append_cons_of_mem hx
    rw [splitOnce_singleton_some.2 ⟨rfl, hbefore⟩] at h
    cases h
  · intro h
    cases hs : splitOnce [x] s with
    | none => rfl
    | some parts =>
      obtain ⟨before, after⟩ := parts
      rw [(splitOnce_singleton_some.1 hs).1] at h
      simp at h

omit [DecidableEq α] in
/-- What is left after stripping both ends: the only middle part that neither
starts nor ends with something to strip. -/
theorem strip_eq_iff {p : α → Bool} {s t : List α} :
    (s.dropWhile p).rdropWhile p = t ↔ ∃ l r, s = l ++ t ++ r ∧ (∀ x ∈ l, p x = true) ∧ (∀ x ∈ r, p x = true) ∧
      (∀ x ∈ t.head?, p x = false) ∧ ∀ x ∈ t.getLast?, p x = false := by
  constructor
  · rintro rfl
    refine ⟨s.takeWhile p, (s.dropWhile p).rtakeWhile p, ?_, ?_, ?_, ?_, ?_⟩
    · rw [List.append_assoc, List.rdropWhile_append_rtakeWhile, List.takeWhile_append_dropWhile]
    · exact fun x => List.mem_takeWhile_imp
    · exact fun x => List.mem_rtakeWhile_imp
    · intro x hx
      obtain ⟨rest, hrest⟩ : ((s.dropWhile p).rdropWhile p) <+: s.dropWhile p :=
        List.rdropWhile_prefix p _
      have hhead : (s.dropWhile p).head? = some x := by
        rw [← hrest, List.head?_append, hx]
        rfl
      simpa [hhead] using List.head?_dropWhile_not p s
    · intro x hx
      have hne : (s.dropWhile p).rdropWhile p ≠ [] := by
        rintro hnil
        simp [hnil] at hx
      have hlast := List.rdropWhile_last_not p (s.dropWhile p) hne
      rw [List.getLast?_eq_some_getLast hne] at hx
      obtain rfl := Option.some.inj hx
      simpa using hlast
  · rintro ⟨l, r, rfl, hl, hr, hhead, hlast⟩
    rw [List.append_assoc, List.dropWhile_append_of_pos hl]
    cases t with
    | nil =>
      rw [List.nil_append, List.dropWhile_eq_nil_iff.2 hr]
      rfl
    | cons x t =>
      have hself : (x :: t).rdropWhile p = x :: t := by
        apply List.rdropWhile_eq_self_iff.2
        intro hne
        simpa using hlast _ (List.getLast?_eq_some_getLast hne)
      rw [List.cons_append, List.dropWhile_cons_of_neg (by simp [hhead x rfl]), ← List.cons_append, List.rdropWhile,
        List.reverse_append, List.dropWhile_append_of_pos (by simpa using hr)]
      exact hself

end Lib.Split
