import Mathlib
/-!
# Patterns with one wildcard symbol

A text matches a pattern when it arises by putting some text in place of every
wildcard. Cut at the wildcards, a pattern is a list of literal pieces; the text
starts with the first, ends with the last and holds the others in between, in
order. Taking each at its first occurrence loses nothing.
-/

namespace Lib.Wildcard

variable {α : Type} {star : α}

/-- `text` is `pattern` with some text in place of every `star`. -/
inductive Matches (star : α) : List α → List α → Prop
  | nil : Matches star [] []
  | char {c pattern text} : c ≠ star → Matches star pattern text → Matches star (c :: pattern) (c :: text)
  | star (fill) {pattern text} : Matches star pattern text → Matches star (star :: pattern) (fill ++ text)

/-- The pieces occur in `text` in order, without overlap. -/
def InOrder : List (List α) → List α → Prop
  | [], _ => True
  | piece :: pieces, text => ∃ skipped rest, text = skipped ++ piece ++ rest ∧ InOrder pieces rest

/-- What a text matching the pieces after the first looks like: every piece
stands behind some filling, and the last ends the text. -/
def Follows : List (List α) → List α → Prop
  | [], text => text = []
  | piece :: pieces, text => ∃ fill rest, text = fill ++ piece ++ rest ∧ Follows pieces rest

theorem matches_append_literal {piece pattern text : List α} (h : star ∉ piece) :
    Matches star (piece ++ pattern) text ↔ ∃ rest, text = piece ++ rest ∧ Matches star pattern rest := by
  induction piece generalizing text with
  | nil => simp
  | cons c piece ih =>
    simp only [List.mem_cons, not_or] at h
    constructor
    · intro hm
      cases hm with
      | char _ hm =>
        obtain ⟨rest, rfl, hrest⟩ := (ih h.2).1 hm
        exact ⟨rest, rfl, hrest⟩
      | star fill hm => exact absurd rfl h.1
    · rintro ⟨rest, rfl, hrest⟩
      exact .char (Ne.symm h.1) ((ih h.2).2 ⟨rest, rfl, hrest⟩)

theorem matches_star {pattern text : List α} :
    Matches star (star :: pattern) text ↔ ∃ fill rest, text = fill ++ rest ∧ Matches star pattern rest := by
  constructor
  · intro h
    cases h with
    | char hc _ => exact absurd rfl hc
    | star fill hm => exact ⟨fill, _, rfl, hm⟩
  · rintro ⟨fill, rest, rfl, hm⟩
    exact .star fill hm

theorem matches_nil {text : List α} : Matches star [] text ↔ text = [] := by
  constructor
  · intro h; cases h; rfl
  · rintro rfl; exact .nil

theorem matches_literal {pattern text : List α} (h : star ∉ pattern) : Matches star pattern text ↔ text = pattern := by
  rw [← List.append_nil pattern, matches_append_literal h]
  simp [matches_nil]

/-- Every pattern is matched by the text that has one symbol in place of each wildcard. -/
theorem matches_map_fill [DecidableEq α] (pattern : List α) (fill : α) :
    Matches star pattern (pattern.map fun c => if c = star then fill else c) := by
  induction pattern with
  | nil => exact .nil
  | cons c pattern ih =>
    rw [List.map_cons]
    by_cases h : c = star
    · rw [if_pos h, h]
      exact .star [fill] ih
    · rw [if_neg h]
      exact .char h ih

/-- A pattern joined from literal pieces matches what its pieces describe. -/
theorem matches_intercalate {piece : List α} {pieces : List (List α)} {text : List α} (hp : star ∉ piece)
    (hps : ∀ q ∈ pieces, star ∉ q) :
    Matches star ([star].intercalate (piece :: pieces)) text ↔ ∃ rest, text = piece ++ rest ∧ Follows pieces rest := by
  induction pieces generalizing piece text with
  | nil => simp [List.intercalate, matches_literal hp, Follows]
  | cons q pieces ih =>
    have hjoin : [star].intercalate (piece :: q :: pieces) = piece ++ star :: [star].intercalate (q :: pieces) := by
      simp [List.intercalate]
    rw [hjoin, matches_append_literal hp]
    apply exists_congr
    intro rest
    apply and_congr_right
    intro _
    rw [matches_star, Follows]
    apply exists_congr
    intro fill
    simp only [ih (hps q (by simp)) fun x hx => hps x (by simp [hx])]
    constructor
    · rintro ⟨_, rfl, rest', rfl, h⟩
      exact ⟨rest', by simp, h⟩
    · rintro ⟨rest', rfl, h⟩
      exact ⟨_, by simp, rest', rfl, h⟩

/-- The last piece ends the text and the others lie before it. -/
theorem follows_concat {pieces : List (List α)} {last text : List α} :
    Follows (pieces ++ [last]) text ↔ ∃ middle, text = middle ++ last ∧ InOrder pieces middle := by
  induction pieces generalizing text with
  | nil =>
    simp only [List.nil_append, Follows, InOrder, and_true]
    constructor
    · rintro ⟨fill, rest, rfl, rfl⟩
      exact ⟨fill, by simp⟩
    · rintro ⟨middle, rfl⟩
      exact ⟨middle, [], by simp⟩
  | cons piece pieces ih =>
    simp only [List.cons_append, Follows, InOrder, ih]
    constructor
    · rintro ⟨fill, _, rfl, middle, rfl, h⟩
      exact ⟨fill ++ piece ++ middle, by simp, fill, middle, rfl, h⟩
    · rintro ⟨_, rfl, fill, middle, rfl, h⟩
      exact ⟨fill, middle ++ last, by simp, middle, rfl, h⟩

/-! ## First occurrences -/

theorem InOrder.append_left {pieces : List (List α)} {text : List α} (h : InOrder pieces text) (more : List α) :
    InOrder pieces (more ++ text) := by
  cases pieces with
  | nil => trivial
  | cons piece pieces =>
    obtain ⟨skipped, rest, rfl, hrest⟩ := h
    exact ⟨more ++ skipped, rest, by simp, hrest⟩

/-- `skipped` is what stands before the first occurrence of `piece`. -/
def FirstAt (piece skipped text : List α) : Prop :=
  (∃ rest, text = skipped ++ piece ++ rest) ∧
    ∀ skipped' rest', text = skipped' ++ piece ++ rest' → skipped.length ≤ skipped'.length

/-- Taking the first occurrence of a piece leaves the most room for the others. -/
theorem inOrder_cons_iff {piece skipped rest : List α} {pieces : List (List α)}
    (h : FirstAt piece skipped (skipped ++ piece ++ rest)) :
    InOrder (piece :: pieces) (skipped ++ piece ++ rest) ↔ InOrder pieces rest := by
  constructor
  · rintro ⟨skipped', rest', heq, hrest⟩
    have hle := h.2 skipped' rest' heq
    have hends : rest' <:+ skipped ++ piece ++ rest := ⟨_, heq.symm⟩
    have hlen : rest'.length ≤ rest.length := by
      have := congrArg List.length heq
      simp only [List.length_append] at this
      omega
    have hsuffix : rest' <:+ rest := List.suffix_of_suffix_length_le hends (List.suffix_append _ _) hlen
    obtain ⟨more, rfl⟩ := hsuffix
    exact hrest.append_left more
  · exact fun hrest => ⟨skipped, rest, rfl, hrest⟩

end Lib.Wildcard
