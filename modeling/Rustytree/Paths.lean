import Rustytree.Errors
/-!
# Names and paths

A path is its list of names; the code handles its text. The string functions
the code computes with (`split`, `rsplit_once`, `trim_*_matches`, `parent_of`,
`normalize_path`) are given on text, with what each does to the text of a path.
-/

namespace Rustytree

/-- A node's name: non-empty, without a slash. -/
abbrev Name := {s : Str // s ≠ [] ∧ '/' ∉ s}

/-- A canonical absolute path, from the root down. -/
abbrev Path := List Name

/-- Every name with a slash before it. -/
def joined (p : Path) : Str := p.flatMap fun n => '/' :: n.1

/-- The text of a path. -/
def pathStr : Path → Str
  | [] => ['/']
  | n :: p => joined (n :: p)

/-! ## The string functions of the source -/

/-- The non-empty pieces of `split('/')`. -/
def segments (s : Str) : List Str := (s.splitOn '/').filter (· ≠ [])

def trimStartMatches (c : Char) (s : Str) : Str := s.dropWhile (· == c)

def trimEndMatches (c : Char) (s : Str) : Str := s.rdropWhile (· == c)

/-- `rsplit_once`: the text before and after the last `c`. -/
def rsplitOnce (c : Char) : Str → Option (Str × Str)
  | [] => none
  | x :: s =>
    match rsplitOnce c s with
    | some (before, after) => some (x :: before, after)
    | none => if x = c then some ([], s) else none

/-- `normalize_path`. -/
def normalizePath (path : Str) : Str :=
  if path.isEmpty then ['/']
  else if path.length > 1 && ['/'].isSuffixOf path then trimEndMatches '/' path
  else path

/-- `parent_of`. -/
def parentOf (path : Str) : Str :=
  match rsplitOnce '/' path with
  | some ([], _) | none => ['/']
  | some (parent, _) => parent

/-- The last name of an array's path, as both walkers compute it. -/
def leafName (path : Str) : Str :=
  match rsplitOnce '/' path with
  | none => path
  | some (_, last) => last

/-! ## Segments -/

@[simp] theorem segments_nil : segments [] = [] := by simp [segments, List.splitOn_nil]

theorem segments_append_slash (s t : Str) : segments (s ++ '/' :: t) = segments s ++ segments t := by
  rw [segments, List.splitOn_append_cons_self, List.filter_append]
  rfl

@[simp] theorem segments_slash (s : Str) : segments ('/' :: s) = segments s := by
  simpa using segments_append_slash [] s

theorem segments_of_not_mem {s : Str} (h : '/' ∉ s) : segments s = if s = [] then [] else [s] := by
  rw [segments, List.splitOn_eq_singleton h]
  split <;> simp_all

/-- No piece of a split holds the character it was split at. -/
theorem not_mem_of_mem_splitOn {c : Char} {s piece : Str} (h : piece ∈ s.splitOn c) : c ∉ piece := by
  induction s generalizing piece with
  | nil => simp_all [List.splitOn_nil]
  | cons x s ih =>
    rw [List.splitOn_cons_eq_if_modifyHead] at h
    split at h
    · rcases List.mem_cons.1 h with rfl | h
      · simp
      · exact ih h
    next hx =>
      cases hs : s.splitOn c with
      | nil => simp [hs] at h
      | cons y ys =>
        rw [hs] at h ih
        rcases List.mem_cons.1 h with rfl | h
        · simp only [List.mem_cons, not_or]
          exact ⟨fun hc => hx (by simp [hc]), ih (by simp)⟩
        · exact ih (by simp [h])

/-- Every segment can be a name. -/
theorem segment_spec {s seg : Str} (h : seg ∈ segments s) : seg ≠ [] ∧ '/' ∉ seg := by
  obtain ⟨hmem, hne⟩ := List.mem_filter.1 h
  exact ⟨by simpa using hne, not_mem_of_mem_splitOn hmem⟩

/-- The characters of a piece are characters of the text. -/
theorem mem_of_mem_splitOn {c x : Char} {s piece : Str} (h : piece ∈ s.splitOn c) (hx : x ∈ piece) : x ∈ s := by
  induction s generalizing piece with
  | nil => simp_all [List.splitOn_nil]
  | cons y s ih =>
    rw [List.splitOn_cons_eq_if_modifyHead] at h
    split at h
    · rcases List.mem_cons.1 h with rfl | h
      · cases hx
      · exact List.mem_cons_of_mem y (ih h hx)
    · cases hs : s.splitOn c with
      | nil => simp [hs] at h
      | cons first rest =>
        rw [hs] at h ih
        rcases List.mem_cons.1 h with rfl | h
        · rcases List.mem_cons.1 hx with rfl | hx
          · simp
          · exact List.mem_cons_of_mem y (ih (by simp) hx)
        · exact List.mem_cons_of_mem y (ih (by simp [h]) hx)

theorem segments_trimStart (s : Str) : segments (trimStartMatches '/' s) = segments s := by
  induction s with
  | nil => rfl
  | cons c s ih =>
    rw [trimStartMatches, List.dropWhile_cons]
    split
    next h => rw [eq_of_beq h, segments_slash]; exact ih
    next => rfl

theorem segments_trimEnd (s : Str) : segments (trimEndMatches '/' s) = segments s := by
  induction s using List.reverseRecOn with
  | nil => rfl
  | append_singleton s c ih =>
    rw [trimEndMatches, List.rdropWhile_concat]
    split
    next h => rw [eq_of_beq h, segments_append_slash, segments_nil, List.append_nil]; exact ih
    next => rfl

/-! ## The text of a path -/

theorem joined_append (p q : Path) : joined (p ++ q) = joined p ++ joined q := by simp [joined]

theorem joined_singleton (n : Name) : joined [n] = '/' :: n.1 := by simp [joined]

theorem pathStr_append_singleton (p : Path) (n : Name) : pathStr (p ++ [n]) = joined p ++ '/' :: n.1 := by
  rw [← joined_singleton, ← joined_append]
  cases p <;> rfl

theorem pathStr_of_ne_nil {p : Path} (h : p ≠ []) : pathStr p = joined p := by
  cases p with
  | nil => contradiction
  | cons n p => rfl

theorem segments_joined (p : Path) : segments (joined p) = p.map (·.1) := by
  induction p using List.reverseRecOn with
  | nil => rfl
  | append_singleton p n ih =>
    rw [joined_append, joined_singleton, segments_append_slash, ih, segments_of_not_mem n.2.2, if_neg n.2.1,
      List.map_append]
    rfl

@[simp] theorem segments_pathStr (p : Path) : segments (pathStr p) = p.map (·.1) := by
  cases p with
  | nil => decide
  | cons n p => exact segments_joined (n :: p)

theorem pathStr_injective : Function.Injective pathStr := by
  intro p q h
  have hseg := congrArg segments h
  rw [segments_pathStr, segments_pathStr] at hseg
  exact List.map_injective_iff.2 Subtype.val_injective hseg

@[simp] theorem pathStr_inj {p q : Path} : pathStr p = pathStr q ↔ p = q := pathStr_injective.eq_iff

theorem pathStr_cons (p : Path) : ∃ s, pathStr p = '/' :: s := by
  cases p with
  | nil => exact ⟨[], rfl⟩
  | cons n p => exact ⟨n.1 ++ joined p, by simp [pathStr, joined]⟩

theorem rsplitOnce_eq_none {c : Char} {s : Str} (h : c ∉ s) : rsplitOnce c s = none := by
  induction s with
  | nil => rfl
  | cons x s ih =>
    simp only [List.mem_cons, not_or] at h
    rw [rsplitOnce, ih h.2]
    exact if_neg fun hx => h.1 hx.symm

theorem rsplitOnce_append {c : Char} (a : Str) {b : Str} (h : c ∉ b) : rsplitOnce c (a ++ c :: b) = some (a, b) := by
  induction a with
  | nil => simp [rsplitOnce, rsplitOnce_eq_none h]
  | cons x a ih => simp [rsplitOnce, ih]

theorem parentOf_pathStr (p : Path) (n : Name) : parentOf (pathStr (p ++ [n])) = pathStr p := by
  rw [parentOf, pathStr_append_singleton, rsplitOnce_append _ n.2.2]
  cases p with
  | nil => rfl
  | cons m p => simp [pathStr, joined]

/-- Only the root is its own parent. -/
theorem parentOf_pathStr_self {p : Path} : parentOf (pathStr p) = pathStr p ↔ p = [] := by
  rcases List.eq_nil_or_concat p with rfl | ⟨parent, name, rfl⟩
  · exact iff_of_true rfl rfl
  · rw [List.concat_eq_append, parentOf_pathStr, pathStr_inj]
    simp

theorem leafName_pathStr (p : Path) (n : Name) : leafName (pathStr (p ++ [n])) = n.1 := by
  rw [leafName, pathStr_append_singleton, rsplitOnce_append _ n.2.2]

theorem exists_last (n : Name) : ∃ s c, n.1 = s ++ [c] ∧ c ≠ '/' := by
  obtain ⟨s, hne, hslash⟩ := n
  refine ⟨s.dropLast, s.getLast hne, (List.dropLast_concat_getLast hne).symm, fun h => hslash ?_⟩
  rw [← h]
  exact List.getLast_mem hne

/-- A path other than the root does not end in a slash. -/
theorem exists_last_pathStr {p : Path} (h : p ≠ []) : ∃ s c, pathStr p = s ++ [c] ∧ c ≠ '/' := by
  obtain ⟨q, n, rfl⟩ := (List.eq_nil_or_concat p).resolve_left h
  obtain ⟨s, c, hn, hc⟩ := exists_last n
  refine ⟨joined q ++ '/' :: s, c, ?_, hc⟩
  rw [List.concat_eq_append, pathStr_append_singleton, hn]
  simp

theorem normalizePath_pathStr (p : Path) : normalizePath (pathStr p) = pathStr p := by
  by_cases h : p = []
  · subst h; rfl
  · obtain ⟨s, c, hs, hc⟩ := exists_last_pathStr h
    have hend : ['/'].isSuffixOf (s ++ [c]) = false := by
      rw [Bool.eq_false_iff, ne_eq, List.isSuffixOf_iff_suffix]
      rintro ⟨t, ht⟩
      exact hc (List.cons.inj (List.append_inj' ht rfl).2).1.symm
    rw [normalizePath, hs, hend, Bool.and_false]
    simp

/-- Stripping trailing slashes leaves a path alone and empties the root. -/
theorem trimEnd_pathStr (p : Path) : trimEndMatches '/' (pathStr p) = joined p := by
  by_cases h : p = []
  · subst h; rfl
  · obtain ⟨s, c, hs, hc⟩ := exists_last_pathStr h
    rw [← pathStr_of_ne_nil h, hs, trimEndMatches, List.rdropWhile_concat_neg _ _ _ (by simpa using hc)]

end Rustytree
