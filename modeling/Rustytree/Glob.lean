import Rustytree.Lib.Wildcard
import Rustytree.Paths
/-!
# The glob prefix predicate (`glob.rs`)

`star_match` works on byte offsets of UTF-8 text, and a slice off a character
boundary panics; here such a slice is `none`. We prove that it never happens
and that `star_match` decides the star-wildcard language, and from this what
the predicate prunes.
-/

namespace Rustytree.Glob
open Lib.Wildcard

/-! ## The source -/

/-- `str::len`: the number of bytes. -/
def utf8Len (s : Str) : Nat := (s.map Char.utf8Size).sum

/-- `&s[n..]`. -/
def dropBytes? : Nat → Str → Option Str
  | 0, s => some s
  | _ + 1, [] => none
  | n + 1, c :: s => if c.utf8Size ≤ n + 1 then dropBytes? (n + 1 - c.utf8Size) s else none

/-- `&s[..n]`. -/
def takeBytes? : Nat → Str → Option Str
  | 0, _ => some []
  | _ + 1, [] => none
  | n + 1, c :: s => if c.utf8Size ≤ n + 1 then (takeBytes? (n + 1 - c.utf8Size) s).map (c :: ·) else none

/-- `&s[start..stop]`. -/
def byteSlice? (s : Str) (start stop : Nat) : Option Str :=
  if start ≤ stop then (dropBytes? start s).bind (takeBytes? (stop - start)) else none

/-- `str::find`: the byte offset of the first occurrence. -/
def strFind (piece : Str) : Str → Option Nat
  | [] => if piece.isEmpty then some 0 else none
  | c :: s => if piece.isPrefixOf (c :: s) then some 0 else (strFind piece s).map (c.utf8Size + ·)

/-- The loop over the middle pieces, with the bounds `[cursor..stop]` of the
slices it takes; `none` is a panic. -/
def starLoopTraced (name : Str) (stop : Nat) : List Str → Nat → Option Bool × List (Nat × Nat)
  | [], _ => (some true, [])
  | piece :: pieces, cursor =>
    if cursor > stop then (some false, [])
    else match byteSlice? name cursor stop with
      | none => (none, [(cursor, stop)])
      | some hay =>
        match strFind piece hay with
        | some idx =>
          let later := starLoopTraced name stop pieces (cursor + (idx + utf8Len piece))
          (later.1, (cursor, stop) :: later.2)
        | none => (some false, [(cursor, stop)])

/-- `star_match` with the slices it takes. -/
def starMatchTraced (pattern name : Str) : Option Bool × List (Nat × Nat) :=
  let parts := pattern.splitOn '*'
  let first := parts.headD []
  let last := parts.getLastD []
  -- No star.
  if parts.length = 1 then (some (first == name), [])
  else if !first.isPrefixOf name then (some false, [])
  else if !last.isSuffixOf name then (some false, [])
  -- Prefix and suffix may not overlap in the name.
  else if utf8Len first + utf8Len last > utf8Len name then (some false, [])
  else starLoopTraced name (utf8Len name - utf8Len last) parts.tail.dropLast (utf8Len first)

/-- What `star_match` returns, unless it panics. -/
def starMatch? (pattern name : Str) : Option Bool := (starMatchTraced pattern name).1

/-- `star_match`, which does not panic (`starMatchTraced_spec`). -/
def starMatch (pattern name : Str) : Bool := (starMatch? pattern name).getD false

/-- A byte offset between two characters, or an end of the text. -/
def IsBoundary (s : Str) (offset : Nat) : Prop := ∃ before, before <+: s ∧ utf8Len before = offset

/-- `&name[cursor..stop]` does not panic. -/
structure WellFormedSlice (name : Str) (cursor stop : Nat) : Prop where
  ordered : cursor ≤ stop
  inside : stop ≤ utf8Len name
  starts : IsBoundary name cursor
  ends : IsBoundary name stop

/-- `GlobPredicate`. -/
structure GlobPredicate where
  segments : Option (List Str)

/-- `GlobPredicate::parse`. -/
def GlobPredicate.parse (pattern : Str) : GlobPredicate :=
  if !(['/'].isPrefixOf pattern) then ⟨none⟩
  else if pattern.contains '?' || pattern.contains '[' then ⟨none⟩
  -- Empty segments are dropped; `.` segments are not.
  else ⟨some (Rustytree.segments (trimEndMatches '/' (trimStartMatches '/' pattern)))⟩

/-- `GlobPredicate::could_descendant_match`. -/
def GlobPredicate.couldDescendantMatch (g : GlobPredicate) (path : Str) : Bool :=
  match g.segments with
  | none => true
  | some segs =>
    let pathSegs := Rustytree.segments (trimStartMatches '/' path)
    if pathSegs.length > segs.length then false
    else (pathSegs.zip segs).all fun (pathSeg, patSeg) => starMatch patSeg pathSeg

/-! ## Slices at character boundaries -/

@[simp] theorem utf8Len_nil : utf8Len [] = 0 := rfl

@[simp] theorem utf8Len_cons (c : Char) (s : Str) : utf8Len (c :: s) = c.utf8Size + utf8Len s := by simp [utf8Len]

@[simp] theorem utf8Len_append (s t : Str) : utf8Len (s ++ t) = utf8Len s + utf8Len t := by simp [utf8Len]

theorem utf8Len_pos {s : Str} (h : s ≠ []) : 0 < utf8Len s := by
  cases s with
  | nil => contradiction
  | cons c s => rw [utf8Len_cons]; have := c.utf8Size_pos; omega

theorem dropBytes?_append (s t : Str) : dropBytes? (utf8Len s) (s ++ t) = some t := by
  induction s with
  | nil => simp [dropBytes?]
  | cons c s ih =>
    obtain ⟨n, hn⟩ : ∃ n, utf8Len (c :: s) = n + 1 := Nat.exists_eq_add_one.2 (utf8Len_pos (by simp))
    have hc := utf8Len_cons c s
    rw [hn, List.cons_append, dropBytes?, if_pos (by omega), ← ih]
    congr 1
    omega

theorem takeBytes?_append (s t : Str) : takeBytes? (utf8Len s) (s ++ t) = some s := by
  induction s with
  | nil => simp [takeBytes?]
  | cons c s ih =>
    obtain ⟨n, hn⟩ : ∃ n, utf8Len (c :: s) = n + 1 := Nat.exists_eq_add_one.2 (utf8Len_pos (by simp))
    have hc := utf8Len_cons c s
    have hrest : n + 1 - c.utf8Size = utf8Len s := by omega
    rw [hn, List.cons_append, takeBytes?, if_pos (by omega), hrest, ih]
    rfl

/-- A slice between two boundaries is the text between them. -/
theorem byteSlice?_append (a b c : Str) :
    byteSlice? (a ++ (b ++ c)) (utf8Len a) (utf8Len a + utf8Len b) = some b := by
  rw [byteSlice?, if_pos (Nat.le_add_right _ _), dropBytes?_append, Nat.add_sub_cancel_left]
  exact takeBytes?_append b c

theorem dropBytes?_eq_some {n : Nat} {s t : Str} (h : dropBytes? n s = some t) :
    ∃ before, s = before ++ t ∧ utf8Len before = n := by
  induction s generalizing n with
  | nil =>
    cases n with
    | zero => exact ⟨[], by simpa [dropBytes?] using h⟩
    | succ n => simp [dropBytes?] at h
  | cons c s ih =>
    cases n with
    | zero => exact ⟨[], by simpa [dropBytes?] using h⟩
    | succ n =>
      rw [dropBytes?] at h
      split at h
      · obtain ⟨before, rfl, hlen⟩ := ih h
        refine ⟨c :: before, rfl, ?_⟩
        rw [utf8Len_cons]
        omega
      · cases h

theorem takeBytes?_eq_some {n : Nat} {s t : Str} (h : takeBytes? n s = some t) : t <+: s ∧ utf8Len t = n := by
  induction s generalizing n t with
  | nil =>
    cases n with
    | zero => obtain rfl : [] = t := by simpa [takeBytes?] using h
              exact ⟨List.nil_prefix, rfl⟩
    | succ n => simp [takeBytes?] at h
  | cons c s ih =>
    cases n with
    | zero => obtain rfl : [] = t := by simpa [takeBytes?] using h
              exact ⟨List.nil_prefix, rfl⟩
    | succ n =>
      rw [takeBytes?] at h
      split at h
      · obtain ⟨t', ht', rfl⟩ := Option.map_eq_some_iff.1 h
        obtain ⟨hpre, hlen⟩ := ih ht'
        refine ⟨(List.prefix_cons_inj c).2 hpre, ?_⟩
        rw [utf8Len_cons]
        omega
      · cases h

/-- Slicing succeeds on well-formed bounds only. -/
theorem byteSlice?_wellFormed {name hay : Str} {cursor stop : Nat} (h : byteSlice? name cursor stop = some hay) :
    WellFormedSlice name cursor stop := by
  rw [byteSlice?] at h
  split at h
  · rename_i hle
    obtain ⟨rest, hrest, hhay⟩ := Option.bind_eq_some_iff.1 h
    obtain ⟨before, rfl, rfl⟩ := dropBytes?_eq_some hrest
    obtain ⟨⟨after, rfl⟩, hlen⟩ := takeBytes?_eq_some hhay
    have hstop : utf8Len (before ++ hay) = stop := by
      rw [utf8Len_append, hlen]
      omega
    refine ⟨hle, ?_, ⟨before, List.prefix_append _ _, rfl⟩, before ++ hay, ⟨after, List.append_assoc _ _ _⟩, hstop⟩
    simp only [← hstop, utf8Len_append]
    omega
  · cases h

/-! ## Finding -/

/-- What `find` says: where the first occurrence stands, or that there is none. -/
theorem strFind_spec (piece hay : Str) :
    match strFind piece hay with
    | some idx => ∃ skipped, idx = utf8Len skipped ∧ FirstAt piece skipped hay
    | none => ∀ skipped rest, hay ≠ skipped ++ piece ++ rest := by
  induction hay with
  | nil =>
    rw [strFind]
    by_cases h : piece.isEmpty
    · rw [if_pos h, List.isEmpty_iff.1 h]
      exact ⟨[], rfl, ⟨[], rfl⟩, by simp⟩
    · rw [if_neg h]
      intro skipped rest heq
      have := List.append_eq_nil_iff.1 (List.append_eq_nil_iff.1 heq.symm).1
      exact h (List.isEmpty_iff.2 this.2)
  | cons c s ih =>
    rw [strFind]
    by_cases h : piece.isPrefixOf (c :: s)
    · rw [if_pos h]
      obtain ⟨rest, hrest⟩ := List.isPrefixOf_iff_prefix.1 h
      exact ⟨[], rfl, ⟨rest, hrest.symm⟩, by simp⟩
    · rw [if_neg h]
      have hskip : ∀ skipped rest, c :: s = skipped ++ piece ++ rest →
          ∃ skipped', skipped = c :: skipped' ∧ s = skipped' ++ piece ++ rest := by
        intro skipped rest heq
        cases skipped with
        | nil => exact absurd (List.isPrefixOf_iff_prefix.2 ⟨rest, heq.symm⟩) h
        | cons x skipped =>
          obtain ⟨rfl, rfl⟩ := List.cons.inj heq
          exact ⟨skipped, rfl, rfl⟩
      cases hf : strFind piece s with
      | none =>
        rw [hf] at ih
        intro skipped rest heq
        obtain ⟨skipped', -, hs⟩ := hskip skipped rest heq
        exact ih skipped' rest hs
      | some idx =>
        rw [hf] at ih
        obtain ⟨skipped, rfl, ⟨rest, hrest⟩, hfirst⟩ := ih
        refine ⟨c :: skipped, (utf8Len_cons c skipped).symm, ⟨rest, by rw [hrest]; rfl⟩, fun skipped' rest' heq => ?_⟩
        obtain ⟨skipped'', rfl, hs⟩ := hskip skipped' rest' heq
        exact Nat.succ_le_succ (hfirst skipped'' rest' hs)

/-! ## `star_match` decides the wildcard language -/

/-- The loop with the cursor behind `done` and the stop before `last`: every
slice is on boundaries, and the answer is whether the pieces occur in order. -/
theorem starLoopTraced_spec (done rest last : Str) (pieces : List Str) :
    ∃ b slices,
      starLoopTraced (done ++ (rest ++ last)) (utf8Len done + utf8Len rest) pieces (utf8Len done) = (some b, slices) ∧
      (b = true ↔ InOrder pieces rest) ∧
      ∀ slice ∈ slices, WellFormedSlice (done ++ (rest ++ last)) slice.1 slice.2 := by
  -- On the pieces: each moves the text before its end from `rest` to `done`.
  induction pieces generalizing done rest with
  | nil => exact ⟨true, [], rfl, by simp [InOrder], by simp⟩
  | cons piece pieces ih =>
    have hhay := byteSlice?_append done rest last
    have hslice := byteSlice?_wellFormed hhay
    rw [starLoopTraced, if_neg (by omega), hhay]
    have hfind := strFind_spec piece rest
    cases hf : strFind piece rest with
    | none =>
      rw [hf] at hfind
      refine ⟨false, [(utf8Len done, utf8Len done + utf8Len rest)], by simp only [hf], ?_, by simpa using hslice⟩
      simp only [Bool.false_eq_true, false_iff]
      rintro ⟨skipped, rest', heq, -⟩
      exact hfind skipped rest' heq
    | some idx =>
      rw [hf] at hfind
      simp only [hf]
      obtain ⟨skipped, rfl, ⟨rest', rfl⟩, hfirst⟩ := hfind
      obtain ⟨b, slices, hloop, hiff, hslices⟩ := ih (done ++ (skipped ++ piece)) rest'
      simp only [utf8Len_append, List.append_assoc, Nat.add_assoc] at hloop hslices
      refine ⟨b, (utf8Len done, utf8Len done + utf8Len (skipped ++ piece ++ rest')) :: slices, ?_, ?_, ?_⟩
      · simp only [utf8Len_append, List.append_assoc, hloop]
      · exact hiff.trans (inOrder_cons_iff ⟨⟨rest', rfl⟩, hfirst⟩).symm
      · simp only [List.forall_mem_cons, hslice, true_and]
        simpa only [List.append_assoc] using hslices

/-- A prefix and a suffix that fit side by side leave a middle. -/
theorem exists_middle {first last name : Str} (hf : first <+: name) (hl : last <:+ name)
    (hlen : utf8Len first + utf8Len last ≤ utf8Len name) : ∃ middle, name = first ++ (middle ++ last) := by
  obtain ⟨x, rfl⟩ := hf
  rw [utf8Len_append] at hlen
  rcases List.suffix_or_suffix_of_suffix hl (List.suffix_append first x) with ⟨middle, rfl⟩ | ⟨y, rfl⟩
  · exact ⟨middle, rfl⟩
  · rw [utf8Len_append] at hlen
    have hy : y = [] := by
      by_contra hne
      have := utf8Len_pos hne
      omega
    exact ⟨[], by simp [hy]⟩

/-- A pattern without a star is compared as it stands. -/
theorem starMatchTraced_literal {pattern first : Str} (hparts : pattern.splitOn '*' = [first]) (name : Str) :
    starMatchTraced pattern name = (some (first == name), []) := by simp [starMatchTraced, hparts]

/-- A pattern with a star is tried by its first, its last and its middle pieces. -/
theorem starMatchTraced_pieces {pattern first last : Str} {middle : List Str}
    (hparts : pattern.splitOn '*' = first :: (middle ++ [last])) (name : Str) :
    starMatchTraced pattern name =
      if !first.isPrefixOf name then (some false, [])
      else if !last.isSuffixOf name then (some false, [])
      else if utf8Len first + utf8Len last > utf8Len name then (some false, [])
      else starLoopTraced name (utf8Len name - utf8Len last) middle (utf8Len first) := by
  have hlast : (first :: (middle ++ [last])).getLastD [] = last := by
    rw [← List.cons_append, List.getLastD_concat]
  have hlen : (first :: (middle ++ [last])).length ≠ 1 := by simp
  simp only [starMatchTraced, hparts, hlast, if_neg hlen, List.headD_cons, List.tail_cons, List.dropLast_concat]

/-- The three guards turn away only names that do not match, and the loop decides the rest. -/
theorem pieces_spec (first last name : Str) (middle : List Str) :
    ∃ b slices, (if !first.isPrefixOf name then (some false, [])
        else if !last.isSuffixOf name then (some false, [])
        else if utf8Len first + utf8Len last > utf8Len name then (some false, [])
        else starLoopTraced name (utf8Len name - utf8Len last) middle (utf8Len first)) = (some b, slices) ∧
      (b = true ↔ ∃ m, name = first ++ (m ++ last) ∧ InOrder middle m) ∧
      ∀ slice ∈ slices, WellFormedSlice name slice.1 slice.2 := by
  by_cases hsplit : ∃ m, name = first ++ (m ++ last)
  · obtain ⟨m, rfl⟩ := hsplit
    have hstarts : first.isPrefixOf (first ++ (m ++ last)) = true :=
      List.isPrefixOf_iff_prefix.2 (List.prefix_append first _)
    have hends : last.isSuffixOf (first ++ (m ++ last)) = true :=
      List.isSuffixOf_iff_suffix.2 ⟨first ++ m, List.append_assoc first m last⟩
    have hfit : ¬ utf8Len first + utf8Len last > utf8Len (first ++ (m ++ last)) := by
      simp only [utf8Len_append]
      omega
    have hstop : utf8Len (first ++ (m ++ last)) - utf8Len last = utf8Len first + utf8Len m := by
      simp only [utf8Len_append]
      omega
    obtain ⟨b, slices, hloop, hiff, hslices⟩ := starLoopTraced_spec first m last middle
    refine ⟨b, slices, ?_, ?_, hslices⟩
    · simp only [hstarts, hends, hfit, hstop, hloop, Bool.not_true, Bool.false_eq_true, if_false]
    rw [hiff]
    constructor
    · intro h
      exact ⟨m, rfl, h⟩
    · rintro ⟨m', heq, h⟩
      rwa [List.append_cancel_right (List.append_cancel_left heq)]
  · -- Without a middle one of the guards fails.
    have hguard : ¬ (first <+: name ∧ last <:+ name ∧ utf8Len first + utf8Len last ≤ utf8Len name) := fun h =>
      hsplit (exists_middle h.1 h.2.1 h.2.2)
    refine ⟨false, [], ?_, iff_of_false (by simp) fun ⟨m, heq, _⟩ => hsplit ⟨m, heq⟩, by simp⟩
    rw [← List.isPrefixOf_iff_prefix, ← List.isSuffixOf_iff_suffix] at hguard
    split
    · rfl
    · split
      · rfl
      · split
        · rfl
        · simp_all

/-- `star_match` never slices off a boundary, and decides the wildcard language. -/
theorem starMatchTraced_spec (pattern name : Str) :
    ∃ b slices, starMatchTraced pattern name = (some b, slices) ∧ (b = true ↔ Matches '*' pattern name) ∧
      ∀ slice ∈ slices, WellFormedSlice name slice.1 slice.2 := by
  have hjoin : ['*'].intercalate (pattern.splitOn '*') = pattern := List.intercalate_splitOn '*'
  have hfree : ∀ q ∈ pattern.splitOn '*', '*' ∉ q := fun q hq => not_mem_of_mem_splitOn hq
  cases hparts : pattern.splitOn '*' with
  | nil => exact absurd hparts (List.splitOn_ne_nil _ _)
  | cons first rest =>
    rw [hparts] at hjoin hfree
    have hmatch : Matches '*' pattern name ↔ ∃ r, name = first ++ r ∧ Follows rest r := by
      rw [← hjoin]
      exact matches_intercalate (hfree first (by simp)) fun q hq => hfree q (by simp [hq])
    rcases List.eq_nil_or_concat rest with rfl | ⟨middle, last, rfl⟩
    · refine ⟨first == name, [], starMatchTraced_literal hparts name, ?_, by simp⟩
      rw [hmatch, beq_iff_eq]
      constructor
      · rintro rfl
        exact ⟨[], by simp, rfl⟩
      · rintro ⟨r, rfl, rfl⟩
        simp
    · rw [List.concat_eq_append] at hparts hmatch
      obtain ⟨b, slices, hb, hiff, hslices⟩ := pieces_spec first last name middle
      refine ⟨b, slices, (starMatchTraced_pieces hparts name).trans hb, ?_, hslices⟩
      rw [hiff, hmatch]
      simp only [follows_concat]
      constructor
      · rintro ⟨m, heq, h⟩
        exact ⟨_, heq, m, rfl, h⟩
      · rintro ⟨r, heq, m, rfl, h⟩
        exact ⟨m, heq, h⟩

theorem starMatch_iff (pattern name : Str) : starMatch pattern name = true ↔ Matches '*' pattern name := by
  obtain ⟨b, slices, hb, hiff, -⟩ := starMatchTraced_spec pattern name
  rw [starMatch, starMatch?, hb]
  exact hiff

/-- `star_match` answers on every input, slices only where it may, and is
true exactly on the names that the pattern describes. -/
theorem starMatch_decides (pattern name : Str) :
    ∃ b slices, starMatchTraced pattern name = (some b, slices) ∧ starMatch? pattern name = some b ∧
      (b = true ↔ Matches '*' pattern name) ∧ ∀ slice ∈ slices, WellFormedSlice name slice.1 slice.2 := by
  obtain ⟨b, slices, hb, hiff, hslices⟩ := starMatchTraced_spec pattern name
  exact ⟨b, slices, hb, congrArg Prod.fst hb, hiff, hslices⟩

/-! ## What the predicate prunes -/

/-- The names match the pattern's first segments, one by one. -/
def MatchesStart (segs names : List Str) : Prop :=
  ∃ front back, segs = front ++ back ∧ List.Forall₂ (fun name seg => Matches '*' seg name) names front

theorem MatchesStart.shorter {segs names above : List Str} (h : MatchesStart segs names) (hp : above <+: names) :
    MatchesStart segs above := by
  obtain ⟨front, back, rfl, hm⟩ := h
  obtain ⟨rest, rfl⟩ := hp
  have hfront := List.forall₂_take above.length hm
  refine ⟨front.take above.length, front.drop above.length ++ back, ?_, by simpa using hfront⟩
  rw [← List.append_assoc, List.take_append_drop]

theorem all_zip_iff {names segs : List Str} :
    (¬ names.length > segs.length ∧ (names.zip segs).all (fun (name, seg) => starMatch seg name) = true) ↔
      MatchesStart segs names := by
  induction names generalizing segs with
  | nil =>
    simp only [List.length_nil, Nat.not_lt_zero, gt_iff_lt, not_false_eq_true, List.zip_nil_left, List.all_nil,
      and_self, true_iff]
    exact ⟨[], segs, rfl, .nil⟩
  | cons name names ih =>
    cases segs with
    | nil =>
      simp only [List.length_cons, List.length_nil, gt_iff_lt, Nat.zero_lt_succ, not_true_eq_false, false_and,
        false_iff]
      rintro ⟨front, back, heq, h⟩
      cases h
      cases heq
    | cons seg segs =>
      rw [List.zip_cons_cons, List.all_cons, Bool.and_eq_true, starMatch_iff]
      have hrest : MatchesStart (seg :: segs) (name :: names) ↔ Matches '*' seg name ∧ MatchesStart segs names := by
        constructor
        · rintro ⟨front, back, heq, h⟩
          cases h with
          | cons hm hms =>
            obtain ⟨rfl, rfl⟩ := List.cons.inj heq
            exact ⟨hm, _, back, rfl, hms⟩
        · rintro ⟨hm, front, back, rfl, hms⟩
          exact ⟨seg :: front, back, rfl, .cons hm hms⟩
      rw [hrest, ← ih]
      simp only [List.length_cons, gt_iff_lt, Nat.add_lt_add_iff_right]
      exact ⟨fun ⟨h1, h2, h3⟩ => ⟨h2, h1, h3⟩, fun ⟨h2, h1, h3⟩ => ⟨h1, h2, h3⟩⟩

/-- A path survives unless its segments fail to match the start of the pattern. -/
theorem couldDescendantMatch_iff (g : GlobPredicate) (path : Str) :
    g.couldDescendantMatch path = true ↔ ∀ segs, g.segments = some segs → MatchesStart segs (segments path) := by
  unfold GlobPredicate.couldDescendantMatch
  cases g.segments with
  | none => simp
  | some segs =>
    simp only [segments_trimStart, Option.some.injEq, forall_eq', ← all_zip_iff]
    split <;> simp_all

/-- What holds of a path holds of every path above it. -/
theorem couldDescendantMatch_prefix {g : GlobPredicate} {p q : Path} (h : p <+: q)
    (hq : g.couldDescendantMatch (pathStr q) = true) : g.couldDescendantMatch (pathStr p) = true := by
  rw [couldDescendantMatch_iff] at hq ⊢
  intro segs hsegs
  apply (hq segs hsegs).shorter
  rw [segments_pathStr, segments_pathStr]
  exact h.map _

theorem parse_segments (pattern : Str) :
    (GlobPredicate.parse pattern).segments =
      if ['/'] <+: pattern ∧ '?' ∉ pattern ∧ '[' ∉ pattern then some (segments pattern) else none := by
  rw [GlobPredicate.parse, segments_trimEnd, segments_trimStart]
  simp only [← List.isPrefixOf_iff_prefix]
  by_cases h1 : ['/'].isPrefixOf pattern = true <;> by_cases h2 : '?' ∈ pattern <;> by_cases h3 : '[' ∈ pattern <;>
    simp [h1, h2, h3]

/-! ## The predicate is exact -/

/-- Every non-empty slash-free segment is matched by some non-empty slash-free name. -/
theorem exists_matching_name {seg : Str} (h : seg ≠ [] ∧ '/' ∉ seg) :
    ∃ name : Str, (name ≠ [] ∧ '/' ∉ name) ∧ Matches '*' seg name := by
  refine ⟨seg.map fun c => if c = '*' then 'x' else c, ⟨by simpa using h.1, ?_⟩, matches_map_fill seg 'x'⟩
  intro hmem
  obtain ⟨c, hc, heq⟩ := List.mem_map.1 hmem
  split at heq
  · exact absurd heq (by decide)
  · exact h.2 (heq ▸ hc)

theorem exists_matching_names {segs : List Str} (h : ∀ seg ∈ segs, seg ≠ [] ∧ '/' ∉ seg) :
    ∃ names : List Str, (∀ name ∈ names, name ≠ [] ∧ '/' ∉ name) ∧
      List.Forall₂ (fun name seg => Matches '*' seg name) names segs := by
  induction segs with
  | nil => exact ⟨[], by simp, .nil⟩
  | cons seg segs ih =>
    obtain ⟨name, hname, hm⟩ := exists_matching_name (h seg List.mem_cons_self)
    obtain ⟨names, hnames, hms⟩ := ih fun s hs => h s (List.mem_cons_of_mem _ hs)
    exact ⟨name :: names, List.forall_mem_cons.2 ⟨hname, hnames⟩, .cons hm hms⟩

/-- Names that match the start of the segments can be continued to match all of them. -/
theorem matchesStart_iff {segs names : List Str} (h : ∀ seg ∈ segs, seg ≠ [] ∧ '/' ∉ seg) :
    MatchesStart segs names ↔ ∃ more : List Str, (∀ name ∈ more, name ≠ [] ∧ '/' ∉ name) ∧
      List.Forall₂ (fun name seg => Matches '*' seg name) (names ++ more) segs := by
  constructor
  · rintro ⟨front, back, rfl, hfront⟩
    obtain ⟨more, hmore, hback⟩ := exists_matching_names fun s hs => h s (List.mem_append_right front hs)
    exact ⟨more, hmore, List.rel_append hfront hback⟩
  · rintro ⟨more, -, hall⟩
    refine ⟨segs.take names.length, segs.drop names.length, (List.take_append_drop _ _).symm, ?_⟩
    simpa using List.forall₂_take names.length hall

/-- `could_descendant_match` on a parsed pattern: exact for an absolute pattern
of names and stars, true everywhere for any other, and never true of a path
without being true of the paths above it. -/
theorem couldDescendantMatch_exact (pattern : Str) :
    (['/'] <+: pattern → '?' ∉ pattern → '[' ∉ pattern → ∀ path, ['/'] <+: path →
      ((GlobPredicate.parse pattern).couldDescendantMatch path = true ↔
        ∃ more : List Str, (∀ name ∈ more, name ≠ [] ∧ '/' ∉ name) ∧
          List.Forall₂ (fun name seg => Matches '*' seg name) (segments path ++ more) (segments pattern))) ∧
    (∀ path above, segments above <+: segments path → (GlobPredicate.parse pattern).couldDescendantMatch path = true →
      (GlobPredicate.parse pattern).couldDescendantMatch above = true) ∧
    (¬ ['/'] <+: pattern ∨ '?' ∈ pattern ∨ '[' ∈ pattern →
      ∀ path, (GlobPredicate.parse pattern).couldDescendantMatch path = true) := by
  simp only [couldDescendantMatch_iff, parse_segments]
  refine ⟨?_, ?_, ?_⟩
  · intro habs hquestion hbracket path _
    rw [if_pos ⟨habs, hquestion, hbracket⟩]
    simp only [Option.some.injEq, forall_eq']
    exact matchesStart_iff fun seg hseg => segment_spec hseg
  · intro path above habove hpath segs hsegs
    exact (hpath segs hsegs).shorter habove
  · intro hother path segs hsegs
    rw [if_neg (by tauto)] at hsegs
    cases hsegs

/-- The pattern `/a*/b` walks `/ax` and the root above it, and `sweep_*` walks everything. -/
theorem couldDescendantMatch_exact_of_star :
    (∃ more : List Str, (∀ name ∈ more, name ≠ [] ∧ '/' ∉ name) ∧
      List.Forall₂ (fun name seg => Matches '*' seg name) (segments "/ax".toList ++ more) (segments "/a*/b".toList)) ∧
    (GlobPredicate.parse "/a*/b".toList).couldDescendantMatch "/".toList = true ∧
    (GlobPredicate.parse "sweep_*".toList).couldDescendantMatch "/a/b".toList = true :=
  ⟨((couldDescendantMatch_exact "/a*/b".toList).1 (by decide) (by decide) (by decide) "/ax".toList (by decide)).1
      (by decide),
    (couldDescendantMatch_exact "/a*/b".toList).2.1 "/ax".toList "/".toList (by decide) (by decide),
    (couldDescendantMatch_exact "sweep_*".toList).2.2 (.inl (by decide)) "/a/b".toList⟩

end Rustytree.Glob
