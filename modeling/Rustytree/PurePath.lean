import Rustytree.Lib.Wildcard
import Rustytree.Paths
/-!
# `PurePosixPath` and `fnmatch`

CPython's pure POSIX paths: the root split off, the tail without empty and `.`
components. Matching compares components, each by `fnmatch`.
-/

namespace Rustytree
open Lib.Wildcard

/-! ## The standard library -/

/-- `posixpath.splitroot`, without the drive: exactly two leading slashes are a
root of their own, any other number is one slash. -/
def splitroot : Str → Str × Str
  | '/' :: '/' :: '/' :: rest => (['/'], '/' :: '/' :: rest)
  | '/' :: '/' :: rest => (['/', '/'], rest)
  | '/' :: rest => (['/'], rest)
  | path => ([], path)

/-- A parsed path. -/
structure PurePosixPath where
  root : Str
  tail : List Str
  deriving DecidableEq, Repr

namespace PurePosixPath

/-- The components of a relative path: neither empty nor `.`. -/
def components (rel : Str) : List Str := (rel.splitOn '/').filter fun x => x != [] && x != ['.']

/-- `PurePosixPath(path)`. -/
def parse (path : Str) : PurePosixPath :=
  let (root, rel) := splitroot path
  { root, tail := components rel }

/-- `str(path)`. -/
def str (path : PurePosixPath) : Str :=
  if path.root = [] ∧ path.tail = [] then ['.'] else path.root ++ ['/'].intercalate path.tail

/-- `path.parents`, closest first. -/
def parents (path : PurePosixPath) : List PurePosixPath :=
  (List.range path.tail.length).map fun i => { path with tail := path.tail.take (path.tail.length - 1 - i) }

end PurePosixPath

/-- A token of an `fnmatch` pattern. -/
inductive FnToken where
  | star
  | any
  | lit (c : Char)
  | cls (negated : Bool) (ranges : List (Char × Char))
  deriving DecidableEq, Repr

/-- The ranges of a bracket expression's body; a hyphen at either end is literal. -/
def classRanges : List Char → List (Char × Char)
  | x :: '-' :: y :: rest => (x, y) :: classRanges rest
  | x :: rest => (x, x) :: classRanges rest
  | [] => []

/-- The bracket expression after `[`, if it is closed, and how many characters it
takes; a `]` that comes first is literal. -/
def bracket (s : Str) : Option (FnToken × Nat) :=
  let (negated, body) := match s with
    | '!' :: rest => (true, rest)
    | rest => (false, rest)
  -- A `]` right after the opening does not close it.
  let first := match body with
    | ']' :: _ => 1
    | _ => 0
  let inner := (body.drop first).takeWhile (· != ']')
  if (body.drop first).length = inner.length then none
  else some (.cls negated (classRanges (body.take first ++ inner)), negated.toNat + first + inner.length + 1)

/-- `fnmatch.translate`; `skip` counts the characters a bracket expression has taken. -/
def fnTokens : Nat → Str → List FnToken
  | _, [] => []
  | skip + 1, _ :: s => fnTokens skip s
  | 0, '*' :: s => .star :: fnTokens 0 s
  | 0, '?' :: s => .any :: fnTokens 0 s
  | 0, '[' :: s =>
    match bracket s with
    | some (token, taken) => token :: fnTokens taken s
    | none => .lit '[' :: fnTokens 0 s
  | 0, c :: s => .lit c :: fnTokens 0 s

/-- The token accepts the character. -/
def FnToken.accepts (token : FnToken) (c : Char) : Bool :=
  match token with
  | .star => false
  | .any => true
  | .lit d => c == d
  | .cls negated ranges => (ranges.any fun r => r.1 ≤ c && c ≤ r.2) != negated

/-- The tokens match the whole name. -/
def matchTokens : List FnToken → Str → Bool
  | [], name => name.isEmpty
  | .star :: tokens, name => name.tails.any (matchTokens tokens)
  | token :: tokens, c :: name => token.accepts c && matchTokens tokens name
  | _ :: _, [] => false

/-- `fnmatch.fnmatchcase`. -/
def fnmatch (name pattern : Str) : Bool := matchTokens (fnTokens 0 pattern) name

/-- `path.match(pattern)`: all components of an absolute pattern, the last ones
for a relative pattern. -/
def PurePosixPath.matches (path pattern : PurePosixPath) : Except PyErr Bool :=
  if pattern.root ≠ [] then
    .ok (path.root == pattern.root && path.tail.length == pattern.tail.length &&
      (path.tail.zip pattern.tail).all fun (name, pat) => fnmatch name pat)
  else if pattern.tail = [] then .error (.valueError "empty pattern")
  else .ok (pattern.tail.length ≤ path.tail.length &&
    (path.tail.reverse.zip pattern.tail.reverse).all fun (name, pat) => fnmatch name pat)

/-! ## Paths of a hierarchy -/

/-- A path of the hierarchy as Python has it. -/
def posix (p : Path) : PurePosixPath := { root := ['/'], tail := p.map (·.1) }

/-- No name of the path is `.`, which Python drops. -/
def NoDots (p : Path) : Prop := ∀ n ∈ p, n.1 ≠ ['.']

instance (p : Path) : Decidable (NoDots p) := inferInstanceAs (Decidable (∀ n ∈ p, n.1 ≠ ['.']))

theorem components_eq (rel : Str) : PurePosixPath.components rel = (segments rel).filter (· != ['.']) := by
  unfold PurePosixPath.components segments
  rw [List.filter_filter]
  apply List.filter_congr
  intro x _
  by_cases h : x = [] <;> simp [h]

theorem segments_splitroot (s : Str) : segments (splitroot s).2 = segments s := by
  unfold splitroot
  split <;> simp

theorem splitroot_root (s : Str) : (splitroot s).1 ≠ [] ↔ ['/'] <+: s := by
  unfold splitroot
  split
  next => simp
  next => simp
  next => simp
  next h1 h2 h3 =>
    simp only [ne_eq, not_true_eq_false, false_iff]
    rintro ⟨rest, rfl⟩
    exact h3 rest rfl

theorem splitroot_of_name {n : Name} (rest : Str) :
    splitroot ('/' :: (n.1 ++ rest)) = (['/'], n.1 ++ rest) := by
  obtain ⟨s, hne, hslash⟩ := n
  cases s with
  | nil => contradiction
  | cons c s =>
    have hc : c ≠ '/' := fun h => hslash (by simp [h])
    simp only [List.cons_append]
    unfold splitroot
    split <;> simp_all

theorem parse_pathStr {p : Path} (h : NoDots p) : PurePosixPath.parse (pathStr p) = posix p := by
  cases p with
  | nil => decide
  | cons n p =>
    have hsplit : splitroot (pathStr (n :: p)) = (['/'], n.1 ++ joined p) := splitroot_of_name (joined p)
    have hsegs : segments (n.1 ++ joined p) = (n :: p).map (·.1) := by
      rw [← segments_pathStr, ← segments_slash]
      rfl
    unfold PurePosixPath.parse
    rw [hsplit, posix]
    simp only [components_eq, hsegs, PurePosixPath.mk.injEq, true_and]
    apply List.filter_eq_self.2
    intro x hx
    obtain ⟨m, hm, rfl⟩ := List.mem_map.1 hx
    simpa using h m hm

theorem intercalate_slash (n : Name) (p : Path) : '/' :: ['/'].intercalate ((n :: p).map (·.1)) = pathStr (n :: p) := by
  induction p generalizing n with
  | nil => simp [pathStr, joined, List.intercalate]
  | cons m p ih =>
    have hm := ih m
    simp only [pathStr, joined, List.flatMap_cons, List.map_cons] at hm ⊢
    rw [List.intercalate_cons_cons, ← hm]
    simp

theorem str_posix (p : Path) : (posix p).str = pathStr p := by
  cases p with
  | nil => decide
  | cons n p =>
    unfold PurePosixPath.str
    rw [if_neg (by simp [posix])]
    exact intercalate_slash n p

/-- The parents of a path are its proper prefixes. -/
theorem mem_parents {p : Path} {q : PurePosixPath} :
    q ∈ (posix p).parents ↔ ∃ r : Path, r <+: p ∧ r ≠ p ∧ q = posix r := by
  unfold PurePosixPath.parents
  simp only [posix, List.length_map, List.mem_map, List.mem_range]
  constructor
  · rintro ⟨i, hi, rfl⟩
    refine ⟨p.take (p.length - 1 - i), List.take_prefix _ p, fun h => ?_, by rw [List.map_take]⟩
    have := congrArg List.length h
    rw [List.length_take] at this
    omega
  · rintro ⟨r, hpre, hne, rfl⟩
    have hlen : r.length < p.length := by
      refine Nat.lt_of_le_of_ne hpre.length_le fun h => hne (hpre.eq_of_length h)
    refine ⟨p.length - 1 - r.length, by omega, ?_⟩
    have hr : p.length - 1 - (p.length - 1 - r.length) = r.length := by omega
    rw [hr, ← List.map_take, ← List.prefix_iff_eq_take.1 hpre]

/-! ## Patterns with stars only -/

/-- Without `?` and `[`, `fnmatch` decides the star-wildcard language. -/
theorem fnmatch_iff {pattern : Str} (hq : '?' ∉ pattern) (hb : '[' ∉ pattern) (name : Str) :
    fnmatch name pattern = true ↔ Matches '*' pattern name := by
  unfold fnmatch
  induction pattern generalizing name with
  | nil => simp [fnTokens, matchTokens, matches_nil]
  | cons c pattern ih =>
    simp only [List.mem_cons, not_or] at hq hb
    have hrest := ih hq.2 hb.2
    by_cases hc : c = '*'
    · subst hc
      simp only [fnTokens, matchTokens, List.any_eq_true, hrest, matches_star, List.mem_tails]
      constructor
      · rintro ⟨rest, ⟨fill, hfill⟩, hm⟩
        exact ⟨fill, rest, hfill.symm, hm⟩
      · rintro ⟨fill, rest, hfill, hm⟩
        exact ⟨rest, ⟨fill, hfill.symm⟩, hm⟩
    · have htok : fnTokens 0 (c :: pattern) = .lit c :: fnTokens 0 pattern := by
        have hany : c ≠ '?' := Ne.symm hq.1
        have hopen : c ≠ '[' := Ne.symm hb.1
        conv_lhs => unfold fnTokens
        split <;> simp_all
      have hlit : Matches '*' (c :: pattern) name ↔ ∃ rest, name = c :: rest ∧ Matches '*' pattern rest := by
        have hmem : '*' ∉ [c] := by simpa using Ne.symm hc
        exact matches_append_literal hmem
      rw [htok, hlit]
      cases name with
      | nil => simp [matchTokens]
      | cons d name =>
        simp only [matchTokens, FnToken.accepts, Bool.and_eq_true, beq_iff_eq, hrest, List.cons.injEq]
        constructor
        · rintro ⟨rfl, hm⟩
          exact ⟨name, ⟨rfl, rfl⟩, hm⟩
        · rintro ⟨rest, ⟨rfl, rfl⟩, hm⟩
          exact ⟨rfl, hm⟩

end Rustytree
