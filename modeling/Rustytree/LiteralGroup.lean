import Rustytree.Backend
/-!
# Spellings of a literal group (`_normalize_literal_group`)

A group string names a list of groups: its segments without dots. All spellings
of one list should normalise to one text, that under which the walkers file the
group. `PurePosixPath` makes it so, except that exactly two leading slashes are a
root of their own for it.
-/

namespace Rustytree

/-! ## The canonical text -/

/-- Exactly two leading slashes. -/
def TwoSlashes (s : Str) : Prop := ['/', '/'] <+: s ∧ ¬ ['/', '/', '/'] <+: s

instance (s : Str) : Decidable (TwoSlashes s) := inferInstanceAs (Decidable (_ ∧ ¬ _))

/-- The segments that name a group: those other than dots. -/
def namedSegments (group : Str) : List Str := (segments group).filter (· != ['.'])

/-- The path that a group string spells. -/
def spelledPath (group : Str) : Path :=
  (namedSegments group).pmap Subtype.mk fun _ h => segment_spec (List.mem_filter.1 h).1

/-- `s` is the canonical absolute path of the segments of `group`. -/
structure IsCanonical (group s : Str) : Prop where
  leading : ∃ rest, s = '/' :: rest ∧ ¬ ['/'] <+: rest
  inner : s ≠ ROOT → ∀ piece ∈ s.tail.splitOn '/', piece ≠ [] ∧ piece ≠ ['.']
  trailing : s ≠ ROOT → ¬ ['/'] <:+ s
  segments_eq : segments s = namedSegments group

theorem spelledPath_names (group : Str) : (spelledPath group).map (·.1) = namedSegments group := by
  rw [spelledPath, List.map_pmap, List.pmap_eq_map, List.map_id']

theorem spelledPath_noDots (group : Str) : NoDots (spelledPath group) := by
  intro name hname
  have hmem : name.1 ∈ namedSegments group := spelledPath_names group ▸ List.mem_map_of_mem hname
  simpa using (List.mem_filter.1 hmem).2

/-- Strings with the same named segments spell the same path. -/
theorem spelledPath_eq_iff {a b : Str} : spelledPath a = spelledPath b ↔ namedSegments a = namedSegments b := by
  rw [← spelledPath_names a, ← spelledPath_names b]
  exact (List.map_injective_iff.2 Subtype.val_injective).eq_iff.symm

/-- The text of a path without dots, cut at the slashes after the first. -/
theorem splitOn_tail_pathStr {p : Path} (hp : p ≠ []) : (pathStr p).tail.splitOn '/' = p.map (·.1) := by
  obtain ⟨name, p, rfl⟩ := List.exists_cons_of_ne_nil hp
  rw [← intercalate_slash, List.tail_cons]
  refine List.splitOn_intercalate '/' ?_ (by simp)
  intro seg hseg
  obtain ⟨n, -, rfl⟩ := List.mem_map.1 hseg
  exact n.2.2

/-- A text whose pieces after the leading slash are all names is that of a path. -/
theorem eq_pathStr {rest : Str} {p : Path} (h : p.map (·.1) = rest.splitOn '/') : '/' :: rest = pathStr p := by
  have hp : p ≠ [] := by
    rintro rfl
    exact List.splitOn_ne_nil '/' rest h.symm
  obtain ⟨name, p, rfl⟩ := List.exists_cons_of_ne_nil hp
  rw [← intercalate_slash, h, List.intercalate_splitOn]

theorem isCanonical_pathStr {group : Str} {p : Path} (hdots : NoDots p) (h : p.map (·.1) = namedSegments group) :
    IsCanonical group (pathStr p) := by
  by_cases hp : p = []
  · subst hp
    refine ⟨⟨[], rfl, by simp⟩, fun hroot => absurd rfl hroot, fun hroot => absurd rfl hroot, ?_⟩
    rw [segments_pathStr, h]
  · refine ⟨?_, fun _ => ?_, fun _ => ?_, by rw [segments_pathStr, h]⟩
    · obtain ⟨name, p, rfl⟩ := List.exists_cons_of_ne_nil hp
      obtain ⟨c, cs, hname⟩ := List.exists_cons_of_ne_nil name.2.1
      have hc : c ≠ '/' := by
        rintro rfl
        exact name.2.2 (hname ▸ List.mem_cons_self)
      refine ⟨name.1 ++ joined p, rfl, ?_⟩
      rw [hname, List.cons_append]
      rintro ⟨rest, hrest⟩
      exact hc (List.cons.inj hrest).1.symm
    · rw [splitOn_tail_pathStr hp]
      intro piece hpiece
      obtain ⟨name, hname, rfl⟩ := List.mem_map.1 hpiece
      exact ⟨name.2.1, hdots name hname⟩
    · obtain ⟨front, c, hlast, hc⟩ := exists_last_pathStr hp
      rw [hlast]
      rintro ⟨front', heq⟩
      exact hc (List.cons.inj (List.append_inj' heq rfl).2).1.symm

/-- The canonical text is the one under which the walkers file the path. -/
theorem isCanonical_iff {group s : Str} : IsCanonical group s ↔ s = pathStr (spelledPath group) := by
  constructor
  · rintro ⟨⟨rest, rfl, -⟩, hinner, -, hsegs⟩
    rw [segments_slash] at hsegs
    by_cases hrest : rest = []
    · subst hrest
      have hnil : spelledPath group = [] := by
        rw [← List.map_eq_nil_iff (f := (·.1)), spelledPath_names, ← hsegs, segments_nil]
      rw [hnil]
      rfl
    · have hpieces : segments rest = rest.splitOn '/' := by
        apply List.filter_eq_self.2
        intro piece hpiece
        have hne := (hinner (by simpa [ROOT] using hrest) piece hpiece).1
        simpa using hne
      exact eq_pathStr ((spelledPath_names group).trans (hsegs.symm.trans hpieces))
  · rintro rfl
    exact isCanonical_pathStr (spelledPath_noDots group) (spelledPath_names group)

/-! ## What the function returns -/

theorem splitroot_absolute {s : Str} (h : ['/'] <+: s) :
    (splitroot s).1 = if TwoSlashes s then ['/', '/'] else ['/'] := by
  obtain ⟨rest, rfl⟩ := h
  -- As many leading slashes as `splitroot` looks at.
  rcases rest with _ | ⟨c, rest⟩
  · decide
  · by_cases hc : c = '/'
    · subst hc
      rcases rest with _ | ⟨d, rest⟩
      · decide
      · by_cases hd : d = '/'
        · subst hd
          have hnot : ¬ TwoSlashes (['/'] ++ '/' :: '/' :: rest) := fun htwo => htwo.2 ⟨rest, rfl⟩
          rw [if_neg hnot]
          rfl
        · have htwo : TwoSlashes (['/'] ++ '/' :: d :: rest) := by
            refine ⟨⟨d :: rest, rfl⟩, ?_⟩
            simpa using Ne.symm hd
          have hsplit : splitroot ('/' :: '/' :: d :: rest) = (['/', '/'], d :: rest) := by simp [splitroot, hd]
          rw [if_pos htwo]
          exact congrArg Prod.fst hsplit
    · have hnot : ¬ TwoSlashes (['/'] ++ c :: rest) := by
        rintro ⟨⟨more, heq⟩, -⟩
        simp at heq
        exact hc heq.1.symm
      rw [if_neg hnot]
      unfold splitroot
      split <;> simp_all

/-- The group made absolute. -/
theorem twoSlashes_absolute (group : Str) :
    TwoSlashes (if ['/'].isPrefixOf group then group else '/' :: group) ↔ TwoSlashes group := by
  split
  next => rfl
  next h =>
    rw [List.isPrefixOf_iff_prefix] at h
    constructor
    · rintro ⟨⟨rest, heq⟩, -⟩
      exact absurd ⟨rest, (List.cons.inj heq).2⟩ h
    · rintro ⟨⟨rest, rfl⟩, -⟩
      exact absurd ⟨'/' :: rest, rfl⟩ h

/-- The root that `PurePosixPath` sees, followed by the named segments. -/
theorem normalizeLiteralGroup_eq {group : Str} (h : group ≠ []) :
    normalizeLiteralGroup (some group) = some ((if TwoSlashes group then ['/', '/'] else ['/']) ++
      ['/'].intercalate (namedSegments group)) := by
  have habsolute : ['/'] <+: if ['/'].isPrefixOf group then group else '/' :: group := by
    split
    next hpre => exact List.isPrefixOf_iff_prefix.1 hpre
    next => exact ⟨group, rfl⟩
  have hsegs : segments (if ['/'].isPrefixOf group then group else '/' :: group) = segments group := by
    split
    next => rfl
    next => exact segments_slash group
  have hroot := splitroot_absolute habsolute
  have htail : PurePosixPath.components (splitroot (if ['/'].isPrefixOf group then group else '/' :: group)).2 =
      namedSegments group := by
    rw [components_eq, segments_splitroot, hsegs]
    rfl
  simp only [twoSlashes_absolute] at hroot
  obtain ⟨c, cs, rfl⟩ := List.exists_cons_of_ne_nil h
  have hne : (if TwoSlashes (c :: cs) then ['/', '/'] else ['/']) ≠ [] := by split <;> simp
  simp only [normalizeLiteralGroup, PurePosixPath.parse, PurePosixPath.str, hroot, htail, hne, false_and, if_false]

/-- Without the two slashes, the text of the spelled path. -/
theorem normalizeLiteralGroup_spelled {group : Str} (h : group ≠ []) (htwo : ¬ TwoSlashes group) :
    normalizeLiteralGroup (some group) = some (pathStr (spelledPath group)) := by
  rw [normalizeLiteralGroup_eq h, if_neg htwo, ← spelledPath_names]
  cases hp : spelledPath group with
  | nil => rfl
  | cons name p => exact congrArg some (intercalate_slash name p)

/-- The result is canonical, normalises to itself and is that of every other
spelling, exactly if the group does not start with just two slashes. -/
theorem normalizeLiteralGroup_canonical_iff {group : Str} (h : group ≠ []) :
    (∃ s, normalizeLiteralGroup (some group) = some s ∧ IsCanonical group s ∧ s = pathStr (spelledPath group) ∧
      normalizeLiteralGroup (some s) = some s ∧
      ∀ other, other ≠ [] → ¬ TwoSlashes other → namedSegments other = namedSegments group →
        normalizeLiteralGroup (some other) = some s) ↔ ¬ TwoSlashes group := by
  constructor
  · rintro ⟨s, hs, hcanonical, -⟩ htwo
    rw [normalizeLiteralGroup_eq h, if_pos htwo, Option.some.injEq] at hs
    obtain ⟨rest, rfl, hone⟩ := hcanonical.leading
    exact hone ⟨_, (List.cons.inj hs).2⟩
  · intro htwo
    refine ⟨_, normalizeLiteralGroup_spelled h htwo, isCanonical_iff.2 rfl, rfl,
      normalizeLiteralGroup_pathStr (spelledPath_noDots group), ?_⟩
    intro other hother htwo' hnames
    rw [normalizeLiteralGroup_spelled hother htwo', spelledPath_eq_iff.2 hnames]

/-- The spelling `volume_a//./sweep_0/`. -/
theorem normalizeLiteralGroup_canonical_sweep :
    ∃ s, normalizeLiteralGroup (some "volume_a//./sweep_0/".toList) = some s ∧
      IsCanonical "volume_a//./sweep_0/".toList s ∧ s = pathStr (spelledPath "volume_a//./sweep_0/".toList) ∧
      normalizeLiteralGroup (some s) = some s ∧
      ∀ other, other ≠ [] → ¬ TwoSlashes other → namedSegments other = namedSegments "volume_a//./sweep_0/".toList →
        normalizeLiteralGroup (some other) = some s :=
  (normalizeLiteralGroup_canonical_iff (by decide)).2 (by decide)

/-- Two leading slashes stay: the result is not the path of the walkers. -/
theorem normalizeLiteralGroup_twoSlashes :
    normalizeLiteralGroup (some "//volume_a".toList) = some "//volume_a".toList ∧
    ¬ IsCanonical "//volume_a".toList "//volume_a".toList := by
  refine ⟨by decide, ?_⟩
  intro h
  obtain ⟨rest, heq, hone⟩ := h.leading
  exact hone ⟨"volume_a".toList, (List.cons.inj heq).2⟩

end Rustytree
