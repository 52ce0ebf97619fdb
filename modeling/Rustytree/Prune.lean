import Rustytree.Subtree
/-!
# Pruning and filtering

The Rust walk drops groups its predicate rules out; Python filters what is left
by `PurePosixPath.match`. Nothing is lost when every group that matches passes
the predicate. The predicate keeps `.` segments of a pattern, which Python
drops, and this is the one way a match is lost.
-/

namespace Rustytree
open Glob Lib.Wildcard Lib.Dict

/-- The pattern matches the path of the group. -/
def MatchesPath (pattern : Str) (p : Path) : Prop := (posix p).matches (.parse pattern) = .ok true

/-- `match` does not raise on the pattern. -/
def Matchable (pattern : Str) : Prop :=
  ∀ path : PurePosixPath, ∃ hit, path.matches (.parse pattern) = .ok hit

/-! ## The filter -/

theorem matchedPaths_ok {pattern : Str} (h : Matchable pattern) {out : List Path} (hdots : ∀ p ∈ out, NoDots p) :
    ∃ hits : List Path, matchedPaths (.parse pattern) (out.map pathStr) = .ok (hits.map pathStr) ∧
      ∀ p, p ∈ hits ↔ p ∈ out ∧ MatchesPath pattern p := by
  induction out with
  | nil => exact ⟨[], rfl, by simp⟩
  | cons q out ih =>
    obtain ⟨hits, hrun, hmem⟩ := ih fun p hp => hdots p (by simp [hp])
    obtain ⟨hit, hq⟩ := h (posix q)
    have hparse : PurePosixPath.parse (pathStr q) = posix q := parse_pathStr (hdots q (by simp))
    refine ⟨if hit then q :: hits else hits, ?_, fun p => ?_⟩
    · simp only [List.map_cons, matchedPaths, hparse, hq, hrun, bind, Except.bind]
      cases hit <;> rfl
    · have hmatch : MatchesPath pattern q ↔ hit = true := by simp [MatchesPath, hq]
      cases hit with
      | true =>
        simp only [if_true, List.mem_cons, hmem]
        constructor
        · rintro (rfl | ⟨hp, hm⟩)
          · exact ⟨.inl rfl, hmatch.2 rfl⟩
          · exact ⟨.inr hp, hm⟩
        · rintro ⟨rfl | hp, hm⟩
          · exact .inl rfl
          · exact .inr ⟨hp, hm⟩
      | false =>
        simp only [Bool.false_eq_true, if_false, hmem, List.mem_cons]
        constructor
        · rintro ⟨hp, hm⟩
          exact ⟨.inr hp, hm⟩
        · rintro ⟨rfl | hp, hm⟩
          · exact absurd (hmatch.1 hm) (by simp)
          · exact ⟨hp, hm⟩

/-- The texts of a path's parents are those of its proper prefixes. -/
theorem mem_parentStrs {p q : Path} (hdots : NoDots q) :
    pathStr p ∈ (PurePosixPath.parse (pathStr q)).parents.map (·.str) ↔ p <+: q ∧ p ≠ q := by
  rw [parse_pathStr hdots, List.mem_map]
  constructor
  · rintro ⟨a, ha, hstr⟩
    obtain ⟨r, hpre, hne, rfl⟩ := mem_parents.1 ha
    rw [str_posix, pathStr_inj] at hstr
    exact hstr ▸ ⟨hpre, hne⟩
  · rintro ⟨hpre, hne⟩
    exact ⟨posix p, mem_parents.2 ⟨p, hpre, hne, rfl⟩, str_posix p⟩

/-- The matches and their parents together are the groups at or above a match. -/
theorem mem_keep {hits : List Path} (hdots : ∀ q ∈ hits, NoDots q) {p : Path} :
    pathStr p ∈ hits.map pathStr ++
      (hits.map pathStr).flatMap (fun s => (PurePosixPath.parse s).parents.map (·.str)) ↔ ∃ q ∈ hits, p <+: q := by
  rw [List.mem_append, List.mem_flatMap, List.mem_map_of_injective pathStr_injective]
  constructor
  · rintro (hp | ⟨s, hs, hp⟩)
    · exact ⟨p, hp, List.prefix_refl p⟩
    · obtain ⟨q, hq, rfl⟩ := List.mem_map.1 hs
      exact ⟨q, hq, ((mem_parentStrs (hdots q hq)).1 hp).1⟩
  · rintro ⟨q, hq, hpre⟩
    by_cases hpq : p = q
    · exact .inl (hpq ▸ hq)
    · exact .inr ⟨pathStr q, List.mem_map_of_mem hq, (mem_parentStrs (hdots q hq)).2 ⟨hpre, hpq⟩⟩

/-- The filter keeps the groups that match and the groups above one that does. -/
theorem filterByGlob_ok {V : Type} {pattern : Str} (h : Matchable pattern) {out : List Path}
    (hdots : ∀ p ∈ out, NoDots p) (f : Path → V) :
    ∃ kept : List Path, kept.Sublist out ∧
      (∀ p, p ∈ kept ↔ p ∈ out ∧ ∃ q ∈ out, p <+: q ∧ MatchesPath pattern q) ∧
      filterByGlob (out.map fun p => (pathStr p, f p)) pattern = .ok (kept.map fun p => (pathStr p, f p)) := by
  obtain ⟨hits, hrun, hmem⟩ := matchedPaths_ok h hdots
  have hkeys : (out.map fun p => (pathStr p, f p)).map (·.1) = out.map pathStr := by simp
  refine ⟨out.filter fun p => pathStr p ∈ hits.map pathStr ++
    (hits.map pathStr).flatMap fun s => (PurePosixPath.parse s).parents.map (·.str), List.filter_sublist,
    fun p => ?_, ?_⟩
  · rw [List.mem_filter, decide_eq_true_eq, mem_keep fun q hq => hdots q ((hmem q).1 hq).1]
    apply and_congr_right
    intro _
    apply exists_congr
    intro q
    rw [hmem]
    constructor
    · rintro ⟨⟨hq, hm⟩, hpre⟩
      exact ⟨hq, hpre, hm⟩
    · rintro ⟨hq, hpre, hm⟩
      exact ⟨⟨hq, hm⟩, hpre⟩
  · unfold filterByGlob
    simp only [hkeys, hrun, bind, Except.bind, List.filter_map]
    rfl

/-! ## Dots in a pattern -/

/-- A `.` segment of the pattern has another segment after it. -/
def DotInside (pattern : Str) : Prop := ∃ seg ∈ (segments pattern).dropWhile (· != ['.']), seg ≠ ['.']

/-- The predicate compares the segments of an absolute pattern without `?` and `[`. -/
def Compared (pattern : Str) : Prop := ['/'] <+: pattern ∧ '?' ∉ pattern ∧ '[' ∉ pattern

/-- Names that match a pattern's segments without the dots match the start of
all its segments unless a dot stands before one of them. -/
theorem matchesStart_iff {segs names : List Str} (hnames : ∀ name ∈ names, name ≠ ['.'])
    (h : List.Forall₂ (fun name seg => Matches '*' seg name) names (segs.filter (· != ['.']))) :
    MatchesStart segs names ↔ ¬ ∃ seg ∈ segs.dropWhile (· != ['.']), seg ≠ ['.'] := by
  -- On the segments: up to the first dot, names and segments go in step.
  induction segs generalizing names with
  | nil =>
    cases h
    simp [MatchesStart]
  | cons seg segs ih =>
    by_cases hdot : seg = ['.']
    · -- No name is a dot, so here only the empty path still matches.
      subst hdot
      rw [List.filter_cons_of_neg (by simp)] at h
      rw [List.dropWhile_cons_of_neg (by simp)]
      cases names with
      | nil =>
        have hall : ∀ seg ∈ segs, seg = ['.'] := by
          simpa [List.filter_eq_nil_iff] using (List.forall₂_nil_left_iff.1 h)
        exact iff_of_true ⟨[], _, rfl, .nil⟩ (by simpa using hall)
      | cons name names =>
        obtain ⟨seg, rest, -, -, hfilter⟩ := List.forall₂_cons_left_iff.1 h
        have hmem : seg ∈ segs.filter (· != ['.']) := by rw [hfilter]; simp
        rw [List.mem_filter] at hmem
        refine iff_of_false ?_ (not_not.2 ⟨seg, by simp [hmem.1], by simpa using hmem.2⟩)
        rintro ⟨front, back, heq, hm⟩
        obtain ⟨first, front, hfirst, -, rfl⟩ := List.forall₂_cons_left_iff.1 hm
        obtain ⟨rfl, -⟩ := List.cons.inj heq
        exact hnames name (by simp) ((matches_literal (by decide)).1 hfirst)
    · rw [List.filter_cons_of_pos (by simpa using hdot)] at h
      rw [List.dropWhile_cons_of_pos (by simpa using hdot)]
      obtain ⟨name, names, hname, hrest, rfl⟩ := List.forall₂_cons_right_iff.1 h
      rw [← ih (fun n hn => hnames n (by simp [hn])) hrest]
      constructor
      · rintro ⟨front, back, heq, hm⟩
        obtain ⟨first, front, -, htail, rfl⟩ := List.forall₂_cons_left_iff.1 hm
        obtain ⟨-, rfl⟩ := List.cons.inj heq
        exact ⟨front, back, rfl, htail⟩
      · rintro ⟨front, back, rfl, hm⟩
        exact ⟨seg :: front, back, rfl, .cons hname hm⟩

/-- A match compares the names with the segments other than dots. -/
theorem forall₂_of_matchesPath {pattern : Str} (hc : Compared pattern) {p : Path} (h : MatchesPath pattern p) :
    List.Forall₂ (fun name seg => Matches '*' seg name) (p.map (·.1)) ((segments pattern).filter (· != ['.'])) := by
  have hroot : (PurePosixPath.parse pattern).root ≠ [] := (splitroot_root pattern).2 hc.1
  have htail : (PurePosixPath.parse pattern).tail = (segments pattern).filter (· != ['.']) := by
    rw [← segments_splitroot, ← components_eq]
    rfl
  unfold MatchesPath PurePosixPath.matches at h
  rw [if_pos hroot] at h
  simp only [Except.ok.injEq, Bool.and_eq_true, beq_iff_eq, List.all_eq_true, Prod.forall, htail] at h
  obtain ⟨⟨-, hlen⟩, hall⟩ := h
  refine List.forall₂_iff_zip.2 ⟨by simpa [posix] using hlen, fun {name seg} hmem => ?_⟩
  have hseg : seg ∈ segments pattern := (List.mem_filter.1 (List.of_mem_zip hmem).2).1
  have hchar : ∀ c ∈ seg, c ∈ pattern := fun c => mem_of_mem_splitOn (List.mem_filter.1 hseg).1
  exact (fnmatch_iff (fun hq => hc.2.1 (hchar _ hq)) (fun hb => hc.2.2 (hchar _ hb)) name).1 (hall name seg hmem)

/-! ## What pruning loses -/

/-- The predicate reads the pattern otherwise than Python does. -/
def Misread (pattern : Str) : Prop := Compared pattern ∧ DotInside pattern

/-- A path that matches survives the pruning unless the pattern is misread. -/
theorem passes_iff {pattern : Str} {p : Path} (hdots : NoDots p) (h : MatchesPath pattern p) :
    passes (some (.parse pattern)) (pathStr p) = true ↔ ¬ Misread pattern := by
  have hcould : passes (some (.parse pattern)) (pathStr p) = true ↔
      ∀ segs, (GlobPredicate.parse pattern).segments = some segs → MatchesStart segs (segments (pathStr p)) :=
    couldDescendantMatch_iff _ _
  rw [hcould, segments_pathStr]
  by_cases hc : Compared pattern
  · have hsegs : (GlobPredicate.parse pattern).segments = some (segments pattern) :=
      (parse_segments pattern).trans (if_pos hc)
    have hnames : ∀ name ∈ p.map (·.1), name ≠ ['.'] := by
      intro name hname
      obtain ⟨n, hn, rfl⟩ := List.mem_map.1 hname
      exact hdots n hn
    simp only [hsegs, Option.some.injEq, forall_eq', Misread, hc, true_and]
    exact matchesStart_iff hnames (forall₂_of_matchesPath hc h)
  · have hsegs : (GlobPredicate.parse pattern).segments = none := (parse_segments pattern).trans (if_neg hc)
    simp [hsegs, Misread, hc]

/-- The groups a filter is to leave: those that match and those above one that does. -/
def Wanted {J : Type} (H : Hierarchy J) (pattern : Str) (p : Path) : Prop :=
  p ∈ H.groupPaths ∧ ∃ q ∈ H.groupPaths, p <+: q ∧ MatchesPath pattern q

section
variable {J E D : Type} {o : Opener J E D} {H : Hierarchy J} {pattern : Str}

/-- Every match survives exactly if the pattern is read alike or nothing matches. -/
theorem matches_survive_iff (hdots : ∀ p ∈ H.groupPaths, NoDots p) :
    (∀ q ∈ H.groupPaths, MatchesPath pattern q → passes (some (.parse pattern)) (pathStr q) = true) ↔
      ¬ (Misread pattern ∧ ∃ q ∈ H.groupPaths, MatchesPath pattern q) := by
  constructor
  · rintro h ⟨hmis, q, hq, hm⟩
    exact (passes_iff (hdots q hq) hm).1 (h q hq hm) hmis
  · intro h q hq hm
    exact (passes_iff (hdots q hq) hm).2 fun hmis => h ⟨hmis, q, hq, hm⟩

/-- Filtering the survivors gives the wanted groups exactly if every match survives. -/
theorem filtered_eq_wanted_iff {out kept : List Path}
    (hout : ∀ q, q ∈ out ↔ q ∈ H.groupPaths ∧ passes (some (.parse pattern)) (pathStr q) = true)
    (hkept : ∀ p, p ∈ kept ↔ p ∈ out ∧ ∃ q ∈ out, p <+: q ∧ MatchesPath pattern q) :
    (∀ p, p ∈ kept ↔ Wanted H pattern p) ↔
      ∀ q ∈ H.groupPaths, MatchesPath pattern q → passes (some (.parse pattern)) (pathStr q) = true := by
  constructor
  · intro h q hq hm
    have hw : q ∈ kept := (h q).2 ⟨hq, q, hq, List.prefix_refl q, hm⟩
    exact ((hout q).1 ((hkept q).1 hw).1).2
  · intro h p
    rw [hkept]
    constructor
    · rintro ⟨hp, q, hq, hpre, hm⟩
      exact ⟨((hout p).1 hp).1, q, ((hout q).1 hq).1, hpre, hm⟩
    · -- A group above a survivor survives.
      rintro ⟨hp, q, hq, hpre, hm⟩
      have hpass := h q hq hm
      exact ⟨(hout p).2 ⟨hp, passes_prefix hpre hpass⟩, q, (hout q).2 ⟨hq, hpass⟩, hpre, hm⟩

/-- The keys are the texts of some paths exactly if they are those of these paths. -/
theorem keys_iff {kept : List Path} {W : Path → Prop} :
    (∀ s, s ∈ kept.map pathStr ↔ ∃ p, s = pathStr p ∧ W p) ↔ ∀ p, p ∈ kept ↔ W p := by
  constructor
  · intro h p
    rw [← List.mem_map_of_injective pathStr_injective, h]
    constructor
    · rintro ⟨q, heq, hq⟩
      rwa [pathStr_injective heq]
    · intro hp
      exact ⟨p, rfl, hp⟩
  · intro h s
    rw [List.mem_map]
    constructor
    · rintro ⟨p, hp, rfl⟩
      exact ⟨p, rfl, (h p).1 hp⟩
    · rintro ⟨p, rfl, hp⟩
      exact ⟨p, (h p).2 hp, rfl⟩

/-- Entries for distinct paths agree, whatever their order, exactly if the paths do. -/
theorem entries_perm_iff {V : Type} {kept kept' : List Path} (f : Path → V) (hnd : kept.Nodup) (hnd' : kept'.Nodup) :
    (kept.map fun p => (pathStr p, f p)).Perm (kept'.map fun p => (pathStr p, f p)) ↔ ∀ p, p ∈ kept ↔ p ∈ kept' := by
  have hinj : Function.Injective fun p => (pathStr p, f p) := fun p q h => pathStr_injective (congrArg Prod.fst h)
  rw [List.map_perm_map_iff hinj, List.perm_ext_iff_of_nodup hnd hnd']

/-- A pruned walk of the whole tree has the groups that pass the predicate. -/
theorem region_root {q : Path} :
    Region H [] true (some (.parse pattern)) q ↔
      q ∈ H.groupPaths ∧ passes (some (.parse pattern)) (pathStr q) = true := by
  refine and_congr_right fun _ => (and_iff_right List.nil_prefix).trans (or_iff_right_of_imp ?_)
  rintro rfl
  exact passes_root _

/-- The groups `open_datatree(group_filter=pattern)` leaves are the wanted ones,
and filtering the pruned walk is filtering the whole walk, exactly if the
pattern is not misread or no group matches it. -/
theorem prune_loses_nothing_iff (hsource : HeldFrom H (· = []) o.source) (hfuel : H.height ≤ o.fuel)
    (hroot : [] ∈ H.groupPaths) (hdots : ∀ p ∈ H.groupPaths, NoDots p) (hpattern : pattern ≠ [])
    (hmatch : Matchable pattern) (includeAncestorCoords : Bool) :
    ∃ pruned whole keptPruned keptWhole : Dict (NodeData J E),
      rustOpenOrExplain o none none (some pattern) = .ok pruned ∧ rustOpenOrExplain o none none none = .ok whole ∧
      filterByGlob pruned pattern = .ok keptPruned ∧ filterByGlob whole pattern = .ok keptWhole ∧
      (o.Converts → ∃ left, openDatatree o { groupFilter := some pattern, includeAncestorCoords } = .ok left) ∧
      (∀ left, openDatatree o { groupFilter := some pattern, includeAncestorCoords } = .ok left →
        ((∀ s, s ∈ left.map (·.1) ↔ ∃ p, s = pathStr p ∧ Wanted H pattern p) ↔
          ¬ (Misread pattern ∧ ∃ q ∈ H.groupPaths, MatchesPath pattern q))) ∧
      (keptPruned.Perm keptWhole ↔ ¬ (Misread pattern ∧ ∃ q ∈ H.groupPaths, MatchesPath pattern q)) := by
  obtain ⟨nodeOf, hopened⟩ := opened_ok hsource hfuel
  obtain ⟨out, hnd, hmem, hopen⟩ := hopened [] hroot rfl none (some pattern) (passes_root _)
  obtain ⟨all, hndAll, hmemAll, hopenAll⟩ := hopened [] hroot rfl none none rfl
  have hout : ∀ q, q ∈ out ↔ q ∈ H.groupPaths ∧ passes (some (.parse pattern)) (pathStr q) = true := fun q =>
    (hmem q).trans region_root
  have hall : ∀ q, q ∈ all ↔ q ∈ H.groupPaths := by
    intro q
    simpa using (hmemAll q).trans region_recursive
  obtain ⟨kept, hsub, hkept, hfilter⟩ := filterByGlob_ok hmatch (fun p hp => hdots p ((hout p).1 hp).1) nodeOf
  obtain ⟨keptAll, hsubAll, hkeptAll, hfilterAll⟩ := filterByGlob_ok hmatch (fun p hp => hdots p ((hall p).1 hp)) nodeOf
  -- The whole walk is filtered to the wanted groups.
  have hwanted : ∀ p, p ∈ keptAll ↔ Wanted H pattern p := by
    intro p
    simp only [hkeptAll, hall, Wanted]
  have hiff := (filtered_eq_wanted_iff hout hkept).trans (matches_survive_iff hdots)
  have hopen' : rustOpenOrExplain o none none (some pattern) = .ok (out.map fun p => (pathStr p, nodeOf p)) := hopen
  have hleft : openDatatree o { groupFilter := some pattern, includeAncestorCoords } =
      toDatasets o.nodeToDataset (kept.map fun p => (pathStr p, nodeOf p)) := by
    rw [openDatatree_filter o includeAncestorCoords hpattern, hopen']
    simp only [hfilter]
  refine ⟨_, _, _, _, hopen', hopenAll, hfilter, hfilterAll, ?_, ?_, ?_⟩
  · intro hconverts
    rw [hleft]
    choose dataset hdataset using fun p => hconverts (nodeOf p)
    exact ⟨_, toDatasets_ok fun p _ => hdataset p⟩
  · intro left hopened
    rw [hleft] at hopened
    rw [toDatasets_keys hopened, List.map_map]
    exact keys_iff.trans hiff
  · rw [entries_perm_iff nodeOf (hsub.nodup hnd) (hsubAll.nodup hndAll), ← hiff]
    simp only [hwanted]

end

/-- The sweeps of one volume of the radar tree. -/
theorem prune_loses_nothing_radar :
    ∃ pruned whole keptPruned keptWhole : Dict (NodeData Nat Unit),
      rustOpenOrExplain (radarOpener (.vanilla (storeOf radarTree)) false) none none (some "/VCP-12/*".toList) =
        .ok pruned ∧
      rustOpenOrExplain (radarOpener (.vanilla (storeOf radarTree)) false) none none none = .ok whole ∧
      filterByGlob pruned "/VCP-12/*".toList = .ok keptPruned ∧ filterByGlob whole "/VCP-12/*".toList = .ok keptWhole ∧
      ((radarOpener (.vanilla (storeOf radarTree)) false).Converts →
        ∃ left, openDatatree (radarOpener (.vanilla (storeOf radarTree)) false)
          { groupFilter := some "/VCP-12/*".toList, includeAncestorCoords := true } = .ok left) ∧
      (∀ left, openDatatree (radarOpener (.vanilla (storeOf radarTree)) false)
          { groupFilter := some "/VCP-12/*".toList, includeAncestorCoords := true } = .ok left →
        ((∀ s, s ∈ left.map (·.1) ↔ ∃ p, s = pathStr p ∧ Wanted radarTree "/VCP-12/*".toList p) ↔
          ¬ (Misread "/VCP-12/*".toList ∧ ∃ q ∈ radarTree.groupPaths, MatchesPath "/VCP-12/*".toList q))) ∧
      (keptPruned.Perm keptWhole ↔
        ¬ (Misread "/VCP-12/*".toList ∧ ∃ q ∈ radarTree.groupPaths, MatchesPath "/VCP-12/*".toList q)) :=
  prune_loses_nothing_iff (o := radarOpener (.vanilla (storeOf radarTree)) false) (storeOf_serves radarTree) (by decide)
    (by decide) (by decide) (by decide) (fun path => ⟨_, rfl⟩) true

/-- A dot inside the pattern: the matching sweep is pruned by either walker. -/
theorem prune_loses_sweep :
    openDatatree (radarOpener (.vanilla (storeOf radarTree)) false) { groupFilter := some "/VCP-12/./sweep_0".toList } =
      .ok [] ∧
    openDatatree (radarOpener (.icechunk (sessionOf radarTree)) true)
      { groupFilter := some "/VCP-12/./sweep_0".toList } = .ok [] ∧
    Wanted radarTree "/VCP-12/./sweep_0".toList [vcp12, sweep0] := by
  refine ⟨by decide, by decide, by decide, [vcp12, sweep0], by decide, List.prefix_refl _, ?_⟩
  unfold MatchesPath
  decide

end Rustytree
