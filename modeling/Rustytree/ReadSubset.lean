import Rustytree.Dtype
import Rustytree.Lib.ChunkGrid
import Rustytree.SliceNd
/-!
# Reading a subset (`ZarrsArrayHandle::read_subset`)

Validation of the ranges, alignment to the chunk grid, one retrieval, slicing.
Sizes, positions and chunk extents are natural numbers here; what `u64` does
to the rounding is a separate matter.
-/

namespace Rustytree.ReadSubset
open Lib.ChunkGrid Lib.RowMajor

variable {T : Type}

/-- An opened `zarrs::Array`: what `read_subset` asks it. `retrieve` is
`async_retrieve_array_subset` and `chunkShape` is `chunk_shape` of the chunk
at the origin. -/
structure ZarrsArrayHandle (T : Type) where
  shape : List Nat
  dataType : DataType
  chunkShape : Except String (List Nat)
  retrieve : List Range → Except String (List T)

/-- The subsets a read asks zarrs for, and what it returns. -/
structure Read (α : Type) where
  retrieved : List (List Range)
  result : Except PyErr α

/-! ## The source -/

/-- The validation loop from axis `i` on. -/
def checkRanges : Nat → List Range → List Nat → Except PyErr Unit
  | i, (start, stop) :: ranges, size :: shape =>
    if start > stop then .error (.valueError s!"range[{i}]: start {start} > stop {stop}")
    else if stop > size then .error (.indexError s!"range[{i}] stop {stop} exceeds dim size {size}")
    else checkRanges (i + 1) ranges shape
  | _, _, _ => .ok ()

/-- What the alignment loop pushes for one axis. -/
structure AlignedAxis where
  range : Range
  requestOffset : Nat
  requestLen : Nat
  alignedLen : Nat
  deriving DecidableEq, Repr

/-- The body of the alignment loop. -/
def alignAxis (chunk size : Nat) (range : Range) : AlignedAxis :=
  let cs := max chunk 1
  -- Both ends go out to the grid; only the upper one is clamped to the array.
  let alignedStart := range.1 / cs * cs
  let alignedStopUnbounded := divCeil range.2 cs * cs
  let alignedStop := min alignedStopUnbounded size
  { range := (alignedStart, alignedStop)
    requestOffset := range.1 - alignedStart
    requestLen := range.2 - range.1
    alignedLen := alignedStop - alignedStart }

/-- The alignment loop. -/
def alignRanges : List Nat → List Nat → List Range → List AlignedAxis
  | chunk :: chunks, size :: shape, range :: ranges => alignAxis chunk size range :: alignRanges chunks shape ranges
  | _, _, _ => []

/-- Some axis selects nothing. -/
def isEmpty (ranges : List Range) : Bool := ranges.any fun r => r.1 == r.2

/-- `read_subset`. `retrieve` stands for the typed reads of every supported
dtype; a panic of `slice_nd` surfaces as such. -/
def readSubset (h : ZarrsArrayHandle T) (ranges : List Range) : Read (List T) :=
  if ranges.length ≠ h.shape.length then
    ⟨[], .error (.indexError s!"expected {h.shape.length} ranges, got {ranges.length}")⟩
  else match checkRanges 0 ranges h.shape with
  | .error err => ⟨[], .error err⟩
  | .ok () =>
    match h.chunkShape with
    | .error err => ⟨[], .error (.valueError s!"zarrs: chunk_shape lookup failed: {err}")⟩
    | .ok chunkShape =>
      let axes := alignRanges chunkShape h.shape ranges
      let subset := axes.map (·.range)
      let slice (elements : List T) : Except PyErr (List T) :=
        match SliceNd.sliceNd elements (axes.map (·.alignedLen)) (axes.map (·.requestOffset))
          (axes.map (·.requestLen)) with
        | some sliced => .ok sliced
        | none => .error .panicException
      if h.dataType.supported then
        -- Alignment would widen an empty selection to a whole chunk.
        if isEmpty ranges then ⟨[], slice []⟩
        else match h.retrieve subset with
        | .error err => ⟨[subset], .error (.valueError s!"zarrs read failed: {err}")⟩
        | .ok elements => ⟨[subset], slice elements⟩
      else ⟨[], .error (.notImplementedError (s!"rustytree: dtype {h.dataType.zarrName} is not yet supported by " ++
        "ZarrsArrayHandle.read_subset; supported today: bool, int\x7b8,16,32,64\x7d, uint\x7b8,16,32,64\x7d, " ++
        "float\x7b32,64\x7d"))⟩

/-! ## What it retrieves -/

/-- The ranges satisfy `read_subset`'s contract. -/
def Valid (ranges : List Range) (shape : List Nat) : Prop :=
  List.Forall₂ (fun r size => r.1 ≤ r.2 ∧ r.2 ≤ size) ranges shape

theorem checkRanges_ok {i : Nat} {ranges : List Range} {shape : List Nat} (hlen : ranges.length = shape.length) :
    checkRanges i ranges shape = .ok () ↔ Valid ranges shape := by
  induction ranges generalizing i shape with
  | nil => cases shape <;> simp_all [checkRanges, Valid]
  | cons r ranges ih =>
    cases shape with
    | nil => simp at hlen
    | cons size shape =>
      simp only [checkRanges, Valid, List.forall₂_cons]
      rw [← Valid, ← ih (i := i + 1) (by simpa using hlen)]
      split
      next h => simp; omega
      next h =>
        split
        next h' => simp; omega
        next h' => simp [Nat.le_of_not_lt h, Nat.le_of_not_lt h']

/-- What the alignment loop pushes for an axis of the read. -/
def pushed (a : Axis) : AlignedAxis := alignAxis a.chunk a.size a.range

theorem alignRanges_axes (axes : List Axis) :
    alignRanges (axes.map (·.chunk)) (axes.map (·.size)) (axes.map (·.range)) =
      axes.map pushed := by
  induction axes with
  | nil => rfl
  | cons a axes ih => simp only [List.map_cons, alignRanges, ih, pushed]

theorem pushed_range (a : Axis) : (pushed a).range = a.aligned := by
  simp [pushed, alignAxis, Axis.aligned, roundOut, Nat.max_eq_left a.chunk_pos]

theorem valid_axes (axes : List Axis) : Valid (axes.map (·.range)) (axes.map (·.size)) := by
  rw [Valid, List.forall₂_map_left_iff, List.forall₂_map_right_iff, List.forall₂_same]
  exact fun a _ => ⟨Nat.le_of_lt a.nonempty, a.bound⟩

theorem isEmpty_axes (axes : List Axis) : isEmpty (axes.map (·.range)) = false := by
  simp only [isEmpty, List.any_map, List.any_eq_false, Function.comp_apply, beq_iff_eq]
  exact fun a _ => Nat.ne_of_lt a.nonempty

/-- A read of non-empty valid ranges retrieves the aligned box, once, and slices it. -/
theorem readSubset_axes (h : ZarrsArrayHandle T) (axes : List Axis) (hd : h.dataType.supported = true)
    (hc : h.chunkShape = .ok (axes.map (·.chunk))) (hs : h.shape = axes.map (·.size)) :
    readSubset h (axes.map (·.range)) = ⟨[axes.map (·.aligned)],
      match h.retrieve (axes.map (·.aligned)) with
      | .error err => .error (.valueError s!"zarrs read failed: {err}")
      | .ok elements =>
        match SliceNd.sliceNd elements (axes.map fun a => (pushed a).alignedLen)
          (axes.map fun a => (pushed a).requestOffset) (axes.map fun a => (pushed a).requestLen) with
        | some sliced => .ok sliced
        | none => .error .panicException⟩ := by
  have hv := (checkRanges_ok (i := 0) (by simp)).2 (valid_axes axes)
  have hsub : List.map ((fun x : AlignedAxis => x.range) ∘ pushed) axes =
      axes.map (·.aligned) := List.map_congr_left fun a _ => pushed_range a
  simp only [readSubset, hs, List.length_map, ne_eq, not_true_eq_false, if_false, hv, hc, hd, if_true,
    isEmpty_axes, alignRanges_axes, List.map_map, hsub, Bool.false_eq_true]
  cases h.retrieve (axes.map (·.aligned)) <;> rfl

theorem alignRanges_requestLen {chunks shape : List Nat} {ranges : List Range} (hlen : chunks.length = shape.length)
    (hv : Valid ranges shape) :
    (alignRanges chunks shape ranges).map (·.requestLen) = ranges.map fun r => r.2 - r.1 := by
  induction hv generalizing chunks with
  | nil => cases chunks <;> rfl
  | cons _ _ ih =>
    cases chunks with
    | nil => simp at hlen
    | cons c chunks => simp only [alignRanges, List.map_cons, ih (by simpa using hlen)]; rfl

/-- A read with an empty axis asks zarrs for nothing and returns nothing. -/
theorem readSubset_empty (h : ZarrsArrayHandle T) {chunks : List Nat} {ranges : List Range}
    (hd : h.dataType.supported = true) (hc : h.chunkShape = .ok chunks) (hlen : chunks.length = h.shape.length)
    (hv : Valid ranges h.shape) (he : isEmpty ranges = true) : readSubset h ranges = ⟨[], .ok []⟩ := by
  have hrank : ranges.length = h.shape.length := hv.length_eq
  have hzero : (ranges.map fun r => r.2 - r.1).prod = 0 := by
    obtain ⟨r, hr, heq⟩ := List.any_eq_true.1 he
    have heq : r.1 = r.2 := by simpa using heq
    exact List.prod_eq_zero (List.mem_map.2 ⟨r, hr, by omega⟩)
  have hslice := SliceNd.sliceNd_nil (T := T) (a := (alignRanges chunks h.shape ranges).map (·.alignedLen))
    (o := (alignRanges chunks h.shape ranges).map (·.requestOffset))
    (s := (alignRanges chunks h.shape ranges).map (·.requestLen)) (by simp)
    (by rw [alignRanges_requestLen hlen hv]; exact hzero)
  have hcheck := (checkRanges_ok (i := 0) hrank).2 hv
  simp only [readSubset, ne_eq, hrank, not_true_eq_false, if_false, hcheck, hc, hd, he, if_true, hslice]

/-- zarrs returns the elements of a subset in row-major order. -/
def Retrieves (h : ZarrsArrayHandle T) (A : List Nat → T) : Prop :=
  ∀ subset, Valid subset h.shape → h.retrieve subset =
    .ok ((indices (subset.map fun r => r.2 - r.1)).map fun j => A (List.zipWith (fun r i => r.1 + i) subset j))

/-- Every range starts on a chunk boundary and ends on one, or with its axis. -/
def OnGrid : List Nat → List Nat → List Range → Prop
  | chunk :: chunks, size :: shape, r :: ranges =>
    (chunk ∣ r.1 ∧ (chunk ∣ r.2 ∨ r.2 = size)) ∧ OnGrid chunks shape ranges
  | _, _, _ => True

/-- The same, of subsets that lie on the chunk grid only. Every other one may miss the
fallback to the fill value where a chunk is absent. -/
def RetrievesOnGrid (h : ZarrsArrayHandle T) (chunks : List Nat) (A : List Nat → T) : Prop :=
  ∀ subset, Valid subset h.shape → OnGrid chunks h.shape subset → h.retrieve subset =
    .ok ((indices (subset.map fun r => r.2 - r.1)).map fun j => A (List.zipWith (fun r i => r.1 + i) subset j))

theorem Retrieves.onGrid {h : ZarrsArrayHandle T} {A : List Nat → T} (hA : Retrieves h A) {chunks : List Nat} :
    RetrievesOnGrid h chunks A := fun subset hv _ => hA subset hv

theorem onGrid_aligned (axes : List Axis) :
    OnGrid (axes.map (·.chunk)) (axes.map (·.size)) (axes.map (·.aligned)) := by
  induction axes with
  | nil => trivial
  | cons a axes ih =>
    refine ⟨⟨Nat.dvd_mul_left _ _, ?_⟩, ih⟩
    show a.chunk ∣ min (divCeil a.range.2 a.chunk * a.chunk) a.size ∨ _
    rcases Nat.le_total (divCeil a.range.2 a.chunk * a.chunk) a.size with hle | hle
    · rw [Nat.min_eq_left hle]
      exact .inl (Nat.dvd_mul_left _ _)
    · exact .inr (Nat.min_eq_right hle)

theorem valid_aligned (axes : List Axis) : Valid (axes.map (·.aligned)) (axes.map (·.size)) := by
  rw [Valid, List.forall₂_map_left_iff, List.forall₂_map_right_iff, List.forall₂_same]
  intro a _
  obtain ⟨h1, h2, h3⟩ := roundOut_bounds a.chunk_pos a.bound
  have := a.nonempty
  exact ⟨by rw [Axis.aligned]; omega, h3⟩

theorem fits_axes (axes : List Axis) :
    SliceNd.Fits (axes.map fun a => (pushed a).requestOffset) (axes.map fun a => (pushed a).requestLen)
      (axes.map fun a => (pushed a).alignedLen) := by
  rw [SliceNd.Fits, List.zipWith_map, List.zipWith_self, List.forall₂_map_left_iff, List.forall₂_map_right_iff,
    List.forall₂_same]
  intro a _
  obtain ⟨h1, h2, -⟩ := roundOut_bounds a.chunk_pos a.bound
  have := a.nonempty
  simp only [roundOut] at h1 h2
  simp only [pushed, alignAxis, Nat.max_eq_left a.chunk_pos]
  omega

/-- The offset into the aligned range leads back to the request. -/
theorem offsets_axes (axes : List Axis) (j : List Nat) :
    List.zipWith (fun (r : Range) i => r.1 + i) (axes.map (·.aligned))
      (List.zipWith (· + ·) (axes.map fun a => (pushed a).requestOffset) j) =
    List.zipWith (fun (r : Range) i => r.1 + i) (axes.map (·.range)) j := by
  induction axes generalizing j with
  | nil => rfl
  | cons a axes ih =>
    cases j with
    | nil => rfl
    | cons i j =>
      have hoff : a.aligned.1 + ((pushed a).requestOffset + i) = a.range.1 + i := by
        have := (roundOut_bounds a.chunk_pos a.bound).1
        simp only [roundOut] at this
        simp only [Axis.aligned, roundOut, pushed, alignAxis, Nat.max_eq_left a.chunk_pos]
        omega
      simp only [List.map_cons, List.zipWith_cons_cons, ih, hoff]

/-- A read of non-empty valid ranges returns the elements of the request in row-major order. -/
theorem readSubset_box (h : ZarrsArrayHandle T) {A : List Nat → T} (axes : List Axis)
    (hd : h.dataType.supported = true) (hc : h.chunkShape = .ok (axes.map (·.chunk)))
    (hs : h.shape = axes.map (·.size)) (hA : RetrievesOnGrid h (axes.map (·.chunk)) A) :
    readSubset h (axes.map (·.range)) = ⟨[axes.map (·.aligned)],
      .ok ((indices (axes.map fun a => a.range.2 - a.range.1)).map fun j =>
        A (List.zipWith (fun r i => r.1 + i) (axes.map (·.range)) j))⟩ := by
  have hlens : List.map (fun r : Range => r.2 - r.1) (axes.map (·.aligned)) =
      axes.map fun a => (pushed a).alignedLen := by
    rw [List.map_map]
    apply List.map_congr_left
    intro a _
    simp [Axis.aligned, roundOut, pushed, alignAxis, Nat.max_eq_left a.chunk_pos]
  have hslice := SliceNd.sliceNd_box (fun j => A (List.zipWith (fun (r : Range) i => r.1 + i) (axes.map (·.aligned)) j))
    (by simp) (by simp) (fits_axes axes)
  simp only [offsets_axes] at hslice
  rw [readSubset_axes h axes hd hc hs, hA _ (hs ▸ valid_aligned axes) (hs ▸ onGrid_aligned axes), hlens]
  simp only [hslice]
  rfl

/-! ## Whole chunks -/

/-- No range reaches into a final chunk that its axis cuts short. -/
def ClearOfRaggedChunk : List Nat → List Nat → List Range → Prop
  | chunk :: chunks, size :: shape, r :: ranges =>
    r.2 ≤ size / chunk * chunk ∧ ClearOfRaggedChunk chunks shape ranges
  | _, _, _ => True

theorem clear_axes (axes : List Axis) :
    ClearOfRaggedChunk (axes.map (·.chunk)) (axes.map (·.size)) (axes.map (·.range)) ↔
      ∀ a ∈ axes, a.range.2 ≤ a.size / a.chunk * a.chunk := by
  induction axes with
  | nil => simp [ClearOfRaggedChunk]
  | cons a axes ih => simp only [List.map_cons, ClearOfRaggedChunk, List.forall_mem_cons, ih]

/-- `subset` cuts no chunk it meets: the chunk's full extent lies inside, so
that what they share is the whole chunk and zarrs reads it whole. -/
def CutsNoChunk (chunks : List Nat) (subset : List Range) : Prop :=
  ∀ c, c.length = chunks.length → List.Forall₂ Meet (chunkExtent chunks c) subset →
    List.Forall₂ Inside (chunkExtent chunks c) subset ∧
      List.zipWith overlap (chunkExtent chunks c) subset = chunkExtent chunks c

theorem overlap_box {a b : List Range} (h : List.Forall₂ Inside a b) : List.zipWith overlap a b = a := by
  induction h with
  | nil => rfl
  | cons hi _ ih => simp [(overlap_eq_iff _ _).2 hi, ih]

theorem cutsNoChunk_axes (axes : List Axis) :
    CutsNoChunk (axes.map (·.chunk)) (axes.map (·.aligned)) ↔
      ∀ a ∈ axes, a.range.2 ≤ a.size / a.chunk * a.chunk := by
  rw [← whole_chunks_box]
  constructor
  · intro h c hc
    have hlen : c.length = axes.length := hc.length_eq.symm
    have hm := (forall₂_extent (P := Meet) axes (·.aligned) hlen).2 hc
    exact (forall₂_extent axes (·.aligned) hlen).1 (h c (by simpa using hlen) hm).1
  · intro h c hlen hm
    have hlen' : c.length = axes.length := by simpa using hlen
    have hin := (forall₂_extent axes (·.aligned) hlen').2
      (h c ((forall₂_extent axes (·.aligned) hlen').1 hm))
    exact ⟨hin, overlap_box hin⟩

theorem readSubset_retrieved_empty (h : ZarrsArrayHandle T) (ranges : List Range) (hd : h.dataType.supported = true)
    (he : isEmpty ranges = true) : (readSubset h ranges).retrieved = [] := by
  unfold readSubset
  rw [hd, he]
  split
  · rfl
  · split
    · rfl
    · split <;> rfl

/-- A read asks zarrs for whole chunks only, exactly when it asks for nothing or
no range reaches into a final chunk that its axis cuts short. -/
theorem reads_whole_chunks_iff (h : ZarrsArrayHandle T) (chunks : List Nat) (ranges : List Range)
    (hd : h.dataType.supported = true) (hc : h.chunkShape = .ok chunks) (hlen : chunks.length = h.shape.length)
    (hpos : ∀ c ∈ chunks, 1 ≤ c) (hv : Valid ranges h.shape) :
    (∀ subset ∈ (readSubset h ranges).retrieved, CutsNoChunk chunks subset) ↔
      (∃ r ∈ ranges, r.1 = r.2) ∨ ClearOfRaggedChunk chunks h.shape ranges := by
  by_cases he : ∃ r ∈ ranges, r.1 = r.2
  · have hempty : isEmpty ranges = true := by simpa [isEmpty] using he
    simp [readSubset_retrieved_empty h ranges hd hempty, he]
  · have hne : ∀ r ∈ ranges, r.1 < r.2 := by
      intro r hr
      have hle := ((List.forall₂_and_left ranges h.shape).1 hv).1 r hr
      exact Nat.lt_of_le_of_ne hle fun heq => he ⟨r, hr, heq⟩
    obtain ⟨axes, rfl, hs, rfl⟩ := exists_axes hlen hpos hne hv
    rw [← hs, clear_axes, ← cutsNoChunk_axes, readSubset_axes h axes hd hc hs.symm]
    simp only [List.mem_singleton, forall_eq, he, false_or]

/-- Shape 13 in chunks of 4, as in the source's tests; the final chunk is ragged. -/
def raggedHandle : ZarrsArrayHandle Nat where
  shape := [13]
  dataType := ⟨.float64, some "float64", "float64 / <f8"⟩
  chunkShape := .ok [4]
  retrieve subset := .ok ((indices (subset.map fun r => r.2 - r.1)).map fun j =>
    (List.zipWith (fun r i => r.1 + i) subset j).sum)

theorem reads_whole_chunks_interior :
    (∀ subset ∈ (readSubset raggedHandle [(5, 7)]).retrieved, CutsNoChunk [4] subset) ↔
      (∃ r ∈ [(5, 7)], r.1 = r.2) ∨ ClearOfRaggedChunk [4] [13] [(5, 7)] :=
  reads_whole_chunks_iff raggedHandle [4] [(5, 7)] rfl rfl rfl (by decide) (.cons (by decide) .nil)

/-- Reading the last element asks for `[12, 13)`, which cuts the chunk `[12, 16)`. -/
theorem reads_cut_chunk :
    Valid [(12, 13)] raggedHandle.shape ∧ (readSubset raggedHandle [(12, 13)]).retrieved = [[(12, 13)]] ∧
      ¬ CutsNoChunk [4] [(12, 13)] := by
  refine ⟨.cons (by decide) .nil, by decide, fun hcut => ?_⟩
  have hin := (hcut [3] rfl (.cons (by decide) .nil)).1
  cases hin with
  | cons h _ => exact absurd h (by decide)

end Rustytree.ReadSubset
