import Rustytree.AlignU64
import Rustytree.EagerRead
import Rustytree.Lib.Cover
/-!
# Reading an array in pieces

A variable opened with `chunks={}` is read in the blocks its `encoding` names,
one read for each. `read_subset` rounds every read out to whole chunks, so how
often a chunk is fetched depends on how the array was cut: we prove that cuts on
the chunk grid, and no others, fetch every chunk once. The pieces always make
the array.
-/

namespace Rustytree
open AlignU64 Indexing Lib.ChunkGrid Lib.Cover Lib.RowMajor ReadSubset

variable {T V : Type}

/-- The index lies in the box. -/
abbrev Holding (box : List Range) (idx : List Nat) : Prop := List.Forall₂ Contains box idx

/-- Reading the box takes a part of chunk `c`. -/
abbrev Touches (chunks : List Nat) (box : List Range) (c : List Nat) : Prop :=
  List.Forall₂ Meet (chunkExtent chunks c) box

/-- How many chunks each axis has. -/
def gridShape (chunks shape : List Nat) : List Nat := List.zipWith (fun chunk size => divCeil size chunk) chunks shape

/-- The reads divide the array among themselves. -/
structure Divides (shape : List Nat) (reads : List (List Range)) : Prop where
  valid : ∀ ranges ∈ reads, Valid ranges shape
  once : CoversOnce Holding (Below · shape) reads

/-- What zarrs is asked for by all the reads. -/
def fetched (h : ZarrsArrayHandle T) (reads : List (List Range)) : List (List Range) :=
  reads.flatMap fun ranges => (readSubset h ranges).retrieved

/-! ## One read -/

theorem below_of_holding {box : List Range} {shape idx : List Nat} (hv : Valid box shape) (h : Holding box idx) :
    Below idx shape := by
  induction hv generalizing idx with
  | nil => cases h; exact .nil
  | cons hr _ ih =>
    cases h with
    | cons hi h => exact .cons (hi.2.trans_le hr.2) (ih h)

theorem not_holding_of_empty {box : List Range} (he : ∃ r ∈ box, r.1 = r.2) (idx : List Nat) : ¬ Holding box idx := by
  intro h
  obtain ⟨r, hr, heq⟩ := he
  obtain ⟨i, -, hi⟩ := Lib.Collect.exists_of_forall₂ h hr
  simp only [Contains] at hi
  omega

theorem onGrid_axes (axes : List Axis) :
    OnGrid (axes.map (·.chunk)) (axes.map (·.size)) (axes.map (·.range)) ↔ ∀ a ∈ axes, a.OnGrid := by
  induction axes with
  | nil => simp [OnGrid]
  | cons a axes ih => simp only [List.map_cons, OnGrid, List.forall_mem_cons, ih, Axis.OnGrid]

section
variable {h : ZarrsArrayHandle T} {chunks : List Nat} {ranges : List Range}

/-- A read asks for nothing, or for one box that holds the request and, where the
request is not on the grid, something beyond it. -/
theorem retrieved_cases (hd : h.dataType.supported = true) (hc : h.chunkShape = .ok chunks)
    (hlen : chunks.length = h.shape.length) (hpos : ∀ c ∈ chunks, 1 ≤ c) (hv : Valid ranges h.shape) :
    ((∃ r ∈ ranges, r.1 = r.2) ∧ (readSubset h ranges).retrieved = []) ∨
    ((∀ r ∈ ranges, r.1 < r.2) ∧ ∃ box, (readSubset h ranges).retrieved = [box] ∧ Valid box h.shape ∧
      (∀ idx, Holding ranges idx → Holding box idx) ∧
      ((∀ idx, Holding box idx → Holding ranges idx) ↔ OnGrid chunks h.shape ranges) ∧
      ∀ idx, Below idx h.shape → (Touches chunks box (List.zipWith (· / ·) idx chunks) ↔ Holding box idx)) := by
  by_cases he : ∃ r ∈ ranges, r.1 = r.2
  · exact .inl ⟨he, readSubset_retrieved_empty h ranges hd (by simpa [isEmpty] using he)⟩
  · have hne : ∀ r ∈ ranges, r.1 < r.2 := by
      intro r hr
      have hle := ((List.forall₂_and_left ranges h.shape).1 hv).1 r hr
      exact Nat.lt_of_le_of_ne hle fun heq => he ⟨r, hr, heq⟩
    obtain ⟨axes, rfl, hs, rfl⟩ := exists_axes hlen hpos hne hv
    refine .inr ⟨hne, axes.map (·.aligned), by rw [readSubset_axes h axes hd hc hs.symm], hs ▸ valid_aligned axes,
      ?_, ?_, ?_⟩
    · intro idx hidx
      rw [Holding, List.forall₂_map_left_iff] at hidx ⊢
      exact hidx.imp fun a i hi => a.contains_aligned hi
    · have hside : ∀ r ∈ axes.map (·.aligned), r.1 < r.2 := by
        intro r hr
        obtain ⟨a, -, rfl⟩ := List.mem_map.1 hr
        exact a.aligned_nonempty
      rw [forall_contains_iff hside, ← hs, onGrid_axes, List.forall₂_map_left_iff, List.forall₂_map_right_iff,
        List.forall₂_same]
      exact forall₂_congr fun a _ => a.inside_iff_onGrid
    · intro idx hidx
      rw [← hs] at hidx
      have hrank : idx.length = axes.length := by simpa using hidx.length_eq
      rw [Touches, forall₂_extent axes _ (by simp [hrank]), Holding, List.forall₂_map_left_iff]
      clear hc hpos hlen hs hne he hv hrank
      induction axes generalizing idx with
      | nil => cases hidx; simp
      | cons a axes ih =>
        cases hidx with
        | cons hi hidx => simp [a.meet_chunk_iff hi, ih _ hidx]

/-- A read asks for nothing it was not asked for exactly if it is empty or on the grid. -/
theorem retrieved_exact_iff (hd : h.dataType.supported = true) (hc : h.chunkShape = .ok chunks)
    (hlen : chunks.length = h.shape.length) (hpos : ∀ c ∈ chunks, 1 ≤ c) (hv : Valid ranges h.shape) :
    (∀ idx, Below idx h.shape → (∃ box ∈ (readSubset h ranges).retrieved, Holding box idx) → Holding ranges idx) ↔
      (∃ r ∈ ranges, r.1 = r.2) ∨ OnGrid chunks h.shape ranges := by
  rcases retrieved_cases hd hc hlen hpos hv with ⟨he, hnil⟩ | ⟨hne, box, hbox, hvbox, -, hexact, -⟩
  · simp [hnil, he]
  · have hnot : ¬ ∃ r ∈ ranges, r.1 = r.2 := by
      rintro ⟨r, hr, heq⟩
      exact absurd heq (Nat.ne_of_lt (hne r hr))
    simp only [hbox, List.mem_singleton, exists_eq_left, hnot, false_or, ← hexact]
    constructor
    · intro hall idx hidx
      exact hall idx (below_of_holding hvbox hidx) hidx
    · intro hall idx _ hidx
      exact hall idx hidx

end

/-! ## Reads that divide the array -/

/-- The chunk of an element is a chunk of the grid. -/
theorem below_gridShape {chunks shape idx : List Nat} (hlen : chunks.length = shape.length)
    (hpos : ∀ c ∈ chunks, 1 ≤ c) (h : Below idx shape) :
    Below (List.zipWith (· / ·) idx chunks) (gridShape chunks shape) := by
  induction h generalizing chunks with
  | nil => cases chunks <;> simp_all [gridShape]
  | @cons i size idx shape hi _ ih =>
    cases chunks with
    | nil => simp at hlen
    | cons chunk chunks =>
      have hchunk : 0 < chunk := hpos chunk (by simp)
      have hlast : i / chunk < divCeil size chunk :=
        (lt_divCeil_iff hchunk).2 ((Nat.div_mul_le_self i chunk).trans_lt hi)
      exact .cons hlast (ih (by simpa using hlen) fun c hc => hpos c (by simp [hc]))

/-- Every chunk of the grid has an element of the array. -/
theorem exists_element {chunks shape c : List Nat} (hlen : chunks.length = shape.length) (hpos : ∀ c ∈ chunks, 1 ≤ c)
    (h : Below c (gridShape chunks shape)) : ∃ idx, Below idx shape ∧ List.zipWith (· / ·) idx chunks = c := by
  induction shape generalizing chunks c with
  | nil =>
    have hnil : chunks = [] := by simpa using hlen
    subst hnil
    cases h
    exact ⟨[], .nil, rfl⟩
  | cons size shape ih =>
    cases chunks with
    | nil => simp at hlen
    | cons chunk chunks =>
      rcases h with _ | ⟨hk, hrest⟩
      rename_i k c
      have hchunk : 0 < chunk := hpos chunk (by simp)
      obtain ⟨idx, hidx, rfl⟩ := ih (by simpa using hlen) (fun c hc => hpos c (by simp [hc])) hrest
      refine ⟨k * chunk :: idx, .cons ((lt_divCeil_iff hchunk).1 hk) hidx, ?_⟩
      simp [Nat.mul_div_cancel _ hchunk]

section
variable {h : ZarrsArrayHandle T} {chunks : List Nat} {reads : List (List Range)}

theorem retrieved_le_one (hd : h.dataType.supported = true) (hc : h.chunkShape = .ok chunks)
    (hlen : chunks.length = h.shape.length) (hpos : ∀ c ∈ chunks, 1 ≤ c) (hdiv : Divides h.shape reads) :
    ∀ ranges ∈ reads, (readSubset h ranges).retrieved.length ≤ 1 := by
  intro ranges hr
  rcases retrieved_cases hd hc hlen hpos (hdiv.valid ranges hr) with ⟨-, hnil⟩ | ⟨-, box, hbox, -⟩
  · simp [hnil]
  · simp [hbox]

/-- Every element is retrieved once exactly when no read leaves the grid. -/
theorem elements_once_iff (hd : h.dataType.supported = true) (hc : h.chunkShape = .ok chunks)
    (hlen : chunks.length = h.shape.length) (hpos : ∀ c ∈ chunks, 1 ≤ c) (hdiv : Divides h.shape reads) :
    CoversOnce Holding (Below · h.shape) (fetched h reads) ↔
      ∀ ranges ∈ reads, (∃ r ∈ ranges, r.1 = r.2) ∨ OnGrid chunks h.shape ranges := by
  have hgrow : ∀ ranges ∈ reads, ∀ idx, Below idx h.shape → Holding ranges idx →
      ∃ box ∈ (readSubset h ranges).retrieved, Holding box idx := by
    intro ranges hr idx _ hidx
    rcases retrieved_cases hd hc hlen hpos (hdiv.valid ranges hr) with ⟨he, -⟩ | ⟨-, box, hbox, -, hsub, -⟩
    · exact absurd hidx (not_holding_of_empty he idx)
    · exact ⟨box, by simp [hbox], hsub idx hidx⟩
  rw [fetched, coversOnce_flatMap (retrieved_le_one hd hc hlen hpos hdiv), coversOnce_grown_iff hgrow hdiv.once]
  exact forall₂_congr fun ranges hr => retrieved_exact_iff hd hc hlen hpos (hdiv.valid ranges hr)

/-- A chunk is fetched as often as each of its elements is retrieved. -/
theorem chunks_once_iff (hd : h.dataType.supported = true) (hc : h.chunkShape = .ok chunks)
    (hlen : chunks.length = h.shape.length) (hpos : ∀ c ∈ chunks, 1 ≤ c) (hdiv : Divides h.shape reads) :
    CoversOnce (Touches chunks) (Below · (gridShape chunks h.shape)) (fetched h reads) ↔
      CoversOnce Holding (Below · h.shape) (fetched h reads) := by
  have hchunk : ∀ ranges ∈ reads, ∀ idx, Below idx h.shape →
      ((∃ box ∈ (readSubset h ranges).retrieved, Touches chunks box (List.zipWith (· / ·) idx chunks)) ↔
        ∃ box ∈ (readSubset h ranges).retrieved, Holding box idx) := by
    intro ranges hr idx hidx
    rcases retrieved_cases hd hc hlen hpos (hdiv.valid ranges hr) with ⟨-, hnil⟩ | ⟨-, box, hbox, -, -, -, htouch⟩
    · simp [hnil]
    · simpa [hbox] using htouch idx hidx
  have hone := retrieved_le_one hd hc hlen hpos hdiv
  rw [fetched, coversOnce_flatMap hone, coversOnce_flatMap hone]
  exact coversOnce_rename (fun idx => List.zipWith (· / ·) idx chunks) (fun idx => below_gridShape hlen hpos)
    (fun c => exists_element hlen hpos) hchunk

/-- Reads that divide an array whose axes, rounded up to whole chunks, end within 64
bits: none of them overflows, and they ask zarrs for every element once, and for
every chunk once, exactly when none leaves the grid. -/
theorem fetched_once_iff (h : ZarrsArrayHandle T) (chunks : List Nat) (reads : List (List Range))
    (hd : h.dataType.supported = true) (hc : h.chunkShape = .ok chunks) (hpos : ∀ c ∈ chunks, 1 ≤ c)
    (hfits : FitsU64 chunks h.shape) (hdiv : Divides h.shape reads) :
    (∀ ranges ∈ reads, AlignsExactly chunks h.shape ranges) ∧
    (CoversOnce Holding (Below · h.shape) (fetched h reads) ↔
      ∀ ranges ∈ reads, (∃ r ∈ ranges, r.1 = r.2) ∨ OnGrid chunks h.shape ranges) ∧
    (CoversOnce (Touches chunks) (Below · (gridShape chunks h.shape)) (fetched h reads) ↔
      ∀ ranges ∈ reads, (∃ r ∈ ranges, r.1 = r.2) ∨ OnGrid chunks h.shape ranges) := by
  have helements := elements_once_iff hd hc hfits.length_eq hpos hdiv
  refine ⟨?_, helements, (chunks_once_iff hd hc hfits.length_eq hpos hdiv).trans helements⟩
  exact fun ranges hr => alignsExactly_of_fits hpos (hdiv.valid ranges hr) hfits

end

/-- Ten elements in chunks of 4. -/
def tenHandle : ZarrsArrayHandle Nat where
  shape := [10]
  dataType := ⟨.float64, some "float64", "float64 / <f8"⟩
  chunkShape := .ok [4]
  retrieve subset := .ok ((indices (subset.map fun r => r.2 - r.1)).map fun j =>
    (List.zipWith (fun r i => r.1 + i) subset j).sum)

/-- Two halves of 5 divide them. -/
theorem tenHandle_halves : Divides tenHandle.shape [[(0, 5)], [(5, 10)]] where
  valid ranges h := by
    rcases List.mem_pair.1 h with rfl | rfl <;> exact .cons (by decide) .nil
  once := by
    rintro _ (_ | ⟨hi, _ | _⟩)
    rename_i i
    have hhalf : i < 5 ∨ 5 ≤ i := Nat.lt_or_ge i 5
    rcases hhalf with h | h
    · simp [Contains, h, Nat.not_le.2 h]
    · simp [Contains, hi, h, Nat.not_lt.2 h]

/-- The halves meet within the second chunk, which is fetched for both. -/
theorem fetched_once_iff_halves :
    (∀ ranges ∈ [[(0, 5)], [(5, 10)]], AlignsExactly [4] [10] ranges) ∧
      ¬ CoversOnce (Touches [4]) (Below · (gridShape [4] [10])) (fetched tenHandle [[(0, 5)], [(5, 10)]]) := by
  obtain ⟨haligns, -, hchunks⟩ := fetched_once_iff tenHandle [4] _ rfl rfl (by decide)
    (.cons (by decide) .nil) tenHandle_halves
  refine ⟨haligns, fun h => ?_⟩
  rcases hchunks.1 h [(0, 5)] (by simp) with ⟨r, hr, heq⟩ | ⟨⟨-, hstop⟩, -⟩
  · cases List.mem_singleton.1 hr
    exact absurd heq (by decide)
  · exact absurd hstop (by decide)

/-! ## Putting the pieces together -/

/-- The key of a block: one slice for each axis. -/
def sliceKey (block : List Range) : List IndexEntry :=
  block.map fun r => .slice (some (r.1 : Int)) (some (r.2 : Int)) none

/-- Where an element stands among those of its block. -/
def within (block : List Range) (idx : List Nat) : Nat :=
  ravel (block.map fun r => r.2 - r.1) (List.zipWith (fun (r : Range) i => i - r.1) block idx)

/-- The array put together from pieces, each read on its own. -/
def loadPieces (cast : T → V) (handle : ZarrsArrayHandle T) (blocks : List (List Range)) : Read (NdArray V) :=
  let reads := blocks.map fun block => rawIndexingMethod cast handle (sliceKey block)
  ⟨reads.flatMap (·.retrieved), do
    let parts ← reads.mapM (·.result)
    let elems := (indices handle.shape).filterMap fun idx =>
      ((blocks.zip parts).find? fun part => Holding part.1 idx).bind fun part => part.2.elems[within part.1 idx]?
    reshape elems handle.shape⟩

/-- A block of the stored elements, cast. -/
def piece (cast : T → V) (A : List Nat → T) (block : List Range) : NdArray V where
  shape := block.map fun r => r.2 - r.1
  elems := (indices (block.map fun r => r.2 - r.1)).map fun j =>
    cast (A (List.zipWith (fun (r : Range) i => r.1 + i) block j))

/-- The picks of a block's key. -/
theorem exists_picks_block {block : List Range} {shape : List Nat} (hv : Valid block shape) :
    ∃ picks : List Pick, picks.map (·.entry) = sliceKey block ∧ picks.map (·.size) = shape ∧
      picks.map (·.range) = block := by
  induction hv with
  | nil => exact ⟨[], rfl, rfl, rfl⟩
  | @cons r size block shape hr _ ih =>
    obtain ⟨picks, hentry, rfl, rfl⟩ := ih
    obtain ⟨p, hp, rfl⟩ := exists_pick_slice (some (r.1 : Int)) (some (r.2 : Int)) none size
    have hrange : p.range = r := by
      have hraw := p.raw
      simp only [hp, rawRange, clampEnd, endpoint, Prod.mk.injEq] at hraw
      apply Prod.ext <;> omega
    exact ⟨p :: picks, by simp [hp, hentry, sliceKey], rfl, by simp [hrange]⟩

theorem keptLens_slices (picks : List Pick) {block : List Range} (hentry : picks.map (·.entry) = sliceKey block)
    (hrange : picks.map (·.range) = block) :
    keptLens (picks.map (·.entry)) (pickedPositions picks) = block.map fun r => r.2 - r.1 := by
  induction picks generalizing block with
  | nil => subst hrange; rfl
  | cons p picks ih =>
    subst hrange
    simp only [sliceKey, List.map_cons, List.cons.injEq] at hentry
    simp only [pickedPositions, List.map_cons, hentry.1, keptLens, List.length_range', List.cons.injEq, true_and]
    exact ih hentry.2 rfl

section
variable {handle : ZarrsArrayHandle T} {chunks : List Nat} {A : List Nat → T}

/-- A piece holds the elements of its block in row-major order. -/
theorem rawIndexingMethod_block (cast : T → V) (hd : handle.dataType.supported = true)
    (hc : handle.chunkShape = .ok chunks) (hlen : chunks.length = handle.shape.length) (hpos : ∀ c ∈ chunks, 1 ≤ c)
    (hA : Retrieves handle A) {block : List Range} (hv : Valid block handle.shape) :
    rawIndexingMethod cast handle (sliceKey block) =
      ⟨(readSubset handle block).retrieved, .ok (piece cast A block)⟩ := by
  obtain ⟨picks, hentry, hsize, hrange⟩ := exists_picks_block hv
  have hstep : ∀ e ∈ picks.map (·.entry), e.UnitStep := by
    intro e he
    rw [hentry, sliceKey] at he
    obtain ⟨r, -, rfl⟩ := List.mem_map.1 he
    exact .inl rfl
  have hgrid : grid (pickedPositions picks) = (indices (block.map fun r => r.2 - r.1)).map
      (List.zipWith (fun (r : Range) i => r.1 + i) block) := by
    rw [grid_picked, hrange, ← hrange, List.map_map]
    rfl
  have hread : readSubset handle (picks.map (·.range)) =
      ⟨(readSubset handle block).retrieved, .ok ((grid (pickedPositions picks)).map A)⟩ := by
    rcases readSubset_picks hd hc hlen hpos hA.onGrid hsize.symm with ⟨hnil, hread⟩ | ⟨-, axes, -, -, hread⟩
    · rw [hrange] at hread
      rw [hrange, hread, hnil]
      rfl
    · rw [hrange] at hread
      rw [hrange, hread]
  rw [← hentry, rawIndexingMethod_of_read cast hsize hstep hread (by simp), keptLens_slices picks hentry hrange, hgrid,
    List.map_map, List.map_map]
  rfl

/-- The element of an index is at its place within any block that holds it. -/
theorem getElem?_piece (cast : T → V) (A : List Nat → T) {block : List Range} {idx : List Nat}
    (h : Holding block idx) : (piece cast A block).elems[within block idx]? = some (cast (A idx)) := by
  have hbelow : Below (List.zipWith (fun (r : Range) i => i - r.1) block idx) (block.map fun r => r.2 - r.1) := by
    induction h with
    | nil => exact .nil
    | cons hi _ ih => exact .cons (Nat.sub_lt_sub_right hi.1 hi.2) ih
  have hback : List.zipWith (fun (r : Range) i => r.1 + i) block
      (List.zipWith (fun (r : Range) i => i - r.1) block idx) = idx := by
    clear hbelow
    induction h with
    | nil => rfl
    | cons hi _ ih => simp only [List.zipWith_cons_cons, ih, Nat.add_sub_cancel' hi.1]
  rw [piece, List.getElem?_map, within, getElem?_indices_ravel hbelow, Option.map_some, hback]

/-- Pieces that divide the array make the array, and ask zarrs for what their reads ask for. -/
theorem loadPieces_ok (cast : T → V) (hd : handle.dataType.supported = true) (hc : handle.chunkShape = .ok chunks)
    (hlen : chunks.length = handle.shape.length) (hpos : ∀ c ∈ chunks, 1 ≤ c) (hA : Retrieves handle A)
    {blocks : List (List Range)} (hdiv : Divides handle.shape blocks) :
    loadPieces cast handle blocks =
      ⟨fetched handle blocks, .ok ⟨handle.shape, (indices handle.shape).map fun idx => cast (A idx)⟩⟩ := by
  have hpiece := fun block (hb : block ∈ blocks) =>
    rawIndexingMethod_block cast hd hc hlen hpos hA (hdiv.valid block hb)
  have hfetched : (blocks.map fun block => rawIndexingMethod cast handle (sliceKey block)).flatMap (·.retrieved) =
      fetched handle blocks := by
    rw [List.flatMap_map, fetched]
    exact List.flatMap_congr fun block hb => by rw [hpiece block hb]
  have hparts : (blocks.map fun block => rawIndexingMethod cast handle (sliceKey block)).mapM (·.result) =
      .ok (blocks.map (piece cast A)) := by
    rw [Lib.Collect.mapM_eq_ok, List.forall₂_map_left_iff, List.forall₂_map_right_iff, List.forall₂_same]
    exact fun block hb => by rw [hpiece block hb]
  have helems : (indices handle.shape).filterMap (fun idx =>
      ((blocks.zip (blocks.map (piece cast A))).find? fun part => Holding part.1 idx).bind fun part =>
        part.2.elems[within part.1 idx]?) = (indices handle.shape).map fun idx => cast (A idx) := by
    rw [← List.map_prod_left_eq_zip, ← congrFun List.filterMap_eq_map (indices handle.shape)]
    refine List.filterMap_congr fun idx hidx => ?_
    -- Some block holds the index; whichever is found first has its element.
    have hcount := hdiv.once idx (mem_indices.1 hidx)
    have hsome : (blocks.find? fun block => Holding block idx).isSome := by
      rw [List.find?_isSome, ← List.countP_pos_iff, hcount]
      exact Nat.one_pos
    obtain ⟨block, hfind⟩ := Option.isSome_iff_exists.1 hsome
    have hhold : Holding block idx := by simpa using List.find?_some hfind
    rw [List.find?_map, Function.comp_def, hfind]
    exact getElem?_piece cast A hhold
  simp only [loadPieces, hfetched, hparts, bind, Except.bind, helems]
  rw [reshape, if_pos (by simp [length_indices])]

end

/-! ## The blocks of `preferred_chunks` -/

/-- The blocks of an axis. -/
def axisBlocks (chunk size : Nat) : List Range :=
  (List.range (divCeil size chunk)).map fun k => (k * chunk, min ((k + 1) * chunk) size)

/-- The blocks into which the chunk extents cut an array. -/
def chunkBlocks (chunks shape : List Nat) : List (List Range) :=
  grid ((chunks.zip shape).map fun axis => axisBlocks axis.1 axis.2)

theorem axisBlocks_once {chunk : Nat} (size : Nat) (hchunk : 0 < chunk) :
    CoversOnce Contains (· < size) (axisBlocks chunk size) := by
  intro i hi
  have hmem : i / chunk ∈ List.range (divCeil size chunk) :=
    List.mem_range.2 ((lt_divCeil_iff hchunk).2 ((Nat.div_mul_le_self i chunk).trans_lt hi))
  rw [axisBlocks, List.countP_map]
  -- The position lies in the block of its quotient and in no other.
  refine (List.countP_congr fun k _ => ?_).trans (List.count_eq_one_of_mem List.nodup_range hmem)
  have hdiv : i / chunk = k ↔ k * chunk ≤ i ∧ i < (k + 1) * chunk := by
    rw [Nat.div_eq_iff hchunk, Nat.add_mul, Nat.one_mul]
    omega
  simp only [Function.comp_apply, Contains, decide_eq_true_eq, beq_iff_eq, lt_min_iff]
  omega

section
variable {chunks shape : List Nat}

/-- A block is a valid request on the grid. -/
theorem mem_chunkBlocks (hlen : chunks.length = shape.length) (hpos : ∀ c ∈ chunks, 1 ≤ c) {block : List Range}
    (h : block ∈ chunkBlocks chunks shape) : Valid block shape ∧ OnGrid chunks shape block := by
  induction chunks generalizing shape block with
  | nil =>
    have hnil : shape = [] := by simpa using hlen.symm
    subst hnil
    rcases mem_grid.1 h with _ | _
    exact ⟨.nil, trivial⟩
  | cons chunk chunks ih =>
    cases shape with
    | nil => simp at hlen
    | cons size shape =>
      rcases mem_grid.1 h with _ | ⟨hr, hrest⟩
      obtain ⟨hvalid, hgrid⟩ := ih (by simpa using hlen) (fun c hc => hpos c (by simp [hc])) (mem_grid.2 hrest)
      obtain ⟨k, hk, rfl⟩ := List.mem_map.1 hr
      have hstart := (lt_divCeil_iff (hpos chunk (by simp))).1 (List.mem_range.1 hk)
      refine ⟨.cons ⟨le_min (Nat.mul_le_mul_right _ (Nat.le_succ k)) hstart.le, min_le_right _ _⟩ hvalid,
        ⟨Nat.dvd_mul_left _ _, ?_⟩, hgrid⟩
      · rcases Nat.le_total ((k + 1) * chunk) size with hle | hle
        · exact .inl (by rw [Nat.min_eq_left hle]; exact Nat.dvd_mul_left _ _)
        · exact .inr (Nat.min_eq_right hle)

theorem chunkBlocks_divides (hlen : chunks.length = shape.length) (hpos : ∀ c ∈ chunks, 1 ≤ c) :
    Divides shape (chunkBlocks chunks shape) where
  valid block h := (mem_chunkBlocks hlen hpos h).1
  once idx hidx := by
    have hsizes : (chunks.zip shape).map (·.2) = shape := List.map_snd_zip hlen.ge
    have hbelow : List.Forall₂ (· < ·) idx ((chunks.zip shape).map (·.2)) := by
      rw [hsizes]
      exact hidx
    rw [List.forall₂_map_right_iff] at hbelow
    exact coversOnce_grid (fun axis haxis => axisBlocks_once axis.2 (hpos _ (List.of_mem_zip haxis).1)) idx hbelow.flip

end

/-- Loading a variable in the blocks that its handle's `chunks` name gives what one
read of everything gives, and fetches every chunk, and every element, once. -/
theorem chunked_load (cast : Element → V) (handle : ZarrsArrayHandle Element) (chunks : List Nat)
    (A : List Nat → Element) (hd : handle.dataType.supported = true) (hc : handleChunks handle = .ok chunks)
    (hlen : chunks.length = handle.shape.length) (hpos : ∀ c ∈ chunks, 1 ≤ c) (hA : Retrieves handle A) :
    (loadPieces cast handle (chunkBlocks chunks handle.shape)).result =
      (rawIndexingMethod cast handle (sliceKey (wholeSubset handle.shape))).result ∧
    (loadPieces cast handle (chunkBlocks chunks handle.shape)).result =
      .ok ⟨handle.shape, (indices handle.shape).map fun idx => cast (A idx)⟩ ∧
    CoversOnce (Touches chunks) (Below · (gridShape chunks handle.shape))
      (loadPieces cast handle (chunkBlocks chunks handle.shape)).retrieved ∧
    CoversOnce Holding (Below · handle.shape)
      (loadPieces cast handle (chunkBlocks chunks handle.shape)).retrieved := by
  have hc : handle.chunkShape = .ok chunks := handleChunks_eq_ok.1 hc
  have hdiv : Divides handle.shape (chunkBlocks chunks handle.shape) := chunkBlocks_divides hlen hpos
  have hgrid : ∀ block ∈ chunkBlocks chunks handle.shape,
      (∃ r ∈ block, r.1 = r.2) ∨ OnGrid chunks handle.shape block :=
    fun block hb => .inr (mem_chunkBlocks hlen hpos hb).2
  have hwhole : (rawIndexingMethod cast handle (sliceKey (wholeSubset handle.shape))).result =
      .ok ⟨handle.shape, (indices handle.shape).map fun idx => cast (A idx)⟩ := by
    rw [rawIndexingMethod_block cast hd hc hlen hpos hA (valid_whole _), piece, wholeSubset_lens]
    refine congrArg (fun elems => Except.ok (⟨handle.shape, elems⟩ : NdArray V)) ?_
    apply List.map_congr_left
    intro idx hidx
    rw [wholeSubset_shift (mem_indices.1 hidx).length_eq]
  rw [loadPieces_ok cast hd hc hlen hpos hA hdiv, hwhole]
  have hone := (elements_once_iff hd hc hlen hpos hdiv).2 hgrid
  exact ⟨rfl, rfl, (chunks_once_iff hd hc hlen hpos hdiv).2 hone, hone⟩

/-- Six strings, in chunks of 2 by 2; each spells its index. -/
def spelledAt (idx : List Nat) : Element := .str (idx.map Nat.digitChar)

def stringsHandle : ZarrsArrayHandle Element where
  shape := [2, 3]
  dataType := ⟨.string, some "string", "string"⟩
  chunkShape := .ok [2, 2]
  retrieve subset := .ok ((indices (subset.map fun r => r.2 - r.1)).map fun j =>
    spelledAt (List.zipWith (fun r i => r.1 + i) subset j))

theorem chunked_load_strings :
    (loadPieces id stringsHandle (chunkBlocks [2, 2] [2, 3])).result =
      (rawIndexingMethod id stringsHandle (sliceKey (wholeSubset [2, 3]))).result ∧
    (loadPieces id stringsHandle (chunkBlocks [2, 2] [2, 3])).result =
      .ok ⟨[2, 3], (indices [2, 3]).map fun idx => id (spelledAt idx)⟩ ∧
    CoversOnce (Touches [2, 2]) (Below · (gridShape [2, 2] [2, 3]))
      (loadPieces id stringsHandle (chunkBlocks [2, 2] [2, 3])).retrieved ∧
    CoversOnce Holding (Below · [2, 3]) (loadPieces id stringsHandle (chunkBlocks [2, 2] [2, 3])).retrieved :=
  chunked_load id stringsHandle [2, 2] spelledAt rfl rfl rfl (by decide) fun _ _ => rfl

end Rustytree
