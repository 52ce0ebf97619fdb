import Rustytree.ReadSubset
/-!
# Lazy reads (`RustyBackendArray._raw_indexing_method`)

The Python adapter turns a key of integers and slices into ranges, reads them
and squeezes the integer axes away. `numpyIndex` is NumPy's basic indexing,
stated by the positions each entry selects; we prove that a lazy read returns
exactly that and touches only the chunks the selection meets.
-/

namespace Rustytree.Indexing
open Lib.ChunkGrid Lib.RowMajor ReadSubset

variable {T V : Type}

/-- One entry of an indexing key. -/
inductive IndexEntry where
  | int (i : Int)
  | slice (start stop step : Option Int)
  deriving DecidableEq, Repr

/-- An n-dimensional array: its shape and its elements in row-major order. -/
structure NdArray (T : Type) where
  shape : List Nat
  elems : List T
  deriving DecidableEq, Repr

/-! ## The source -/

/-- Python's `slice.indices(size)`. -/
def sliceIndices (start stop step : Option Int) (size : Nat) : Except PyErr (Int × Int × Int) :=
  let step := step.getD 1
  if step = 0 then .error (.valueError "slice step cannot be zero")
  else
    let lower : Int := if step < 0 then -1 else 0
    let upper : Int := if step < 0 then size - 1 else size
    let clamp (x : Int) : Int := if x < 0 then max (x + size) lower else min x upper
    let start := match start with
      | none => if step < 0 then upper else lower
      | some x => clamp x
    let stop := match stop with
      | none => if step < 0 then lower else upper
      | some x => clamp x
    .ok (start, stop, step)

/-- The loop over the key from axis `axis` on: one range an axis, and the axes
of the integer entries. `strict=True` rejects a key of another length. -/
def keyRanges : Nat → List IndexEntry → List Nat → Except PyErr (List (Int × Int) × List Nat)
  | _, [], [] => .ok ([], [])
  | axis, .slice start stop step :: key, size :: shape => do
    let (start, stop, step) ← sliceIndices start stop step size
    if step ≠ 1 then
      .error (.notImplementedError (s!"RustyBackendArray: stepped slicing not supported (axis {axis} " ++
        s!"has step {step}); xarray's explicit_indexing_adapter is expected to keep us at BASIC support"))
    else do
      let (ranges, squeezeAxes) ← keyRanges (axis + 1) key shape
      -- A reversed slice is empty, not an error.
      .ok ((start, max start stop) :: ranges, squeezeAxes)
  | axis, .int i :: key, size :: shape => do
    -- No check here: `read_subset` rejects what is still out of range.
    let idx := if i < 0 then i + size else i
    let (ranges, squeezeAxes) ← keyRanges (axis + 1) key shape
    .ok ((idx, idx + 1) :: ranges, axis :: squeezeAxes)
  | _, [], _ :: _ => .error (.valueError "zip() argument 2 is longer than argument 1")
  | _, _ :: _, [] => .error (.valueError "zip() argument 2 is shorter than argument 1")

/-- PyO3's extraction of the ranges as unsigned integers. -/
def extractRanges : List (Int × Int) → Except PyErr (List Range)
  | [] => .ok []
  | (start, stop) :: ranges =>
    if start < 0 ∨ stop < 0 then .error (.overflowError "can't convert negative int to unsigned")
    else do
      let rest ← extractRanges ranges
      .ok ((start.toNat, stop.toNat) :: rest)

/-- `ndarray.reshape`. -/
def reshape (flat : List T) (shape : List Nat) : Except PyErr (NdArray T) :=
  if flat.length = shape.prod then .ok ⟨shape, flat⟩
  else .error (.valueError s!"cannot reshape array of size {flat.length} into shape {shape}")

/-- `ndarray.squeeze(axis=axes)`. -/
def squeeze (axes : List Nat) (x : NdArray T) : Except PyErr (NdArray T) :=
  if x.shape.zipIdx.any fun d => axes.contains d.2 && d.1 != 1 then
    .error (.valueError "cannot select an axis to squeeze out which has size not equal to one")
  else .ok ⟨(x.shape.zipIdx.filter fun d => !axes.contains d.2).map (·.1), x.elems⟩

/-- `cast_to_read_dtype`, element by element. -/
def castToReadDtype (cast : T → V) (x : NdArray T) : NdArray V := ⟨x.shape, x.elems.map cast⟩

/-- `_raw_indexing_method`. -/
def rawIndexingMethod (cast : T → V) (handle : ZarrsArrayHandle T) (key : List IndexEntry) : Read (NdArray V) :=
  match keyRanges 0 key handle.shape with
  | .error err => ⟨[], .error err⟩
  | .ok (ranges, squeezeAxes) =>
    match extractRanges ranges with
    | .error err => ⟨[], .error err⟩
    | .ok slab =>
      let read := readSubset handle slab
      ⟨read.retrieved, do
        let flat ← read.result
        let out ← reshape flat (ranges.map fun r => (r.2 - r.1).toNat)
        let out ← if squeezeAxes.isEmpty then .ok out else squeeze squeezeAxes out
        .ok (castToReadDtype cast out)⟩

/-! ## NumPy's basic indexing -/

/-- The position an endpoint names: negative endpoints count from the end. -/
def endpoint (x : Option Int) (size default : Nat) : Int :=
  match x with
  | none => default
  | some x => if x < 0 then x + size else x

/-- The positions an entry selects on an axis; `none` is an `IndexError`. -/
def positions : IndexEntry → Nat → Option (List Nat)
  | .int i, size =>
    let k := if i < 0 then i + size else i
    if 0 ≤ k ∧ k < size then some [k.toNat] else none
  | .slice start stop _, size =>
    some ((List.range size).filter fun p => endpoint start size 0 ≤ p ∧ p < endpoint stop size size)

/-- The positions selected on every axis. -/
def selection (key : List IndexEntry) (shape : List Nat) : Option (List (List Nat)) :=
  (key.zip shape).mapM fun e => positions e.1 e.2

/-- The lengths of the axes that slices select. -/
def keptLens : List IndexEntry → List (List Nat) → List Nat
  | .slice _ _ _ :: key, xs :: sel => xs.length :: keptLens key sel
  | .int _ :: key, _ :: sel => keptLens key sel
  | _, _ => []

/-- `A[key]`: every combination of selected positions in row-major order;
integer entries drop their axis. -/
def numpyIndex (A : List Nat → V) (shape : List Nat) (key : List IndexEntry) : Option (NdArray V) :=
  (selection key shape).map fun sel => ⟨keptLens key sel, (grid sel).map A⟩

/-- A slice with absent or unit step, or an integer. -/
def IndexEntry.UnitStep : IndexEntry → Prop
  | .int _ => True
  | .slice _ _ step => step = none ∨ step = some 1

/-- Some integer entry lies outside `[-size, size)`. -/
def OutOfRange (key : List IndexEntry) (shape : List Nat) : Prop :=
  ∃ e ∈ key.zip shape, ∃ i, e.1 = .int i ∧ ¬ (-(e.2 : Int) ≤ i ∧ i < e.2)

example : numpyIndex (fun j => j) [3, 4] [.int (-1), .slice (some 1) (some (-1)) none] =
    some ⟨[2], [[2, 1], [2, 2]]⟩ := by decide

/-! ## Ranges of a key -/

/-- An endpoint of a unit-step slice, clamped to the axis. -/
def clampEnd (x : Option Int) (size default : Nat) : Int := max 0 (min (endpoint x size default) size)

/-- The range the loop pushes for one entry. -/
def rawRange : IndexEntry → Nat → Int × Int
  | .int i, size => let idx := if i < 0 then i + size else i; (idx, idx + 1)
  | .slice start stop _, size =>
    (clampEnd start size 0, max (clampEnd start size 0) (clampEnd stop size size))

/-- The axes of the integer entries, counted from `axis` on. -/
def intAxes : Nat → List IndexEntry → List Nat
  | _, [] => []
  | axis, .int _ :: key => axis :: intAxes (axis + 1) key
  | axis, .slice _ _ _ :: key => intAxes (axis + 1) key

theorem sliceIndices_unit {start stop step : Option Int} (size : Nat) (h : step = none ∨ step = some 1) :
    sliceIndices start stop step size = .ok (clampEnd start size 0, clampEnd stop size size, 1) := by
  have hstep : step.getD 1 = 1 := by rcases h with rfl | rfl <;> rfl
  have hclamp : ∀ x : Int, (if x < 0 then max (x + size) 0 else min x size) =
      max 0 (min (if x < 0 then x + (size : Int) else x) size) := fun x => by split <;> omega
  cases start <;> cases stop <;> simp [sliceIndices, hstep, clampEnd, endpoint, hclamp]

theorem keyRanges_unit {key : List IndexEntry} {shape : List Nat} (hlen : key.length = shape.length)
    (hstep : ∀ e ∈ key, e.UnitStep) (axis : Nat) :
    keyRanges axis key shape = .ok (List.zipWith rawRange key shape, intAxes axis key) := by
  induction key generalizing shape axis with
  | nil => cases shape <;> simp_all [keyRanges, intAxes]
  | cons e key ih =>
    cases shape with
    | nil => simp at hlen
    | cons size shape =>
      have htail := ih (by simpa using hlen) (fun x hx => hstep x (by simp [hx])) (axis + 1)
      have hunit := hstep e (by simp)
      cases e with
      | int i => simp only [keyRanges, htail]; rfl
      | slice start stop step =>
        simp only [keyRanges, sliceIndices_unit size hunit, htail]; rfl

/-! ## What an entry picks -/

/-- An entry of a key on its axis, with the range of positions it picks. -/
structure Pick where
  entry : IndexEntry
  size : Nat
  range : Range
  le : range.1 ≤ range.2
  bound : range.2 ≤ size
  raw : rawRange entry size = ((range.1 : Int), (range.2 : Int))
  picked : positions entry size = some (List.range' range.1 (range.2 - range.1))
  single : ∀ i, entry = .int i → range.2 = range.1 + 1

theorem filter_between {size lo hi : Nat} (hle : lo ≤ hi) (hb : hi ≤ size) :
    (List.range size).filter (fun p => lo ≤ p ∧ p < hi) = List.range' lo (hi - lo) := by
  -- The positions before, between and behind the two ends.
  have hsplit : List.range size = List.range' 0 lo ++ List.range' lo (hi - lo) ++ List.range' hi (size - hi) := by
    have h1 : List.range' 0 lo ++ List.range' lo (hi - lo) = List.range' 0 hi := by
      simpa [Nat.add_sub_cancel' hle] using List.range'_append_1 (s := 0) (m := lo) (n := hi - lo)
    have h2 : List.range' 0 hi ++ List.range' hi (size - hi) = List.range' 0 size := by
      simpa [Nat.add_sub_cancel' hb] using List.range'_append_1 (s := 0) (m := hi) (n := size - hi)
    rw [h1, h2, List.range_eq_range']
  have hbelow : (List.range' 0 lo).filter (fun p => decide (lo ≤ p ∧ p < hi)) = [] :=
    List.filter_eq_nil_iff.2 fun p hp => by simp only [List.mem_range'_1] at hp; simp; omega
  have habove : (List.range' hi (size - hi)).filter (fun p => decide (lo ≤ p ∧ p < hi)) = [] :=
    List.filter_eq_nil_iff.2 fun p hp => by simp only [List.mem_range'_1] at hp; simp; omega
  have hin : (List.range' lo (hi - lo)).filter (fun p => decide (lo ≤ p ∧ p < hi)) = List.range' lo (hi - lo) :=
    List.filter_eq_self.2 fun p hp => by simp only [List.mem_range'_1] at hp; simp; omega
  rw [hsplit, List.filter_append, List.filter_append, hbelow, habove, hin, List.nil_append, List.append_nil]

/-- An integer in range picks one position. -/
theorem exists_pick_int {i : Int} {size : Nat} (h : -(size : Int) ≤ i ∧ i < size) :
    ∃ p : Pick, p.entry = .int i ∧ p.size = size := by
  obtain ⟨k, hk⟩ : ∃ k : Nat, (if i < 0 then i + size else i) = (k : Int) :=
    Int.eq_ofNat_of_zero_le (by split <;> omega)
  have hlt : k < size := by split at hk <;> omega
  exact ⟨{ entry := .int i, size, range := (k, k + 1), le := Nat.le_succ k, bound := hlt
           raw := by simp [rawRange, hk]
           picked := by simp [positions, hk, hlt]
           single := fun _ _ => rfl }, rfl, rfl⟩

/-- A unit-step slice picks the positions between its clamped endpoints. -/
theorem exists_pick_slice (start stop step : Option Int) (size : Nat) :
    ∃ p : Pick, p.entry = .slice start stop step ∧ p.size = size := by
  obtain ⟨lo, hlo⟩ : ∃ lo : Nat, clampEnd start size 0 = lo := Int.eq_ofNat_of_zero_le (le_max_left _ _)
  obtain ⟨hi, hhi⟩ : ∃ hi : Nat, clampEnd stop size size = hi := Int.eq_ofNat_of_zero_le (le_max_left _ _)
  have hlo' := hlo
  have hhi' := hhi
  simp only [clampEnd] at hlo' hhi'
  have hfilter : (List.range size).filter (fun p : Nat => endpoint start size 0 ≤ (p : Int) ∧
      (p : Int) < endpoint stop size size) = List.range' lo (max lo hi - lo) := by
    rw [← filter_between (Nat.le_max_left lo hi) (show max lo hi ≤ size by omega)]
    apply List.filter_congr
    intro p hp
    have hp := List.mem_range.1 hp
    rw [decide_eq_decide]
    omega
  exact ⟨{ entry := .slice start stop step, size, range := (lo, max lo hi), le := Nat.le_max_left lo hi
           bound := by omega
           raw := by simp [rawRange, hlo, hhi]
           picked := by rw [positions, hfilter]
           single := by simp }, rfl, rfl⟩

theorem exists_picks {key : List IndexEntry} {shape : List Nat} (hlen : key.length = shape.length)
    (hin : ¬ OutOfRange key shape) :
    ∃ picks : List Pick, picks.map (·.entry) = key ∧ picks.map (·.size) = shape := by
  induction key generalizing shape with
  | nil => exact ⟨[], rfl, by cases shape <;> simp_all⟩
  | cons e key ih =>
    cases shape with
    | nil => simp at hlen
    | cons size shape =>
      have hhead : ∃ p : Pick, p.entry = e ∧ p.size = size := by
        cases e with
        | slice start stop step => exact exists_pick_slice start stop step size
        | int i =>
          refine exists_pick_int (not_not.1 fun h => hin ⟨(.int i, size), by simp, i, rfl, h⟩)
      obtain ⟨p, rfl, rfl⟩ := hhead
      have htail : ¬ OutOfRange key shape := fun ⟨x, hx, h⟩ => hin ⟨x, by simp [hx], h⟩
      obtain ⟨picks, rfl, rfl⟩ := ih (by simpa using hlen) htail
      exact ⟨p :: picks, rfl, rfl⟩

theorem extractRanges_picks (picks : List Pick) :
    extractRanges (picks.map fun p => ((p.range.1 : Int), (p.range.2 : Int))) = .ok (picks.map (·.range)) := by
  induction picks with
  | nil => rfl
  | cons p picks ih =>
    have h : ¬ ((p.range.1 : Int) < 0 ∨ (p.range.2 : Int) < 0) := by omega
    simp only [List.map_cons, extractRanges, if_neg h, ih]
    rfl

theorem selection_picks (picks : List Pick) :
    selection (picks.map (·.entry)) (picks.map (·.size)) =
      some (picks.map fun p => List.range' p.range.1 (p.range.2 - p.range.1)) := by
  rw [selection, List.zip_map', Lib.Collect.mapM_eq_some, List.map_map, List.map_map]
  exact List.map_congr_left fun p _ => p.picked

/-! ## Reading the picks -/

/-- The positions picked on every axis. -/
def pickedPositions (picks : List Pick) : List (List Nat) :=
  picks.map fun p => List.range' p.range.1 (p.range.2 - p.range.1)

theorem valid_picks (picks : List Pick) : Valid (picks.map (·.range)) (picks.map (·.size)) := by
  rw [Valid, List.forall₂_map_left_iff, List.forall₂_map_right_iff, List.forall₂_same]
  exact fun p _ => ⟨p.le, p.bound⟩

theorem isEmpty_picks (picks : List Pick) :
    isEmpty (picks.map (·.range)) = true ↔ grid (pickedPositions picks) = [] := by
  rw [← List.length_eq_zero_iff, length_grid, List.prod_eq_zero_iff, isEmpty, List.any_map, List.any_eq_true]
  simp only [pickedPositions, List.map_map, List.mem_map, Function.comp_apply, List.length_range', beq_iff_eq]
  constructor
  · rintro ⟨p, hp, heq⟩
    exact ⟨p, hp, by omega⟩
  · rintro ⟨p, hp, heq⟩
    have := p.le
    exact ⟨p, hp, by omega⟩

/-- The picked positions are the indices of a box of their lengths, shifted. -/
theorem grid_picked (picks : List Pick) :
    grid (pickedPositions picks) = (indices (picks.map fun p => p.range.2 - p.range.1)).map
      (List.zipWith (fun (r : Range) i => r.1 + i) (picks.map (·.range))) := by
  rw [indices, ← grid_map (fun (r : Range) i => r.1 + i) _ _ (by simp), List.map_map, List.zipWith_map,
    List.zipWith_self]
  congr 1
  apply List.map_congr_left
  intro p _
  rw [List.range'_eq_map_range]
  rfl

theorem mem_grid_picked {picks : List Pick} {idx : List Nat} :
    idx ∈ grid (pickedPositions picks) ↔ List.Forall₂ Contains (picks.map (·.range)) idx := by
  rw [mem_grid, pickedPositions, List.forall₂_map_right_iff, List.forall₂_map_left_iff]
  have hiff : ∀ (p : Pick) (i : Nat), i ∈ List.range' p.range.1 (p.range.2 - p.range.1) ↔ Contains p.range i :=
    fun p i => by
      have := p.le
      simp only [List.mem_range'_1, Contains]
      omega
  constructor
  · exact fun h => (h.imp fun i p hi => (hiff p i).1 hi).flip
  · exact fun h => (h.imp fun p i hi => (hiff p i).2 hi).flip

section
variable {handle : ZarrsArrayHandle T} {chunks : List Nat} {A : List Nat → T} {picks : List Pick}

/-- The read returns the picked elements, with no retrieval when there are none. -/
theorem readSubset_picks (hd : handle.dataType.supported = true) (hc : handle.chunkShape = .ok chunks)
    (hlen : chunks.length = handle.shape.length) (hpos : ∀ c ∈ chunks, 1 ≤ c)
    (hA : RetrievesOnGrid handle chunks A) (hs : handle.shape = picks.map (·.size)) :
    (grid (pickedPositions picks) = [] ∧ readSubset handle (picks.map (·.range)) = ⟨[], .ok []⟩) ∨
    (grid (pickedPositions picks) ≠ [] ∧ ∃ axes : List Axis, axes.map (·.chunk) = chunks ∧
      axes.map (·.range) = picks.map (·.range) ∧ readSubset handle (picks.map (·.range)) =
        ⟨[axes.map (·.aligned)], .ok ((grid (pickedPositions picks)).map A)⟩) := by
  have hv : Valid (picks.map (·.range)) handle.shape := hs ▸ valid_picks picks
  by_cases he : grid (pickedPositions picks) = []
  · exact .inl ⟨he, readSubset_empty handle hd hc hlen hv ((isEmpty_picks picks).2 he)⟩
  · have hne : ∀ r ∈ picks.map (·.range), r.1 < r.2 := by
      intro r hr
      obtain ⟨p, hp, rfl⟩ := List.mem_map.1 hr
      refine Nat.lt_of_le_of_ne p.le fun heq => he ((isEmpty_picks picks).1 ?_)
      exact List.any_eq_true.2 ⟨p.range, List.mem_map_of_mem hp, by simpa using heq⟩
    obtain ⟨axes, rfl, hsize, hrange⟩ := exists_axes hlen hpos hne hv
    have hlens : (axes.map fun a => a.range.2 - a.range.1) = picks.map fun p => p.range.2 - p.range.1 := by
      simpa only [List.map_map, Function.comp_def] using congrArg (List.map fun r : Range => r.2 - r.1) hrange
    refine .inr ⟨he, axes, rfl, hrange, ?_⟩
    rw [← hrange, readSubset_box handle axes hd hc hsize.symm hA, hlens, grid_picked, List.map_map, hrange]
    rfl

end

/-! ## Shapes -/

theorem intAxes_ge {key : List IndexEntry} {axis i : Nat} (h : i ∈ intAxes axis key) : axis ≤ i := by
  induction key generalizing axis with
  | nil => cases h
  | cons e key ih =>
    cases e with
    | slice start stop step => exact Nat.le_of_succ_le (ih h)
    | int k =>
      rcases List.mem_cons.1 h with rfl | h
      · exact Nat.le_refl _
      · exact Nat.le_of_succ_le (ih h)

/-- The kept axes are those of the slices, and every other has length one. -/
theorem keep_picks (picks : List Pick) (axis : Nat) (S : List Nat)
    (hS : ∀ i, axis ≤ i → (i ∈ S ↔ i ∈ intAxes axis (picks.map (·.entry)))) :
    (((picks.map fun p => p.range.2 - p.range.1).zipIdx axis).any fun d => S.contains d.2 && d.1 != 1) = false ∧
      (((picks.map fun p => p.range.2 - p.range.1).zipIdx axis).filter fun d => !S.contains d.2).map (·.1) =
        keptLens (picks.map (·.entry)) (pickedPositions picks) := by
  induction picks generalizing axis with
  | nil => exact ⟨rfl, rfl⟩
  | cons p picks ih =>
    simp only [pickedPositions, List.map_cons, List.zipIdx_cons, List.any_cons, List.filter_cons]
    cases hp : p.entry with
    | int i =>
      have hone : p.range.2 - p.range.1 = 1 := by have := p.single i hp; omega
      have hin : axis ∈ S := (hS axis (Nat.le_refl _)).2 (by simp [hp, intAxes])
      have htail := ih (axis + 1) fun k hk => by
        rw [hS k (by omega), List.map_cons, hp, intAxes, List.mem_cons]
        exact ⟨fun h => h.resolve_left (by omega), .inr⟩
      simpa [hone, hin, keptLens, pickedPositions] using htail
    | slice start stop step =>
      have hout : axis ∉ S := by
        intro h
        have hlater : axis ∈ intAxes (axis + 1) (picks.map (·.entry)) := by
          simpa [hp, intAxes] using (hS axis (Nat.le_refl _)).1 h
        exact absurd (intAxes_ge hlater) (by omega)
      have htail := ih (axis + 1) fun k hk => by
        rw [hS k (by omega), List.map_cons, hp]; rfl
      simpa [hout, keptLens, pickedPositions] using htail

theorem squeeze_picks (picks : List Pick) (elems : List T) :
    squeeze (intAxes 0 (picks.map (·.entry))) ⟨picks.map fun p => p.range.2 - p.range.1, elems⟩ =
      .ok ⟨keptLens (picks.map (·.entry)) (pickedPositions picks), elems⟩ := by
  obtain ⟨hany, hkeep⟩ := keep_picks picks 0 (intAxes 0 (picks.map (·.entry))) fun _ _ => Iff.rfl
  rw [squeeze, hany, ← hkeep]
  rfl

theorem squeeze_nothing (x : NdArray T) : squeeze [] x = .ok x := by
  have hany : (x.shape.zipIdx.any fun d => ([] : List Nat).contains d.2 && d.1 != 1) = false := by simp
  rw [squeeze, hany]
  simp

/-- With no axis marked there is nothing to squeeze. -/
theorem keptLens_unmarked {picks : List Pick} (h : (intAxes 0 (picks.map (·.entry))).isEmpty = true) :
    (picks.map fun p => p.range.2 - p.range.1) = keptLens (picks.map (·.entry)) (pickedPositions picks) := by
  have hsq := squeeze_picks picks ([] : List Nat)
  rw [List.isEmpty_iff.1 h, squeeze_nothing] at hsq
  simpa using hsq

theorem reshape_picks (picks : List Pick) (elems : List T)
    (hlen : elems.length = (grid (pickedPositions picks)).length) :
    reshape elems ((picks.map fun p => ((p.range.1 : Int), (p.range.2 : Int))).map fun r => (r.2 - r.1).toNat) =
      .ok ⟨picks.map fun p => p.range.2 - p.range.1, elems⟩ := by
  have hshape : ((picks.map fun p => ((p.range.1 : Int), (p.range.2 : Int))).map fun r => (r.2 - r.1).toNat) =
      picks.map fun p => p.range.2 - p.range.1 := by
    rw [List.map_map]
    apply List.map_congr_left
    intro p _
    simp only [Function.comp_apply]
    omega
  have hprod : elems.length = (picks.map fun p => p.range.2 - p.range.1).prod := by
    rw [hlen, length_grid, pickedPositions, List.map_map]
    congr 1
    apply List.map_congr_left
    intro p _
    simp
  rw [hshape, reshape, if_pos hprod]

/-! ## Out of range -/

theorem extractRanges_eq_ok {ranges : List (Int × Int)} {slab : List Range} (h : extractRanges ranges = .ok slab) :
    ranges = slab.map fun r => ((r.1 : Int), (r.2 : Int)) := by
  induction ranges generalizing slab with
  | nil => cases h; rfl
  | cons r ranges ih =>
    obtain ⟨start, stop⟩ := r
    simp only [extractRanges] at h
    split at h
    · cases h
    · rename_i hneg
      cases hrest : extractRanges ranges with
      | error err => rw [hrest] at h; cases h
      | ok rest =>
        rw [hrest] at h
        cases h
        have h1 : (start.toNat : Int) = start := Int.toNat_of_nonneg (by omega)
        have h2 : (stop.toNat : Int) = stop := Int.toNat_of_nonneg (by omega)
        simp only [List.map_cons, h1, h2, ih hrest]

/-- Ranges that pass validation come from a key in range. -/
theorem inRange_of_valid {slab : List Range} {shape : List Nat} (hv : Valid slab shape) {key : List IndexEntry}
    (h : List.zipWith rawRange key shape = slab.map fun r => ((r.1 : Int), (r.2 : Int))) : ¬ OutOfRange key shape := by
  induction hv generalizing key with
  | nil => rintro ⟨e, he, -⟩; cases key <;> simp at he
  | @cons r size slab shape hr _ ih =>
    cases key with
    | nil => rintro ⟨e, he, -⟩; simp at he
    | cons e key =>
      simp only [List.zipWith_cons_cons, List.map_cons, List.cons.injEq] at h
      rintro ⟨x, hx, i, hi, hout⟩
      simp only [List.zip_cons_cons, List.mem_cons] at hx
      rcases hx with rfl | hx
      · have hi : e = .int i := hi
        have hraw := h.1
        simp only [hi, rawRange, Prod.mk.injEq] at hraw
        apply hout
        split at hraw <;> constructor <;> simp only <;> omega
      · exact ih h.2 ⟨x, hx, i, hi, hout⟩

theorem extractRanges_error {ranges : List (Int × Int)} {err : PyErr} (h : extractRanges ranges = .error err) :
    err.isRangeError = true := by
  induction ranges with
  | nil => cases h
  | cons r ranges ih =>
    simp only [extractRanges] at h
    split at h
    · cases h
      rfl
    · cases hrest : extractRanges ranges with
      | error err' =>
        rw [hrest] at h
        cases h
        exact ih hrest
      | ok rest =>
        rw [hrest] at h
        cases h

theorem rawRange_ordered (e : IndexEntry) (size : Nat) : (rawRange e size).1 ≤ (rawRange e size).2 := by
  cases e with
  | int i =>
    simp only [rawRange]
    omega
  | slice start stop step => exact le_max_left _ _

/-- Ranges in order fail the validation at an end only. -/
theorem checkRanges_error {i : Nat} {ranges : List Range} {shape : List Nat} (hord : ∀ r ∈ ranges, r.1 ≤ r.2)
    {err : PyErr} (h : checkRanges i ranges shape = .error err) : err.isRangeError = true := by
  induction ranges generalizing i shape with
  | nil => cases shape <;> cases h
  | cons r ranges ih =>
    obtain ⟨hr, hord⟩ := List.forall_mem_cons.1 hord
    cases shape with
    | nil => cases h
    | cons size shape =>
      simp only [checkRanges, if_neg (Nat.not_lt.2 hr)] at h
      split at h
      · cases h
        rfl
      · exact ih hord h

theorem readSubset_invalid (h : ZarrsArrayHandle T) {ranges : List Range} (hlen : ranges.length = h.shape.length)
    (hord : ∀ r ∈ ranges, r.1 ≤ r.2) (hv : ¬ Valid ranges h.shape) :
    ∃ err, readSubset h ranges = ⟨[], .error err⟩ ∧ err.isRangeError = true := by
  cases hcheck : checkRanges 0 ranges h.shape with
  | error err =>
    refine ⟨err, ?_, checkRanges_error hord hcheck⟩
    simp only [readSubset, hlen, ne_eq, not_true_eq_false, if_false, hcheck]
  | ok u => exact absurd ((checkRanges_ok hlen).1 hcheck) hv

/-- An integer out of range fails before anything is retrieved. -/
theorem rawIndexingMethod_outOfRange (cast : T → V) (handle : ZarrsArrayHandle T) {key : List IndexEntry}
    (hlen : key.length = handle.shape.length) (hstep : ∀ e ∈ key, e.UnitStep) (hout : OutOfRange key handle.shape) :
    ∃ err, rawIndexingMethod cast handle key = ⟨[], .error err⟩ ∧ err.isRangeError = true := by
  simp only [rawIndexingMethod, keyRanges_unit hlen hstep]
  cases hslab : extractRanges (List.zipWith rawRange key handle.shape) with
  | error err => exact ⟨err, rfl, extractRanges_error hslab⟩
  | ok slab =>
    have hranges := extractRanges_eq_ok hslab
    have hv : ¬ Valid slab handle.shape := fun hv => inRange_of_valid hv hranges hout
    have hrank : slab.length = handle.shape.length := by
      simpa [hlen, eq_comm] using congrArg List.length hranges
    have hord : ∀ r ∈ slab, r.1 ≤ r.2 := by
      intro r hr
      have hmem : ((r.1 : Int), (r.2 : Int)) ∈ List.zipWith rawRange key handle.shape :=
        hranges ▸ List.mem_map_of_mem hr
      rw [← List.map_uncurry_zip_eq_zipWith] at hmem
      obtain ⟨e, -, he⟩ := List.mem_map.1 hmem
      have hle := rawRange_ordered e.1 e.2
      rw [show rawRange e.1 e.2 = _ from he] at hle
      exact Int.ofNat_le.1 hle
    obtain ⟨err, herr, hkind⟩ := readSubset_invalid handle hrank hord hv
    exact ⟨err, by simp only [herr]; rfl, hkind⟩

theorem selection_outOfRange {key : List IndexEntry} {shape : List Nat} (hout : OutOfRange key shape) :
    selection key shape = none := by
  obtain ⟨e, he, i, hi, hrange⟩ := hout
  cases hsel : selection key shape with
  | none => rfl
  | some sel =>
    have hmap := Lib.Collect.mapM_eq_some.1 hsel
    obtain ⟨ps, -, hps⟩ := List.mem_map.1 (hmap ▸ List.mem_map_of_mem he)
    rw [hi] at hps
    simp only [positions] at hps
    split at hps <;> split at hps <;> simp at hps <;> omega

/-! ## A lazy read is NumPy's indexing -/

theorem keyRanges_picks {picks : List Pick} {shape : List Nat} (hs : picks.map (·.size) = shape)
    (hstep : ∀ e ∈ picks.map (·.entry), e.UnitStep) :
    keyRanges 0 (picks.map (·.entry)) shape =
      .ok (picks.map fun p => ((p.range.1 : Int), (p.range.2 : Int)), intAxes 0 (picks.map (·.entry))) := by
  have hraw : List.zipWith rawRange (picks.map (·.entry)) (picks.map (·.size)) =
      picks.map fun p => ((p.range.1 : Int), (p.range.2 : Int)) := by
    rw [List.zipWith_map, List.zipWith_self]
    exact List.map_congr_left fun p _ => p.raw
  rw [← hs, keyRanges_unit (by simp) hstep, hraw]

/-- What becomes of the elements once they are read. -/
theorem rawIndexingMethod_of_read (cast : T → V) {handle : ZarrsArrayHandle T} {picks : List Pick}
    (hs : picks.map (·.size) = handle.shape) (hstep : ∀ e ∈ picks.map (·.entry), e.UnitStep)
    {subsets : List (List Range)} {elems : List T}
    (hread : readSubset handle (picks.map (·.range)) = ⟨subsets, .ok elems⟩)
    (hlen : elems.length = (grid (pickedPositions picks)).length) :
    rawIndexingMethod cast handle (picks.map (·.entry)) = ⟨subsets,
      .ok ⟨keptLens (picks.map (·.entry)) (pickedPositions picks), elems.map cast⟩⟩ := by
  simp only [rawIndexingMethod, keyRanges_picks hs hstep, extractRanges_picks, hread, bind, Except.bind,
    reshape_picks picks elems hlen, squeeze_picks, castToReadDtype]
  split
  next h => rw [keptLens_unmarked h]
  next => rfl

theorem numpyIndex_picks (A : List Nat → V) {picks : List Pick} {shape : List Nat}
    (hs : picks.map (·.size) = shape) :
    numpyIndex A shape (picks.map (·.entry)) =
      some ⟨keptLens (picks.map (·.entry)) (pickedPositions picks), (grid (pickedPositions picks)).map A⟩ := by
  rw [numpyIndex, ← hs, selection_picks]
  rfl

/-- The rounded box meets just the chunks that hold a picked index. -/
theorem meet_picked_iff {axes : List Axis} {picks : List Pick} {c : List Nat}
    (hrange : axes.map (·.range) = picks.map (·.range)) (hc : c.length = axes.length) :
    List.Forall₂ Meet (chunkExtent (axes.map (·.chunk)) c) (axes.map (·.aligned)) ↔
      ∃ idx ∈ grid (pickedPositions picks), List.Forall₂ Contains (chunkExtent (axes.map (·.chunk)) c) idx := by
  have haligned : List.Forall₂ Meet (chunkExtent (axes.map (·.chunk)) c) (axes.map (·.aligned)) ↔
      List.Forall₂ Meet (chunkExtent (axes.map (·.chunk)) c) (axes.map (·.range)) := by
    rw [forall₂_extent axes _ hc, forall₂_extent axes _ hc]
    simp only [Axis.meet_aligned_iff]
  rw [haligned, forall₂_meet_iff, hrange]
  simp only [mem_grid_picked, and_comm]

/-- The read returns what NumPy returns, fails where NumPy has an index out of
range, and asks zarrs for a subset that meets just the chunks of the selection. -/
theorem rawIndexingMethod_eq_numpyIndex (cast : T → V) (handle : ZarrsArrayHandle T) (chunks : List Nat)
    (A : List Nat → T) (key : List IndexEntry) (hd : handle.dataType.supported = true)
    (hc : handle.chunkShape = .ok chunks) (hrank : chunks.length = handle.shape.length) (hpos : ∀ c ∈ chunks, 1 ≤ c)
    (hA : Retrieves handle A) (hkey : key.length = handle.shape.length) (hstep : ∀ e ∈ key, e.UnitStep) :
    (∀ out, (rawIndexingMethod cast handle key).result = .ok out ↔
      numpyIndex (fun j => cast (A j)) handle.shape key = some out) ∧
    ((∃ err, (rawIndexingMethod cast handle key).result = .error err) ↔ OutOfRange key handle.shape) ∧
    ∀ sel, selection key handle.shape = some sel →
      (grid sel = [] → (rawIndexingMethod cast handle key).retrieved = []) ∧
      (grid sel ≠ [] → ∃ subset, (rawIndexingMethod cast handle key).retrieved = [subset] ∧
        ∀ c, c.length = chunks.length → (List.Forall₂ Meet (chunkExtent chunks c) subset ↔
          ∃ idx ∈ grid sel, List.Forall₂ Contains (chunkExtent chunks c) idx)) := by
  by_cases hout : OutOfRange key handle.shape
  · obtain ⟨err, herr, -⟩ := rawIndexingMethod_outOfRange cast handle hkey hstep hout
    simp [herr, numpyIndex, selection_outOfRange hout, hout]
  · obtain ⟨picks, rfl, hsize⟩ := exists_picks hkey hout
    have hsel : selection (picks.map (·.entry)) handle.shape = some (pickedPositions picks) := by
      rw [← hsize]; exact selection_picks picks
    rw [numpyIndex_picks _ hsize]
    rcases readSubset_picks hd hc hrank hpos hA.onGrid hsize.symm with ⟨hnil, hread⟩ | ⟨hne, axes, rfl, hrange, hread⟩
    · rw [rawIndexingMethod_of_read cast hsize hstep hread (by rw [hnil]; rfl), hnil]
      refine ⟨by simp [eq_comm], by simp [hout], fun sel h => ?_⟩
      cases hsel.symm.trans h
      exact ⟨fun _ => rfl, fun h => absurd hnil h⟩
    · rw [rawIndexingMethod_of_read cast hsize hstep hread (by simp), List.map_map]
      refine ⟨by simp [eq_comm, Function.comp_def], by simp [hout], fun sel h => ?_⟩
      cases hsel.symm.trans h
      refine ⟨fun h => absurd h hne, fun _ => ⟨_, rfl, fun c hlen => ?_⟩⟩
      exact meet_picked_iff hrange (by simpa using hlen)

/-- A 3 by 4 array in chunks of 2 by 3 holding ten times the row plus the column. -/
def tensHandle : ZarrsArrayHandle Nat where
  shape := [3, 4]
  dataType := ⟨.int64, some "int64", "int64 / <i8"⟩
  chunkShape := .ok [2, 3]
  retrieve subset := .ok ((indices (subset.map fun r => r.2 - r.1)).map fun j =>
    match List.zipWith (fun r i => r.1 + i) subset j with
    | [r, c] => 10 * r + c
    | _ => 0)

/-- `x[-1, 1:-1]` on it. -/
theorem rawIndexingMethod_eq_numpyIndex_tens :
    let key := [.int (-1), .slice (some 1) (some (-1)) none]
    let A := fun | [r, c] => 10 * r + c | _ => 0
    (∀ out, (rawIndexingMethod id tensHandle key).result = .ok out ↔
      numpyIndex (fun j => id (A j)) [3, 4] key = some out) ∧
    ((∃ err, (rawIndexingMethod id tensHandle key).result = .error err) ↔ OutOfRange key [3, 4]) ∧
    ∀ sel, selection key [3, 4] = some sel →
      (grid sel = [] → (rawIndexingMethod id tensHandle key).retrieved = []) ∧
      (grid sel ≠ [] → ∃ subset, (rawIndexingMethod id tensHandle key).retrieved = [subset] ∧
        ∀ c, c.length = 2 → (List.Forall₂ Meet (chunkExtent [2, 3] c) subset ↔
          ∃ idx ∈ grid sel, List.Forall₂ Contains (chunkExtent [2, 3] c) idx)) :=
  rawIndexingMethod_eq_numpyIndex id tensHandle [2, 3] _ _ rfl rfl rfl (by decide) (fun _ _ => rfl) rfl
    (by simp [IndexEntry.UnitStep])

end Rustytree.Indexing
