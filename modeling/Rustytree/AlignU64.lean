import Rustytree.Lib.CheckedU64
import Rustytree.Lib.Collect
import Rustytree.ReadSubset
/-!
# Alignment in 64 bits (`ZarrsArrayHandle::read_subset`)

The alignment loop again, on `u64`: with overflow checks, as a debug build has it,
and wrapping, as the release build does. Rounding `stop` up happens before the
clamp, so it is the one operation that can overflow: it does where no multiple
of the chunk extent from `stop` on fits in 64 bits. Elsewhere both builds compute
what the exact loop does.
-/

namespace Rustytree.AlignU64
open Lib.CheckedU64 Lib.ChunkGrid ReadSubset

/-! ## The source -/

/-- What the loop pushes for one axis. -/
structure AlignedAxisU64 where
  range : UInt64 × UInt64
  requestOffset : UInt64
  requestLen : UInt64
  alignedLen : UInt64
  deriving DecidableEq

/-- The body of the alignment loop in a release build. -/
def alignAxisWrapping (chunk size : UInt64) (range : UInt64 × UInt64) : AlignedAxisU64 :=
  let cs := max chunk 1
  let alignedStart := range.1 / cs * cs
  let alignedStopUnbounded := divCeilWrapping range.2 cs * cs
  let alignedStop := min alignedStopUnbounded size
  { range := (alignedStart, alignedStop)
    requestOffset := range.1 - alignedStart
    requestLen := range.2 - range.1
    alignedLen := alignedStop - alignedStart }

/-- The same with overflow checks. -/
def alignAxisChecked (chunk size : UInt64) (range : UInt64 × UInt64) : Option AlignedAxisU64 := do
  let cs := max chunk 1
  let alignedStart ← mul? (range.1 / cs) cs
  let chunksToStop ← divCeil? range.2 cs
  let alignedStopUnbounded ← mul? chunksToStop cs
  let alignedStop := min alignedStopUnbounded size
  let requestOffset ← sub? range.1 alignedStart
  let requestLen ← sub? range.2 range.1
  let alignedLen ← sub? alignedStop alignedStart
  some { range := (alignedStart, alignedStop), requestOffset, requestLen, alignedLen }

/-- The alignment loop in a release build. -/
def alignRangesWrapping : List UInt64 → List UInt64 → List (UInt64 × UInt64) → List AlignedAxisU64
  | chunk :: chunks, size :: shape, range :: ranges =>
    alignAxisWrapping chunk size range :: alignRangesWrapping chunks shape ranges
  | _, _, _ => []

/-- The same with overflow checks: `none` when any operation on any axis overflows. -/
def alignRangesChecked : List UInt64 → List UInt64 → List (UInt64 × UInt64) → Option (List AlignedAxisU64)
  | chunk :: chunks, size :: shape, range :: ranges => do
    let axis ← alignAxisChecked chunk size range
    let axes ← alignRangesChecked chunks shape ranges
    some (axis :: axes)
  | _, _, _ => some []

/-! ## One axis -/

/-- A range read as positions. -/
def exactRange (range : UInt64 × UInt64) : Range := (range.1.toNat, range.2.toNat)

/-- An axis read as numbers. -/
def AlignedAxisU64.exact (axis : AlignedAxisU64) : AlignedAxis :=
  ⟨exactRange axis.range, axis.requestOffset.toNat, axis.requestLen.toNat, axis.alignedLen.toNat⟩

/-- Some multiple of the chunk extent, from `stop` on, fits in 64 bits. -/
def RoundsUp (chunk : UInt64) (range : UInt64 × UInt64) : Prop :=
  range.2.toNat ≤ (2 ^ 64 - 1) / chunk.toNat * chunk.toNat

theorem roundsUp_iff {chunk : UInt64} (hc : 0 < chunk.toNat) (range : UInt64 × UInt64) :
    RoundsUp chunk range ↔ divCeil range.2.toNat chunk.toNat * chunk.toNat < 2 ^ 64 := by
  rw [RoundsUp, ← divCeil_le_iff hc, Nat.le_div_iff_mul_le hc]
  omega

theorem max_one {chunk : UInt64} (hc : 0 < chunk.toNat) : max chunk 1 = chunk := by
  rw [← UInt64.toNat_inj, UInt64.toNat_max, UInt64.toNat_one]
  exact Nat.max_eq_left hc

/-- An axis that rounds up: no operation overflows, and the result is exact. -/
theorem alignAxisChecked_of_roundsUp {chunk size : UInt64} {range : UInt64 × UInt64} (hc : 0 < chunk.toNat)
    (hle : range.1.toNat ≤ range.2.toNat) (hsize : range.2.toNat ≤ size.toNat) (h : RoundsUp chunk range) :
    alignAxisChecked chunk size range = some (alignAxisWrapping chunk size range) ∧
      (alignAxisWrapping chunk size range).exact = alignAxis chunk.toNat size.toNat (exactRange range) := by
  have hstart : range.1.toNat / chunk.toNat * chunk.toNat ≤ range.1.toNat := Nat.div_mul_le_self _ _
  have hstop := le_divCeil_mul range.2.toNat hc
  have hrounded := (roundsUp_iff hc range).1 h
  have hfits := range.1.toNat_lt
  -- The operations in the order of the loop, each with its exact value.
  obtain ⟨hmul, hmulval⟩ := mul?_of_lt (a := range.1 / chunk) (b := chunk) (by rw [UInt64.toNat_div]; omega)
  obtain ⟨hceil, hceilval⟩ := divCeil?_eq range.2 hc
  rw [← hceilval] at hrounded
  obtain ⟨hround, hroundval⟩ := mul?_of_lt hrounded
  rw [UInt64.toNat_div] at hmulval
  rw [hceilval] at hroundval
  have hmin : (min (divCeilWrapping range.2 chunk * chunk) size).toNat =
      min (divCeil range.2.toNat chunk.toNat * chunk.toNat) size.toNat := by
    rw [UInt64.toNat_min, hroundval]
  obtain ⟨hoffset, hoffsetval⟩ := sub?_of_le (a := range.1) (b := range.1 / chunk * chunk) (by omega)
  obtain ⟨hlen, hlenval⟩ := sub?_of_le (a := range.2) (b := range.1) hle
  obtain ⟨haligned, halignedval⟩ := sub?_of_le (a := min (divCeilWrapping range.2 chunk * chunk) size)
    (b := range.1 / chunk * chunk) (by omega)
  constructor
  · simp only [alignAxisChecked, alignAxisWrapping, max_one hc, hmul, hceil, hround, hoffset, hlen, haligned,
      Option.bind_eq_bind, Option.bind_some]
  · simp only [AlignedAxisU64.exact, exactRange, alignAxisWrapping, alignAxis, max_one hc, Nat.max_eq_left hc, hmulval,
      hmin, hoffsetval, hlenval, halignedval]

/-- An axis that does not round up overflows. -/
theorem alignAxisChecked_of_not_roundsUp {chunk size : UInt64} {range : UInt64 × UInt64} (hc : 0 < chunk.toNat)
    (h : ¬ RoundsUp chunk range) : alignAxisChecked chunk size range = none := by
  obtain ⟨hceil, hceilval⟩ := divCeil?_eq range.2 hc
  have hround : mul? (divCeilWrapping range.2 chunk) chunk = none := by
    rw [mul?, hceilval]
    exact if_neg (mt (roundsUp_iff hc range).2 h)
  simp only [alignAxisChecked, max_one hc, hceil, hround, Option.bind_eq_bind, Option.bind_some, Option.bind_none,
    Option.bind_fun_none]

/-- The aligned range holds the request and stays inside the array. -/
structure AlignedWithin (range : UInt64 × UInt64) (size : UInt64) (axis : AlignedAxisU64) : Prop where
  lower : axis.range.1 ≤ range.1
  ordered : range.1 ≤ range.2
  upper : range.2 ≤ axis.range.2
  clamped : axis.range.2 ≤ size

theorem alignedWithin_of_exact {chunk size : UInt64} {range : UInt64 × UInt64} {axis : AlignedAxisU64}
    (hc : 0 < chunk.toNat) (hle : range.1.toNat ≤ range.2.toNat) (hsize : range.2.toNat ≤ size.toNat)
    (h : axis.exact = alignAxis chunk.toNat size.toNat (exactRange range)) : AlignedWithin range size axis := by
  have hrange : axis.exact.range = (alignAxis chunk.toNat size.toNat (exactRange range)).range := by rw [h]
  simp only [AlignedAxisU64.exact, exactRange, alignAxis, Nat.max_eq_left hc, Prod.mk.injEq] at hrange
  have hlower := Nat.div_mul_le_self range.1.toNat chunk.toNat
  have hupper := le_divCeil_mul range.2.toNat hc
  constructor <;> rw [UInt64.le_iff_toNat_le] <;> omega

/-! ## All axes -/

/-- Valid ranges whose axes all round up: no operation overflows, the release
build computes the same, and it is what the exact loop computes. -/
theorem alignRangesChecked_of_roundsUp {chunks shape : List UInt64} {ranges : List (UInt64 × UInt64)}
    (hpos : ∀ c ∈ chunks, 0 < c.toNat)
    (hv : List.Forall₂ (fun r size => r.1.toNat ≤ r.2.toNat ∧ r.2.toNat ≤ size.toNat) ranges shape)
    (h : List.Forall₂ RoundsUp chunks ranges) :
    alignRangesChecked chunks shape ranges = some (alignRangesWrapping chunks shape ranges) ∧
      (alignRangesWrapping chunks shape ranges).map AlignedAxisU64.exact =
        alignRanges (chunks.map UInt64.toNat) (shape.map UInt64.toNat) (ranges.map exactRange) ∧
      List.Forall₂ (fun request axis => AlignedWithin request.1 request.2 axis) (ranges.zip shape)
        (alignRangesWrapping chunks shape ranges) := by
  induction hv generalizing chunks with
  | nil =>
    cases h
    exact ⟨rfl, rfl, .nil⟩
  | cons hr _ ih =>
    cases h with
    | cons hround hrounds =>
      obtain ⟨hc, hpos⟩ := List.forall_mem_cons.1 hpos
      obtain ⟨haxis, hexact⟩ := alignAxisChecked_of_roundsUp hc hr.1 hr.2 hround
      obtain ⟨haxes, hexacts, hwithin⟩ := ih hpos hrounds
      refine ⟨?_, ?_, .cons (alignedWithin_of_exact hc hr.1 hr.2 hexact) hwithin⟩
      · rw [alignRangesChecked, haxis, haxes]
        rfl
      · rw [alignRangesWrapping, List.map_cons, hexact, hexacts]
        rfl

theorem roundsUp_of_checked {chunks shape : List UInt64} {ranges : List (UInt64 × UInt64)}
    (hlen : chunks.length = shape.length) (hrank : ranges.length = shape.length) (hpos : ∀ c ∈ chunks, 0 < c.toNat)
    {axes : List AlignedAxisU64} (h : alignRangesChecked chunks shape ranges = some axes) :
    List.Forall₂ RoundsUp chunks ranges := by
  induction ranges generalizing chunks shape axes with
  | nil =>
    cases shape with
    | nil => rw [List.length_eq_zero_iff.1 hlen]; exact .nil
    | cons size shape => cases hrank
  | cons range ranges ih =>
    cases shape with
    | nil => cases hrank
    | cons size shape =>
      cases chunks with
      | nil => cases hlen
      | cons chunk chunks =>
        obtain ⟨hc, hpos⟩ := List.forall_mem_cons.1 hpos
        rw [alignRangesChecked] at h
        obtain ⟨axis, haxis, h⟩ := Option.bind_eq_some_iff.1 h
        obtain ⟨rest, hrest, -⟩ := Option.bind_eq_some_iff.1 h
        refine .cons ?_ (ih (Nat.succ.inj hlen) (Nat.succ.inj hrank) hpos hrest)
        by_contra hnot
        rw [alignAxisChecked_of_not_roundsUp hc hnot] at haxis
        cases haxis

/-- For ranges that pass the validation, no operation of the alignment overflows
and the aligned ranges hold the requests inside the array, exactly if on every
axis some multiple of the chunk extent from `stop` on fits in 64 bits. -/
theorem alignment_safe_iff {chunks shape : List UInt64} {ranges : List (UInt64 × UInt64)}
    (hlen : chunks.length = shape.length) (hpos : ∀ c ∈ chunks, 1 ≤ c) (hrank : ranges.length = shape.length)
    (hv : checkRanges 0 (ranges.map exactRange) (shape.map UInt64.toNat) = .ok ()) :
    (∃ axes, alignRangesChecked chunks shape ranges = some axes ∧ axes = alignRangesWrapping chunks shape ranges ∧
      List.Forall₂ (fun request axis => AlignedWithin request.1 request.2 axis) (ranges.zip shape) axes) ↔
      List.Forall₂ RoundsUp chunks ranges := by
  have hpos' : ∀ c ∈ chunks, 0 < c.toNat := by
    intro c hc
    have hone := UInt64.le_iff_toNat_le.1 (hpos c hc)
    rwa [UInt64.toNat_one] at hone
  have hvalid := (checkRanges_ok (by simpa using hrank)).1 hv
  rw [Valid, List.forall₂_map_left_iff, List.forall₂_map_right_iff] at hvalid
  constructor
  · rintro ⟨axes, haxes, -, -⟩
    exact roundsUp_of_checked hlen hrank hpos' haxes
  · intro h
    obtain ⟨haxes, -, hwithin⟩ := alignRangesChecked_of_roundsUp hpos' hvalid h
    exact ⟨_, haxes, rfl, hwithin⟩

/-! ## Sizes that fit -/

/-- A position as a word. -/
abbrev word (n : Nat) : UInt64 := UInt64.ofNat n

/-- The ends of a range as words. -/
def wordRange (r : Range) : UInt64 × UInt64 := (word r.1, word r.2)

/-- The chunk extents are words, and every axis rounded up to whole chunks ends within 64 bits. -/
def FitsU64 (chunks shape : List Nat) : Prop :=
  List.Forall₂ (fun chunk size => chunk < 2 ^ 64 ∧ divCeil size chunk * chunk < 2 ^ 64) chunks shape

/-- The loop on words, with overflow checks and without, aligns the ranges as the exact loop does. -/
def AlignsExactly (chunks shape : List Nat) (ranges : List Range) : Prop :=
  alignRangesChecked (chunks.map word) (shape.map word) (ranges.map wordRange) =
      some (alignRangesWrapping (chunks.map word) (shape.map word) (ranges.map wordRange)) ∧
    (alignRangesWrapping (chunks.map word) (shape.map word) (ranges.map wordRange)).map AlignedAxisU64.exact =
      alignRanges chunks shape ranges

theorem toNat_word {n : Nat} (h : n < 2 ^ 64) : (word n).toNat = n := UInt64.toNat_ofNat_of_lt h

theorem map_toNat_word {ns : List Nat} (h : ∀ n ∈ ns, n < 2 ^ 64) : (ns.map word).map UInt64.toNat = ns := by
  rw [List.map_map]
  exact (List.map_congr_left fun n hn => toNat_word (h n hn)).trans (List.map_id ns)

/-- An axis that fits has words for every range within it, and each of them rounds up. -/
theorem fits_axis {chunk size : Nat} {r : Range} (hpos : 1 ≤ chunk) (hfits : divCeil size chunk * chunk < 2 ^ 64)
    (hchunk : chunk < 2 ^ 64) (hle : r.1 ≤ r.2) (hsize : r.2 ≤ size) :
    size < 2 ^ 64 ∧ exactRange (wordRange r) = r ∧ RoundsUp (word chunk) (wordRange r) := by
  have hend := le_divCeil_mul size hpos
  have h1 : (word r.1).toNat = r.1 := toNat_word (by omega)
  have h2 : (word r.2).toNat = r.2 := toNat_word (by omega)
  refine ⟨by omega, Prod.ext h1 h2, ?_⟩
  rw [roundsUp_iff (by rw [toNat_word hchunk]; exact hpos)]
  simp only [wordRange, h2, toNat_word hchunk]
  exact (Nat.mul_le_mul_right chunk (divCeil_mono hpos hsize)).trans_lt hfits

theorem alignsExactly_of_fits {chunks shape : List Nat} {ranges : List Range} (hpos : ∀ c ∈ chunks, 1 ≤ c)
    (hv : Valid ranges shape) (hfits : FitsU64 chunks shape) : AlignsExactly chunks shape ranges := by
  have hwords : (∀ n ∈ shape, n < 2 ^ 64) ∧ (ranges.map wordRange).map exactRange = ranges ∧
      List.Forall₂ RoundsUp (chunks.map word) (ranges.map wordRange) := by
    induction hfits generalizing ranges with
    | nil =>
      cases hv
      exact ⟨by simp, rfl, .nil⟩
    | cons hfit _ ih =>
      cases hv with
      | cons hr hv =>
        obtain ⟨hc, hpos⟩ := List.forall_mem_cons.1 hpos
        obtain ⟨hsize, hrange, hround⟩ := fits_axis hc hfit.2 hfit.1 hr.1 hr.2
        obtain ⟨hsizes, hranges, hrounds⟩ := ih hpos hv
        refine ⟨List.forall_mem_cons.2 ⟨hsize, hsizes⟩, ?_, .cons hround hrounds⟩
        rw [List.map_cons, List.map_cons, hrange, hranges]
  obtain ⟨hsizes, hranges, hrounds⟩ := hwords
  have hchunks : ∀ c ∈ chunks, c < 2 ^ 64 := fun c hc => by
    obtain ⟨n, -, hn, -⟩ := Lib.Collect.exists_of_forall₂ hfits hc
    exact hn
  have hvalid : List.Forall₂ (fun (r : UInt64 × UInt64) (size : UInt64) => r.1.toNat ≤ r.2.toNat ∧
      r.2.toNat ≤ size.toNat) (ranges.map wordRange) (shape.map word) := by
    have hback : Valid ((ranges.map wordRange).map exactRange) ((shape.map word).map UInt64.toNat) := by
      rw [hranges, map_toNat_word hsizes]
      exact hv
    rwa [Valid, List.forall₂_map_left_iff, List.forall₂_map_right_iff] at hback
  have hposWords : ∀ c ∈ chunks.map word, 0 < c.toNat := by
    intro c hc
    obtain ⟨n, hn, rfl⟩ := List.mem_map.1 hc
    rw [toNat_word (hchunks n hn)]
    exact hpos n hn
  obtain ⟨hchecked, hexact, -⟩ := alignRangesChecked_of_roundsUp hposWords hvalid hrounds
  rw [map_toNat_word hchunks, map_toNat_word hsizes, hranges] at hexact
  exact ⟨hchecked, hexact⟩

/-- An array of 13 in chunks of 4. -/
theorem alignment_safe_ragged :
    (∃ axes, alignRangesChecked [4] [13] [(5, 13)] = some axes ∧ axes = alignRangesWrapping [4] [13] [(5, 13)] ∧
      List.Forall₂ (fun request axis => AlignedWithin request.1 request.2 axis) ([(5, 13)].zip [13]) axes) ↔
      List.Forall₂ RoundsUp [4] [(5, 13)] :=
  alignment_safe_iff rfl (by simp) rfl (by decide)

/-- All of an array of `2 ^ 64 - 1` elements in chunks of two: rounding up overflows,
and the release build aligns the request to an empty range. -/
theorem alignment_overflows :
    checkRanges 0 [exactRange (0, 18446744073709551615)] [UInt64.toNat 18446744073709551615] = .ok () ∧
    alignRangesChecked [2] [18446744073709551615] [(0, 18446744073709551615)] = none ∧
    (alignRangesWrapping [2] [18446744073709551615] [(0, 18446744073709551615)]).map (·.range) = [(0, 0)] := by
  decide

end Rustytree.AlignU64
