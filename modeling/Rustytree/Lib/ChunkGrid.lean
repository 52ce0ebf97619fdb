import Mathlib
/-!
# Regular grids of chunks

Half-open ranges and boxes of them, the extent of a chunk of a regular grid,
and which chunks a range meets. Rounding a range out to chunk boundaries and
clamping it meets the same chunks.
-/

namespace Lib.ChunkGrid

/-- A half-open range of positions on one axis. -/
abbrev Range := Nat × Nat

/-- Two ranges share a position. -/
def Meet (a b : Range) : Prop := max a.1 b.1 < min a.2 b.2

/-- `a` lies inside `b`. -/
def Inside (a b : Range) : Prop := b.1 ≤ a.1 ∧ a.2 ≤ b.2

/-- What two ranges share. -/
def overlap (a b : Range) : Range := (max a.1 b.1, min a.2 b.2)

/-- Position `i` lies in the range. -/
def Contains (r : Range) (i : Nat) : Prop := r.1 ≤ i ∧ i < r.2

instance (a b : Range) : Decidable (Meet a b) := inferInstanceAs (Decidable (_ < _))
instance (a b : Range) : Decidable (Inside a b) := inferInstanceAs (Decidable (_ ∧ _))
instance (r : Range) (i : Nat) : Decidable (Contains r i) := inferInstanceAs (Decidable (_ ∧ _))

/-- The full extent of chunk `c` on an axis with chunk size `cs`. -/
def extent (cs c : Nat) : Range := (c * cs, (c + 1) * cs)

/-- Division rounding up. -/
def divCeil (n d : Nat) : Nat := if n % d = 0 then n / d else n / d + 1

theorem divCeil_le_iff {n d k : Nat} (hd : 0 < d) : divCeil n d ≤ k ↔ n ≤ k * d := by
  unfold divCeil
  split
  next h =>
    have hn : n / d * d = n := Nat.div_mul_cancel (Nat.dvd_of_mod_eq_zero h)
    constructor
    · intro hk
      rw [← hn]
      exact Nat.mul_le_mul_right d hk
    · intro hk
      exact Nat.div_le_of_le_mul (by rwa [Nat.mul_comm])
  next h =>
    rw [Nat.succ_le_iff, Nat.div_lt_iff_lt_mul hd]
    constructor
    · exact Nat.le_of_lt
    · intro hle
      refine Nat.lt_of_le_of_ne hle fun he => h ?_
      rw [he, Nat.mul_mod_left]

theorem lt_divCeil_iff {n d k : Nat} (hd : 0 < d) : k < divCeil n d ↔ k * d < n := by
  rw [← not_iff_not, Nat.not_lt, Nat.not_lt]; exact divCeil_le_iff hd

theorem le_divCeil_mul (n : Nat) {d : Nat} (hd : 0 < d) : n ≤ divCeil n d * d :=
  (divCeil_le_iff hd).1 (Nat.le_refl _)

theorem divCeil_mono {n m d : Nat} (hd : 0 < d) (h : n ≤ m) : divCeil n d ≤ divCeil m d :=
  (divCeil_le_iff hd).2 (h.trans (le_divCeil_mul m hd))

/-- A range meets the chunks from the one holding its start to the one holding its last position. -/
theorem meet_extent_iff {cs c : Nat} {r : Range} (hcs : 0 < cs) (hr : r.1 < r.2) :
    Meet (extent cs c) r ↔ r.1 / cs ≤ c ∧ c < divCeil r.2 cs := by
  rw [lt_divCeil_iff hcs, ← Nat.lt_add_one_iff, Nat.div_lt_iff_lt_mul hcs]
  have hc : c * cs < (c + 1) * cs := Nat.mul_lt_mul_of_pos_right (Nat.lt_succ_self c) hcs
  simp only [Meet, extent]
  omega

/-- A chunk lies inside a range exactly when it is all the range shares with it. -/
theorem overlap_eq_iff (a b : Range) : overlap a b = a ↔ Inside a b := by
  obtain ⟨a1, a2⟩ := a
  simp only [overlap, Inside, Prod.mk.injEq]
  omega

/-! ## Rounding out and clamping -/

/-- `r` rounded out to chunk boundaries, then clamped to an axis of length `size`. -/
def roundOut (cs size : Nat) (r : Range) : Range := (r.1 / cs * cs, min (divCeil r.2 cs * cs) size)

theorem roundOut_bounds {cs size : Nat} {r : Range} (hcs : 0 < cs) (hs : r.2 ≤ size) :
    (roundOut cs size r).1 ≤ r.1 ∧ r.2 ≤ (roundOut cs size r).2 ∧ (roundOut cs size r).2 ≤ size := by
  have h1 := Nat.div_mul_le_self r.1 cs
  have h2 := le_divCeil_mul r.2 hcs
  simp only [roundOut]
  omega

/-- Rounding out and clamping meets no further chunk. -/
theorem meet_roundOut_iff {cs size c : Nat} {r : Range} (hcs : 0 < cs) (hr : r.1 < r.2) (hs : r.2 ≤ size) :
    Meet (extent cs c) (roundOut cs size r) ↔ Meet (extent cs c) r := by
  obtain ⟨h1, h2, -⟩ := roundOut_bounds hcs hs
  rw [meet_extent_iff hcs (by omega), meet_extent_iff hcs hr]
  have hlo : (roundOut cs size r).1 / cs = r.1 / cs := by simp [roundOut, Nat.mul_div_cancel _ hcs]
  have hhi : divCeil (roundOut cs size r).2 cs = divCeil r.2 cs := by
    refine Nat.le_antisymm ?_ (divCeil_mono hcs h2)
    exact (divCeil_le_iff hcs).2 (by simp [roundOut])
  rw [hlo, hhi]

/-- Every chunk the rounded range meets lies inside it, unless the range
reaches into a final chunk that the axis cuts short. -/
theorem whole_chunks_iff {cs size : Nat} {r : Range} (hcs : 0 < cs) (hr : r.1 < r.2) :
    (∀ c, Meet (extent cs c) r → Inside (extent cs c) (roundOut cs size r)) ↔ r.2 ≤ size / cs * cs := by
  have hlast : divCeil r.2 cs ≤ size / cs ↔ r.2 ≤ size / cs * cs := divCeil_le_iff hcs
  have hpos : 0 < divCeil r.2 cs := (lt_divCeil_iff hcs).2 (by omega)
  rw [← hlast]
  constructor
  · intro h
    have hc : r.1 / cs ≤ divCeil r.2 cs - 1 := by
      have : r.1 / cs < divCeil r.2 cs := (lt_divCeil_iff hcs).2 ((Nat.div_mul_le_self _ _).trans_lt hr)
      omega
    have hin := h (divCeil r.2 cs - 1) ((meet_extent_iff hcs hr).2 ⟨hc, by omega⟩)
    rw [Nat.le_div_iff_mul_le hcs]
    have h2 := hin.2
    simp only [extent, roundOut, Nat.sub_add_cancel hpos] at h2
    omega
  · intro h c hc
    obtain ⟨hlo, hhi⟩ := (meet_extent_iff hcs hr).1 hc
    have hclamp : divCeil r.2 cs * cs ≤ size := (Nat.le_div_iff_mul_le hcs).1 h
    refine ⟨Nat.mul_le_mul_right cs hlo, ?_⟩
    simp only [extent, roundOut, Nat.min_eq_left hclamp]
    exact Nat.mul_le_mul_right cs hhi

/-! ## Boxes -/

/-- One axis of a read: a non-empty range inside an axis cut into chunks. -/
structure Axis where
  chunk : Nat
  size : Nat
  range : Range
  chunk_pos : 0 < chunk
  nonempty : range.1 < range.2
  bound : range.2 ≤ size

/-- The range rounded out to chunks and clamped. -/
def Axis.aligned (a : Axis) : Range := roundOut a.chunk a.size a.range

/-- Two ranges meet where they share a position. -/
theorem meet_iff_exists {a b : Range} : Meet a b ↔ ∃ i, Contains a i ∧ Contains b i := by
  simp only [Meet, Contains]
  constructor
  · exact fun h => ⟨max a.1 b.1, by omega⟩
  · rintro ⟨i, h⟩
    omega

/-- Two boxes meet where they share a multi-index. -/
theorem forall₂_meet_iff {as bs : List Range} :
    List.Forall₂ Meet as bs ↔ ∃ idx, List.Forall₂ Contains as idx ∧ List.Forall₂ Contains bs idx := by
  constructor
  · intro h
    induction h with
    | nil => exact ⟨[], .nil, .nil⟩
    | cons hm _ ih =>
      obtain ⟨i, ha, hb⟩ := meet_iff_exists.1 hm
      obtain ⟨idx, has, hbs⟩ := ih
      exact ⟨i :: idx, .cons ha has, .cons hb hbs⟩
  · rintro ⟨idx, ha, hb⟩
    induction ha generalizing bs with
    | nil => cases hb; exact .nil
    | cons hi _ ih =>
      cases hb with
      | cons hj hb => exact .cons (meet_iff_exists.2 ⟨_, hi, hj⟩) (ih hb)

/-- The extents of the chunk with index `c`, axis by axis. -/
def chunkExtent (chunks c : List Nat) : List Range := List.zipWith extent chunks c

theorem Axis.meet_aligned_iff (a : Axis) (c : Nat) :
    Meet (extent a.chunk c) a.aligned ↔ Meet (extent a.chunk c) a.range :=
  meet_roundOut_iff a.chunk_pos a.nonempty a.bound

theorem Axis.exists_meet (a : Axis) : ∃ c, Meet (extent a.chunk c) a.aligned := by
  refine ⟨a.range.1 / a.chunk, a.meet_aligned_iff _ |>.2 ?_⟩
  rw [meet_extent_iff a.chunk_pos a.nonempty, lt_divCeil_iff a.chunk_pos]
  exact ⟨Nat.le_refl _, (Nat.div_mul_le_self _ _).trans_lt a.nonempty⟩

/-- Sizes, chunks and ranges that fit together are the axes of a read. -/
theorem exists_axes {chunks shape : List Nat} {ranges : List Range} (hlen : chunks.length = shape.length)
    (hpos : ∀ c ∈ chunks, 1 ≤ c) (hne : ∀ r ∈ ranges, r.1 < r.2)
    (hb : List.Forall₂ (fun r size => r.1 ≤ r.2 ∧ r.2 ≤ size) ranges shape) :
    ∃ axes : List Axis, axes.map (·.chunk) = chunks ∧ axes.map (·.size) = shape ∧ axes.map (·.range) = ranges := by
  induction hb generalizing chunks with
  | nil => exact ⟨[], by cases chunks <;> simp_all, rfl, rfl⟩
  | @cons r size ranges shape hr _ ih =>
    cases chunks with
    | nil => simp at hlen
    | cons c chunks =>
      obtain ⟨axes, rfl, rfl, rfl⟩ := ih (by simpa using hlen) (fun x hx => hpos x (by simp [hx]))
        (fun x hx => hne x (by simp [hx]))
      exact ⟨⟨c, size, r, hpos c (by simp), hne r (by simp), hr.2⟩ :: axes, rfl, rfl, rfl⟩

theorem forall₂_extent {P : Range → Range → Prop} (axes : List Axis) (f : Axis → Range) {c : List Nat}
    (hc : c.length = axes.length) :
    List.Forall₂ P (chunkExtent (axes.map (·.chunk)) c) (axes.map f) ↔
      List.Forall₂ (fun (a : Axis) k => P (extent a.chunk k) (f a)) axes c := by
  induction axes generalizing c with
  | nil => cases c <;> simp_all [chunkExtent]
  | cons a axes ih =>
    cases c with
    | nil => simp at hc
    | cons k c => simpa [chunkExtent] using fun _ => ih (by simpa using hc)

theorem exists_chunk (axes : List Axis) :
    ∃ c, List.Forall₂ (fun (a : Axis) k => Meet (extent a.chunk k) a.aligned) axes c := by
  induction axes with
  | nil => exact ⟨[], .nil⟩
  | cons a axes ih =>
    obtain ⟨k, hk⟩ := a.exists_meet
    obtain ⟨c, hc⟩ := ih
    exact ⟨k :: c, .cons hk hc⟩

/-- A box rounded out to chunks holds every chunk it meets, unless some axis
reaches into a final chunk that is cut short. -/
theorem whole_chunks_box (axes : List Axis) :
    (∀ c, List.Forall₂ (fun (a : Axis) k => Meet (extent a.chunk k) a.aligned) axes c →
      List.Forall₂ (fun (a : Axis) k => Inside (extent a.chunk k) a.aligned) axes c) ↔
    ∀ a ∈ axes, a.range.2 ≤ a.size / a.chunk * a.chunk := by
  induction axes with
  | nil =>
    constructor
    · simp
    · rintro - c (_ | _)
      exact .nil
  | cons a axes ih =>
    have haxis : (∀ k, Meet (extent a.chunk k) a.aligned → Inside (extent a.chunk k) a.aligned) ↔
        a.range.2 ≤ a.size / a.chunk * a.chunk := by
      simp only [a.meet_aligned_iff]
      exact whole_chunks_iff a.chunk_pos a.nonempty
    simp only [List.forall_mem_cons]
    rw [← haxis, ← ih]
    constructor
    · intro h
      obtain ⟨k, hk⟩ := a.exists_meet
      obtain ⟨c, hc⟩ := exists_chunk axes
      refine ⟨fun k' hk' => ?_, fun c' hc' => ?_⟩
      · cases h (k' :: c) (.cons hk' hc) with | cons h1 _ => exact h1
      · cases h (k :: c') (.cons hk hc') with | cons _ h2 => exact h2
    · rintro ⟨h1, h2⟩ c (_ | ⟨hk, hc⟩)
      exact .cons (h1 _ hk) (h2 _ hc)

/-! ## Boxes on the grid -/

/-- A box with no empty side lies in another exactly when its sides do. -/
theorem forall_contains_iff {as bs : List Range} (hne : ∀ a ∈ as, a.1 < a.2) :
    (∀ idx, List.Forall₂ Contains as idx → List.Forall₂ Contains bs idx) ↔ List.Forall₂ Inside as bs := by
  induction as generalizing bs with
  | nil =>
    constructor
    · intro h
      cases h [] .nil
      exact .nil
    · rintro (_ | _) _ (_ | _)
      exact .nil
  | cons a as ih =>
    -- The low corner of the other sides completes a position of the first one, and the reverse.
    have hcorner : List.Forall₂ Contains as (as.map (·.1)) := by
      rw [List.forall₂_map_right_iff, List.forall₂_same]
      exact fun x hx => ⟨Nat.le_refl _, hne x (by simp [hx])⟩
    have ha := hne a (by simp)
    have htail : (∀ idx, List.Forall₂ Contains as idx → List.Forall₂ Contains bs.tail idx) ↔
        List.Forall₂ Inside as bs.tail := ih fun x hx => hne x (by simp [hx])
    constructor
    · intro h
      cases bs with
      | nil => cases h _ (.cons ⟨Nat.le_refl a.1, ha⟩ hcorner)
      | cons b bs =>
        refine .cons ?_ (htail.1 fun idx hidx => ?_)
        · obtain ⟨hlo, -⟩ := List.forall₂_cons.1 (h _ (.cons ⟨Nat.le_refl a.1, ha⟩ hcorner))
          obtain ⟨hhi, -⟩ := List.forall₂_cons.1
            (h ((a.2 - 1) :: _) (.cons (show Contains a (a.2 - 1) from ⟨by omega, by omega⟩) hcorner))
          simp only [Contains, Inside] at hlo hhi ⊢
          omega
        · exact (List.forall₂_cons.1 (h _ (.cons ⟨Nat.le_refl a.1, ha⟩ hidx))).2
    · rintro (_ | ⟨hin, hins⟩) _ (_ | ⟨hi, his⟩)
      refine .cons ?_ (htail.2 hins _ his)
      simp only [Contains, Inside] at hin hi ⊢
      omega

/-- A range that starts on a chunk boundary and ends on one or with its axis. -/
def Axis.OnGrid (a : Axis) : Prop := a.chunk ∣ a.range.1 ∧ (a.chunk ∣ a.range.2 ∨ a.range.2 = a.size)

theorem Axis.contains_aligned (a : Axis) {i : Nat} (h : Contains a.range i) : Contains a.aligned i := by
  obtain ⟨h1, h2, -⟩ := roundOut_bounds a.chunk_pos a.bound
  simp only [Contains, Axis.aligned] at h ⊢
  omega

theorem Axis.aligned_nonempty (a : Axis) : a.aligned.1 < a.aligned.2 := by
  obtain ⟨h1, h2, -⟩ := roundOut_bounds a.chunk_pos a.bound
  have := a.nonempty
  simp only [Axis.aligned]
  omega

/-- Rounding out adds nothing exactly to the ranges on the grid. -/
theorem Axis.inside_iff_onGrid (a : Axis) : Inside a.aligned a.range ↔ a.OnGrid := by
  have hlo : a.range.1 ≤ a.range.1 / a.chunk * a.chunk ↔ a.chunk ∣ a.range.1 := by
    rw [Nat.dvd_iff_div_mul_eq]
    have := Nat.div_mul_le_self a.range.1 a.chunk
    omega
  have hhi : divCeil a.range.2 a.chunk * a.chunk ≤ a.range.2 ↔ a.chunk ∣ a.range.2 := by
    have hle := le_divCeil_mul a.range.2 a.chunk_pos
    constructor
    · intro h
      exact ⟨divCeil a.range.2 a.chunk, by rw [Nat.mul_comm]; omega⟩
    · rintro ⟨k, hk⟩
      have hk' : divCeil a.range.2 a.chunk ≤ k := (divCeil_le_iff a.chunk_pos).2 (by rw [hk, Nat.mul_comm])
      calc divCeil a.range.2 a.chunk * a.chunk ≤ k * a.chunk := Nat.mul_le_mul_right _ hk'
        _ = a.range.2 := by rw [hk, Nat.mul_comm]
  have hb := a.bound
  simp only [Inside, Axis.aligned, roundOut, Axis.OnGrid, ← hlo, ← hhi]
  omega

/-- The rounded range holds the positions whose chunk it meets. -/
theorem Axis.meet_chunk_iff (a : Axis) {i : Nat} (hi : i < a.size) :
    Meet (extent a.chunk (i / a.chunk)) a.aligned ↔ Contains a.aligned i := by
  have hstart : a.aligned.1 / a.chunk = a.range.1 / a.chunk := Nat.mul_div_cancel _ a.chunk_pos
  rw [meet_extent_iff a.chunk_pos a.aligned_nonempty, lt_divCeil_iff a.chunk_pos, hstart,
    Nat.le_div_iff_mul_le a.chunk_pos]
  -- The chunk starts before the clamped end exactly when the position lies before it.
  have hlast : i / a.chunk * a.chunk < divCeil a.range.2 a.chunk * a.chunk ↔
      i < divCeil a.range.2 a.chunk * a.chunk := by
    rw [Nat.mul_lt_mul_right a.chunk_pos, Nat.div_lt_iff_lt_mul a.chunk_pos]
  have hle := Nat.div_mul_le_self i a.chunk
  simp only [Contains, Axis.aligned, roundOut]
  omega

end Lib.ChunkGrid
