import Rustytree.Lib.Collect
import Rustytree.Lib.RowMajor
/-!
# Slicing a flat buffer (`slice_nd` in `array.rs`)

The loop carries a multi-index and advances it like an odometer. We prove that
the index is the mixed-radix expansion of the iteration count, so that the
loop reads, in row-major order, exactly the requested hyperrectangle.

A read past the buffer panics in the source; the model returns `none` there.
`usize` and `u64` are natural numbers, so `usize::try_from` is the identity.
-/

namespace Rustytree.SliceNd
open Lib.RowMajor

variable {T : Type}

/-! ## The source -/

/-- The source's stride loop, from the last axis up: one, then the running product. -/
def srcStrides : List Nat → List Nat
  | [] => []
  | [_] => [1]
  -- `src_strides[i + 1] * aligned_shape[i + 1]`
  | _ :: s :: ss => (srcStrides (s :: ss)).headD 1 * s :: srcStrides (s :: ss)

/-- Where the element for `idx` sits in the source buffer. -/
def srcIndex (strides offsets idx : List Nat) : Nat :=
  (List.zipWith (· * ·) (List.zipWith (· + ·) offsets idx) strides).sum

/-- The carry loop: bump the last axis; on a wrap reset it and carry into the
next axis up. The flag says that the carry is still running. -/
def advance : List Nat → List Nat → Bool × List Nat
  | s :: ss, i :: is =>
    match advance ss is with
    | (true, is') => if i + 1 < s then (false, (i + 1) :: is') else (true, 0 :: is')
    | (false, is') => (false, i :: is')
  | _, is => (true, is)

/-- `for _ in 0..total_out`: read one element, push it, advance the index. -/
def sliceLoop (elements : List T) (strides offsets outShape : List Nat) :
    Nat → List Nat → List T → Option (List T)
  | 0, _, out => some out
  | n + 1, idx, out => do
    let x ← elements[srcIndex strides offsets idx]?
    sliceLoop elements strides offsets outShape n (advance outShape idx).2 (out ++ [x])

/-- The general path of `slice_nd`. -/
def sliceWalk (elements : List T) (alignedShape offsets outShape : List Nat) : Option (List T) :=
  sliceLoop elements (srcStrides alignedShape) offsets outShape outShape.prod
    (List.replicate alignedShape.length 0) []

/-- The aligned read already is the request. -/
def identity (alignedShape offsets outShape : List Nat) : Bool :=
  alignedShape == outShape && offsets.all (· == 0)

/-- `slice_nd`. -/
def sliceNd (elements : List T) (alignedShape offsets outShape : List Nat) : Option (List T) :=
  if identity alignedShape offsets outShape then some elements
  else sliceWalk elements alignedShape offsets outShape

/-- The buffer positions the loop reads, in order. -/
def loopReads (strides offsets outShape : List Nat) : Nat → List Nat → List Nat
  | 0, _ => []
  | n + 1, idx => srcIndex strides offsets idx :: loopReads strides offsets outShape n (advance outShape idx).2

/-- The buffer positions `slice_nd` reads; the fast path hands the buffer on unread. -/
def reads (alignedShape offsets outShape : List Nat) : List Nat :=
  if identity alignedShape offsets outShape then []
  else loopReads (srcStrides alignedShape) offsets outShape outShape.prod
    (List.replicate alignedShape.length 0)

/-! ## The loop is a sequence of reads -/

theorem srcStrides_eq (shape : List Nat) : srcStrides shape = strides shape := by
  induction shape with
  | nil => rfl
  | cons s ss ih =>
    cases ss with
    | nil => rfl
    | cons s' ss =>
      rw [srcStrides, ih]
      simp [strides, Nat.mul_comm]

theorem srcIndex_eq (shape offsets idx : List Nat) :
    srcIndex (srcStrides shape) offsets idx = ravel shape (List.zipWith (· + ·) offsets idx) := by
  rw [srcStrides_eq]; rfl

theorem sliceLoop_eq (elements : List T) (st o s : List Nat) (n : Nat) (idx : List Nat) (out : List T) :
    sliceLoop elements st o s n idx out =
      ((loopReads st o s n idx).mapM (fun p => elements[p]?)).map (out ++ ·) := by
  -- On the iterations left; `out` holds what the earlier ones pushed.
  induction n generalizing idx out with
  | zero => simp [sliceLoop, loopReads]
  | succ n ih =>
    simp only [sliceLoop, loopReads, List.mapM_cons]
    cases elements[srcIndex st o idx]? with
    | none => rfl
    | some x =>
      simp only [Option.bind_eq_bind, Option.bind_some, ih]
      cases (loopReads st o s n (advance s idx).2).mapM (fun p => elements[p]?) <;> simp

/-! ## The odometer counts in mixed radix -/

/-- Advancing the expansion of `k` gives the expansion of `k + 1`, and the
carry runs off the first axis exactly when the whole box has been counted. -/
theorem advance_unravel {s : List Nat} (h : 0 < s.prod) (k : Nat) :
    advance s (unravel s k) = (decide (s.prod ∣ k + 1), unravel s (k + 1)) := by
  induction s with
  | nil => simp [advance, unravel]
  | cons d ds ih =>
    rw [List.prod_cons] at h
    have hd : 0 < d := Nat.pos_of_mul_pos_right h
    simp only [unravel, advance, ih (Nat.pos_of_mul_pos_left h), List.prod_cons]
    by_cases hc : ds.prod ∣ k + 1
    · -- The inner axes wrapped: this digit moves.
      have hdiv : (k + 1) / ds.prod = k / ds.prod + 1 := by rw [Nat.succ_div, if_pos hc]
      have hall : d * ds.prod ∣ k + 1 ↔ d ∣ k / ds.prod + 1 := by
        rw [Nat.mul_comm, ← Nat.dvd_div_iff_mul_dvd hc, hdiv]
      simp only [hc, decide_true, hdiv, hall]
      by_cases hw : k / ds.prod % d + 1 < d
      · have hmod : (k / ds.prod + 1) % d = k / ds.prod % d + 1 := by
          rw [Nat.add_mod, Nat.mod_eq_of_lt (show 1 < d by omega), Nat.mod_eq_of_lt hw]
        have hn : ¬ d ∣ k / ds.prod + 1 := by rw [Nat.dvd_iff_mod_eq_zero, hmod]; omega
        simp [hw, hmod, hn]
      · have hlast : k / ds.prod % d + 1 = d := by have := Nat.mod_lt (k / ds.prod) hd; omega
        have hmod : (k / ds.prod + 1) % d = 0 := by
          rw [Nat.add_mod, Nat.add_mod_mod, hlast, Nat.mod_self]
        simp [hlast, hmod, Nat.dvd_of_mod_eq_zero hmod]
    · have hdiv : (k + 1) / ds.prod = k / ds.prod := by rw [Nat.succ_div, if_neg hc, Nat.add_zero]
      have hn : ¬ d * ds.prod ∣ k + 1 := fun hh => hc (dvd_of_mul_left_dvd hh)
      simp [hc, hdiv, hn]

theorem loopReads_unravel (st o : List Nat) {s : List Nat} (h : 0 < s.prod) (n k : Nat) :
    loopReads st o s n (unravel s k) = (List.range' k n).map fun j => srcIndex st o (unravel s j) := by
  induction n generalizing k with
  | zero => rfl
  | succ n ih => rw [loopReads, advance_unravel h, ih, List.range'_succ, List.map_cons]

theorem unravel_zero (s : List Nat) : unravel s 0 = List.replicate s.length 0 := by
  induction s with
  | nil => rfl
  | cons d ds ih => simp [unravel, ih, List.replicate_succ]

/-- The general path reads the positions of `offsets + j` for the indices `j`
of the output in row-major order. -/
theorem walk_reads (a o s : List Nat) (hs : s.length = a.length) :
    loopReads (srcStrides a) o s s.prod (List.replicate a.length 0) =
      (indices s).map fun j => ravel a (List.zipWith (· + ·) o j) := by
  rcases Nat.eq_zero_or_pos s.prod with h | h
  · have hnil : indices s = [] := List.eq_nil_of_length_eq_zero (by rw [length_indices, h])
    rw [h, hnil]; rfl
  · rw [← hs, ← unravel_zero, loopReads_unravel _ _ h, ← List.range_eq_range', ← map_unravel_range,
      List.map_map]
    exact List.map_congr_left fun k _ => srcIndex_eq a o _

theorem sliceWalk_eq (elements : List T) (a o s : List Nat) (hs : s.length = a.length) :
    sliceWalk elements a o s =
      (indices s).mapM fun j => elements[ravel a (List.zipWith (· + ·) o j)]? := by
  rw [sliceWalk, sliceLoop_eq, walk_reads a o s hs, List.mapM_map]
  simp
  rfl

/-! ## What `slice_nd` returns -/

/-- The requested box lies inside the buffer's box. -/
def Fits (offsets outShape alignedShape : List Nat) : Prop :=
  List.Forall₂ (· ≤ ·) (List.zipWith (· + ·) offsets outShape) alignedShape

theorem below_add {j s : List Nat} (hj : Below j s) :
    ∀ {o a : List Nat}, o.length = a.length → Fits o s a → Below (List.zipWith (· + ·) o j) a := by
  induction hj with
  | nil =>
    intro o a _ hf
    cases a with
    | nil => simp
    | cons x a => rw [Fits, List.zipWith_nil_right] at hf; cases hf
  | @cons i d js ds hi _ ih =>
    intro o a hlen hf
    cases o with
    | nil => cases a <;> simp_all
    | cons y o =>
      cases a with
      | nil => simp at hlen
      | cons x a =>
        cases hf with
        | cons hx hrest =>
          have hx' : y + d ≤ x := hx
          exact .cons (show y + i < x by omega) (ih (by simpa using hlen) hrest)

theorem zeros_add {o j : List Nat} (ho : o.all (· == 0) = true) (hlen : o.length = j.length) :
    List.zipWith (· + ·) o j = j := by
  induction o generalizing j with
  | nil => cases j <;> simp_all
  | cons y o ih =>
    cases j with
    | nil => simp at hlen
    | cons i j =>
      simp only [List.all_cons, Bool.and_eq_true, beq_iff_eq, List.length_cons, Nat.add_right_cancel_iff] at ho hlen
      simp [ho.1, ih ho.2 hlen]

theorem identity_iff {a o s : List Nat} : identity a o s = true ↔ a = s ∧ o.all (· == 0) = true := by
  simp [identity]

/-- On a buffer holding `g` of every index of its box, the general path yields
`g` of the shifted indices. -/
theorem sliceWalk_box (g : List Nat → T) {a o s : List Nat} (ho : o.length = a.length) (hs : s.length = a.length)
    (hf : Fits o s a) :
    sliceWalk ((indices a).map g) a o s = some ((indices s).map fun j => g (List.zipWith (· + ·) o j)) := by
  rw [sliceWalk_eq _ a o s hs, Lib.Collect.mapM_eq_some, List.map_map]
  apply List.map_congr_left
  intro j hj
  rw [List.getElem?_map, getElem?_indices_ravel (below_add (mem_indices.1 hj) ho hf)]
  rfl

theorem sliceWalk_empty (elements : List T) {a o s : List Nat} (hs : s.length = a.length) (h0 : s.prod = 0) :
    sliceWalk elements a o s = some [] := by
  rw [sliceWalk_eq _ a o s hs, List.eq_nil_of_length_eq_zero ((length_indices s).trans h0)]
  rfl

/-- The fast path changes nothing: it hands on what the general path would build. -/
theorem identity_walk {elements : List T} {a o s : List Nat} (ho : o.length = a.length)
    (hlen : elements.length = a.prod) (hid : identity a o s = true) : sliceWalk elements a o s = some elements := by
  obtain ⟨rfl, hz⟩ := identity_iff.1 hid
  rw [sliceWalk_eq _ a o a rfl, Lib.Collect.mapM_eq_some]
  have hread : ∀ j ∈ indices a, elements[ravel a (List.zipWith (· + ·) o j)]? = elements[ravel a j]? := by
    intro j hj
    rw [zeros_add hz (ho.trans (mem_indices.1 hj).length_eq.symm)]
  rw [List.map_congr_left hread, ← map_unravel_range, List.map_map]
  apply List.ext_getElem?
  intro k
  rcases Nat.lt_or_ge k a.prod with hk | hk
  · simp [List.getElem?_range hk, ravel_unravel hk, List.getElem?_eq_getElem (hlen ▸ hk)]
  · simp [hlen, hk]

/-- `slice_nd` on a buffer holding `g` of every index of its box. -/
theorem sliceNd_box (g : List Nat → T) {a o s : List Nat} (ho : o.length = a.length) (hs : s.length = a.length)
    (hf : Fits o s a) :
    sliceNd ((indices a).map g) a o s = some ((indices s).map fun j => g (List.zipWith (· + ·) o j)) := by
  rw [← sliceWalk_box g ho hs hf, sliceNd]
  split
  next hid => rw [identity_walk ho (by simp [length_indices]) hid]
  next => rfl

theorem sliceNd_nil {a o s : List Nat} (hs : s.length = a.length) (h0 : s.prod = 0) :
    sliceNd ([] : List T) a o s = some [] := by
  rw [sliceNd, sliceWalk_empty [] hs h0, ite_self]

/-- Inside the box, the general path reads every position it needs and lays the
elements out in row-major order. -/
theorem walk_fits {elements : List T} {a o s : List Nat} (ho : o.length = a.length) (hs : s.length = a.length)
    (hf : Fits o s a) (hlen : elements.length = a.prod) :
    ∃ out, sliceWalk elements a o s = some out ∧ out.length = s.prod ∧
      ∀ j, Below j s → out[ravel s j]? = elements[ravel a (List.zipWith (· + ·) o j)]? := by
  obtain ⟨out, hout⟩ := Lib.Collect.exists_mapM_some
    (f := fun j => elements[ravel a (List.zipWith (· + ·) o j)]?) (l := indices s) fun j hj =>
      ⟨_, List.getElem?_eq_getElem (hlen ▸ ravel_lt (below_add (mem_indices.1 hj) ho hf))⟩
  have hmap := Lib.Collect.mapM_eq_some.1 hout
  refine ⟨out, (sliceWalk_eq elements a o s hs).trans hout, ?_, fun j hj => ?_⟩
  · simpa [length_indices] using (congrArg List.length hmap).symm
  · have hget := congrArg (·[ravel s j]?) hmap
    simp only [List.getElem?_map, getElem?_indices_ravel hj, Option.map_some] at hget
    cases hk : out[ravel s j]? <;> simp_all

theorem reads_fit {elements : List T} {a o s : List Nat} (ho : o.length = a.length) (hs : s.length = a.length)
    (hf : Fits o s a) (hlen : elements.length = a.prod) : ∀ p ∈ reads a o s, p < elements.length := by
  intro p hp
  rw [reads] at hp
  split at hp
  · cases hp
  · rw [walk_reads a o s hs, List.mem_map] at hp
    obtain ⟨j, hj, rfl⟩ := hp
    exact hlen ▸ ravel_lt (below_add (mem_indices.1 hj) ho hf)

theorem reads_empty {a o s : List Nat} (hs : s.length = a.length) (h0 : s.prod = 0) : reads a o s = [] := by
  rw [reads, walk_reads a o s hs, List.eq_nil_of_length_eq_zero ((length_indices s).trans h0)]
  simp

/-- `slice_nd` extracts the requested hyperrectangle; an empty request reads
nothing; and the fast path agrees with the general one. -/
theorem slice_nd_extracts (elements : List T) (a o s : List Nat) (ho : o.length = a.length)
    (hs : s.length = a.length) :
    (Fits o s a → elements.length = a.prod →
      (∃ out, sliceNd elements a o s = some out ∧ out.length = s.prod ∧
        ∀ j, Below j s → out[ravel s j]? = elements[ravel a (List.zipWith (· + ·) o j)]?) ∧
      ∀ p ∈ reads a o s, p < elements.length) ∧
    (0 ∈ s → elements = [] ∨ elements.length = a.prod → sliceNd elements a o s = some [] ∧ reads a o s = []) ∧
    (identity a o s = true →
      (Fits o s a ∧ elements.length = a.prod) ∨ (0 ∈ s ∧ (elements = [] ∨ elements.length = a.prod)) →
      sliceNd elements a o s = sliceWalk elements a o s) := by
  have hfast : identity a o s = true → elements.length = a.prod →
      sliceNd elements a o s = sliceWalk elements a o s := by
    intro hid hlen
    rw [sliceNd, if_pos hid, identity_walk ho hlen hid]
  have hlen0 : 0 ∈ s → identity a o s = true → elements = [] ∨ elements.length = a.prod →
      elements.length = a.prod := by
    intro h0 hid hb
    obtain ⟨rfl, -⟩ := identity_iff.1 hid
    rcases hb with rfl | hb
    · simp [List.prod_eq_zero h0]
    · exact hb
  have hgen : ∀ hid : ¬ identity a o s = true, sliceNd elements a o s = sliceWalk elements a o s := by
    intro hid
    rw [sliceNd, if_neg hid]
  refine ⟨fun hf hlen => ⟨?_, reads_fit ho hs hf hlen⟩, fun h0 hb => ⟨?_, reads_empty hs (List.prod_eq_zero h0)⟩,
    fun hid hc => ?_⟩
  · have hw := walk_fits ho hs hf hlen
    by_cases hid : identity a o s = true
    · rwa [hfast hid hlen]
    · rwa [hgen hid]
  · have hw := sliceWalk_empty elements hs (List.prod_eq_zero h0) (o := o)
    by_cases hid : identity a o s = true
    · rw [hfast hid (hlen0 h0 hid hb), hw]
    · rw [hgen hid, hw]
  · rcases hc with ⟨-, hlen⟩ | ⟨h0, hb⟩
    · exact hfast hid hlen
    · exact hfast hid (hlen0 h0 hid hb)

/-- Requests of the source's own tests: rows and columns 1 to 2 of a 3 by 4
buffer, an empty request at the end of a ragged chunk, and a whole buffer. -/
theorem slice_nd_extracts_tests :
    ((∃ out, sliceNd (List.range 12) [3, 4] [1, 1] [2, 2] = some out ∧ out.length = 4 ∧
      ∀ j, Below j [2, 2] → out[ravel [2, 2] j]? =
        (List.range 12)[ravel [3, 4] (List.zipWith (· + ·) [1, 1] j)]?) ∧
      ∀ p ∈ reads [3, 4] [1, 1] [2, 2], p < 12) ∧
    (sliceNd [12] [1] [1] [0] = some [] ∧ reads [1] [1] [0] = []) ∧
    sliceNd (List.range 12) [3, 4] [0, 0] [3, 4] = sliceWalk (List.range 12) [3, 4] [0, 0] [3, 4] :=
  ⟨(slice_nd_extracts (List.range 12) [3, 4] [1, 1] [2, 2] rfl rfl).1
      (.cons (by decide) (.cons (by decide) .nil)) rfl,
    (slice_nd_extracts [12] [1] [1] [0] rfl rfl).2.1 (by decide) (.inr rfl),
    (slice_nd_extracts (List.range 12) [3, 4] [0, 0] [3, 4] rfl rfl).2.2 rfl
      (.inl ⟨.cons (by decide) (.cons (by decide) .nil), rfl⟩)⟩

example : sliceNd (List.range 12) [3, 4] [1, 1] [2, 2] = some [5, 6, 9, 10] := by decide

end Rustytree.SliceNd
