import Mathlib
/-!
# Row-major order

The multi-indices of a box, the position of each in a flat buffer and the
index at each position. `unravel` is the mixed-radix expansion of a counter;
it never reduces the counter, so one digit can be read off without the others.
-/

namespace Lib.RowMajor

/-- `idx` lies within the box `shape`. -/
abbrev Below (idx shape : List Nat) : Prop := List.Forall₂ (· < ·) idx shape

/-- Every choice of one element from each list, the last list varying fastest. -/
def grid {α : Type} : List (List α) → List (List α)
  | [] => [[]]
  | xs :: rest => xs.flatMap fun x => (grid rest).map (x :: ·)

/-- The multi-indices of a box in row-major order. -/
def indices (shape : List Nat) : List (List Nat) := grid (shape.map List.range)

/-- How far one step along each axis moves in the flat buffer. -/
def strides : List Nat → List Nat
  | [] => []
  | _ :: ss => ss.prod :: strides ss

/-- The flat position of an index. -/
def ravel (shape idx : List Nat) : Nat := (List.zipWith (· * ·) idx (strides shape)).sum

/-- The index at flat position `k`. -/
def unravel : List Nat → Nat → List Nat
  | [], _ => []
  | s :: ss, k => k / ss.prod % s :: unravel ss k

@[simp] theorem ravel_nil (idx : List Nat) : ravel [] idx = 0 := by simp [ravel, strides]

@[simp] theorem ravel_cons (s i : Nat) (ss is : List Nat) :
    ravel (s :: ss) (i :: is) = i * ss.prod + ravel ss is := rfl

/-! ## Grids -/

theorem length_grid {α : Type} (ls : List (List α)) : (grid ls).length = (ls.map List.length).prod := by
  induction ls with
  | nil => rfl
  | cons xs rest ih => simp [grid, ih]

theorem mem_grid {α : Type} {ls : List (List α)} {x : List α} :
    x ∈ grid ls ↔ List.Forall₂ (· ∈ ·) x ls := by
  induction ls generalizing x with
  | nil => simp [grid]
  | cons xs rest ih =>
    simp only [grid, List.mem_flatMap, List.mem_map, ih]
    constructor
    · rintro ⟨a, ha, b, hb, rfl⟩
      exact .cons ha hb
    · rintro (_ | ⟨ha, hb⟩)
      exact ⟨_, ha, _, hb, rfl⟩

/-- Renaming the choices of each axis renames the grid. -/
theorem grid_map {α β γ : Type} (f : γ → α → β) (gs : List γ) (ls : List (List α)) (h : gs.length = ls.length) :
    grid (List.zipWith (fun g xs => xs.map (f g)) gs ls) = (grid ls).map (List.zipWith f gs) := by
  induction gs generalizing ls with
  | nil => cases ls <;> simp_all [grid]
  | cons g gs ih =>
    cases ls with
    | nil => simp at h
    | cons xs rest =>
      simp only [List.length_cons, Nat.add_right_cancel_iff] at h
      simp [grid, ih rest h, List.flatMap_map, List.map_flatMap, Function.comp_def]

theorem length_indices (shape : List Nat) : (indices shape).length = shape.prod := by
  simp [indices, length_grid, Function.comp_def]

theorem mem_indices {shape idx : List Nat} : idx ∈ indices shape ↔ Below idx shape := by
  simp [indices, mem_grid, List.forall₂_map_right_iff]

/-! ## Positions and indices -/

theorem prod_pos_of_below {idx shape : List Nat} (h : Below idx shape) : 0 < shape.prod := by
  induction h with
  | nil => simp
  | cons hi _ ih => exact Nat.mul_pos (by omega) ih

theorem ravel_lt {idx shape : List Nat} (h : Below idx shape) : ravel shape idx < shape.prod := by
  induction h with
  | nil => simp
  | @cons i s is ss hi _ ih =>
    have hle : (i + 1) * ss.prod ≤ s * ss.prod := Nat.mul_le_mul_right _ hi
    rw [ravel_cons, List.prod_cons]
    linarith

/-- Whole boxes added to the counter do not change the index. -/
theorem unravel_add_mul (shape : List Nat) (k i : Nat) : unravel shape (k + i * shape.prod) = unravel shape k := by
  induction shape generalizing i with
  | nil => rfl
  | cons s ss ih =>
    simp only [unravel, List.prod_cons, ← Nat.mul_assoc, ih]
    congr 1
    rcases Nat.eq_zero_or_pos ss.prod with h | h
    · simp [h]
    · rw [Nat.add_mul_div_right _ _ h, Nat.add_mul_mod_self_right]

theorem ravel_unravel {shape : List Nat} {k : Nat} (h : k < shape.prod) : ravel shape (unravel shape k) = k := by
  induction shape generalizing k with
  | nil => simp at h; simp [h]
  | cons s ss ih =>
    rw [List.prod_cons] at h
    have hpos : 0 < ss.prod := Nat.pos_of_mul_pos_left (Nat.zero_lt_of_lt h)
    have hdigit : k / ss.prod % s = k / ss.prod := Nat.mod_eq_of_lt (Nat.div_lt_of_lt_mul (by rwa [Nat.mul_comm]))
    have hrest : unravel ss k = unravel ss (k % ss.prod) := by
      conv_lhs => rw [← Nat.mod_add_div' k ss.prod]
      exact unravel_add_mul ss _ _
    rw [unravel, ravel_cons, hdigit, hrest, ih (Nat.mod_lt _ hpos)]
    exact Nat.div_add_mod' k ss.prod

theorem unravel_ravel {idx shape : List Nat} (h : Below idx shape) : unravel shape (ravel shape idx) = idx := by
  induction h with
  | nil => rfl
  | @cons i s is ss hi hs ih =>
    have hlt := ravel_lt hs
    have hpos := prod_pos_of_below hs
    have hdigit : (i * ss.prod + ravel ss is) / ss.prod = i := by
      rw [Nat.add_comm, Nat.add_mul_div_right _ _ hpos, Nat.div_eq_of_lt hlt, Nat.zero_add]
    rw [ravel_cons, unravel, hdigit, Nat.mod_eq_of_lt hi, Nat.add_comm, unravel_add_mul, ih]

/-- Counting through a product of sizes is counting through the outer size and, inside, the inner. -/
theorem map_range_mul {β : Type} (f : Nat → β) (s p : Nat) :
    (List.range (s * p)).map f = (List.range s).flatMap fun i => (List.range p).map fun r => f (i * p + r) := by
  induction s with
  | zero => simp
  | succ s ih =>
    rw [Nat.succ_mul, List.range_add, List.map_append, ih, List.range_succ]
    simp [Function.comp_def]

/-- The flat positions in order are the multi-indices in row-major order. -/
theorem map_unravel_range (shape : List Nat) : (List.range shape.prod).map (unravel shape) = indices shape := by
  induction shape with
  | nil => rfl
  | cons s ss ih =>
    rw [List.prod_cons, map_range_mul]
    simp only [indices, List.map_cons, grid] at ih ⊢
    apply List.flatMap_congr
    intro i hi
    rw [← ih, List.map_map]
    apply List.map_congr_left
    intro r hr
    simp only [List.mem_range] at hi hr
    have hpos : 0 < ss.prod := by omega
    have hdigit : (i * ss.prod + r) / ss.prod = i := by
      rw [Nat.add_comm, Nat.add_mul_div_right _ _ hpos, Nat.div_eq_of_lt hr, Nat.zero_add]
    simp only [unravel, Function.comp_apply, hdigit, Nat.mod_eq_of_lt hi]
    rw [Nat.add_comm, unravel_add_mul]

theorem getElem?_indices {shape : List Nat} {k : Nat} (h : k < shape.prod) :
    (indices shape)[k]? = some (unravel shape k) := by
  rw [← map_unravel_range, List.getElem?_map, List.getElem?_range h]
  rfl

/-- Where a multi-index stands in the row-major enumeration. -/
theorem getElem?_indices_ravel {idx shape : List Nat} (h : Below idx shape) :
    (indices shape)[ravel shape idx]? = some idx := by
  rw [getElem?_indices (ravel_lt h), unravel_ravel h]

end Lib.RowMajor
