import Mathlib
/-!
# Writing results back by index

A list is scanned, and what was computed for each element is written back at
its index. The writes do not disturb each other: the outcome is a map.
-/

namespace Lib.WriteBack

variable {α β : Type}

theorem modify_append_length (before after : List α) (x : α) (f : α → α) :
    (before ++ x :: after).modify before.length f = before ++ f x :: after := by
  induction before with
  | nil => rfl
  | cons y before ih => simp [ih]

/-- Writes at one index are one write. -/
theorem foldl_modify_same (write : β → α → α) (i : Nat) (rs : List β) (l : List α) :
    rs.foldl (fun l r => l.modify i (write r)) l = l.modify i fun x => rs.foldl (fun x r => write r x) x := by
  induction rs generalizing l with
  | nil => simp only [List.foldl_nil]; exact (List.modify_id i l).symm
  | cons r rs ih => rw [List.foldl_cons, ih, List.modify_modify_eq]; rfl

theorem foldl_modify_append (write : Nat → α → α → α) (before after : List α) :
    (after.zipIdx before.length).foldl (fun l e => l.modify e.2 (write e.2 e.1)) (before ++ after) =
      before ++ (after.zipIdx before.length).map fun e => write e.2 e.1 e.1 := by
  induction after generalizing before with
  | nil => simp
  | cons x after ih =>
    have hnext := ih (before ++ [write before.length x x])
    rw [List.length_append, List.length_singleton] at hnext
    simp only [List.zipIdx_cons, List.foldl_cons, modify_append_length, List.map_cons]
    simpa using hnext

/-- Writing back at every index is mapping. -/
theorem foldl_modify_zipIdx (write : Nat → α → α → α) (l : List α) :
    l.zipIdx.foldl (fun l e => l.modify e.2 (write e.2 e.1)) l = l.zipIdx.map fun e => write e.2 e.1 e.1 :=
  foldl_modify_append write [] l

end Lib.WriteBack
