import Rustytree.Lib.ChunkGrid
/-!
# Checked arithmetic on 64-bit words

The operations fail where the exact result does not fit a word. Where there is a
result it is the exact one, and the one that wraps.
-/

namespace Lib.CheckedU64
open Lib.ChunkGrid

def add? (a b : UInt64) : Option UInt64 := if a.toNat + b.toNat < 2 ^ 64 then some (a + b) else none

def sub? (a b : UInt64) : Option UInt64 := if b.toNat ≤ a.toNat then some (a - b) else none

def mul? (a b : UInt64) : Option UInt64 := if a.toNat * b.toNat < 2 ^ 64 then some (a * b) else none

/-- The quotient rounded up, with its increment. -/
def divCeil? (a b : UInt64) : Option UInt64 := if a % b > 0 then add? (a / b) 1 else some (a / b)

/-- The same, wrapping. -/
def divCeilWrapping (a b : UInt64) : UInt64 := if a % b > 0 then a / b + 1 else a / b

theorem add?_of_lt {a b : UInt64} (h : a.toNat + b.toNat < 2 ^ 64) :
    add? a b = some (a + b) ∧ (a + b).toNat = a.toNat + b.toNat :=
  ⟨if_pos h, by rw [UInt64.toNat_add, Nat.mod_eq_of_lt h]⟩

theorem sub?_of_le {a b : UInt64} (h : b.toNat ≤ a.toNat) :
    sub? a b = some (a - b) ∧ (a - b).toNat = a.toNat - b.toNat :=
  ⟨if_pos h, UInt64.toNat_sub_of_le a b (UInt64.le_iff_toNat_le.2 h)⟩

theorem mul?_of_lt {a b : UInt64} (h : a.toNat * b.toNat < 2 ^ 64) :
    mul? a b = some (a * b) ∧ (a * b).toNat = a.toNat * b.toNat :=
  ⟨if_pos h, by rw [UInt64.toNat_mul, Nat.mod_eq_of_lt h]⟩

/-- Rounding a quotient up never overflows. -/
theorem divCeil?_eq (a : UInt64) {b : UInt64} (hb : 0 < b.toNat) :
    divCeil? a b = some (divCeilWrapping a b) ∧ (divCeilWrapping a b).toNat = divCeil a.toNat b.toNat := by
  have hmod : a % b > 0 ↔ a.toNat % b.toNat ≠ 0 := by
    rw [gt_iff_lt, UInt64.lt_iff_toNat_lt, UInt64.toNat_mod]
    exact Nat.pos_iff_ne_zero
  unfold divCeil? divCeilWrapping divCeil
  by_cases h : a % b > 0
  · have hne := hmod.1 h
    have hlt : (a / b).toNat + (1 : UInt64).toNat < 2 ^ 64 := by
      have hdiv : a.toNat / b.toNat < a.toNat := by
        apply Nat.div_lt_self (Nat.pos_of_ne_zero fun hzero => hne (by simp [hzero]))
        refine Nat.lt_of_le_of_ne hb fun hone => hne ?_
        rw [← hone, Nat.mod_one]
      have ha := a.toNat_lt
      rw [UInt64.toNat_div, UInt64.toNat_one]
      omega
    obtain ⟨hsome, hval⟩ := add?_of_lt hlt
    rw [if_pos h, if_pos h, if_neg hne]
    exact ⟨hsome, by rw [hval, UInt64.toNat_div, UInt64.toNat_one]⟩
  · have hzero : a.toNat % b.toNat = 0 := not_not.1 (mt hmod.2 h)
    rw [if_neg h, if_neg h, if_pos hzero]
    exact ⟨rfl, UInt64.toNat_div a b⟩

end Lib.CheckedU64
