import Mathlib.Algebra.GroupWithZero.Nat
import Mathlib.Data.Nat.ModEq

/-!
# Counters of 32 bits

The increment and the decrement of an unsigned 32-bit counter, as functions of
the naturals below `2 ^ 32`, and where they agree with those of the naturals.
Both wrap by cases and not by a sum modulo `2 ^ 32`, so that a definitional check
which unfolds them stops at the test. A product is reduced, as it may wrap more than
once.
-/

namespace Uint32

/-- `n++` -/
def succ (n : ℕ) : ℕ := if n + 1 = 2 ^ 32 then 0 else n + 1

/-- `n--` -/
def pred (n : ℕ) : ℕ := if n = 0 then 2 ^ 32 - 1 else n - 1

/-- `m - n` -/
def sub (m n : ℕ) : ℕ := if n ≤ m then m - n else m + 2 ^ 32 - n

/-- `m * n` -/
def mul (m n : ℕ) : ℕ := m * n % 2 ^ 32

theorem succ_of_lt {n : ℕ} (h : n + 1 < 2 ^ 32) : succ n = n + 1 := if_neg (Nat.ne_of_lt h)

theorem pred_of_pos {n : ℕ} (h : 0 < n) : pred n = n - 1 := if_neg (Nat.ne_of_gt h)

@[simp] theorem pred_zero : pred 0 = 2 ^ 32 - 1 := if_pos rfl

theorem mul_of_lt {m n : ℕ} (h : m * n < 2 ^ 32) : mul m n = m * n := Nat.mod_eq_of_lt h

/-- The increment, modulo `2 ^ 32`. -/
theorem succ_modEq (n : ℕ) : succ n ≡ n + 1 [MOD 2 ^ 32] := by
  rw [succ]
  split_ifs with h
  · rw [h]
    exact (Nat.mod_self _).symm
  · exact Nat.ModEq.refl _

/-- The decrement, modulo `2 ^ 32`. -/
theorem pred_modEq (n : ℕ) : pred n + 1 ≡ n [MOD 2 ^ 32] := by
  rcases Nat.eq_zero_or_pos n with rfl | h
  · rw [pred_zero]
    exact Nat.mod_self _
  · rw [pred_of_pos h, Nat.sub_add_cancel h]

/-- A product is not smaller than it should be exactly if it does not wrap. -/
theorem le_mul_iff {m n : ℕ} : m * n ≤ mul m n ↔ m * n < 2 ^ 32 := by
  constructor
  · exact fun h => Nat.lt_of_le_of_lt h (Nat.mod_lt _ (by decide))
  · exact fun h => Nat.le_of_eq (mul_of_lt h).symm

end Uint32
