import Mathlib.Algebra.GroupWithZero.Nat
import Waeio.Lib.Bytes

/-!
# Numbers in memory

Reading is the other direction of `Bytes.littleEndian`: `Bytes.load` is the number whose bytes
are in memory from an address on. It is the number that was written there
(`Bytes.Holds.load_eq`), and it is that of another memory with the same bytes at these
addresses (`Bytes.load_congr`).
-/

namespace Bytes

/-- The number with these bytes, least significant first. -/
def value : List (BitVec 8) → ℕ
  | [] => 0
  | b :: bs => b.toNat + 256 * value bs

/-- The bytes of a stretch of addresses. -/
def read (mem : Memory) (start : ℤ) (n : ℕ) : List (BitVec 8) :=
  (List.range n).map fun k : ℕ => mem (start + k)

/-- **The number at an address**, of `n` bytes. -/
def load {w : ℕ} (n : ℕ) (mem : Memory) (start : ℤ) : BitVec w :=
  BitVec.ofNat w (value (read mem start n))

variable {w n : ℕ} {mem mem' : Memory} {start : ℤ} {bs : List (BitVec 8)}

theorem littleEndian_succ (n : ℕ) (v : BitVec w) :
    littleEndian (n + 1) v = v.extractLsb' 0 8 :: littleEndian n (v >>> 8) := by
  rw [littleEndian, List.range_succ_eq_map, List.map_cons, List.map_map, littleEndian]
  congr 1
  refine List.map_congr_left fun k _ => ?_
  refine BitVec.eq_of_getLsbD_eq fun i hi => ?_
  simp only [Function.comp_apply, BitVec.getLsbD_extractLsb', BitVec.getLsbD_ushiftRight, hi,
    decide_true, Bool.true_and]
  congr 1
  omega

/-- **A number is read back from its bytes**, as far as they go. -/
theorem value_littleEndian (n : ℕ) (v : BitVec w) :
    value (littleEndian n v) = v.toNat % 2 ^ (8 * n) := by
  induction n generalizing v with
  | zero => rw [Nat.mul_zero, Nat.pow_zero, Nat.mod_one]; rfl
  | succ n ih =>
    have hbyte : (v.extractLsb' 0 8).toNat = v.toNat % 256 := by
      rw [BitVec.extractLsb'_toNat, Nat.shiftRight_zero]
    have hrest : (v >>> 8).toNat = v.toNat / 256 := by
      rw [BitVec.toNat_ushiftRight, Nat.shiftRight_eq_div_pow]
    have hpow : 2 ^ (8 * (n + 1)) = 256 * 2 ^ (8 * n) := by
      rw [Nat.mul_succ, Nat.pow_add, Nat.mul_comm]
    rw [littleEndian_succ, value, ih, hbyte, hrest, hpow, Nat.mod_mul]

theorem Holds.read_eq (h : Holds mem start bs) : read mem start bs.length = bs := by
  refine List.ext_getElem (by simp [read]) fun k hk hk' => ?_
  simp only [read, List.getElem_map, List.getElem_range]
  exact h k _ (List.getElem?_eq_getElem hk')

/-- **What was written is read back.** -/
theorem Holds.load_eq {v : BitVec w} (h : Holds mem start (littleEndian n v)) (hw : w ≤ 8 * n) :
    load n mem start = v := by
  have hread : read mem start n = littleEndian n v := by
    have hread := h.read_eq
    rwa [length_littleEndian] at hread
  have hlt : v.toNat < 2 ^ (8 * n) :=
    v.isLt.trans_le (Nat.pow_le_pow_right Nat.two_pos hw)
  rw [load, hread, value_littleEndian, Nat.mod_eq_of_lt hlt, BitVec.ofNat_toNat,
    BitVec.setWidth_eq]

/-- **Only the bytes at its addresses count** for a number. -/
theorem load_congr (h : ∀ a ∈ Range.mk start n, mem' a = mem a) :
    load (w := w) n mem' start = load n mem start := by
  have hread : read mem' start n = read mem start n := by
    refine List.map_congr_left fun k hk => h _ ?_
    have hlt := List.mem_range.mp hk
    rw [Range.mem_iff]
    dsimp only
    omega
  rw [load, load, hread]

end Bytes
