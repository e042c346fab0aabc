import Mathlib.Data.Nat.Notation
import Mathlib.Order.Basic

/-!
# Blocks of memory

What `malloc` returns is a block of as many bytes as it was asked for, or the null pointer;
which of the two is for the environment to decide. A `Malloc.Heap` keeps the blocks that
were allocated, and a record of what was written: where, and how many bytes.

An array is a part of a block, from an offset on, with elements of some size. The size is
in bits, so that the bits of a word may be elements as well.
-/

namespace Malloc

/-- A block: the number of the call that returned it, and its size in bytes. -/
structure Block where
  id : ℕ
  bytes : ℕ
  deriving DecidableEq, Repr

/-- A pointer to the beginning of a block, or the null pointer. -/
abbrev Ptr := Option Block

/-- **A write** of so many bytes, from an offset on. -/
structure Write where
  ptr : Ptr
  offset : ℕ
  bytes : ℕ
  deriving DecidableEq, Repr

/-- The write stays inside the block. -/
def Write.Inside (w : Write) : Prop := ∃ b, w.ptr = some b ∧ w.offset + w.bytes ≤ b.bytes

/-- **An array** in a block. -/
structure Region where
  ptr : Ptr
  /-- Where it begins, in bytes. -/
  offset : ℕ
  /-- The size of an element, in bits. -/
  bits : ℕ
  deriving DecidableEq, Repr

/-- There is an array, and it has room for `n` elements. -/
def Region.Holds (a : Region) (n : ℕ) : Prop :=
  ∃ b, a.ptr = some b ∧ 8 * a.offset + a.bits * n ≤ 8 * b.bytes

/-- **The memory.** -/
structure Heap where
  /-- The calls of `malloc` so far. -/
  calls : ℕ
  /-- The blocks that are allocated. -/
  live : List Block
  /-- The writes so far, the last one first. -/
  writes : List Write

/-- Nothing has happened yet. -/
def Heap.empty : Heap := ⟨0, [], []⟩

/-- `malloc(size)`, which succeeds or not. -/
def Heap.malloc (h : Heap) (size : ℕ) (ok : Bool) : Ptr × Heap :=
  if ok then
    (some ⟨h.calls, size⟩, { h with calls := h.calls + 1, live := ⟨h.calls, size⟩ :: h.live })
  else (none, { h with calls := h.calls + 1 })

/-- A write. -/
def Heap.write (h : Heap) (p : Ptr) (offset bytes : ℕ) : Heap :=
  { h with writes := ⟨p, offset, bytes⟩ :: h.writes }

@[simp] theorem Heap.writes_malloc (h : Heap) (size : ℕ) (ok : Bool) :
    (h.malloc size ok).2.writes = h.writes := by
  rw [Heap.malloc]
  split_ifs <;> rfl

/-- What is asked for and granted has the size asked for. -/
theorem Heap.ptr_malloc (h : Heap) (size : ℕ) (ok : Bool) :
    (h.malloc size ok).1 = if ok then some ⟨h.calls, size⟩ else none := by
  rw [Heap.malloc]
  split_ifs <;> rfl

/-- **An array that was allocated has room** exactly if the allocation succeeded, and was for
enough bytes. -/
theorem holds_malloc_iff {h : Heap} {size n b : ℕ} {ok : Bool} :
    Region.Holds ⟨(h.malloc size ok).1, 0, 8 * b⟩ n ↔ ok = true ∧ b * n ≤ size := by
  rw [Region.Holds, Heap.ptr_malloc]
  cases ok with
  | false => simp
  | true =>
    simp only [if_true, Option.some.injEq, exists_eq_left', true_and, Nat.mul_zero, Nat.zero_add,
      Nat.mul_assoc]
    exact Nat.mul_le_mul_left_iff (by decide)

/-- The elements of an array that has room for them are inside its block. -/
theorem Region.Holds.inside {p : Ptr} {n b i : ℕ} (h : Region.Holds ⟨p, 0, 8 * b⟩ n)
    (hi : i < n) : Write.Inside ⟨p, b * i, b⟩ := by
  obtain ⟨blk, hp, hle⟩ := h
  refine ⟨blk, hp, ?_⟩
  have hstep : b * i + b ≤ b * n := by
    rw [← Nat.mul_succ]
    exact Nat.mul_le_mul_left b hi
  dsimp only at hle ⊢
  rw [Nat.mul_assoc] at hle
  omega

end Malloc
