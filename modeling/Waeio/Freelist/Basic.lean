import Waeio.Lib.LeastFirst
import Waeio.Lib.Words

/-!
# The bitmap freelist

`src/freelist.c`: a table of `size` entries kept as a vector of 32-bit words in
which a set bit is a free entry. Bit `k` of word `i` stands for the entry
`32 * i + k` (`Words.bit`).

The functions follow the source. Where C hands a result code back and writes
through a pointer, the definition returns the code, what was written through the
pointer if anything was, and the freelist afterwards. Numbers are `uint32_t`; the
one sum the source forms out of them is taken modulo `2 ^ 32`.

`Waeio.Freelist.Tr` is the freelist as its clients see it, a labelled transition
system over the calls and answers of `LeastFirst`, and `Waeio.Freelist.Run` are
its runs from a fresh `freelist_new`.
-/

namespace Waeio

/-- `freelist_result_t`. -/
inductive FreelistResult
  | ok | full | memErr | sizeErr | obEntry
  deriving DecidableEq, Repr

/-- `struct freelist`: the number of entries it manages, and the vector of `len`
words they are kept in. -/
structure Freelist where
  /-- The number of elements managed by the freelist. -/
  size : ℕ
  /-- The length of the bit vector, in words. -/
  len : ℕ
  /-- The bit vector: a set bit is a free entry. -/
  vector : List (BitVec 32)
  vector_length : vector.length = len
  deriving DecidableEq

namespace Freelist

/-- `int_width` -/
def intWidth : ℕ := 32

/-- `calc_vector_len`: the number of words for `freespace` entries. -/
def calcVectorLen (freespace : ℕ) : ℕ :=
  if freespace % intWidth = 0 then freespace / intWidth else freespace / intWidth + 1

end Freelist

open Freelist

/-- `freelist_new`; `malloc` says whether the allocation succeeds. The vector is
filled with ones. -/
def freelistNew (freespace : ℕ) (malloc : Bool) : FreelistResult × Option Freelist :=
  if freespace = 0 then (.sizeErr, none)
  else if malloc then
    (.ok, some
      { size := freespace
        len := calcVectorLen freespace
        vector := List.replicate (calcVectorLen freespace) (BitVec.allOnes 32)
        vector_length := List.length_replicate })
  else (.memErr, none)

namespace Freelist

/-- The test in the loop of `freelist_next` at word `i`: the bit it settles on,
if it settles on one. -/
def nextIndex (freelist : Freelist) (i : ℕ) : Option ℕ :=
  let ans := Words.ffs (freelist.vector.getD i 0)
  if 0 < ans ∧ ans - 1 < freelist.size then some (ans - 1) else none

/-- `freelist->vector[i] &= ~(1 << index)` -/
def clear (freelist : Freelist) (i index : ℕ) : Freelist :=
  { freelist with
    vector := Words.clearBit freelist.vector i index
    vector_length := by rw [Words.length_clearBit, freelist.vector_length] }

/-- `freelist->vector[v_index] |= 1 << b_index` -/
def set (freelist : Freelist) (vIndex bIndex : ℕ) : Freelist :=
  { freelist with
    vector := Words.setBit freelist.vector vIndex bIndex
    vector_length := by rw [Words.length_setBit, freelist.vector_length] }

/-- The loop of `freelist_next` from word `i` on, with `fuel` words to go. -/
def nextLoop (freelist : Freelist) : (fuel i : ℕ) → FreelistResult × Option ℕ × Freelist
  | 0, _ => (.full, none, freelist)
  | fuel + 1, i =>
    match nextIndex freelist i with
    | some index => (.ok, some ((index + intWidth * i) % 2 ^ 32), freelist.clear i index)
    | none => nextLoop freelist fuel (i + 1)

end Freelist

/-- `freelist_next`: the result code, the entry if one is handed out, and the
freelist afterwards. -/
def freelistNext (freelist : Freelist) : FreelistResult × Option ℕ × Freelist :=
  freelist.nextLoop freelist.len 0

/-- `freelist_reclaim` -/
def freelistReclaim (freelist : Freelist) (entry : ℕ) : FreelistResult × Freelist :=
  if freelist.size ≤ entry then (.obEntry, freelist)
  else
    let vIndex := entry / intWidth
    let bIndex := entry - intWidth * vIndex
    (.ok, freelist.set vIndex bIndex)

namespace Freelist

/-! ### The freelist as its clients see it -/

/-- **One call on a freelist**, labelled by the call and its answer. -/
inductive Tr : Freelist → LeastFirst.Call × LeastFirst.Answer → Freelist → Prop
  /-- `freelist_next` hands out an entry. -/
  | next_ok {fl fl' : Freelist} {e : ℕ} :
      freelistNext fl = (.ok, some e, fl') → Tr fl (.take, .got e) fl'
  /-- `freelist_next` finds none. -/
  | next_full {fl fl' : Freelist} :
      freelistNext fl = (.full, none, fl') → Tr fl (.take, .full) fl'
  /-- `freelist_reclaim` takes an entry back. -/
  | reclaim_ok {fl fl' : Freelist} {e : ℕ} :
      freelistReclaim fl e = (.ok, fl') → Tr fl (.give e, .done) fl'
  /-- `freelist_reclaim` refuses an entry. -/
  | reclaim_ob {fl fl' : Freelist} {e : ℕ} :
      freelistReclaim fl e = (.obEntry, fl') → Tr fl (.give e, .refused) fl'

/-- **A run on a fresh freelist**: `freelist_new n` and then any calls. -/
def Run (n : ℕ) (l : List (LeastFirst.Call × LeastFirst.Answer)) (fl : Freelist) : Prop :=
  ∃ fl₀, freelistNew n true = (.ok, some fl₀) ∧ Lts.Steps Tr fl₀ l fl

/-- The entry `e` is available: its bit is set. -/
def Available (fl : Freelist) (e : ℕ) : Prop := Words.bit fl.vector e = true

instance (fl : Freelist) (e : ℕ) : Decidable (fl.Available e) :=
  inferInstanceAs (Decidable (_ = true))

/-! ### What the calls do -/

theorem exists_freelistNew {n : ℕ} (hn : 0 < n) :
    ∃ fl, freelistNew n true = (.ok, some fl) := by
  rw [freelistNew, if_neg (by omega), if_pos rfl]
  exact ⟨_, rfl⟩

@[simp] theorem clear_size (fl : Freelist) (i k : ℕ) : (fl.clear i k).size = fl.size := rfl

@[simp] theorem clear_len (fl : Freelist) (i k : ℕ) : (fl.clear i k).len = fl.len := rfl

@[simp] theorem set_size (fl : Freelist) (i k : ℕ) : (fl.set i k).size = fl.size := rfl

@[simp] theorem set_len (fl : Freelist) (i k : ℕ) : (fl.set i k).len = fl.len := rfl

theorem nextIndex_eq_some_iff {fl : Freelist} {i k : ℕ} :
    fl.nextIndex i = some k ↔ Words.ffs (fl.vector.getD i 0) = k + 1 ∧ k < fl.size := by
  rw [nextIndex]
  constructor
  · intro h
    split_ifs at h with hc
    obtain rfl := Option.some.inj h
    exact ⟨by omega, hc.2⟩
  · rintro ⟨hk, hlt⟩
    rw [hk, if_pos ⟨by omega, by omega⟩]
    rfl

theorem nextIndex_eq_none_iff {fl : Freelist} {i : ℕ} :
    fl.nextIndex i = none ↔ ∀ k, Words.ffs (fl.vector.getD i 0) = k + 1 → fl.size ≤ k := by
  constructor
  · intro h k hk
    by_contra hlt
    rw [nextIndex_eq_some_iff.mpr ⟨hk, by omega⟩] at h
    exact absurd h (by simp)
  · intro h
    rcases hn : fl.nextIndex i with _ | k
    · rfl
    · obtain ⟨hk, hlt⟩ := nextIndex_eq_some_iff.mp hn
      have := h k hk
      omega

/-- The loop of `freelist_next` stops at the first word that passes the test, or
at the end. -/
theorem nextLoop_cases (fl : Freelist) (fuel i : ℕ) (hbefore : ∀ j < i, fl.nextIndex j = none) :
    (∃ j k, j < i + fuel ∧ fl.nextIndex j = some k ∧ (∀ m < j, fl.nextIndex m = none) ∧
      fl.nextLoop fuel i = (.ok, some ((k + intWidth * j) % 2 ^ 32), fl.clear j k)) ∨
    ((∀ j < i + fuel, fl.nextIndex j = none) ∧ fl.nextLoop fuel i = (.full, none, fl)) := by
  induction fuel generalizing i with
  | zero => exact Or.inr ⟨hbefore, rfl⟩
  | succ fuel ih =>
    rcases hn : fl.nextIndex i with _ | k
    · have hbefore' : ∀ j < i + 1, fl.nextIndex j = none := by
        intro j hj
        rcases Nat.lt_succ_iff_lt_or_eq.mp hj with hlt | rfl
        · exact hbefore j hlt
        · exact hn
      have hloop : fl.nextLoop (fuel + 1) i = fl.nextLoop fuel (i + 1) := by rw [nextLoop, hn]
      rw [hloop, show i + (fuel + 1) = i + 1 + fuel by omega]
      exact ih (i + 1) hbefore'
    · refine Or.inl ⟨i, k, by omega, hn, hbefore, ?_⟩
      rw [nextLoop, hn]

/-- **What `freelist_next` does**: it settles on the first word that passes the
test, or reports that the freelist is full. -/
theorem freelistNext_cases (fl : Freelist) :
    (∃ i k, i < fl.len ∧ fl.nextIndex i = some k ∧ (∀ j < i, fl.nextIndex j = none) ∧
      freelistNext fl = (.ok, some ((k + intWidth * i) % 2 ^ 32), fl.clear i k)) ∨
    ((∀ i < fl.len, fl.nextIndex i = none) ∧ freelistNext fl = (.full, none, fl)) := by
  have h := nextLoop_cases fl fl.len 0 (fun j hj => absurd hj (by omega))
  rwa [Nat.zero_add] at h

theorem freelistReclaim_of_lt {fl : Freelist} {e : ℕ} (h : e < fl.size) :
    freelistReclaim fl e = (.ok, fl.set (e / 32) (e % 32)) := by
  have hb : e - 32 * (e / 32) = e % 32 := by omega
  simp only [freelistReclaim, intWidth, if_neg (Nat.not_le.mpr h), hb]

theorem freelistReclaim_of_ge {fl : Freelist} {e : ℕ} (h : fl.size ≤ e) :
    freelistReclaim fl e = (.obEntry, fl) := by
  rw [freelistReclaim, if_pos h]

/-- `freelist_reclaim` accepts exactly the entries below the size. -/
theorem freelistReclaim_ok_iff {fl : Freelist} {e : ℕ} :
    (freelistReclaim fl e).1 = .ok ↔ e < fl.size := by
  rcases Nat.lt_or_ge e fl.size with h | h
  · simp [freelistReclaim_of_lt h, h]
  · simp [freelistReclaim_of_ge h, Nat.not_lt.mpr h]

end Freelist

end Waeio
