import Mathlib.Data.Int.Notation
import Mathlib.Data.List.Basic
import Mathlib.Data.Nat.Notation
import Mathlib.Data.Set.Basic

/-!
# Bytes at addresses

A memory is a function from addresses to bytes. The addresses are the integers, so
that a pointer that has left a buffer on either side still has one.

* `Bytes.Range` – a stretch of addresses, and when it lies inside a buffer;
* `Bytes.write` – writing a list of bytes, with what it leaves alone
  (`Bytes.write_of_notMem`) and what is there afterwards (`Bytes.holds_write`);
* `Bytes.Holds` – the bytes there are from an address on. They are what makes a write
  invisible (`Bytes.write_eq_self_iff`).
-/

namespace Bytes

/-- A memory: what is at each address. -/
abbrev Memory := ℤ → BitVec 8

/-! ### Stretches of addresses -/

/-- **A stretch of addresses.** -/
structure Range where
  /-- The first address. -/
  start : ℤ
  /-- The number of addresses. -/
  length : ℕ
  deriving DecidableEq, Repr

instance : Membership ℤ Range := ⟨fun r a => r.start ≤ a ∧ a < r.start + r.length⟩

theorem Range.mem_iff {r : Range} {a : ℤ} : a ∈ r ↔ r.start ≤ a ∧ a < r.start + r.length := Iff.rfl

/-- Every address of the stretch lies inside a buffer of this size. -/
def Range.Inside (r : Range) (size : ℕ) : Prop := ∀ a ∈ r, 0 ≤ a ∧ a < size

/-- A stretch lies inside a buffer if it is empty or both of its ends do. -/
theorem Range.inside_iff {r : Range} {size : ℕ} :
    r.Inside size ↔ r.length = 0 ∨ 0 ≤ r.start ∧ r.start + r.length ≤ size := by
  constructor
  · intro h
    rcases Nat.eq_zero_or_pos r.length with h0 | hpos
    · exact Or.inl h0
    · have hfirst := h r.start ⟨le_refl _, by omega⟩
      have hlast := h (r.start + r.length - 1) ⟨by omega, by omega⟩
      exact Or.inr ⟨hfirst.1, by omega⟩
  · rintro h a ⟨hle, hlt⟩
    rcases h with h0 | ⟨hstart, hend⟩
    · omega
    · exact ⟨by omega, by omega⟩

instance (r : Range) (size : ℕ) : Decidable (r.Inside size) :=
  decidable_of_iff _ Range.inside_iff.symm

/-- A stretch that ends before another one begins is apart from it. -/
theorem Range.notMem_of_le {r r' : Range} (h : r.start + r.length ≤ r'.start) {a : ℤ} (ha : a ∈ r) :
    a ∉ r' := by
  intro ha'
  have hlast := ha.2
  have hfirst := ha'.1
  omega

/-! ### Reading and writing -/

/-- The bytes `bs` are in memory, from `start` on. -/
def Holds (mem : Memory) (start : ℤ) (bs : List (BitVec 8)) : Prop :=
  ∀ (k : ℕ) (b : BitVec 8), bs[k]? = some b → mem (start + k) = b

/-- The memory with the bytes `bs` written from `start` on. -/
def write (mem : Memory) (start : ℤ) (bs : List (BitVec 8)) : Memory := fun a =>
  if a < start then mem a else bs.getD (a - start).toNat (mem a)

theorem write_add (mem : Memory) (start : ℤ) (bs : List (BitVec 8)) (k : ℕ) :
    write mem start bs (start + k) = bs.getD k (mem (start + k)) := by
  have hle : ¬ start + (k : ℤ) < start := by omega
  have hk : (start + (k : ℤ) - start).toNat = k := by omega
  rw [write, if_neg hle, hk]

/-- **A write leaves the rest alone.** -/
theorem write_of_notMem {mem : Memory} {start a : ℤ} {bs : List (BitVec 8)}
    (h : a ∉ Range.mk start bs.length) : write mem start bs a = mem a := by
  rw [Range.mem_iff] at h
  rw [write]
  split_ifs with hlt
  · rfl
  · have hlen : bs.length ≤ (a - start).toNat := by
      dsimp only at h
      omega
    rw [List.getD_eq_getElem?_getD, List.getElem?_eq_none hlen, Option.getD_none]

/-- **What was written is there.** -/
theorem holds_write (mem : Memory) (start : ℤ) (bs : List (BitVec 8)) :
    Holds (write mem start bs) start bs := by
  intro k b hb
  rw [write_add, List.getD_eq_getElem?_getD, hb, Option.getD_some]

/-- What is in memory is there once. -/
theorem Holds.unique {mem : Memory} {start : ℤ} {bs bs' : List (BitVec 8)}
    (h : Holds mem start bs) (h' : Holds mem start bs') (hlen : bs.length = bs'.length) :
    bs = bs' := by
  refine List.ext_getElem hlen fun k hk hk' => ?_
  rw [← h k _ (List.getElem?_eq_getElem hk), ← h' k _ (List.getElem?_eq_getElem hk')]

/-- An address of a write is one of its bytes. -/
theorem Range.exists_of_mem {start a : ℤ} {n : ℕ} (h : a ∈ Range.mk start n) :
    ∃ k < n, a = start + (k : ℕ) := by
  obtain ⟨hle, hlt⟩ := h
  dsimp only at hle hlt
  exact ⟨(a - start).toNat, by omega, by omega⟩

/-- **Writing what is already there** changes nothing, and only that. -/
theorem write_eq_self_iff {mem : Memory} {start : ℤ} {bs : List (BitVec 8)} :
    (∀ a ∈ Range.mk start bs.length, write mem start bs a = mem a) ↔ Holds mem start bs := by
  constructor
  · intro h k b hb
    have hk : k < bs.length := (List.getElem?_eq_some_iff.mp hb).1
    have hmem : start + (k : ℤ) ∈ Range.mk start bs.length := by
      rw [Range.mem_iff]
      dsimp only
      omega
    rw [← h _ hmem]
    exact holds_write mem start bs k b hb
  · intro h a ha
    obtain ⟨k, hk, rfl⟩ := Range.exists_of_mem ha
    rw [h k _ (List.getElem?_eq_getElem hk)]
    exact holds_write mem start bs k _ (List.getElem?_eq_getElem hk)

/-! ### Little-endian numbers -/

/-- The `n` low bytes of a number, least significant first. -/
def littleEndian {w : ℕ} (n : ℕ) (v : BitVec w) : List (BitVec 8) :=
  (List.range n).map fun k => v.extractLsb' (8 * k) 8

@[simp] theorem length_littleEndian {w : ℕ} (n : ℕ) (v : BitVec w) :
    (littleEndian n v).length = n := by
  simp [littleEndian]

/-- **A number is its bytes**, if there are enough of them. -/
theorem littleEndian_inj {w n : ℕ} (hw : w ≤ 8 * n) {v v' : BitVec w} :
    littleEndian n v = littleEndian n v' ↔ v = v' := by
  refine ⟨fun h => BitVec.eq_of_getLsbD_eq fun i hi => ?_, congrArg _⟩
  have hk : i / 8 < (littleEndian n v).length := by
    rw [length_littleEndian]
    omega
  have hbyte : v.extractLsb' (8 * (i / 8)) 8 = v'.extractLsb' (8 * (i / 8)) 8 := by
    have hget := List.getElem_of_eq h hk
    simpa [littleEndian] using hget
  have hbit := congrArg (fun b => b.getLsbD (i % 8)) hbyte
  simpa [BitVec.getLsbD_extractLsb', Nat.mod_lt, Nat.div_add_mod] using hbit

example : littleEndian 4 (0x0A0B0C0D#32) = [0x0D#8, 0x0C#8, 0x0B#8, 0x0A#8] := by decide

end Bytes
