import Mathlib.Data.List.GetD
import Mathlib.Order.Bounds.Basic
import Mathlib.Tactic.Ring

/-!
# Sets of naturals packed into words

A list of `w`-bit words is read as a set of naturals: bit `k` of word `i` stands
for the number `w * i + k`. This file has the two ingredients of every bitmap:

* `Words.ffs`, *find first set* – one plus the position of the least significant
  set bit, and `0` for the zero word;
* `Words.bit`, the membership test, with what setting
  (`Words.bit_setBit`) and clearing (`Words.bit_clearBit`) a bit of a word do to
  the whole set, and what becomes of it in a block of another length
  (`Words.bit_regrow`).

The search of a bitmap for its least element goes word by word and asks `ffs` in
each; `Words.bit_eq_false_of_lt` is what makes the first hit the least one.
-/

namespace Words

variable {w : ℕ}

/-! ### Find first set -/

/-- **Find first set**: one plus the position of the least significant set bit,
`0` if there is none. -/
def ffs (v : BitVec w) : ℕ :=
  match (List.range w).find? (fun k => v.getLsbD k) with
  | some k => k + 1
  | none => 0

theorem ffs_eq_zero_iff {v : BitVec w} : ffs v = 0 ↔ ∀ k, v.getLsbD k = false := by
  rw [ffs]
  rcases h : (List.range w).find? (fun k => v.getLsbD k) with _ | k
  · rw [List.find?_range_eq_none] at h
    simp only [true_iff]
    intro k
    rcases Nat.lt_or_ge k w with hk | hk
    · simpa using h k hk
    · exact BitVec.getLsbD_of_ge v k hk
  · rw [List.find?_range_eq_some] at h
    simp only [Nat.add_eq_zero_iff, one_ne_zero, and_false, false_iff, not_forall]
    exact ⟨k, by simpa using h.1⟩

theorem ffs_eq_succ_iff {v : BitVec w} {k : ℕ} :
    ffs v = k + 1 ↔ v.getLsbD k = true ∧ ∀ j < k, v.getLsbD j = false := by
  rw [ffs]
  rcases h : (List.range w).find? (fun k => v.getLsbD k) with _ | m
  · rw [List.find?_range_eq_none] at h
    simp only [Nat.right_eq_add, Nat.add_eq_zero_iff, one_ne_zero, and_false, false_iff]
    rintro ⟨hk, -⟩
    have hlt : k < w := BitVec.lt_of_getLsbD hk
    simpa [hk] using h k hlt
  · rw [List.find?_range_eq_some] at h
    obtain ⟨hm, -, hmin⟩ := h
    constructor
    · intro he
      obtain rfl : m = k := Nat.succ.inj he
      exact ⟨hm, fun j hj => by simpa using hmin j hj⟩
    · rintro ⟨hk, hbelow⟩
      rcases Nat.lt_trichotomy m k with hlt | rfl | hgt
      · rw [hbelow m hlt] at hm
        exact absurd hm (by simp)
      · rfl
      · have hnot := hmin k hgt
        simp [hk] at hnot

theorem ffs_le (v : BitVec w) : ffs v ≤ w := by
  rcases h : ffs v with _ | k
  · exact Nat.zero_le _
  · exact BitVec.lt_of_getLsbD (ffs_eq_succ_iff.mp h).1

/-! ### The set a list of words stands for -/

/-- Whether the number `e` is in the set the words stand for. -/
def bit (ws : List (BitVec w)) (e : ℕ) : Bool := (ws.getD (e / w) 0).getLsbD (e % w)

/-- The words with bit `k` of word `i` set. -/
def setBit (ws : List (BitVec w)) (i k : ℕ) : List (BitVec w) :=
  ws.set i (ws.getD i 0 ||| 1#w <<< k)

/-- The words with bit `k` of word `i` cleared. -/
def clearBit (ws : List (BitVec w)) (i k : ℕ) : List (BitVec w) :=
  ws.set i (ws.getD i 0 &&& ~~~(1#w <<< k))

@[simp] theorem length_setBit (ws : List (BitVec w)) (i k : ℕ) :
    (setBit ws i k).length = ws.length := by
  simp [setBit]

@[simp] theorem length_clearBit (ws : List (BitVec w)) (i k : ℕ) :
    (clearBit ws i k).length = ws.length := by
  simp [clearBit]

/-- The mask `1 << k` has its one bit at `k`. -/
theorem getLsbD_one_shiftLeft {k m : ℕ} (hm : m < w) :
    (1#w <<< k).getLsbD m = decide (m = k) := by
  rw [BitVec.getLsbD_shiftLeft, BitVec.getLsbD_one]
  rw [decide_eq_true hm, Bool.true_and]
  by_cases hk : m < k
  · have : m ≠ k := by omega
    simp [hk, this]
  · have h0 : 0 < w := by omega
    simp only [hk, decide_false, Bool.not_false, Bool.true_and, decide_eq_true h0]
    by_cases he : m = k
    · simp [he]
    · simp only [he, decide_false, decide_eq_false_iff_not]
      omega

theorem bit_mul_add (ws : List (BitVec w)) (i : ℕ) {k : ℕ} (hk : k < w) :
    bit ws (w * i + k) = (ws.getD i 0).getLsbD k := by
  have h0 : 0 < w := by omega
  rw [bit, Nat.mul_add_div h0, Nat.div_eq_of_lt hk, Nat.mul_add_mod, Nat.mod_eq_of_lt hk,
    Nat.add_zero]

theorem eq_mul_add_iff {e i k : ℕ} (hk : k < w) : e = w * i + k ↔ e / w = i ∧ e % w = k := by
  have h0 : 0 < w := by omega
  constructor
  · rintro rfl
    rw [Nat.mul_add_div h0, Nat.div_eq_of_lt hk, Nat.mul_add_mod, Nat.mod_eq_of_lt hk]
    simp
  · rintro ⟨rfl, rfl⟩
    exact (Nat.div_add_mod e w).symm

theorem bit_eq_false_of_ge {ws : List (BitVec w)} {e : ℕ} (h : w * ws.length ≤ e) (h0 : 0 < w) :
    bit ws e = false := by
  have hlen : ws.length ≤ e / w := (Nat.le_div_iff_mul_le h0).mpr (by rwa [Nat.mul_comm])
  rw [bit, List.getD_eq_getElem?_getD, List.getElem?_eq_none hlen]
  simp

/-- **Setting a bit** adds one number to the set. -/
theorem bit_setBit {ws : List (BitVec w)} {i k : ℕ} (hi : i < ws.length) (hk : k < w) (e : ℕ) :
    bit (setBit ws i k) e = (bit ws e || decide (e = w * i + k)) := by
  have hmod : e % w < w := Nat.mod_lt _ (by omega)
  simp only [bit, setBit, eq_mul_add_iff hk, List.getD_eq_getElem?_getD, List.getElem?_set]
  by_cases he : i = e / w
  · subst he
    simp [hi, getLsbD_one_shiftLeft hmod]
  · simp [he, Ne.symm he]

/-- **Clearing a bit** takes one number out of the set. -/
theorem bit_clearBit {ws : List (BitVec w)} {i k : ℕ} (hi : i < ws.length) (hk : k < w) (e : ℕ) :
    bit (clearBit ws i k) e = (bit ws e && !decide (e = w * i + k)) := by
  have hmod : e % w < w := Nat.mod_lt _ (by omega)
  simp only [bit, clearBit, eq_mul_add_iff hk, List.getD_eq_getElem?_getD, List.getElem?_set]
  by_cases he : i = e / w
  · subst he
    have hmask := getLsbD_one_shiftLeft (k := k) hmod
    simp only [hi, if_true, Option.getD_some, BitVec.getLsbD_and, BitVec.getLsbD_not, hmod,
      decide_true, Bool.true_and, true_and, hmask, List.getElem?_eq_getElem hi]
  · simp [he, Ne.symm he]

/-- **The first hit of a word-by-word search is the least element**: nothing in
the words before `i` and nothing below bit `k` of word `i` leaves nothing below
`w * i + k`. -/
theorem bit_eq_false_of_lt {ws : List (BitVec w)} {i k d : ℕ}
    (hwords : ∀ j < i, ∀ m, (ws.getD j 0).getLsbD m = false)
    (hbits : ∀ m < k, (ws.getD i 0).getLsbD m = false) (hk : k < w) (hd : d < w * i + k) :
    bit ws d = false := by
  have h0 : 0 < w := by omega
  have hsplit := Nat.div_add_mod d w
  have hmod : d % w < w := Nat.mod_lt _ h0
  rcases Nat.lt_trichotomy (d / w) i with hlt | heq | hgt
  · exact hwords _ hlt _
  · rw [heq] at hsplit
    rw [bit, heq]
    exact hbits _ (by omega)
  · -- a later word starts above the hit
    have hle : w * (i + 1) ≤ w * (d / w) := Nat.mul_le_mul_left w hgt
    rw [Nat.mul_add] at hle
    omega

/-- A word with no bit set holds none of its numbers. -/
theorem bit_eq_false_of_ffs {ws : List (BitVec w)} {e : ℕ} (h : ffs (ws.getD (e / w) 0) = 0) :
    bit ws e = false :=
  ffs_eq_zero_iff.mp h _

/-- Words full of ones hold every number they have room for. -/
theorem bit_replicate_allOnes {n e : ℕ} (he : e < w * n) :
    bit (List.replicate n (BitVec.allOnes w)) e = true := by
  have h0 : 0 < w := Nat.pos_of_ne_zero (by rintro rfl; simp at he)
  have hlt : e / w < n := Nat.div_lt_of_lt_mul he
  have hmod : e % w < w := Nat.mod_lt _ h0
  simp [bit, hlt, hmod]

/-- Words with the same bits are the same. -/
theorem eq_of_bit_eq {ws ws' : List (BitVec w)} (hlen : ws.length = ws'.length)
    (hbit : ∀ e < w * ws.length, bit ws e = bit ws' e) : ws = ws' := by
  refine List.ext_getElem hlen fun i hi hi' => BitVec.eq_of_getLsbD_eq fun k hk => ?_
  have hlt : w * i + k < w * ws.length := by
    have hle := Nat.mul_le_mul_left w (Nat.succ_le_of_lt hi)
    rw [Nat.mul_succ] at hle
    omega
  have h := hbit (w * i + k) hlt
  rwa [bit_mul_add ws i hk, bit_mul_add ws' i hk, List.getD_eq_getElem _ _ hi,
    List.getD_eq_getElem _ _ hi'] at h

/-! ### Words in a block of another length -/

/-- The words `ws` in a block of `n` words, which holds `rest` where there are none of
them. -/
def regrow (ws : List (BitVec w)) (n : ℕ) (rest : ℕ → BitVec w) : List (BitVec w) :=
  (List.range n).map fun i => ws.getD i (rest i)

@[simp] theorem length_regrow (ws : List (BitVec w)) (n : ℕ) (rest : ℕ → BitVec w) :
    (regrow ws n rest).length = n := by
  simp [regrow]

/-- **Another length** keeps the set as far as the words reach. -/
theorem bit_regrow {ws : List (BitVec w)} {n e : ℕ} {rest : ℕ → BitVec w} (he : e < w * n) :
    bit (regrow ws n rest) e =
      if e < w * ws.length then bit ws e else (rest (e / w)).getLsbD (e % w) := by
  have h0 : 0 < w := Nat.pos_of_ne_zero (by rintro rfl; simp at he)
  have hlt : e / w < n := Nat.div_lt_of_lt_mul he
  have hword : (regrow ws n rest).getD (e / w) 0 = ws.getD (e / w) (rest (e / w)) := by
    rw [List.getD_eq_getElem _ _ (by simpa using hlt)]
    simp [regrow]
  rw [bit, hword]
  split_ifs with hold
  · have hlen : e / w < ws.length := Nat.div_lt_of_lt_mul hold
    rw [bit, List.getD_eq_getElem _ _ hlen, List.getD_eq_getElem _ _ hlen]
  · have hlen : ws.length ≤ e / w := by
      rw [Nat.le_div_iff_mul_le h0, Nat.mul_comm]
      omega
    rw [List.getD_eq_default _ _ hlen]

end Words
