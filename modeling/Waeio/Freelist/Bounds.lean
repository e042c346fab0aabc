import Mathlib.Data.Nat.ModEq
import Waeio.Freelist.Refine

/-!
# The entries a freelist hands out

The test in the loop of `freelist_next` compares the bit index *within the word*
with the size, where the entry is the index over the whole vector. So the bits of
the last word that stand for no entry are excluded only if there is one word:

* with at most 32 entries the index within the word is the entry;
* with a multiple of 32 entries every bit of the last word stands for one;
* otherwise the bits from `n` on go out once the entries below `n` are out.

`Waeio.Freelist.BoundsAndCapacity` is what a client of a freelist of size `n`
wants, and `Waeio.boundsAndCapacity_iff` says for which sizes it gets it.
-/

namespace Waeio

namespace Freelist

open LeastFirst (Step outstanding record)

/-- **A freelist of size `n` stays within its bounds**: in every run, what it
hands out is below `n` and will be taken back, at most `n` entries are out, and
with `n` entries out it is full. -/
def BoundsAndCapacity (n : ℕ) : Prop :=
  ∀ l fl, Run n l fl →
    (∀ e fl', freelistNext fl = (.ok, some e, fl') →
      e < n ∧ (freelistReclaim fl' e).1 = .ok) ∧
    (outstanding l).card ≤ n ∧
    ((outstanding l).card = n → (freelistNext fl).1 = .full)

variable {n : ℕ} {O : Finset ℕ} {fl fl' : Freelist}

/-! ### Sizes with no surplus bit to hand out -/

/-- With one word, or with full words only, no entry from `n` on goes out. -/
theorem Represents.next_lt (h : Represents n O fl) (hn : n ≤ 32 ∨ n % 32 = 0) {e : ℕ}
    (hnext : freelistNext fl = (.ok, some e, fl')) : e < n := by
  rcases freelistNext_cases fl with ⟨i, k, hi, hik, -, heq⟩ | ⟨-, heq⟩
  · rw [heq] at hnext
    obtain ⟨he, -⟩ := Prod.mk.inj (Prod.mk.inj hnext).2
    obtain ⟨hffs, hlt⟩ := nextIndex_eq_some_iff.mp hik
    have hk : k < 32 := BitVec.lt_of_getLsbD (Words.ffs_eq_succ_iff.mp hffs).1
    have hlen := h.len_eq
    have hbound := h.bits_le
    rw [calcVectorLen, intWidth] at hlen
    rw [Option.some.injEq, intWidth, Nat.mod_eq_of_lt (by omega)] at he
    rw [h.size_eq] at hlt
    rcases hn with hn | hn
    · -- one word: the index within it is the entry
      have hi0 : i = 0 := by
        split_ifs at hlen <;> omega
      omega
    · -- full words: every bit stands for an entry
      rw [if_pos hn] at hlen
      omega
  · rw [heq] at hnext
    exact absurd (Prod.mk.inj hnext).1 (by simp)

/-- What is handed out is out of the entries below `n`, if every answer was. -/
theorem Run.outstanding_lt (hlt : n < 2 ^ 32) (hn : n ≤ 32 ∨ n % 32 = 0)
    {l : List (LeastFirst.Call × LeastFirst.Answer)} (h : Run n l fl) :
    ∀ e ∈ outstanding l, e < n := by
  obtain ⟨fl₀, hnew, hsteps⟩ := h
  have hinv := hsteps.invariant_foldl (h := record)
    (P := fun O fl => Represents n O fl ∧ ∀ e ∈ O, e < n) ?_
    ⟨represents_new hlt hnew, by simp⟩
  · exact hinv.2
  rintro O fl a fl' ⟨hrep, hO⟩ hstep
  cases hstep with
  | next_ok hnext =>
    obtain ⟨e, he, -, -, hrep'⟩ := hrep.next_ok hnext
    obtain rfl := Option.some.inj he
    refine ⟨hrep', fun m hm => ?_⟩
    rcases Finset.mem_insert.mp hm with rfl | hm
    · exact hrep.next_lt hn hnext
    · exact hO m hm
  | next_full hnext =>
    obtain ⟨-, -, rfl⟩ := hrep.next_full hnext
    exact ⟨hrep, hO⟩
  | reclaim_ok hrec =>
    exact ⟨(hrep.reclaim_ok hrec).2.2, fun m hm => hO m (Finset.mem_of_mem_erase hm)⟩
  | reclaim_ob hrec =>
    obtain ⟨-, rfl⟩ := hrep.reclaim_ob hrec
    exact ⟨hrep, hO⟩

theorem boundsAndCapacity_of (hlt : n < 2 ^ 32) (hn : n ≤ 32 ∨ n % 32 = 0) :
    BoundsAndCapacity n := by
  intro l fl h
  have hrep := (h.represents hlt).1
  have hout := h.outstanding_lt hlt hn
  refine ⟨fun e fl' hnext => ?_, LeastFirst.card_le_of_forall_lt hout, fun hcard => ?_⟩
  · have he := hrep.next_lt hn hnext
    obtain ⟨_, -, -, -, hrep'⟩ := hrep.next_ok hnext
    exact ⟨he, freelistReclaim_ok_iff.mpr (by rwa [hrep'.size_eq])⟩
  · rcases freelistNext_result fl with hok | hfull
    · -- the least number that is not out would be one below `n`
      obtain ⟨e, he, hleast, -, -⟩ := hrep.next_ok (Prod.ext hok rfl)
      have hlt' := hrep.next_lt hn (Prod.ext hok (Prod.ext he rfl))
      exact absurd (LeastFirst.mem_of_card_eq hout hcard hlt') hleast.1
    · exact hfull

/-! ### Sizes with surplus bits -/

/-- On a freelist of at least a word, an available number keeps `freelist_next` from
reporting that it is full. -/
theorem next_ok_of_available (hsize : 32 ≤ fl.size) {e : ℕ} (he : fl.Available e) :
    (freelistNext fl).1 = .ok := by
  rcases freelistNext_cases fl with ⟨i, j, -, -, -, heq⟩ | ⟨hnone, -⟩
  · rw [heq]
  · -- a full freelist has passed every word, that of the number too
    have hword := lt_of_available he
    have hffs := ffs_eq_zero_of_passed hsize (hnone (e / 32) (by omega))
    rw [Available, Words.bit_eq_false_of_ffs hffs] at he
    exact absurd he (by simp)

/-- With the numbers below `k` out and a bit for `k` in the vector, `k` goes
out next. -/
theorem Represents.next_of_range {k : ℕ} (h : Represents n (Finset.range k) fl) (hn : 32 ≤ n)
    (hk : k < 32 * fl.len) :
    ∃ fl', freelistNext fl = (.ok, some k, fl') ∧ Represents n (Finset.range (k + 1)) fl' := by
  have hok := next_ok_of_available (by rwa [h.size_eq]) ((h.avail k hk).mpr (by simp))
  obtain ⟨e, he, hleast, -, hrep⟩ := h.next_ok (Prod.ext hok rfl)
  obtain rfl := LeastFirst.eq_of_isLeast_range hleast
  refine ⟨_, Prod.ext hok (Prod.ext he rfl), ?_⟩
  rwa [Finset.range_add_one]

/-- The run that takes the entries from a fresh freelist one after the other. -/
theorem exists_run_range (hpos : 32 ≤ n) (hlt : n < 2 ^ 32) (k : ℕ)
    (hk : k ≤ 32 * calcVectorLen n) :
    ∃ l fl, Run n l fl ∧ outstanding l = Finset.range k := by
  induction k with
  | zero =>
    obtain ⟨fl₀, hnew⟩ := exists_freelistNew (n := n) (by omega)
    exact ⟨[], fl₀, ⟨fl₀, hnew, .nil fl₀⟩, by simp⟩
  | succ k ih =>
    obtain ⟨l, fl, hrun, hout⟩ := ih (by omega)
    have hrep := (hrun.represents hlt).1
    rw [hout] at hrep
    obtain ⟨fl', hnext, -⟩ := hrep.next_of_range hpos (by rw [hrep.len_eq]; omega)
    obtain ⟨fl₀, hnew, hsteps⟩ := hrun
    refine ⟨l ++ [(.take, .got k)], fl', ⟨fl₀, hnew, hsteps.snoc (.next_ok hnext)⟩, ?_⟩
    rw [LeastFirst.outstanding_append_singleton, hout, Finset.range_add_one]
    rfl

/-- **With surplus bits, the entry `n` goes out**: take the entries below `n`,
and once more. -/
theorem exists_next_eq_size (hn : 32 < n) (hmod : n % 32 ≠ 0) (hlt : n < 2 ^ 32) :
    ∃ l fl fl', Run n l fl ∧ freelistNext fl = (.ok, some n, fl') := by
  have hsurplus : n < 32 * calcVectorLen n := by
    rw [calcVectorLen, intWidth, if_neg hmod]
    omega
  obtain ⟨l, fl, hrun, hout⟩ := exists_run_range (by omega) hlt n hsurplus.le
  have hrep := (hrun.represents hlt).1
  rw [hout] at hrep
  obtain ⟨fl', hnext, -⟩ := hrep.next_of_range hn.le (by rwa [hrep.len_eq])
  exact ⟨l, fl, fl', hrun, hnext⟩

end Freelist

open Freelist

/-- **Exactly the sizes with no surplus bit to hand out keep a freelist within
its bounds**: those of one word, and the multiples of 32. -/
theorem boundsAndCapacity_iff (n : ℕ) (hlt : n < 2 ^ 32) :
    BoundsAndCapacity n ↔ n ≤ 32 ∨ n % 32 = 0 := by
  constructor
  · intro h
    by_contra hcon
    obtain ⟨hn, hmod⟩ : 32 < n ∧ n % 32 ≠ 0 := by omega
    obtain ⟨l, fl, fl', hrun, hnext⟩ := exists_next_eq_size hn hmod hlt
    exact absurd ((h l fl hrun).1 n fl' hnext).1 (lt_irrefl n)
  · exact boundsAndCapacity_of hlt

/-- The condition at a size with surplus bits, and at one of the server's. -/
theorem boundsAndCapacity_iff_at :
    (BoundsAndCapacity 33 ↔ 33 ≤ 32 ∨ 33 % 32 = 0) ∧
      (BoundsAndCapacity 1024 ↔ 1024 ≤ 32 ∨ 1024 % 32 = 0) :=
  ⟨boundsAndCapacity_iff 33 (by omega), boundsAndCapacity_iff 1024 (by omega)⟩

/-- **A freelist of 33 entries hands out the entry 33**, and refuses to take it
back. -/
theorem not_boundsAndCapacity_thirtyThree : ¬BoundsAndCapacity 33 := by
  intro h
  obtain ⟨l, fl, fl', hrun, hnext⟩ := exists_next_eq_size (n := 33) (by decide) (by decide)
    (by omega)
  exact absurd ((h l fl hrun).1 33 fl' hnext).1 (lt_irrefl 33)

end Waeio
