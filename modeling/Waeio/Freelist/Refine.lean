import Waeio.Freelist.Basic

/-!
# The freelist refines the least-first allocator

The simulation relation `Waeio.Freelist.Represents` says what the bits mean:
with `O` the entries that are out, a bit is set exactly when its number is not in
`O`. It speaks of all the bits of the vector, those of the last word that stand
for no entry included – on a freelist of fewer than 32 entries the test in the
loop of `freelist_next` keeps those bits from being handed out, on a larger one
it does not (see `Waeio.Freelist.Bounds`), and in neither case does the order in
which entries go out change.

`Waeio.Freelist.represents_simulation` is the simulation;
`Waeio.freelist_refines_leastFirst` reads off what a client can rely on.
-/

namespace Waeio

namespace Freelist

open LeastFirst (Step outstanding record)

/-! ### The length of the vector -/

theorem le_calcVectorLen (n : ℕ) : n ≤ 32 * calcVectorLen n := by
  rw [calcVectorLen, intWidth]
  split_ifs <;> omega

theorem calcVectorLen_lt (n : ℕ) : 32 * calcVectorLen n < n + 32 := by
  rw [calcVectorLen, intWidth]
  split_ifs <;> omega

/-! ### The simulation relation -/

/-- **The freelist represents the set `O` of the entries that are out**: a bit is
set exactly when its number is not in `O`. -/
structure Represents (n : ℕ) (O : Finset ℕ) (fl : Freelist) : Prop where
  size_eq : fl.size = n
  len_eq : fl.len = calcVectorLen n
  lt : n < 2 ^ 32
  out_lt : ∀ e ∈ O, e < 32 * fl.len
  avail : ∀ e < 32 * fl.len, fl.Available e ↔ e ∉ O

variable {n : ℕ} {O : Finset ℕ} {fl fl' : Freelist}

theorem Represents.size_le (h : Represents n O fl) : n ≤ 32 * fl.len := by
  rw [h.len_eq]
  exact le_calcVectorLen n

/-- The numbers of the bits fit a `uint32_t`. -/
theorem Represents.bits_le (h : Represents n O fl) : 32 * fl.len ≤ 2 ^ 32 := by
  have h1 := calcVectorLen_lt n
  have h2 := h.lt
  rw [h.len_eq]
  omega

/-- Nothing is out of a fresh freelist. -/
theorem represents_new (hlt : n < 2 ^ 32) (h : freelistNew n true = (.ok, some fl)) :
    Represents n ∅ fl := by
  rw [freelistNew, if_pos rfl] at h
  split_ifs at h with h0
  · exact absurd (Prod.mk.inj h).1 (by simp)
  obtain rfl := Option.some.inj (Prod.mk.inj h).2
  refine ⟨rfl, rfl, hlt, by simp, fun e he => ?_⟩
  simpa [Available] using Words.bit_replicate_allOnes he

theorem lt_of_available {e : ℕ} (he : fl.Available e) : e < 32 * fl.len := by
  by_contra hge
  rw [Available, Words.bit_eq_false_of_ge (by rw [fl.vector_length]; omega) (by omega)] at he
  exact absurd he (by simp)

/-- Clearing bit `k` of word `i` takes `32 * i + k` out of the available
entries. -/
theorem available_clear {i k e : ℕ} (hi : i < fl.len) (hk : k < 32) :
    (fl.clear i k).Available e ↔ fl.Available e ∧ e ≠ 32 * i + k := by
  have hlen : i < fl.vector.length := by rwa [fl.vector_length]
  simp [Available, clear, Words.bit_clearBit hlen hk]

/-- Setting bit `k` of word `i` makes `32 * i + k` available. -/
theorem available_set {i k e : ℕ} (hi : i < fl.len) (hk : k < 32) :
    (fl.set i k).Available e ↔ fl.Available e ∨ e = 32 * i + k := by
  have hlen : i < fl.vector.length := by rwa [fl.vector_length]
  simp [Available, set, Words.bit_setBit hlen hk]

/-! ### `freelist_next` -/

/-- A word the search has passed has no free entry in it, if there is a word
after it or its bits all stand for entries. -/
theorem ffs_eq_zero_of_passed (hsize : 32 ≤ fl.size) {i : ℕ} (hi : fl.nextIndex i = none) :
    Words.ffs (fl.vector.getD i 0) = 0 := by
  rcases hf : Words.ffs (fl.vector.getD i 0) with _ | k
  · rfl
  · have hk := nextIndex_eq_none_iff.mp hi k hf
    have hle := Words.ffs_le (fl.vector.getD i 0)
    omega

/-- **`freelist_next` hands out the least number that is not out.** -/
theorem Represents.next_ok (h : Represents n O fl) {out : Option ℕ}
    (hnext : freelistNext fl = (.ok, out, fl')) :
    ∃ e, out = some e ∧ IsLeast {m | m ∉ O} e ∧
      (∀ m, fl'.Available m ↔ fl.Available m ∧ m ≠ e) ∧ Represents n (insert e O) fl' := by
  rcases freelistNext_cases fl with ⟨i, k, hi, hik, hbefore, heq⟩ | ⟨-, heq⟩
  · rw [heq] at hnext
    obtain ⟨rfl, rfl⟩ := Prod.mk.inj (Prod.mk.inj hnext).2
    obtain ⟨hffs, -⟩ := nextIndex_eq_some_iff.mp hik
    obtain ⟨hbit, hbits⟩ := Words.ffs_eq_succ_iff.mp hffs
    have hk : k < 32 := BitVec.lt_of_getLsbD hbit
    have hbound := h.bits_le
    -- the entry computed is the number of the bit: the sum does not wrap
    have hentry : (k + intWidth * i) % 2 ^ 32 = 32 * i + k := by
      rw [intWidth, Nat.mod_eq_of_lt (by omega)]
      omega
    -- where there is a word before this one, the size is no less than a word
    have hwords : ∀ j < i, ∀ m, (fl.vector.getD j 0).getLsbD m = false := by
      intro j hj
      have hsize : 32 ≤ fl.size := by
        have := calcVectorLen_lt n
        rw [h.size_eq]
        rw [h.len_eq] at hi
        omega
      exact Words.ffs_eq_zero_iff.mp (ffs_eq_zero_of_passed hsize (hbefore j hj))
    have havail : fl.Available (32 * i + k) := by
      rw [Available, Words.bit_mul_add _ _ hk]
      exact hbit
    have hleast : IsLeast {m | m ∉ O} (32 * i + k) := by
      refine ⟨(h.avail _ (by omega)).mp havail, fun d hd => ?_⟩
      by_contra hlt
      -- a smaller number that is not out would be a set bit before the first one
      have hfalse := Words.bit_eq_false_of_lt hwords hbits hk (Nat.not_le.mp hlt)
      have hd' := (h.avail d (by omega)).mpr hd
      rw [Available, hfalse] at hd'
      exact absurd hd' (by simp)
    refine ⟨_, rfl, by rwa [hentry], fun m => ?_, ?_⟩
    · rw [hentry]
      exact available_clear hi hk
    · rw [hentry]
      refine ⟨h.size_eq, h.len_eq, h.lt, fun e he => ?_, fun e he => ?_⟩
      · rcases Finset.mem_insert.mp he with rfl | he
        · show 32 * i + k < 32 * fl.len
          exact lt_of_available havail
        · exact h.out_lt e he
      · rw [available_clear hi hk, h.avail e he, Finset.mem_insert, not_or]
        exact and_comm
  · rw [heq] at hnext
    exact absurd (Prod.mk.inj hnext).1 (by simp)

/-- **`freelist_next` reports a full freelist only when every entry is out.** -/
theorem Represents.next_full (h : Represents n O fl) {out : Option ℕ}
    (hnext : freelistNext fl = (.full, out, fl')) : (∀ m < n, m ∈ O) ∧ out = none ∧ fl' = fl := by
  rcases freelistNext_cases fl with ⟨i, k, -, -, -, heq⟩ | ⟨hnone, heq⟩
  · rw [heq] at hnext
    exact absurd (Prod.mk.inj hnext).1 (by simp)
  · rw [heq] at hnext
    obtain ⟨rfl, rfl⟩ := Prod.mk.inj (Prod.mk.inj hnext).2
    refine ⟨fun m hm => ?_, rfl, rfl⟩
    by_contra hout
    have hle := h.size_le
    have havail := (h.avail m (by omega)).mpr hout
    -- the search has passed the word of `m`
    have hword := hnone (m / 32) (by omega)
    rcases hf : Words.ffs (fl.vector.getD (m / 32) 0) with _ | k
    · rw [Available, Words.bit_eq_false_of_ffs hf] at havail
      exact absurd havail (by simp)
    · -- the least set bit of the word stands for no entry, so the freelist has one word
      have hk := nextIndex_eq_none_iff.mp hword k hf
      have hle32 := Words.ffs_le (fl.vector.getD (m / 32) 0)
      have hfalse := (Words.ffs_eq_succ_iff.mp hf).2 (m % 32) (by
        rw [h.size_eq] at hk
        omega)
      rw [Available, Words.bit, hfalse] at havail
      exact absurd havail (by simp)

/-- `freelist_next` returns `FREELIST_OK` or `FREELIST_FULL`. -/
theorem freelistNext_result (fl : Freelist) :
    (freelistNext fl).1 = .ok ∨ (freelistNext fl).1 = .full := by
  rcases freelistNext_cases fl with ⟨i, k, -, -, -, heq⟩ | ⟨-, heq⟩
  · exact Or.inl (by rw [heq])
  · exact Or.inr (by rw [heq])

/-! ### `freelist_reclaim` -/

/-- **What a successful `freelist_reclaim` does**: the entry is below the size,
and becomes available. -/
theorem Represents.reclaim_ok (h : Represents n O fl) {e : ℕ}
    (hrec : freelistReclaim fl e = (.ok, fl')) :
    e < n ∧ (∀ m, fl'.Available m ↔ fl.Available m ∨ m = e) ∧ Represents n (O.erase e) fl' := by
  have hlt : e < fl.size := freelistReclaim_ok_iff.mp (by rw [hrec])
  rw [freelistReclaim_of_lt hlt] at hrec
  obtain rfl := (Prod.mk.inj hrec).2
  have hle := h.size_le
  rw [h.size_eq] at hlt
  have hsplit : e = 32 * (e / 32) + e % 32 := by omega
  have havail : ∀ m, (fl.set (e / 32) (e % 32)).Available m ↔ fl.Available m ∨ m = e := by
    intro m
    rw [available_set (by omega) (by omega), ← hsplit]
  refine ⟨hlt, havail, h.size_eq, h.len_eq, h.lt, fun m hm => ?_, fun m hm => ?_⟩
  · exact h.out_lt m (Finset.mem_of_mem_erase hm)
  · rw [havail, h.avail m hm, Finset.mem_erase]
    by_cases he : m = e
    · simp [he]
    · simp [he]

/-- A refused entry is not below the size, and nothing changes. -/
theorem Represents.reclaim_ob (h : Represents n O fl) {e : ℕ}
    (hrec : freelistReclaim fl e = (.obEntry, fl')) : n ≤ e ∧ fl' = fl := by
  rcases Nat.lt_or_ge e fl.size with hlt | hge
  · rw [freelistReclaim_of_lt hlt] at hrec
    exact absurd (Prod.mk.inj hrec).1 (by simp)
  · rw [freelistReclaim_of_ge hge] at hrec
    exact ⟨h.size_eq ▸ hge, (Prod.mk.inj hrec).2.symm⟩

/-- Reclaiming an entry that is available changes nothing. -/
theorem freelistReclaim_of_available (h : Represents n O fl) {e : ℕ} (he : fl.Available e)
    (hrec : freelistReclaim fl e = (.ok, fl')) : fl' = fl := by
  have hlt : e < fl.size := freelistReclaim_ok_iff.mp (by rw [hrec])
  have hword : e / 32 < fl.vector.length := by
    rw [fl.vector_length]
    have := lt_of_available he
    omega
  rw [freelistReclaim_of_lt hlt] at hrec
  obtain rfl := (Prod.mk.inj hrec).2
  -- the bit that is set is set already
  have hor : fl.vector.getD (e / 32) 0 ||| 1#32 <<< (e % 32) = fl.vector.getD (e / 32) 0 := by
    refine BitVec.eq_of_getLsbD_eq fun m hm => ?_
    rw [BitVec.getLsbD_or, Words.getLsbD_one_shiftLeft hm]
    by_cases hme : m = e % 32
    · rw [hme, show (fl.vector.getD (e / 32) 0).getLsbD (e % 32) = true from he]
      rfl
    · simp [hme]
  have hvec : Words.setBit fl.vector (e / 32) (e % 32) = fl.vector := by
    rw [Words.setBit, hor, List.getD_eq_getElem?_getD, List.getElem?_eq_getElem hword]
    simp
  cases fl
  simpa [set] using hvec

/-! ### The simulation -/

/-- **The freelist is simulated by the least-first allocator.** -/
theorem represents_simulation :
    Lts.Simulation (fun fl O => Represents n O fl) Tr (Step n) := by
  intro fl O a fl' h hstep
  cases hstep with
  | next_ok hnext =>
    obtain ⟨e, he, hleast, -, hrep⟩ := h.next_ok hnext
    obtain rfl := Option.some.inj he
    exact ⟨_, .got hleast, hrep⟩
  | next_full hnext =>
    obtain ⟨hall, -, rfl⟩ := h.next_full hnext
    exact ⟨_, .full hall, h⟩
  | reclaim_ok hrec =>
    obtain ⟨hlt, -, hrep⟩ := h.reclaim_ok hrec
    exact ⟨_, .done hlt, hrep⟩
  | reclaim_ob hrec =>
    obtain ⟨hge, rfl⟩ := h.reclaim_ob hrec
    exact ⟨_, .refused hge, h⟩

/-- A run represents the set its labels say is out. -/
theorem Run.represents (hlt : n < 2 ^ 32) {l : List (LeastFirst.Call × LeastFirst.Answer)}
    (h : Run n l fl) :
    Represents n (outstanding l) fl ∧ Lts.Steps (Step n) ∅ l (outstanding l) := by
  obtain ⟨fl₀, hnew, hsteps⟩ := h
  obtain ⟨O, hO, hrep⟩ := represents_simulation.steps hsteps (represents_new hlt hnew)
  have hout := LeastFirst.steps_eq_outstanding hO
  exact ⟨hout ▸ hrep, hout ▸ hO⟩

end Freelist

open LeastFirst (Step outstanding)

/-- **What a freelist of size `n` does with the entries in `O` out**, in terms of
the set alone. -/
structure Freelist.LeastFirstAt (n : ℕ) (O : Finset ℕ) (fl : Freelist) : Prop where
  /-- An entry is available exactly when it is not out. -/
  avail : ∀ e < n, fl.Available e ↔ e ∉ O
  /-- What is handed out is the least number that is not out, and nothing else
  changes its availability. -/
  next_ok : ∀ out fl', freelistNext fl = (.ok, out, fl') →
    ∃ e, out = some e ∧ IsLeast {m | m ∉ O} e ∧ ∀ m, fl'.Available m ↔ fl.Available m ∧ m ≠ e
  /-- The freelist is reported full only when every entry is out. -/
  next_full : (freelistNext fl).1 = .full → ∀ m < n, m ∈ O
  /-- Exactly the entries below the size are taken back. -/
  reclaim_ok_iff : ∀ e, (freelistReclaim fl e).1 = .ok ↔ e < n
  /-- Taking an entry back makes it available and leaves every other alone. -/
  reclaim_avail : ∀ e fl', freelistReclaim fl e = (.ok, fl') →
    ∀ m, fl'.Available m ↔ fl.Available m ∨ m = e
  /-- Taking back an entry that is available changes nothing. -/
  reclaim_free : ∀ e fl', freelistReclaim fl e = (.ok, fl') → fl.Available e → fl' = fl

/-- **The freelist refines the least-first allocator**: every run on a fresh
freelist of size `n` is a run of the allocator, and in the state it ends in the
freelist does what the allocator does with the same entries out. -/
theorem freelist_refines_leastFirst (n : ℕ) (hlt : n < 2 ^ 32)
    (l : List (LeastFirst.Call × LeastFirst.Answer)) (fl : Freelist) (h : Freelist.Run n l fl) :
    Lts.Steps (Step n) ∅ l (outstanding l) ∧ fl.LeastFirstAt n (outstanding l) := by
  obtain ⟨hrep, hsteps⟩ := h.represents hlt
  refine ⟨hsteps, ⟨fun e he => hrep.avail e (lt_of_lt_of_le he hrep.size_le), ?_, ?_, ?_, ?_, ?_⟩⟩
  · intro out fl' hnext
    obtain ⟨e, he, hleast, havail, -⟩ := hrep.next_ok hnext
    exact ⟨e, he, hleast, havail⟩
  · intro hfull
    exact (hrep.next_full (Prod.ext hfull rfl)).1
  · intro e
    rw [Freelist.freelistReclaim_ok_iff, hrep.size_eq]
  · intro e fl' hrec
    exact (hrep.reclaim_ok hrec).2.1
  · intro e fl' hrec havail
    exact Freelist.freelistReclaim_of_available hrep havail hrec

/-- The two words of a freelist of 40 entries with entry `0` out. -/
def Freelist.fortyTaken : Freelist := ⟨40, 2, [0xfffffffe#32, 0xffffffff#32], rfl⟩

/-- The two words of a freelist of 40 entries with none out. -/
def Freelist.fortyFree : Freelist := ⟨40, 2, [0xffffffff#32, 0xffffffff#32], rfl⟩

/-- Taking an entry of 40, giving it back and taking it again. -/
theorem freelist_refines_leastFirst_forty :
    Lts.Steps (Step 40) ∅ [(.take, .got 0), (.give 0, .done), (.take, .got 0)] {0} ∧
      Freelist.fortyTaken.LeastFirstAt 40 {0} := by
  have hnext : freelistNext Freelist.fortyFree = (.ok, some 0, Freelist.fortyTaken) := by decide
  have hrec : freelistReclaim Freelist.fortyTaken 0 = (.ok, Freelist.fortyFree) := by decide
  exact freelist_refines_leastFirst 40 (by omega)
    [(.take, .got 0), (.give 0, .done), (.take, .got 0)] Freelist.fortyTaken
    ⟨Freelist.fortyFree, by decide,
      .cons (.next_ok hnext) (.cons (.reclaim_ok hrec) (.cons (.next_ok hnext) (.nil _)))⟩

end Waeio
