import Mathlib.Order.Bounds.Basic
import Waeio.Freelist.Resize
import Waeio.Lib.Arith32

/-!
# The arithmetic of the freelist

The functions of `src/freelist.c` once more, each with the operations it makes in 32 bits:
every sum, product and conversion is reduced to its type, and every shift and every access to
the vector is recorded. The size of a block is computed in a `size_t`, which has 32 bits as
well.

Sizes go up to `2 ^ 32 - 1`, where the vector has `2 ^ 27` words and the number of its bits is
`2 ^ 32`, one more than there are numbers of type `uint32_t`; the number of the last bit is
the greatest of them. So it is enough that the size and the length fit together
(`Waeio.Freelist.WellFormed`), which every call keeps: then all operations are in range, and
the functions are those of the model, where nothing is reduced
(`Waeio.Freelist.Arith.call_yields`).
-/

namespace Waeio

namespace Freelist

namespace Arith

open Arith32 (Comp uint32 int32 shift access)

/-! ### The functions -/

/-- `calc_vector_len` -/
def calcVectorLen (freespace : ℕ) : Comp ℕ :=
  if freespace % intWidth = 0 then pure (freespace / intWidth)
  else uint32 (freespace / intWidth + 1 : ℕ)

/-- The size of a block, `sizeof(struct freelist) + sizeof(uint32_t[len])`. -/
def blockSize (len : ℕ) : Comp ℕ := do
  let words ← uint32 (4 * len : ℕ)
  uint32 (8 + words : ℕ)

/-- `freelist_new` -/
def freelistNew (freespace : ℕ) (malloc : Bool) : Comp (FreelistResult × Option Freelist) :=
  if freespace = 0 then pure (.sizeErr, none)
  else do
    let len ← calcVectorLen freespace
    let _ ← blockSize len
    if malloc then do
      let _ ← uint32 (4 * len : ℕ)
      pure (.ok, some
        { size := freespace
          len := len
          vector := List.replicate len (BitVec.allOnes 32)
          vector_length := List.length_replicate })
    else pure (.memErr, none)

/-- An access to `freelist->vector[i]`. -/
def vectorAt (freelist : Freelist) (i : ℕ) : Comp (BitVec 32) := do
  access i freelist.len
  pure (freelist.vector.getD i 0)

/-- The test in the loop of `freelist_next`, with the value of `ans`. -/
def passes (freelist : Freelist) (ans : ℤ) : Comp Bool :=
  if 0 < ans then do
    let k ← uint32 (ans - 1)
    pure (decide (k < freelist.size))
  else pure false

/-- The loop of `freelist_next` from word `i` on, with `fuel` words to go. -/
def nextLoop (freelist : Freelist) : (fuel i : ℕ) → Comp (FreelistResult × Option ℕ × Freelist)
  | 0, _ => pure (.full, none, freelist)
  | fuel + 1, i =>
    if i < freelist.len then do
      let word ← vectorAt freelist i
      let found ← uint32 (Words.ffs word)
      let ans ← int32 found
      let settles ← passes freelist ans
      if settles then do
        let bit ← int32 (ans - 1)
        let index ← uint32 bit
        shift index
        access i freelist.len
        let first ← uint32 (intWidth * i : ℕ)
        let entry ← uint32 (index + first : ℕ)
        pure (.ok, some entry, freelist.clear i index)
      else do
        let i ← uint32 (i + 1 : ℕ)
        nextLoop freelist fuel i
    else pure (.full, none, freelist)

/-- `freelist_next` -/
def freelistNext (freelist : Freelist) : Comp (FreelistResult × Option ℕ × Freelist) :=
  nextLoop freelist freelist.len 0

/-- `freelist_reclaim` -/
def freelistReclaim (freelist : Freelist) (entry : ℕ) : Comp (FreelistResult × Freelist) :=
  if freelist.size ≤ entry then pure (.obEntry, freelist)
  else do
    let vIndex := entry / intWidth
    let first ← uint32 (intWidth * vIndex : ℕ)
    let bIndex ← uint32 (entry - first : ℤ)
    shift bIndex
    access vIndex freelist.len
    pure (.ok, freelist.set vIndex bIndex)

/-- `freelist_resize` -/
def freelistResize (freelist : Option Freelist) (freespace : ℕ)
    (realloc : Option (ℕ → BitVec 32)) : Comp (FreelistResult × Option Freelist) :=
  if freespace = 0 then pure (.sizeErr, freelist)
  else do
    let newLen ← calcVectorLen freespace
    let _ ← blockSize newLen
    match realloc with
    | none => pure (.memErr, none)
    | some words => pure (.ok, some
        { size := freespace
          len := newLen
          vector := Words.regrow ((freelist.map Freelist.vector).getD []) newLen words
          vector_length := Words.length_regrow _ _ _ })

/-! ### The caller's variable -/

/-- **A call on the variable**; nothing where it goes through the null pointer. -/
def call (handle : Option Freelist) : HandleCall → Comp (Option (Returned × Option Freelist))
  | .new freespace malloc => do
    match ← freelistNew freespace malloc with
    | (.ok, fl) => pure (some ((.ok, none), fl))
    | (.sizeErr, _) => pure (some ((.sizeErr, none), handle))
    | (res, _) => pure (some ((res, none), none))
  | .next =>
    match handle with
    | none => pure none
    | some fl => do
      let (res, entry, fl') ← freelistNext fl
      pure (some ((res, entry), some fl'))
  | .reclaim entry =>
    match handle with
    | none => pure none
    | some fl => do
      let (res, fl') ← freelistReclaim fl entry
      pure (some ((res, none), some fl'))
  | .resize freespace realloc => do
    let (res, handle') ← freelistResize handle freespace realloc
    pure (some ((res, none), handle'))

/-- **One call on the variable**, labelled by the call and what it returns. -/
def HandleTr (s : Option Freelist) (a : HandleCall × Returned) (t : Option Freelist) : Prop :=
  a.1.Uint32 ∧ (call s a.1).val = some (a.2, t)

/-- **A run of calls** on a variable that holds the null pointer at first. -/
def HandleRun (l : List (HandleCall × Returned)) (handle : Option Freelist) : Prop :=
  Lts.Steps HandleTr none l handle

/-! ### What the functions yield -/

variable {n len i fuel entry : ℕ} {fl : Freelist}

/-- The vector has no more words than there are numbers for their bits. -/
theorem calcVectorLen_le (hn : n < 2 ^ 32) : Freelist.calcVectorLen n ≤ 2 ^ 27 := by
  have hlt := calcVectorLen_lt n
  omega

theorem calcVectorLen_yields (hn : n < 2 ^ 32) :
    (calcVectorLen n).Yields (Freelist.calcVectorLen n) := by
  rw [calcVectorLen, Freelist.calcVectorLen]
  split_ifs
  · exact Comp.yields_pure _
  · refine Arith32.uint32_yields rfl ?_
    rw [intWidth]
    omega

theorem blockSize_yields (hlen : len ≤ 2 ^ 27) : (blockSize len).Yields (8 + 4 * len) :=
  (Arith32.uint32_yields rfl (by omega)).bind (Arith32.uint32_yields rfl (by omega))

theorem freelistNew_yields (hn : n < 2 ^ 32) (malloc : Bool) :
    (freelistNew n malloc).Yields (Waeio.freelistNew n malloc) := by
  have hlen := calcVectorLen_le hn
  rw [freelistNew, Waeio.freelistNew]
  split_ifs with hzero hmalloc
  · exact Comp.yields_pure _
  · refine (calcVectorLen_yields hn).bind ((blockSize_yields hlen).bind ?_)
    exact (Arith32.uint32_yields rfl (by omega)).bind (Comp.yields_pure _)
  · exact (calcVectorLen_yields hn).bind ((blockSize_yields hlen).bind (Comp.yields_pure _))

theorem vectorAt_yields (hi : i < fl.len) : (vectorAt fl i).Yields (fl.vector.getD i 0) :=
  (Arith32.access_yields hi).bind (Comp.yields_pure _)

/-- The subtraction in the test is made only where there is something to subtract from. -/
theorem passes_yields {ans : ℕ} (hans : ans ≤ 32) :
    (passes fl ans).Yields (decide (0 < ans ∧ ans - 1 < fl.size)) := by
  rw [passes]
  split_ifs with hpos
  · have hpos' : 0 < ans := by omega
    have hsub : (uint32 (ans - 1)).Yields (ans - 1) :=
      Arith32.uint32_yields (by omega) (by omega)
    simp only [hpos', true_and]
    exact hsub.bind (Comp.yields_pure _)
  · have hzero : ¬0 < ans := by omega
    simp only [hzero, false_and, decide_false]
    exact Comp.yields_pure false

/-- **The loop**: the word it settles on is in the vector, and its entry is the number of one
of its bits. -/
theorem nextLoop_yields (hlen : fl.len ≤ 2 ^ 27) (hi : i + fuel = fl.len) :
    (nextLoop fl fuel i).Yields (fl.nextLoop fuel i) := by
  induction fuel generalizing i with
  | zero => exact Comp.yields_pure _
  | succ fuel ih =>
    have hlt : i < fl.len := by omega
    have hffs := Words.ffs_le (fl.vector.getD i 0)
    rw [nextLoop, if_pos hlt, Freelist.nextLoop, nextIndex]
    refine (vectorAt_yields hlt).bind ?_
    refine (Arith32.uint32_yields rfl (by omega)).bind ?_
    refine (Arith32.int32_yields (by omega) (by omega)).bind ?_
    refine (passes_yields hffs).bind ?_
    generalize Words.ffs (fl.vector.getD i 0) = ans at hffs
    by_cases hpass : 0 < ans ∧ ans - 1 < fl.size
    · -- the number of the last bit is `2 ^ 32 - 1`, in the last word of the longest vector
      rw [if_pos hpass, decide_eq_true hpass, if_pos rfl]
      have hword : intWidth * i + 31 < 2 ^ 32 := by
        rw [intWidth]
        omega
      dsimp only
      rw [Nat.mod_eq_of_lt (by omega)]
      refine (Arith32.int32_yields (by omega) (by omega)).bind ?_
      refine (Arith32.uint32_yields (n := ans - 1) (by omega) (by omega)).bind ?_
      refine (Arith32.shift_yields (by omega)).bind ?_
      refine (Arith32.access_yields hlt).bind ?_
      refine (Arith32.uint32_yields rfl (by omega)).bind ?_
      exact (Arith32.uint32_yields rfl (by omega)).bind (Comp.yields_pure _)
    · rw [if_neg hpass, decide_eq_false hpass, if_neg Bool.false_ne_true]
      exact (Arith32.uint32_yields rfl (by omega)).bind (ih (by omega))

theorem freelistNext_yields (hlen : fl.len ≤ 2 ^ 27) :
    (freelistNext fl).Yields (Waeio.freelistNext fl) :=
  nextLoop_yields hlen (Nat.zero_add _)

theorem freelistReclaim_yields (h : WellFormed fl) (entry : ℕ) :
    (freelistReclaim fl entry).Yields (Waeio.freelistReclaim fl entry) := by
  rw [freelistReclaim, Waeio.freelistReclaim]
  split_ifs with hle
  · exact Comp.yields_pure _
  · have hsize := h.lt
    have hfit := h.represents.size_le
    dsimp only
    rw [intWidth]
    have hsub : (uint32 ((entry : ℤ) - (32 * (entry / 32) : ℕ))).Yields
        (entry - 32 * (entry / 32)) := Arith32.uint32_yields (by omega) (by omega)
    refine (Arith32.uint32_yields rfl (by omega)).bind (hsub.bind ?_)
    refine (Arith32.shift_yields (by omega)).bind ?_
    exact (Arith32.access_yields (by omega)).bind (Comp.yields_pure _)

theorem freelistResize_yields (hn : n < 2 ^ 32) (handle : Option Freelist)
    (realloc : Option (ℕ → BitVec 32)) :
    (freelistResize handle n realloc).Yields (Waeio.freelistResize handle n realloc) := by
  have hlen := calcVectorLen_le hn
  rw [freelistResize, Waeio.freelistResize]
  split_ifs with hzero
  · exact Comp.yields_pure _
  · refine (calcVectorLen_yields hn).bind ((blockSize_yields hlen).bind ?_)
    cases realloc with
    | none => exact Comp.yields_pure _
    | some words => exact Comp.yields_pure _

/-! ### What the calls yield -/

theorem len_le_of_wellFormed (h : WellFormed fl) : fl.len ≤ 2 ^ 27 := by
  rw [h.len_eq]
  exact calcVectorLen_le h.lt

/-- **A call on a freelist whose size and length fit together** stays in range, and does what
it does in the model. -/
theorem call_yields {s : Option Freelist} {c : HandleCall} (hs : ∀ fl ∈ s, WellFormed fl)
    (hc : c.Uint32) : (call s c).Yields (Freelist.call s c) := by
  cases c with
  | new n malloc =>
    refine (freelistNew_yields hc malloc).bind ?_
    rw [Freelist.call]
    rcases Waeio.freelistNew n malloc with ⟨res, fl⟩
    cases res <;> exact Comp.yields_pure _
  | next =>
    cases s with
    | none => exact Comp.yields_pure _
    | some fl =>
      have hlen := len_le_of_wellFormed (hs fl rfl)
      exact (freelistNext_yields hlen).bind (Comp.yields_pure _)
  | reclaim entry =>
    cases s with
    | none => exact Comp.yields_pure _
    | some fl => exact (freelistReclaim_yields (hs fl rfl) entry).bind (Comp.yields_pure _)
  | resize n realloc => exact (freelistResize_yields hc s realloc).bind (Comp.yields_pure _)

/-! ### Runs -/

theorem handleTr_iff {s t : Option Freelist} {a : HandleCall × Returned}
    (hs : ∀ fl ∈ s, WellFormed fl) : HandleTr s a t ↔ Freelist.HandleTr s a t := by
  refine and_congr_right fun hc => ?_
  rw [(call_yields hs hc).val_eq]

/-- **The runs in 32 bits are those of the model**, as every call keeps the size and the length
of the freelist together. -/
theorem handleRun_iff {l : List (HandleCall × Returned)} {s : Option Freelist} :
    HandleRun l s ↔ Freelist.HandleRun l s := by
  have hkeep : ∀ s a t, (∀ fl ∈ s, WellFormed fl) → HandleTr s a t → ∀ fl ∈ t, WellFormed fl :=
    fun s a t hs htr => wellFormed_step hs ((handleTr_iff hs).mp htr)
  exact Lts.steps_congr hkeep (fun s a t hs => handleTr_iff hs) nofun

/-- After a run in 32 bits the size and the length of the freelist fit together. -/
theorem wellFormed_of_run {l : List (HandleCall × Returned)} {s : Option Freelist}
    (h : HandleRun l s) {fl : Freelist} (hfl : fl ∈ s) : WellFormed fl := by
  obtain rfl := Option.mem_def.mp hfl
  exact (handleRun_iff.mp h).wellFormed

end Arith

/-- The length is the least with a bit for each entry. -/
theorem WellFormed.isLeast_len {fl : Freelist} (h : WellFormed fl) :
    IsLeast {k : ℤ | (fl.size : ℤ) ≤ 32 * k} fl.len := by
  have hle := le_calcVectorLen fl.size
  have hlt := calcVectorLen_lt fl.size
  rw [← h.len_eq] at hle hlt
  constructor
  · change (fl.size : ℤ) ≤ 32 * fl.len
    omega
  · intro k hk
    change (fl.size : ℤ) ≤ 32 * k at hk
    omega

theorem WellFormed.div_lt {fl : Freelist} (h : WellFormed fl) {entry : ℕ}
    (hentry : entry < fl.size) : entry / intWidth < fl.len := by
  have hle := h.represents.size_le
  rw [intWidth]
  omega

end Freelist

open Freelist

/-- **The arithmetic of the freelist stays in range**: in every state that calls in 32 bits
lead to, the length of the vector is the least that fits the size, every entry is in one of
its words, and every operation of the next call is in range; and so the call is that of the
model. -/
theorem freelist_arith_inRange (l : List (HandleCall × Returned)) (s : Option Freelist)
    (h : Arith.HandleRun l s) (c : HandleCall) (hc : c.Uint32) :
    (∀ fl ∈ s, IsLeast {k : ℤ | (fl.size : ℤ) ≤ 32 * k} fl.len ∧
      ∀ entry < fl.size, entry / intWidth < fl.len) ∧
    (∀ op ∈ (Arith.call s c).log, op.InRange) ∧ (Arith.call s c).val = Freelist.call s c := by
  have hs : ∀ fl ∈ s, WellFormed fl := fun _ hfl => Arith.wellFormed_of_run h hfl
  obtain ⟨hval, hrange⟩ := Arith.call_yields hs hc
  exact ⟨fun fl hfl => ⟨(hs fl hfl).isLeast_len, fun _ => (hs fl hfl).div_lt⟩, hrange, hval⟩

/-- At a freelist of four entries that takes one back, and where the largest freelist is made. -/
theorem freelist_arith_inRange_at :
    IsLeast {k : ℤ | (four.size : ℤ) ≤ 32 * k} four.len ∧
      (Arith.call (some four) (.reclaim 3)).log =
        [.unsigned 0, .unsigned 3, .shift 3, .access 0 1] ∧
      (∀ op ∈ (Arith.call (some four) (.reclaim 3)).log, op.InRange) ∧
      ∀ op ∈ (Arith.call none (.new (2 ^ 32 - 1) true)).log, op.InRange := by
  have hfour := freelist_arith_inRange _ (some four) (Arith.handleRun_iff.mpr handleRun_four)
    (.reclaim 3) trivial
  have hmax := freelist_arith_inRange [] none (.nil none) (.new (2 ^ 32 - 1) true) (by decide)
  exact ⟨(hfour.1 four rfl).1, by decide, hfour.2.1, hmax.2.1⟩

end Waeio
