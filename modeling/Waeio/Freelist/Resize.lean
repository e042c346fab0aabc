import Mathlib.Data.Finset.Filter
import Waeio.Freelist.Bounds

/-!
# Resizing a freelist

`freelist_resize` moves the freelist to a block of another length and sets its two
numbers. It writes no word of the vector, so what the bits behind the old entries
hold is what happened to be there:

* the words `realloc` adds hold whatever the memory held before;
* a word of the old block keeps its bits for numbers that were no entries, or that
  went out before the freelist was made smaller.

The caller's variable `*freelist` is assigned the answer of `realloc` before it is
tested, so a failing call takes the freelist with it.

`Waeio.Freelist.HandleTr` is the variable as its owner sees it, under any calls.
What a resize should do to the entries is `Waeio.Freelist.KeepsState`, and
`Waeio.Freelist.BitsSet` is the condition on the bits for it to do that.
-/

namespace Waeio

open Freelist

/-- `freelist_resize`; `realloc` fails, or holds what the new block has in the words
behind the old one. -/
def freelistResize (freelist : Option Freelist) (freespace : ℕ)
    (realloc : Option (ℕ → BitVec 32)) : FreelistResult × Option Freelist :=
  if freespace = 0 then (.sizeErr, freelist)
  else
    let newLen := calcVectorLen freespace
    match realloc with
    | none => (.memErr, none)
    | some words => (.ok, some
        { size := freespace
          len := newLen
          vector := Words.regrow ((freelist.map Freelist.vector).getD []) newLen words
          vector_length := Words.length_regrow _ _ _ })

namespace Freelist

/-! ### The caller's variable -/

/-- The calls on a variable that holds a freelist, with the answers of the
allocator. -/
inductive HandleCall
  /-- `freelist_new` -/
  | new (freespace : ℕ) (malloc : Bool) : HandleCall
  /-- `freelist_next` -/
  | next : HandleCall
  /-- `freelist_reclaim` -/
  | reclaim (entry : ℕ) : HandleCall
  /-- `freelist_resize` -/
  | resize (freespace : ℕ) (realloc : Option (ℕ → BitVec 32)) : HandleCall

/-- What a call returns: its result code, and the entry it hands out. -/
abbrev Returned := FreelistResult × Option ℕ

/-- **A call on the variable**; nothing where it goes through the null pointer. -/
def call (handle : Option Freelist) : HandleCall → Option (Returned × Option Freelist)
  | .new freespace malloc =>
    match freelistNew freespace malloc with
    | (.ok, fl) => some ((.ok, none), fl)
    | (.sizeErr, _) => some ((.sizeErr, none), handle)
    | (res, _) => some ((res, none), none)
  | .next => handle.map fun fl =>
    let (res, entry, fl') := freelistNext fl
    ((res, entry), some fl')
  | .reclaim entry => handle.map fun fl =>
    let (res, fl') := freelistReclaim fl entry
    ((res, none), some fl')
  | .resize freespace realloc =>
    let (res, handle') := freelistResize handle freespace realloc
    some ((res, none), handle')

/-- What a sequence of calls returns, up to the first that goes through the null
pointer. -/
def returns (handle : Option Freelist) : List HandleCall → List (Option Returned)
  | [] => []
  | c :: calls =>
    match call handle c with
    | some (r, handle') => some r :: returns handle' calls
    | none => [none]

/-- The sizes a call names are `uint32_t`. -/
def HandleCall.Uint32 : HandleCall → Prop
  | .new freespace _ | .resize freespace _ => freespace < 2 ^ 32
  | .next | .reclaim _ => True

instance : DecidablePred HandleCall.Uint32
  | .new freespace _ | .resize freespace _ => inferInstanceAs (Decidable (freespace < 2 ^ 32))
  | .next | .reclaim _ => inferInstanceAs (Decidable True)

/-- **One call on the variable**, labelled by the call and what it returns. -/
def HandleTr (s : Option Freelist) (a : HandleCall × Returned) (t : Option Freelist) : Prop :=
  a.1.Uint32 ∧ call s a.1 = some (a.2, t)

/-- **A run of calls** on a variable that holds the null pointer at first. -/
def HandleRun (l : List (HandleCall × Returned)) (handle : Option Freelist) : Prop :=
  Lts.Steps HandleTr none l handle

/-! ### The entries that are out of a freelist -/

/-- The entries whose bits are cleared. -/
def out (fl : Freelist) : Finset ℕ := {e ∈ Finset.range (32 * fl.len) | ¬fl.Available e}

/-- The two numbers of a freelist fit together. -/
structure WellFormed (fl : Freelist) : Prop where
  pos : 0 < fl.size
  lt : fl.size < 2 ^ 32
  len_eq : fl.len = calcVectorLen fl.size

variable {n m : ℕ} {O O' : Finset ℕ} {fl fl' g : Freelist}

theorem mem_out_iff {e : ℕ} : e ∈ fl.out ↔ e < 32 * fl.len ∧ ¬fl.Available e := by
  rw [out, Finset.mem_filter, Finset.mem_range]

theorem WellFormed.represents (h : WellFormed fl) : Represents fl.size fl.out fl := by
  refine ⟨rfl, h.len_eq, h.lt, fun e he => (mem_out_iff.mp he).1, fun e he => ?_⟩
  rw [mem_out_iff]
  constructor
  · rintro havail ⟨-, hnot⟩
    exact hnot havail
  · intro hnot
    by_contra havail
    exact hnot ⟨he, havail⟩

/-- **The freelist is determined** by its size and the entries that are out. -/
theorem Represents.unique (h : Represents n O fl) (h' : Represents n O fl') : fl = fl' := by
  have hsize : fl.size = fl'.size := h.size_eq.trans h'.size_eq.symm
  have hlen : fl.len = fl'.len := h.len_eq.trans h'.len_eq.symm
  have hvector : fl.vector = fl'.vector := by
    refine Words.eq_of_bit_eq ?_ fun e he => ?_
    · rw [fl.vector_length, fl'.vector_length, hlen]
    · rw [fl.vector_length] at he
      rw [Bool.eq_iff_iff]
      exact (h.avail e he).trans (h'.avail e (hlen ▸ he)).symm
  cases fl
  cases fl'
  simp_all

/-- Any entries may be out. -/
theorem exists_represents (hpos : 0 < n) (hlt : n < 2 ^ 32)
    (hO : ∀ e ∈ O, e < 32 * calcVectorLen n) : ∃ fl, Represents n O fl := by
  induction O using Finset.induction_on with
  | empty =>
    obtain ⟨fl, hnew⟩ := exists_freelistNew hpos
    exact ⟨fl, represents_new hlt hnew⟩
  | insert e O he ih =>
    obtain ⟨fl, h⟩ := ih fun e he => hO e (Finset.mem_insert_of_mem he)
    have hbit : e < 32 * fl.len := h.len_eq ▸ hO e (Finset.mem_insert_self e O)
    refine ⟨fl.clear (e / 32) (e % 32), h.size_eq, h.len_eq, h.lt, fun d hd => ?_, fun d hd => ?_⟩
    · rw [clear_len, h.len_eq]
      exact hO d hd
    · rw [available_clear (by omega) (Nat.mod_lt _ (by omega)), Nat.div_add_mod, h.avail d hd,
        Finset.mem_insert, not_or, and_comm]

/-! ### What the calls return -/

/-- One call of a client that has the freelist, with what it is told. -/
def perform (fl : Freelist) : LeastFirst.Call → LeastFirst.Answer × Freelist
  | .take =>
    match freelistNext fl with
    | (.ok, some e, fl') => (.got e, fl')
    | (_, _, fl') => (.full, fl')
  | .give e =>
    match freelistReclaim fl e with
    | (.ok, fl') => (.done, fl')
    | (_, fl') => (.refused, fl')

/-- What a client is told by a sequence of `freelist_next` and `freelist_reclaim`. -/
def answers (fl : Freelist) : List LeastFirst.Call → List LeastFirst.Answer
  | [] => []
  | c :: calls => (perform fl c).1 :: answers (perform fl c).2 calls

theorem tr_perform (fl : Freelist) (c : LeastFirst.Call) :
    Tr fl (c, (perform fl c).1) (perform fl c).2 := by
  cases c with
  | take =>
    rcases freelistNext_cases fl with ⟨i, k, -, -, -, heq⟩ | ⟨-, heq⟩
    · simpa only [perform, heq] using Tr.next_ok heq
    · simpa only [perform, heq] using Tr.next_full heq
  | give e =>
    rcases Nat.lt_or_ge e fl.size with hlt | hge
    · have hrec := freelistReclaim_of_lt hlt
      simpa only [perform, hrec] using Tr.reclaim_ok hrec
    · have hrec := freelistReclaim_of_ge hge
      simpa only [perform, hrec] using Tr.reclaim_ob hrec

/-- A call is one of the least-first allocator. -/
theorem Represents.perform (h : Represents n O fl) (c : LeastFirst.Call) :
    LeastFirst.Step n O (c, (fl.perform c).1) (LeastFirst.record O (c, (fl.perform c).1)) ∧
      Represents n (LeastFirst.record O (c, (fl.perform c).1)) (fl.perform c).2 := by
  obtain ⟨O', hstep, hrep⟩ := represents_simulation _ _ _ _ h (tr_perform fl c)
  obtain rfl : O' = LeastFirst.record O (c, (fl.perform c).1) := by
    generalize (fl.perform c).1 = a at hstep
    cases hstep <;> rfl
  exact ⟨hstep, hrep⟩

/-- What goes out was available. -/
theorem Represents.next_of_perform (h : Represents n O fl) {e : ℕ}
    (he : (fl.perform .take).1 = .got e) : e ∉ O ∧ ∃ fl', freelistNext fl = (.ok, some e, fl') := by
  refine ⟨?_, ?_⟩
  · have hstep := (h.perform .take).1
    rw [he] at hstep
    cases hstep with
    | got hleast => exact hleast.1
  · rcases freelistNext_cases fl with ⟨i, k, -, -, -, heq⟩ | ⟨-, heq⟩
    · simp only [Freelist.perform, heq, LeastFirst.Answer.got.injEq] at he
      exact ⟨_, he ▸ heq⟩
    · simp [Freelist.perform, heq] at he

/-! ### Freelists of one word -/

/-- What goes out is below the size. -/
theorem Represents.lt_of_perform (hn : n ≤ 32) (h : Represents n O fl) {c : LeastFirst.Call}
    {e : ℕ} (he : (fl.perform c).1 = .got e) : e < n := by
  cases c with
  | take =>
    obtain ⟨-, _, hnext⟩ := h.next_of_perform he
    exact h.next_lt (Or.inl hn) hnext
  | give e' =>
    have hstep := (h.perform (.give e')).1
    rw [he] at hstep
    cases hstep

/-- With one word the answer to a call depends on the entries alone, and not on the
other bits of the word. -/
theorem perform_eq_of_agree (hn : n ≤ 32) (h : Represents n O fl) (h' : Represents n O' fl')
    (hagree : ∀ e < n, e ∈ O ↔ e ∈ O') (c : LeastFirst.Call) :
    (fl.perform c).1 = (fl'.perform c).1 := by
  refine (h.perform c).1.answer_eq (h'.perform c).1 hagree (fun e he => ?_) fun e he => ?_
  · exact h.lt_of_perform hn he
  · exact h'.lt_of_perform hn he

theorem mem_record_iff {e : ℕ} {a : LeastFirst.Call × LeastFirst.Answer}
    (h : e ∈ O ↔ e ∈ O') : e ∈ LeastFirst.record O a ↔ e ∈ LeastFirst.record O' a := by
  unfold LeastFirst.record
  split <;> simp [h]

/-- So do the answers to any sequence of calls. -/
theorem answers_eq_of_agree (hn : n ≤ 32) (h : Represents n O fl) (h' : Represents n O' fl')
    (hagree : ∀ e < n, e ∈ O ↔ e ∈ O') (calls : List LeastFirst.Call) :
    fl.answers calls = fl'.answers calls := by
  induction calls generalizing fl fl' O O' with
  | nil => rfl
  | cons c calls ih =>
    have hc := perform_eq_of_agree hn h h' hagree c
    have hrep' := (h'.perform c).2
    rw [← hc] at hrep'
    rw [answers, answers, hc, ih (h.perform c).2 hrep' fun e he => mem_record_iff (hagree e he)]

/-! ### Freelists of more words -/

/-- With more than a word, a number that is not out goes out sooner or later. -/
theorem Represents.exists_got (hn : 32 ≤ n) (h : Represents n O fl) {e : ℕ}
    (he : e < 32 * fl.len) (heO : e ∉ O) :
    ∃ k, .got e ∈ fl.answers (List.replicate k .take) := by
  -- by the number of the smaller ones that go out before
  induction hcount : (Finset.range e \ O).card using Nat.strong_induction_on generalizing fl O with
  | _ count ih =>
    subst hcount
    have hok := next_ok_of_available (by rwa [h.size_eq]) ((h.avail e he).mpr heO)
    obtain ⟨e', he', hleast, -, hrep⟩ := h.next_ok (Prod.ext hok rfl)
    have hnext : freelistNext fl = (.ok, some e', (freelistNext fl).2.2) :=
      Prod.ext hok (Prod.ext he' rfl)
    have hper : fl.perform .take = (.got e', (freelistNext fl).2.2) := by
      rw [Freelist.perform, hnext]
    by_cases heq : e' = e
    · exact ⟨1, by simp [answers, hper, heq]⟩
    · have hlt : e' < e := lt_of_le_of_ne (hleast.2 heO) heq
      have hsub : Finset.range e \ insert e' O ⊂ Finset.range e \ O := by
        refine (Finset.ssubset_iff_of_subset ?_).mpr ⟨e', by simpa [hlt] using hleast.1, by simp⟩
        exact Finset.sdiff_subset_sdiff subset_rfl (Finset.subset_insert e' O)
      obtain ⟨k, hk⟩ := ih _ (Finset.card_lt_card hsub) hrep
        (by rwa [hrep.len_eq, ← h.len_eq]) (by simpa [Ne.symm heq] using heO) rfl
      exact ⟨k + 1, by simp [List.replicate_succ, answers, hper, hk]⟩

/-- A number that is out does not go out, as long as none is given back. -/
theorem Represents.not_got (h : Represents n O fl) {e : ℕ} (he : e ∈ O) (k : ℕ) :
    .got e ∉ fl.answers (List.replicate k .take) := by
  induction k generalizing fl O with
  | zero => simp [answers]
  | succ k ih =>
    rw [List.replicate_succ, answers, List.mem_cons, not_or]
    refine ⟨fun hgot => (h.next_of_perform hgot.symm).1 he, ih (h.perform .take).2 ?_⟩
    rcases (fl.perform .take).1 <;> simp [LeastFirst.record, he]

/-- **With more than a word the answers tell what is out.** -/
theorem eq_of_answers (hn : 32 ≤ n) (h : Represents n O fl) (h' : Represents n O' fl')
    (hans : ∀ calls, fl.answers calls = fl'.answers calls) : O = O' := by
  have hsub : ∀ {O O' : Finset ℕ} {fl fl' : Freelist}, Represents n O fl → Represents n O' fl' →
      (∀ calls, fl.answers calls = fl'.answers calls) → O ⊆ O' := by
    intro O O' fl fl' h h' hans e he
    by_contra hnot
    have hlt : e < 32 * fl'.len := by
      rw [h'.len_eq, ← h.len_eq]
      exact h.out_lt e he
    obtain ⟨k, hk⟩ := h'.exists_got hn hlt hnot
    exact h.not_got he k (hans _ ▸ hk)
  exact (hsub h h' hans).antisymm (hsub h' h fun calls => (hans calls).symm)

/-! ### What a resize should do, and when it does -/

/-- The entries that are out of a freelist and still entries at size `m`. -/
def surviving (fl : Freelist) (m : ℕ) : Finset ℕ :=
  {e ∈ Finset.range (min fl.size m) | ¬fl.Available e}

/-- **The resized freelist `fl'` has the state of `fl`** at size `m`: an entry of both
sizes is available as before, a new entry is available, and what follows is as on a
freelist of size `m` with the surviving entries out. -/
structure KeepsState (fl : Freelist) (m : ℕ) (fl' : Freelist) : Prop where
  kept : ∀ e, e < fl.size → e < m → (fl'.Available e ↔ fl.Available e)
  fresh : ∀ e, fl.size ≤ e → e < m → fl'.Available e
  behaves : ∀ g, Represents m (fl.surviving m) g → ∀ calls, fl'.answers calls = g.answers calls

/-- The bit for the number `e` in the words of `fl`, and behind them in what `realloc`
left. -/
def blockBit (fl : Freelist) (words : ℕ → BitVec 32) (e : ℕ) : Bool :=
  if e < 32 * fl.len then Words.bit fl.vector e else (words (e / 32)).getLsbD (e % 32)

/-- **The bits behind the surviving entries are set**: those of the new entries, and
with more than one word also those of the numbers from `m` on. -/
def BitsSet (fl : Freelist) (m : ℕ) (words : ℕ → BitVec 32) : Prop :=
  ∀ e < 32 * calcVectorLen m, fl.size ≤ e ∨ m ≤ e → e < m ∨ 32 < m → fl.blockBit words e = true

theorem resize_spec (hm : 0 < m) {words : ℕ → BitVec 32}
    (h : freelistResize (some fl) m (some words) = (.ok, some fl')) :
    fl'.size = m ∧ fl'.len = calcVectorLen m ∧
      ∀ e < 32 * calcVectorLen m, fl'.Available e ↔ fl.blockBit words e = true := by
  rw [freelistResize, if_neg (by omega)] at h
  obtain rfl := Option.some.inj (Prod.mk.inj h).2
  refine ⟨rfl, rfl, fun e he => ?_⟩
  rw [Available, blockBit]
  simp only [Option.map_some, Option.getD_some, Words.bit_regrow he, fl.vector_length]

/-- The entries of both sizes keep their bits. -/
theorem blockBit_of_lt (h : WellFormed fl) {words : ℕ → BitVec 32} {e : ℕ} (he : e < fl.size) :
    fl.blockBit words e = true ↔ fl.Available e := by
  have hle := h.represents.size_le
  rw [blockBit, if_pos (by omega), Available]

theorem WellFormed.resize (hm : 0 < m) (hlt : m < 2 ^ 32) {words : ℕ → BitVec 32}
    (h : freelistResize (some fl) m (some words) = (.ok, some fl')) : WellFormed fl' := by
  obtain ⟨hsize, hlen, -⟩ := resize_spec hm h
  exact ⟨by omega, by omega, by rw [hlen, hsize]⟩

/-- **A resize keeps the state exactly if the bits behind the surviving entries are
set.** -/
theorem keepsState_iff (hfl : WellFormed fl) (hm : 0 < m) (hlt : m < 2 ^ 32)
    {words : ℕ → BitVec 32} (h : freelistResize (some fl) m (some words) = (.ok, some fl')) :
    KeepsState fl m fl' ↔ BitsSet fl m words := by
  obtain ⟨hsize, hlen, hbit⟩ := resize_spec hm h
  have hrep := (WellFormed.resize hm hlt h).represents
  rw [hsize] at hrep
  have hle := le_calcVectorLen m
  have hout : ∀ e < 32 * calcVectorLen m, e ∈ fl'.out ↔ ¬fl.blockBit words e = true := by
    intro e he
    rw [mem_out_iff, hlen, hbit e he]
    exact ⟨And.right, fun h => ⟨he, h⟩⟩
  have hsurviving : ∀ e, e ∈ fl.surviving m ↔ (e < fl.size ∧ e < m) ∧ ¬fl.Available e := by
    intro e
    rw [surviving, Finset.mem_filter, Finset.mem_range, lt_min_iff]
  constructor
  · rintro hkeep e he hbehind hcount
    by_cases hem : e < m
    · exact (hbit e he).mp (hkeep.fresh e (by omega) hem)
    · -- a bit for no entry shows in the answers that follow
      obtain ⟨g, hg⟩ := exists_represents (O := fl.surviving m) hm hlt fun e he => by
        have hlt := ((hsurviving e).mp he).1
        omega
      have heq := eq_of_answers (by omega) hrep hg (hkeep.behaves g hg)
      by_contra hclear
      have hmem := (hout e he).mpr hclear
      rw [heq, hsurviving] at hmem
      exact hem hmem.1.2
  · intro hset
    refine ⟨fun e he hem => ?_, fun e he hem => ?_, fun g hg calls => ?_⟩
    · -- the bits of the old entries are kept in any case
      rw [hbit e (by omega), blockBit_of_lt hfl he]
    · exact (hbit e (by omega)).mpr (hset e (by omega) (Or.inl he) (Or.inl hem))
    · have hagree : ∀ e < 32 * calcVectorLen m, e < m ∨ 32 < m →
          (e ∈ fl'.out ↔ e ∈ fl.surviving m) := by
        intro e he hcount
        rw [hout e he, hsurviving]
        by_cases hold : e < fl.size ∧ e < m
        · rw [blockBit_of_lt hfl hold.1]
          exact ⟨fun h => ⟨hold, h⟩, And.right⟩
        · have hone := hset e he (by omega) hcount
          simp [hone, hold]
      -- with one word the bits behind the entries do not show
      rcases Nat.lt_or_ge 32 m with hwords | hword
      · -- the two freelists are the same
        have heq : fl'.out = fl.surviving m := by
          ext e
          by_cases he : e < 32 * calcVectorLen m
          · exact hagree e he (Or.inr hwords)
          · refine iff_of_false (fun hmem => he ?_) fun hmem => he ?_
            · rw [← hlen]
              exact hrep.out_lt e hmem
            · have := ((hsurviving e).mp hmem).1
              omega
        rw [hrep.unique (heq ▸ hg)]
      · exact answers_eq_of_agree hword hrep hg
          (fun e he => hagree e (by omega) (Or.inl he)) calls

/-! ### Runs of calls -/

theorem call_next {res : FreelistResult} {entry : Option ℕ}
    (h : freelistNext fl = (res, entry, fl')) :
    call (some fl) .next = some ((res, entry), some fl') := by
  simp only [call, Option.map_some, h]

theorem call_reclaim {e : ℕ} {res : FreelistResult} (h : freelistReclaim fl e = (res, fl')) :
    call (some fl) (.reclaim e) = some ((res, none), some fl') := by
  simp only [call, Option.map_some, h]

theorem Represents.wellFormed (hn : 0 < n) (h : Represents n O fl) : WellFormed fl :=
  ⟨h.size_eq ▸ hn, h.size_eq ▸ h.lt, h.size_eq ▸ h.len_eq⟩

/-- A call leaves a freelist whose two numbers fit together, if it leaves one. -/
theorem wellFormed_step {s t : Option Freelist} {a : HandleCall × Returned}
    (hs : ∀ fl ∈ s, WellFormed fl) (htr : HandleTr s a t) : ∀ fl ∈ t, WellFormed fl := by
  obtain ⟨c, r⟩ := a
  obtain ⟨hsize, hcall⟩ := htr
  cases c with
  | new freespace malloc =>
    rw [call, freelistNew] at hcall
    split_ifs at hcall with h0
    · obtain rfl := (Prod.mk.inj (Option.some.inj hcall)).2
      exact hs
    · obtain rfl := (Prod.mk.inj (Option.some.inj hcall)).2
      rintro fl ⟨⟩
      exact ⟨Nat.pos_of_ne_zero h0, hsize, rfl⟩
    · obtain rfl := (Prod.mk.inj (Option.some.inj hcall)).2
      simp
  | next =>
    rcases s with _ | fl
    · exact absurd hcall (by simp [call])
    rcases freelistNext_cases fl with ⟨i, k, -, -, -, hnext⟩ | ⟨-, hnext⟩ <;>
      rw [call_next hnext] at hcall <;>
      obtain rfl := (Prod.mk.inj (Option.some.inj hcall)).2 <;> rintro _ ⟨⟩
    · exact ⟨(hs fl rfl).pos, (hs fl rfl).lt, (hs fl rfl).len_eq⟩
    · exact hs fl rfl
  | reclaim e =>
    rcases s with _ | fl
    · exact absurd hcall (by simp [call])
    rcases Nat.lt_or_ge e fl.size with hlt | hge
    · rw [call_reclaim (freelistReclaim_of_lt hlt)] at hcall
      obtain rfl := (Prod.mk.inj (Option.some.inj hcall)).2
      rintro _ ⟨⟩
      exact ⟨(hs fl rfl).pos, (hs fl rfl).lt, (hs fl rfl).len_eq⟩
    · rw [call_reclaim (freelistReclaim_of_ge hge)] at hcall
      obtain rfl := (Prod.mk.inj (Option.some.inj hcall)).2
      rintro _ ⟨⟩
      exact hs fl rfl
  | resize freespace realloc =>
    rw [call, freelistResize] at hcall
    split_ifs at hcall with h0
    · obtain rfl := (Prod.mk.inj (Option.some.inj hcall)).2
      exact hs
    · rcases realloc with _ | words
      · obtain rfl := (Prod.mk.inj (Option.some.inj hcall)).2
        simp
      · obtain rfl := (Prod.mk.inj (Option.some.inj hcall)).2
        rintro fl ⟨⟩
        exact ⟨Nat.pos_of_ne_zero h0, hsize, rfl⟩

theorem HandleRun.wellFormed {l : List (HandleCall × Returned)} (h : HandleRun l (some fl)) :
    WellFormed fl :=
  Lts.Steps.invariant (P := fun s => ∀ fl ∈ s, WellFormed fl)
    (fun _ _ _ hs htr => wellFormed_step hs htr) h (by simp) fl rfl

/-! ### Failed calls -/

/-- The call is one on a freelist, and not one that makes a new one. -/
def HandleCall.OnFreelist : HandleCall → Prop
  | .new _ _ => False
  | .next | .reclaim _ | .resize _ _ => True

/-- The call is a `freelist_resize` that gets no memory. -/
def HandleCall.Unserved : HandleCall → Prop
  | .resize freespace realloc => freespace ≠ 0 ∧ realloc = none
  | .new _ _ | .next | .reclaim _ => False

/-- **The call has changed nothing**: the variable holds the same freelist, and every
later sequence of calls returns what it would have returned. -/
def Unchanged (fl : Freelist) (handle : Option Freelist) : Prop :=
  handle = some fl ∧ ∀ calls, returns handle calls = returns (some fl) calls

/-- **A failed call changes nothing**, unless it is a resize that gets no memory: that
one loses the freelist. -/
theorem unchanged_iff {c : HandleCall} (hc : c.OnFreelist) {r : Returned}
    {handle : Option Freelist} (h : call (some fl) c = some (r, handle)) :
    (r.1 ≠ .ok → Unchanged fl handle) ↔ ¬c.Unserved := by
  have hsame : ∀ {handle}, handle = some fl → Unchanged fl handle := by
    rintro _ rfl
    exact ⟨rfl, fun _ => rfl⟩
  cases c with
  | new freespace malloc => exact hc.elim
  | next =>
    rcases freelistNext_cases fl with ⟨i, k, -, -, -, hnext⟩ | ⟨-, hnext⟩ <;>
      rw [call_next hnext] at h <;> obtain ⟨rfl, rfl⟩ := Prod.mk.inj (Option.some.inj h)
    · exact iff_of_true (fun hfail => absurd rfl hfail) id
    · exact iff_of_true (fun _ => hsame rfl) id
  | reclaim e =>
    rcases Nat.lt_or_ge e fl.size with hlt | hge
    · rw [call_reclaim (freelistReclaim_of_lt hlt)] at h
      obtain ⟨rfl, rfl⟩ := Prod.mk.inj (Option.some.inj h)
      exact iff_of_true (fun hfail => absurd rfl hfail) id
    · rw [call_reclaim (freelistReclaim_of_ge hge)] at h
      obtain ⟨rfl, rfl⟩ := Prod.mk.inj (Option.some.inj h)
      exact iff_of_true (fun _ => hsame rfl) id
  | resize freespace realloc =>
    rw [call, freelistResize] at h
    split_ifs at h with h0
    · obtain ⟨rfl, rfl⟩ := Prod.mk.inj (Option.some.inj h)
      exact iff_of_true (fun _ => hsame rfl) fun hserved => hserved.1 h0
    · rcases realloc with _ | words
      · obtain ⟨rfl, rfl⟩ := Prod.mk.inj (Option.some.inj h)
        refine iff_of_false (fun hfail => ?_) (not_not_intro ⟨h0, rfl⟩)
        exact absurd (hfail (by simp)).1 (by simp)
      · obtain ⟨rfl, rfl⟩ := Prod.mk.inj (Option.some.inj h)
        exact iff_of_true (fun hfail => absurd rfl hfail) fun hserved => nomatch hserved.2

end Freelist

/-- **Resizing keeps the state exactly if the bits behind the surviving entries are
set**: in every run of calls, for every size and whatever `realloc` leaves in the new
words. -/
theorem freelistResize_keepsState_iff (l : List (HandleCall × Returned)) (fl fl' : Freelist)
    (h : HandleRun l (some fl)) (m : ℕ) (hm : 0 < m) (hlt : m < 2 ^ 32) (words : ℕ → BitVec 32)
    (hres : freelistResize (some fl) m (some words) = (.ok, some fl')) :
    KeepsState fl m fl' ↔ BitsSet fl m words :=
  keepsState_iff h.wellFormed hm hlt hres

/-- **A failed call changes nothing exactly if it is not a resize that gets no memory**,
whatever the freelist, and so in every run of calls. -/
theorem freelist_unchanged_iff (fl : Freelist) (c : HandleCall) (hc : c.OnFreelist)
    (r : Returned) (handle : Option Freelist) (h : HandleTr (some fl) (c, r) handle) :
    (r.1 ≠ .ok → Unchanged fl handle) ↔ ¬c.Unserved :=
  unchanged_iff hc h.2

/-! ### Runs that show the two defects -/

namespace Freelist

/-- A freelist of four entries. -/
def four : Freelist := ⟨4, 1, [0xffffffff#32], rfl⟩

/-- The freelist with the first two entries out, made smaller to hold one. -/
def oneOut : Freelist := ⟨1, 1, [0xfffffffc#32], rfl⟩

/-- The freelist of four entries with the first two out. -/
def fourTwoOut : Freelist := ⟨4, 1, [0xfffffffc#32], rfl⟩

/-- A freelist of 32 entries made one of 64, in a block with zeros in the second word. -/
def grown : Freelist := ⟨64, 2, [0xffffffff#32, 0#32], rfl⟩

theorem handleRun_four : HandleRun [(.new 4 true, .ok, none)] (some four) :=
  .single ⟨by decide, by decide⟩

theorem handleRun_oneOut :
    HandleRun [(.new 4 true, .ok, none), (.next, .ok, some 0), (.next, .ok, some 1),
      (.resize 1 (some fun _ => 0), .ok, none)] (some oneOut) :=
  handleRun_four.append (.cons (t := some ⟨4, 1, [0xfffffffe#32], rfl⟩) ⟨trivial, by decide⟩
    (.cons (t := some fourTwoOut) ⟨trivial, by decide⟩ (.single ⟨by decide, by decide⟩)))

end Freelist

/-- **A resize that does not keep the state**: two entries of four are out, the freelist
is made smaller to hold one entry and made larger again, and the entry `1` is new and not
available; or 32 entries are made 64, and `realloc` leaves a word of zeros. -/
theorem not_keepsState :
    (∃ l fl fl', HandleRun l (some fl) ∧
      freelistResize (some fl) 4 (some fun _ => 0) = (.ok, some fl') ∧ ¬KeepsState fl 4 fl') ∧
    ∃ l fl fl', HandleRun l (some fl) ∧
      freelistResize (some fl) 64 (some fun _ => 0) = (.ok, some fl') ∧ ¬KeepsState fl 64 fl' := by
  refine ⟨⟨_, oneOut, fourTwoOut, handleRun_oneOut, by decide, fun hkeep => ?_⟩,
    ⟨[(.new 32 true, .ok, none)], ⟨32, 1, [0xffffffff#32], rfl⟩, grown,
      .single ⟨by decide, by decide⟩, by decide, fun hkeep => ?_⟩⟩
  · exact absurd (hkeep.fresh 1 (by decide) (by decide)) (by decide)
  · exact absurd (hkeep.fresh 32 (by decide) (by decide)) (by decide)

/-- The condition at that run, and where the four entries are made five. -/
theorem freelistResize_keepsState_iff_at :
    (KeepsState oneOut 4 fourTwoOut ↔ BitsSet oneOut 4 fun _ => 0) ∧
      KeepsState four 5 ⟨5, 1, [0xffffffff#32], rfl⟩ := by
  refine ⟨freelistResize_keepsState_iff _ oneOut fourTwoOut handleRun_oneOut 4 (by decide)
    (by decide) (fun _ => 0) (by decide), ?_⟩
  refine (freelistResize_keepsState_iff _ four _ handleRun_four 5 (by decide) (by decide)
    (fun _ => 0) (by decide)).mpr ?_
  unfold BitsSet
  decide

/-- A resize that gets no memory loses the freelist. -/
theorem not_unchanged_resize :
    ∃ l fl r handle, HandleRun l (some fl) ∧ HandleTr (some fl) (.resize 8 none, r) handle ∧
      r.1 = .memErr ∧ ¬Unchanged fl handle :=
  ⟨_, four, (.memErr, none), none, handleRun_four, ⟨by decide, by decide⟩, rfl,
    fun h => absurd h.1 (by simp)⟩

/-- The condition at that call, and at a resize to nothing. -/
theorem freelist_unchanged_iff_at :
    ((FreelistResult.memErr ≠ .ok → Unchanged four none) ↔
      ¬(HandleCall.resize 8 none).Unserved) ∧ Unchanged four (some four) := by
  refine ⟨freelist_unchanged_iff four (.resize 8 none) trivial (.memErr, none) none
    ⟨by decide, by decide⟩, ?_⟩
  exact (freelist_unchanged_iff four (.resize 0 none) trivial (.sizeErr, none) (some four)
    ⟨by decide, by decide⟩).mpr (fun h => h.1 rfl) (by decide)

end Waeio
