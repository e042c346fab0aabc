import Waeio.HostPoll.Basic
import Waeio.Lib.Malloc
import Waeio.WasioHost.Basic
import Waeio.WasioWasi.Basic

/-!
# What `wasio_init` allocates

The three functions `wasio_init`, with the memory they allocate and write to, on a target
whose `size_t` has 32 bits. What they return is as in the models of the three tables
(`Waeio.WasioHost.initMem_result` and its two counterparts), which leave out the memory.

The freelist is asked for with a size that cannot wrap, and its `malloc` is tested. The
other two arrays of `wasio_host.c` and `wasio_wasi.c` are asked for with the products of the
capacity and the size of an element, which do wrap, and neither `malloc` is tested. The
function returns `WASIO_OK` and fills the arrays whatever the answers were.
`wasio/host_poll.c` tests its one `malloc`, but its product wraps as well. So the capacity is
really there exactly if these allocations succeed and the capacity is below `2 ^ 29`
(`Waeio.wasioInit_provides_iff`).
-/

namespace Waeio

open Malloc (Ptr Heap Region Write)
open Freelist (calcVectorLen)

/-- What `malloc` answers for each of the arrays. -/
structure Grants where
  /-- For the freelist. -/
  fl : Bool
  /-- For `vfds`. -/
  vfds : Bool
  /-- For `fds`. -/
  fds : Bool
  deriving DecidableEq, Repr

/-- What `wasio_init` leaves. -/
structure Initialised where
  /-- What it returns. -/
  result : WasioResult
  /-- The arrays it has allocated. -/
  arrays : List Region
  /-- The memory. -/
  mem : Heap

/-! ### The functions -/

/-- `freelist_new`, where the struct has the fields `size` and `len` before its vector. -/
def freelistNewMem (freespace : ℕ) (malloc : Bool) (h : Heap) : FreelistResult × Ptr × Heap :=
  if freespace = 0 then (.sizeErr, none, h)
  else
    let len := calcVectorLen freespace
    let (fl, h) := h.malloc ((8 + Uint32.mul 4 len) % 2 ^ 32) malloc
    if fl = none then (.memErr, none, h)
    else (.ok, fl, ((h.write fl 0 4).write fl 4 4).write fl 8 (Uint32.mul 4 len))

/-- The loop of `wasio_init` from the entry `i` on, with `k` entries to go: an entry of
`vfds` has 8 bytes, and one of `fds` has `b`. -/
def initLoop (vfds fds : Ptr) (b : ℕ) : (k i : ℕ) → Heap → Heap
  | 0, _, h => h
  | k + 1, i, h => initLoop vfds fds b k (i + 1) ((h.write vfds (8 * i) 8).write fds (b * i) b)

/-- `wasio_init` with a freelist and two arrays, where an entry of `fds` has `b` bytes. -/
def tableInit (b capacity : ℕ) (malloc : Grants) : Initialised :=
  match freelistNewMem capacity malloc.fl .empty with
  | (.ok, fl, h) =>
    let (vfds, h) := h.malloc (Uint32.mul 8 capacity) malloc.vfds
    let (fds, h) := h.malloc (Uint32.mul b capacity) malloc.fds
    { result := .ok
      arrays := [⟨fl, 8, 1⟩, ⟨vfds, 0, 8 * 8⟩, ⟨fds, 0, 8 * b⟩]
      mem := initLoop vfds fds b capacity 0 h }
  | (_, _, h) => { result := .efull, arrays := [], mem := h }

/-- `wasio_init` of `wasio_host.c`, whose `fds` are of type `int32_t`. -/
def WasioHost.initMem (capacity : ℕ) (malloc : Grants) : Initialised := tableInit 4 capacity malloc

/-- `wasio_init` of `wasio_wasi.c`, whose `fds` are of type `int64_t`. -/
def WasioWasi.initMem (capacity : ℕ) (malloc : Grants) : Initialised := tableInit 8 capacity malloc

/-- `wasio_init` of `wasio/host_poll.c`. -/
def HostPoll.initMem (capacity : ℕ) (malloc : Bool) : Initialised :=
  let (fds, h) := Heap.empty.malloc (Uint32.mul 8 capacity) malloc
  if fds = none then { result := .error, arrays := [], mem := h }
  else { result := .ok, arrays := [⟨fds, 0, 8 * 8⟩], mem := h }

/-! ### What is claimed of them -/

/-- **The capacity is really there**: where `wasio_init` succeeds, each of its arrays has
room for as many entries, and it has written inside its blocks only; and where it fails,
nothing stays allocated. -/
structure Provides (capacity : ℕ) (r : Initialised) : Prop where
  holds : r.result = .ok → ∀ a ∈ r.arrays, a.Holds capacity
  inside : r.result = .ok → ∀ w ∈ r.mem.writes, w.Inside
  released : r.result ≠ .ok → r.mem.live = []

/-! ### The freelist -/

variable {capacity b k i n : ℕ} {malloc : Grants} {h : Heap} {vfds fds : Ptr}

/-- The size of a freelist does not wrap. -/
theorem calcVectorLen_le (n : ℕ) : n ≤ 32 * calcVectorLen n ∧ 32 * calcVectorLen n < n + 32 := by
  rw [calcVectorLen, Freelist.intWidth]
  split_ifs <;> omega

/-- **A freelist that is allocated has a bit for each entry**, and is filled in inside its
block. -/
theorem freelistNewMem_ok (hn : n < 2 ^ 32) (hpos : n ≠ 0) :
    ∃ p h', freelistNewMem n true .empty = (.ok, p, h') ∧ Region.Holds ⟨p, 8, 1⟩ n ∧
      ∀ w ∈ h'.writes, w.Inside := by
  obtain ⟨hle, hlt⟩ := calcVectorLen_le n
  have hmul : Uint32.mul 4 (calcVectorLen n) = 4 * calcVectorLen n :=
    Uint32.mul_of_lt (by omega)
  refine ⟨_, _, by rw [freelistNewMem, if_neg hpos]; rfl, ?_, ?_⟩
  · refine ⟨_, rfl, ?_⟩
    dsimp only
    rw [hmul, Nat.mod_eq_of_lt (by omega)]
    omega
  · intro w hw
    simp only [Heap.write, Heap.empty, List.mem_cons, List.not_mem_nil, or_false] at hw
    rw [hmul, Nat.mod_eq_of_lt (by omega)] at hw
    rcases hw with rfl | rfl | rfl
    · exact ⟨_, rfl, le_rfl⟩
    · exact ⟨_, rfl, by dsimp only; omega⟩
    · exact ⟨_, rfl, by dsimp only; omega⟩

/-- The freelist fails for no entries, or without memory; nothing is allocated then. -/
theorem freelistNewMem_fails (h : n = 0 ∨ malloc.fl = false) :
    ∃ res h', freelistNewMem n malloc.fl .empty = (res, none, h') ∧ res ≠ .ok ∧ h'.live = [] := by
  rw [freelistNewMem]
  split_ifs with hzero
  · exact ⟨_, _, rfl, by simp, rfl⟩
  · have hfl := h.resolve_left hzero
    rw [hfl]
    exact ⟨_, _, rfl, by simp, rfl⟩

/-! ### The loop -/

/-- The loop writes one entry of each array in each turn. -/
theorem forall_mem_initLoop {P : Write → Prop} :
    (∀ w ∈ (initLoop vfds fds b k i h).writes, P w) ↔
      (∀ w ∈ h.writes, P w) ∧ ∀ j, i ≤ j → j < i + k → P ⟨vfds, 8 * j, 8⟩ ∧ P ⟨fds, b * j, b⟩ := by
  induction k generalizing i h with
  | zero => exact ⟨fun hw => ⟨hw, fun j _ _ => by omega⟩, fun hw => hw.1⟩
  | succ k ih =>
    rw [initLoop, ih]
    simp only [Heap.write, List.forall_mem_cons]
    constructor
    · rintro ⟨⟨hfds, hvfds, hw⟩, hrest⟩
      refine ⟨hw, fun j hij hj => ?_⟩
      rcases Nat.eq_or_lt_of_le hij with rfl | hlt
      · exact ⟨hvfds, hfds⟩
      · exact hrest j hlt (by omega)
    · rintro ⟨hw, hall⟩
      obtain ⟨hvfds, hfds⟩ := hall i le_rfl (by omega)
      exact ⟨⟨hfds, hvfds, hw⟩, fun j hij hj => hall j (by omega) (by omega)⟩

/-! ### The capacity -/

/-- What `tableInit` leaves where its freelist is allocated. -/
theorem tableInit_ok {p : Ptr} (hfl : freelistNewMem capacity malloc.fl .empty = (.ok, p, h)) :
    tableInit b capacity malloc =
      { result := .ok
        arrays := [⟨p, 8, 1⟩, ⟨(h.malloc (Uint32.mul 8 capacity) malloc.vfds).1, 0, 8 * 8⟩,
          ⟨((h.malloc (Uint32.mul 8 capacity) malloc.vfds).2.malloc (Uint32.mul b capacity)
            malloc.fds).1, 0, 8 * b⟩]
        mem := initLoop (h.malloc (Uint32.mul 8 capacity) malloc.vfds).1
          ((h.malloc (Uint32.mul 8 capacity) malloc.vfds).2.malloc (Uint32.mul b capacity)
            malloc.fds).1 b capacity 0
          ((h.malloc (Uint32.mul 8 capacity) malloc.vfds).2.malloc (Uint32.mul b capacity)
            malloc.fds).2 } := by
  rw [tableInit, hfl]

/-- What a table returns depends on its freelist only. -/
theorem tableInit_result (b capacity : ℕ) (malloc : Grants) :
    (tableInit b capacity malloc).result =
      if capacity = 0 ∨ malloc.fl = false then .efull else .ok := by
  split_ifs with hfail
  · obtain ⟨res, h', hfl, hres, -⟩ := freelistNewMem_fails hfail
    rw [tableInit, hfl]
    cases res with
    | ok => exact absurd rfl hres
    | _ => rfl
  · rw [not_or, Bool.not_eq_false] at hfail
    have hfl : ∃ p h', freelistNewMem capacity malloc.fl .empty = (.ok, p, h') := by
      rw [hfail.2, freelistNewMem, if_neg hfail.1]
      exact ⟨_, _, rfl⟩
    obtain ⟨p, h', hfl⟩ := hfl
    rw [tableInit_ok hfl]

/-- **A table has its capacity** exactly if the freelist is not allocated at all, or the two
arrays are and the capacity does not make their sizes wrap. -/
theorem provides_tableInit_iff (hb : b ≤ 8) (hcap : capacity < 2 ^ 32) :
    Provides capacity (tableInit b capacity malloc) ↔
      capacity = 0 ∨ malloc.fl = false ∨
        malloc.vfds = true ∧ malloc.fds = true ∧ capacity < 2 ^ 29 := by
  by_cases hfail : capacity = 0 ∨ malloc.fl = false
  · obtain ⟨res, h', hfl, hres, hlive⟩ := freelistNewMem_fails hfail
    have hinit : tableInit b capacity malloc = ⟨.efull, [], h'⟩ := by
      rw [tableInit, hfl]
      cases res with
      | ok => exact absurd rfl hres
      | _ => rfl
    -- without a freelist there is no table
    refine iff_of_true ?_ (by tauto)
    rw [hinit]
    exact ⟨nofun, nofun, fun _ => hlive⟩
  · rw [not_or, Bool.not_eq_false] at hfail
    obtain ⟨hpos, hok⟩ := hfail
    obtain ⟨p, h', hfl, hvector, hwrites⟩ := freelistNewMem_ok hcap hpos
    rw [← hok] at hfl
    rw [tableInit_ok hfl]
    have hvfds : ∀ h : Heap, Region.Holds
        ⟨(h.malloc (Uint32.mul 8 capacity) malloc.vfds).1, 0, 8 * 8⟩ capacity ↔
          malloc.vfds = true ∧ 8 * capacity < 2 ^ 32 := fun h => by
      rw [Malloc.holds_malloc_iff, Uint32.le_mul_iff]
    have hfds : ∀ h : Heap, Region.Holds
        ⟨(h.malloc (Uint32.mul b capacity) malloc.fds).1, 0, 8 * b⟩ capacity ↔
          malloc.fds = true ∧ b * capacity < 2 ^ 32 := fun h => by
      rw [Malloc.holds_malloc_iff, Uint32.le_mul_iff]
    constructor
    · intro hprovides
      have hholds := hprovides.holds rfl
      simp only [List.forall_mem_cons, hvfds, hfds] at hholds
      obtain ⟨-, ⟨hv, hlt⟩, ⟨hf, -⟩, -⟩ := hholds
      exact .inr (.inr ⟨hv, hf, by omega⟩)
    · intro hcond
      obtain ⟨hv, hf, hlt⟩ : malloc.vfds = true ∧ malloc.fds = true ∧ capacity < 2 ^ 29 := by
        rcases hcond with hzero | hfalse | hcond
        · exact absurd hzero hpos
        · exact absurd (hok.symm.trans hfalse) (by decide)
        · exact hcond
      -- the product that wraps first is that of the larger entries
      have hmul : b * capacity ≤ 8 * capacity := Nat.mul_le_mul_right capacity hb
      have hv' := (hvfds h').mpr ⟨hv, by omega⟩
      have hf' := (hfds (h'.malloc (Uint32.mul 8 capacity) malloc.vfds).2).mpr ⟨hf, by omega⟩
      refine ⟨fun _ => ?_, fun _ => ?_, fun hne => absurd rfl hne⟩
      · exact List.forall_mem_cons.mpr ⟨hvector, List.forall_mem_cons.mpr
          ⟨hv', List.forall_mem_singleton.mpr hf'⟩⟩
      · refine forall_mem_initLoop.mpr ⟨?_, fun j _ hj => ?_⟩
        · rwa [Heap.writes_malloc, Heap.writes_malloc]
        · exact ⟨hv'.inside (by omega), hf'.inside (by omega)⟩

/-- **The array of `wasio/host_poll.c`** has its capacity exactly if it is not allocated at
all, or the capacity does not make its size wrap. -/
theorem provides_hostPoll_iff {malloc : Bool} :
    Provides capacity (HostPoll.initMem capacity malloc) ↔ malloc = false ∨ capacity < 2 ^ 29 := by
  cases malloc with
  | false => exact iff_of_true ⟨nofun, nofun, fun _ => rfl⟩ (.inl rfl)
  | true =>
    have hholds : Region.Holds ⟨(Heap.empty.malloc (Uint32.mul 8 capacity) true).1, 0, 8 * 8⟩
        capacity ↔ 8 * capacity < 2 ^ 32 := by
      rw [Malloc.holds_malloc_iff, Uint32.le_mul_iff]
      exact and_iff_right rfl
    constructor
    · intro hprovides
      have hlt := hholds.mp (hprovides.holds rfl _ List.mem_cons_self)
      exact .inr (by omega)
    · intro hcond
      have hlt := hcond.resolve_left (by decide)
      refine ⟨fun _ => List.forall_mem_singleton.mpr (hholds.mpr (by omega)), ?_,
        fun hne => absurd rfl hne⟩
      exact fun _ w hw => absurd hw List.not_mem_nil

/-! ### The tables without their memory -/

/-- What `wasio_init` of `wasio_host.c` returns. -/
theorem WasioHost.initMem_result (capacity : ℕ) (malloc : Grants) :
    (WasioHost.initMem capacity malloc).result = (wasioInit capacity malloc.fl).1 := by
  rw [WasioHost.initMem, tableInit_result, wasioInit, freelistNew]
  by_cases hn : capacity = 0 <;> cases malloc.fl <;> simp [hn]

/-- What `wasio_init` of `wasio_wasi.c` returns. -/
theorem WasioWasi.initMem_result (capacity : ℕ) (malloc : Grants) :
    (WasioWasi.initMem capacity malloc).result = (WasioWasi.wasioInit capacity malloc.fl).1 := by
  rw [WasioWasi.initMem, tableInit_result, WasioWasi.wasioInit, freelistNew]
  by_cases hn : capacity = 0 <;> cases malloc.fl <;> simp [hn]

/-- What `wasio_init` of `wasio/host_poll.c` returns. -/
theorem HostPoll.initMem_result (capacity : ℕ) (malloc : Option (ℕ → Pollfd)) :
    (HostPoll.initMem capacity malloc.isSome).result = (HostPoll.wasioInit capacity malloc).1 := by
  cases malloc <;> rfl

/-! ### Where the capacity is there -/

/-- **`wasio_init` provides the capacity** it was asked for, in the tables with a freelist,
exactly if it fails or the two arrays are allocated for a capacity below `2 ^ 29`; and in the
one without, exactly if it fails or the capacity is below `2 ^ 29`. -/
theorem wasioInit_provides_iff (capacity : ℕ) (hcap : capacity < 2 ^ 32) (malloc : Grants) :
    (Provides capacity (WasioHost.initMem capacity malloc) ↔
      capacity = 0 ∨ malloc.fl = false ∨
        malloc.vfds = true ∧ malloc.fds = true ∧ capacity < 2 ^ 29) ∧
    (Provides capacity (WasioWasi.initMem capacity malloc) ↔
      capacity = 0 ∨ malloc.fl = false ∨
        malloc.vfds = true ∧ malloc.fds = true ∧ capacity < 2 ^ 29) ∧
    (Provides capacity (HostPoll.initMem capacity malloc.fds) ↔
      malloc.fds = false ∨ capacity < 2 ^ 29) :=
  ⟨provides_tableInit_iff (by decide) hcap, provides_tableInit_iff le_rfl hcap,
    provides_hostPoll_iff⟩

/-- A table with as many slots as a server uses. -/
theorem wasioInit_provides_iff_1024 :
    Provides 1024 (WasioHost.initMem 1024 ⟨true, true, true⟩) ∧
      Provides 1024 (WasioWasi.initMem 1024 ⟨true, true, true⟩) ∧
      Provides 1024 (HostPoll.initMem 1024 true) := by
  obtain ⟨hhost, hwasi, hpoll⟩ := wasioInit_provides_iff 1024 (by decide) ⟨true, true, true⟩
  exact ⟨hhost.mpr (by decide), hwasi.mpr (by decide), hpoll.mpr (by decide)⟩

/-- **Not always**: the table of one slot is written through the null pointer, where its
array is not allocated; and the arrays of `2 ^ 29` entries are none, as their size wraps
to `0`. -/
theorem not_wasioInit_provides :
    ¬Provides 1 (WasioHost.initMem 1 ⟨true, false, true⟩) ∧
      ¬Provides (2 ^ 29) (WasioWasi.initMem (2 ^ 29) ⟨true, true, true⟩) ∧
      ¬Provides (2 ^ 29) (HostPoll.initMem (2 ^ 29) true) := by
  refine ⟨fun h => ?_, fun h => ?_, fun h => ?_⟩
  · exact absurd ((provides_tableInit_iff (by decide) (by decide)).mp h) (by decide)
  · exact absurd ((provides_tableInit_iff le_rfl (by decide)).mp h) (by decide)
  · exact absurd (provides_hostPoll_iff.mp h) (by decide)

end Waeio
