import Waeio.WasioHost.Ledger

/-!
# The table is a map

What is `wasio_host.c` for? It gives the descriptors of the host small numbers, and that is a
partial map from numbers to descriptors, beside what the last `wasio_poll` has reported of each
number: `Waeio.Descriptors`, with no array, no bitmap and no counter. A new descriptor gets the
least number that is free below the capacity.

The table is this map (`Waeio.wasioHost_refines_map`): with the same answers of the host the two
have the same runs, the replies being the same in each step, and the numbers over which
`WASIO_EVENT_FOREACH` goes being the same in the end.
-/

namespace Waeio

/-- **The descriptors of a client**, by number. -/
structure Descriptors where
  /-- The descriptor of the host that the number stands for. -/
  fd : ℕ → Option ℤ
  /-- The events that were reported of the number. -/
  revents : ℕ → BitVec 16

namespace Descriptors

open WasioHost (Op Reply)

/-- No number stands for anything. -/
def empty : Descriptors := ⟨fun _ => none, fun _ => 0⟩

/-- The least number below the capacity that stands for nothing. -/
def free (cap : ℕ) (M : Descriptors) : Option ℕ :=
  (List.range cap).find? fun v => (M.fd v).isNone

/-- The number `v` stands for `d`. -/
def bind (M : Descriptors) (v : ℕ) (d : ℤ) : Descriptors :=
  { M with fd := Function.update M.fd v (some d) }

/-- The number `v` stands for nothing any more. -/
def release (M : Descriptors) (v : ℕ) : Descriptors where
  fd := Function.update M.fd v none
  revents := Function.update M.revents v 0

/-- What is passed to the host for a number. -/
def named (M : Descriptors) (v : ℕ) : ℤ := (M.fd v).getD (-1)

/-- A number is given to the descriptor `d`, which `call` has opened. -/
def wrap (cap : ℕ) (M : Descriptors) (call : Option HostCall) (d : ℤ) : Reply × Descriptors :=
  match M.free cap with
  | some v => (⟨call, .ok, some v, none⟩, M.bind v d)
  | none => (⟨call, .efull, none, none⟩, M)

/-- A reply that hands a number of bytes or of events through. -/
def count (call : HostCall) (host : HostAnswer) : Reply :=
  if host.ret < 0 then ⟨some call, translateError host.errno, none, none⟩
  else ⟨some call, .ok, none, some host.ret.toNat⟩

/-- **An operation on the map.** -/
def perform (cap : ℕ) (M : Descriptors) : Op → Reply × Descriptors
  | .listen port backlog host =>
    if host.ret < 0 then (count (.listen port backlog) host, M)
    else M.wrap cap (some (.listen port backlog)) host.ret
  | .wrap fd => M.wrap cap none fd
  | .accept vfd host =>
    if host.ret < 0 then (count (.accept (M.named vfd)) host, M)
    else M.wrap cap (some (.accept (M.named vfd))) host.ret
  | .recv vfd len host => (count (.recv (M.named vfd) len) host, M)
  | .send vfd len host => (count (.send (M.named vfd) len) host, M)
  | .notifyRecv _ | .notifySend _ => (⟨none, .ok, none, none⟩, M)
  | .poll timeout revents host => (count (.poll cap timeout) host, { M with revents := revents })
  | .close vfd host =>
    if host.ret = 0 then (⟨some (.close (M.named vfd)), .ok, none, none⟩, M.release vfd)
    else (⟨some (.close (M.named vfd)), translateError host.errno, none, none⟩, M)

/-- What a client and a host may do. -/
structure Admissible (cap : ℕ) (M : Descriptors) (op : Op) : Prop where
  vfd_lt : ∀ v, op.vfd = some v → v < cap
  wrap_nonneg : ∀ fd, op = .wrap fd → 0 ≤ fd
  close_fails : ∀ v host, op = .close v host → M.fd v = none → host.ret ≠ 0

/-- A step of the map. -/
def Tr (cap : ℕ) (M : Descriptors) (a : Op × Reply) (N : Descriptors) : Prop :=
  Admissible cap M a.1 ∧ M.perform cap a.1 = (a.2, N)

/-- The number has an event. -/
def Ready (M : Descriptors) (v : ℕ) : Prop := M.fd v ≠ none ∧ M.revents v ≠ 0

/-- **The map that a table is.** -/
def of (s : WasioPollfd) : Descriptors where
  fd v := if s.fds v = -1 then none else some (s.fds v)
  revents v := (s.vfds v).revents

end Descriptors

namespace WasioHost

open Descriptors (of)

variable {cap : ℕ} {O : Finset ℕ} {s t : WasioPollfd} {v : ℕ} {d : ℤ} {op : Op}

/-! ### The map of a table -/

@[simp] theorem named_of (s : WasioPollfd) (v : ℕ) : (of s).named v = s.fds v := by
  rw [Descriptors.named, of]
  dsimp only
  split_ifs with hnone
  · exact hnone.symm
  · rfl

theorem fd_of_eq_none_iff : (of s).fd v = none ↔ s.fds v = -1 := by
  rw [of]
  dsimp only
  split_ifs with hnone <;> simp [hnone]

theorem of_congr (hfds : t.fds = s.fds) (hrevents : ∀ i, (t.vfds i).revents = (s.vfds i).revents) :
    of t = of s := by
  simp only [of, hfds, hrevents]

theorem of_bindSlot (hd : 0 ≤ d) (fl : Freelist) : of (bindSlot s v d fl) = (of s).bind v d := by
  have hne : d ≠ -1 := by omega
  rw [of, Descriptors.bind, of]
  congr 1
  · funext u
    rcases eq_or_ne u v with rfl | hu
    · simp [bindSlot, hne]
    · simp [bindSlot, hu]
  · funext u
    rcases eq_or_ne u v with rfl | hu
    · simp [bindSlot, setFd]
    · simp [bindSlot, setFd, hu]

theorem of_unbindSlot (fl : Freelist) : of (unbindSlot s v fl) = (of s).release v := by
  rw [of, Descriptors.release, of]
  congr 1
  · funext u
    rcases eq_or_ne u v with rfl | hu
    · simp [unbindSlot]
    · simp [unbindSlot, hu]
  · funext u
    rcases eq_or_ne u v with rfl | hu
    · simp [unbindSlot]
    · simp [unbindSlot, hu]

/-- The events asked for are no part of the map. -/
theorem of_notify (v : ℕ) (b : BitVec 16) :
    of { s with vfds := addEvent (setFd s.vfds v (s.fds v)) v b } = of s := by
  refine of_congr rfl fun i => ?_
  rcases eq_or_ne i v with rfl | hi
  · simp [addEvent, setFd]
  · simp [addEvent, setFd, hi]

theorem fd_of_ne_none_iff (h : TableInv cap O s) : (of s).fd v ≠ none ↔ v ∈ O := by
  rw [Ne, fd_of_eq_none_iff]
  exact h.bound_iff v

/-- The least slot that is not bound is the least number that is free. -/
theorem TableInv.free_of (h : TableInv cap O s) (hv : IsLeast {u | u ∉ O} v) (hlt : v < cap) :
    (of s).free cap = some v := by
  rw [Descriptors.free, List.find?_range_eq_some]
  refine ⟨?_, List.mem_range.mpr hlt, fun u hu => ?_⟩
  · rw [Option.isNone_iff_eq_none, fd_of_eq_none_iff]
    exact not_not.mp fun hbound => hv.1 ((h.bound_iff v).mp hbound)
  · have hout : u ∈ O := not_not.mp fun hnot => absurd (hv.2 hnot) (not_le.mpr hu)
    rw [Bool.not_eq_true', Option.isNone_eq_false_iff, Option.isSome_iff_ne_none, Ne,
      fd_of_eq_none_iff]
    exact (h.bound_iff u).mpr hout

/-- No number is free if all slots are bound. -/
theorem TableInv.free_of_full (h : TableInv cap O s) (hfull : s.length = cap) :
    (of s).free cap = none := by
  rw [Descriptors.free, List.find?_range_eq_none]
  intro u hu
  rw [Bool.not_eq_true', Option.isNone_eq_false_iff, Option.isSome_iff_ne_none, Ne,
    fd_of_eq_none_iff]
  exact (h.bound_iff u).mpr (LeastFirst.mem_of_card_eq h.out_lt (h.length_eq.symm.trans hfull) hu)

/-! ### The operations -/

/-- A descriptor is put into the table as it is into the map. -/
theorem TableInv.wrap_of (h : TableInv cap O s) (hcap : cap % 32 = 0) (hd : 0 ≤ d)
    (call : Option HostCall) :
    (∃ v fl, wasioWrap s d = (.ok, some v, bindSlot s v d fl) ∧
      (of s).wrap cap call d = (⟨call, .ok, some v, none⟩, of (bindSlot s v d fl))) ∨
    wasioWrap s d = (.efull, none, s) ∧
      (of s).wrap cap call d = (⟨call, .efull, none, none⟩, of s) := by
  rcases h.wrap_cases hcap d with ⟨v, fl, hw, hv, hlt, -⟩ | hw
  · refine Or.inl ⟨v, fl, hw, ?_⟩
    rw [Descriptors.wrap, h.free_of hv hlt, of_bindSlot hd]
  · refine Or.inr ⟨hw, ?_⟩
    have hfull := h.length_of_full hcap (d := d) (by simp [hw])
    rw [Descriptors.wrap, h.free_of_full hfull]

/-- **An operation on the table is one on the map**, with the same reply. -/
theorem TableInv.perform_of (h : TableInv cap O s) (hcap : cap % 32 = 0) (hadm : Admissible s op) :
    ∃ r t, perform s op = some (r, t) ∧ (of s).perform cap op = (r, of t) := by
  cases op with
  | listen port backlog host =>
    simp only [perform, wasioListen, Descriptors.perform, Descriptors.count]
    split_ifs with hneg
    · exact ⟨_, _, rfl, rfl⟩
    · rcases h.wrap_of hcap (not_lt.mp hneg) (some (.listen port backlog)) with
        ⟨v, fl, hw, hmap⟩ | ⟨hw, hmap⟩ <;> rw [hw, hmap] <;> exact ⟨_, _, rfl, rfl⟩
  | wrap fd =>
    simp only [perform, Descriptors.perform]
    rcases h.wrap_of hcap (hadm.wrap_nonneg fd rfl) none with
      ⟨v, fl, hw, hmap⟩ | ⟨hw, hmap⟩ <;> rw [hw, hmap] <;> exact ⟨_, _, rfl, rfl⟩
  | accept vfd host =>
    simp only [perform, wasioAccept, Descriptors.perform, Descriptors.count, named_of]
    split_ifs with hneg
    · exact ⟨_, _, rfl, rfl⟩
    · rcases h.wrap_of hcap (not_lt.mp hneg) (some (.accept (s.fds vfd))) with
        ⟨v, fl, hw, hmap⟩ | ⟨hw, hmap⟩ <;> rw [hw, hmap]
      · -- the slot is written twice
        refine ⟨_, _, rfl, Prod.ext rfl (of_congr ?_ fun i => ?_).symm⟩
        · simp [bindSlot]
        · rcases eq_or_ne i v with rfl | hi
          · simp [bindSlot, setFd]
          · simp [bindSlot, setFd, hi]
      · exact ⟨_, _, rfl, rfl⟩
  | recv vfd len host =>
    simp only [perform, wasioRecv, Descriptors.perform, Descriptors.count, named_of]
    split_ifs <;> exact ⟨_, _, rfl, rfl⟩
  | send vfd len host =>
    simp only [perform, wasioSend, Descriptors.perform, Descriptors.count, named_of]
    split_ifs <;> exact ⟨_, _, rfl, rfl⟩
  | notifyRecv vfd | notifySend vfd =>
    refine ⟨_, _, rfl, Prod.ext rfl (of_notify vfd _).symm⟩
  | poll timeout revents host =>
    simp only [perform, wasioPoll, Descriptors.perform, Descriptors.count, h.capacity_eq]
    split_ifs <;> exact ⟨_, _, rfl, rfl⟩
  | close vfd host =>
    have hlt : vfd < cap := h.capacity_eq ▸ hadm.vfd_lt vfd rfl
    simp only [perform, Descriptors.perform, named_of, ← h.sync vfd]
    by_cases hret : host.ret = 0
    · rcases h.close_cases hlt host with ⟨hfail, -⟩ | ⟨-, fl, -, hclose⟩
      · exact absurd hret hfail
      · rw [if_pos hret]
        exact ⟨_, _, hclose, Prod.ext rfl (of_unbindSlot fl).symm⟩
    · rw [if_neg hret, wasioClose, if_pos hret]
      exact ⟨_, _, rfl, rfl⟩

theorem TableInv.admissible_iff (h : TableInv cap O s) :
    Descriptors.Admissible cap (of s) op ↔ Admissible s op := by
  constructor
  · rintro ⟨hvfd, hwrap, hclose⟩
    refine ⟨fun v hv => h.capacity_eq ▸ hvfd v hv, hwrap, fun v host hop hnone => ?_⟩
    exact hclose v host hop (fd_of_eq_none_iff.mpr (h.sync v ▸ hnone))
  · rintro ⟨hvfd, hwrap, hclose⟩
    refine ⟨fun v hv => h.capacity_eq ▸ hvfd v hv, hwrap, fun v host hop hnone => ?_⟩
    exact hclose v host hop ((h.sync v).trans (fd_of_eq_none_iff.mp hnone))

/-- A table and the map that it is. -/
def IsMap (cap : ℕ) (s : WasioPollfd) (M : Descriptors) : Prop :=
  (∃ O, TableInv cap O s) ∧ of s = M

/-- **The map does what the table does.** -/
theorem isMap_simulation (hcap : cap % 32 = 0) :
    Lts.Simulation (IsMap cap) Tr (Descriptors.Tr cap) := by
  rintro s M a t ⟨⟨O, hO⟩, rfl⟩ htr
  obtain ⟨r, t', hper, hmap⟩ := hO.perform_of hcap htr.1
  obtain ⟨rfl, rfl⟩ := Prod.mk.inj (Option.some.inj (htr.2.symm.trans hper))
  exact ⟨of t, ⟨hO.admissible_iff.mpr htr.1, hmap⟩, hO.step hcap htr, rfl⟩

/-- **The table does what the map does.** -/
theorem isMap_simulation_back (hcap : cap % 32 = 0) :
    Lts.Simulation (fun M s => IsMap cap s M) (Descriptors.Tr cap) Tr := by
  rintro M s a N ⟨⟨O, hO⟩, rfl⟩ ⟨hadm, hper⟩
  have hadm' := hO.admissible_iff.mp hadm
  obtain ⟨r, t, hper', hmap⟩ := hO.perform_of hcap hadm'
  obtain ⟨hr, rfl⟩ := Prod.mk.inj (hper.symm.trans hmap)
  have htr : Tr s a t := ⟨hadm', by rw [hper', hr]⟩
  exact ⟨t, htr, hO.step hcap htr, rfl⟩

/-! ### Whole runs -/

theorem exists_wasioInit (hpos : 0 < cap) :
    ∃ s₀, wasioInit cap true = (.ok, some s₀) := by
  obtain ⟨fl, hfl⟩ := Freelist.exists_freelistNew hpos
  rw [wasioInit, hfl]
  exact ⟨_, rfl⟩

/-- A fresh table is the empty map. -/
theorem of_init {s₀ : WasioPollfd} (h : wasioInit cap true = (.ok, some s₀)) :
    of s₀ = .empty := by
  rw [wasioInit] at h
  split at h
  · obtain rfl := Option.some.inj (Prod.mk.inj h).2
    rfl
  · cases (Prod.mk.inj h).1

end WasioHost

/-- **The table of `wasio_host.c` is a partial map**, with the least free number for each new
descriptor, where its capacity is a multiple of `32`: the two have the same runs, with the same
replies, and each run of the table ends in the map in which the run of the map ends, with the
same numbers ready. -/
theorem wasioHost_refines_map (cap : ℕ) (hpos : 0 < cap) (hcap : cap % 32 = 0)
    (hlt : cap < 2 ^ 32) (l : List (WasioHost.Op × WasioHost.Reply)) :
    (∀ M, Lts.Steps (Descriptors.Tr cap) .empty l M ↔
      ∃ s, WasioHost.Run cap l s ∧ Descriptors.of s = M) ∧
    ∀ s, WasioHost.Run cap l s → ∀ v, WasioHost.Ready s v ↔ (Descriptors.of s).Ready v := by
  have hempty : ∀ s₀, wasioInit cap true = (.ok, some s₀) → WasioHost.IsMap cap s₀ .empty :=
    fun s₀ hinit => ⟨⟨∅, WasioHost.tableInv_init hlt hinit⟩, WasioHost.of_init hinit⟩
  refine ⟨fun M => ⟨fun hM => ?_, ?_⟩, fun s hrun v => ?_⟩
  · obtain ⟨s₀, hinit⟩ := WasioHost.exists_wasioInit hpos
    obtain ⟨s, hs, hmap⟩ := (WasioHost.isMap_simulation_back hcap).steps hM (hempty s₀ hinit)
    exact ⟨s, ⟨s₀, hinit, hs⟩, hmap.2⟩
  · rintro ⟨s, ⟨s₀, hinit, hs⟩, rfl⟩
    obtain ⟨M, hM, -, hmap⟩ := (WasioHost.isMap_simulation hcap).steps hs (hempty s₀ hinit)
    rwa [hmap]
  · obtain ⟨O, hO⟩ := hrun.tableInv hcap hlt
    rw [WasioHost.Ready, Descriptors.Ready, hO.sync, hO.bound_iff, WasioHost.fd_of_ne_none_iff hO]
    rfl

/-- A connection is closed, and the next one has its number. -/
theorem wasioHost_refines_map_again :
    ∃ l s M, WasioHost.Run 32 l s ∧ Lts.Steps (Descriptors.Tr 32) .empty l M ∧
      l.map (fun a => a.2.vfd) = [some 0, some 1, some 2, none, some 1] ∧ M.fd 1 = some 7 := by
  obtain ⟨s₀, hinit, p, hp, hvfds, hfd⟩ : ∃ s₀, wasioInit 32 true = (.ok, some s₀) ∧
      ∃ p ∈ WasioHost.performAll s₀ [.listen 8080 1000 ⟨3, 0⟩, .accept 0 ⟨5, 0⟩,
        .accept 0 ⟨6, 0⟩, .close 1 ⟨0, 0⟩, .accept 0 ⟨7, 0⟩],
        p.1.map (fun a => a.2.vfd) = [some 0, some 1, some 2, none, some 1] ∧
          (Descriptors.of p.2).fd 1 = some 7 := by
    refine ⟨_, rfl, ?_⟩
    decide +kernel
  have hrun : WasioHost.Run 32 p.1 p.2 := ⟨s₀, hinit, WasioHost.steps_of_performAll hp⟩
  have hmap := (wasioHost_refines_map 32 (by decide) (by decide) (by decide) p.1).1
  exact ⟨p.1, p.2, _, hrun, (hmap _).mpr ⟨p.2, hrun, rfl⟩, hvfds, hfd⟩

end Waeio
