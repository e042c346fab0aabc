import Waeio.Freelist.Bounds
import Waeio.WasioHost.Basic

/-!
# The representation of the virtual-descriptor table

Four things say which slots are bound: the array `fds`, the `fd` fields of the
poll array, the freelist and the counter. `Waeio.WasioHost.TableInv` ties them to
one set `O`, the slots that are bound.

An operation does one of three things to the table
(`Waeio.WasioHost.TableInv.step_cases`): it leaves the bindings alone, it binds a
free slot, or it frees a bound one. Every fact about runs below is an analysis of
these three cases. That a free slot is found below the capacity is where the
capacity has to be a multiple of 32 (`Waeio.boundsAndCapacity_iff`).
-/

namespace Waeio

namespace WasioHost

open Freelist (Represents)

/-! ### The three things an operation does to the bindings -/

/-- Nothing but the event masks has changed. -/
structure Quiet (s t : WasioPollfd) : Prop where
  capacity_eq : t.capacity = s.capacity
  length_eq : t.length = s.length
  fl_eq : t.fl = s.fl
  fds_eq : t.fds = s.fds
  fd_eq : ∀ i, (t.vfds i).fd = (s.vfds i).fd
  pollin_eq : t.pollin = s.pollin
  pollout_eq : t.pollout = s.pollout

theorem Quiet.refl (s : WasioPollfd) : Quiet s s :=
  ⟨rfl, rfl, rfl, rfl, fun _ => rfl, rfl, rfl⟩

/-- The operation writes event masks. -/
def Op.Masks : Op → Prop
  | .notifyRecv _ | .notifySend _ | .poll _ _ _ => True
  | _ => False

/-- The table with the slot `v` bound to `d`, the freelist being `fl` now. -/
def bindSlot (s : WasioPollfd) (v : ℕ) (d : ℤ) (fl : Freelist) : WasioPollfd :=
  { s with
    fl := fl
    vfds := setFd s.vfds v d
    fds := Function.update s.fds v d
    length := Uint32.succ s.length }

/-- The table with the slot `v` freed, the freelist being `fl` now. -/
def unbindSlot (s : WasioPollfd) (v : ℕ) (fl : Freelist) : WasioPollfd :=
  { s with
    vfds := Function.update s.vfds v { s.vfds v with fd := -1, revents := 0 }
    fds := Function.update s.fds v (-1)
    length := Uint32.pred s.length
    fl := fl }

@[simp] theorem bindSlot_length (s : WasioPollfd) (v : ℕ) (d : ℤ) (fl : Freelist) :
    (bindSlot s v d fl).length = Uint32.succ s.length := rfl

@[simp] theorem unbindSlot_length (s : WasioPollfd) (v : ℕ) (fl : Freelist) :
    (unbindSlot s v fl).length = Uint32.pred s.length := rfl

/-- The host descriptor an operation has for a slot. -/
def Op.newFd : Op → Option ℤ
  | .listen _ _ host | .accept _ host => some host.ret
  | .wrap fd => some fd
  | _ => none

/-- The operation returned `WASIO_OK` with the slot `v` for the host descriptor
`d`. -/
def Binds (a : Op × Reply) (v : ℕ) (d : ℤ) : Prop :=
  a.1.newFd = some d ∧ a.2.result = .ok ∧ a.2.vfd = some v

/-- The operation is a `wasio_close(v)` that returned `WASIO_OK`. -/
def Unbinds (a : Op × Reply) (v : ℕ) : Prop :=
  (∃ host, a.1 = .close v host) ∧ a.2.result = .ok

/-! ### The invariant -/

/-- **The table represents the set `O` of its bound slots**, in each of the
places where it keeps them. -/
structure TableInv (cap : ℕ) (O : Finset ℕ) (s : WasioPollfd) : Prop where
  capacity_eq : s.capacity = cap
  rep : Represents cap O s.fl
  out_lt : ∀ v ∈ O, v < cap
  bound_iff : ∀ v, s.fds v ≠ -1 ↔ v ∈ O
  sync : ∀ v, (s.vfds v).fd = s.fds v
  length_eq : s.length = O.card

variable {cap : ℕ} {O : Finset ℕ} {s t : WasioPollfd}

/-- A fresh table has no interest registered, and the masks the host gave. -/
theorem statics_init (h : wasioInit cap true = (.ok, some s)) :
    (∀ v, (s.vfds v).events = 0) ∧ s.pollin = importPollin.result ∧
      s.pollout = importPollout.result := by
  rw [wasioInit] at h
  split at h
  · obtain rfl := Option.some.inj (Prod.mk.inj h).2
    exact ⟨fun _ => rfl, rfl, rfl⟩
  · exact absurd h (by simp)

theorem tableInv_init (hlt : cap < 2 ^ 32) (h : wasioInit cap true = (.ok, some s)) :
    TableInv cap ∅ s := by
  rw [wasioInit] at h
  rcases hnew : freelistNew cap true with ⟨res, fl⟩
  rw [hnew] at h
  cases res <;> cases fl <;> simp only [Prod.mk.injEq, reduceCtorEq, and_false] at h
  rename_i fl
  obtain rfl := Option.some.inj h.2
  exact ⟨rfl, Freelist.represents_new hlt hnew, by simp, by simp, fun _ => rfl, rfl⟩

/-- The table of a successful `wasio_init`. -/
theorem wasioInit_eq_of_mem (h : s ∈ (wasioInit cap true).2) :
    wasioInit cap true = (.ok, some s) := by
  rw [wasioInit] at h ⊢
  split at h
  · exact congrArg (Prod.mk WasioResult.ok) h
  · exact absurd h (by simp)

theorem TableInv.quiet (h : TableInv cap O s) (hq : Quiet s t) : TableInv cap O t where
  capacity_eq := by rw [hq.capacity_eq, h.capacity_eq]
  rep := by
    rw [hq.fl_eq]
    exact h.rep
  out_lt := h.out_lt
  bound_iff := by
    rw [hq.fds_eq]
    exact h.bound_iff
  sync v := by rw [hq.fd_eq, hq.fds_eq, h.sync]
  length_eq := by rw [hq.length_eq, h.length_eq]

/-- The number of bound slots is at most the capacity. -/
theorem TableInv.length_le (h : TableInv cap O s) : s.length ≤ cap := by
  rw [h.length_eq]
  exact LeastFirst.card_le_of_forall_lt h.out_lt

/-- Binding a free slot does not wrap the counter. -/
theorem TableInv.card_insert_le (h : TableInv cap O s) {v : ℕ} (hv : v ∉ O) (hlt : v < cap) :
    O.card + 1 ≤ cap := by
  rw [← Finset.card_insert_of_notMem hv]
  refine LeastFirst.card_le_of_forall_lt fun e he => ?_
  rcases Finset.mem_insert.mp he with rfl | he
  · exact hlt
  · exact h.out_lt e he

theorem TableInv.bind (h : TableInv cap O s) {v : ℕ} {d : ℤ} {fl : Freelist} (hd : 0 ≤ d)
    (hv : v ∉ O) (hlt : v < cap) (hrep : Represents cap (insert v O) fl) :
    TableInv cap (insert v O) (bindSlot s v d fl) where
  capacity_eq := h.capacity_eq
  rep := hrep
  out_lt e he := by
    rcases Finset.mem_insert.mp he with rfl | he
    · exact hlt
    · exact h.out_lt e he
  bound_iff e := by
    rcases eq_or_ne e v with rfl | hne
    · simp only [bindSlot, Function.update_self, Finset.mem_insert_self, iff_true]
      omega
    · simp [bindSlot, hne, h.bound_iff]
  sync e := by
    rcases eq_or_ne e v with rfl | hne
    · simp [bindSlot, setFd]
    · simp [bindSlot, setFd, hne, h.sync]
  length_eq := by
    have hcard := h.card_insert_le hv hlt
    have hcap := h.rep.lt
    rw [bindSlot_length, Finset.card_insert_of_notMem hv, h.length_eq, Uint32.succ_of_lt (by omega)]

theorem TableInv.unbind (h : TableInv cap O s) {v : ℕ} {fl : Freelist} (hv : v ∈ O)
    (hrep : Represents cap (O.erase v) fl) : TableInv cap (O.erase v) (unbindSlot s v fl) where
  capacity_eq := h.capacity_eq
  rep := hrep
  out_lt e he := h.out_lt e (Finset.mem_of_mem_erase he)
  bound_iff e := by
    rcases eq_or_ne e v with rfl | hne
    · simp [unbindSlot]
    · simp [unbindSlot, hne, h.bound_iff]
  sync e := by
    rcases eq_or_ne e v with rfl | hne
    · simp [unbindSlot]
    · simp [unbindSlot, hne, h.sync]
  length_eq := by
    have hpos : 0 < O.card := Finset.card_pos.mpr ⟨v, hv⟩
    have hle := h.length_le
    have hcap := h.rep.lt
    have hlen := h.length_eq
    rw [unbindSlot_length, Finset.card_erase_of_mem hv, Uint32.pred_of_pos (by omega), hlen]

/-! ### What each operation does -/

/-- **What `wasio_wrap` does**: it binds the least free slot, which is below the
capacity, or finds none and changes nothing. -/
theorem TableInv.wrap_cases (h : TableInv cap O s) (hcap : cap % 32 = 0) (d : ℤ) :
    (∃ v fl, wasioWrap s d = (.ok, some v, bindSlot s v d fl) ∧ IsLeast {u | u ∉ O} v ∧
      v < cap ∧ Represents cap (insert v O) fl) ∨
    wasioWrap s d = (.efull, none, s) := by
  rcases Freelist.freelistNext_result s.fl with hok | hfull
  · obtain ⟨v, hv, hleast, -, hrep⟩ := h.rep.next_ok (Prod.ext hok rfl)
    have hnext : freelistNext s.fl = (.ok, some v, (freelistNext s.fl).2.2) :=
      Prod.ext hok (Prod.ext hv rfl)
    refine Or.inl ⟨v, _, ?_, hleast, h.rep.next_lt (Or.inr hcap) hnext, hrep⟩
    rw [wasioWrap, hnext]
    rfl
  · have hnext := h.rep.next_full (Prod.ext hfull rfl)
    have hnext' : freelistNext s.fl = (.full, none, s.fl) :=
      Prod.ext hfull (Prod.ext hnext.2.1 hnext.2.2)
    exact Or.inr (by rw [wasioWrap, hnext'])

/-- **What `wasio_accept` does**: it binds the least free slot to the connection, or fails
and changes nothing. -/
theorem TableInv.accept_cases (h : TableInv cap O s) (hcap : cap % 32 = 0) (vfd : ℕ)
    (host : HostAnswer) :
    (∃ v fl, wasioAccept s vfd host =
        (⟨some (.accept (s.fds vfd)), .ok, some v, none⟩, bindSlot s v host.ret fl) ∧
      0 ≤ host.ret ∧ IsLeast {u | u ∉ O} v ∧ v < cap ∧ Represents cap (insert v O) fl) ∨
    ∃ res, res ≠ .ok ∧ wasioAccept s vfd host =
      (⟨some (.accept (s.fds vfd)), res, none, none⟩, s) := by
  rw [wasioAccept]
  split_ifs with hneg
  · exact Or.inr ⟨_, translateError_ne_ok _, rfl⟩
  · rcases h.wrap_cases hcap host.ret with ⟨v, fl, hw, hv, hlt, hrep⟩ | hw <;> rw [hw]
    · -- the two arrays are written a second time, with what they hold already
      exact Or.inl ⟨v, fl, by simp [bindSlot, setFd], not_lt.mp hneg, hv, hlt, hrep⟩
    · exact Or.inr ⟨.efull, by simp, rfl⟩

/-- **What `wasio_close` does** to a slot of the table: it frees it, if the host has closed
the descriptor. -/
theorem TableInv.close_cases (h : TableInv cap O s) {v : ℕ} (hlt : v < cap) (host : HostAnswer) :
    (host.ret ≠ 0 ∧ ∃ res, res ≠ .ok ∧
      wasioClose s v host = some (⟨some (.close (s.vfds v).fd), res, none, none⟩, s)) ∨
    (host.ret = 0 ∧ ∃ fl, Represents cap (O.erase v) fl ∧
      wasioClose s v host =
        some (⟨some (.close (s.vfds v).fd), .ok, none, none⟩, unbindSlot s v fl)) := by
  rw [wasioClose]
  split_ifs with hfail
  · exact Or.inl ⟨hfail, _, translateError_ne_ok _, rfl⟩
  · have hrec := Freelist.freelistReclaim_of_lt (h.rep.size_eq ▸ hlt)
    rw [hrec]
    exact Or.inr ⟨not_not.mp hfail, _, (h.rep.reclaim_ok hrec).2.2, rfl⟩

/-- Registering an interest leaves the bindings alone. -/
theorem TableInv.quiet_notify (h : TableInv cap O s) (v : ℕ) (b : BitVec 16) :
    Quiet s { s with vfds := addEvent (setFd s.vfds v (s.fds v)) v b } := by
  refine ⟨rfl, rfl, rfl, rfl, fun i => ?_, rfl, rfl⟩
  rcases eq_or_ne i v with rfl | hne
  · simp [addEvent, setFd, h.sync]
  · simp [addEvent, setFd, hne]

/-- Polling leaves the bindings alone. -/
theorem quiet_revents (s : WasioPollfd) (revents : ℕ → BitVec 16) :
    Quiet s { s with vfds := fun i => { s.vfds i with revents := revents i } } :=
  ⟨rfl, rfl, rfl, rfl, fun _ => rfl, rfl, rfl⟩

theorem quiet_wasioPoll (s : WasioPollfd) (timeout : ℤ) (revents : ℕ → BitVec 16)
    (host : HostAnswer) : Quiet s (wasioPoll s timeout revents host).2 := by
  rw [wasioPoll]
  split_ifs
  · exact quiet_revents s revents
  · exact quiet_revents s revents

/-- Only `wasio_close` gives a slot up. -/
theorem not_unbinds {op : Op} {r : Reply} (hop : ∀ v host, op ≠ .close v host) (v : ℕ) :
    ¬Unbinds (op, r) v := by
  rintro ⟨⟨host, hclose⟩, -⟩
  exact hop v host hclose

/-- An operation that fails, or only looks. -/
theorem unchanged {op : Op} {r : Reply} (hop : ∀ v host, op ≠ .close v host)
    (hvfd : r.vfd = none) :
    Quiet s s ∧ (¬op.Masks → s = s) ∧ r.vfd = none ∧ ∀ v, ¬Unbinds (op, r) v :=
  ⟨.refl s, fun _ => rfl, hvfd, not_unbinds hop⟩

/-- **The three cases of a step.** -/
theorem TableInv.step_cases (h : TableInv cap O s) (hcap : cap % 32 = 0) {a : Op × Reply}
    (htr : Tr s a t) :
    (Quiet s t ∧ (¬a.1.Masks → t = s) ∧ a.2.vfd = none ∧ ∀ v, ¬Unbinds a v) ∨
    (∃ v d fl, Binds a v d ∧ 0 ≤ d ∧ IsLeast {u | u ∉ O} v ∧ v < cap ∧
      Represents cap (insert v O) fl ∧
      t = bindSlot s v d fl ∧ ∀ u, ¬Unbinds a u) ∨
    (∃ v fl, Unbinds a v ∧ v ∈ O ∧ Represents cap (O.erase v) fl ∧ t = unbindSlot s v fl ∧
      a.2.vfd = none) := by
  obtain ⟨op, r⟩ := a
  obtain ⟨hadm, hper⟩ := htr
  cases op with
  | listen port backlog host =>
    simp only [perform, wasioListen, Option.some.injEq] at hper
    split_ifs at hper with hneg
    · obtain ⟨rfl, rfl⟩ := Prod.mk.inj hper
      exact Or.inl (unchanged (by simp) rfl)
    · -- the rest of `wasio_listen` is `wasio_wrap` of the new socket
      rcases h.wrap_cases hcap host.ret with ⟨v, fl, hw, hv, hlt, hrep⟩ | hw <;>
        rw [hw] at hper <;> obtain ⟨rfl, rfl⟩ := Prod.mk.inj hper
      · exact Or.inr (Or.inl ⟨v, host.ret, fl, ⟨rfl, rfl, rfl⟩, by omega, hv, hlt, hrep, rfl,
          not_unbinds (by simp)⟩)
      · exact Or.inl (unchanged (by simp) rfl)
  | wrap fd =>
    simp only [perform, Option.some.injEq] at hper
    rcases h.wrap_cases hcap fd with ⟨v, fl, hw, hv, hlt, hrep⟩ | hw <;>
      rw [hw] at hper <;> obtain ⟨rfl, rfl⟩ := Prod.mk.inj hper
    · exact Or.inr (Or.inl ⟨v, fd, fl, ⟨rfl, rfl, rfl⟩, hadm.wrap_nonneg fd rfl, hv, hlt, hrep,
        rfl, not_unbinds (by simp)⟩)
    · exact Or.inl (unchanged (by simp) rfl)
  | accept vfd host =>
    simp only [perform, Option.some.injEq] at hper
    rcases h.accept_cases hcap vfd host with ⟨v, fl, hacc, hret, hv, hlt, hrep⟩ |
      ⟨res, -, hacc⟩ <;>
      rw [hacc] at hper <;> obtain ⟨rfl, rfl⟩ := Prod.mk.inj hper
    · exact Or.inr (Or.inl ⟨v, host.ret, fl, ⟨rfl, rfl, rfl⟩, hret, hv, hlt, hrep, rfl,
        not_unbinds (by simp)⟩)
    · exact Or.inl (unchanged (by simp) rfl)
  | recv vfd len host =>
    simp only [perform, wasioRecv, Option.some.injEq] at hper
    split_ifs at hper <;> obtain ⟨rfl, rfl⟩ := Prod.mk.inj hper <;>
      exact Or.inl (unchanged (by simp) rfl)
  | send vfd len host =>
    simp only [perform, wasioSend, Option.some.injEq] at hper
    split_ifs at hper <;> obtain ⟨rfl, rfl⟩ := Prod.mk.inj hper <;>
      exact Or.inl (unchanged (by simp) rfl)
  | notifyRecv vfd =>
    obtain ⟨rfl, rfl⟩ := Prod.mk.inj (Option.some.inj hper)
    exact Or.inl ⟨h.quiet_notify vfd s.pollin, fun hm => absurd trivial hm, rfl,
      not_unbinds (by simp)⟩
  | notifySend vfd =>
    obtain ⟨rfl, rfl⟩ := Prod.mk.inj (Option.some.inj hper)
    exact Or.inl ⟨h.quiet_notify vfd s.pollout, fun hm => absurd trivial hm, rfl,
      not_unbinds (by simp)⟩
  | poll timeout revents host =>
    have hquiet := quiet_wasioPoll s timeout revents host
    simp only [perform, Option.some.injEq] at hper
    rw [hper] at hquiet
    have hvfd : r.vfd = none := by
      rw [wasioPoll] at hper
      split_ifs at hper <;> obtain ⟨rfl, -⟩ := Prod.mk.inj hper <;> rfl
    exact Or.inl ⟨hquiet, fun hm => absurd trivial hm, hvfd, not_unbinds (by simp)⟩
  | close vfd host =>
    have hlt : vfd < cap := h.capacity_eq ▸ hadm.vfd_lt vfd rfl
    rw [perform] at hper
    rcases h.close_cases hlt host with ⟨-, res, hres, hclose⟩ | ⟨hret, fl, hrep, hclose⟩ <;>
      rw [hclose] at hper <;> obtain ⟨rfl, rfl⟩ := Prod.mk.inj (Option.some.inj hper)
    · exact Or.inl ⟨.refl s, fun _ => rfl, rfl, fun v hv => absurd hv.2 hres⟩
    · -- the host refuses to close a slot that is not bound, so the entry is out
      have hfd : (s.vfds vfd).fd ≠ -1 := fun he => hadm.close_fails vfd host rfl he hret
      have hmem : vfd ∈ O := (h.bound_iff vfd).mp (by rwa [← h.sync])
      exact Or.inr (Or.inr ⟨vfd, _, ⟨⟨host, rfl⟩, rfl⟩, hmem, hrep, rfl, rfl⟩)

/-- **The assertion on `freelist_reclaim` in `wasio_close` never fails.** -/
theorem TableInv.perform_ne_none (h : TableInv cap O s) {op : Op} (hadm : Admissible s op) :
    perform s op ≠ none := by
  cases op with
  | close vfd host =>
    have hlt : vfd < cap := h.capacity_eq ▸ hadm.vfd_lt vfd rfl
    rw [perform]
    rcases h.close_cases hlt host with ⟨-, res, -, hclose⟩ | ⟨-, fl, -, hclose⟩ <;> rw [hclose] <;>
      simp
  | _ => simp [perform]

theorem TableInv.step (h : TableInv cap O s) (hcap : cap % 32 = 0) {a : Op × Reply}
    (htr : Tr s a t) : ∃ O', TableInv cap O' t := by
  rcases h.step_cases hcap htr with ⟨hq, -⟩ | ⟨v, d, fl, -, hd, hv, hlt, hrep, rfl, -⟩ |
    ⟨v, fl, -, hv, hrep, rfl, -⟩
  · exact ⟨O, h.quiet hq⟩
  · exact ⟨_, h.bind hd hv.1 hlt hrep⟩
  · exact ⟨_, h.unbind hv hrep⟩

/-- The event bits are set once and for all. -/
theorem TableInv.statics_eq (h : TableInv cap O s) (hcap : cap % 32 = 0) {a : Op × Reply}
    (htr : Tr s a t) : t.pollin = s.pollin ∧ t.pollout = s.pollout := by
  rcases h.step_cases hcap htr with ⟨hq, -⟩ | ⟨v, d, fl, -, -, -, -, -, rfl, -⟩ |
    ⟨v, fl, -, -, -, rfl, -⟩
  · exact ⟨hq.pollin_eq, hq.pollout_eq⟩
  · exact ⟨rfl, rfl⟩
  · exact ⟨rfl, rfl⟩

/-- A close succeeds only if the host has closed the descriptor. -/
theorem ret_eq_zero_of_unbinds {v : ℕ} {host : HostAnswer} {r : Reply}
    (htr : Tr s (.close v host, r) t) (hok : r.result = .ok) : host.ret = 0 := by
  by_contra hne
  have hper := htr.2
  simp only [perform, wasioClose, if_pos hne, Option.some.injEq, Prod.mk.injEq] at hper
  obtain ⟨rfl, -⟩ := hper
  exact translateError_ne_ok _ hok

/-- **What an operation does to a slot**: short of those that write event masks, it
leaves the mask alone and reports no event; and it leaves the descriptor alone too,
unless it opens the least free slot or closes the slot. -/
theorem TableInv.slot_cases (h : TableInv cap O s) (hcap : cap % 32 = 0) {a : Op × Reply}
    (htr : Tr s a t) (hm : ¬a.1.Masks) (v : ℕ) :
    (t.vfds v).events = (s.vfds v).events ∧
      ((t.vfds v).revents ≠ 0 → (s.vfds v).revents ≠ 0) ∧
      ((t.vfds v).fd = (s.vfds v).fd ∨
        (v < cap ∧ ∃ d, a.1.newFd = some d ∧ 0 ≤ d ∧ s.fds v = -1 ∧ ∀ u < v, s.fds u ≠ -1) ∨
        (v < cap ∧ Unbinds a v)) := by
  rcases h.step_cases hcap htr with ⟨-, hq, -⟩ | ⟨u, d, fl, hbind, hd, hu, hlt, -, rfl, -⟩ |
    ⟨u, fl, hunbind, hu, -, rfl, -⟩
  · rw [hq hm]
    exact ⟨rfl, id, Or.inl rfl⟩
  · rcases eq_or_ne v u with rfl | hne
    · -- the least number that is not out is the least unbound slot
      have hfree : s.fds v = -1 := not_not.mp fun hb => hu.1 ((h.bound_iff v).mp hb)
      refine ⟨by simp [bindSlot, setFd], by simp [bindSlot, setFd],
        Or.inr (Or.inl ⟨hlt, d, hbind.1, hd, hfree, ?_⟩)⟩
      intro w hw
      by_contra hcon
      have hle := hu.2 (fun hmem => (h.bound_iff w).mpr hmem hcon)
      omega
    · simp [bindSlot, setFd, hne]
  · rcases eq_or_ne v u with rfl | hne
    · exact ⟨by simp [unbindSlot], by simp [unbindSlot],
        Or.inr (Or.inr ⟨h.out_lt v hu, hunbind⟩)⟩
    · simp [unbindSlot, hne]

/-- Every reachable table represents its bound slots. -/
theorem Run.tableInv (hcap : cap % 32 = 0) (hlt : cap < 2 ^ 32) {l : List (Op × Reply)}
    (h : Run cap l s) : ∃ O, TableInv cap O s := by
  obtain ⟨s₀, hinit, hsteps⟩ := h
  refine hsteps.invariant (P := fun s => ∃ O, TableInv cap O s) ?_ ⟨∅, tableInv_init hlt hinit⟩
  rintro s a t ⟨O, hO⟩ htr
  exact hO.step hcap htr

/-! ### The claim of the table on its four parts -/

/-- The slots below the capacity that `fds` says are bound. -/
def boundSlots (cap : ℕ) (s : WasioPollfd) : Finset ℕ :=
  (Finset.range cap).filter fun i => s.fds i ≠ -1

/-- The entries below the capacity that are taken from the freelist. -/
def takenEntries (cap : ℕ) (s : WasioPollfd) : Finset ℕ :=
  (Finset.range cap).filter fun i => ¬s.fl.Available i

/-- **The four parts of the table agree.** -/
structure Consistent (cap : ℕ) (s : WasioPollfd) : Prop where
  length_eq_bound : s.length = (boundSlots cap s).card
  length_eq_taken : s.length = (takenEntries cap s).card
  bound_iff_taken : ∀ i < cap, s.fds i ≠ -1 ↔ ¬s.fl.Available i
  vfds_eq_fds : ∀ i < cap, (s.vfds i).fd = s.fds i
  length_le : s.length ≤ cap

theorem TableInv.bound_iff_taken (h : TableInv cap O s) {i : ℕ} (hi : i < cap) :
    s.fds i ≠ -1 ↔ ¬s.fl.Available i := by
  rw [h.bound_iff, h.rep.avail i (lt_of_lt_of_le hi h.rep.size_le), not_not]

theorem TableInv.boundSlots_eq (h : TableInv cap O s) : boundSlots cap s = O := by
  ext i
  rw [boundSlots, Finset.mem_filter, Finset.mem_range, h.bound_iff]
  exact ⟨fun hi => hi.2, fun hi => ⟨h.out_lt i hi, hi⟩⟩

theorem TableInv.takenEntries_eq (h : TableInv cap O s) : takenEntries cap s = O := by
  rw [← h.boundSlots_eq]
  refine Finset.filter_congr fun i hi => ?_
  exact (h.bound_iff_taken (Finset.mem_range.mp hi)).symm

theorem TableInv.consistent (h : TableInv cap O s) : Consistent cap s where
  length_eq_bound := by rw [h.boundSlots_eq, h.length_eq]
  length_eq_taken := by rw [h.takenEntries_eq, h.length_eq]
  bound_iff_taken _ hi := h.bound_iff_taken hi
  vfds_eq_fds i _ := h.sync i
  length_le := h.length_le

/-- A step changes the counter by at most one, without wrapping it. -/
theorem TableInv.length_step (h : TableInv cap O s) (hcap : cap % 32 = 0) {a : Op × Reply}
    (htr : Tr s a t) :
    t.length = s.length ∨ t.length = s.length + 1 ∨ t.length + 1 = s.length := by
  rcases h.step_cases hcap htr with ⟨hq, -⟩ | ⟨v, d, fl, -, hd, hv, hlt, hrep, rfl, -⟩ |
    ⟨v, fl, -, hv, hrep, rfl, -⟩
  · exact Or.inl hq.length_eq
  · have hlen := (h.bind hd hv.1 hlt hrep).length_eq
    rw [Finset.card_insert_of_notMem hv.1, ← h.length_eq] at hlen
    exact Or.inr (Or.inl hlen)
  · have hlen := (h.unbind hv hrep).length_eq
    have hpos : 0 < O.card := Finset.card_pos.mpr ⟨v, hv⟩
    rw [Finset.card_erase_of_mem hv, ← h.length_eq] at hlen
    have := h.length_eq
    omega

/-! ### Runs that can be computed -/

/-- Perform the operations one after the other, as long as they are admissible. -/
def performAll (s : WasioPollfd) : List Op → Option (List (Op × Reply) × WasioPollfd)
  | [] => some ([], s)
  | op :: ops =>
    if Admissible s op then do
      let (r, s) ← perform s op
      let (l, s) ← performAll s ops
      pure ((op, r) :: l, s)
    else none

theorem steps_of_performAll {ops : List Op} {l : List (Op × Reply)}
    (h : performAll s ops = some (l, t)) : Lts.Steps Tr s l t := by
  induction ops generalizing s l with
  | nil =>
    obtain ⟨rfl, rfl⟩ := Prod.mk.inj (Option.some.inj h)
    exact .nil _
  | cons op ops ih =>
    rw [performAll] at h
    split_ifs at h with hadm
    obtain ⟨⟨r, u⟩, hu, h⟩ := Option.bind_eq_some_iff.mp h
    obtain ⟨⟨l', t'⟩, ht, h⟩ := Option.bind_eq_some_iff.mp h
    obtain ⟨rfl, rfl⟩ := Prod.mk.inj (Option.some.inj h)
    exact .cons ⟨hadm, hu⟩ (ih ht)

/-- They are the operations of the run. -/
theorem map_fst_of_performAll {ops : List Op} {l : List (Op × Reply)}
    (h : performAll s ops = some (l, t)) : l.map Prod.fst = ops := by
  induction ops generalizing s l with
  | nil =>
    obtain ⟨rfl, -⟩ := Prod.mk.inj (Option.some.inj h)
    rfl
  | cons op ops ih =>
    rw [performAll] at h
    split_ifs at h
    obtain ⟨⟨r, u⟩, -, h⟩ := Option.bind_eq_some_iff.mp h
    obtain ⟨⟨l', t'⟩, ht, h⟩ := Option.bind_eq_some_iff.mp h
    obtain ⟨rfl, rfl⟩ := Prod.mk.inj (Option.some.inj h)
    rw [List.map_cons, ih ht]

end WasioHost

open WasioHost

/-- **The representation invariant of the virtual-descriptor table**: in every
reachable table the four parts agree, no assertion fails and the counter does not
wrap. -/
theorem wasioHost_table_consistent (cap : ℕ) (hcap : cap % 32 = 0) (hlt : cap < 2 ^ 32)
    (l : List (Op × Reply)) (s : WasioPollfd) (h : WasioHost.Run cap l s) :
    Consistent cap s ∧ (∀ op, Admissible s op → perform s op ≠ none) ∧
      ∀ a t, Tr s a t →
        t.length = s.length ∨ t.length = s.length + 1 ∨ t.length + 1 = s.length := by
  obtain ⟨O, hO⟩ := h.tableInv hcap hlt
  exact ⟨hO.consistent, fun op hadm => hO.perform_ne_none hadm,
    fun a t htr => hO.length_step hcap htr⟩

/-- A run of one step: a listening socket is opened on the descriptor 3. -/
theorem exists_tr_listen :
    ∃ s₀ t r, wasioInit 32 true = (.ok, some s₀) ∧ Tr s₀ (.listen 8080 1000 ⟨3, 0⟩, r) t ∧
      r.result = .ok ∧ r.vfd = some 0 ∧ t.capacity = 32 := by
  refine ⟨_, _, _, rfl, ⟨⟨by simp [Op.vfd], by simp, by simp⟩, rfl⟩, ?_⟩
  decide +kernel

/-- The four parts agree once a listening socket is open. -/
theorem wasioHost_table_consistent_listen :
    ∃ l s, l ≠ [] ∧ WasioHost.Run 32 l s ∧ Consistent 32 s := by
  obtain ⟨s₀, t, r, hinit, htr, -⟩ := exists_tr_listen
  have hrun : WasioHost.Run 32 [(.listen 8080 1000 ⟨3, 0⟩, r)] t := ⟨s₀, hinit, .single htr⟩
  exact ⟨_, t, by simp, hrun,
    (wasioHost_table_consistent 32 (by decide) (by decide) _ t hrun).1⟩

end Waeio
