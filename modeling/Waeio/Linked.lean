import Waeio.HostDriver.Answer
import Waeio.WasioHost.Table

/-!
# The table over the driver

The table of `src/wasio_host.c` was modelled with any answers of the host, and the bindings of
`src/host/driver` with any caller. Here the two are linked: the guest keeps its table and has
its poll array and `host_errno` in linear memory, a host call of the table is an invocation of
the binding with the addresses of these, and what the table goes on with is what is in memory
when the binding returns: the value of `host_errno`, and the entries of the array.

`Waeio.linked_refines` says that this is a run of the table, and whose answers it gets: those
of the system calls, through everything in between. An error code is not mixed up on its way
through four bytes of memory, a descriptor is handed back to the system as it was handed out,
the array comes back from `poll` with the same descriptors and events and the new `revents`,
and bytes that are received are in the buffer. The rest of the memory is as it was
(`Waeio.Linked.Leaves`). What is proved of the runs of the table is therefore true of the guest
on the driver.

The guest stores what it likes in its memory between two calls, as long as its array is where
the layout says.
-/

namespace Waeio

namespace Linked

open Bytes (Memory Range)
open HostDriver (Layout Outcome Sys invocation cell)
open WasioHost (Op Reply TableInv)

/-! ### The guest and its requests -/

/-- **A request of the client**: an operation on the table, with the buffer it is given. -/
inductive Request
  /-- `wasio_listen` -/
  | listen (port backlog : ℤ) : Request
  /-- `wasio_wrap` -/
  | wrap (fd : BitVec 32) : Request
  /-- `wasio_accept` -/
  | accept (vfd : ℕ) : Request
  /-- `wasio_recv` -/
  | recv (vfd : ℕ) (buf : BitVec 32) (len : ℕ) : Request
  /-- `wasio_send` -/
  | send (vfd : ℕ) (buf : BitVec 32) (len : ℕ) : Request
  /-- `wasio_notify_recv` -/
  | notifyRecv (vfd : ℕ) : Request
  /-- `wasio_notify_send` -/
  | notifySend (vfd : ℕ) : Request
  /-- `wasio_poll` -/
  | poll (timeout : ℤ) : Request
  /-- `wasio_close` -/
  | close (vfd : ℕ) : Request

/-- The operation on the table, once the host has answered. -/
def Request.op (host : HostAnswer) (revents : ℕ → BitVec 16) : Request → Op
  | .listen port backlog => .listen port backlog host
  | .wrap fd => .wrap fd.toInt
  | .accept vfd => .accept vfd host
  | .recv vfd _ len => .recv vfd len host
  | .send vfd _ len => .send vfd len host
  | .notifyRecv vfd => .notifyRecv vfd
  | .notifySend vfd => .notifySend vfd
  | .poll timeout => .poll timeout revents host
  | .close vfd => .close vfd host

/-- The host call that it makes. -/
def Request.call (wfd : WasioPollfd) : Request → Option HostCall
  | .listen port backlog => some (.listen port backlog)
  | .accept vfd => some (.accept (wfd.fds vfd))
  | .recv vfd _ len => some (.recv (wfd.fds vfd) len)
  | .send vfd _ len => some (.send (wfd.fds vfd) len)
  | .poll timeout => some (.poll wfd.capacity timeout)
  | .close vfd => some (.close (wfd.vfds vfd).fd)
  | .wrap _ | .notifyRecv _ | .notifySend _ => none

/-- The virtual descriptor it names. -/
def Request.vfd : Request → Option ℕ
  | .accept vfd | .recv vfd _ _ | .send vfd _ _ | .notifyRecv vfd | .notifySend vfd
  | .close vfd => some vfd
  | .listen _ _ | .wrap _ | .poll _ => none

/-- The address of its buffer. -/
def Request.buf : Request → BitVec 32
  | .recv _ buf _ | .send _ buf _ => buf
  | .listen _ _ | .wrap _ | .accept _ | .notifyRecv _ | .notifySend _ | .poll _ | .close _ => 0

/-- **The guest**: its table, and its linear memory. -/
structure Guest where
  /-- The table. -/
  wfd : WasioPollfd
  /-- The linear memory. -/
  memory : Memory

/-- The poll array of the table is in memory. -/
def Guest.Stores (lay : Layout) (s : Guest) : Prop :=
  ∀ k < lay.capacity, lay.entry s.memory k = s.wfd.vfds k

theorem stores_iff (lay : Layout) (s : Guest) : s.Stores lay ↔ ∀ k < lay.capacity,
    (lay.entry s.memory k).fd = (s.wfd.vfds k).fd ∧
    (lay.entry s.memory k).events = (s.wfd.vfds k).events ∧
    (lay.entry s.memory k).revents = (s.wfd.vfds k).revents := by
  refine forall₂_congr fun k _ => ⟨fun h => by rw [h]; exact ⟨rfl, rfl, rfl⟩, ?_⟩
  rintro ⟨hfd, hevents, hrevents⟩
  cases he : s.wfd.vfds k
  rw [he] at hfd hevents hrevents
  subst hfd hevents hrevents
  rfl

instance (lay : Layout) (s : Guest) : Decidable (s.Stores lay) :=
  decidable_of_iff _ (stores_iff lay s).symm

/-- The poll array, as it is in memory. -/
def array (lay : Layout) (mem : Memory) (vfds : ℕ → Pollfd) : ℕ → Pollfd :=
  fun k => if k < lay.capacity then lay.entry mem k else vfds k

/-- What the binding of a host call comes to. -/
def Guest.invoke (lay : Layout) (sys : Sys) (errno : BitVec 32) (s : Guest) (r : Request)
    (c : HostCall) : Outcome :=
  (invocation lay r.buf c).run sys (lay.caller s.memory) errno

/-- **A request is performed** on the driver, with the system calls as they answer now and
`errno` as it is before; no result where the binding does not return an `i32`, or an assertion
of the table fails. -/
def Guest.perform (lay : Layout) (sys : Sys) (errno : BitVec 32) (s : Guest) (r : Request) :
    Option (Reply × WasioPollfd) :=
  match r.call s.wfd with
  | none => WasioHost.perform s.wfd (r.op ⟨0, 0⟩ fun _ => 0)
  | some c =>
    let out := s.invoke lay sys errno r c
    match out.ending with
    | .returned (.i32 ret) =>
      let vfds := array lay out.state.memory s.wfd.vfds
      WasioHost.perform { s.wfd with vfds := vfds }
        (r.op ⟨ret.toInt, lay.errnoAt out.state.memory⟩ fun k => (vfds k).revents)
    | _ => none

/-- **What the client and the system may do**: name a virtual descriptor of the table, wrap a
descriptor that is not negative, hand over a buffer that is apart from what the guest shares
with the host; and closing the descriptor `-1` fails. -/
structure Admissible (lay : Layout) (sys : Sys) (r : Request) : Prop where
  vfd_lt : ∀ v, r.vfd = some v → v < lay.capacity
  wrap_nonneg : ∀ fd, r = .wrap fd → 0 ≤ fd.toInt
  recv_buffer : ∀ v buf len, r = .recv v buf len →
    lay.Buffer ⟨buf.toNat, (HostDriver.uint32 len).toNat⟩
  send_buffer : ∀ v buf len, r = .send v buf len →
    lay.Buffer ⟨buf.toNat, (HostDriver.uint32 len).toNat⟩
  close_fails : (sys.close (HostDriver.int32 (-1))).ret ≠ 0

/-- A request that was performed. -/
structure Label where
  /-- The request. -/
  request : Request
  /-- The system calls, as they answered. -/
  sys : Sys
  /-- `errno` before. -/
  errno : BitVec 32
  /-- What the client was answered. -/
  reply : Reply

/-- **A step of the guest**. Whatever else is stored in its memory, its array is. -/
def Tr (lay : Layout) (s : Guest) (a : Label) (t : Guest) : Prop :=
  Admissible lay a.sys a.request ∧
    s.perform lay a.sys a.errno a.request = some (a.reply, t.wfd) ∧ t.Stores lay

/-- **The table is answered by the system**: the operation is the one requested, with the
value that the system call has returned, its `errno` where it has failed, and the `revents`
that `poll` has reported. -/
def Answered (a : Label) (b : Op × Reply) : Prop :=
  b.2 = a.reply ∧ ∃ host revents, b.1 = a.request.op host revents ∧
    ∀ c, a.reply.call = some c →
      host.ret = (a.sys.passed c).ret.toInt ∧
      (host.ret < 0 → host.errno = (a.sys.passed c).errno.toInt) ∧
      ∀ len timeout, c = .poll len timeout →
        ∀ k x, (a.sys.reported len timeout)[k]? = some x → revents k = x

/-- The `revents` of the array after a host call: what `poll` has reported of an entry is new. -/
def reventsAfter (sys : Sys) (vfds : ℕ → Pollfd) : HostCall → ℕ → BitVec 16
  | .poll len timeout, k => (sys.reported len timeout).getD k (vfds k).revents
  | .listen _ _, k | .accept _, k | .recv _ _, k | .send _ _, k | .close _, k => (vfds k).revents

/-- **What the binding of a call leaves in memory.** It has touched nothing outside of it and
changed nothing in it but `host_errno` and the bytes it was asked to write: after `poll` the
array has the `revents` that were reported, and is as it was else, and after `recv` the buffer
has the bytes that were received. -/
structure Leaves (lay : Layout) (sys : Sys) (s : Guest) (r : Request) (c : HostCall)
    (st : HostDriver.State) : Prop where
  within : st.Within (lay.caller s.memory)
  frame : ∀ a, a ∉ cell lay.hostErrno → ¬(HostDriver.invocation lay r.buf c).Data a →
    st.memory a = s.memory a
  array_eq : ∀ k < lay.capacity, lay.entry st.memory k =
    { s.wfd.vfds k with revents := reventsAfter sys s.wfd.vfds c k }
  received : ∀ fd len, c = .recv fd len → Bytes.Holds st.memory r.buf.toNat (sys.received fd len)

variable {lay : Layout} {sys : Sys} {errno : BitVec 32} {s t : Guest} {r : Request}
  {O : Finset ℕ} {c : HostCall} {reply : Reply} {wfd wfd' : WasioPollfd}

/-! ### The call -/

/-- The table makes the call of the request. -/
theorem call_of_perform {host : HostAnswer} {revents : ℕ → BitVec 16}
    (h : WasioHost.perform wfd (r.op host revents) = some (reply, wfd')) :
    reply.call = r.call wfd := by
  cases r with
  | listen port backlog =>
    simp only [Request.op, WasioHost.perform, wasioListen, Option.some.injEq] at h
    split_ifs at h <;> obtain ⟨rfl, -⟩ := Prod.mk.inj h <;> rfl
  | wrap | notifyRecv | notifySend =>
    obtain ⟨rfl, -⟩ := Prod.mk.inj (Option.some.inj h)
    rfl
  | accept vfd =>
    simp only [Request.op, WasioHost.perform, wasioAccept, Option.some.injEq] at h
    split at h
    · obtain ⟨rfl, -⟩ := Prod.mk.inj h
      rfl
    · split at h <;> obtain ⟨rfl, -⟩ := Prod.mk.inj h <;> rfl
  | recv vfd buf len =>
    simp only [Request.op, WasioHost.perform, wasioRecv, Option.some.injEq] at h
    split_ifs at h <;> obtain ⟨rfl, -⟩ := Prod.mk.inj h <;> rfl
  | send vfd buf len =>
    simp only [Request.op, WasioHost.perform, wasioSend, Option.some.injEq] at h
    split_ifs at h <;> obtain ⟨rfl, -⟩ := Prod.mk.inj h <;> rfl
  | poll timeout =>
    simp only [Request.op, WasioHost.perform, wasioPoll, Option.some.injEq] at h
    split_ifs at h <;> obtain ⟨rfl, -⟩ := Prod.mk.inj h <;> rfl
  | close vfd =>
    simp only [Request.op, WasioHost.perform, wasioClose] at h
    split_ifs at h
    · obtain ⟨rfl, -⟩ := Prod.mk.inj (Option.some.inj h)
      rfl
    · split at h
      · obtain ⟨rfl, -⟩ := Prod.mk.inj (Option.some.inj h)
        rfl
      · cases h

/-- What is handed to a system call lies inside the linear memory. -/
theorem inside_handed (hlay : lay.Proper) (hadm : Admissible lay sys r)
    (hcap : wfd.capacity = lay.capacity) (hc : r.call wfd = some c) :
    (HostDriver.handed lay r.buf c).Inside lay.size := by
  have hnone : (Range.mk 0 0).Inside lay.size := Range.inside_iff.mpr (Or.inl rfl)
  cases r with
  | listen | accept | close =>
    obtain rfl := Option.some.inj hc
    exact hnone
  | wrap | notifyRecv | notifySend => cases hc
  | recv v buf len =>
    obtain rfl := Option.some.inj hc
    exact (hadm.recv_buffer v buf len rfl).inside
  | send v buf len =>
    obtain rfl := Option.some.inj hc
    exact (hadm.send_buffer v buf len rfl).inside
  | poll timeout =>
    obtain rfl := Option.some.inj hc
    have hlen : (HostDriver.uint32 wfd.capacity).toNat = lay.capacity := by
      rw [HostDriver.uint32, BitVec.toNat_ofNat, hcap, Nat.mod_eq_of_lt hlay.capacity_lt]
    rw [HostDriver.handed, hlen]
    exact hlay.array_inside

theorem delivers_invoke (errno : BitVec 32) (hlay : lay.Proper) (hadm : Admissible lay sys r)
    (hcap : s.wfd.capacity = lay.capacity) (hc : r.call s.wfd = some c) :
    (s.invoke lay sys errno r c).Delivers (lay.caller s.memory)
      (sys.written lay r.buf s.memory c) lay.hostErrno (sys.passed c) :=
  HostDriver.delivers hlay.errno_inside errno c (inside_handed hlay hadm hcap hc)

theorem length_reported_le (sys : Sys) (len : ℕ) (timeout : ℤ) :
    (sys.reported len timeout).length ≤ len := by
  have hle := List.length_take_le
    (min (sys.poll (HostDriver.uint32 len).toNat (HostDriver.int32 timeout)).read
      (HostDriver.uint32 len).toNat)
    (sys.poll (HostDriver.uint32 len).toNat (HostDriver.int32 timeout)).revents
  have hmod : (HostDriver.uint32 len).toNat ≤ len := Nat.mod_le _ _
  rw [Sys.reported]
  omega

theorem length_eq_of_call {len : ℕ} {timeout : ℤ} (hc : r.call wfd = some (.poll len timeout)) :
    wfd.capacity = len := by
  cases r with
  | poll => exact (HostCall.poll.inj (Option.some.inj hc)).1
  | wrap | notifyRecv | notifySend => cases hc
  | listen | accept | recv | send | close => cases Option.some.inj hc

/-! ### The array after a call -/

/-- An entry lies in the array. -/
theorem mem_array {k : ℕ} (hk : k < lay.capacity) {a : ℤ}
    (ha : a ∈ Range.mk (lay.vfds.toNat + HostDriver.pollfdSize * k) HostDriver.pollfdSize) :
    a ∈ lay.array := by
  obtain ⟨hfirst, hlast⟩ := ha
  simp only [HostDriver.pollfdSize] at hfirst hlast
  refine ⟨?_, ?_⟩ <;> simp only [Layout.array, HostDriver.pollfdSize] <;> omega

/-- **The array after a call** has the new `revents`, and is as it was else. -/
theorem entry_after (hlay : lay.Proper) (hadm : Admissible lay sys r) (hs : s.Stores lay)
    (hc : r.call s.wfd = some c) {mem' : Memory}
    (h : ∀ a ∉ cell lay.hostErrno, mem' a = sys.written lay r.buf s.memory c a) {k : ℕ}
    (hk : k < lay.capacity) :
    lay.entry mem' k = { s.wfd.vfds k with revents := reventsAfter sys s.wfd.vfds c k } := by
  have hentry : HostDriver.pollfdAt s.memory (lay.vfds.toNat + HostDriver.pollfdSize * k) =
      s.wfd.vfds k := hs k hk
  have hwritten : lay.entry mem' k = lay.entry (sys.written lay r.buf s.memory c) k :=
    HostDriver.pollfdAt_congr fun a ha => h a fun hcell => hlay.apart a hcell (mem_array hk ha)
  rw [hwritten]
  cases c with
  | poll len timeout =>
    rw [Layout.entry, Sys.written, HostDriver.pollfdAt_writeRevents, hentry]
    rfl
  | listen | accept | send | close => exact hentry
  | recv fd len =>
    -- the buffer is apart from the array
    cases r with
    | recv v buf len' =>
      obtain ⟨-, rfl⟩ := HostCall.recv.inj (Option.some.inj hc)
      refine Eq.trans (HostDriver.pollfdAt_congr fun a ha => ?_) hentry
      exact HostDriver.written_of_not_data
        ((hadm.recv_buffer v buf len' rfl).apart_array a (mem_array hk ha))
    | wrap | notifyRecv | notifySend => cases hc
    | listen | accept | send | poll | close => cases Option.some.inj hc

/-- Only a poll reports anything. -/
theorem reventsAfter_of_call (hc : r.call wfd = some c) (hpoll : ∀ timeout, r ≠ .poll timeout)
    (vfds : ℕ → Pollfd) (k : ℕ) : reventsAfter sys vfds c k = (vfds k).revents := by
  cases r with
  | poll timeout => exact absurd rfl (hpoll timeout)
  | wrap | notifyRecv | notifySend => cases hc
  | listen | accept | recv | send | close =>
    obtain rfl := Option.some.inj hc
    rfl

/-- The table goes on with its array, and with what was reported. -/
theorem array_after (hlay : lay.Proper) (hadm : Admissible lay sys r) (hs : s.Stores lay)
    (hc : r.call s.wfd = some c) {mem' : Memory}
    (h : ∀ a ∉ cell lay.hostErrno, mem' a = sys.written lay r.buf s.memory c a) (k : ℕ) :
    array lay mem' s.wfd.vfds k = { s.wfd.vfds k with
      revents := (array lay mem' s.wfd.vfds k).revents } := by
  rw [array]
  split_ifs with hk
  · rw [entry_after hlay hadm hs hc h hk]
  · rfl

/-! ### The table is answered -/

/-- `wasio_poll` overwrites the `revents` of the array. -/
theorem perform_poll_congr {vfds : ℕ → Pollfd} {timeout : ℤ} {revents : ℕ → BitVec 16}
    {host : HostAnswer} (h : ∀ k, vfds k = { wfd.vfds k with revents := revents k }) :
    WasioHost.perform { wfd with vfds := vfds } (.poll timeout revents host) =
      WasioHost.perform wfd (.poll timeout revents host) := by
  have hvfds : (fun k => { vfds k with revents := revents k }) =
      fun k => { wfd.vfds k with revents := revents k } := by
    funext k
    rw [h k]
  simp only [WasioHost.perform, wasioPoll, hvfds]

/-- **A request with a host call** is the operation on the table with the answer of the
system. -/
theorem perform_eq (errno : BitVec 32) (hlay : lay.Proper) (hadm : Admissible lay sys r)
    (hcap : s.wfd.capacity = lay.capacity) (hs : s.Stores lay) (hc : r.call s.wfd = some c) :
    ∃ host revents,
      s.perform lay sys errno r = WasioHost.perform s.wfd (r.op host revents) ∧
      host.ret = (sys.passed c).ret.toInt ∧
      (host.ret < 0 → host.errno = (sys.passed c).errno.toInt) ∧
      ∀ k < lay.capacity, revents k = reventsAfter sys s.wfd.vfds c k := by
  have hdel := delivers_invoke errno hlay hadm hcap hc
  obtain ⟨out, hout⟩ : ∃ out, s.invoke lay sys errno r c = out := ⟨_, rfl⟩
  rw [hout] at hdel
  have harray := array_after hlay hadm hs hc hdel.frame
  refine ⟨⟨(sys.passed c).ret.toInt, lay.errnoAt out.state.memory⟩,
    fun k => (array lay out.state.memory s.wfd.vfds k).revents, ?_, rfl, fun hneg => ?_,
    fun k hk => ?_⟩
  · simp only [Guest.perform, hc, hout, hdel.returned]
    by_cases hpoll : ∃ timeout, r = .poll timeout
    · obtain ⟨timeout, rfl⟩ := hpoll
      exact perform_poll_congr harray
    · have hkeeps : array lay out.state.memory s.wfd.vfds = s.wfd.vfds := by
        funext k
        rw [array]
        split_ifs with hk
        · rw [entry_after hlay hadm hs hc hdel.frame hk]
          rw [reventsAfter_of_call hc fun timeout heq => hpoll ⟨timeout, heq⟩]
        · rfl
      rw [hkeeps]
  · rw [Layout.errnoAt, (hdel.errno hneg).load_eq (by decide)]
  · dsimp only
    rw [array, if_pos hk, entry_after hlay hadm hs hc hdel.frame hk]

/-- A request without a host call. -/
theorem perform_eq_of_none (hc : r.call s.wfd = none) :
    s.perform lay sys errno r = WasioHost.perform s.wfd (r.op ⟨0, 0⟩ fun _ => 0) := by
  simp only [Guest.perform, hc]

/-- The operation is one that the client and the host may do. -/
theorem admissible_op (hadm : Admissible lay sys r) (hcap : wfd.capacity = lay.capacity)
    {host : HostAnswer} (hret : ∀ c, r.call wfd = some c → host.ret = (sys.passed c).ret.toInt)
    (revents : ℕ → BitVec 16) : WasioHost.Admissible wfd (r.op host revents) := by
  have hvfd : (r.op host revents).vfd = r.vfd := by cases r <;> rfl
  refine ⟨fun v hv => ?_, fun fd hop => ?_, fun v host' hop hfd => ?_⟩
  · rw [hcap]
    exact hadm.vfd_lt v (hvfd ▸ hv)
  · cases r with
    | wrap fd' =>
      obtain rfl := Op.wrap.inj hop
      exact hadm.wrap_nonneg fd' rfl
    | _ => cases hop
  · cases r with
    | close v' =>
      obtain ⟨rfl, rfl⟩ := Op.close.inj hop
      rw [hret _ rfl, Sys.passed, hfd]
      intro hzero
      exact hadm.close_fails (BitVec.eq_of_toInt_eq hzero)
    | _ => cases hop

/-- **A step of the guest** is one of the table, which is answered by the system. -/
theorem Tr.refines (hlay : lay.Proper) {a : Label} (hcap : s.wfd.capacity = lay.capacity)
    (hs : s.Stores lay) (h : Tr lay s a t) :
    ∃ b, Answered a b ∧ WasioHost.Tr s.wfd b t.wfd := by
  obtain ⟨hadm, hper, -⟩ := h
  cases hc : a.request.call s.wfd with
  | none =>
    rw [perform_eq_of_none hc] at hper
    have hnone : ∀ c, a.request.call s.wfd ≠ some c := fun c => by
      rw [hc]
      rintro ⟨⟩
    refine ⟨(_, a.reply), ⟨rfl, _, _, rfl, fun c hcall => ?_⟩, ?_, hper⟩
    · exact absurd ((call_of_perform hper).symm.trans hcall) (hnone c)
    · exact admissible_op hadm hcap (fun c hcall => absurd hcall (hnone c)) _
  | some c =>
    obtain ⟨host, revents, heq, hret, herrno, hrevents⟩ :=
      perform_eq a.errno hlay hadm hcap hs hc
    rw [heq] at hper
    have hcall := (call_of_perform hper).trans hc
    refine ⟨(_, a.reply), ⟨rfl, host, revents, rfl, fun c' hc' => ?_⟩, ?_, hper⟩
    · obtain rfl := Option.some.inj (hcall.symm.trans hc')
      refine ⟨hret, herrno, ?_⟩
      rintro len timeout rfl k x hx
      have hk : k < lay.capacity := by
        obtain ⟨hlt, -⟩ := List.getElem?_eq_some_iff.mp hx
        have hle := length_reported_le a.sys len timeout
        have hlen := length_eq_of_call hc
        omega
      rw [hrevents k hk, reventsAfter, List.getD_eq_getElem?_getD, hx, Option.getD_some]
    · refine admissible_op hadm hcap (fun c' hc' => ?_) _
      obtain rfl := Option.some.inj (hc.symm.trans hc')
      exact hret

/-- The driver answers every request. -/
theorem perform_ne_none (hlay : lay.Proper) (hadm : Admissible lay sys r)
    (hO : TableInv lay.capacity O s.wfd) (hs : s.Stores lay) :
    s.perform lay sys errno r ≠ none := by
  cases hc : r.call s.wfd with
  | none =>
    rw [perform_eq_of_none hc]
    refine hO.perform_ne_none (admissible_op hadm hO.capacity_eq (fun c hcall => ?_) _)
    rw [hc] at hcall
    cases hcall
  | some c =>
    obtain ⟨host, revents, heq, hret, -⟩ :=
      perform_eq errno hlay hadm hO.capacity_eq hs hc
    rw [heq]
    refine hO.perform_ne_none (admissible_op hadm hO.capacity_eq (fun c' hc' => ?_) _)
    obtain rfl := Option.some.inj (hc.symm.trans hc')
    exact hret

/-- **After a poll** the table has the `revents` that were reported, and is as it was else. -/
theorem vfds_of_poll (hlay : lay.Proper) {timeout : ℤ}
    (hadm : Admissible lay sys (.poll timeout)) (hcap : s.wfd.capacity = lay.capacity)
    (hs : s.Stores lay)
    (h : s.perform lay sys errno (.poll timeout) = some (reply, wfd')) {k : ℕ}
    (hk : k < lay.capacity) :
    wfd'.vfds k = { s.wfd.vfds k with
      revents := (sys.reported lay.capacity timeout).getD k (s.wfd.vfds k).revents } := by
  obtain ⟨host, revents, heq, -, -, hrevents⟩ := perform_eq errno hlay hadm hcap hs rfl
  rw [heq] at h
  have hvfds : wfd'.vfds k = { s.wfd.vfds k with revents := revents k } := by
    simp only [Request.op, WasioHost.perform, wasioPoll, Option.some.injEq] at h
    split_ifs at h <;> obtain ⟨-, rfl⟩ := Prod.mk.inj h <;> rfl
  rw [hvfds, hrevents k hk, reventsAfter, hcap]

/-- **What is received is in the buffer.** -/
theorem holds_received (hlay : lay.Proper) (hcap : s.wfd.capacity = lay.capacity) {v : ℕ}
    {buf : BitVec 32} {len : ℕ} (hadm : Admissible lay sys (.recv v buf len)) :
    Bytes.Holds (s.invoke lay sys errno (.recv v buf len)
      (.recv (s.wfd.fds v) len)).state.memory buf.toNat (sys.received (s.wfd.fds v) len) := by
  have hdel := delivers_invoke errno hlay hadm hcap rfl
  have hwritten := Bytes.holds_write s.memory buf.toNat (sys.received (s.wfd.fds v) len)
  intro k b hb
  rw [hdel.frame]
  · exact hwritten k b hb
  · intro hcell
    refine (hadm.recv_buffer v buf len rfl).apart_errno _ hcell ?_
    have hk := (List.getElem?_eq_some_iff.mp hb).1
    have hlen := List.length_take_le (HostDriver.uint32 len).toNat
      (sys.recv (HostDriver.int32 (s.wfd.fds v)) (HostDriver.uint32 len).toNat).data
    rw [Sys.received] at hk
    exact ⟨by dsimp only; omega, by dsimp only; omega⟩

/-- **The memory after a binding.** -/
theorem leaves (errno : BitVec 32) (hlay : lay.Proper) (hadm : Admissible lay sys r)
    (hcap : s.wfd.capacity = lay.capacity) (hs : s.Stores lay) (hc : r.call s.wfd = some c) :
    Leaves lay sys s r c (s.invoke lay sys errno r c).state := by
  have hdel := delivers_invoke errno hlay hadm hcap hc
  refine ⟨hdel.within, fun a hcell hdata => ?_, fun k hk => ?_, fun fd len h => ?_⟩
  · rw [hdel.frame a hcell]
    exact HostDriver.written_of_not_data hdata
  · exact entry_after hlay hadm hs hc hdel.frame hk
  · subst h
    cases r with
    | recv v buf len' =>
      obtain ⟨rfl, rfl⟩ := HostCall.recv.inj (Option.some.inj hc)
      exact holds_received hlay hcap hadm
    | wrap | notifyRecv | notifySend => cases hc
    | listen | accept | send | poll | close => cases Option.some.inj hc

/-! ### A guest with one page -/

/-- A layout in one page of memory. -/
def onePage : Layout := { size := 65536, hostErrno := 1024, vfds := 2048, capacity := 32 }

theorem proper_onePage : onePage.Proper where
  capacity_lt := by decide
  errno_inside := by decide
  array_inside := by decide
  apart _ := Range.notMem_of_le (by decide)

/-- A memory in which there is nothing but a poll array. -/
def arrayOnly (lay : Layout) (vfds : ℕ → Pollfd) : Memory := fun a =>
  let i := (a - lay.vfds.toNat).toNat
  let entry := vfds (i / HostDriver.pollfdSize)
  (Bytes.littleEndian 4 (HostDriver.int32 entry.fd) ++ Bytes.littleEndian 2 entry.events ++
    Bytes.littleEndian 2 entry.revents).getD (i % HostDriver.pollfdSize) 0

/-- A host that opens the socket 3, has a connection on the descriptor 5 and nothing to be
received. -/
def oneClient : Sys where
  socket := ⟨3, 0⟩
  setsockopt _ := ⟨0, 0⟩
  bind _ _ := ⟨0, 0⟩
  listen _ _ := ⟨0, 0⟩
  accept _ := ⟨5, 0⟩
  connect _ _ := ⟨-1, 111⟩
  getfl _ := ⟨2, 0⟩
  setfl _ _ := ⟨0, 0⟩
  recv _ _ := ⟨⟨-1, 11⟩, []⟩
  send _ _ := ⟨⟨-1, 11⟩, 0⟩
  close fd := if fd = -1 then ⟨-1, 9⟩ else ⟨0, 0⟩
  poll _ _ := ⟨⟨1, 0⟩, 32, [POLLIN]⟩
  inetAddr _ := (0, 1)

/-- The requests are performed one after the other, each with the poll array after it, which is
then all there is in memory. -/
def performAll (lay : Layout) (sys : Sys) (s : Guest) :
    List (Request × (ℕ → Pollfd)) → Option (List Label × Guest)
  | [] => some ([], s)
  | (r, vfds) :: rs => do
    let (reply, wfd) ← s.perform lay sys 0 r
    let t : Guest := ⟨wfd, arrayOnly lay vfds⟩
    if t.Stores lay then
      let (l, u) ← performAll lay sys t rs
      pure (⟨r, sys, 0, reply⟩ :: l, u)
    else none

theorem steps_of_performAll {rs : List (Request × (ℕ → Pollfd))} {l : List Label}
    (hadm : ∀ r ∈ rs, Admissible lay sys r.1) (h : performAll lay sys s rs = some (l, t)) :
    Lts.Steps (Tr lay) s l t := by
  induction rs generalizing s l with
  | nil =>
    obtain ⟨rfl, rfl⟩ := Prod.mk.inj (Option.some.inj h)
    exact .nil _
  | cons r rs ih =>
    rw [performAll] at h
    obtain ⟨⟨reply, wfd⟩, hper, h⟩ := Option.bind_eq_some_iff.mp h
    dsimp only at h
    split_ifs at h with hstores
    obtain ⟨⟨l', u⟩, hrest, h⟩ := Option.bind_eq_some_iff.mp h
    obtain ⟨rfl, rfl⟩ := Prod.mk.inj (Option.some.inj h)
    obtain ⟨hr, hrs⟩ := List.forall_mem_cons.mp hadm
    exact .cons ⟨hr, hper, hstores⟩ (ih hrs hrest)

/-- The slots that are bound, with what has been reported of the first. -/
def slots (fds : List ℤ) (revents : BitVec 16) : ℕ → Pollfd := fun k =>
  { fd := fds.getD k (-1), events := 0, revents := if k = 0 then revents else 0 }

/-- A client listens, polls and accepts a connection, and asks for what there is to be
received. -/
def acceptOne : List (Request × (ℕ → Pollfd)) :=
  [(.listen 8080 1000, slots [3] 0), (.poll 0, slots [3] POLLIN), (.accept 0, slots [3, 5] POLLIN),
    (.recv 1 4096 512, slots [3, 5] POLLIN)]

theorem admissible_acceptOne : ∀ r ∈ acceptOne, Admissible onePage oneClient r.1 := by
  have hbuf : onePage.Buffer ⟨(4096 : BitVec 32).toNat, (HostDriver.uint32 512).toNat⟩ :=
    ⟨by decide, fun _ => Range.notMem_of_le (by decide), fun _ => Range.notMem_of_le (by decide)⟩
  have hclose : (oneClient.close (HostDriver.int32 (-1))).ret ≠ 0 := by decide
  have hplain : ∀ r : Request, (∀ v, r.vfd = some v → v < 32) → (∀ fd, r ≠ .wrap fd) →
      (∀ v buf len, r = .recv v buf len → buf = 4096 ∧ len = 512) →
      (∀ v buf len, r ≠ .send v buf len) → Admissible onePage oneClient r := by
    intro r hvfd hwrap hrecv hsend
    refine ⟨hvfd, fun fd h => absurd h (hwrap fd), fun v buf len h => ?_,
      fun v buf len h => absurd h (hsend v buf len), hclose⟩
    obtain ⟨rfl, rfl⟩ := hrecv v buf len h
    exact hbuf
  simp only [acceptOne, List.forall_mem_cons, List.not_mem_nil, false_imp_iff, implies_true,
    and_true]
  refine ⟨hplain _ ?_ ?_ ?_ ?_, hplain _ ?_ ?_ ?_ ?_, hplain _ ?_ ?_ ?_ ?_,
    hplain _ ?_ ?_ ?_ ?_⟩ <;> simp [Request.vfd]

end Linked

open Linked

/-- **The guest on the driver is the table on the system.** Every run of the guest is one of
the table in which the answers of the host are those of the system calls. In every state it
reaches, each request is answered – no binding traps or takes the host down, and no assertion
of the table fails – and the binding leaves the memory as it was, but for `host_errno`, the
`revents` that were reported, and the bytes that were received. The table has those `revents`
after a poll, and each that was not reported as it was. -/
theorem linked_refines (lay : HostDriver.Layout) (hlay : lay.Proper) (hcap : lay.capacity % 32 = 0)
    (s₀ : WasioPollfd) (hinit : wasioInit lay.capacity true = (.ok, some s₀))
    (mem : Bytes.Memory) (hmem : (⟨s₀, mem⟩ : Guest).Stores lay) (l : List Label) (s : Guest)
    (h : Lts.Steps (Tr lay) ⟨s₀, mem⟩ l s) :
    (∃ m, List.Forall₂ Answered l m ∧ WasioHost.Run lay.capacity m s.wfd) ∧
    ∀ sys errno r, Admissible lay sys r → s.perform lay sys errno r ≠ none ∧
      (∀ c, r.call s.wfd = some c → Leaves lay sys s r c (s.invoke lay sys errno r c).state) ∧
      ∀ timeout, r = .poll timeout → ∀ reply wfd',
        s.perform lay sys errno r = some (reply, wfd') → ∀ k < lay.capacity,
          wfd'.vfds k = { s.wfd.vfds k with
            revents := (sys.reported lay.capacity timeout).getD k (s.wfd.vfds k).revents } := by
  have href : Lts.Refinement
      (fun (s : Guest) x => s.wfd = x ∧ s.Stores lay ∧ ∃ O, WasioHost.TableInv lay.capacity O x)
      Answered (Tr lay) WasioHost.Tr := by
    rintro s x a t ⟨rfl, hs, O, hO⟩ htr
    obtain ⟨b, hb, htr'⟩ := htr.refines hlay hO.capacity_eq hs
    exact ⟨b, t.wfd, hb, htr', rfl, htr.2.2, hO.step hcap htr'⟩
  obtain ⟨m, x, hm, hx, rfl, hs, O, hO⟩ := href.steps h
    ⟨rfl, hmem, ∅, WasioHost.tableInv_init hlay.capacity_lt hinit⟩
  refine ⟨⟨m, hm, s₀, hinit, hx⟩, fun sys errno r hadm => ⟨?_, fun c hc => ?_, ?_⟩⟩
  · exact perform_ne_none hlay hadm hO hs
  · exact leaves errno hlay hadm hO.capacity_eq hs hc
  · rintro timeout rfl reply wfd' hper k hk
    exact vfds_of_poll hlay hadm hO.capacity_eq hs hper hk

/-- A connection is accepted on the driver on which there is nothing to be received yet:
`EAGAIN` comes through. -/
theorem linked_refines_acceptOne :
    ∃ s₀ l s, Lts.Steps (Tr onePage) ⟨s₀, arrayOnly onePage (slots [] 0)⟩ l s ∧
      l.map (fun a => a.reply.result) = [.ok, .ok, .ok, .eagain] ∧
      ∃ m, WasioHost.Run 32 m s.wfd := by
  obtain ⟨s₀, hinit, hmem, p, hp, hreplies⟩ : ∃ s₀, wasioInit 32 true = (.ok, some s₀) ∧
      (⟨s₀, arrayOnly onePage (slots [] 0)⟩ : Guest).Stores onePage ∧
      ∃ p ∈ performAll onePage oneClient ⟨s₀, arrayOnly onePage (slots [] 0)⟩ acceptOne,
        p.1.map (fun a => a.reply.result) = [.ok, .ok, .ok, .eagain] := by
    refine ⟨_, rfl, ?_, ?_⟩ <;> decide +kernel
  have hrun := steps_of_performAll admissible_acceptOne hp
  obtain ⟨⟨m, -, hm⟩, -⟩ := linked_refines onePage proper_onePage (by decide) s₀ hinit _ hmem
    p.1 p.2 hrun
  exact ⟨s₀, p.1, p.2, hrun, hreplies, m, hm⟩

end Waeio
