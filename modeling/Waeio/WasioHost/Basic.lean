import Mathlib.Logic.Function.Basic
import Waeio.Freelist.Basic
import Waeio.Host
import Waeio.Lib.Uint32

/-!
# The virtual-descriptor table over the host

`src/wasio_host.c`: a table of `capacity` slots, each bound to a host descriptor
or free. A slot's number is the virtual descriptor of the client. The binding is
kept three times over – in the array `fds`, in the `fd` fields of the poll array
`vfds`, and as a taken entry of the freelist – and counted in `length`.

Every operation is a function of the table, its arguments and the answer of the
one host call it makes; it returns a `Waeio.WasioHost.Reply` and the table
afterwards. `wasio_close` asserts that the freelist takes the slot back, and has
no result where the assertion fails.

`Waeio.WasioHost.Tr` is the table as its clients see it: any operation on a
virtual descriptor below the capacity, with any answers of the host.
-/

namespace Waeio

/-- `struct wasio_pollfd`, with the two variables `pollin` and `pollout` of the
file, which are set together with it. -/
structure WasioPollfd where
  /-- The number of slots. -/
  capacity : ℕ
  /-- The number of bound slots, a `uint32_t`. -/
  length : ℕ
  /-- The freelist of the slots. -/
  fl : Freelist
  /-- The array handed to `host_poll`. -/
  vfds : ℕ → Pollfd
  /-- The host descriptors of the slots, `-1` for a free one. -/
  fds : ℕ → ℤ
  /-- The event bit of a read interest. -/
  pollin : BitVec 16
  /-- The event bit of a write interest. -/
  pollout : BitVec 16

namespace WasioHost

/-- What an operation answers: the host call it made, its result code, and what
it wrote through its out parameters. -/
structure Reply where
  /-- The host call made. -/
  call : Option HostCall
  /-- The result code. -/
  result : WasioResult
  /-- The virtual descriptor handed out. -/
  vfd : Option ℕ
  /-- The count handed out: bytes received or sent, or ready descriptors. -/
  count : Option ℕ

/-- The import `host_pollin` of the file names this function. -/
def importPollin : HostPollFn := .pollin

/-- The import `host_pollout` of the file names this function. -/
def importPollout : HostPollFn := .pollin

/-- The slot `i` of the poll array with another descriptor. -/
def setFd (vfds : ℕ → Pollfd) (i : ℕ) (fd : ℤ) : ℕ → Pollfd :=
  Function.update vfds i { vfds i with fd := fd }

/-- The slot `i` of the poll array with the event bit `b` added. -/
def addEvent (vfds : ℕ → Pollfd) (i : ℕ) (b : BitVec 16) : ℕ → Pollfd :=
  Function.update vfds i { vfds i with events := (vfds i).events ||| b }

end WasioHost

open WasioHost

/-- `wasio_init`; `malloc` says whether the freelist can be allocated. -/
def wasioInit (capacity : ℕ) (malloc : Bool) : WasioResult × Option WasioPollfd :=
  match freelistNew capacity malloc with
  | (.ok, some fl) =>
    (.ok, some
      { capacity := capacity
        length := 0
        fl := fl
        vfds := fun _ => { fd := -1, events := 0, revents := 0 }
        fds := fun _ => -1
        pollin := importPollin.result
        pollout := importPollout.result })
  | _ => (.efull, none)

/-- `wasio_wrap`: bind a free slot to an open host descriptor. -/
def wasioWrap (wfd : WasioPollfd) (preopenedFd : ℤ) :
    WasioResult × Option ℕ × WasioPollfd :=
  match freelistNext wfd.fl with
  | (.ok, some entry, fl) =>
    (.ok, some entry,
      { wfd with
        fl := fl
        vfds := setFd wfd.vfds entry preopenedFd
        fds := Function.update wfd.fds entry preopenedFd
        length := Uint32.succ wfd.length })
  | (_, _, fl) => (.efull, none, { wfd with fl := fl })

/-- `wasio_listen` -/
def wasioListen (wfd : WasioPollfd) (port backlog : ℤ) (host : HostAnswer) :
    Reply × WasioPollfd :=
  if host.ret < 0 then
    (⟨some (.listen port backlog), translateError host.errno, none, none⟩, wfd)
  else
    let (res, vfd, wfd) := wasioWrap wfd host.ret
    (⟨some (.listen port backlog), res, vfd, none⟩, wfd)

/-- `wasio_poll`: the host writes the `revents` of the poll array. -/
def wasioPoll (wfd : WasioPollfd) (timeout : ℤ) (revents : ℕ → BitVec 16) (host : HostAnswer) :
    Reply × WasioPollfd :=
  let wfd' := { wfd with vfds := fun i => { wfd.vfds i with revents := revents i } }
  if host.ret < 0 then
    (⟨some (.poll wfd.capacity timeout), translateError host.errno, none, none⟩, wfd')
  else (⟨some (.poll wfd.capacity timeout), .ok, none, some host.ret.toNat⟩, wfd')

/-- `wasio_accept`: accept a connection on the slot `vfd` and bind a slot to
it. -/
def wasioAccept (wfd : WasioPollfd) (vfd : ℕ) (host : HostAnswer) : Reply × WasioPollfd :=
  let fd := wfd.fds vfd
  if host.ret < 0 then
    (⟨some (.accept fd), translateError host.errno, none, none⟩, wfd)
  else
    match wasioWrap wfd host.ret with
    | (.ok, some newConnVfd, wfd) =>
      (⟨some (.accept fd), .ok, some newConnVfd, none⟩,
        { wfd with
          fds := Function.update wfd.fds newConnVfd host.ret
          vfds := setFd wfd.vfds newConnVfd host.ret })
    | (res, newConnVfd, wfd) => (⟨some (.accept fd), res, newConnVfd, none⟩, wfd)

/-- `wasio_recv` -/
def wasioRecv (wfd : WasioPollfd) (vfd len : ℕ) (host : HostAnswer) : Reply × WasioPollfd :=
  let fd := wfd.fds vfd
  if host.ret < 0 then (⟨some (.recv fd len), translateError host.errno, none, none⟩, wfd)
  else (⟨some (.recv fd len), .ok, none, some host.ret.toNat⟩, wfd)

/-- `wasio_send` -/
def wasioSend (wfd : WasioPollfd) (vfd len : ℕ) (host : HostAnswer) : Reply × WasioPollfd :=
  let fd := wfd.fds vfd
  if host.ret < 0 then (⟨some (.send fd len), translateError host.errno, none, none⟩, wfd)
  else (⟨some (.send fd len), .ok, none, some host.ret.toNat⟩, wfd)

/-- `wasio_close`; no result where the assertion on `freelist_reclaim` fails. -/
def wasioClose (wfd : WasioPollfd) (vfd : ℕ) (host : HostAnswer) : Option (Reply × WasioPollfd) :=
  let fd := (wfd.vfds vfd).fd
  if host.ret ≠ 0 then
    some (⟨some (.close fd), translateError host.errno, none, none⟩, wfd)
  else
    match freelistReclaim wfd.fl vfd with
    | (.ok, fl) =>
      some (⟨some (.close fd), .ok, none, none⟩,
        { wfd with
          vfds := Function.update wfd.vfds vfd { wfd.vfds vfd with fd := -1, revents := 0 }
          fds := Function.update wfd.fds vfd (-1)
          length := Uint32.pred wfd.length
          fl := fl })
    | _ => none

/-- `wasio_notify_recv` -/
def wasioNotifyRecv (wfd : WasioPollfd) (vfd : ℕ) : WasioResult × WasioPollfd :=
  (.ok, { wfd with vfds := addEvent (setFd wfd.vfds vfd (wfd.fds vfd)) vfd wfd.pollin })

/-- `wasio_notify_send` -/
def wasioNotifySend (wfd : WasioPollfd) (vfd : ℕ) : WasioResult × WasioPollfd :=
  (.ok, { wfd with vfds := addEvent (setFd wfd.vfds vfd (wfd.fds vfd)) vfd wfd.pollout })

namespace WasioHost

/-- The slot is bound and has an event. -/
def Ready (wfd : WasioPollfd) (v : ℕ) : Prop := (wfd.vfds v).fd ≠ -1 ∧ (wfd.vfds v).revents ≠ 0

instance (wfd : WasioPollfd) (v : ℕ) : Decidable (Ready wfd v) :=
  inferInstanceAs (Decidable (_ ∧ _))

/-! ### The table as its clients see it -/

/-- An operation on the table, with its arguments and the answer of its host
call. -/
inductive Op
  /-- `wasio_listen` -/
  | listen (port backlog : ℤ) (host : HostAnswer) : Op
  /-- `wasio_wrap` -/
  | wrap (fd : ℤ) : Op
  /-- `wasio_accept` -/
  | accept (vfd : ℕ) (host : HostAnswer) : Op
  /-- `wasio_recv` -/
  | recv (vfd len : ℕ) (host : HostAnswer) : Op
  /-- `wasio_send` -/
  | send (vfd len : ℕ) (host : HostAnswer) : Op
  /-- `wasio_notify_recv` -/
  | notifyRecv (vfd : ℕ) : Op
  /-- `wasio_notify_send` -/
  | notifySend (vfd : ℕ) : Op
  /-- `wasio_poll` -/
  | poll (timeout : ℤ) (revents : ℕ → BitVec 16) (host : HostAnswer) : Op
  /-- `wasio_close` -/
  | close (vfd : ℕ) (host : HostAnswer) : Op

/-- Perform an operation. -/
def perform (wfd : WasioPollfd) : Op → Option (Reply × WasioPollfd)
  | .listen port backlog host => some (wasioListen wfd port backlog host)
  | .wrap fd =>
    let (res, vfd, wfd) := wasioWrap wfd fd
    some (⟨none, res, vfd, none⟩, wfd)
  | .accept vfd host => some (wasioAccept wfd vfd host)
  | .recv vfd len host => some (wasioRecv wfd vfd len host)
  | .send vfd len host => some (wasioSend wfd vfd len host)
  | .notifyRecv vfd => some (⟨none, (wasioNotifyRecv wfd vfd).1, none, none⟩,
      (wasioNotifyRecv wfd vfd).2)
  | .notifySend vfd => some (⟨none, (wasioNotifySend wfd vfd).1, none, none⟩,
      (wasioNotifySend wfd vfd).2)
  | .poll timeout revents host => some (wasioPoll wfd timeout revents host)
  | .close vfd host => wasioClose wfd vfd host

/-- The virtual descriptor an operation names. -/
def Op.vfd : Op → Option ℕ
  | .accept vfd _ | .recv vfd _ _ | .send vfd _ _ | .notifyRecv vfd | .notifySend vfd
  | .close vfd _ => some vfd
  | .listen _ _ _ | .wrap _ | .poll _ _ _ => none

/-- **What a client and a host may do**: name a virtual descriptor below the
capacity, wrap a descriptor that is not negative; and closing the descriptor `-1`
fails. -/
structure Admissible (wfd : WasioPollfd) (op : Op) : Prop where
  vfd_lt : ∀ v, op.vfd = some v → v < wfd.capacity
  wrap_nonneg : ∀ fd, op = .wrap fd → 0 ≤ fd
  close_fails : ∀ v host, op = .close v host → (wfd.vfds v).fd = -1 → host.ret ≠ 0

/-- `Waeio.WasioHost.Admissible` as a test. -/
def admits (wfd : WasioPollfd) : Op → Bool
  | .listen _ _ _ | .poll _ _ _ => true
  | .wrap fd => decide (0 ≤ fd)
  | .accept vfd _ | .recv vfd _ _ | .send vfd _ _ | .notifyRecv vfd | .notifySend vfd =>
    decide (vfd < wfd.capacity)
  | .close vfd host =>
    decide (vfd < wfd.capacity) && (decide ((wfd.vfds vfd).fd ≠ -1) || decide (host.ret ≠ 0))

theorem admits_iff {wfd : WasioPollfd} {op : Op} : admits wfd op = true ↔ Admissible wfd op := by
  constructor
  · intro h
    refine ⟨fun v hv => ?_, fun fd hop => ?_, fun v host hop hfd => ?_⟩
    · cases op <;> simp_all [admits, Op.vfd]
    · subst hop
      simpa [admits] using h
    · subst hop
      have hc : v < wfd.capacity ∧ host.ret ≠ 0 := by simpa [admits, hfd] using h
      exact hc.2
  · rintro ⟨hvfd, hwrap, hclose⟩
    cases op with
    | listen | poll => rfl
    | wrap fd => simpa [admits] using hwrap fd rfl
    | accept v | recv v | send v | notifyRecv v | notifySend v =>
      simpa [admits] using hvfd v rfl
    | close v host =>
      have hlt := hvfd v rfl
      have hfail := hclose v host rfl
      simp only [admits, hlt, decide_true, Bool.true_and, Bool.or_eq_true, decide_eq_true_eq]
      exact or_iff_not_imp_left.mpr fun hfd => hfail (not_not.mp hfd)

instance (wfd : WasioPollfd) (op : Op) : Decidable (Admissible wfd op) :=
  decidable_of_iff _ admits_iff

/-- **One operation on the table**, labelled by the operation and its reply. -/
def Tr (s : WasioPollfd) (a : Op × Reply) (t : WasioPollfd) : Prop :=
  Admissible s a.1 ∧ perform s a.1 = some (a.2, t)

/-- **A run on a fresh table**: `wasio_init` and then any operations. -/
def Run (capacity : ℕ) (l : List (Op × Reply)) (wfd : WasioPollfd) : Prop :=
  ∃ s₀, wasioInit capacity true = (.ok, some s₀) ∧ Lts.Steps Tr s₀ l wfd

end WasioHost

end Waeio
