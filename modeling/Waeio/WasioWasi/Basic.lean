import Mathlib.Algebra.Order.Ring.Int
import Mathlib.Logic.Function.Basic
import Waeio.Freelist.Basic
import Waeio.Host
import Waeio.Lib.Uint32

/-!
# The virtual-descriptor table over WASI

`src/wasio_wasi.c`: the table of `Waeio.WasioHost` over the system calls of WASI. A
slot has an entry in the array `fds` and one in the poll array `vfds`, and here the
two are not the same: `wasio_wrap` fills in `fds` and leaves the poll entry empty,
for `wasio_mark_ready` to copy the descriptor to, while `wasio_accept` fills in the
poll entry only.

Every operation is a function of the table, its arguments and the result of the one
system call it makes. It has no result where it writes outside the arrays, or where
the assertion on `freelist_reclaim` fails. `wasio_accept` may hand its caller the
variable `*new_conn_vfd` as it found it; what it held is an argument, `newConn`.
-/

namespace Waeio

namespace WasioWasi

/-- The system calls, with their arguments. -/
inductive SysCall
  /-- `accept(fd, NULL, 0)` -/
  | accept (fd : ℤ) : SysCall
  /-- `recv(fd, buf, len, 0)` -/
  | recv (fd : ℤ) (len : ℕ) : SysCall
  /-- `send(fd, buf, len, 0)` -/
  | send (fd : ℤ) (len : ℕ) : SysCall
  /-- `close(fd)` -/
  | close (fd : ℤ) : SysCall
  /-- `poll(fds, len, timeout)` -/
  | poll (len : ℕ) (timeout : ℤ) : SysCall
  deriving DecidableEq, Repr

/-- `struct wasio_pollfd` -/
structure WasioPollfd where
  /-- The number of slots. -/
  capacity : ℕ
  /-- The number of slots in use, a `uint32_t`. -/
  length : ℕ
  /-- The freelist of the slots. -/
  fl : Freelist
  /-- The array handed to `poll`. -/
  vfds : ℕ → Pollfd
  /-- The descriptors wrapped. -/
  fds : ℕ → ℤ

/-- What an operation answers: the system call it made, its result code, and what
its out parameters hold. -/
structure Reply where
  /-- The system call made. -/
  call : Option SysCall
  /-- The result code. -/
  result : WasioResult
  /-- The virtual descriptor handed out. -/
  vfd : Option ℕ
  /-- The count handed out: bytes received or sent, or ready descriptors. -/
  count : Option ℕ

/-- The number of a result code. -/
def code : WasioResult → ℤ
  | .ok => 0
  | .error => 1
  | .efull => 2
  | .eagain => 3
  | .econn => 4

/-- `(int)n` -/
def toInt (n : ℤ) : ℤ := Int.bmod n (2 ^ 32)

/-- The slot `i` of the poll array with another descriptor. -/
def setFd (vfds : ℕ → Pollfd) (i : ℕ) (fd : ℤ) : ℕ → Pollfd :=
  Function.update vfds i { vfds i with fd := fd }

/-- `wasio_init`; `malloc` says whether the freelist can be allocated. -/
def wasioInit (capacity : ℕ) (malloc : Bool) : WasioResult × Option WasioPollfd :=
  match freelistNew capacity malloc with
  | (.ok, some fl) =>
    (.ok, some
      { capacity := capacity
        length := 0
        fl := fl
        vfds := fun _ => { fd := -1, events := POLLIN ||| POLLOUT, revents := 0 }
        fds := fun _ => -1 })
  | _ => (.efull, none)

/-- `wasio_wrap` -/
def wasioWrap (wfd : WasioPollfd) (preopenedFd : ℤ) :
    Option (WasioResult × Option ℕ × WasioPollfd) :=
  match freelistNext wfd.fl with
  | (.ok, some entry, fl) =>
    if entry < wfd.capacity then
      some (.ok, some entry,
        { wfd with
          fl := fl
          vfds := setFd wfd.vfds entry (-1)
          fds := Function.update wfd.fds entry (toInt preopenedFd)
          length := Uint32.succ wfd.length })
    else none
  | (_, _, fl) => some (.efull, none, { wfd with fl := fl })

/-- `wasio_poll`: the system writes the `revents` of the poll array. -/
def wasioPoll (wfd : WasioPollfd) (timeout : ℤ) (revents : ℕ → BitVec 16) (ans : ℤ) :
    Reply × WasioPollfd :=
  let wfd' := { wfd with vfds := fun i => { wfd.vfds i with revents := revents i } }
  if ans < 0 then (⟨some (.poll wfd.capacity timeout), .error, none, none⟩, wfd')
  else (⟨some (.poll wfd.capacity timeout), .ok, none, some ans.toNat⟩, wfd')

/-- `wasio_accept`. The first test compares a result code with `0`. -/
def wasioAccept (wfd : WasioPollfd) (vfd newConn : ℕ) (ans : ℤ) : Option (Reply × WasioPollfd) :=
  (wasioWrap wfd (-1)).bind fun (res, out, wfd) =>
    let newConnVfd := out.getD newConn
    if code res < 0 then some (⟨none, .error, some newConnVfd, none⟩, wfd)
    else
      let fd := toInt (wfd.fds vfd)
      if 0 ≤ ans then
        if newConnVfd < wfd.capacity then
          some (⟨some (.accept fd), .ok, some newConnVfd, none⟩,
            { wfd with vfds := setFd wfd.vfds newConnVfd ans })
        else none
      else some (⟨some (.accept fd), .ok, some newConnVfd, none⟩, wfd)

/-- `wasio_recv` -/
def wasioRecv (wfd : WasioPollfd) (vfd len : ℕ) (ans : ℤ) : Reply × WasioPollfd :=
  let fd := toInt (wfd.fds vfd)
  if ans < 0 then (⟨some (.recv fd len), .error, none, none⟩, wfd)
  else (⟨some (.recv fd len), .ok, none, some ans.toNat⟩, wfd)

/-- `wasio_send` -/
def wasioSend (wfd : WasioPollfd) (vfd len : ℕ) (ans : ℤ) : Reply × WasioPollfd :=
  let fd := (wfd.vfds vfd).fd
  if ans < 0 then (⟨some (.send fd len), .error, none, none⟩, wfd)
  else (⟨some (.send fd len), .ok, none, some ans.toNat⟩, wfd)

/-- `wasio_close` -/
def wasioClose (wfd : WasioPollfd) (vfd : ℕ) (ans : ℤ) : Option (Reply × WasioPollfd) :=
  let fd := (wfd.vfds vfd).fd
  if ans ≠ 0 then some (⟨some (.close fd), .error, none, none⟩, wfd)
  else
    match freelistReclaim wfd.fl vfd with
    | (.ok, fl) =>
      some (⟨some (.close fd), .ok, none, none⟩,
        { wfd with
          vfds := setFd wfd.vfds vfd (-1)
          fds := Function.update wfd.fds vfd (-1)
          length := Uint32.pred wfd.length
          fl := fl })
    | _ => none

/-- `wasio_mark_ready` -/
def wasioMarkReady (wfd : WasioPollfd) (vfd : ℕ) : WasioResult × WasioPollfd :=
  (.ok, { wfd with vfds := setFd wfd.vfds vfd (toInt (wfd.fds vfd)) })

/-! ### The table as its clients see it -/

/-- An operation on the table, with its arguments and the result of its system
call. -/
inductive Op
  /-- `wasio_wrap` -/
  | wrap (fd : ℤ) : Op
  /-- `wasio_accept` -/
  | accept (vfd newConn : ℕ) (ans : ℤ) : Op
  /-- `wasio_recv` -/
  | recv (vfd len : ℕ) (ans : ℤ) : Op
  /-- `wasio_send` -/
  | send (vfd len : ℕ) (ans : ℤ) : Op
  /-- `wasio_mark_ready` -/
  | markReady (vfd : ℕ) : Op
  /-- `wasio_poll` -/
  | poll (timeout : ℤ) (revents : ℕ → BitVec 16) (ans : ℤ) : Op
  /-- `wasio_close` -/
  | close (vfd : ℕ) (ans : ℤ) : Op

/-- Perform an operation. -/
def perform (wfd : WasioPollfd) : Op → Option (Reply × WasioPollfd)
  | .wrap fd => (wasioWrap wfd fd).map fun (res, vfd, wfd) => (⟨none, res, vfd, none⟩, wfd)
  | .accept vfd newConn ans => wasioAccept wfd vfd newConn ans
  | .recv vfd len ans => some (wasioRecv wfd vfd len ans)
  | .send vfd len ans => some (wasioSend wfd vfd len ans)
  | .markReady vfd => some (⟨none, (wasioMarkReady wfd vfd).1, none, none⟩,
      (wasioMarkReady wfd vfd).2)
  | .poll timeout revents ans => some (wasioPoll wfd timeout revents ans)
  | .close vfd ans => wasioClose wfd vfd ans

/-- The virtual descriptor an operation names. -/
def Op.vfd : Op → Option ℕ
  | .accept vfd _ _ | .recv vfd _ _ | .send vfd _ _ | .markReady vfd | .close vfd _ => some vfd
  | .wrap _ | .poll _ _ _ => none

/-- **One operation on the table**, on virtual descriptors below the capacity,
labelled by the operation and its reply. -/
def Tr (s : WasioPollfd) (a : Op × Reply) (t : WasioPollfd) : Prop :=
  (∀ v ∈ a.1.vfd, v < s.capacity) ∧ perform s a.1 = some (a.2, t)

end WasioWasi

end Waeio
