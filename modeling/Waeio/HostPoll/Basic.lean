import Mathlib.Logic.Function.Basic
import Waeio.Host
import Waeio.Lib.Uint32

/-!
# The dense poll array over the host

`src/wasio/host_poll.c`: here a client uses the descriptors of the host itself, and
the table is the array handed to `host_poll`, of which the first `length` entries
are in use. `wasio_listen` and `wasio_accept` append an entry; no operation takes
one away, so `wasio_close` leaves the table alone and it is for the client to close
the hole.

The operations are functions of the table, their arguments and the answer of the
host, as in `Waeio.WasioHost`. Those that append assert that there is space, and
have no result where the assertion fails.
-/

namespace Waeio

namespace HostPoll

/-- `struct wasio_pollfd` -/
structure WasioPollfd where
  /-- The number of entries there is space for. -/
  capacity : ℕ
  /-- The number of entries in use, a `uint32_t`. -/
  length : ℕ
  /-- The array handed to `host_poll`. -/
  fds : ℕ → Pollfd

/-- What an operation answers: the host call it made, its result code, and what
it wrote through its out parameters. -/
structure Reply where
  /-- The host call made. -/
  call : HostCall
  /-- The result code. -/
  result : WasioResult
  /-- The descriptor handed out. -/
  fd : Option ℤ
  /-- The count handed out. -/
  count : Option ℕ

/-- The entry appended for an open descriptor. -/
def opened (fd : ℤ) : Pollfd := { fd := fd, events := POLLIN, revents := 0 }

/-- `wfd->fds[wfd->length++] = …`, with the assertion that follows it. -/
def append (wfd : WasioPollfd) (fd : ℤ) : Option WasioPollfd :=
  let wfd' : WasioPollfd :=
    { wfd with
      fds := Function.update wfd.fds wfd.length (opened fd)
      length := Uint32.succ wfd.length }
  if wfd'.length ≤ wfd'.capacity then some wfd' else none

/-- `wasio_init`, where `malloc` returns an array with these contents, if it
succeeds. -/
def wasioInit (capacity : ℕ) (malloc : Option (ℕ → Pollfd)) : WasioResult × Option WasioPollfd :=
  match malloc with
  | some fds => (.ok, some { capacity := capacity, length := 0, fds := fds })
  | none => (.error, none)

/-- `wasio_listen` -/
def wasioListen (wfd : WasioPollfd) (port backlog : ℤ) (host : HostAnswer) :
    Option (Reply × WasioPollfd) :=
  if wfd.length < wfd.capacity then
    if host.ret < 0 then
      some (⟨.listen port backlog, translateError host.errno, none, none⟩, wfd)
    else
      (append wfd host.ret).map fun wfd =>
        (⟨.listen port backlog, .ok, some host.ret, none⟩, wfd)
  else none

/-- `wasio_poll`: the host writes the `revents` of the entries in use. -/
def wasioPoll (wfd : WasioPollfd) (timeout : ℤ) (revents : ℕ → BitVec 16) (host : HostAnswer) :
    Reply × WasioPollfd :=
  if host.ret < 0 then
    (⟨.poll wfd.length timeout, translateError host.errno, none, none⟩, wfd)
  else
    (⟨.poll wfd.length timeout, .ok, none, some host.ret.toNat⟩,
      { wfd with
        fds := fun i =>
          if i < wfd.length then { wfd.fds i with revents := revents i } else wfd.fds i })

/-- `wasio_accept` -/
def wasioAccept (wfd : WasioPollfd) (vfd : ℤ) (host : HostAnswer) :
    Option (Reply × WasioPollfd) :=
  if wfd.length < wfd.capacity then
    if host.ret < 0 then
      some (⟨.accept vfd, translateError host.errno, none, none⟩, wfd)
    else
      (append wfd host.ret).map fun wfd => (⟨.accept vfd, .ok, some host.ret, none⟩, wfd)
  else none

/-- `wasio_recv` -/
def wasioRecv (vfd : ℤ) (len : ℕ) (host : HostAnswer) : Reply :=
  if host.ret = 0 then ⟨.recv vfd len, .econn, none, none⟩
  else if host.ret < 0 then ⟨.recv vfd len, translateError host.errno, none, none⟩
  else ⟨.recv vfd len, .ok, none, some host.ret.toNat⟩

/-- `wasio_send` -/
def wasioSend (vfd : ℤ) (len : ℕ) (host : HostAnswer) : Reply :=
  if host.ret < 0 then ⟨.send vfd len, translateError host.errno, none, none⟩
  else ⟨.send vfd len, .ok, none, some host.ret.toNat⟩

/-- `wasio_close` -/
def wasioClose (vfd : ℤ) (host : HostAnswer) : Reply :=
  if host.ret < 0 then ⟨.close vfd, translateError host.errno, none, none⟩
  else ⟨.close vfd, .ok, none, none⟩

/-! ### The table as its clients see it -/

/-- An operation on the table, with its arguments and the answer of the host. -/
inductive Op
  /-- `wasio_listen` -/
  | listen (port backlog : ℤ) (host : HostAnswer) : Op
  /-- `wasio_poll` -/
  | poll (timeout : ℤ) (revents : ℕ → BitVec 16) (host : HostAnswer) : Op
  /-- `wasio_accept` -/
  | accept (vfd : ℤ) (host : HostAnswer) : Op
  /-- `wasio_recv` -/
  | recv (vfd : ℤ) (len : ℕ) (host : HostAnswer) : Op
  /-- `wasio_send` -/
  | send (vfd : ℤ) (len : ℕ) (host : HostAnswer) : Op
  /-- `wasio_close` -/
  | close (vfd : ℤ) (host : HostAnswer) : Op

/-- Perform an operation. -/
def perform (wfd : WasioPollfd) : Op → Option (Reply × WasioPollfd)
  | .listen port backlog host => wasioListen wfd port backlog host
  | .poll timeout revents host => some (wasioPoll wfd timeout revents host)
  | .accept vfd host => wasioAccept wfd vfd host
  | .recv vfd len host => some (wasioRecv vfd len host, wfd)
  | .send vfd len host => some (wasioSend vfd len host, wfd)
  | .close vfd host => some (wasioClose vfd host, wfd)

/-- **One operation on the table**, labelled by the operation and its reply. -/
def Tr (s : WasioPollfd) (a : Op × Reply) (t : WasioPollfd) : Prop :=
  perform s a.1 = some (a.2, t)

/-! ### What the operations do -/

theorem append_of_lt {wfd : WasioPollfd} (hlt : wfd.length < wfd.capacity)
    (hcap : wfd.capacity < 2 ^ 32) (fd : ℤ) :
    append wfd fd =
      some { wfd with
        fds := Function.update wfd.fds wfd.length (opened fd), length := wfd.length + 1 } := by
  simp only [append, Uint32.succ_of_lt (show wfd.length + 1 < 2 ^ 32 by omega)]
  rw [if_pos (by omega)]

/-- A listener that is refused leaves the table as it is. -/
theorem wasioListen_of_neg {wfd : WasioPollfd} (hlt : wfd.length < wfd.capacity) (port backlog : ℤ)
    {host : HostAnswer} (hneg : host.ret < 0) :
    wasioListen wfd port backlog host =
      some (⟨.listen port backlog, translateError host.errno, none, none⟩, wfd) := by
  rw [wasioListen, if_pos hlt, if_pos hneg]

/-- A listener is appended. -/
theorem wasioListen_of_nonneg {wfd : WasioPollfd} (hlt : wfd.length < wfd.capacity)
    (hcap : wfd.capacity < 2 ^ 32) (port backlog : ℤ) {host : HostAnswer}
    (hnonneg : ¬host.ret < 0) :
    wasioListen wfd port backlog host =
      some (⟨.listen port backlog, .ok, some host.ret, none⟩,
        { wfd with
          fds := Function.update wfd.fds wfd.length (opened host.ret)
          length := wfd.length + 1 }) := by
  rw [wasioListen, if_pos hlt, if_neg hnonneg, append_of_lt hlt hcap]
  rfl

/-- A refused connection leaves the table as it is. -/
theorem wasioAccept_of_neg {wfd : WasioPollfd} (hlt : wfd.length < wfd.capacity) (vfd : ℤ)
    {host : HostAnswer} (hneg : host.ret < 0) :
    wasioAccept wfd vfd host =
      some (⟨.accept vfd, translateError host.errno, none, none⟩, wfd) := by
  rw [wasioAccept, if_pos hlt, if_pos hneg]

/-- An accepted connection is appended. -/
theorem wasioAccept_of_nonneg {wfd : WasioPollfd} (hlt : wfd.length < wfd.capacity)
    (hcap : wfd.capacity < 2 ^ 32) (vfd : ℤ) {host : HostAnswer} (hnonneg : ¬host.ret < 0) :
    wasioAccept wfd vfd host =
      some (⟨.accept vfd, .ok, some host.ret, none⟩,
        { wfd with
          fds := Function.update wfd.fds wfd.length (opened host.ret)
          length := wfd.length + 1 }) := by
  rw [wasioAccept, if_pos hlt, if_neg hnonneg, append_of_lt hlt hcap]
  rfl

end HostPoll

end Waeio
