import Mathlib.Data.Int.Notation
import Mathlib.Data.Nat.Notation
import Mathlib.Tactic.SplitIfs

/-!
# The host

The parts of the host a guest sees: the flags and the entries of `poll`, the
error codes, the calls of the host modules, and the two constant functions of the
module `host_poll` (`src/host/driver/poll.c`).

The flags and codes are those of the platform, which `utils/hostgen.c` writes
into the generated headers.
-/

namespace Waeio

/-! ### Poll flags and error codes -/

/-- `POLLIN` -/
def POLLIN : BitVec 16 := 0x001#16

/-- `POLLOUT` -/
def POLLOUT : BitVec 16 := 0x004#16

/-- `POLLHUP` -/
def POLLHUP : BitVec 16 := 0x010#16

/-- `HOST_EAGAIN` -/
def HOST_EAGAIN : ℤ := 11

/-- `HOST_EWOULDBLOCK` -/
def HOST_EWOULDBLOCK : ℤ := 11

/-- `struct pollfd` -/
structure Pollfd where
  /-- The descriptor; `poll` skips a negative one. -/
  fd : ℤ
  /-- The events asked for. -/
  events : BitVec 16
  /-- The events reported. -/
  revents : BitVec 16
  deriving DecidableEq, Repr

/-! ### The module `host_poll` -/

/-- The constant functions the driver exports in the module `host_poll`, by
name. -/
inductive HostPollFn
  | pollin | pollout
  deriving DecidableEq, Repr

/-- What the driver's bindings `host_pollin` and `host_pollout` return. -/
def HostPollFn.result : HostPollFn → BitVec 16
  | .pollin => POLLIN
  | .pollout => POLLOUT

/-! ### Host calls and their answers -/

/-- The calls a guest makes to the host, with their arguments. -/
inductive HostCall
  /-- `host_listen(port, backlog)` -/
  | listen (port backlog : ℤ) : HostCall
  /-- `host_accept(fd)` -/
  | accept (fd : ℤ) : HostCall
  /-- `host_recv(fd, buf, len)` -/
  | recv (fd : ℤ) (len : ℕ) : HostCall
  /-- `host_send(fd, buf, len)` -/
  | send (fd : ℤ) (len : ℕ) : HostCall
  /-- `host_close(fd)` -/
  | close (fd : ℤ) : HostCall
  /-- `host_poll(fds, len, timeout)` -/
  | poll (len : ℕ) (timeout : ℤ) : HostCall
  deriving DecidableEq, Repr

/-- What a host call returns, and the error code it leaves. -/
structure HostAnswer where
  /-- The return value. -/
  ret : ℤ
  /-- The value of `host_errno` after the call. -/
  errno : ℤ
  deriving DecidableEq, Repr

/-! ### Result codes of the wasio layer -/

/-- `wasio_result_t` -/
inductive WasioResult
  | ok | error | efull | eagain | econn
  deriving DecidableEq, Repr

/-- `translate_error` -/
def translateError (errno : ℤ) : WasioResult :=
  if errno = HOST_EAGAIN ∨ errno = HOST_EWOULDBLOCK then .eagain else .error

theorem translateError_ne_ok (errno : ℤ) : translateError errno ≠ .ok := by
  rw [translateError]
  split_ifs <;> simp

end Waeio
