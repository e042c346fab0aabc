import Waeio.FiberServer.Basic
import Waeio.Http.Request

/-!
# A server that is a program of host calls

The two servers with a fiber for each connection, `httpserver_fiber.c` on the host
calls and `httpserver_wasio_fiber.c` on the wasio layer, have the same shape: `main`
polls, sweeps the table and resumes fibers, a fiber calls the host and yields, and all
that the environment decides are the answers of the host and whether the fiber library
manages to resume a fiber.

Here is what their models share: the calls of the host with all that the host is told,
its answers, the points a server can be at, and what the fiber library knows of a
fiber. A step of a server is a call of the host, a `fiber_resume`, or a step of `main`
that does neither.
-/

namespace Waeio

namespace Http

/-! ### The host -/

/-- The calls of the host, with what the host is told. -/
inductive Call
  /-- `host_listen(port, backlog)` -/
  | listen (port backlog : ℤ) : Call
  /-- `host_poll(fds, len, timeout)`: the descriptor and the events of each entry. -/
  | poll (fds : List (ℤ × BitVec 16)) (timeout : ℤ) : Call
  /-- `host_accept(fd)` -/
  | accept (fd : ℤ) : Call
  /-- `host_recv(fd, buf, len)` -/
  | recv (fd : ℤ) (len : ℕ) : Call
  /-- `host_send(fd, buf, len)`: the bytes sent. -/
  | send (fd : ℤ) (data : List UInt8) : Call
  /-- `host_close(fd)` -/
  | close (fd : ℤ) : Call
  deriving DecidableEq, Repr

/-- What the host answers: the result and the error code, what it writes for `poll`
and for `recv`, and the time after the call. -/
structure Answer extends HostAnswer where
  /-- The events `host_poll` reports. -/
  revents : ℕ → BitVec 16
  /-- The bytes `host_recv` receives. -/
  data : ℕ → UInt8
  /-- What `gmtime(time(NULL))` returns after the call. -/
  now : Tm

/-- The bytes that `host_recv` writes to a buffer of `len` bytes. -/
def Answer.received (a : Answer) (len : ℕ) : List UInt8 := contents a.data (min a.ret.toNat len)

/-- The descriptor that a call of the host opens. -/
def Call.opens : Call → Answer → List ℤ
  | .listen _ _, a | .accept _, a => if 0 ≤ a.ret then [a.ret] else []
  | .poll _ _, _ | .recv _ _, _ | .send _ _, _ | .close _, _ => []

/-- The descriptor that a call of the host closes. -/
def Call.closes : Call → List ℤ
  | .close fd => [fd]
  | .listen _ _ | .poll _ _ | .accept _ | .recv _ _ | .send _ _ => []

/-- **The descriptors that a call of the host names**. -/
def Call.uses : Call → List ℤ
  | .listen _ _ => []
  | .poll fds _ => fds.map Prod.fst
  | .accept fd | .recv fd _ | .send fd _ | .close fd => [fd]

/-- What happens in a step. -/
inductive Label
  /-- `main` goes on. -/
  | tau : Label
  /-- `fiber_resume(fiber, fd)`, and whether the fiber library resumes the fiber. -/
  | resume (fiber : ℕ) (fd : ℤ) (resumed : Bool) : Label
  /-- A call of the host, and its answer. -/
  | call (c : Call) (a : Answer) : Label

/-! ### The program -/

/-- The call of `fiber_resume` a fiber runs in. -/
inductive Site
  /-- That of the sweep, at the entry `i`. -/
  | sweep (i : ℕ) : Site
  /-- That of the clean-up, at the entry `i`. -/
  | kill (i : ℕ) : Site
  deriving DecidableEq, Repr

/-- The entry. -/
def Site.index : Site → ℕ
  | .sweep i | .kill i => i

/-- **Where a server is.** -/
inductive Pc
  /-- Before `host_listen`. -/
  | listen : Pc
  /-- Before `host_poll`. -/
  | poll : Pc
  /-- In the sweep, before the entry `i`. -/
  | sweep (i : ℕ) : Pc
  /-- Before `fiber_resume`. -/
  | resume (site : Site) : Pc
  /-- In the listener, before `host_accept`. -/
  | accept (site : Site) (fiber : ℕ) : Pc
  /-- In the fiber of a connection, before `host_recv`. -/
  | recv (site : Site) (fiber : ℕ) : Pc
  /-- In the fiber of a connection, before `host_send` of `rc` bytes. -/
  | send (site : Site) (fiber rc : ℕ) : Pc
  /-- In `handle_command`, before `host_close` of the descriptor `fd`, the fiber at the
  entry `i` having returned or failed. -/
  | closeDone (i : ℕ) (fd : ℤ) (failed : Bool) : Pc
  /-- In the clean-up, before the entry `i`. -/
  | kill (i : ℕ) : Pc
  /-- In the clean-up, before `host_close` of the descriptor of the entry `i`. -/
  | closeKill (i : ℕ) : Pc
  /-- The program has ended. -/
  | exited : Pc
  /-- An assertion has failed. -/
  | aborted : Pc
  /-- A fiber was resumed that cannot be. -/
  | stray : Pc
  deriving DecidableEq, Repr

/-- What the fiber library knows of a fiber, and where the fiber has yielded. -/
inductive Frame
  /-- It was not resumed yet. -/
  | fresh : Frame
  /-- The listener has yielded because the table is full. -/
  | full : Frame
  /-- The fiber has yielded because its call of the host would block. -/
  | again : Frame
  /-- It runs. -/
  | running : Frame
  /-- It has returned, or failed. -/
  | finished : Frame
  /-- It was freed. -/
  | freed : Frame
  deriving DecidableEq, Repr

/-- The fiber can be resumed. -/
def Frame.Resumable (frame : Frame) : Prop := frame = .fresh ∨ frame = .full ∨ frame = .again

instance : DecidablePred Frame.Resumable := fun _ => inferInstanceAs (Decidable (_ ∨ _ ∨ _))

end Http

end Waeio
