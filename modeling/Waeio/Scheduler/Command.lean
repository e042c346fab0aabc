import Mathlib.Algebra.Group.Int.Defs
import Mathlib.Data.Nat.Notation

/-!
# The commands of a fiber

`src/waeio.c`: a fiber asks something of the scheduler by yielding the address of
a `cmd_t` in its own frame. The `cmd_t` is a tag and a union, of three words on
wasm32:

* the member for `ASYNC` is a structure and takes both words of the union, `entry`
  the first and `arg` the second;
* the member `vfd` for all other commands takes the first word only.

`Waeio.Scheduler.Call` is a call of the interface that has yielded, and
`Waeio.Scheduler.Call.cmd` the `cmd_t` it yields. A call that sets `vfd` leaves the
second word of the union as it was: what stood there is an argument, `residue`.
-/

namespace Waeio

namespace Scheduler

/-- `FIBER_KILL_SIGNAL`: `INT32_MIN` -/
def FIBER_KILL_SIGNAL : ℤ := -2 ^ 31

/-- `enum cmd_tag` -/
inductive CmdTag
  | accept | async | suspend | recv | send | quit
  deriving DecidableEq, Repr

/-- `cmd_t` as it lies in memory. -/
structure Cmd where
  /-- The tag, if the word for it is the number of one. -/
  tag : Option CmdTag
  /-- The first word of the union. -/
  word0 : BitVec 32
  /-- The second word of the union. -/
  word1 : BitVec 32
  deriving DecidableEq, Repr

/-- `cmd->entry` -/
def Cmd.entry (cmd : Cmd) : BitVec 32 := cmd.word0

/-- `cmd->arg` -/
def Cmd.arg (cmd : Cmd) : BitVec 32 := cmd.word1

/-- A call of the interface that has yielded, and has not returned yet. -/
inductive Call
  /-- `waeio_async(proc, vfd)` -/
  | async (proc vfd : BitVec 32) : Call
  /-- `waeio_accept(vfd, new_conn)` -/
  | accept (vfd : BitVec 32) : Call
  /-- `waeio_accept(vfd, new_conn)` in its inner loop, which waits for space. -/
  | acceptFull (vfd : BitVec 32) : Call
  /-- `waeio_recv(vfd, buf, len)` -/
  | recv (vfd : BitVec 32) (len : ℕ) : Call
  /-- `waeio_send(vfd, buf, len)` -/
  | send (vfd : BitVec 32) (len : ℕ) : Call
  /-- `waeio_cancel_all()` -/
  | cancelAll : Call
  deriving DecidableEq, Repr

/-- **The command a call yields**, with the word of the union it does not set. -/
def Call.cmd (residue : BitVec 32) : Call → Cmd
  | .async proc vfd => ⟨some .async, proc, vfd⟩
  | .accept vfd => ⟨some .accept, vfd, residue⟩
  | .acceptFull _ => ⟨some .suspend, -1, residue⟩
  | .recv vfd _ => ⟨some .recv, vfd, residue⟩
  | .send vfd _ => ⟨some .send, vfd, residue⟩
  | .cancelAll => ⟨some .quit, -1, residue⟩

/-- The virtual descriptor a call waits for. -/
def Call.waitsFor : Call → Option (BitVec 32)
  | .accept vfd | .recv vfd _ | .send vfd _ => some vfd
  | .async _ _ | .acceptFull _ | .cancelAll => none

/-- `fiber_result_t`: how a fiber came back from `fiber_resume`. The value `other`
is what a variable of this type may hold that was never set. -/
inductive FiberStatus
  | ok | yield | error | other
  deriving DecidableEq, Repr

/-- How a fiber stops running: what it yields or returns. A pointer it returns is
given by the words that a reader who takes them for a `cmd_t` finds there. -/
inductive Outcome
  /-- It yields the command of a call. -/
  | yields (call : Call) (residue : BitVec 32) : Outcome
  /-- It returns. -/
  | returns (memory : Cmd) : Outcome
  /-- It fails. -/
  | fails (memory : Cmd) : Outcome
  deriving DecidableEq, Repr

/-- The status `fiber_resume` reports. -/
def Outcome.status : Outcome → FiberStatus
  | .yields _ _ => .yield
  | .returns _ => .ok
  | .fails _ => .error

/-- What `fiber_resume` returns. -/
def Outcome.payload : Outcome → Cmd
  | .yields call residue => call.cmd residue
  | .returns memory | .fails memory => memory

/-! ### What a fiber does next -/

/-- Where a running fiber is. -/
inductive Frame
  /-- In its own code. -/
  | user : Frame
  /-- In a call, after the resumption. -/
  | resumed (call : Call) : Frame
  /-- In a call whose descriptor was busy, before the next yield. -/
  | again (call : Call) : Frame
  deriving DecidableEq, Repr

/-- **Back from `fiber_yield`** with `ans`: a call returns on the kill signal, and
`waeio_accept` on any negative answer. -/
def Call.resume (ans : ℤ) : Call → Frame
  | .accept vfd | .acceptFull vfd => if ans < 0 then .user else .resumed (.accept vfd)
  | .recv vfd len => if ans = FIBER_KILL_SIGNAL then .user else .resumed (.recv vfd len)
  | .send vfd len => if ans = FIBER_KILL_SIGNAL then .user else .resumed (.send vfd len)
  | .async _ _ | .cancelAll => .user

/-- **When a fiber may stop, and how**, where `full` says whether
`ctl.nconns == ctl.max_conns`: the own code of a fiber may call anything, return
or fail; a call yields again while the descriptor is busy, and `waeio_accept`
suspends while there is no space. -/
def Frame.mayStop (full : Bool) : Frame → Outcome → Bool
  | .user, .yields (.acceptFull _) _ => false
  | .user, _ => true
  | .again call, .yields call' _ => call' = call
  | .resumed (.accept vfd), .yields (.acceptFull vfd') _ => full && decide (vfd' = vfd)
  | _, _ => false

end Scheduler

end Waeio
