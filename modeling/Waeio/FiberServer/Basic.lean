import Waeio.HostPoll.Basic
import Waeio.Lib.Compact
import Waeio.Lib.Steps
import Waeio.Scheduler.Command

/-!
# The server with a fiber for each connection

`examples/httpserver/httpserver_wasio_fiber.c` over `src/wasio/host_poll.c`: the
entries of the poll array in use are the listening socket, at index `0`, and the
connections. Each has a fiber, in the array `fibers` at the same index.

A round of the request loop polls, and then goes through the entries there were:

* an entry that hung up is taken away, its fiber freed;
* the fiber of a readable entry is resumed. The listener accepts connections
  until the host has no more, or the table is full, and appends an entry for
  each. `handle_command` takes away the entry of a fiber that has returned or
  failed.

To take an entry away is to set its descriptor to `-1` and to decrement `length`.
When the round has gone through the entries, a second loop moves them together.

The host and the fibers of the connections are the environment:
`Waeio.FiberServer.Round` is all they do in a round. The listener is modelled by
its code. It yields at three places, and resumed at any of them it goes on with
the test whether the table is full, so its resumption depends on the state of the
server only.
-/

namespace Waeio

namespace FiberServer

open HostPoll

/-! ### The state -/

/-- `MAX_CONNECTIONS` -/
def MAX_CONNECTIONS : ℕ := 1024

/-- `FIBER_KILL_SIGNAL`: `INT32_MIN` -/
def FIBER_KILL_SIGNAL : ℤ := -2 ^ 31

/-- `timeout` -/
def timeout : ℤ := 3 * 10 * 1000

/-- `struct fiber_closure`. Fibers are numbered in the order of `fiber_alloc`, and
`0` is the null pointer. -/
structure FiberClosure where
  fiber : ℕ
  fd : ℤ
  deriving DecidableEq, Repr

/-- `listener_fiber`, the first fiber allocated. -/
def listenerFiber : ℕ := 1

/-- What the program does that others see. -/
inductive Event
  /-- A call of the host. -/
  | call (call : HostCall) : Event
  /-- `fiber_resume`, with `fd` set. -/
  | resume (fiber : ℕ) (fd : ℤ) : Event
  /-- `fiber_free` -/
  | free (fiber : ℕ) : Event
  deriving DecidableEq, Repr

/-- **The state of the server**: its static variables, the number of fibers
allocated, and the events so far. -/
structure Server where
  /-- `wfd` -/
  wfd : WasioPollfd
  /-- `fibers` -/
  fibers : ℕ → FiberClosure
  /-- `end_server` -/
  endServer : Bool
  /-- `compress_pollfd` -/
  compressPollfd : Bool
  /-- `fd`, through which `main` tells a fiber its descriptor. -/
  fd : ℤ
  /-- The number of fibers allocated. -/
  allocated : ℕ
  /-- The events, the last one first. -/
  events : List Event

/-- How the fiber of a connection comes back from a resumption. -/
structure Stop where
  /-- The status `fiber_resume` reports. -/
  status : Scheduler.FiberStatus
  /-- Whether it has set `end_server`. -/
  endServer : Bool
  deriving DecidableEq, Repr

/-- **What the environment does in a round of the request loop.** -/
structure Round where
  /-- The answer of `host_poll`. -/
  host : HostAnswer
  /-- The `revents` that `host_poll` writes. -/
  revents : ℕ → BitVec 16
  /-- The answers of `host_accept`; after the last one, the call would block. -/
  accepts : List HostAnswer
  /-- How the fiber of the entry `i` stops, if it serves a connection. -/
  stops : ℕ → Stop
  /-- The answer of `host_close` for the entry `i`. -/
  closes : ℕ → HostAnswer

/-- The event `e` happens. -/
def Server.emit (s : Server) (e : Event) : Server := { s with events := e :: s.events }

/-- `wfd.fds[i].fd = -1` -/
def Server.punch (s : Server) (i : ℕ) : Server :=
  { s with wfd := { s.wfd with
    fds := Function.update s.wfd.fds i { s.wfd.fds i with fd := -1 } } }

/-- `wfd.length--` -/
def Server.shorten (s : Server) : Server :=
  { s with wfd := { s.wfd with length := Uint32.pred s.wfd.length } }

/-! ### The listener -/

/-- The listener from the test whether the table is full on, up to its next yield
or its return. -/
def acceptLoop (s : Server) : List HostAnswer → Option (Scheduler.FiberStatus × Server)
  | [] =>
    if s.wfd.length = s.wfd.capacity then some (.yield, s)
    else some (.yield, s.emit (.call (.accept s.fd)))
  | host :: hosts =>
    if s.wfd.length = s.wfd.capacity then some (.yield, s)
    else
      match wasioAccept s.wfd s.fd host with
      | some (⟨call, .eagain, _, _⟩, wfd) =>
        some (.yield, { s with wfd := wfd }.emit (.call call))
      | some (⟨call, .error, _, _⟩, wfd) =>
        some (.ok, { s with wfd := wfd, endServer := true }.emit (.call call))
      | some (⟨call, .ok, some newFd, _⟩, wfd) =>
        let fibers := Function.update s.fibers (Uint32.pred wfd.length) ⟨s.allocated + 1, newFd⟩
        let s := { s with wfd := wfd, fibers := fibers, allocated := s.allocated + 1 }
        if 4 < newFd then acceptLoop (s.emit (.call call)) hosts else none
      | _ => none

/-- `listener`, from a resumption to its next yield or its return. -/
def listener (s : Server) (hosts : List HostAnswer) : Option (Scheduler.FiberStatus × Server) :=
  if s.fd = FIBER_KILL_SIGNAL then some (.ok, s) else acceptLoop s hosts

/-! ### The request loop -/

/-- `fiber_resume`: the listener runs its code, and any other fiber serves a
connection. -/
def fiberResume (r : Round) (i fiber : ℕ) (s : Server) :
    Option (Scheduler.FiberStatus × Server) :=
  let s := s.emit (.resume fiber s.fd)
  if fiber = listenerFiber then listener s r.accepts
  else some ((r.stops i).status, { s with endServer := s.endServer || (r.stops i).endServer })

/-- The two branches of `handle_command` for a fiber that is done: the fiber is
freed, its descriptor closed, and its entry taken away. -/
def handleDone (i : ℕ) (clo : FiberClosure) (host : HostAnswer) (s : Server) : Option Server :=
  let reply := wasioClose clo.fd host
  if reply.result = .ok then
    some ((((s.emit (.free clo.fiber)).emit (.call reply.call)).punch i).shorten)
  else none

/-- `handle_command`: its answer, and the state afterwards. -/
def handleCommand (i : ℕ) (clo : FiberClosure) (status : Scheduler.FiberStatus)
    (host : HostAnswer) (s : Server) : Option (Bool × Server) :=
  match status with
  | .ok => (handleDone i clo host s).map fun s => (true, s)
  | .yield =>
    some (false, { s with wfd := { s.wfd with
      fds := Function.update s.wfd.fds i { s.wfd.fds i with events := POLLIN } } })
  | .error | .other =>
    (handleDone i clo host s).map fun s => (true, { s with endServer := true })

/-- The branch of the sweep for an entry that hung up. -/
def hangUp (i : ℕ) (s : Server) : Server :=
  let s := s.emit (.free (s.fibers i).fiber)
  let s := { s with fibers := Function.update s.fibers i { s.fibers i with fd := -1 } }
  { (s.punch i).shorten with compressPollfd := true }

/-- What the sweep does with what `handle_command` answers. -/
def flag (i : ℕ) (answer : Bool) (s : Server) : Server :=
  let s := { s with compressPollfd := answer || s.compressPollfd }
  if s.compressPollfd then s.punch i else s

/-- The branch of the sweep for an entry that is readable. -/
def resumeEntry (r : Round) (i : ℕ) (s : Server) : Option Server :=
  let s := { s with fd := (s.wfd.fds i).fd }
  if 4 ≤ s.fd then
    (fiberResume r i (s.fibers i).fiber s).bind fun (status, s) =>
      (handleCommand i (s.fibers i) status (r.closes i) s).map fun (answer, s) =>
        flag i answer s
  else none

/-- The body of the sweep. The first component says whether the sweep goes on. -/
def visit (r : Round) (i : ℕ) (s : Server) : Option (Bool × Server) :=
  let revents := (s.wfd.fds i).revents
  if revents = 0 then some (true, s)
  else if revents &&& POLLHUP ≠ 0 then some (true, hangUp i s)
  else if revents &&& POLLIN = 0 then some (false, { s with endServer := true })
  else (resumeEntry r i s).map fun s => (true, s)

/-- The sweep from the entry `i` on, with `k` entries to go. -/
def sweep (r : Round) : (k i : ℕ) → Server → Option Server
  | 0, _, s => some s
  | k + 1, i, s =>
    match visit r i s with
    | none => none
    | some (false, s) => some s
    | some (true, s) => sweep r k (i + 1) s

/-- The inner loop of the compaction from `j` on, with `k` entries to go. -/
def moveDown : (k j : ℕ) → Server → Server
  | 0, _, s => s
  | k + 1, j, s =>
    moveDown k (j + 1)
      { s with
        wfd := { s.wfd with
          fds := Function.update s.wfd.fds j { s.wfd.fds j with fd := (s.wfd.fds (j + 1)).fd } }
        fibers := Function.update s.fibers j (s.fibers (j + 1)) }

/-- The compaction from the entry `i` on, with `fuel` rounds to go. -/
def compactFrom : (fuel i : ℕ) → Server → Server
  | 0, _, s => s
  | fuel + 1, i, s =>
    if i < s.wfd.length then
      if (s.wfd.fds i).fd = -1 then
        compactFrom fuel (Uint32.succ (Uint32.pred i))
          (moveDown (Uint32.pred s.wfd.length - i) i s).shorten
      else compactFrom fuel (Uint32.succ i) s
    else s

/-- The compaction. Each round takes one more entry or closes one hole, so there
are `length` rounds. -/
def compact (s : Server) : Server := compactFrom s.wfd.length 0 s

/-- The part of the round before the sweep: `wasio_poll`, and its result. -/
def poll (r : Round) (s : Server) : WasioResult × Option ℕ × Server :=
  let (reply, wfd) := wasioPoll s.wfd timeout r.revents r.host
  (reply.result, reply.count, { s with wfd := wfd, compressPollfd := false }.emit (.call reply.call))

/-- **A round of the request loop.** It has no result where the loop has ended, or
where an assertion fails. -/
def requestLoop (r : Round) (s : Server) : Option Server :=
  if s.endServer then none
  else
    match poll r s with
    | (.ok, some nready, s) =>
      if nready = 0 then some { s with endServer := true }
      else
        (sweep r s.wfd.length 0 s).map fun s => if s.compressPollfd then compact s else s
    | (_, _, s) => some s

/-- **`main` up to its request loop**, given the answer of `host_listen`. It has no
result where the server exits at once. -/
def serverMain (host : HostAnswer) : Option Server :=
  let wfd : WasioPollfd :=
    { capacity := MAX_CONNECTIONS
      length := 0
      fds := fun _ => { fd := -1, events := 0, revents := 0 } }
  match wasioListen wfd 8080 (MAX_CONNECTIONS * 2) host with
  | some (⟨call, .ok, some listenFd, _⟩, wfd) =>
    some
      { wfd := wfd
        fibers := Function.update (fun _ => ⟨0, 0⟩) 0 ⟨listenerFiber, listenFd⟩
        endServer := false
        compressPollfd := false
        fd := -1
        allocated := listenerFiber
        events := [.call call] }
  | _ => none

/-! ### Runs -/

/-- A round as a transition. -/
def Tr (s : Server) (r : Round) (t : Server) : Prop := requestLoop r s = some t

/-- **A run of the server**, from the start of its request loop. -/
def Run (host : HostAnswer) (l : List Round) (s : Server) : Prop :=
  ∃ s₀, serverMain host = some s₀ ∧ Lts.Steps Tr s₀ l s

/-- The state after the rounds `l`. -/
def serve (host : HostAnswer) (l : List Round) : Option Server :=
  (serverMain host).bind fun s => Lts.exec (fun s r => requestLoop r s) s l

theorem run_of_serve {host : HostAnswer} {l : List Round} {s : Server} (h : s ∈ serve host l) :
    Run host l s := by
  obtain ⟨s₀, hstart, hsteps⟩ := Option.bind_eq_some_iff.mp h
  exact ⟨s₀, hstart, Lts.exec_eq_some_iff.mp hsteps⟩

end FiberServer

end Waeio
