import Mathlib.Data.Finset.Insert
import Waeio.Scheduler.Command
import Waeio.WasioHost.Basic

/-!
# The scheduler

`src/waeio.c` over the virtual-descriptor table: two queues of fibers that are
ready, a table `fibers` that says which fiber a virtual descriptor belongs to,
and a loop that runs the ready fibers, polls, and runs the fibers of the
descriptors an event is reported on.

The scheduler is a machine whose state holds the structure `ctl`, what the fiber
library knows, and the point the program is at (`Waeio.Scheduler.Pc`). One step
of the machine is one of:

* `pop` – `run_next` resumes the fiber at the head of the front queue;
* `visit` – `run_next` resumes the fiber of the next descriptor with an event;
* `io` – the running fiber performs an operation on the table, in a call of the
  interface or in a `waeio_close` of its own;
* `stop` – the running fiber yields, returns or fails, and `handle_request`
  processes that;
* `poll`, `round`, `exit` – the queues are swapped and the host is polled; the
  next `run_next` begins; `waeio_main` cleans up.

What the fibers and the host do is in the labels, so a run is any behaviour of
any fibers. Two things the source leaves to chance are arguments as well: what
the variable `status` of `run_next` holds before it is set, and what `malloc`
left in the heads of the two queues, whose field `next` is never set.

In the poll phase `run_next` calls `fiber_resume(fiber, &status, 0)`: the address
of `status` is what the fiber receives, and no place is given for the result. So
`handle_request` is handed what `status` held before.

A step has no result where the program aborts or leaves an array. Resuming a
fiber that is not live leads to the point `stray`, from which nothing is known.
-/

namespace Waeio

/-- `MAX_CONNECTIONS`, as the build defines it. -/
def MAX_CONNECTIONS : ℕ := 1024

namespace Scheduler

/-! ### Queues -/

/-- `struct fiber_closure`; the pointer `arg` as a number. -/
structure Closure where
  /-- The fiber. -/
  fiber : ℕ
  /-- What it is resumed with. -/
  arg : ℤ
  deriving DecidableEq, Repr

/-- `struct queue`: the closures in its nodes, and the pointer the last node ends
in, which is what the head held at first. -/
structure Queue where
  /-- The closures, from the head on. -/
  nodes : List Closure
  /-- The pointer after the last node; `0` is `NULL`. -/
  tail : ℕ
  deriving DecidableEq, Repr

/-- `queue_push` -/
def queuePush (q : Queue) (clo : Closure) : Queue := { q with nodes := clo :: q.nodes }

/-- `queue_is_empty` -/
def queueIsEmpty (q : Queue) : Bool := q.nodes.isEmpty && q.tail == 0

/-- `queue_pop`, when there is a node to pop. -/
def queuePop (q : Queue) : Option (Closure × Queue) :=
  match q.nodes with
  | clo :: nodes => some (clo, { q with nodes := nodes })
  | [] => none

/-! ### The state -/

/-- The call of `fiber_resume` a fiber runs in. -/
inductive Site
  /-- That for the front queue. -/
  | queue : Site
  /-- That in the poll phase, at the virtual descriptor `vfd`. -/
  | event (vfd : ℕ) : Site
  deriving DecidableEq, Repr

/-- **Where the program is**, with the variables `status` and `keep_going` of
`run_next`. -/
inductive Pc
  /-- At the head of the loop over the front queue. -/
  | ready (status : FiberStatus) (keepGoing : Bool) : Pc
  /-- In the poll phase, before the virtual descriptor `vfd`. -/
  | events (vfd : ℕ) (status : FiberStatus) (keepGoing : Bool) : Pc
  /-- In the fiber `fiber`. -/
  | running (fiber : ℕ) (site : Site) (status : FiberStatus) (keepGoing : Bool) (frame : Frame) : Pc
  /-- Behind the scheduling loop. -/
  | leaving : Pc
  /-- Behind the clean-up. -/
  | done : Pc
  /-- A fiber was resumed that is not live. -/
  | stray : Pc
  deriving DecidableEq, Repr

/-- **The state of the scheduler**: the structure `ctl`, the fibers, and the
point the program is at. -/
structure State where
  /-- The number of connections, a `uint32_t`. -/
  nconns : ℕ
  /-- The number of connections there is space for. -/
  maxConns : ℕ
  /-- The queue that is run. -/
  frontq : Queue
  /-- The queue that is filled. -/
  rearq : Queue
  /-- The table of virtual descriptors. -/
  wfd : WasioPollfd
  /-- The fiber of each virtual descriptor. -/
  fibers : ℕ → Option ℕ
  /-- The number of fibers `fiber_alloc` has made, which are numbered from `0`. -/
  allocated : ℕ
  /-- The fibers that have returned. -/
  returned : Finset ℕ
  /-- The fibers that were released, by `free` or by `fiber_free`. -/
  released : List ℕ
  /-- The call each fiber is suspended in. -/
  pending : ℕ → Option Call
  /-- The virtual descriptor of the listening socket. -/
  servsock : ℕ
  /-- Where the program is. -/
  pc : Pc

/-- The fiber of `waeio_main`, which is the first to be allocated. -/
def mainfiber : ℕ := 0

/-- **The fiber is live**: it was allocated, and has not returned. -/
def State.Live (s : State) (f : ℕ) : Prop := f < s.allocated ∧ f ∉ s.returned

instance (s : State) (f : ℕ) : Decidable (s.Live f) := inferInstanceAs (Decidable (_ ∧ _))

/-- `ctl.nconns == ctl.max_conns` -/
def State.full (s : State) : Bool := s.nconns == s.maxConns

/-! ### Requests -/

/-- `queue_push(ctl.rearq, ..)` -/
def pushRear (s : State) (fiber : ℕ) (arg : ℤ) : State :=
  { s with rearq := queuePush s.rearq ⟨fiber, arg⟩ }

/-- The case `ASYNC` up to where it falls through: allocate a fiber for `vfd` and
enqueue it. -/
def spawn (s : State) (vfd : BitVec 32) : State :=
  pushRear
    { s with
      allocated := s.allocated + 1
      fibers := Function.update s.fibers vfd.toNat (some s.allocated) }
    s.allocated vfd.toInt

/-- **`handle_request`**: the state afterwards, and whether to keep going. It has
no result where it aborts, or indexes an array with a descriptor that is too
large. -/
def handleRequest (s : State) (yieldee : ℕ) (status : FiberStatus) (payload : Cmd) :
    Option (State × Bool) :=
  match status with
  | .ok =>
    some ({ s with nconns := Uint32.pred s.nconns, released := yieldee :: s.released }, true)
  | .error => none
  | .other => some (s, true)
  | .yield =>
    match payload.tag with
    | some .async =>
      if payload.arg.toNat < MAX_CONNECTIONS then
        some (pushRear (spawn s payload.arg) yieldee 0, true)
      else none
    | some .suspend => some (pushRear s yieldee 0, true)
    | some .accept | some .recv =>
      if payload.arg.toNat < s.wfd.capacity then
        some ({ s with wfd := (wasioNotifyRecv s.wfd payload.arg.toNat).2 }, true)
      else none
    | some .send =>
      if payload.arg.toNat < s.wfd.capacity then
        some ({ s with wfd := (wasioNotifySend s.wfd payload.arg.toNat).2 }, true)
      else none
    | some .quit => some (s, false)
    | none => some (s, true)

/-! ### Resuming and running fibers -/

/-- **`fiber_resume`**: a live fiber goes on in its own code or in the call it is
suspended in. -/
def fiberResume (s : State) (f : ℕ) (arg : ℤ) (site : Site) (status : FiberStatus)
    (keepGoing : Bool) : State :=
  if s.Live f then
    { s with pc := .running f site status keepGoing (((s.pending f).map (Call.resume arg)).getD .user) }
  else { s with pc := .stray }

/-- The head of the loop over the front queue: pop a closure and resume its
fiber. -/
def popStep (s : State) : Option State :=
  match s.pc with
  | .ready status true =>
    if queueIsEmpty s.frontq then none
    else
      match queuePop s.frontq with
      | some (clo, q) => some (fiberResume { s with frontq := q } clo.fiber clo.arg .queue status true)
      | none => some { s with pc := .stray }
  | _ => none

/-- What `WASIO_EVENT_FOREACH` tests of a virtual descriptor. -/
def hasEvent (wfd : WasioPollfd) (vfd : ℕ) : Bool :=
  (wfd.vfds vfd).fd != -1 && (wfd.vfds vfd).revents != 0

/-- The next virtual descriptor that `WASIO_EVENT_FOREACH` visits, from `vfd`
on. -/
def nextEvent (wfd : WasioPollfd) (vfd : ℕ) : Option ℕ :=
  (List.range' vfd (wfd.capacity - vfd)).find? (hasEvent wfd)

/-- The poll phase: resume the fiber of the next descriptor with an event, with
the address of `status`. -/
def visitStep (s : State) (address : ℤ) : Option State :=
  match s.pc with
  | .events i status keepGoing =>
    match nextEvent s.wfd i with
    | some vfd =>
      match s.fibers vfd with
      | some f => some (fiberResume s f address (.event vfd) status keepGoing)
      | none => some { s with pc := .stray }
    | none => none
  | _ => none

/-- Where a fiber is after an operation of a call. -/
def afterIo (call : Call) (r : WasioHost.Reply) : Frame :=
  if r.result = .eagain then .again call else .user

/-- The operations of a running fiber: what a call does after its resumption, and
`waeio_close`; with where the fiber is afterwards. -/
def ioFrame (full : Bool) (op : WasioHost.Op) (r : WasioHost.Reply) : Frame → Option Frame
  | .user =>
    match op with
    | .close _ _ => some .user
    | _ => none
  | .resumed (.accept vfd) =>
    match op with
    | .accept v _ => if !full ∧ v = vfd.toNat then some (afterIo (.accept vfd) r) else none
    | _ => none
  | .resumed (.recv vfd len) =>
    match op with
    | .recv v n _ => if v = vfd.toNat ∧ n = len then some (afterIo (.recv vfd len) r) else none
    | _ => none
  | .resumed (.send vfd len) =>
    match op with
    | .send v n _ => if v = vfd.toNat ∧ n = len then some (afterIo (.send vfd len) r) else none
    | _ => none
  | _ => none

/-- The running fiber performs an operation on the table. -/
def ioStep (s : State) (op : WasioHost.Op) : Option State :=
  match s.pc with
  | .running f site status keepGoing frame =>
    if WasioHost.Admissible s.wfd op then
      match WasioHost.perform s.wfd op with
      | some (r, wfd) =>
        match ioFrame s.full op r frame with
        | some frame' => some { s with wfd := wfd, pc := .running f site status keepGoing frame' }
        | none => none
      | none => none
    else none
  | _ => none

/-- What the fiber library and the frame of the fiber record when it stops. -/
def recordStop (s : State) (f : ℕ) : Outcome → State
  | .yields call _ => { s with pending := Function.update s.pending f (some call) }
  | .returns _ => { s with returned := insert f s.returned }
  | .fails _ => s

theorem recordStop_allocated (s : State) (f : ℕ) (o : Outcome) :
    (recordStop s f o).allocated = s.allocated := by
  cases o <;> rfl

theorem recordStop_pc (s : State) (f : ℕ) (o : Outcome) : (recordStop s f o).pc = s.pc := by
  cases o <;> rfl

/-- What `handle_request` is given as the status. In the poll phase `fiber_resume`
has not set the variable. -/
def statusAfter (site : Site) (status : FiberStatus) (o : Outcome) : FiberStatus :=
  match site with
  | .queue => o.status
  | .event _ => status

/-- Where the program goes on after `handle_request`. -/
def pcAfter (site : Site) (status : FiberStatus) (keepGoing answer : Bool) : Pc :=
  match site with
  | .queue => .ready status answer
  | .event vfd => if answer then .events (vfd + 1) status keepGoing else .leaving

/-- **The running fiber stops**, and `handle_request` processes what it yielded or
returned. In the poll phase the source reads `ctl.fibers[vfd]` once more for the
fiber; no fiber writes to it. -/
def stopStep (s : State) (o : Outcome) : Option State :=
  match s.pc with
  | .running f site status keepGoing frame =>
    if frame.mayStop s.full o then
      match handleRequest (recordStop s f o) f (statusAfter site status o) o.payload with
      | some (s', answer) =>
        some { s' with pc := pcAfter site (statusAfter site status o) keepGoing answer }
      | none => none
    else none
  | _ => none

/-! ### The loop -/

/-- `queue_swap` and `wasio_poll`, once the loop over the front queue has
ended. -/
def pollStep (s : State) (revents : ℕ → BitVec 16) (host : HostAnswer) : Option State :=
  match s.pc with
  | .ready status keepGoing =>
    if queueIsEmpty s.frontq || !keepGoing then
      let (reply, wfd) := wasioPoll s.wfd 0 revents host
      some
        { s with
          frontq := s.rearq
          rearq := s.frontq
          wfd := wfd
          pc := if reply.result = .ok then .events 0 status keepGoing else .leaving }
    else none
  | _ => none

/-- The end of `run_next`: the next one begins, with whatever its `status` holds,
or the loop of `waeio_main` ends. -/
def roundStep (s : State) (status : FiberStatus) : Option State :=
  match s.pc with
  | .events i _ keepGoing =>
    match nextEvent s.wfd i with
    | some _ => none
    | none => some { s with pc := if keepGoing then .ready status true else .leaving }
  | _ => none

/-- The clean-up of `waeio_main`. The result of the `wasio_close` is ignored, and
what is released after it is memory of the scheduler's own. -/
def exitStep (s : State) (host : HostAnswer) : Option State :=
  match s.pc with
  | .leaving =>
    if WasioHost.Admissible s.wfd (.close s.servsock host) then
      match wasioClose s.wfd s.servsock host with
      | some (_, wfd) =>
        some { s with released := mainfiber :: s.released, wfd := wfd, pc := .done }
      | none => none
    else none
  | _ => none

/-- What happens in a step. -/
inductive Act
  /-- The fiber at the head of the front queue is resumed. -/
  | pop : Act
  /-- The fiber of the next descriptor with an event is resumed, `address` being
  that of `status`. -/
  | visit (address : ℤ) : Act
  /-- The running fiber performs an operation on the table. -/
  | io (op : WasioHost.Op) : Act
  /-- The running fiber stops. -/
  | stop (o : Outcome) : Act
  /-- The host is polled. -/
  | poll (revents : ℕ → BitVec 16) (host : HostAnswer) : Act
  /-- `run_next` returns, and begins again with this `status`. -/
  | round (status : FiberStatus) : Act
  /-- `waeio_main` cleans up. -/
  | exit (host : HostAnswer) : Act

/-- **One step of the scheduler.** -/
def step (s : State) : Act → Option State
  | .pop => popStep s
  | .visit address => visitStep s address
  | .io op => ioStep s op
  | .stop o => stopStep s o
  | .poll revents host => pollStep s revents host
  | .round status => roundStep s status
  | .exit host => exitStep s host

/-- What the environment decides at the start: the two words `malloc` returned in
the queue heads, the answer to `host_listen`, the address of `servsock`, and what
the first `status` holds. -/
structure Start where
  /-- `ctl.frontq->next` -/
  frontHead : ℕ
  /-- `ctl.rearq->next` -/
  rearHead : ℕ
  /-- The answer to `host_listen`. -/
  host : HostAnswer
  /-- `&servsock` -/
  address : ℤ
  /-- The variable `status` of the first `run_next`. -/
  status : FiberStatus

end Scheduler

open Scheduler

/-- **`waeio_main` up to its loop.** It has no result where an assertion fails. -/
def waeioMain (e : Scheduler.Start) : Option Scheduler.State :=
  match wasioInit MAX_CONNECTIONS true with
  | (.ok, some wfd) =>
    match wasioListen wfd 8080 1000 e.host with
    | (⟨_, .ok, some servsock, _⟩, wfd) =>
      some
        { nconns := Uint32.succ 0
          maxConns := MAX_CONNECTIONS
          frontq := queuePush ⟨[], e.frontHead⟩ ⟨mainfiber, e.address⟩
          rearq := ⟨[], e.rearHead⟩
          wfd := wfd
          fibers := Function.update (fun _ => none) servsock (some mainfiber)
          allocated := mainfiber + 1
          returned := ∅
          released := []
          pending := fun _ => none
          servsock := servsock
          pc := .ready e.status true }
    | _ => none
  | _ => none

namespace Scheduler

/-- **A step as a transition.** -/
def Tr (s : State) (a : Act) (t : State) : Prop := step s a = some t

/-- **A run of the scheduler**, from the start of the loop of `waeio_main`. -/
def Run (e : Start) (l : List Act) (s : State) : Prop :=
  ∃ s₀, waeioMain e = some s₀ ∧ Lts.Steps Tr s₀ l s

/-! ### Runs that are computed -/

/-- A start with nothing left to chance: both queues end in `NULL`, and the
listening socket is the descriptor 3. -/
def Start.clean : Start where
  frontHead := 0
  rearHead := 0
  host := ⟨3, 0⟩
  address := 4096
  status := .other

/-- Poll results that report the events `b` on the descriptor `v` alone. -/
def eventOn (v : ℕ) (b : BitVec 16) : ℕ → BitVec 16 := fun u => if u = v then b else 0

/-- **The first connection** of a server: the listener waits on the slot 0, the
host reports it, the listener accepts a connection into the slot 1 and asks for a
fiber to serve it. -/
def firstConnection : List Act :=
  [.pop, .stop (.yields (.accept 0) 0), .poll (eventOn 0 POLLIN) ⟨1, 0⟩, .visit 4096,
    .io (.accept 0 ⟨5, 0⟩), .stop (.yields (.async 7 1) 0)]

/-- The state after the steps `l`. -/
def after (l : List Act) : Option State :=
  (waeioMain .clean).bind fun s => Lts.exec step s l

/-- The state after the steps `l`, if they all meet the condition `C`. -/
def afterIf (C : State → Act → Prop) [∀ s a, Decidable (C s a)] (l : List Act) : Option State :=
  (waeioMain .clean).bind fun s => Lts.exec (fun s a => if C s a then step s a else none) s l

theorem guarded_of_afterIf {C : State → Act → Prop} [∀ s a, Decidable (C s a)] {l : List Act}
    {s : State} (h : s ∈ afterIf C l) :
    ∃ s₀, waeioMain .clean = some s₀ ∧ Lts.Steps (Lts.Guarded Tr C) s₀ l s := by
  obtain ⟨s₀, hstart, hsteps⟩ := Option.bind_eq_some_iff.mp h
  exact ⟨s₀, hstart, Lts.guarded_of_exec hsteps⟩

theorem run_of_after {l : List Act} {s : State} (h : s ∈ after l) : Run .clean l s := by
  obtain ⟨s₀, hstart, hsteps⟩ := Option.bind_eq_some_iff.mp h
  exact ⟨s₀, hstart, Lts.exec_eq_some_iff.mp hsteps⟩

end Scheduler

end Waeio
