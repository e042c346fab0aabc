import Mathlib.Data.Multiset.AddSub
import Waeio.Lib.LinkedList
import Waeio.Scheduler.Basic

/-!
# The ready queues in memory

`Waeio.Scheduler.Basic` has the two queues as lists. Here they are what the source
has: nodes that `malloc` hands out and `free` takes back, two queue heads of which
`malloc` leaves the contents to chance, and the pointers `ctl.frontq` and `ctl.rearq`
to them. `Waeio.Scheduler.Memory` holds them, `Waeio.Scheduler.MemState` the rest of
the scheduler beside them, and `Waeio.Scheduler.memStep` is a step with its queue
operations performed in memory. The addresses `malloc` returns are arguments.

What has been given to `queue_push` and not returned by `queue_pop` is a history of
the queue operations, `Waeio.Scheduler.Pending`.
-/

namespace Waeio

namespace Scheduler

open LinkedList (Node Heap)

/-! ### The queue operations -/

/-- The queues: their nodes, the field `next` of each `struct queue`, and the two
pointers in `ctl`. -/
structure Memory where
  /-- The nodes, each a `struct qnode`. -/
  nodes : Heap Closure
  /-- The field `next` of the `struct queue` at an address. -/
  heads : ℕ → ℕ
  /-- `ctl.frontq` -/
  frontq : ℕ
  /-- `ctl.rearq` -/
  rearq : ℕ

namespace Memory

/-- `queue_push(q, clo)`, where `malloc` returns `node`. -/
def queuePush (m : Memory) (q : ℕ) (clo : Closure) (node : ℕ) : Memory :=
  { m with
    nodes := Function.update m.nodes node (some ⟨m.heads q, clo⟩)
    heads := Function.update m.heads q node }

/-- `queue_pop(q)`. It has no result where the pointer is not one to a node. -/
def queuePop (m : Memory) (q : ℕ) : Option (Closure × Memory) :=
  match m.nodes (m.heads q) with
  | some ⟨next, clo⟩ =>
    some (clo,
      { m with
        nodes := Function.update m.nodes (m.heads q) none
        heads := Function.update m.heads q next })
  | none => none

/-- `queue_is_empty(q)` -/
def queueIsEmpty (m : Memory) (q : ℕ) : Bool := m.heads q == 0

/-- `queue_swap()` -/
def queueSwap (m : Memory) : Memory := { m with frontq := m.rearq, rearq := m.frontq }

/-- An address `malloc` may return: it is not null, and no node has it. -/
def Fresh (m : Memory) (node : ℕ) : Prop := node ≠ 0 ∧ m.nodes node = none

instance (m : Memory) (node : ℕ) : Decidable (m.Fresh node) := inferInstanceAs (Decidable (_ ∧ _))

/-- `queue_push(ctl.rearq, ..)` for each of the closures, where `malloc` returns
`nodes`. -/
def pushAll (m : Memory) : List Closure → List ℕ → Option Memory
  | [], _ => some m
  | clo :: clos, node :: nodes =>
    if m.Fresh node then pushAll (m.queuePush m.rearq clo node) clos nodes else none
  | _ :: _, [] => none

end Memory

/-! ### The steps -/

/-- The state with the queues in memory. The lists of `rest` stand for nothing. -/
structure MemState where
  /-- All but the queues. -/
  rest : State
  /-- The queues. -/
  mem : Memory

/-- What `handle_request` gives to `queue_push`: `child` is the fiber that
`fiber_alloc` returns. -/
def requested (status : FiberStatus) (payload : Cmd) (yieldee child : ℕ) : List Closure :=
  match status, payload.tag with
  | .yield, some .async => [⟨child, payload.arg.toInt⟩, ⟨yieldee, 0⟩]
  | .yield, some .suspend => [⟨yieldee, 0⟩]
  | _, _ => []

/-- A call of a queue function. -/
inductive QueueEvent
  /-- `queue_push(ctl.rearq, clo)` -/
  | push (clo : Closure) : QueueEvent
  /-- `queue_pop(ctl.frontq)`, which returned `clo`. -/
  | pop (clo : Closure) : QueueEvent
  /-- `queue_swap()` -/
  | swap : QueueEvent
  deriving DecidableEq, Repr

/-- The head of the loop over the front queue. -/
def memPopStep (s : MemState) : Option (List QueueEvent × MemState) :=
  match s.rest.pc with
  | .ready status true =>
    if s.mem.queueIsEmpty s.mem.frontq then none
    else
      match s.mem.queuePop s.mem.frontq with
      | some (clo, mem) =>
        some ([.pop clo], ⟨fiberResume s.rest clo.fiber clo.arg .queue status true, mem⟩)
      | none => some ([], { s with rest := { s.rest with pc := .stray } })
  | _ => none

/-- The running fiber stops, and `handle_request` pushes what is asked of it. -/
def memStopStep (s : MemState) (o : Outcome) (nodes : List ℕ) :
    Option (List QueueEvent × MemState) :=
  match s.rest.pc with
  | .running f site status _ _ =>
    let clos := requested (statusAfter site status o) o.payload f s.rest.allocated
    (stopStep s.rest o).bind fun rest =>
      (s.mem.pushAll clos nodes).map fun mem => (clos.map .push, ⟨rest, mem⟩)
  | _ => none

/-- `queue_swap` and `wasio_poll`, once the loop over the front queue has
ended. -/
def memPollStep (s : MemState) (revents : ℕ → BitVec 16) (host : HostAnswer) :
    Option (List QueueEvent × MemState) :=
  match s.rest.pc with
  | .ready status keepGoing =>
    if s.mem.queueIsEmpty s.mem.frontq || !keepGoing then
      let (reply, wfd) := wasioPoll s.rest.wfd 0 revents host
      some ([.swap],
        { rest :=
            { s.rest with
              wfd := wfd
              pc := if reply.result = .ok then .events 0 status keepGoing else .leaving }
          mem := s.mem.queueSwap })
    else none
  | _ => none

/-- **One step of the scheduler with its queues in memory**: the calls of the queue
functions, and the state afterwards. -/
def memStep (s : MemState) (nodes : List ℕ) : Act → Option (List QueueEvent × MemState)
  | .pop => memPopStep s
  | .stop o => memStopStep s o nodes
  | .poll revents host => memPollStep s revents host
  | a => (step s.rest a).map fun rest => ([], { s with rest := rest })

/-- What the environment decides at the start: what it decides in the source, and the
addresses `malloc` returns for the two queue heads and the first node. -/
structure MemStart where
  /-- The start without the queues in memory. -/
  start : Start
  /-- The first address. -/
  frontq : ℕ
  /-- The second address. -/
  rearq : ℕ
  /-- The third address. -/
  node : ℕ
  /-- Live allocations do not overlap. -/
  frontq_ne_rearq : frontq ≠ rearq
  /-- Nor is a node at the null pointer. -/
  node_ne_zero : node ≠ 0

/-- The queues before the first push. -/
def MemStart.heads (e : MemStart) : Memory where
  nodes := fun _ => none
  heads := Function.update (Function.update (fun _ => 0) e.frontq e.start.frontHead) e.rearq
    e.start.rearHead
  frontq := e.frontq
  rearq := e.rearq

/-- **`waeio_main` up to its loop**, with the queues in memory. -/
def memMain (e : MemStart) : Option MemState :=
  (waeioMain e.start).map fun s =>
    ⟨s, e.heads.queuePush e.frontq ⟨mainfiber, e.start.address⟩ e.node⟩

/-! ### What has been pushed and not popped -/

/-- What has been pushed and not popped. -/
structure Pending where
  /-- To the queue at `ctl.frontq`. -/
  front : Multiset Closure
  /-- To the queue at `ctl.rearq`. -/
  rear : Multiset Closure

/-- **What has been pushed and not popped**, after one more call. -/
def Pending.after (h : Pending) : QueueEvent → Pending
  | .push clo => { h with rear := clo ::ₘ h.rear }
  | .pop clo => { h with front := h.front.erase clo }
  | .swap => ⟨h.rear, h.front⟩

/-- At the start of the loop the closure of the listener has been pushed. -/
def Pending.start (e : MemStart) : Pending := ⟨{⟨mainfiber, e.start.address⟩}, 0⟩

/-- **A step as a transition**, labelled by what happens and the calls of the queue
functions; `malloc` may return any addresses. -/
def MemTr (s : MemState) (a : Act × List QueueEvent) (t : MemState) : Prop :=
  ∃ nodes, memStep s nodes a.1 = some (a.2, t)

/-- A step, with what has been pushed and not popped beside the state. -/
abbrev PendingTr : Pending × MemState → Act × List QueueEvent → Pending × MemState → Prop :=
  Lts.Observed (fun h _ a _ => a.2.foldl Pending.after h) MemTr

end Scheduler

end Waeio
