import Waeio.HttpServer.Code
import Waeio.Lib.Steps

/-!
# The server loop

`main` of `examples/httpserver/httpserver.c`, one step for each `fiber_resume`, each answer
of the host, and each step of a loop that does neither. A round of the loop resumes the
fibers of the queue, polls the host, and resumes the fiber in the table `fibers` of each
slot with an event. When a fiber has asked to quit, the fibers in the table are resumed
once more, with the kill signal.

`fiber_resume` on a fiber that cannot be resumed, or on the null pointer, which is the
fiber `0` here, is not for C to say: the program is at the point `stray` then, and takes no
step.
-/

namespace Waeio

namespace HttpServer

namespace Main

open FiberServer (FIBER_KILL_SIGNAL FiberClosure)
open Http (Answer)
open WasioHost (Ready)

/-! ### The state -/

/-- The call of `fiber_resume` a fiber runs in. -/
inductive Site
  /-- That for the entry `i` of the queue. -/
  | queue (i : ℕ) : Site
  /-- That for an event on the slot `v`. -/
  | event (v : ℕ) : Site
  /-- That for the entry `i` of the table, after the loop. -/
  | kill (i : ℕ) : Site
  deriving DecidableEq, Repr

/-- **Where `main` is.** -/
inductive Pc
  /-- In the loop over the queue, before the entry `i`. -/
  | front (i : ℕ) : Pc
  /-- Before `wasio_poll`. -/
  | poll : Pc
  /-- In the loop over the slots, before the slot `i`. -/
  | scan (i : ℕ) : Pc
  /-- Before `fq_swap`. -/
  | swap : Pc
  /-- A fiber runs. -/
  | running (site : Site) (clo : FiberClosure) : Pc
  /-- In `handle_request`, before `wasio_close`. -/
  | closing (site : Site) (clo : FiberClosure) : Pc
  /-- In the loop over the table, before the entry `i`. -/
  | kill (i : ℕ) : Pc
  /-- The program has ended. -/
  | exited : Pc
  /-- The program was aborted. -/
  | aborted : Pc
  /-- A fiber was resumed that cannot be. -/
  | stray : Pc
  deriving DecidableEq, Repr

/-- **The state of the program.** -/
structure Program where
  /-- Its variables, and its fibers. -/
  srv : Server
  /-- Where `main` is. -/
  pc : Pc

/-- What happens in a step. -/
inductive Act
  /-- `main` goes on. -/
  | tau : Act
  /-- A fiber is resumed, if the fiber library manages to. -/
  | resume (resumed : Bool) : Act
  /-- The host answers. -/
  | answer (a : Answer) : Act

/-- `wfd.vfds[i].revents = 0` -/
def clear (i : ℕ) (s : Server) : Server :=
  { s with wfd := { s.wfd with
    vfds := Function.update s.wfd.vfds i { s.wfd.vfds i with revents := 0 } } }

/-! ### When a fiber stops -/

/-- Where `main` goes on behind `handle_request`. -/
def after : Site → Pc
  | .queue i => .front (i + 1)
  | .event v => .scan (v + 1)
  | .kill i => .kill (i + 1)

/-- `main` leaves its loop. -/
def leave (s : Server) : Site → Program
  | .event _ => ⟨s.swap, .kill 0⟩
  | .queue _ | .kill _ => ⟨s, .kill 0⟩

/-- The end of the body of the loop over the table. -/
def killed (i : ℕ) (s : Server) : Program :=
  ⟨{ s.setFrame (s.fibers i).fiber .freed with
      fibers := Function.update s.fibers i { s.fibers i with fd := -1 }
      clients := if i = 0 then s.clients else Uint32.pred s.clients }, .kill (i + 1)⟩

/-- **What `main` does when the fiber of `clo` has run a piece of its code**: nothing while
it is at a call of the host, and else `handle_request`, or, in the loop over the table, the
assertion that it has returned. -/
def back (site : Site) (clo : FiberClosure) (s : Server) : Program :=
  match s.frames clo.fiber with
  | .running _ => ⟨s, .running site clo⟩
  | .finished =>
    match site with
    | .kill i => killed i s
    | .queue _ | .event _ => ⟨s, .closing site clo⟩
  | _ =>
    match site with
    | .kill _ => ⟨s, .aborted⟩
    | .queue _ | .event _ =>
      match handleYield clo s with
      | some (true, s) => ⟨s, after site⟩
      | some (false, s) => leave s site
      | none => ⟨s, .aborted⟩

/-! ### The steps -/

/-- A step of a loop that resumes no fiber. -/
def tauStep (p : Program) : Option Program :=
  match p.pc with
  | .front i => if i < p.srv.frontq.length then none else some ⟨p.srv, .poll⟩
  | .scan i =>
    if i < p.srv.wfd.length then if Ready p.srv.wfd i then none else some ⟨p.srv, .scan (i + 1)⟩
    else some ⟨p.srv, .swap⟩
  | .swap => some ⟨p.srv.swap, .front 0⟩
  | .kill i =>
    if i < FiberServer.MAX_CONNECTIONS then
      if (p.srv.fibers i).fd = -1 then some ⟨p.srv, .kill (i + 1)⟩ else none
    else if p.srv.clients = 0 then some ⟨p.srv, .exited⟩
    else some ⟨p.srv, .aborted⟩
  | _ => none

/-- **The `fiber_resume` `main` is at**: where, with what closure and what argument, and
the state before it. -/
def target (p : Program) : Option (Site × FiberClosure × ℤ × Server) :=
  match p.pc with
  | .front i => p.srv.frontq[i]?.map fun clo => (.queue i, clo, clo.fd, p.srv)
  | .scan i =>
    if i < p.srv.wfd.length ∧ Ready p.srv.wfd i then
      some (.event i, p.srv.fibers i, 0, clear i p.srv)
    else none
  | .kill i =>
    if i < FiberServer.MAX_CONNECTIONS ∧ (p.srv.fibers i).fd ≠ -1 then
      some (.kill i, p.srv.fibers i, FIBER_KILL_SIGNAL, p.srv)
    else none
  | _ => none

/-- `fiber_resume` -/
def fiberResume (env : Env) (resumed : Bool) (site : Site) (clo : FiberClosure) (arg : ℤ)
    (s : Server) : Program :=
  if (s.frames clo.fiber).Suspended then
    if resumed then back site clo (resume env clo.fiber arg s) else ⟨s, .aborted⟩
  else ⟨s, .stray⟩

/-- The answer to `wasio_poll`. -/
def polled (s : Server) (a : Answer) : Program :=
  match wasioPoll s.wfd 100 a.revents a.toHostAnswer with
  | (⟨_, .ok, _, some nevents⟩, wfd) =>
    ⟨{ s with wfd := wfd }, if 0 < nevents then .scan 0 else .swap⟩
  | (_, wfd) => ⟨{ s with wfd := wfd }, .aborted⟩

/-- The answer of the host. -/
def answerStep (env : Env) (p : Program) (a : Answer) : Option Program :=
  match p.pc with
  | .poll => some (polled p.srv a)
  | .running site clo =>
    match answered env clo.fiber p.srv a with
    | some s => some (back site clo s)
    | none => some ⟨p.srv, .aborted⟩
  | .closing site clo =>
    match handleDone clo p.srv a.toHostAnswer with
    | some s => some ⟨s, after site⟩
    | none => some ⟨p.srv, .aborted⟩
  | _ => none

/-- **One step of the program.** -/
def step (env : Env) (p : Program) : Act → Option Program
  | .tau => tauStep p
  | .resume resumed =>
    (target p).map fun (site, clo, arg, s) => fiberResume env resumed site clo arg s
  | .answer a => answerStep env p a

/-- A step as a transition. -/
def Tr (env : Env) (p : Program) (a : Act) (q : Program) : Prop := step env p a = some q

/-- **The start of the loop.** -/
def start (s : Server) : Program := ⟨s, .front 0⟩

end Main

end HttpServer

end Waeio
