import Waeio.Http.Serving
import Waeio.Lib.Steps
import Waeio.WasioHost.Basic

/-!
# The echo server

`examples/echoserver/echoserver.c` over `src/wasio_host.c`: one loop over `wasio_poll`, and
in it the body of `WASIO_EVENT_FOREACH` for each slot with an event. The table `buffers`
says of a slot whether the server has received on it: the entry is `NULL` until then, and
points to a block of `buffer_size` bytes from then on.

`WASIO_EVENT_FOREACH` is not in the repository. It runs its body once for each slot that is
bound and has an event, in any order. `malloc` finds a block, which may hold anything.

One step for each answer of the host, and for each slot the loop turns to. What comes
between two calls of the host belongs to the step before; where the server closes the
connections because a client has asked it to quit, `nclients` is decremented in the step of
the close, of which it is an argument.
-/

namespace Waeio

namespace EchoServer

open Http (Answer)
open WasioHost (Ready)

/-- `max_clients` -/
def MAX_CLIENTS : ℕ := 512

/-- `buffer_size` -/
def BUFFER_SIZE : ℕ := 4096

/-- **Where the server is.** -/
inductive Pc
  /-- Before `wasio_poll`. -/
  | poll : Pc
  /-- In `WASIO_EVENT_FOREACH`. -/
  | foreach : Pc
  /-- Before `wasio_accept`. -/
  | accept : Pc
  /-- Ready to receive on the slot `vfd`, before `wasio_recv`. -/
  | recv (vfd : ℕ) : Pc
  /-- Behind the receive, before `wasio_send` of `nrecv` bytes. -/
  | send (vfd nrecv : ℕ) : Pc
  /-- Behind that send, before `wasio_close`. -/
  | closeSent (vfd : ℕ) : Pc
  /-- Ready to send on the slot `vfd`, before `wasio_send`. -/
  | resend (vfd : ℕ) : Pc
  /-- Behind that send, before `wasio_close`. -/
  | closeResent (vfd : ℕ) : Pc
  /-- In the loop that closes the connections. -/
  | quit : Pc
  /-- Behind the loop over `wasio_poll`. -/
  | finish : Pc
  /-- The program has ended. -/
  | exited : Pc
  /-- The program was aborted. -/
  | aborted : Pc
  deriving DecidableEq, Repr

/-- **The state of the server**: the variables of `main`, and where it is. -/
structure Program where
  /-- `wfd` -/
  wfd : WasioPollfd
  /-- `sockfd` -/
  sockfd : ℕ
  /-- `nclients`, a `uint32_t`. -/
  nclients : ℕ
  /-- `buffers`, with the blocks it points to. -/
  buffers : ℕ → Option (ℕ → UInt8)
  /-- The slots `WASIO_EVENT_FOREACH` has turned to since the last poll. -/
  visited : List ℕ
  /-- Where it is. -/
  pc : Pc

/-- What happens in a step. -/
inductive Act
  /-- `WASIO_EVENT_FOREACH` turns to the slot `vfd`, and `malloc` would find this block. -/
  | visit (vfd : ℕ) (block : ℕ → UInt8) : Act
  /-- The server goes on. -/
  | tau : Act
  /-- The host answers. -/
  | answer (a : Answer) : Act

/-- `strncmp((const char*)buffer, "quit", strlen("quit")) == 0` -/
def startsWithQuit (buffer : ℕ → UInt8) : Bool := Http.startsWith buffer (some 0) "quit"

/-- The body of `WASIO_EVENT_FOREACH`, up to its first call of the host. -/
def body (vfd : ℕ) (block : ℕ → UInt8) (p : Program) : Program :=
  if vfd = p.sockfd then { p with pc := .accept }
  else
    match p.buffers vfd with
    | none => { p with buffers := Function.update p.buffers vfd (some block), pc := .recv vfd }
    | some _ => { p with pc := .resend vfd }

/-- The answer to `wasio_poll`. -/
def polled (p : Program) (a : Answer) : Program :=
  match wasioPoll p.wfd 1000 a.revents a.toHostAnswer with
  | (⟨_, .ok, _, _⟩, wfd) => { p with wfd := wfd, visited := [], pc := .foreach }
  | (_, wfd) => { p with wfd := wfd, pc := .finish }

/-- The answer to `wasio_accept`. -/
def accepted (p : Program) (a : Answer) : Program :=
  match wasioAccept p.wfd p.sockfd a.toHostAnswer with
  | (⟨_, .ok, some clientfd, _⟩, wfd) =>
    let wfd := (wasioNotifyRecv wfd clientfd).2
    { p with
      wfd := (wasioNotifyRecv wfd p.sockfd).2
      nclients := Uint32.succ p.nclients
      pc := .foreach }
  | (_, wfd) => { p with wfd := wfd, pc := .aborted }

/-- The answer to `wasio_recv`. -/
def received (vfd : ℕ) (p : Program) (a : Answer) : Program :=
  match p.buffers vfd, (wasioRecv p.wfd vfd BUFFER_SIZE a.toHostAnswer).1 with
  | some block, ⟨_, .ok, _, some nrecv⟩ =>
    let block := Http.write block 0 (a.received BUFFER_SIZE)
    { p with
      buffers := Function.update p.buffers vfd (some block)
      pc := if startsWithQuit block then .quit else .send vfd nrecv }
  | _, _ => { p with pc := .aborted }

/-- The answer to the `wasio_send` behind a receive. -/
def sent (vfd nrecv : ℕ) (p : Program) (a : Answer) : Program :=
  let r := (wasioSend p.wfd vfd nrecv a.toHostAnswer).1
  if r.result = .error ∧ (a.errno = HOST_EAGAIN ∨ a.errno = HOST_EWOULDBLOCK) then
    { p with wfd := (wasioNotifySend p.wfd vfd).2, pc := .foreach }
  else if r.result = .ok ∧ r.count.getD 0 < nrecv then
    { p with wfd := (wasioNotifySend p.wfd vfd).2, pc := .foreach }
  else { p with pc := .closeSent vfd }

/-- The answer to the `wasio_send` of a slot that is ready to send. -/
def resent (vfd : ℕ) (p : Program) (a : Answer) : Program :=
  if (wasioSend p.wfd vfd BUFFER_SIZE a.toHostAnswer).1.result = .ok then
    { p with buffers := Function.update p.buffers vfd none, pc := .closeResent vfd }
  else { p with pc := .aborted }

/-- The answer to a `wasio_close`, after which the server goes on as `next` says. -/
def closed (vfd : ℕ) (next : Program → Program) (p : Program) (a : Answer) : Program :=
  match wasioClose p.wfd vfd a.toHostAnswer with
  | some (_, wfd) => next { p with wfd := wfd }
  | none => { p with pc := .aborted }

/-- `nclients--` -/
def Program.decrement (p : Program) : Program := { p with nclients := Uint32.pred p.nclients }

/-- The answer of the host. -/
def answerStep (p : Program) (a : Answer) : Option Program :=
  match p.pc with
  | .poll => some (polled p a)
  | .accept => some (accepted p a)
  | .recv vfd => some (received vfd p a)
  | .send vfd nrecv => some (sent vfd nrecv p a)
  | .closeSent vfd => some (closed vfd (fun p => { p with pc := .foreach }) p a)
  | .resend vfd => some (resent vfd p a)
  | .closeResent vfd => some (closed vfd (fun p => { p.decrement with pc := .foreach }) p a)
  | .quit => if 0 < p.nclients then some (closed p.nclients Program.decrement p a) else none
  | .finish => some (closed p.sockfd (fun p => { p with pc := .exited }) p a)
  | .foreach | .exited | .aborted => none

/-- **One step of the server.** -/
def step (p : Program) : Act → Option Program
  | .visit vfd block =>
    if p.pc = .foreach ∧ Ready p.wfd vfd ∧ vfd ∉ p.visited then
      some (body vfd block { p with visited := vfd :: p.visited })
    else none
  | .tau =>
    match p.pc with
    | .foreach =>
      if ∀ vfd < p.wfd.capacity, Ready p.wfd vfd → vfd ∈ p.visited then
        some { p with pc := .poll }
      else none
    | .quit => if p.nclients = 0 then some { p with pc := .finish } else none
    | _ => none
  | .answer a => answerStep p a

/-- **`main` up to its loop**, given the answer of `host_listen`. It has no result where an
assertion fails. -/
def serverMain (host : HostAnswer) : Option Program :=
  match wasioInit MAX_CLIENTS true with
  | (.ok, some wfd) =>
    match wasioListen wfd 8080 64 host with
    | (⟨_, .ok, some sockfd, _⟩, wfd) =>
      if sockfd = 0 then
        some
          { wfd := (wasioNotifyRecv wfd sockfd).2
            sockfd := sockfd
            nclients := 0
            buffers := fun _ => none
            visited := []
            pc := .poll }
      else none
    | _ => none
  | _ => none

/-- **What the host may answer**: a receive returns no more than it is asked for. -/
def Act.Admissible (p : Program) : Act → Prop
  | .answer a => ∀ vfd, p.pc = .recv vfd → a.ret ≤ BUFFER_SIZE
  | .visit _ _ | .tau => True

/-- A step as a transition. -/
def Tr (p : Program) (act : Act) (q : Program) : Prop := step p act = some q ∧ act.Admissible p

end EchoServer

end Waeio
