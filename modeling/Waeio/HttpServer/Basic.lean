import Waeio.FiberServer.Basic
import Waeio.Http.Serving
import Waeio.WasioHost.Basic

/-!
# The fibers of the server on the wasio layer

`examples/httpserver/httpserver.c` over `src/wasio_host.c`: the listener, the fibers of the
connections, and `handle_request`, which `main` calls when one of them stops.

A fiber tells `main` what it waits for in the global variable `cmd`, which `cmd_make` sets
and `handle_request` reads. `w_recv` and `w_send` set it once, and then yield each time the
backend has no data or no room; the listener sets it before each of its yields.

Where a fiber is, with the variables it keeps there, is its `Waeio.HttpServer.Frame`. A
piece of its code, from a resumption or the answer of the host up to the next call of the
host or the next yield, is a function of `Waeio.HttpServer.Server` that leaves the fiber in
another frame; it has no result where an assertion fails or a queue is full, and the
program is aborted. Which fiber runs, and when, is left open here.

`phr_parse_request` is a parameter, as is what happens to be on the stack of a fiber, where
`handle_connection` has its buffer.
-/

namespace Waeio

namespace HttpServer

open FiberServer (FIBER_KILL_SIGNAL FiberClosure)
open Http (Answer Parser Tm bytes contents startsWith responseBody)

/-- `buffer_size` -/
def BUFFER_SIZE : ℕ := 2 ^ 16

/-- `max_headers` -/
def MAX_HEADERS : ℕ := 100

/-- `max_clients` -/
def MAX_CLIENTS : ℕ := FiberServer.MAX_CONNECTIONS - 1

/-- The first fiber allocated. -/
def lfiber : ℕ := 1

/-- **What the program is given.** -/
structure Env where
  /-- `phr_parse_request`, with its arguments `last_len` and `*num_headers`. -/
  phr : ℕ → ℕ → Parser
  /-- What the buffer of a fiber holds before it is written to. -/
  stack : ℕ → ℕ → UInt8

/-! ### The state -/

/-- `cmd_tag_t` -/
inductive CmdTag
  | async | yield | recv | send | quit
  deriving DecidableEq, Repr

/-- `struct cmd` -/
structure Cmd where
  tag : CmdTag
  fd : ℤ
  deriving DecidableEq, Repr

/-- The variables of `handle_connection` that it keeps over its calls. -/
structure Conn where
  /-- `clientfd` -/
  clientfd : ℤ
  /-- `reqbuf` -/
  reqbuf : ℕ → UInt8
  /-- `num_headers`, which every call of the parser overwrites. -/
  numHeaders : ℕ

/-- A call of the host, in a fiber. -/
inductive Point
  /-- In `w_accept`, before `wasio_accept`. -/
  | accept (fd : ℤ) (maxAccept : ℕ) : Point
  /-- In `w_recv`, before `wasio_recv` to the buffer from `buflen` on. -/
  | recv (c : Conn) (buflen : ℕ) : Point
  /-- In `w_send`, before `wasio_send` of `nbytes` bytes, for the outcome `ans`. -/
  | send (c : Conn) (ans : ℤ) (nbytes : ℕ) : Point

/-- The functions a fiber is allocated with. -/
inductive Entry
  | listener | handleConnection
  deriving DecidableEq, Repr

/-- **Where a fiber is.** -/
inductive Frame
  /-- It was not resumed yet. -/
  | fresh (entry : Entry) : Frame
  /-- In `listener`, in its `yield`. -/
  | space (fd : ℤ) : Frame
  /-- In `listener`, in its `fiber_yield`. -/
  | listening (fd : ℤ) : Frame
  /-- In `w_recv`, in its `fiber_yield`. -/
  | receiving (c : Conn) (buflen : ℕ) : Frame
  /-- In `w_send`, in its `fiber_yield`. -/
  | sending (c : Conn) (ans : ℤ) (nbytes : ℕ) : Frame
  /-- In the last `fiber_yield` of `handle_connection`. -/
  | quitting : Frame
  /-- It runs, and is at a call of the host. -/
  | running (p : Point) : Frame
  /-- It has returned. -/
  | finished : Frame
  /-- It was freed, or was never allocated. -/
  | freed : Frame

/-- The fiber can be resumed. -/
def Frame.Suspended : Frame → Prop
  | .fresh _ | .space _ | .listening _ | .receiving _ _ | .sending _ _ _ | .quitting => True
  | .running _ | .finished | .freed => False

instance : DecidablePred Frame.Suspended
  | .fresh _ | .space _ | .listening _ | .receiving _ _ | .sending _ _ _ | .quitting =>
    isTrue trivial
  | .running _ | .finished | .freed => isFalse id

/-- The fiber was not resumed yet. -/
def Frame.Fresh : Frame → Prop
  | .fresh _ => True
  | _ => False

instance : DecidablePred Frame.Fresh
  | .fresh _ => isTrue trivial
  | .space _ | .listening _ | .receiving _ _ | .sending _ _ _ | .quitting | .running _
  | .finished | .freed => isFalse id

/-- **The state of the server**: its static variables, and what the fiber library knows.
The last two fields are no variables of the program: they say what the others stand for. -/
structure Server where
  /-- `wfd` -/
  wfd : WasioPollfd
  /-- `fibers` -/
  fibers : ℕ → FiberClosure
  /-- `frontq` -/
  frontq : List FiberClosure
  /-- `rearq` -/
  rearq : List FiberClosure
  /-- `cmd` -/
  cmd : Cmd
  /-- `clients`, a `uint32_t`. -/
  clients : ℕ
  /-- The number of fibers allocated. -/
  allocated : ℕ
  /-- The fibers, by number. -/
  frames : ℕ → Frame
  /-- The descriptor that was put into the closure of a fiber. -/
  descriptor : ℕ → ℤ
  /-- The fiber that has set `cmd` last. -/
  maker : ℕ

/-- Where the fiber `f` is now. -/
def Server.setFrame (s : Server) (f : ℕ) (frame : Frame) : Server :=
  { s with frames := Function.update s.frames f frame }

/-- `cmd = cmd_make(tag, fd)`, in the fiber `f`. -/
def Server.make (s : Server) (f : ℕ) (tag : CmdTag) (fd : ℤ) : Server :=
  { s with cmd := ⟨tag, fd⟩, maker := f }

@[simp] theorem Server.frames_setFrame_self (s : Server) (f : ℕ) (frame : Frame) :
    (s.setFrame f frame).frames f = frame :=
  Function.update_self ..

theorem Server.frames_setFrame_of_ne (s : Server) {f g : ℕ} (h : g ≠ f) (frame : Frame) :
    (s.setFrame f frame).frames g = s.frames g :=
  Function.update_of_ne h ..

@[simp] theorem Server.frames_make (s : Server) (f : ℕ) (tag : CmdTag) (fd : ℤ) :
    (s.make f tag fd).frames = s.frames := rfl

/-- `fq_push`; no queue where it aborts. -/
def fqPush (q : List FiberClosure) (clo : FiberClosure) : Option (List FiberClosure) :=
  if q.length < FiberServer.MAX_CONNECTIONS then some (q ++ [clo]) else none

/-- `fq_swap`, and `rearq->length = 0`. -/
def Server.swap (s : Server) : Server := { s with frontq := s.rearq, rearq := [] }

/-! ### The listener -/

/-- `w_accept`, from the head of its loop on, and `listener` behind it. -/
def acceptMore (f : ℕ) (fd : ℤ) (maxAccept : ℕ) (s : Server) : Server :=
  if s.clients < maxAccept then s.setFrame f (.running (.accept fd maxAccept))
  else (s.make f .recv fd).setFrame f (.listening fd)

/-- `listener`, from its test for space on. -/
def listenerLoop (f : ℕ) (fd : ℤ) (s : Server) : Server :=
  if s.clients = MAX_CLIENTS then (s.make f .yield 0).setFrame f (.space fd)
  else acceptMore f fd (Uint32.sub MAX_CLIENTS s.clients) s

/-- What `w_accept` does for the connection `conn`, up to `fq_push`. -/
def allocConnection (fd : ℤ) (conn : ℕ) (s : Server) : Server :=
  { s with
    wfd := (wasioNotifyRecv s.wfd fd.toNat).2
    allocated := s.allocated + 1
    frames := Function.update s.frames (s.allocated + 1) (.fresh .handleConnection)
    descriptor := Function.update s.descriptor (s.allocated + 1) conn }

/-- The answer to the `wasio_accept` of `w_accept`. -/
def accepted (f : ℕ) (fd : ℤ) (maxAccept : ℕ) (s : Server) (a : Answer) : Option Server :=
  match wasioAccept s.wfd fd.toNat a.toHostAnswer with
  | (⟨_, .ok, some conn, _⟩, wfd) =>
    let s := allocConnection fd conn { s with wfd := wfd }
    (fqPush s.rearq ⟨s.allocated, conn⟩).map fun rearq =>
      acceptMore f fd maxAccept { s with rearq := rearq, clients := Uint32.succ s.clients }
  | (_, wfd) => some (({ s with wfd := wfd }.make f .recv fd).setFrame f (.listening fd))

/-! ### The fiber of a connection -/

/-- `w_recv`, up to its first call of the backend. -/
def wRecv (f : ℕ) (c : Conn) (buflen : ℕ) (s : Server) : Server :=
  (s.make f .recv c.clientfd).setFrame f (.running (.recv c buflen))

/-- `w_send`, up to its first call of the backend. -/
def wSend (f : ℕ) (c : Conn) (ans : ℤ) (nbytes : ℕ) (s : Server) : Server :=
  (s.make f .send c.clientfd).setFrame f (.running (.send c ans nbytes))

/-- What becomes of the bytes received so far. -/
inductive Parsed
  /-- A response is due: `2` is a request to quit, `1` one for the page, `0` one for
  something else, and `-1` none. -/
  | answer (ans : ℤ) : Parsed
  /-- More is to be received, with what `num_headers` is now. -/
  | more (numHeaders : ℕ) : Parsed
  /-- An assertion fails. -/
  | fails : Parsed

/-- `handle_connection`, from `phr_parse_request` on: there were `prevbuflen` bytes, and
now there are `buflen`. -/
def parse (phr : ℕ → ℕ → Parser) (c : Conn) (prevbuflen buflen : ℕ) : Parsed :=
  let r := phr prevbuflen c.numHeaders (contents c.reqbuf (BUFFER_SIZE - buflen))
  if 0 < r.rc then
    if r.pathLen = 1 ∧ startsWith c.reqbuf r.path "/" then .answer 1
    else if r.pathLen = (bytes "/quit").length ∧ startsWith c.reqbuf r.path "/quit" then .answer 2
    else .answer 0
  else if r.rc = -1 then .answer (-1)
  else if r.rc = -2 then if buflen = BUFFER_SIZE then .answer (-1) else .more r.numHeaders
  else .fails

/-- The response for an outcome: its length, and the buffer afterwards. -/
def response (ans : ℤ) (reqbuf : ℕ → UInt8) (tm : Tm) : ℤ × (ℕ → UInt8) :=
  if ans = 1 then
    Http.responseOk reqbuf BUFFER_SIZE (some responseBody) (bytes responseBody).length tm
  else if ans = 2 then
    Http.responseOk reqbuf BUFFER_SIZE (some "OK bye...\n") (bytes "OK bye...\n").length tm
  else if ans = 0 then Http.responseNotfound reqbuf BUFFER_SIZE none 0 tm
  else Http.responseErr reqbuf BUFFER_SIZE (some "I/O failure") (bytes "I/O failure").length tm

/-- `handle_connection`, from an outcome on. -/
def respond (now : Tm) (f : ℕ) (c : Conn) (ans : ℤ) (s : Server) : Server :=
  let (nbytes, reqbuf) := response ans c.reqbuf now
  wSend f { c with reqbuf := reqbuf } ans (nbytes % 2 ^ 32).toNat s

/-- `handle_connection`, from the return of `w_send` on. -/
def afterSend (f : ℕ) (c : Conn) (ans : ℤ) (s : Server) : Server :=
  if ans = 2 then (s.make f .quit (-1)).setFrame f .quitting
  else wRecv f { c with numHeaders := MAX_HEADERS } 0 s

/-- The answer to the `wasio_recv` of `w_recv`. -/
def received (phr : ℕ → ℕ → Parser) (f : ℕ) (c : Conn) (buflen : ℕ) (s : Server) (a : Answer) :
    Option Server :=
  match (wasioRecv s.wfd c.clientfd.toNat (BUFFER_SIZE - buflen) a.toHostAnswer).1 with
  | ⟨_, .eagain, _, _⟩ => some (s.setFrame f (.receiving c buflen))
  | ⟨_, .ok, _, some n⟩ =>
    if n = 0 then some (s.setFrame f .finished)
    else
      let c := { c with
        reqbuf := Http.write c.reqbuf buflen (a.received (BUFFER_SIZE - buflen)) }
      match parse phr c buflen (buflen + n) with
      | .answer ans => some (respond a.now f c ans s)
      | .more numHeaders => some (wRecv f { c with numHeaders := numHeaders } (buflen + n) s)
      | .fails => none
  | _ => some (s.setFrame f .finished)

/-- The answer to the `wasio_send` of `w_send`. -/
def sent (f : ℕ) (c : Conn) (ans : ℤ) (nbytes : ℕ) (s : Server) (a : Answer) : Server :=
  match (wasioSend s.wfd c.clientfd.toNat nbytes a.toHostAnswer).1.result with
  | .eagain => s.setFrame f (.sending c ans nbytes)
  | _ => afterSend f c ans s

/-! ### The code of a fiber -/

/-- **What a fiber does when it is resumed** with `arg`. -/
def resume (env : Env) (f : ℕ) (arg : ℤ) (s : Server) : Server :=
  match s.frames f with
  | .fresh .listener => listenerLoop f arg s
  | .fresh .handleConnection => wRecv f ⟨arg, env.stack f, MAX_HEADERS⟩ 0 s
  | .space fd | .listening fd =>
    if arg = FIBER_KILL_SIGNAL then s.setFrame f .finished else listenerLoop f fd s
  | .receiving c buflen =>
    if arg = FIBER_KILL_SIGNAL then s.setFrame f .finished
    else s.setFrame f (.running (.recv c buflen))
  | .sending c ans nbytes =>
    if arg = FIBER_KILL_SIGNAL then afterSend f c ans s
    else s.setFrame f (.running (.send c ans nbytes))
  | .quitting => s.setFrame f .finished
  | .running _ | .finished | .freed => s

/-- **What a fiber does with the answer** to its call of the host. -/
def answered (env : Env) (f : ℕ) (s : Server) (a : Answer) : Option Server :=
  match s.frames f with
  | .running (.accept fd maxAccept) => accepted f fd maxAccept s a
  | .running (.recv c buflen) => received env.phr f c buflen s a
  | .running (.send c ans nbytes) => some (sent f c ans nbytes s a)
  | _ => none

/-! ### `handle_request` -/

/-- `handle_request` for a fiber that has yielded: its answer, and the state
afterwards. -/
def handleYield (clo : FiberClosure) (s : Server) : Option (Bool × Server) :=
  match s.cmd.tag with
  | .yield => (fqPush s.rearq clo).map fun rearq => (true, { s with rearq := rearq })
  | .recv => some (true, { s with wfd := (wasioNotifyRecv s.wfd s.cmd.fd.toNat).2 })
  | .send => some (true, { s with wfd := (wasioNotifySend s.wfd s.cmd.fd.toNat).2 })
  | .quit => some (false, s)
  | .async => none

/-- `handle_request` for a fiber that has returned. -/
def handleDone (clo : FiberClosure) (s : Server) (host : HostAnswer) : Option Server :=
  match wasioClose s.wfd clo.fd.toNat host with
  | some (⟨_, .ok, _, _⟩, wfd) =>
    some
      { s.setFrame clo.fiber .freed with
        wfd := wfd
        fibers := Function.update s.fibers clo.fd.toNat { s.fibers clo.fd.toNat with fd := -1 }
        clients := Uint32.pred s.clients }
  | _ => none

/-! ### The start -/

/-- **`main` up to its loop**, given the answer of `host_listen`. It has no result where an
assertion fails. -/
def serverMain (host : HostAnswer) : Option Server :=
  match wasioInit FiberServer.MAX_CONNECTIONS true with
  | (.ok, some wfd) =>
    match wasioListen wfd 8080 1000 host with
    | (⟨_, .ok, some servfd, _⟩, wfd) =>
      if servfd = 0 then
        some
          { wfd := wfd
            fibers := Function.update (fun _ => ⟨0, -1⟩) servfd ⟨lfiber, servfd⟩
            frontq := [⟨lfiber, servfd⟩]
            rearq := []
            cmd := ⟨.async, 0⟩
            clients := 0
            allocated := lfiber
            frames := Function.update (fun _ => .freed) lfiber (.fresh .listener)
            descriptor := Function.update (fun _ => -1) lfiber servfd
            maker := 0 }
      else none
    | _ => none
  | _ => none

end HttpServer

end Waeio
