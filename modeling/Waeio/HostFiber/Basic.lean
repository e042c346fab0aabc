import Waeio.Http.Serving

/-!
# The server with fibers, on the host calls

`examples/httpserver/httpserver_fiber.c`: the server of `Waeio.FiberServer`, before it
was put on the wasio layer. `main` keeps the poll array and its length itself, a fiber is
given its descriptor by `fiber_resume` and keeps it in a variable of its own, and the
error codes are those of the host.

The model follows that of `Waeio.FiberServer.Program`, one step for each call of the
host and each `fiber_resume`, so that the two can be compared step by step.
-/

namespace Waeio

namespace HostFiber

open FiberServer (MAX_CONNECTIONS FIBER_KILL_SIGNAL timeout FiberClosure listenerFiber)
open Http (Call Answer Label Site Pc Frame Globals Parser BUFFER_SIZE resetGlobals contents)

/-! ### The state -/

/-- **The table**, and the variables of `main` that go with it. -/
structure Server where
  /-- `fds` -/
  fds : ℕ → Pollfd
  /-- `nfds`, a `uint32_t`. -/
  nfds : ℕ
  /-- `fibers` -/
  fibers : ℕ → FiberClosure
  /-- `end_server` -/
  endServer : Bool
  /-- `compress_pollfd` -/
  compressPollfd : Bool
  /-- The number of fibers allocated. -/
  allocated : ℕ

/-- **The state of the program**: its variables, what the fiber library knows, and where
the program is. -/
structure Program where
  /-- The table, `end_server` and `compress_pollfd`. -/
  srv : Server
  /-- `pollfd_size` -/
  pollfdSize : ℕ
  /-- `fd`, of the fiber that runs. -/
  fd : ℤ
  /-- `new_fd`, of the listener. -/
  newFd : ℤ
  /-- The buffers, and what the parser stores. -/
  globals : Globals
  /-- The fibers, by number. -/
  frames : ℕ → Frame
  /-- Where the program is. -/
  pc : Pc

/-- The program at the call of `host_listen`. -/
def Program.start : Program where
  srv :=
    { fds := fun _ => { fd := 0, events := 0, revents := 0 }
      nfds := 0
      fibers := fun _ => ⟨0, 0⟩
      endServer := false
      compressPollfd := false
      allocated := 0 }
  pollfdSize := 0
  fd := 0
  newFd := -1
  globals := .init
  frames := fun _ => .fresh
  pc := .listen

/-- The fiber was allocated, and can be resumed. -/
def Program.Live (s : Program) (f : ℕ) : Prop :=
  0 < f ∧ f ≤ s.srv.allocated ∧ (s.frames f).Resumable

instance (s : Program) (f : ℕ) : Decidable (s.Live f) := inferInstanceAs (Decidable (_ ∧ _ ∧ _))

/-- What becomes of a fiber. -/
def Program.setFrame (s : Program) (f : ℕ) (frame : Frame) : Program :=
  { s with frames := Function.update s.frames f frame }

/-- `fds[i].fd = -1` -/
def Server.punch (s : Server) (i : ℕ) : Server :=
  { s with fds := Function.update s.fds i { s.fds i with fd := -1 } }

/-- `nfds--` -/
def Server.shorten (s : Server) : Server := { s with nfds := Uint32.pred s.nfds }

/-! ### The compaction -/

/-- The inner loop of the compaction from `j` on, with `k` entries to go. -/
def moveDown : (k j : ℕ) → Server → Server
  | 0, _, s => s
  | k + 1, j, s =>
    moveDown k (j + 1)
      { s with
        fds := Function.update s.fds j { s.fds j with fd := (s.fds (j + 1)).fd }
        fibers := Function.update s.fibers j (s.fibers (j + 1)) }

/-- The compaction from the entry `i` on, with `fuel` rounds to go. -/
def compactFrom : (fuel i : ℕ) → Server → Server
  | 0, _, s => s
  | fuel + 1, i, s =>
    if i < s.nfds then
      if (s.fds i).fd = -1 then
        compactFrom fuel (Uint32.succ (Uint32.pred i))
          (moveDown (Uint32.pred s.nfds - i) i s).shorten
      else compactFrom fuel (Uint32.succ i) s
    else s

/-- The compaction. Each round takes one more entry or closes one hole, so there
are `nfds` rounds. -/
def compact (s : Server) : Server := compactFrom s.nfds 0 s

/-! ### Back in `main` -/

/-- The head of the request loop. -/
def nextRound (s : Program) : Program :=
  if s.srv.endServer then { s with pc := .kill 0 }
  else { s with srv := { s.srv with compressPollfd := false }, pollfdSize := 0, pc := .poll }

/-- The end of the sweep: the compaction, if there is to be one. -/
def sweepEnd (s : Program) : Program :=
  nextRound (if s.srv.compressPollfd then { s with srv := compact s.srv } else s)

/-- What the sweep does with what `handle_command` answers. -/
def flag (i : ℕ) (answer : Bool) (s : Server) : Server :=
  let s := { s with compressPollfd := answer || s.compressPollfd }
  if s.compressPollfd then s.punch i else s

/-- `handle_command`, up to its `host_close`. -/
def handleStatus (i : ℕ) (status : Scheduler.FiberStatus) (s : Program) : Program :=
  let clo := s.srv.fibers i
  match status with
  | .ok => { s.setFrame clo.fiber .freed with pc := .closeDone i clo.fd false }
  | .yield =>
    { s with
      srv := flag i false { s.srv with
        fds := Function.update s.srv.fds i { s.srv.fds i with events := POLLIN } }
      pc := .sweep (i + 1) }
  | .error | .other => { s.setFrame clo.fiber .freed with pc := .closeDone i clo.fd true }

/-- What `main` does when `fiber_resume` returns. -/
def back (status : Scheduler.FiberStatus) (s : Program) : Site → Program
  | .sweep i => handleStatus i status s
  | .kill i => { s with pc := .closeKill i }

/-- The fiber `f` yields. -/
def yields (site : Site) (f : ℕ) (frame : Frame) (s : Program) : Program :=
  back .yield (s.setFrame f frame) site

/-- The fiber `f` returns. -/
def returns (site : Site) (f : ℕ) (s : Program) : Program :=
  back .ok (s.setFrame f .finished) site

/-! ### The listener -/

/-- `listener`, from its test whether the table is full on. -/
def awaitSpace (site : Site) (f : ℕ) (s : Program) : Program :=
  if s.srv.nfds = MAX_CONNECTIONS then yields site f .full s
  else { s with pc := .accept site f }

/-- `listener`, from the head of its outer loop on. -/
def listenerLoop (site : Site) (f : ℕ) (s : Program) : Program :=
  if s.fd = FIBER_KILL_SIGNAL then returns site f s else awaitSpace site f { s with newFd := -1 }

/-- `listener`, from the end of its loop over the connections on. -/
def acceptMore (site : Site) (f : ℕ) (s : Program) : Program :=
  if s.srv.nfds < MAX_CONNECTIONS ∧ s.newFd ≠ -1 then { s with pc := .accept site f }
  else listenerLoop site f s

/-- `listener`, from a resumption on. -/
def enterListener (site : Site) (f : ℕ) (frame : Frame) (s : Program) : Program :=
  match frame with
  | .fresh => listenerLoop site f s
  | .full => if s.fd = FIBER_KILL_SIGNAL then returns site f s else awaitSpace site f s
  | _ => if s.fd = FIBER_KILL_SIGNAL then returns site f s else acceptMore site f s

/-! ### The fiber of a connection -/

/-- `handle_connection`, up to its `host_recv`. -/
def receive (site : Site) (f : ℕ) (s : Program) : Program :=
  { s with globals := resetGlobals s.globals, pc := .recv site f }

/-- `handle_connection`, from a resumption on. -/
def enterConnection (site : Site) (f : ℕ) (frame : Frame) (s : Program) : Program :=
  match frame with
  | .fresh => receive site f s
  | _ => if s.fd = FIBER_KILL_SIGNAL then returns site f s else receive site f s

/-- `handle_connection`, from a receive that succeeded on. -/
def respond (phr : Parser) (now : Http.Tm) (site : Site) (f : ℕ) (s : Program) : Program :=
  let (globals, quit, rc) := Http.answer phr now s.globals
  let s := { s with globals := globals, srv := { s.srv with endServer := s.srv.endServer || quit } }
  match rc with
  | some rc => { s with pc := .send site f rc }
  | none => returns site f s

/-! ### The steps -/

/-- The branch of the sweep for an entry that hung up. -/
def hangUp (i : ℕ) (s : Server) : Server :=
  let s := { s with fibers := Function.update s.fibers i { s.fibers i with fd := -1 } }
  { (s.punch i).shorten with compressPollfd := true }

/-- A step of `main` that neither calls the host nor resumes a fiber. -/
def tauStep (s : Program) : Option Program :=
  match s.pc with
  | .sweep i =>
    if i < s.pollfdSize then
      let revents := (s.srv.fds i).revents
      if revents = 0 then some { s with pc := .sweep (i + 1) }
      else if revents &&& POLLHUP ≠ 0 then
        some { s.setFrame (s.srv.fibers i).fiber .freed with
          srv := hangUp i s.srv, pc := .sweep (i + 1) }
      else if revents &&& POLLIN = 0 then
        some (sweepEnd { s with srv := { s.srv with endServer := true } })
      else some { s with pc := .resume (.sweep i) }
    else some (sweepEnd s)
  | .kill i =>
    if i < s.srv.nfds then
      if (s.srv.fds i).fd = -1 then some { s with pc := .kill (i + 1) }
      else some { s with pc := .resume (.kill i) }
    else some { s with pc := .exited }
  | _ => none

/-- What `main` passes to the fiber. -/
def payload (s : Server) : Site → ℤ
  | .sweep i => (s.fibers i).fd
  | .kill _ => FIBER_KILL_SIGNAL

/-- **`fiber_resume`**, on the fiber of the entry. -/
def resumeStep (s : Program) (f : ℕ) (fd : ℤ) (resumed : Bool) : Option Program :=
  match s.pc with
  | .resume site =>
    if f = (s.srv.fibers site.index).fiber ∧ fd = payload s.srv site then
      if s.Live f then
        if resumed then
          let t := { s.setFrame f .running with fd := fd }
          some (if f = listenerFiber then enterListener site f (s.frames f) t
            else enterConnection site f (s.frames f) t)
        else some (back .error (s.setFrame f .finished) site)
      else some { s with pc := .stray }
    else none
  | _ => none

/-- The answer to `host_listen`. -/
def listened (s : Program) (a : Answer) : Program :=
  if a.ret < 0 then { s with pc := .exited }
  else
    nextRound
      { s with
        srv :=
          { s.srv with
            fds := Function.update (fun _ => { fd := -1, events := 0, revents := 0 }) 0
              { fd := a.ret, events := POLLIN, revents := 0 }
            nfds := Uint32.succ s.srv.nfds
            fibers := Function.update s.srv.fibers 0 ⟨listenerFiber, a.ret⟩
            allocated := listenerFiber } }

/-- The answer to `host_poll`. The host writes the `revents` of the entries in use. -/
def polled (s : Program) (a : Answer) : Program :=
  if a.ret < 0 then { s with pc := .kill 0 }
  else
    let s := { s with srv := { s.srv with
      fds := fun i =>
        if i < s.srv.nfds then { s.srv.fds i with revents := a.revents i } else s.srv.fds i } }
    if a.ret = 0 then { s with srv := { s.srv with endServer := true }, pc := .kill 0 }
    else { s with pollfdSize := s.srv.nfds, pc := .sweep 0 }

/-- The answer to `host_accept`. -/
def accepted (s : Program) (site : Site) (f : ℕ) (a : Answer) : Program :=
  let s := { s with newFd := a.ret }
  if a.ret < 0 then
    if a.errno ≠ HOST_EAGAIN then
      returns site f { s with srv := { s.srv with endServer := true } }
    else yields site f .again s
  else
    let child := s.srv.allocated + 1
    acceptMore site f
      { s.setFrame child .fresh with
        srv :=
          { s.srv with
            fds := Function.update s.srv.fds s.srv.nfds
              { s.srv.fds s.srv.nfds with fd := a.ret, events := POLLIN }
            nfds := Uint32.succ s.srv.nfds
            fibers := Function.update s.srv.fibers s.srv.nfds ⟨child, a.ret⟩
            allocated := child } }

/-- The answer to `host_recv`. -/
def received (phr : Parser) (s : Program) (site : Site) (f : ℕ) (a : Answer) : Program :=
  if a.ret = 0 then returns site f s
  else if a.ret < 0 then
    if a.errno ≠ HOST_EAGAIN then returns site f s else yields site f .again s
  else respond phr a.now site f { s with globals := s.globals.received (a.received BUFFER_SIZE) }

/-- The answer to `host_send`. -/
def sent (s : Program) (site : Site) (f : ℕ) : Program :=
  if s.srv.endServer then returns site f s else receive site f s

/-- The answer to the `host_close` of `handle_command`. -/
def closedDone (s : Program) (i : ℕ) (failed : Bool) : Program :=
  let srv := (s.srv.punch i).shorten
  { s with
    srv := flag i true { srv with endServer := srv.endServer || failed }
    pc := .sweep (i + 1) }

/-- The answer to the `host_close` of the clean-up. -/
def closedKill (s : Program) (i : ℕ) : Program :=
  { s with srv := s.srv.shorten, pc := .kill (i + 1) }

/-- What the host is told of the table. -/
def pollArg (s : Program) : List (ℤ × BitVec 16) :=
  (List.range s.srv.nfds).map fun i => ((s.srv.fds i).fd, (s.srv.fds i).events)

/-- **The call of the host the program is at.** -/
def Program.call (s : Program) : Option Call :=
  match s.pc with
  | .listen => some (.listen 8080 (MAX_CONNECTIONS * 2))
  | .poll => some (.poll (pollArg s) timeout)
  | .accept _ _ => some (.accept s.fd)
  | .recv _ _ => some (.recv s.fd BUFFER_SIZE)
  | .send _ _ rc => some (.send s.fd (contents s.globals.resbuf rc))
  | .closeDone _ fd _ => some (.close fd)
  | .closeKill i => some (.close (s.srv.fds i).fd)
  | _ => none

/-- **What the program does with the answer.** -/
def answered (phr : Parser) (s : Program) (a : Answer) : Program :=
  match s.pc with
  | .listen => listened s a
  | .poll => polled s a
  | .accept site f => accepted s site f a
  | .recv site f => received phr s site f a
  | .send site f _ => sent s site f
  | .closeDone i _ failed => closedDone s i failed
  | .closeKill i => closedKill s i
  | _ => s

/-- **One step of the program.** -/
def step (phr : Parser) (s : Program) : Label → Option Program
  | .tau => tauStep s
  | .resume f fd resumed => resumeStep s f fd resumed
  | .call c a => if s.call = some c then some (answered phr s a) else none

/-- A step as a transition. -/
def Step (phr : Parser) (s : Program) (a : Label) (t : Program) : Prop := step phr s a = some t

/-- **A run of the program**, from its first call of the host on. -/
def Runs (phr : Parser) (l : List Label) (s : Program) : Prop :=
  Lts.Steps (Step phr) .start l s

end HostFiber

end Waeio
