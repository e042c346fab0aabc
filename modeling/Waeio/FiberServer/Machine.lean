import Waeio.Http.Serving

/-!
# The server with fibers, call by call

`examples/httpserver/httpserver_wasio_fiber.c` over `src/wasio/host_poll.c`, one step
for each call of the host and each `fiber_resume`. `Waeio.FiberServer.Basic` takes a
round of the request loop at a time and leaves what the fibers of the connections do to
the environment; here all of the program is modelled, with the static variables its
fibers share, from `main` up to the clean-up, and only the host and the fiber library
are the environment. The table and what `main` does to it are those of
`Waeio.FiberServer.Server`.

The build is the release build, in which `wassert` is empty and `assert` is not. A
server whose assertion fails is at the point `aborted`, and takes no step.
-/

namespace Waeio

namespace FiberServer

open HostPoll
open Http (Call Answer Label Site Pc Frame Globals Parser BUFFER_SIZE resetGlobals contents)

/-- **The state of the program**: its variables, what the fiber library knows, and where
the program is. -/
structure Program where
  /-- The table, `end_server`, `compress_pollfd` and `fd`. -/
  srv : Server
  /-- `new_fd` -/
  newFd : ℤ
  /-- `pollfd_size` -/
  pollfdSize : ℕ
  /-- The buffers, and what the parser stores. -/
  globals : Globals
  /-- `nbytes` -/
  nbytes : ℕ
  /-- The fibers, by number. -/
  frames : ℕ → Frame
  /-- Where the program is. -/
  pc : Pc

/-- The program at the call of `wasio_listen`. -/
def Program.start : Program where
  srv :=
    { wfd :=
        { capacity := MAX_CONNECTIONS
          length := 0
          fds := fun _ => { fd := -1, events := 0, revents := 0 } }
      fibers := fun _ => ⟨0, 0⟩
      endServer := false
      compressPollfd := false
      fd := -1
      allocated := 0
      events := [] }
  newFd := -1
  pollfdSize := 0
  globals := .init
  nbytes := 0
  frames := fun _ => .fresh
  pc := .listen

/-- The fiber was allocated, and can be resumed. -/
def Program.Live (s : Program) (f : ℕ) : Prop :=
  0 < f ∧ f ≤ s.srv.allocated ∧ (s.frames f).Resumable

instance (s : Program) (f : ℕ) : Decidable (s.Live f) := inferInstanceAs (Decidable (_ ∧ _ ∧ _))

/-- What becomes of a fiber. -/
def Program.setFrame (s : Program) (f : ℕ) (frame : Frame) : Program :=
  { s with frames := Function.update s.frames f frame }

/-! ### Back in `main` -/

/-- The head of the request loop. -/
def nextRound (s : Program) : Program :=
  if s.srv.endServer then { s with pc := .kill 0 }
  else { s with srv := { s.srv with compressPollfd := false }, pc := .poll }

/-- The end of the sweep: the compaction, if there is to be one. -/
def sweepEnd (s : Program) : Program :=
  nextRound (if s.srv.compressPollfd then { s with srv := compact s.srv } else s)

/-- `handle_command`, up to its `wasio_close`. -/
def handleStatus (i : ℕ) (status : Scheduler.FiberStatus) (s : Program) : Program :=
  let clo := s.srv.fibers i
  match status with
  | .ok =>
    { s.setFrame clo.fiber .freed with
      srv := s.srv.emit (.free clo.fiber), pc := .closeDone i clo.fd false }
  | .yield =>
    { s with
      srv := flag i false { s.srv with wfd := { s.srv.wfd with
        fds := Function.update s.srv.wfd.fds i { s.srv.wfd.fds i with events := POLLIN } } }
      pc := .sweep (i + 1) }
  | .error | .other =>
    { s.setFrame clo.fiber .freed with
      srv := s.srv.emit (.free clo.fiber), pc := .closeDone i clo.fd true }

/-- What `main` does when `fiber_resume` returns. -/
def back (status : Scheduler.FiberStatus) (s : Program) : Site → Program
  | .sweep i => handleStatus i status s
  | .kill i => { s with pc := .closeKill i }

/-- The fiber `f` yields. -/
def yields (site : Site) (f : ℕ) (frame : Frame) (s : Program) : Program :=
  back .yield (s.setFrame f frame) site

/-- The fiber `f` returns. -/
def returns (site : Site) (f : ℕ) (s : Program) : Program :=
  back .ok (s.setFrame f .finished) site

/-! ### The listener -/

/-- `listener`, from its test whether the table is full on. -/
def awaitSpace (site : Site) (f : ℕ) (s : Program) : Program :=
  if s.srv.wfd.length = s.srv.wfd.capacity then yields site f .full s
  else { s with newFd := -1, pc := .accept site f }

/-- `listener`, from the head of its outer loop on. -/
def listenerLoop (site : Site) (f : ℕ) (s : Program) : Program :=
  if s.srv.fd = FIBER_KILL_SIGNAL then returns site f s else awaitSpace site f s

/-- `listener`, from the end of its loop over the connections on. -/
def acceptMore (site : Site) (f : ℕ) (s : Program) : Program :=
  if s.srv.wfd.length < s.srv.wfd.capacity ∧ s.newFd ≠ -1 then
    { s with newFd := -1, pc := .accept site f }
  else listenerLoop site f s

/-- `listener`, from a resumption on. -/
def enterListener (site : Site) (f : ℕ) (frame : Frame) (s : Program) : Program :=
  match frame with
  | .fresh => listenerLoop site f { s with newFd := -1 }
  | .full => if s.srv.fd = FIBER_KILL_SIGNAL then returns site f s else awaitSpace site f s
  | _ => if s.srv.fd = FIBER_KILL_SIGNAL then returns site f s else acceptMore site f s

/-! ### The fiber of a connection -/

/-- `handle_connection`, up to its `wasio_recv`. -/
def receive (site : Site) (f : ℕ) (s : Program) : Program :=
  { s with globals := resetGlobals s.globals, nbytes := 0, pc := .recv site f }

/-- `handle_connection`, from a resumption on. -/
def enterConnection (site : Site) (f : ℕ) (frame : Frame) (s : Program) : Program :=
  match frame with
  | .fresh => receive site f s
  | _ => if s.srv.fd = FIBER_KILL_SIGNAL then returns site f s else receive site f s

/-- `handle_connection`, from a receive that succeeded on. -/
def respond (phr : Parser) (now : Http.Tm) (site : Site) (f : ℕ) (s : Program) : Program :=
  let (globals, quit, rc) := Http.answer phr now s.globals
  let s := { s with globals := globals, srv := { s.srv with endServer := s.srv.endServer || quit } }
  match rc with
  | some rc => { s with pc := .send site f rc }
  | none => returns site f s

/-! ### The steps -/

/-- A step of `main` that neither calls the host nor resumes a fiber. -/
def tauStep (s : Program) : Option Program :=
  match s.pc with
  | .sweep i =>
    if i < s.pollfdSize then
      let revents := (s.srv.wfd.fds i).revents
      if revents = 0 then some { s with pc := .sweep (i + 1) }
      else if revents &&& POLLHUP ≠ 0 then
        some { s.setFrame (s.srv.fibers i).fiber .freed with
          srv := hangUp i s.srv, pc := .sweep (i + 1) }
      else if revents &&& POLLIN = 0 then
        some (sweepEnd { s with srv := { s.srv with endServer := true } })
      else
        let fd := (s.srv.wfd.fds i).fd
        some { s with
          srv := { s.srv with fd := fd }, pc := if 4 ≤ fd then .resume (.sweep i) else .aborted }
    else some (sweepEnd s)
  | .kill i =>
    if i < s.srv.wfd.length then
      if (s.srv.wfd.fds i).fd = -1 then some { s with pc := .kill (i + 1) }
      else some { s with srv := { s.srv with fd := FIBER_KILL_SIGNAL }, pc := .resume (.kill i) }
    else some { s with pc := .exited }
  | _ => none

/-- **`fiber_resume`**, on the fiber of the entry. -/
def resumeStep (s : Program) (f : ℕ) (fd : ℤ) (resumed : Bool) : Option Program :=
  match s.pc with
  | .resume site =>
    if f = (s.srv.fibers site.index).fiber ∧ fd = s.srv.fd then
      let s := { s with srv := s.srv.emit (.resume f fd) }
      if s.Live f then
        if resumed then
          let t := s.setFrame f .running
          some (if f = listenerFiber then enterListener site f (s.frames f) t
            else enterConnection site f (s.frames f) t)
        else some (back .error (s.setFrame f .finished) site)
      else some { s with pc := .stray }
    else none
  | _ => none

/-- The answer to `wasio_listen`. -/
def listened (s : Program) (a : Answer) : Program :=
  match wasioListen s.srv.wfd 8080 (MAX_CONNECTIONS * 2) a.toHostAnswer with
  | some (⟨call, .ok, some listenFd, _⟩, wfd) =>
    nextRound
      { s with
        srv :=
          { s.srv.emit (.call call) with
            wfd := wfd
            fibers := Function.update s.srv.fibers 0 ⟨listenerFiber, listenFd⟩
            allocated := listenerFiber } }
  | some (⟨call, _, _, _⟩, wfd) =>
    { s with srv := { s.srv.emit (.call call) with wfd := wfd }, pc := .exited }
  | none => { s with pc := .aborted }

/-- The answer to `wasio_poll`. -/
def polled (s : Program) (a : Answer) : Program :=
  match wasioPoll s.srv.wfd timeout a.revents a.toHostAnswer with
  | (⟨call, .ok, _, some nready⟩, wfd) =>
    let srv := { s.srv.emit (.call call) with wfd := wfd }
    if nready = 0 then nextRound { s with srv := { srv with endServer := true } }
    else { s with srv := srv, pollfdSize := wfd.length, pc := .sweep 0 }
  | (⟨call, _, _, _⟩, wfd) =>
    nextRound { s with srv := { s.srv.emit (.call call) with wfd := wfd } }

/-- The answer to `wasio_accept`. -/
def accepted (s : Program) (site : Site) (f : ℕ) (a : Answer) : Program :=
  match wasioAccept s.srv.wfd s.srv.fd a.toHostAnswer with
  | some (⟨call, .eagain, _, _⟩, wfd) =>
    yields site f .again { s with srv := { s.srv.emit (.call call) with wfd := wfd } }
  | some (⟨call, .error, _, _⟩, wfd) =>
    returns site f
      { s with srv := { s.srv.emit (.call call) with wfd := wfd, endServer := true } }
  | some (⟨call, .ok, some newFd, _⟩, wfd) =>
    let child := s.srv.allocated + 1
    let s :=
      { s.setFrame child .fresh with
        srv :=
          { s.srv.emit (.call call) with
            wfd := wfd
            fibers := Function.update s.srv.fibers (Uint32.pred wfd.length) ⟨child, newFd⟩
            allocated := child }
        newFd := newFd }
    if 4 < newFd then acceptMore site f s else { s with pc := .aborted }
  | _ => { s with pc := .aborted }

/-- The answer to `wasio_recv`. -/
def received (phr : Parser) (s : Program) (site : Site) (f : ℕ) (a : Answer) : Program :=
  match wasioRecv s.srv.fd BUFFER_SIZE a.toHostAnswer with
  | ⟨call, .ok, _, some n⟩ =>
    let s :=
      { s with
        srv := s.srv.emit (.call call)
        globals := s.globals.received (a.received BUFFER_SIZE)
        nbytes := n }
    if 0 < n then respond phr a.now site f s else { s with pc := .aborted }
  | ⟨call, .eagain, _, _⟩ => yields site f .again { s with srv := s.srv.emit (.call call) }
  | ⟨call, _, _, _⟩ => returns site f { s with srv := s.srv.emit (.call call) }

/-- The answer to `wasio_send`. -/
def sent (s : Program) (site : Site) (f rc : ℕ) (a : Answer) : Program :=
  let reply := wasioSend s.srv.fd rc a.toHostAnswer
  let s := { s with srv := s.srv.emit (.call reply.call), nbytes := reply.count.getD s.nbytes }
  if s.srv.endServer then returns site f s else receive site f s

/-- The answer to the `wasio_close` of `handle_command`. -/
def closedDone (s : Program) (i : ℕ) (fd : ℤ) (failed : Bool) (a : Answer) : Program :=
  let reply := wasioClose fd a.toHostAnswer
  let srv := s.srv.emit (.call reply.call)
  if reply.result = .ok then
    let srv := (srv.punch i).shorten
    { s with
      srv := flag i true { srv with endServer := srv.endServer || failed }
      pc := .sweep (i + 1) }
  else { s with srv := srv, pc := .aborted }

/-- The answer to the `wasio_close` of the clean-up. -/
def closedKill (s : Program) (i : ℕ) (a : Answer) : Program :=
  let reply := wasioClose (s.srv.wfd.fds i).fd a.toHostAnswer
  { s with srv := (s.srv.emit (.call reply.call)).shorten, pc := .kill (i + 1) }

/-- What the host is told of the table. -/
def pollArg (s : Program) : List (ℤ × BitVec 16) :=
  (List.range s.srv.wfd.length).map fun i => ((s.srv.wfd.fds i).fd, (s.srv.wfd.fds i).events)

/-- **The call of the host the program is at.** -/
def Program.call (s : Program) : Option Call :=
  match s.pc with
  | .listen => some (.listen 8080 (MAX_CONNECTIONS * 2))
  | .poll => some (.poll (pollArg s) timeout)
  | .accept _ _ => some (.accept s.srv.fd)
  | .recv _ _ => some (.recv s.srv.fd BUFFER_SIZE)
  | .send _ _ rc => some (.send s.srv.fd (contents s.globals.resbuf rc))
  | .closeDone _ fd _ => some (.close fd)
  | .closeKill i => some (.close (s.srv.wfd.fds i).fd)
  | _ => none

/-- **What the program does with the answer.** -/
def answered (phr : Parser) (s : Program) (a : Answer) : Program :=
  match s.pc with
  | .listen => listened s a
  | .poll => polled s a
  | .accept site f => accepted s site f a
  | .recv site f => received phr s site f a
  | .send site f rc => sent s site f rc a
  | .closeDone i fd failed => closedDone s i fd failed a
  | .closeKill i => closedKill s i a
  | _ => s

/-- **One step of the program.** -/
def step (phr : Parser) (s : Program) : Label → Option Program
  | .tau => tauStep s
  | .resume f fd resumed => resumeStep s f fd resumed
  | .call c a => if s.call = some c then some (answered phr s a) else none

/-- A step as a transition. -/
def Step (phr : Parser) (s : Program) (a : Label) (t : Program) : Prop := step phr s a = some t

/-- **A run of the program**, from its first call of the host on. -/
def Runs (phr : Parser) (l : List Label) (s : Program) : Prop :=
  Lts.Steps (Step phr) .start l s

/-- A program that has ended, or whose assertion has failed, takes no step. -/
theorem step_of_ended {phr : Parser} {s : Program} (h : s.pc = .exited ∨ s.pc = .aborted)
    (a : Label) : step phr s a = none := by
  rcases h with h | h <;> cases a with
  | tau => rw [step, tauStep, h]
  | resume f fd resumed => rw [step, resumeStep, h]
  | call c a => rw [step, Program.call, h, if_neg nofun]

/-! ### Where a step leads

Most steps lead to a point the program comes to in one way only. The other points are the
head of the request loop and the end of the program, which both follow on `nextRound`; a
receive, before which everything is reset; and a send, to which only a receive leads. -/

/-- None of those points. -/
def Plain : Pc → Prop
  | .poll | .kill 0 | .recv _ _ | .send _ _ _ => False
  | _ => True

section Lands

variable {phr : Parser} {P : Program → Prop} (hround : ∀ s, P (nextRound s))
  (hreceive : ∀ site f s, P (receive site f s)) (hplain : ∀ s : Program, Plain s.pc → P s)
  {s t : Program} {site : Site} {f : ℕ}

include hplain

theorem lands_back (status : Scheduler.FiberStatus) : P (back status s site) := by
  cases site with
  | sweep i => cases status <;> exact hplain _ trivial
  | kill i => exact hplain _ trivial

theorem lands_awaitSpace : P (awaitSpace site f s) := by
  rw [awaitSpace]
  split_ifs
  · exact lands_back hplain _
  · exact hplain _ trivial

theorem lands_listenerLoop : P (listenerLoop site f s) := by
  rw [listenerLoop]
  split_ifs
  · exact lands_back hplain _
  · exact lands_awaitSpace hplain

theorem lands_acceptMore : P (acceptMore site f s) := by
  rw [acceptMore]
  split_ifs
  · exact hplain _ trivial
  · exact lands_listenerLoop hplain

theorem lands_enterListener (frame : Frame) : P (enterListener site f frame s) := by
  unfold enterListener
  split
  · exact lands_listenerLoop hplain
  · split_ifs
    · exact lands_back hplain _
    · exact lands_awaitSpace hplain
  · split_ifs
    · exact lands_back hplain _
    · exact lands_acceptMore hplain

include hreceive in
theorem lands_enterConnection (frame : Frame) : P (enterConnection site f frame s) := by
  unfold enterConnection
  split
  · exact hreceive _ _ _
  · split_ifs
    · exact lands_back hplain _
    · exact hreceive _ _ _

include hround in
theorem lands_tauStep (h : tauStep s = some t) : P t := by
  rw [tauStep] at h
  split at h
  · dsimp only at h
    split_ifs at h <;> obtain rfl := Option.some.inj h
    · exact hplain _ trivial
    · exact hplain _ trivial
    · exact hround _
    · exact hplain _ trivial
    · exact hplain _ trivial
    · exact hround _
  · split_ifs at h <;> obtain rfl := Option.some.inj h <;> exact hplain _ trivial
  · exact absurd h nofun

include hreceive in
theorem lands_resumeStep {fd : ℤ} {resumed : Bool} (h : resumeStep s f fd resumed = some t) :
    P t := by
  rw [resumeStep] at h
  split at h
  · dsimp only at h
    split_ifs at h <;> obtain rfl := Option.some.inj h
    · exact lands_enterListener hplain _
    · exact lands_enterConnection hreceive hplain _
    · exact lands_back hplain _
    · exact hplain _ trivial
  · exact absurd h nofun

include hround hreceive in
/-- The answers of the host, but for that to a receive. -/
theorem lands_answered {c : Call} (hc : s.call = some c) (hrecv : ∀ site f, s.pc ≠ .recv site f)
    (a : Answer) : P (answered phr s a) := by
  rw [answered]
  cases hpc : s.pc <;> rw [Program.call, hpc] at hc <;> dsimp only at hc ⊢
  case sweep | resume | kill | exited | aborted | stray => exact absurd hc.symm nofun
  case listen =>
    rw [listened]
    split
    · exact hround _
    · exact hplain _ trivial
    · exact hplain _ trivial
  case poll =>
    rw [polled]
    split
    · dsimp only
      split_ifs
      · exact hround _
      · exact hplain _ trivial
    · exact hround _
  case accept site f =>
    rw [accepted]
    split
    · exact lands_back hplain _
    · exact lands_back hplain _
    · dsimp only
      split_ifs
      · exact lands_acceptMore hplain
      · exact hplain _ trivial
    · exact hplain _ trivial
  case recv site f => exact absurd hpc (hrecv site f)
  case send site f rc =>
    rw [sent]
    dsimp only
    split_ifs
    · exact lands_back hplain _
    · exact hreceive _ _ _
  case closeDone i fd failed =>
    rw [closedDone]
    dsimp only
    split_ifs <;> exact hplain _ trivial
  case closeKill i => exact hplain _ trivial

include hround hreceive in
/-- **Where a step leads**: a property of programs that holds where it may be told apart,
holds after every step but a receive. -/
theorem lands_step {a : Label} (hstep : Step phr s a t) (hrecv : ∀ site f, s.pc ≠ .recv site f) :
    P t := by
  rw [Step] at hstep
  cases a with
  | tau => exact lands_tauStep hround hplain hstep
  | resume f fd resumed => exact lands_resumeStep hreceive hplain hstep
  | call c a =>
    obtain ⟨hc, ht⟩ := Option.ite_none_right_eq_some.mp hstep
    obtain rfl := Option.some.inj ht
    exact lands_answered hround hreceive hplain hc hrecv a

end Lands

/-- **A receive.** -/
theorem step_of_recv {phr : Parser} {s t : Program} {site : Site} {f : ℕ} {a : Label}
    (hpc : s.pc = .recv site f) (hstep : Step phr s a t) :
    ∃ b, a = .call (.recv s.srv.fd BUFFER_SIZE) b ∧ t = received phr s site f b := by
  cases a with
  | tau =>
    rw [Step, step, tauStep, hpc] at hstep
    cases hstep
  | resume g fd resumed =>
    rw [Step, step, resumeStep, hpc] at hstep
    cases hstep
  | call c b =>
    obtain ⟨hc, ht⟩ := Option.ite_none_right_eq_some.mp hstep
    rw [Program.call, hpc] at hc
    rw [answered, hpc] at ht
    exact ⟨b, by rw [← Option.some.inj hc], (Option.some.inj ht).symm⟩

theorem runs_of_exec {phr : Parser} {l : List Label} {s : Program}
    (h : s ∈ Lts.exec (step phr) .start l) : Runs phr l s :=
  Lts.exec_eq_some_iff.mp h

end FiberServer

end Waeio
