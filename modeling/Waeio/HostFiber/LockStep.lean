import Waeio.FiberServer.Invariant
import Waeio.HostFiber.Basic

/-!
# The two servers with fibers, side by side

The server on the wasio layer (`Waeio.FiberServer.Program`) and the one on the host calls
(`Waeio.HostFiber.Program`) take the same steps, as long as no assertion of the former
fails and no poll does: they make the same calls of the host, with the same descriptors and
the same bytes, and resume the same fibers (`Waeio.HostFiber.beside_lockStep`).

Related programs agree on the table and are at the same point
(`Waeio.HostFiber.Related`). Between two polls they also agree on what was reported for
the entries to be visited. They need not agree on it beyond: a new entry is cleared by
the wasio layer, and not by the other server.
-/

namespace Waeio

namespace HostFiber

open FiberServer (MAX_CONNECTIONS FIBER_KILL_SIGNAL listenerFiber Inv AtSite InFiber)
open Http (Call Answer Label Site Pc Frame Globals Parser BUFFER_SIZE contents)

/-! ### The tables -/

/-- **The tables agree**, on the reported events for the first `n` entries. -/
structure SameTable (n : ℕ) (w : FiberServer.Server) (d : Server) : Prop where
  fd_eq : ∀ k, (d.fds k).fd = (w.wfd.fds k).fd
  events_eq : ∀ k, (d.fds k).events = (w.wfd.fds k).events
  revents_eq : ∀ k < n, (d.fds k).revents = (w.wfd.fds k).revents
  nfds_eq : d.nfds = w.wfd.length
  fibers_eq : d.fibers = w.fibers
  endServer_eq : d.endServer = w.endServer
  compress_eq : d.compressPollfd = w.compressPollfd
  allocated_eq : d.allocated = w.allocated

variable {n i f : ℕ} {w w' : FiberServer.Server} {d d' : Server}

theorem SameTable.zero (h : SameTable n w d) : SameTable 0 w d :=
  { h with revents_eq := fun _ hk => absurd hk (Nat.not_lt_zero _) }

/-- Both arrays change, and nothing else. -/
theorem SameTable.withFds {m : ℕ} (h : SameTable n w d) {x y : ℕ → Pollfd}
    (hfd : ∀ k, (y k).fd = (x k).fd) (hevents : ∀ k, (y k).events = (x k).events)
    (hrevents : ∀ k < m, (y k).revents = (x k).revents) :
    SameTable m { w with wfd := { w.wfd with fds := x } } { d with fds := y } :=
  ⟨hfd, hevents, hrevents, h.nfds_eq, h.fibers_eq, h.endServer_eq, h.compress_eq,
    h.allocated_eq⟩

/-- One entry of both changes. -/
theorem SameTable.update (h : SameTable n w d) (i : ℕ) {e b : Pollfd} (hfd : b.fd = e.fd)
    (hevents : b.events = e.events) (hrevents : i < n → b.revents = e.revents) :
    SameTable n { w with wfd := { w.wfd with fds := Function.update w.wfd.fds i e } }
      { d with fds := Function.update d.fds i b } := by
  refine h.withFds (fun k => ?_) (fun k => ?_) fun k hk => ?_
  · rcases eq_or_ne k i with rfl | hne
    · simpa using hfd
    · simpa [hne] using h.fd_eq k
  · rcases eq_or_ne k i with rfl | hne
    · simpa using hevents
    · simpa [hne] using h.events_eq k
  · rcases eq_or_ne k i with rfl | hne
    · simpa using hrevents hk
    · simpa [hne] using h.revents_eq k hk

theorem SameTable.punch (h : SameTable n w d) (i : ℕ) : SameTable n (w.punch i) (d.punch i) :=
  h.update i rfl (h.events_eq i) (h.revents_eq i)

theorem SameTable.shorten (h : SameTable n w d) : SameTable n w.shorten d.shorten :=
  { h with nfds_eq := congrArg Uint32.pred h.nfds_eq }

/-- The events do not matter. -/
theorem SameTable.emit (h : SameTable n w d) (e : FiberServer.Event) : SameTable n (w.emit e) d :=
  ⟨h.fd_eq, h.events_eq, h.revents_eq, h.nfds_eq, h.fibers_eq, h.endServer_eq, h.compress_eq,
    h.allocated_eq⟩

/-- `end_server` is set. -/
theorem SameTable.orEnd (h : SameTable n w d) (b : Bool) :
    SameTable n { w with endServer := w.endServer || b } { d with endServer := d.endServer || b } :=
  { h with endServer_eq := congrArg (· || b) h.endServer_eq }

theorem SameTable.flag (h : SameTable n w d) (i : ℕ) (answer : Bool) :
    SameTable n (FiberServer.flag i answer w) (flag i answer d) := by
  have hset : SameTable n { w with compressPollfd := answer || w.compressPollfd }
      { d with compressPollfd := answer || d.compressPollfd } :=
    { h with compress_eq := congrArg (answer || ·) h.compress_eq }
  rw [FiberServer.flag, HostFiber.flag]
  dsimp only
  rw [h.compress_eq] at hset ⊢
  split_ifs
  · exact hset.punch i
  · exact hset

theorem SameTable.hangUp (h : SameTable n w d) (i : ℕ) :
    SameTable n (FiberServer.hangUp i w) (hangUp i d) := by
  have hfibers : SameTable n
      { w.emit (.free (w.fibers i).fiber) with
        fibers := Function.update w.fibers i { w.fibers i with fd := -1 } }
      { d with fibers := Function.update d.fibers i { d.fibers i with fd := -1 } } :=
    { h.emit (.free (w.fibers i).fiber) with fibers_eq := by rw [h.fibers_eq] }
  exact { (hfibers.punch i).shorten with compress_eq := rfl }

/-- The entry of the fiber that has yielded. -/
theorem SameTable.pollin (h : SameTable n w d) (i : ℕ) :
    SameTable n
      { w with wfd := { w.wfd with
        fds := Function.update w.wfd.fds i { w.wfd.fds i with events := POLLIN } } }
      { d with fds := Function.update d.fds i { d.fds i with events := POLLIN } } :=
  h.update i (h.fd_eq i) rfl (h.revents_eq i)

theorem SameTable.moveDown (h : SameTable 0 w d) (k j : ℕ) :
    SameTable 0 (FiberServer.moveDown k j w) (moveDown k j d) := by
  induction k generalizing j w d with
  | zero => exact h
  | succ k ih =>
    have hcopy := h.update j (e := { w.wfd.fds j with fd := (w.wfd.fds (j + 1)).fd })
      (b := { d.fds j with fd := (d.fds (j + 1)).fd }) (h.fd_eq (j + 1)) (h.events_eq j)
      fun hj => absurd hj (Nat.not_lt_zero j)
    refine ih ?_ (j + 1)
    exact { hcopy with fibers_eq := by rw [h.fibers_eq] }

theorem SameTable.compactFrom (h : SameTable 0 w d) (fuel i : ℕ) :
    SameTable 0 (FiberServer.compactFrom fuel i w) (compactFrom fuel i d) := by
  induction fuel generalizing i w d with
  | zero => exact h
  | succ fuel ih =>
    rw [FiberServer.compactFrom, HostFiber.compactFrom, h.nfds_eq, h.fd_eq i]
    split_ifs
    · exact ih (h.moveDown _ i).shorten _
    · exact ih h _
    · exact h

/-- **The compactions agree.** -/
theorem SameTable.compact (h : SameTable 0 w d) :
    SameTable 0 (FiberServer.compact w) (compact d) := by
  rw [FiberServer.compact, HostFiber.compact, h.nfds_eq]
  exact h.compactFrom _ _

/-! ### The programs -/

/-- Of how many entries the events count in a call of `fiber_resume`, if `n` are to be
visited. -/
def sizeAt : Site → ℕ → ℕ
  | .sweep _, n => n
  | .kill _, _ => 0

/-- The same at any point of the program. -/
def sizeIn : Pc → ℕ → ℕ
  | .sweep _, n | .closeDone _ _ _, n => n
  | .resume site, n | .accept site _, n | .recv site _, n | .send site _ _, n => sizeAt site n
  | _, _ => 0

/-- **The programs agree** on the table, the fibers and the buffers. -/
structure Agree (size : ℕ → ℕ) (w : FiberServer.Program) (d : Program) : Prop where
  table : SameTable (size w.pollfdSize) w.srv d.srv
  size_eq : size d.pollfdSize = size w.pollfdSize
  frames_eq : d.frames = w.frames
  globals_eq : d.globals = w.globals

/-- A fiber runs. -/
def RunsFiber : Pc → Prop
  | .accept _ _ | .recv _ _ | .send _ _ _ => True
  | _ => False

/-- **The programs are side by side**: they agree, and are at the same point, the first
call being over. -/
structure Related (w : FiberServer.Program) (d : Program) : Prop
    extends Agree (sizeIn w.pc) w d where
  pc_eq : d.pc = w.pc
  fd_eq : RunsFiber w.pc → d.fd = w.srv.fd
  begun : w.pc ≠ .listen

variable {p : FiberServer.Program} {q : Program} {site : Site} {size : ℕ → ℕ} {phr : Parser}
  {created : List ℤ}

theorem Agree.zero (h : Agree size p q) : Agree (fun _ => 0) p q :=
  ⟨h.table.zero, rfl, h.frames_eq, h.globals_eq⟩

/-- What becomes of a fiber. -/
theorem Agree.setFrame (h : Agree size p q) (f : ℕ) (frame : Frame) :
    Agree size (p.setFrame f frame) (q.setFrame f frame) :=
  ⟨h.table, h.size_eq, by rw [Program.setFrame, FiberServer.Program.setFrame, h.frames_eq],
    h.globals_eq⟩

/-- `main` gets to the same point in both. -/
theorem Agree.related (pc : Pc) (h : Agree (sizeIn pc) p q) (hpc : ¬RunsFiber pc)
    (hbegun : pc ≠ .listen) : Related { p with pc := pc } { q with pc := pc } :=
  ⟨⟨h.table, h.size_eq, h.frames_eq, h.globals_eq⟩, rfl, fun hruns => absurd hruns hpc, hbegun⟩

/-! ### Back in `main` -/

theorem related_nextRound (h : Agree (fun _ => 0) p q) :
    Related (FiberServer.nextRound p) (nextRound q) := by
  rw [FiberServer.nextRound, HostFiber.nextRound, h.table.endServer_eq]
  split_ifs
  · exact Agree.related (.kill 0) h id (by rintro ⟨⟩)
  · exact ⟨⟨{ h.table with compress_eq := rfl }, rfl, h.frames_eq, h.globals_eq⟩, rfl, False.elim,
      by rintro ⟨⟩⟩

theorem related_sweepEnd (h : Agree size p q) :
    Related (FiberServer.sweepEnd p) (sweepEnd q) := by
  rw [FiberServer.sweepEnd, HostFiber.sweepEnd, h.table.compress_eq]
  refine related_nextRound ?_
  split_ifs
  · exact ⟨h.table.zero.compact, rfl, h.frames_eq, h.globals_eq⟩
  · exact h.zero

/-- **`fiber_resume` returns** with the same status in both. -/
theorem related_back (h : Agree (sizeAt site) p q) (status : Scheduler.FiberStatus) :
    Related (FiberServer.back status p site) (back status q site) := by
  cases site with
  | kill i => exact Agree.related (.closeKill i) h id nofun
  | sweep i =>
    unfold FiberServer.back HostFiber.back FiberServer.handleStatus HostFiber.handleStatus
    rw [h.table.fibers_eq]
    have hfreed := h.setFrame (p.srv.fibers i).fiber .freed
    cases status with
    | yield =>
      exact ⟨⟨(h.table.pollin i).flag i false, h.size_eq, h.frames_eq, h.globals_eq⟩, rfl,
        False.elim, nofun⟩
    | ok | error | other =>
      exact ⟨⟨hfreed.table.emit _, hfreed.size_eq, hfreed.frames_eq, hfreed.globals_eq⟩, rfl,
        False.elim, nofun⟩

theorem related_yields (h : Agree (sizeAt site) p q) (f : ℕ) (frame : Frame) :
    Related (FiberServer.yields site f frame p) (yields site f frame q) :=
  related_back (h.setFrame f frame) .yield

theorem related_returns (h : Agree (sizeAt site) p q) (f : ℕ) :
    Related (FiberServer.returns site f p) (returns site f q) :=
  related_back (h.setFrame f .finished) .ok

/-! ### The listener -/

theorem related_awaitSpace (h : Agree (sizeAt site) p q) (hfd : q.fd = p.srv.fd)
    (hcap : p.srv.wfd.capacity = MAX_CONNECTIONS) (f : ℕ) :
    Related (FiberServer.awaitSpace site f p) (awaitSpace site f q) := by
  rw [FiberServer.awaitSpace, HostFiber.awaitSpace, h.table.nfds_eq, hcap]
  split_ifs
  · exact related_yields h f .full
  · exact ⟨⟨h.table, h.size_eq, h.frames_eq, h.globals_eq⟩, rfl, fun _ => hfd, by rintro ⟨⟩⟩

theorem related_listenerLoop (h : Agree (sizeAt site) p q) (hfd : q.fd = p.srv.fd)
    (hcap : p.srv.wfd.capacity = MAX_CONNECTIONS) (f : ℕ) :
    Related (FiberServer.listenerLoop site f p) (listenerLoop site f q) := by
  rw [FiberServer.listenerLoop, HostFiber.listenerLoop]
  by_cases hkill : p.srv.fd = FIBER_KILL_SIGNAL
  · rw [if_pos hkill, if_pos (hfd.trans hkill)]
    exact related_returns h f
  · rw [if_neg hkill, if_neg fun heq => hkill (hfd.symm.trans heq)]
    exact related_awaitSpace (q := { q with newFd := -1 })
      ⟨h.table, h.size_eq, h.frames_eq, h.globals_eq⟩ hfd hcap f

/-- **The listener goes on.** The two servers remember different results of the last
call, but while there is space both make another one. -/
theorem related_acceptMore (h : Agree (sizeAt site) p q) (hfd : q.fd = p.srv.fd)
    (hkill : p.srv.fd ≠ FIBER_KILL_SIGNAL) (hcap : p.srv.wfd.capacity = MAX_CONNECTIONS) (f : ℕ) :
    Related (FiberServer.acceptMore site f p) (acceptMore site f q) := by
  have hkill' : q.fd ≠ FIBER_KILL_SIGNAL := hfd.trans_ne hkill
  by_cases hfull : p.srv.wfd.length = MAX_CONNECTIONS
  · rw [FiberServer.acceptMore, HostFiber.acceptMore, h.table.nfds_eq, hcap,
      if_neg fun hmore => absurd hfull (Nat.ne_of_lt hmore.1),
      if_neg fun hmore => absurd hfull (Nat.ne_of_lt hmore.1)]
    exact related_listenerLoop h hfd hcap f
  · have hp : FiberServer.acceptMore site f p = { p with newFd := -1, pc := .accept site f } := by
      rw [FiberServer.acceptMore, FiberServer.listenerLoop, if_neg hkill, FiberServer.awaitSpace,
        hcap, if_neg hfull, ite_self]
    have hq : ∃ x, acceptMore site f q = { q with newFd := x, pc := .accept site f } := by
      rw [HostFiber.acceptMore, HostFiber.listenerLoop, if_neg hkill', HostFiber.awaitSpace,
        h.table.nfds_eq, if_neg hfull]
      split_ifs
      · exact ⟨q.newFd, rfl⟩
      · exact ⟨-1, rfl⟩
    obtain ⟨x, hx⟩ := hq
    rw [hp, hx]
    exact ⟨⟨h.table, h.size_eq, h.frames_eq, h.globals_eq⟩, rfl, fun _ => hfd, by rintro ⟨⟩⟩

theorem related_enterListener (h : Agree (sizeAt site) p q) (hfd : q.fd = p.srv.fd)
    (hcap : p.srv.wfd.capacity = MAX_CONNECTIONS) (f : ℕ) (frame : Frame) :
    Related (FiberServer.enterListener site f frame p) (enterListener site f frame q) := by
  unfold FiberServer.enterListener enterListener
  rw [hfd]
  cases frame with
  | fresh =>
    exact related_listenerLoop (p := { p with newFd := -1 })
      ⟨h.table, h.size_eq, h.frames_eq, h.globals_eq⟩ hfd hcap f
  | full =>
    dsimp only
    split_ifs
    · exact related_returns h f
    · exact related_awaitSpace h hfd hcap f
  | again | running | finished | freed =>
    dsimp only
    split_ifs with hkill
    · exact related_returns h f
    · exact related_acceptMore h hfd hkill hcap f

/-! ### The fiber of a connection -/

theorem related_receive (h : Agree (sizeAt site) p q) (hfd : q.fd = p.srv.fd) (f : ℕ) :
    Related (FiberServer.receive site f p) (receive site f q) :=
  ⟨⟨h.table, h.size_eq, h.frames_eq, rfl⟩, rfl, fun _ => hfd, nofun⟩

theorem related_enterConnection (h : Agree (sizeAt site) p q) (hfd : q.fd = p.srv.fd) (f : ℕ)
    (frame : Frame) :
    Related (FiberServer.enterConnection site f frame p) (enterConnection site f frame q) := by
  unfold FiberServer.enterConnection enterConnection
  rw [hfd]
  cases frame with
  | fresh => exact related_receive h hfd f
  | full | again | running | finished | freed =>
    dsimp only
    split_ifs
    · exact related_returns h f
    · exact related_receive h hfd f

theorem related_respond (h : Agree (sizeAt site) p q) (hfd : q.fd = p.srv.fd) (f : ℕ)
    (now : Http.Tm) :
    Related (FiberServer.respond phr now site f p) (respond phr now site f q) := by
  rw [FiberServer.respond, HostFiber.respond, h.globals_eq]
  obtain ⟨globals, quit, rc⟩ := Http.answer phr now p.globals
  have htable := h.table.orEnd quit
  cases rc with
  | none =>
    refine related_returns ?_ f
    exact ⟨htable, h.size_eq, h.frames_eq, rfl⟩
  | some rc => exact ⟨⟨htable, h.size_eq, h.frames_eq, rfl⟩, rfl, fun _ => hfd, by rintro ⟨⟩⟩

/-! ### The steps of `main` -/

/-- What comes of a step: an assertion of the wasio layer or its client has failed, or
the programs are side by side. -/
def Outcome (p : FiberServer.Program) (q : Program) : Prop := p.pc = .aborted ∨ Related p q

theorem related_tauStep (h : Related p q) :
    Option.Rel Outcome (FiberServer.tauStep p) (tauStep q) := by
  obtain ⟨srv, newFd, n, globals, nbytes, frames, pc⟩ := p
  obtain ⟨srv', n', fd', newFd', globals', frames', pc'⟩ := q
  obtain ⟨⟨htable, hsize, hframes, hglobals⟩, hpc, -, -⟩ := h
  dsimp only at htable hsize hframes hglobals hpc
  subst hframes hglobals hpc
  cases pc' with
  | sweep i =>
    obtain rfl : n' = n := hsize
    have htable : SameTable n' srv srv' := htable
    rw [FiberServer.tauStep, HostFiber.tauStep]
    dsimp only
    by_cases hi : i < n'
    · have hrev := htable.revents_eq i hi
      rw [if_pos hi, if_pos hi, hrev]
      -- the wasio server asserts that the descriptor it resumes with is one of a socket
      split_ifs
      · exact .some (Or.inr ⟨⟨htable, rfl, rfl, rfl⟩, rfl, False.elim, by rintro ⟨⟩⟩)
      · refine .some (Or.inr ⟨⟨htable.hangUp i, rfl, ?_, rfl⟩, rfl, False.elim, by rintro ⟨⟩⟩)
        rw [Program.setFrame, FiberServer.Program.setFrame, htable.fibers_eq]
      · exact .some (Or.inr (related_sweepEnd
          (show Agree id _ _ from ⟨{ htable with endServer_eq := rfl }, rfl, rfl, rfl⟩)))
      · exact .some (Or.inr ⟨⟨{ htable with }, rfl, rfl, rfl⟩, rfl, False.elim, by rintro ⟨⟩⟩)
      · exact .some (Or.inl rfl)
    · rw [if_neg hi, if_neg hi]
      exact .some (Or.inr (related_sweepEnd
        (show Agree id _ _ from ⟨htable, rfl, rfl, rfl⟩)))
  | kill i =>
    have htable : SameTable 0 srv srv' := htable
    rw [FiberServer.tauStep, HostFiber.tauStep]
    dsimp only
    rw [htable.nfds_eq, htable.fd_eq i]
    split_ifs
    · exact .some (Or.inr ⟨⟨htable, rfl, rfl, rfl⟩, rfl, False.elim, by rintro ⟨⟩⟩)
    · exact .some (Or.inr ⟨⟨{ htable with }, rfl, rfl, rfl⟩, rfl, False.elim, by rintro ⟨⟩⟩)
    · exact .some (Or.inr ⟨⟨htable, rfl, rfl, rfl⟩, rfl, False.elim, by rintro ⟨⟩⟩)
  | _ => exact .none

/-! ### `fiber_resume` -/

/-- What `main` passes is the same in both. -/
theorem payload_eq {n : ℕ} (h : AtSite created p.frames p.srv.table n p.srv.fd site)
    (hfibers : q.srv.fibers = p.srv.fibers) : payload q.srv site = p.srv.fd := by
  cases site with
  | sweep i =>
    have hfd : (p.srv.fibers i).fd = (p.srv.wfd.fds i).fd := h.entryOk.fd_eq
    rw [payload, hfibers, hfd]
    exact h.2.2.1.symm
  | kill i => exact h.2.2.symm

theorem related_resumeStep (h : Related p q) (hinv : Inv created p) (f : ℕ) (fd : ℤ)
    (resumed : Bool) :
    Option.Rel Outcome (FiberServer.resumeStep p f fd resumed) (resumeStep q f fd resumed) := by
  obtain ⟨srv, newFd, n, globals, nbytes, frames, pc⟩ := p
  obtain ⟨srv', n', fd', newFd', globals', frames', pc'⟩ := q
  obtain ⟨⟨htable, hsize, hframes, hglobals⟩, hpc, -, -⟩ := h
  dsimp only at htable hsize hframes hglobals hpc
  subst hframes hglobals hpc
  cases pc' with
  | resume site =>
    obtain ⟨hsite, -⟩ := hinv
    have hcap : srv.wfd.capacity = MAX_CONNECTIONS := hsite.sized.capacity_eq
    have hpay : payload srv' site = srv.fd := payload_eq (q := ⟨srv', n', fd', newFd', globals',
      frames', .resume site⟩) hsite htable.fibers_eq
    have hfibers := htable.fibers_eq
    have htable : SameTable (sizeAt site n) srv srv' := htable
    have hsize : sizeAt site n' = sizeAt site n := hsize
    rw [FiberServer.resumeStep, HostFiber.resumeStep]
    dsimp only
    rw [hpay, hfibers]
    by_cases hcond : f = (srv.fibers site.index).fiber ∧ fd = srv.fd
    · rw [if_pos hcond, if_pos hcond]
      obtain ⟨-, rfl⟩ := hcond
      have hemit := htable.emit (.resume f srv.fd)
      have hlive : Program.Live ⟨srv', n', fd', newFd', globals', frames', .resume site⟩ f ↔
          FiberServer.Program.Live
            ⟨srv.emit (.resume f srv.fd), newFd, n, globals', nbytes, frames', .resume site⟩ f := by
        rw [Program.Live, FiberServer.Program.Live, htable.allocated_eq]
        rfl
      by_cases hl : FiberServer.Program.Live
          ⟨srv.emit (.resume f srv.fd), newFd, n, globals', nbytes, frames', .resume site⟩ f
      · rw [if_pos hl, if_pos (hlive.mpr hl)]
        cases resumed with
        | true =>
          rw [if_pos rfl, if_pos rfl]
          refine .some (Or.inr ?_)
          split_ifs
          · exact related_enterListener ⟨hemit, hsize, rfl, rfl⟩ rfl hcap f _
          · exact related_enterConnection ⟨hemit, hsize, rfl, rfl⟩ rfl f _
        | false =>
          rw [if_neg Bool.false_ne_true, if_neg Bool.false_ne_true]
          exact .some (Or.inr (related_back ⟨hemit, hsize, rfl, rfl⟩ .error))
      · rw [if_neg hl, if_neg fun h => hl (hlive.mp h)]
        exact .some (Or.inr ⟨⟨hemit.zero, rfl, rfl, rfl⟩, rfl, False.elim, by rintro ⟨⟩⟩)
    · rw [if_neg hcond, if_neg hcond]
      exact .none
  | _ => exact .none

/-! ### The answers of the host -/

/-- **The programs make the same call.** -/
theorem call_eq (h : Related p q) : q.call = p.call := by
  have hargs : pollArg q = FiberServer.pollArg p := by
    rw [pollArg, FiberServer.pollArg, h.table.nfds_eq]
    refine List.map_congr_left fun k _ => ?_
    rw [h.table.fd_eq k, h.table.events_eq k]
  have hfd := h.fd_eq
  rw [Program.call, FiberServer.Program.call, h.pc_eq]
  cases hpc : p.pc <;> rw [hpc] at hfd <;> dsimp only
  case poll => rw [hargs]
  case accept | recv => rw [hfd trivial]
  case send => rw [hfd trivial, h.globals_eq]
  case closeKill i => rw [h.table.fd_eq i]

/-- What the host reports is written to the same entries. -/
theorem SameTable.polled (h : SameTable 0 w d) (revents : ℕ → BitVec 16) :
    SameTable w.wfd.length
      { w with wfd := { w.wfd with
        fds := fun i =>
          if i < w.wfd.length then { w.wfd.fds i with revents := revents i } else w.wfd.fds i } }
      { d with
        fds := fun i =>
          if i < d.nfds then { d.fds i with revents := revents i } else d.fds i } := by
  refine h.withFds (fun k => ?_) (fun k => ?_) fun k hk => ?_
  · rw [h.nfds_eq]
    split_ifs <;> exact h.fd_eq k
  · rw [h.nfds_eq]
    split_ifs <;> exact h.events_eq k
  · rw [h.nfds_eq, if_pos hk, if_pos hk]

theorem related_polled (h : Agree (fun _ => 0) p q) {a : Answer} (hret : 0 ≤ a.ret) :
    Related (FiberServer.polled p a) (polled q a) := by
  have hneg : ¬a.ret < 0 := not_lt.mpr hret
  have htable := h.table.polled a.revents
  rw [FiberServer.polled, HostFiber.polled, HostPoll.wasioPoll, if_neg hneg, if_neg hneg]
  dsimp only
  by_cases hzero : a.ret = 0
  · rw [if_pos (by rw [hzero]; rfl), if_pos hzero, FiberServer.nextRound, if_pos rfl]
    have hemit := htable.zero.emit (.call (.poll p.srv.wfd.length FiberServer.timeout))
    exact ⟨⟨{ hemit with endServer_eq := rfl }, rfl, h.frames_eq, h.globals_eq⟩, rfl,
      False.elim, by rintro ⟨⟩⟩
  · rw [if_neg (by omega), if_neg hzero]
    exact ⟨⟨htable.emit _, h.table.nfds_eq, h.frames_eq, h.globals_eq⟩, rfl, False.elim,
      by rintro ⟨⟩⟩

/-- A connection is appended to both tables, beyond the entries to be visited. -/
theorem SameTable.accepted (h : SameTable n w d) (hn : n ≤ w.wfd.length)
    (hlt : w.wfd.length < MAX_CONNECTIONS) (fd : ℤ) :
    SameTable n (w.accepted fd)
      { d with
        fds := Function.update d.fds d.nfds { d.fds d.nfds with fd := fd, events := POLLIN }
        nfds := Uint32.succ d.nfds
        fibers := Function.update d.fibers d.nfds ⟨d.allocated + 1, fd⟩
        allocated := d.allocated + 1 } := by
  have hmax := FiberServer.MAX_CONNECTIONS_lt
  have hfds := h.update w.wfd.length (e := HostPoll.opened fd)
    (b := { d.fds d.nfds with fd := fd, events := POLLIN }) rfl rfl fun hk => by omega
  rw [h.nfds_eq, h.allocated_eq] at *
  exact { hfds with
    nfds_eq := Uint32.succ_of_lt (by omega)
    fibers_eq := by rw [h.fibers_eq]; rfl
    allocated_eq := rfl }

/-- The wasio layer reports that a call would block where the host says so. -/
theorem translateError_cases (errno : ℤ) :
    errno = HOST_EAGAIN ∧ translateError errno = .eagain ∨
      errno ≠ HOST_EAGAIN ∧ translateError errno = .error := by
  rw [translateError]
  by_cases h : errno = HOST_EAGAIN
  · exact Or.inl ⟨h, if_pos (Or.inl h)⟩
  · exact Or.inr ⟨h, if_neg fun hor => h (hor.elim id id)⟩

theorem related_accepted (h : Agree (sizeAt site) p q) (hfd : q.fd = p.srv.fd)
    (hn : sizeAt site p.pollfdSize ≤ p.srv.wfd.length)
    (hcap : p.srv.wfd.capacity = MAX_CONNECTIONS) (hlt : p.srv.wfd.length < MAX_CONNECTIONS)
    (hkill : p.srv.fd ≠ FIBER_KILL_SIGNAL) (a : Answer) :
    Outcome (FiberServer.accepted p site f a) (accepted q site f a) := by
  have hlt' : p.srv.wfd.length < p.srv.wfd.capacity := hlt.trans_eq hcap.symm
  have hcaplt : p.srv.wfd.capacity < 2 ^ 32 := hcap ▸ FiberServer.MAX_CONNECTIONS_lt
  rw [FiberServer.accepted, HostFiber.accepted]
  by_cases hneg : a.ret < 0
  · have hagree : Agree (sizeAt site)
        { p with srv := p.srv.emit (.call (.accept p.srv.fd)) } { q with newFd := a.ret } :=
      ⟨h.table.emit _, h.size_eq, h.frames_eq, h.globals_eq⟩
    rw [HostPoll.wasioAccept_of_neg hlt' _ hneg, if_pos hneg]
    rcases translateError_cases a.errno with ⟨herr, htr⟩ | ⟨herr, htr⟩ <;> rw [htr]
    · rw [if_neg (not_not.mpr herr)]
      exact Or.inr (related_yields hagree f .again)
    · rw [if_pos herr]
      refine Or.inr (related_returns ?_ f)
      exact ⟨{ hagree.table with endServer_eq := rfl }, h.size_eq, h.frames_eq, h.globals_eq⟩
  · have hpred : Uint32.pred (p.srv.wfd.length + 1) = p.srv.wfd.length :=
      Uint32.pred_of_pos (Nat.succ_pos _)
    rw [HostPoll.wasioAccept_of_nonneg hlt' hcaplt _ hneg, if_neg hneg]
    dsimp only
    rw [hpred]
    have htable := (h.table.accepted hn hlt a.ret).emit (.call (.accept p.srv.fd))
    have hframes : Function.update q.frames (q.srv.allocated + 1) Frame.fresh =
        Function.update p.frames (p.srv.allocated + 1) .fresh := by
      rw [h.frames_eq, h.table.allocated_eq]
    split_ifs
    · refine Or.inr (related_acceptMore ?_ ?_ ?_ ?_ f)
      · exact ⟨htable, h.size_eq, hframes, h.globals_eq⟩
      · exact hfd
      · exact hkill
      · exact hcap
    · exact Or.inl rfl

theorem related_received (h : Agree (sizeAt site) p q) (hfd : q.fd = p.srv.fd) (a : Answer) :
    Outcome (FiberServer.received phr p site f a) (received phr q site f a) := by
  have hagree (call : HostCall) :
      Agree (sizeAt site) { p with srv := p.srv.emit (.call call) } q :=
    ⟨h.table.emit _, h.size_eq, h.frames_eq, h.globals_eq⟩
  rw [FiberServer.received, HostFiber.received, HostPoll.wasioRecv]
  by_cases hzero : a.ret = 0
  · rw [if_pos hzero, if_pos hzero]
    exact Or.inr (related_returns (hagree _) f)
  rw [if_neg hzero, if_neg hzero]
  by_cases hneg : a.ret < 0
  · rw [if_pos hneg, if_pos hneg]
    rcases translateError_cases a.errno with ⟨herr, htr⟩ | ⟨herr, htr⟩ <;> rw [htr]
    · rw [if_neg (not_not.mpr herr)]
      exact Or.inr (related_yields (hagree _) f .again)
    · rw [if_pos herr]
      exact Or.inr (related_returns (hagree _) f)
  · rw [if_neg hneg, if_neg hneg]
    dsimp only
    rw [if_pos (by omega)]
    refine Or.inr (related_respond ?_ ?_ f a.now)
    · exact ⟨h.table.emit _, h.size_eq, h.frames_eq,
        congrArg (fun g => Globals.received g (a.received BUFFER_SIZE)) h.globals_eq⟩
    · exact hfd

theorem related_sent (h : Agree (sizeAt site) p q) (hfd : q.fd = p.srv.fd) (rc : ℕ) (a : Answer) :
    Related (FiberServer.sent p site f rc a) (sent q site f) := by
  have hemit := h.table.emit (.call (HostPoll.wasioSend p.srv.fd rc a.toHostAnswer).call)
  rw [FiberServer.sent, HostFiber.sent, hemit.endServer_eq]
  dsimp only
  split_ifs
  · refine related_returns ?_ f
    exact ⟨hemit, h.size_eq, h.frames_eq, h.globals_eq⟩
  · refine related_receive ?_ ?_ f
    · exact ⟨hemit, h.size_eq, h.frames_eq, h.globals_eq⟩
    · exact hfd

theorem related_closedDone (h : Agree id p q) (i : ℕ) (fd : ℤ) (failed : Bool) (a : Answer) :
    Outcome (FiberServer.closedDone p i fd failed a) (closedDone q i failed) := by
  rw [FiberServer.closedDone, HostFiber.closedDone]
  dsimp only
  split_ifs
  · have htable := ((h.table.emit
      (.call (HostPoll.wasioClose fd a.toHostAnswer).call)).punch i).shorten
    exact Or.inr ⟨⟨(htable.orEnd failed).flag i true, h.size_eq, h.frames_eq, h.globals_eq⟩, rfl,
      False.elim, by rintro ⟨⟩⟩
  · exact Or.inl rfl

theorem related_closedKill (h : Agree (fun _ => 0) p q) (i : ℕ) (a : Answer) :
    Related (FiberServer.closedKill p i a) (closedKill q i) :=
  ⟨⟨(h.table.emit _).shorten, rfl, h.frames_eq, h.globals_eq⟩, rfl, False.elim, nofun⟩

/-! ### Lock-step -/

/-- A poll does not fail. -/
def PollSucceeds : Label → Prop
  | .call (.poll _ _) a => 0 ≤ a.ret
  | _ => True

/-- **One step of both programs.** -/
theorem related_step (h : Related p q) (hinv : Inv created p) {a : Label} (ha : PollSucceeds a) :
    Option.Rel Outcome (FiberServer.step phr p a) (step phr q a) := by
  cases a with
  | tau => exact related_tauStep h
  | resume f fd resumed => exact related_resumeStep h hinv f fd resumed
  | call c a =>
    rw [FiberServer.step, HostFiber.step, call_eq h]
    by_cases hc : p.call = some c
    swap
    · rw [if_neg hc, if_neg hc]
      exact .none
    rw [if_pos hc, if_pos hc]
    refine .some ?_
    have hagree := h.toAgree
    have hfd := h.fd_eq
    rw [FiberServer.answered, answered, h.pc_eq]
    cases hpc : p.pc <;> rw [FiberServer.Program.call, hpc] at hc <;> rw [hpc] at hagree hfd <;>
      rw [FiberServer.Inv, hpc] at hinv <;> dsimp only at hc ⊢
    case listen => exact absurd hpc h.begun
    case sweep | resume | kill | exited | aborted | stray => cases hc
    all_goals obtain rfl := Option.some.inj hc
    case poll => exact Or.inr (related_polled hagree ha)
    case accept site f =>
      obtain ⟨hfiber, -, rfl, hlt⟩ := hinv
      obtain ⟨hsweep, -, -, hkill⟩ := hfiber.atSite
      have hagree : Agree (sizeAt (.sweep 0)) p q := hagree
      exact related_accepted hagree (hfd trivial) hsweep.le hsweep.capacity_eq hlt hkill a
    case recv site f =>
      have hagree : Agree (sizeAt site) p q := hagree
      exact related_received hagree (hfd trivial) a
    case send site f rc =>
      have hagree : Agree (sizeAt site) p q := hagree
      exact Or.inr (related_sent hagree (hfd trivial) rc a)
    case closeDone i fd failed => exact related_closedDone hagree i fd failed a
    case closeKill i => exact Or.inr (related_closedKill hagree i a)

/-- **Two programs side by side**, from their start to their end. -/
def Beside (p : FiberServer.Program) (q : Program) : Prop :=
  p = .start ∧ q = .start ∨ p.pc = .exited ∧ q.pc = .exited ∨
    (∃ created, Inv created p) ∧ Related p q

theorem Beside.pc_eq (h : Beside p q) : p.pc = q.pc := by
  rcases h with ⟨rfl, rfl⟩ | ⟨hp, hq⟩ | ⟨-, hrelated⟩
  · rfl
  · rw [hp, hq]
  · exact hrelated.pc_eq.symm

theorem Beside.call_eq (h : Beside p q) : p.call = q.call := by
  rcases h with ⟨rfl, rfl⟩ | ⟨hp, hq⟩ | ⟨-, hrelated⟩
  · rfl
  · rw [FiberServer.Program.call, Program.call, hp, hq]
  · exact (HostFiber.call_eq hrelated).symm

/-- The first call of the host. -/
theorem beside_listened (a : Answer) :
    Beside (FiberServer.listened .start a) (listened .start a) := by
  have hlt : FiberServer.Program.start.srv.wfd.length <
    FiberServer.Program.start.srv.wfd.capacity := by decide
  have hinv := FiberServer.inv_listened rfl FiberServer.inv_start a 0 0
  rw [FiberServer.listened] at hinv ⊢
  rw [HostFiber.listened]
  by_cases hneg : a.ret < 0
  · rw [HostPoll.wasioListen_of_neg hlt _ _ hneg, if_pos hneg]
    refine Or.inr (Or.inl ⟨?_, rfl⟩)
    cases translateError a.errno <;> rfl
  · rw [HostPoll.wasioListen_of_nonneg hlt (by decide) _ _ hneg] at hinv ⊢
    rw [if_neg hneg]
    refine Or.inr (Or.inr ⟨⟨_, hinv⟩, related_nextRound ⟨?_, rfl, rfl, rfl⟩⟩)
    refine ⟨fun k => ?_, fun k => ?_, fun _ hk => absurd hk (Nat.not_lt_zero _), rfl, rfl, rfl, rfl,
      rfl⟩
    · rcases eq_or_ne k 0 with rfl | hne
      · rfl
      · simp [FiberServer.Program.start, hne]
    · rcases eq_or_ne k 0 with rfl | hne
      · rfl
      · simp [FiberServer.Program.start, hne]

/-- The program has ended. -/
theorem step_of_exited (h : q.pc = .exited) (a : Label) : step phr q a = none := by
  cases a with
  | tau => rw [step, tauStep, h]
  | resume f fd resumed => rw [step, resumeStep, h]
  | call c a => rw [step, Program.call, h, if_neg nofun]

/-- **The two servers take the same steps**, until an assertion fails. -/
theorem beside_lockStep (phr : Parser) :
    Lts.LockStep Beside (fun p => p.pc = .aborted) PollSucceeds (FiberServer.step phr)
      (step phr) := by
  rintro p q a (⟨rfl, rfl⟩ | ⟨hp, hq⟩ | ⟨⟨created, hinv⟩, hrelated⟩) ha
  · cases a with
    | tau | resume => exact .none
    | call c a =>
      rw [FiberServer.step, HostFiber.step,
        show Program.start.call = FiberServer.Program.start.call from rfl]
      by_cases hc : FiberServer.Program.start.call = some c
      · rw [if_pos hc, if_pos hc]
        exact .some (Or.inr (beside_listened a))
      · rw [if_neg hc, if_neg hc]
        exact .none
  · rw [FiberServer.step_of_ended (Or.inl hp), step_of_exited hq]
    exact .none
  · have hstep : Option.Rel Outcome (FiberServer.step phr p a) (step phr q a) :=
      related_step hrelated hinv ha
    cases hp : FiberServer.step phr p a <;> cases hq : step phr q a <;> rw [hp, hq] at hstep
    · exact .none
    · cases hstep
    · cases hstep
    · cases hstep with
      | some hout =>
        refine .some (hout.imp_right fun hrelated => Or.inr (Or.inr ⟨⟨_, hinv.step hp⟩, hrelated⟩))

/-- A client closes its connection, and the host fails to close the descriptor. -/
def closeFails : List Label :=
  FiberServer.oneClient ++
    [.resume 2 5 true, .call (.recv 5 BUFFER_SIZE) (FiberServer.plainAnswer 0 0 fun _ => 0),
      .call (.close 5) (FiberServer.plainAnswer (-1) 9 fun _ => 0)]

/-- The first poll fails. -/
def pollFails : List Label :=
  [.call (.listen 8080 2048) (FiberServer.plainAnswer 4 0 fun _ => 0),
    .call (.poll [(4, POLLIN)] FiberServer.timeout) (FiberServer.plainAnswer (-1) 4 fun _ => 0)]

end HostFiber

open HostFiber Http

/-- **The wasio layer does not change the server**, as long as no poll fails: a run of
the server on the wasio layer is one of the server on the host calls, with the same calls,
descriptors and bytes and the same resumptions, and ends at the same point unless an
assertion has failed; and a run of the latter is one of the former up to the first
assertion that fails. -/
theorem fiberServers_lockStep (phr : Parser) (l : List Label) (hl : ∀ a ∈ l, PollSucceeds a) :
    (∀ p, FiberServer.Runs phr l p → ∃ q, HostFiber.Runs phr l q ∧
      (p.pc = .aborted ∨ p.pc = q.pc ∧ p.call = q.call)) ∧
      ∀ q, HostFiber.Runs phr l q → ∃ m p, m <+: l ∧ FiberServer.Runs phr m p ∧
        (p.pc = .aborted ∨ m = l ∧ p.pc = q.pc ∧ p.call = q.call) := by
  have hstart : Beside .start .start := Or.inl ⟨rfl, rfl⟩
  constructor
  · intro p hp
    obtain ⟨q, hq, hend⟩ := (beside_lockStep phr).steps
      (fun s a hs => FiberServer.step_of_ended (Or.inr hs) a) hp hl hstart
    exact ⟨q, hq, hend.imp_right fun h => ⟨h.pc_eq, h.call_eq⟩⟩
  · intro q hq
    obtain ⟨m, p, hm, hp, hend⟩ := (beside_lockStep phr).steps_back hq hl hstart
    exact ⟨m, p, hm, hp, hend.imp_right fun h => ⟨h.1, h.2.pc_eq, h.2.call_eq⟩⟩

/-- One client, with both servers. -/
theorem fiberServers_lockStep_oneClient :
    ∃ q, HostFiber.Runs (fun _ => ⟨-1, none, 0, 1⟩) FiberServer.oneClient q ∧
      q.pc = .resume (.sweep 1) := by
  obtain ⟨p, hp, hpc⟩ :
      ∃ p ∈ Lts.exec (FiberServer.step fun _ => ⟨-1, none, 0, 1⟩) .start FiberServer.oneClient,
        p.pc = .resume (.sweep 1) := by
    decide +kernel
  have hl : ∀ a ∈ FiberServer.oneClient, PollSucceeds a := by
    simp [FiberServer.oneClient, PollSucceeds, FiberServer.plainAnswer]
  obtain ⟨q, hq, hend⟩ := (fiberServers_lockStep _ _ hl).1 p (FiberServer.runs_of_exec hp)
  refine ⟨q, hq, ?_⟩
  rcases hend with habort | ⟨hsame, -⟩
  · rw [hpc] at habort
    exact absurd habort nofun
  · exact hsame.symm.trans hpc

/-- **Where the servers part**: where a close fails, the server on the wasio layer stops,
and the other one polls again; where a poll fails, the former polls again, and the latter
goes on to its clean-up. -/
theorem not_fiberServers_lockStep_fails :
    (∃ p q, FiberServer.Runs (fun _ => ⟨-1, none, 0, 1⟩) closeFails p ∧
      (∀ a, FiberServer.step (fun _ => ⟨-1, none, 0, 1⟩) p a = none) ∧
      HostFiber.Runs (fun _ => ⟨-1, none, 0, 1⟩) (closeFails ++ [.tau]) q ∧
      q.call = some (.poll [(4, POLLIN)] FiberServer.timeout)) ∧
      ∃ p q, FiberServer.Runs (fun _ => ⟨-1, none, 0, 1⟩) pollFails p ∧
        p.call = some (.poll [(4, POLLIN)] FiberServer.timeout) ∧
        HostFiber.Runs (fun _ => ⟨-1, none, 0, 1⟩) pollFails q ∧ q.pc = .kill 0 := by
  obtain ⟨p, hp, hpc⟩ :
      ∃ p ∈ Lts.exec (FiberServer.step fun _ => ⟨-1, none, 0, 1⟩) .start closeFails,
        p.pc = .aborted := by
    decide +kernel
  obtain ⟨q, hq, hcall⟩ :
      ∃ q ∈ Lts.exec (HostFiber.step fun _ => ⟨-1, none, 0, 1⟩) .start (closeFails ++ [.tau]),
        q.call = some (.poll [(4, POLLIN)] FiberServer.timeout) := by
    decide +kernel
  obtain ⟨p', hp', hcall'⟩ :
      ∃ p ∈ Lts.exec (FiberServer.step fun _ => ⟨-1, none, 0, 1⟩) .start pollFails,
        p.call = some (.poll [(4, POLLIN)] FiberServer.timeout) := by
    decide +kernel
  obtain ⟨q', hq', hpc'⟩ :
      ∃ q ∈ Lts.exec (HostFiber.step fun _ => ⟨-1, none, 0, 1⟩) .start pollFails,
        q.pc = .kill 0 := by
    decide +kernel
  exact ⟨⟨p, q, FiberServer.runs_of_exec hp, FiberServer.step_of_ended (Or.inr hpc),
    Lts.exec_eq_some_iff.mp hq, hcall⟩, p', q', FiberServer.runs_of_exec hp', hcall',
    Lts.exec_eq_some_iff.mp hq', hpc'⟩

end Waeio
