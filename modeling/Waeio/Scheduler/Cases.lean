import Waeio.Scheduler.Basic
import Waeio.WasioHost.Table

/-!
# What a step of the scheduler can do

The step functions of the scheduler, inverted once: `Waeio.Scheduler.Handled`
lists what `handle_request` can do, and `Waeio.Scheduler.Stepped` what a step can
do, with every guard that was passed on the way. The invariants of the scheduler
are case analyses on these two.
-/

namespace Waeio

namespace Scheduler

open WasioHost (TableInv Quiet)

/-! ### Where the program is -/

/-- The fiber the program is in. -/
def Pc.fiber : Pc → Option ℕ
  | .running f _ _ _ _ => some f
  | _ => none

/-- The descriptor that is visited next. -/
def State.nextVisit (s : State) : Option ℕ :=
  match s.pc with
  | .events i _ _ => nextEvent s.wfd i
  | _ => none

theorem fd_ne_of_nextEvent {wfd : WasioPollfd} {i v : ℕ} (h : nextEvent wfd i = some v) :
    (wfd.vfds v).fd ≠ -1 := by
  have hevent := List.find?_some h
  rw [hasEvent, Bool.and_eq_true, bne_iff_ne] at hevent
  exact hevent.1

/-- What `status` holds while a fiber runs in the poll phase. -/
def Pc.pollStatus : Pc → Option FiberStatus
  | .running _ (.event _) status _ _ => some status
  | _ => none

/-- The variable `keep_going`. -/
def Pc.keepsGoing : Pc → Bool
  | .ready _ keepGoing | .events _ _ keepGoing | .running _ _ _ keepGoing _ => keepGoing
  | .leaving | .done | .stray => false

/-- The fiber has returned. -/
def Outcome.Returns : Outcome → Prop
  | .returns _ => True
  | _ => False

instance : DecidablePred Outcome.Returns
  | .returns _ => isTrue trivial
  | .yields _ _ | .fails _ => isFalse id

/-- The status of the last fiber is what `handle_request` is given, if in the poll
phase the variable happens to hold it. -/
theorem statusAfter_eq {pc : Pc} {f : ℕ} {site : Site} {status : FiberStatus} {keepGoing : Bool}
    {frame : Frame} {o : Outcome} (hpc : pc = .running f site status keepGoing frame)
    (h : ∀ σ ∈ pc.pollStatus, σ = o.status) : statusAfter site status o = o.status := by
  cases site with
  | queue => rfl
  | event v =>
    subst hpc
    exact h status rfl

/-! ### What `handle_request` can do -/

/-- The event bit `b` added to the slot `vfd`, whose descriptor is written as
well. -/
def notify (s : State) (vfd : ℕ) (b : BitVec 16) : State :=
  { s with
    wfd := { s.wfd with
      vfds := WasioHost.addEvent (WasioHost.setFd s.wfd.vfds vfd (s.wfd.fds vfd)) vfd b } }

theorem notify_self (s : State) (v : ℕ) (b : BitVec 16) :
    (notify s v b).wfd.vfds v =
      ⟨s.wfd.fds v, (s.wfd.vfds v).events ||| b, (s.wfd.vfds v).revents⟩ := by
  simp [notify, WasioHost.addEvent, WasioHost.setFd]

theorem notify_of_ne (s : State) {u v : ℕ} (h : u ≠ v) (b : BitVec 16) :
    (notify s v b).wfd.vfds u = s.wfd.vfds u := by
  simp [notify, WasioHost.addEvent, WasioHost.setFd, h]

/-- The command registers an interest, with the event bit `b`. -/
def Cmd.Registers (cmd : Cmd) (wfd : WasioPollfd) (b : BitVec 16) : Prop :=
  ((cmd.tag = some .accept ∨ cmd.tag = some .recv) ∧ b = wfd.pollin) ∨
    (cmd.tag = some .send ∧ b = wfd.pollout)

/-- **What `handle_request` can do** with a status and a payload. -/
inductive Handled (s : State) (f : ℕ) (payload : Cmd) : FiberStatus → State → Bool → Prop
  /-- A fiber that has completed is counted off and released. -/
  | completed : Handled s f payload .ok
      { s with nconns := Uint32.pred s.nconns, released := f :: s.released } true
  /-- No case applies to the status. -/
  | noStatus : Handled s f payload .other s true
  /-- No case applies to the tag. -/
  | noTag : payload.tag = none → Handled s f payload .yield s true
  /-- A fiber is made and enqueued, and then the one that asked. -/
  | spawned : payload.tag = some .async → payload.arg.toNat < MAX_CONNECTIONS →
      Handled s f payload .yield (pushRear (spawn s payload.arg) f 0) true
  /-- The fiber is enqueued. -/
  | suspended : payload.tag = some .suspend →
      Handled s f payload .yield (pushRear s f 0) true
  /-- An interest is registered. -/
  | registered (b : BitVec 16) : payload.Registers s.wfd b →
      payload.arg.toNat < s.wfd.capacity →
      Handled s f payload .yield (notify s payload.arg.toNat b) true
  /-- The scheduler is told to stop. -/
  | quit : payload.tag = some .quit → Handled s f payload .yield s false

theorem handled_of_handleRequest {s t : State} {f : ℕ} {status : FiberStatus} {payload : Cmd}
    {answer : Bool} (h : handleRequest s f status payload = some (t, answer)) :
    Handled s f payload status t answer := by
  cases status with
  | ok =>
    obtain ⟨rfl, rfl⟩ := Prod.mk.inj (Option.some.inj h)
    exact .completed
  | error => exact absurd h (by simp [handleRequest])
  | other =>
    obtain ⟨rfl, rfl⟩ := Prod.mk.inj (Option.some.inj h)
    exact .noStatus
  | yield =>
    rcases htag : payload.tag with _ | tag
    · simp only [handleRequest, htag, Option.some.injEq, Prod.mk.injEq] at h
      obtain ⟨rfl, rfl⟩ := h
      exact .noTag htag
    · cases tag <;> simp only [handleRequest, htag, Option.some.injEq, Prod.mk.injEq] at h
      case async =>
        split_ifs at h with hlt
        obtain ⟨rfl, rfl⟩ := Prod.mk.inj (Option.some.inj h)
        exact .spawned htag hlt
      case suspend =>
        obtain ⟨rfl, rfl⟩ := h
        exact .suspended htag
      case quit =>
        obtain ⟨rfl, rfl⟩ := h
        exact .quit htag
      all_goals
        split_ifs at h with hlt
        obtain ⟨rfl, rfl⟩ := Prod.mk.inj (Option.some.inj h)
      · exact .registered _ (Or.inl ⟨Or.inl htag, rfl⟩) hlt
      · exact .registered _ (Or.inl ⟨Or.inr htag, rfl⟩) hlt
      · exact .registered _ (Or.inr ⟨htag, rfl⟩) hlt

/-- `handle_request` does not move the program. -/
theorem Handled.pc_eq {s t : State} {f : ℕ} {payload : Cmd} {status : FiberStatus}
    {answer : Bool} (h : Handled s f payload status t answer) : t.pc = s.pc := by
  cases h <;> rfl

/-- **What comes of the request of a call**, if it is looked at. -/
def Call.Served (s : State) (f : ℕ) (residue : BitVec 32) (t : State) (answer : Bool) :
    Call → Prop
  | .async _ vfd => vfd.toNat < MAX_CONNECTIONS ∧ t = pushRear (spawn s vfd) f 0 ∧ answer = true
  | .acceptFull _ => t = pushRear s f 0 ∧ answer = true
  | .cancelAll => t = s ∧ answer = false
  | .accept _ | .recv _ _ =>
    residue.toNat < s.wfd.capacity ∧ t = notify s residue.toNat s.wfd.pollin ∧ answer = true
  | .send _ _ =>
    residue.toNat < s.wfd.capacity ∧ t = notify s residue.toNat s.wfd.pollout ∧ answer = true

theorem Handled.served {s t : State} {f : ℕ} {o : Outcome} {status : FiberStatus}
    {answer : Bool} (hh : Handled s f o.payload status t answer) {call : Call}
    {residue : BitVec 32} (ho : o = .yields call residue) (hstatus : status = .yield) :
    call.Served s f residue t answer := by
  subst ho
  rw [Outcome.payload] at hh
  cases hh with
  | completed | noStatus => exact absurd hstatus (by simp)
  | noTag htag => cases call <;> exact absurd htag (by simp [Call.cmd])
  | spawned htag hlt =>
    cases call with
    | async => exact ⟨hlt, rfl, rfl⟩
    | _ => exact absurd htag (by simp [Call.cmd])
  | suspended htag =>
    cases call with
    | acceptFull => exact ⟨rfl, rfl⟩
    | _ => exact absurd htag (by simp [Call.cmd])
  | quit htag =>
    cases call with
    | cancelAll => exact ⟨rfl, rfl⟩
    | _ => exact absurd htag (by simp [Call.cmd])
  | registered b hreg hlt =>
    rcases hreg with ⟨htag, rfl⟩ | ⟨htag, rfl⟩
    · cases call with
      | accept | recv => exact ⟨hlt, rfl, rfl⟩
      | _ => exact absurd htag (by simp [Call.cmd])
    · cases call with
      | send => exact ⟨hlt, rfl, rfl⟩
      | _ => exact absurd htag (by simp [Call.cmd])

/-! ### What a step can do -/

/-- The operations a running fiber performs. -/
def OfFiber : WasioHost.Op → Prop
  | .accept _ _ | .recv _ _ _ | .send _ _ _ | .close _ _ => True
  | _ => False

/-- **What a step can do.** -/
inductive Stepped (s : State) : Act → State → Prop
  /-- The fiber at the head of the front queue is resumed. -/
  | pop {status : FiberStatus} {clo : Closure} {nodes : List Closure} (frame : Frame) :
      s.pc = .ready status true → s.frontq.nodes = clo :: nodes → s.Live clo.fiber →
      Stepped s .pop
        { s with
          frontq := ⟨nodes, s.frontq.tail⟩
          pc := .running clo.fiber .queue status true frame }
  /-- The fiber at the head of the front queue is not live. -/
  | popDead {status : FiberStatus} {clo : Closure} {nodes : List Closure} :
      s.pc = .ready status true → s.frontq.nodes = clo :: nodes → ¬s.Live clo.fiber →
      Stepped s .pop { s with frontq := ⟨nodes, s.frontq.tail⟩, pc := .stray }
  /-- The front queue ends in a pointer that is not `NULL`. -/
  | popWild {status : FiberStatus} :
      s.pc = .ready status true → s.frontq.nodes = [] → s.frontq.tail ≠ 0 →
      Stepped s .pop { s with pc := .stray }
  /-- The fiber of the next descriptor with an event is resumed. -/
  | visit {i v f : ℕ} {status : FiberStatus} {keepGoing : Bool} {address : ℤ} (frame : Frame) :
      s.pc = .events i status keepGoing → nextEvent s.wfd i = some v → s.fibers v = some f →
      s.Live f →
      Stepped s (.visit address) { s with pc := .running f (.event v) status keepGoing frame }
  /-- The next descriptor with an event has no fiber, or one that is not live. -/
  | visitStray {i v : ℕ} {status : FiberStatus} {keepGoing : Bool} {address : ℤ} :
      s.pc = .events i status keepGoing → nextEvent s.wfd i = some v →
      (∀ f, s.fibers v = some f → ¬s.Live f) →
      Stepped s (.visit address) { s with pc := .stray }
  /-- The running fiber performs an operation on the table. -/
  | io {f : ℕ} {site : Site} {status : FiberStatus} {keepGoing : Bool} {frame : Frame}
      {op : WasioHost.Op} {r : WasioHost.Reply} {wfd : WasioPollfd} (frame' : Frame) :
      s.pc = .running f site status keepGoing frame → WasioHost.Tr s.wfd (op, r) wfd →
      OfFiber op →
      Stepped s (.io op)
        { s with wfd := wfd, pc := .running f site status keepGoing frame' }
  /-- The running fiber stops. -/
  | stop {f : ℕ} {site : Site} {status : FiberStatus} {keepGoing answer : Bool} {frame : Frame}
      {o : Outcome} {t : State} :
      s.pc = .running f site status keepGoing frame → frame.mayStop s.full o = true →
      Handled (recordStop s f o) f o.payload (statusAfter site status o) t answer →
      Stepped s (.stop o)
        { t with pc := pcAfter site (statusAfter site status o) keepGoing answer }
  /-- The host is polled. -/
  | poll {status : FiberStatus} {keepGoing : Bool} {revents : ℕ → BitVec 16}
      {host : HostAnswer} :
      s.pc = .ready status keepGoing → (queueIsEmpty s.frontq = true ∨ keepGoing = false) →
      Stepped s (.poll revents host)
        { s with
          frontq := s.rearq
          rearq := s.frontq
          wfd := { s.wfd with vfds := fun i => { s.wfd.vfds i with revents := revents i } }
          pc := if host.ret < 0 then .leaving else .events 0 status keepGoing }
  /-- The poll phase is over. -/
  | round {i : ℕ} {status status' : FiberStatus} {keepGoing : Bool} :
      s.pc = .events i status keepGoing → nextEvent s.wfd i = none →
      Stepped s (.round status')
        { s with pc := if keepGoing then .ready status' true else .leaving }
  /-- The scheduler cleans up. -/
  | exit {host : HostAnswer} {r : WasioHost.Reply} {wfd : WasioPollfd} :
      s.pc = .leaving → WasioHost.Tr s.wfd (.close s.servsock host, r) wfd →
      Stepped s (.exit host)
        { s with released := mainfiber :: s.released, wfd := wfd, pc := .done }

theorem stepped_pop {s t : State} (h : popStep s = some t) : Stepped s .pop t := by
  rw [popStep] at h
  split at h
  case h_2 => exact absurd h (by simp)
  case h_1 status hpc =>
    split_ifs at h with hempty
    rcases hnodes : s.frontq.nodes with _ | ⟨clo, nodes⟩ <;>
      simp only [queuePop, hnodes, Option.some.injEq] at h
    · obtain rfl := h
      refine .popWild hpc hnodes fun htail => hempty ?_
      rw [queueIsEmpty, hnodes, htail]
      rfl
    · rw [fiberResume] at h
      split_ifs at h with hlive <;> obtain rfl := h
      · exact .pop _ hpc hnodes hlive
      · exact .popDead hpc hnodes hlive

theorem stepped_visit {s t : State} {address : ℤ} (h : visitStep s address = some t) :
    Stepped s (.visit address) t := by
  rw [visitStep] at h
  split at h
  case h_2 => exact absurd h (by simp)
  case h_1 i status keepGoing hpc =>
    rcases hnext : nextEvent s.wfd i with _ | v <;> rw [hnext] at h
    · exact absurd h (by simp)
    · rcases hf : s.fibers v with _ | f <;> simp only [hf, Option.some.injEq] at h
      · obtain rfl := h
        exact .visitStray hpc hnext fun f hf' => absurd (hf.symm.trans hf') (by simp)
      · rw [fiberResume] at h
        split_ifs at h with hlive <;> obtain rfl := h
        · exact .visit _ hpc hnext hf hlive
        · refine .visitStray hpc hnext fun f' hf' => ?_
          obtain rfl := Option.some.inj (hf.symm.trans hf')
          exact hlive

/-- The operations of a running fiber leave the event masks alone. -/
theorem not_masks_of_ofFiber {op : WasioHost.Op} (h : OfFiber op) : ¬op.Masks := by
  cases op with
  | accept | recv | send | close => exact id
  | _ => exact h.elim

theorem ofFiber_of_ioFrame {full : Bool} {op : WasioHost.Op} {r : WasioHost.Reply}
    {frame frame' : Frame} (h : ioFrame full op r frame = some frame') : OfFiber op := by
  cases op with
  | accept | recv | send | close => exact trivial
  | _ =>
    cases frame with
    | user | again => exact absurd h (by simp [ioFrame])
    | resumed call => cases call <;> exact absurd h (by simp [ioFrame])

theorem stepped_io {s t : State} {op : WasioHost.Op} (h : ioStep s op = some t) :
    Stepped s (.io op) t := by
  rw [ioStep] at h
  split at h
  case h_2 => exact absurd h (by simp)
  case h_1 f site status keepGoing frame hpc =>
    split_ifs at h with hadm
    rcases hper : WasioHost.perform s.wfd op with _ | ⟨r, wfd⟩ <;> rw [hper] at h
    · exact absurd h (by simp)
    · rcases hframe : ioFrame s.full op r frame with _ | frame' <;>
        simp only [hframe, reduceCtorEq, Option.some.injEq] at h
      obtain rfl := h
      exact .io frame' hpc ⟨hadm, hper⟩ (ofFiber_of_ioFrame hframe)

theorem stepped_stop {s t : State} {o : Outcome} (h : stopStep s o = some t) :
    Stepped s (.stop o) t := by
  rw [stopStep] at h
  split at h
  case h_2 => exact absurd h (by simp)
  case h_1 f site status keepGoing frame hpc =>
    split_ifs at h with hmay
    rcases hreq : handleRequest (recordStop s f o) f (statusAfter site status o) o.payload with
      _ | ⟨t', answer⟩ <;> rw [hreq] at h
    · exact absurd h (by simp)
    · obtain rfl := Option.some.inj h
      exact .stop hpc hmay (handled_of_handleRequest hreq)

theorem stepped_poll {s t : State} {revents : ℕ → BitVec 16} {host : HostAnswer}
    (h : pollStep s revents host = some t) : Stepped s (.poll revents host) t := by
  rw [pollStep] at h
  split at h
  case h_2 => exact absurd h (by simp)
  case h_1 status keepGoing hpc =>
    split_ifs at h with hend
    have hend' : queueIsEmpty s.frontq = true ∨ keepGoing = false := by simpa using hend
    have hpoll : Stepped s (.poll revents host) _ := .poll hpc hend'
    by_cases hneg : host.ret < 0
    · simp only [wasioPoll, if_pos hneg, translateError_ne_ok, if_false] at h
      rw [if_pos hneg] at hpoll
      exact Option.some.inj h ▸ hpoll
    · simp only [wasioPoll, if_neg hneg, if_true] at h
      rw [if_neg hneg] at hpoll
      exact Option.some.inj h ▸ hpoll

theorem stepped_round {s t : State} {status : FiberStatus} (h : roundStep s status = some t) :
    Stepped s (.round status) t := by
  rw [roundStep] at h
  split at h
  case h_2 => exact absurd h (by simp)
  case h_1 i status' keepGoing hpc =>
    rcases hnext : nextEvent s.wfd i with _ | v <;> rw [hnext] at h
    · obtain rfl := Option.some.inj h
      exact .round hpc hnext
    · exact absurd h (by simp)

theorem stepped_exit {s t : State} {host : HostAnswer} (h : exitStep s host = some t) :
    Stepped s (.exit host) t := by
  rw [exitStep] at h
  split at h
  case h_2 => exact absurd h (by simp)
  case h_1 hpc =>
    split_ifs at h with hadm
    rcases hclose : wasioClose s.wfd s.servsock host with _ | ⟨r, wfd⟩ <;> rw [hclose] at h
    · exact absurd h (by simp)
    · obtain rfl := Option.some.inj h
      exact .exit hpc ⟨hadm, hclose⟩

/-- **The steps, inverted.** -/
theorem Tr.stepped {s t : State} {a : Act} (h : Tr s a t) : Stepped s a t := by
  cases a with
  | pop => exact stepped_pop h
  | visit => exact stepped_visit h
  | io => exact stepped_io h
  | stop => exact stepped_stop h
  | poll => exact stepped_poll h
  | round => exact stepped_round h
  | exit => exact stepped_exit h

end Scheduler

end Waeio
