import Waeio.Scheduler.Memory

/-!
# The ready queues hold what was pushed and not popped

Where both queue heads are null at the start, the two queues are chains of nodes
that end in null and share no node (`Waeio.Scheduler.Held`), through every push, pop
and swap; and the scheduler with its queues in memory takes the steps of the one with
its queues as lists (`Waeio.Scheduler.memStep_refines`).

`malloc` does not clear the memory it returns, and `waeio_main` does not set the
heads. If a head is not null, already the first state is not as it should be.
-/

namespace Waeio

namespace Scheduler

open LinkedList (Node Heap Chain addrs vals)

/-! ### The queues as lists -/

/-- **The two queues are the chains `lf` and `lr`**, without shared nodes. -/
structure Held (m : Memory) (lf lr : List (ℕ × Closure)) : Prop where
  front : Chain m.nodes (m.heads m.frontq) lf
  rear : Chain m.nodes (m.heads m.rearq) lr
  distinct : m.frontq ≠ m.rearq
  disjoint : ∀ a ∈ addrs lf, a ∉ addrs lr

variable {m m' : Memory} {lf lr : List (ℕ × Closure)} {s t : MemState} {clo : Closure}

theorem Held.nodup (h : Held m lf lr) : (addrs lf ++ addrs lr).Nodup :=
  List.nodup_append'.mpr ⟨h.front.nodup_addrs, h.rear.nodup_addrs, h.disjoint⟩

theorem Held.front_isEmpty_iff (h : Held m lf lr) : m.queueIsEmpty m.frontq = true ↔ lf = [] := by
  rw [Memory.queueIsEmpty, beq_iff_eq, h.front.eq_zero_iff]

theorem Held.rear_isEmpty_iff (h : Held m lf lr) : m.queueIsEmpty m.rearq = true ↔ lr = [] := by
  rw [Memory.queueIsEmpty, beq_iff_eq, h.rear.eq_zero_iff]

theorem Held.swap (h : Held m lf lr) : Held m.queueSwap lr lf :=
  ⟨h.rear, h.front, h.distinct.symm, fun a ha hf => h.disjoint a hf ha⟩

/-- A push puts a node in front of the rear queue. -/
theorem Held.push (h : Held m lf lr) {node : ℕ} (hnode : m.Fresh node) (clo : Closure) :
    Held (m.queuePush m.rearq clo node) lf ((node, clo) :: lr) := by
  obtain ⟨hne, hfree⟩ := hnode
  have hnot := h.front.not_mem_of_fresh hfree
  refine ⟨?_, ?_, h.distinct, fun a ha hr => ?_⟩
  · show Chain _ (Function.update m.heads m.rearq node m.frontq) lf
    rw [Function.update_of_ne h.distinct]
    exact h.front.frame hnot _
  · show Chain _ (Function.update m.heads m.rearq node m.rearq) _
    rw [Function.update_self]
    exact h.rear.alloc hfree hne clo
  · rcases List.mem_cons.mp hr with rfl | hr
    · exact hnot ha
    · exact h.disjoint a ha hr

theorem Memory.queuePop_eq (m : Memory) {q next : ℕ} (h : m.nodes (m.heads q) = some ⟨next, clo⟩) :
    m.queuePop q = some (clo,
      { m with
        nodes := Function.update m.nodes (m.heads q) none
        heads := Function.update m.heads q next }) := by
  rw [Memory.queuePop, h]

/-- A pop takes the first node out of the front queue. -/
theorem Held.pop {x : ℕ × Closure} (h : Held m (x :: lf) lr) :
    ∃ m', m.queuePop m.frontq = some (x.2, m') ∧ Held m' lf lr := by
  obtain ⟨next, hnode, hrest⟩ := h.front.free
  have hx : m.heads m.frontq = x.1 := h.front.1
  refine ⟨_, m.queuePop_eq hnode, ?_, ?_, h.distinct, fun a ha =>
    h.disjoint a (List.mem_cons_of_mem _ ha)⟩
  · show Chain _ (Function.update m.heads m.frontq next m.frontq) lf
    rwa [Function.update_self]
  · show Chain _ (Function.update m.heads m.frontq next m.rearq) lr
    rw [Function.update_of_ne h.distinct.symm]
    exact h.rear.frame (hx ▸ h.disjoint _ List.mem_cons_self) none

/-- What `handle_request` pushes is put in front of the rear queue. -/
theorem Held.pushAll (h : Held m lf lr) {clos : List Closure} {nodes : List ℕ}
    (hpush : m.pushAll clos nodes = some m') :
    ∃ lr', Held m' lf lr' ∧ vals lr' = clos.reverse ++ vals lr := by
  induction clos generalizing m lr nodes with
  | nil =>
    obtain rfl := Option.some.inj hpush
    exact ⟨lr, h, rfl⟩
  | cons clo clos ih =>
    cases nodes with
    | nil => exact absurd hpush (by simp [Memory.pushAll])
    | cons node nodes =>
      rw [Memory.pushAll] at hpush
      split_ifs at hpush with hfresh
      obtain ⟨lr', hheld, hvals⟩ := ih (h.push hfresh clo) hpush
      exact ⟨lr', hheld, by simp [hvals]⟩

/-! ### The scheduler with its queues as lists -/

/-- The state with its queues replaced. -/
def State.withQueues (s : State) (front rear : List Closure) : State :=
  { s with frontq := ⟨front, 0⟩, rearq := ⟨rear, 0⟩ }

/-- **The state the lists stand for.** -/
def MemState.view (s : MemState) (lf lr : List (ℕ × Closure)) : State :=
  s.rest.withQueues (vals lf) (vals lr)

theorem Held.queueIsEmpty_view (h : Held s.mem lf lr) :
    queueIsEmpty (s.view lf lr).frontq = s.mem.queueIsEmpty s.mem.frontq := by
  rw [Bool.eq_iff_iff, h.front_isEmpty_iff]
  simp [queueIsEmpty, MemState.view, State.withQueues, vals]

/-- What `handle_request` does, but for the queues, does not depend on them; and it
pushes what `requested` says. -/
theorem handleRequest_withQueues (s : State) (front rear : List Closure) (f : ℕ)
    (status : FiberStatus) (payload : Cmd) :
    handleRequest (s.withQueues front rear) f status payload =
      (handleRequest s f status payload).map fun (t, answer) =>
        (t.withQueues front ((requested status payload f s.allocated).reverse ++ rear), answer) := by
  cases status with
  | ok | error | other => rfl
  | yield =>
    rcases htag : payload.tag with _ | tag
    · simp [handleRequest, requested, htag]
    · cases tag with
      | suspend | quit =>
        simp [handleRequest, requested, htag, State.withQueues, pushRear, queuePush]
      | async =>
        by_cases hlt : payload.arg.toNat < MAX_CONNECTIONS <;>
          simp [handleRequest, requested, htag, hlt, State.withQueues, spawn, pushRear, queuePush]
      | accept | recv | send =>
        by_cases hlt : payload.arg.toNat < s.wfd.capacity <;>
          simp [handleRequest, requested, htag, hlt, State.withQueues]

/-- A fiber that stops is taken note of beside the queues. -/
theorem recordStop_withQueues (s : State) (front rear : List Closure) (f : ℕ) (o : Outcome) :
    recordStop (s.withQueues front rear) f o = (recordStop s f o).withQueues front rear := by
  cases o <;> rfl

theorem stopStep_withQueues {s t : State} {front rear : List Closure} {f : ℕ} {site : Site}
    {status : FiberStatus} {keepGoing : Bool} {frame : Frame} {o : Outcome}
    (hpc : s.pc = .running f site status keepGoing frame) (h : stopStep s o = some t) :
    stopStep (s.withQueues front rear) o = some (t.withQueues front
      ((requested (statusAfter site status o) o.payload f s.allocated).reverse ++ rear)) := by
  have hpc' : (s.withQueues front rear).pc = .running f site status keepGoing frame := hpc
  simp only [stopStep, hpc] at h
  simp only [stopStep, hpc']
  have hfull : (s.withQueues front rear).full = s.full := rfl
  rw [hfull]
  split_ifs at h ⊢ with hmay
  rw [recordStop_withQueues, handleRequest_withQueues, recordStop_allocated]
  rcases hreq : handleRequest (recordStop s f o) f (statusAfter site status o) o.payload with
    _ | ⟨u, answer⟩
  · rw [hreq] at h
    exact absurd h (by simp)
  · rw [hreq] at h
    obtain rfl := Option.some.inj h
    rfl

theorem fiberResume_withQueues (s : State) (front rear : List Closure) (f : ℕ) (arg : ℤ)
    (site : Site) (status : FiberStatus) (keepGoing : Bool) :
    fiberResume (s.withQueues front rear) f arg site status keepGoing =
      (fiberResume s f arg site status keepGoing).withQueues front rear := by
  by_cases hlive : s.Live f
  · rw [fiberResume, fiberResume, if_pos hlive,
      if_pos (show (s.withQueues front rear).Live f from hlive)]
    rfl
  · rw [fiberResume, fiberResume, if_neg hlive,
      if_neg (show ¬(s.withQueues front rear).Live f from hlive)]
    rfl

/-- The steps that call no queue function do not depend on the queues. -/
theorem step_withQueues {s t : State} {a : Act} (hpop : a ≠ .pop) (hstop : ∀ o, a ≠ .stop o)
    (hpoll : ∀ revents host, a ≠ .poll revents host) (h : step s a = some t)
    (front rear : List Closure) :
    step (s.withQueues front rear) a = some (t.withQueues front rear) := by
  obtain ⟨q, hq⟩ : ∃ q, q = s.withQueues front rear := ⟨_, rfl⟩
  -- all that these steps look at
  have hpc : q.pc = s.pc := by rw [hq]; rfl
  have hwfd : q.wfd = s.wfd := by rw [hq]; rfl
  have hfibers : q.fibers = s.fibers := by rw [hq]; rfl
  have hsock : q.servsock = s.servsock := by rw [hq]; rfl
  have hfull : q.full = s.full := by rw [hq]; rfl
  rw [← hq]
  cases a with
  | pop => exact absurd rfl hpop
  | stop o => exact absurd rfl (hstop o)
  | poll revents host => exact absurd rfl (hpoll revents host)
  | visit address =>
    simp only [step, visitStep, hpc, hwfd, hfibers] at h ⊢
    split at h
    · split at h
      · split at h <;> obtain rfl := Option.some.inj h
        · rw [hq, fiberResume_withQueues]
        · rw [hq]; rfl
      · exact absurd h (by simp)
    · exact absurd h (by simp)
  | io op =>
    simp only [step, ioStep, hpc, hwfd, hfull] at h ⊢
    split at h
    · split_ifs at h ⊢
      split at h
      · split at h
        · obtain rfl := Option.some.inj h
          rw [hq]
          rfl
        · exact absurd h (by simp)
      · exact absurd h (by simp)
    · exact absurd h (by simp)
  | round status =>
    simp only [step, roundStep, hpc, hwfd] at h ⊢
    split at h
    · split at h
      · exact absurd h (by simp)
      · obtain rfl := Option.some.inj h
        rw [hq]
        rfl
    · exact absurd h (by simp)
  | exit host =>
    simp only [step, exitStep, hpc, hwfd, hsock] at h ⊢
    split at h
    · split_ifs at h ⊢
      split at h
      · obtain rfl := Option.some.inj h
        rw [hq]
        rfl
      · exact absurd h (by simp)
    · exact absurd h (by simp)

/-! ### What a step does to the queues -/

/-- What the queues hold, as a history has it. -/
def Pending.of (lf lr : List (ℕ × Closure)) : Pending := ⟨vals lf, vals lr⟩

/-- The pushes of `handle_request`, as a history has them. -/
theorem foldl_push (clos : List Closure) (front : Multiset Closure) (l : List Closure) :
    (clos.map QueueEvent.push).foldl Pending.after ⟨front, l⟩ = ⟨front, ↑(clos.reverse ++ l)⟩ := by
  induction clos generalizing l with
  | nil => rfl
  | cons clo clos ih =>
    rw [List.map_cons, List.foldl_cons, Pending.after, Multiset.cons_coe, ih]
    simp

/-- **What a step does to the queues**: they stay chains, they hold what the queue
functions were given and have not returned, and what a pop returns they held. -/
structure Kept (s : MemState) (lf lr : List (ℕ × Closure)) (a : Act) (ev : List QueueEvent)
    (t : MemState) (lf' lr' : List (ℕ × Closure)) : Prop where
  held : Held t.mem lf' lr'
  step : Scheduler.step (s.view lf lr) a = some (t.view lf' lr')
  pending : ev.foldl Pending.after (.of lf lr) = .of lf' lr'
  popped : ∀ clo, QueueEvent.pop clo ∈ ev → clo ∈ vals lf

/-- A pop of the scheduler takes the first closure out of the front queue. -/
theorem memPopStep_of_held (h : Held s.mem lf lr) {ev : List QueueEvent}
    (hstep : memPopStep s = some (ev, t)) :
    ∃ x lf', lf = x :: lf' ∧ ev = [.pop x.2] ∧ Held t.mem lf' lr ∧
      Scheduler.step (s.view lf lr) .pop = some (t.view lf' lr) := by
  rw [memPopStep] at hstep
  split at hstep
  · next status hpc =>
    split_ifs at hstep with hempty
    cases lf with
    | nil => exact absurd (h.front_isEmpty_iff.mpr rfl) hempty
    | cons x lf =>
      obtain ⟨m', hpop, hheld⟩ := h.pop
      rw [hpop] at hstep
      obtain ⟨rfl, rfl⟩ := Prod.mk.inj (Option.some.inj hstep)
      refine ⟨x, lf, rfl, rfl, hheld, ?_⟩
      have hview : (s.view (x :: lf) lr).pc = .ready status true := hpc
      simp only [Scheduler.step, popStep, hview]
      exact congrArg some (fiberResume_withQueues s.rest _ _ _ _ _ _ _)
  · exact absurd hstep (by simp)

theorem kept_of_pop (h : Held s.mem lf lr) {ev : List QueueEvent}
    (hstep : memPopStep s = some (ev, t)) : ∃ lf' lr', Kept s lf lr .pop ev t lf' lr' := by
  obtain ⟨x, lf, rfl, rfl, hheld, hview⟩ := memPopStep_of_held h hstep
  exact ⟨lf, lr, hheld, hview, by simp [Pending.of, Pending.after], by simp⟩

theorem kept_of_stop (h : Held s.mem lf lr) {o : Outcome} {nodes : List ℕ} {ev : List QueueEvent}
    (hstep : memStopStep s o nodes = some (ev, t)) :
    ∃ lf' lr', Kept s lf lr (.stop o) ev t lf' lr' := by
  rw [memStopStep] at hstep
  split at hstep
  · next f site status keepGoing frame hpc =>
    obtain ⟨rest, hstop, hrest⟩ := Option.bind_eq_some_iff.mp hstep
    obtain ⟨m', hpush, hpair⟩ := Option.map_eq_some_iff.mp hrest
    obtain ⟨rfl, rfl⟩ := Prod.mk.inj hpair
    obtain ⟨lr', hheld, hvals⟩ := h.pushAll hpush
    refine ⟨lf, lr', hheld, ?_, ?_, by simp⟩
    · rw [MemState.view, MemState.view, hvals]
      exact stopStep_withQueues hpc hstop
    · rw [Pending.of, foldl_push, Pending.of, hvals]
  · exact absurd hstep (by simp)

theorem kept_of_poll (h : Held s.mem lf lr) {revents : ℕ → BitVec 16} {host : HostAnswer}
    {ev : List QueueEvent} (hstep : memPollStep s revents host = some (ev, t)) :
    ∃ lf' lr', Kept s lf lr (.poll revents host) ev t lf' lr' := by
  rw [memPollStep] at hstep
  split at hstep
  · next status keepGoing hpc =>
    split_ifs at hstep with hend
    obtain ⟨rfl, rfl⟩ := Prod.mk.inj (Option.some.inj hstep)
    refine ⟨lr, lf, h.swap, ?_, rfl, by simp⟩
    have hview : (s.view lf lr).pc = .ready status keepGoing := hpc
    simp only [Scheduler.step, pollStep, hview]
    rw [h.queueIsEmpty_view, if_pos hend]
    rfl
  · exact absurd hstep (by simp)

/-- **The scheduler with its queues in memory takes the steps of the one with its
queues as lists.** -/
theorem memStep_refines (h : Held s.mem lf lr) {a : Act} {nodes : List ℕ} {ev : List QueueEvent}
    (hstep : memStep s nodes a = some (ev, t)) : ∃ lf' lr', Kept s lf lr a ev t lf' lr' := by
  cases a with
  | pop => exact kept_of_pop h hstep
  | stop o => exact kept_of_stop h hstep
  | poll revents host => exact kept_of_poll h hstep
  | visit | io | round | exit =>
    obtain ⟨rest, hrest, hpair⟩ := Option.map_eq_some_iff.mp hstep
    obtain ⟨rfl, rfl⟩ := Prod.mk.inj hpair
    exact ⟨lf, lr, h, step_withQueues (by simp) (by simp) (by simp) hrest _ _, rfl, by simp⟩

/-! ### Whole runs -/

/-- **The queues are as they should be**: chains without shared nodes that hold what
was pushed and not popped; a queue is found empty when nothing is left in it, and a
pop returns what was pushed. -/
structure QueuesRight (p : Pending × MemState) : Prop where
  lists : ∃ lf lr, Held p.2.mem lf lr ∧ (addrs lf ++ addrs lr).Nodup ∧ Pending.of lf lr = p.1
  front_isEmpty : p.2.mem.queueIsEmpty p.2.mem.frontq = true ↔ p.1.front = 0
  rear_isEmpty : p.2.mem.queueIsEmpty p.2.mem.rearq = true ↔ p.1.rear = 0
  popped : ∀ a q clo, PendingTr p a q → .pop clo ∈ a.2 → clo ∈ p.1.front

theorem queuesRight_of_held (h : Held s.mem lf lr) : QueuesRight (.of lf lr, s) := by
  refine ⟨⟨lf, lr, h, h.nodup, rfl⟩, ?_, ?_, ?_⟩
  · rw [h.front_isEmpty_iff, Pending.of, Multiset.coe_eq_zero, vals, List.map_eq_nil_iff]
  · rw [h.rear_isEmpty_iff, Pending.of, Multiset.coe_eq_zero, vals, List.map_eq_nil_iff]
  · rintro a q clo ⟨⟨nodes, hstep⟩, -⟩ hpop
    obtain ⟨lf', lr', hkept⟩ := memStep_refines h hstep
    exact hkept.popped clo hpop

/-- **Refinement**: a run of the scheduler with its queues in memory is a run of the
scheduler with its queues as lists. -/
theorem steps_view (h : Held s.mem lf lr) {l : List (Act × List QueueEvent)}
    (hl : Lts.Steps MemTr s l t) :
    ∃ lf' lr', Held t.mem lf' lr' ∧
      Lts.Steps Tr (s.view lf lr) (l.map Prod.fst) (t.view lf' lr') := by
  induction hl generalizing lf lr with
  | nil s => exact ⟨lf, lr, h, .nil _⟩
  | cons hs _ ih =>
    obtain ⟨nodes, hstep⟩ := hs
    obtain ⟨lf', lr', hkept⟩ := memStep_refines h hstep
    obtain ⟨lf'', lr'', hheld, hrest⟩ := ih hkept.held
    exact ⟨lf'', lr'', hheld, .cons hkept.step hrest⟩

theorem of_memMain {e : MemStart} {x : MemState} (h : memMain e = some x) :
    waeioMain e.start = some x.rest ∧
      x.mem = e.heads.queuePush e.frontq ⟨mainfiber, e.start.address⟩ e.node := by
  obtain ⟨s, hs, rfl⟩ := Option.map_eq_some_iff.mp h
  exact ⟨hs, rfl⟩

/-- Where both heads are null, the queues are chains at the start. -/
theorem held_memMain {e : MemStart} {x : MemState} (h : memMain e = some x)
    (hf : e.start.frontHead = 0) (hr : e.start.rearHead = 0) :
    Held x.mem [(e.node, ⟨mainfiber, e.start.address⟩)] [] := by
  obtain ⟨-, hmem⟩ := of_memMain h
  have hne := e.frontq_ne_rearq
  rw [hmem]
  refine ⟨⟨?_, ?_, 0, ?_, rfl⟩, ?_, hne, by simp⟩
  · simp [Memory.queuePush, MemStart.heads]
  · simpa [Memory.queuePush, MemStart.heads] using e.node_ne_zero
  · simp [Memory.queuePush, MemStart.heads, hne, hf]
  · simp [Memory.queuePush, MemStart.heads, hne.symm, hr, Chain]

/-- The queues of `waeio_main` as lists are those in memory. -/
theorem waeioMain_view {e : MemStart} {x : MemState} (h : memMain e = some x)
    (hf : e.start.frontHead = 0) (hr : e.start.rearHead = 0) :
    waeioMain e.start = some (x.view [(e.node, ⟨mainfiber, e.start.address⟩)] []) := by
  obtain ⟨hmain, -⟩ := of_memMain h
  rw [hmain, MemState.view]
  rw [waeioMain] at hmain
  split at hmain
  · split at hmain
    · obtain hrest := Option.some.inj hmain
      rw [← hrest, hf, hr]
      rfl
    · exact absurd hmain (by simp)
  · exact absurd hmain (by simp)

/-- **The scheduler with its queues in memory refines the one with its queues as
lists**, from the start of the loop on. -/
theorem run_view {e : MemStart} {x : MemState} (h : memMain e = some x)
    (hf : e.start.frontHead = 0) (hr : e.start.rearHead = 0)
    {l : List (Act × List QueueEvent)} (hl : Lts.Steps MemTr x l t) :
    ∃ lf lr, Held t.mem lf lr ∧ Run e.start (l.map Prod.fst) (t.view lf lr) := by
  obtain ⟨lf, lr, hheld, hsteps⟩ := steps_view (held_memMain h hf hr) hl
  exact ⟨lf, lr, hheld, _, waeioMain_view h hf hr, hsteps⟩

/-- A head that is not null is found at the start. -/
theorem heads_null_of_queuesRight {e : MemStart} {x : MemState} (h : memMain e = some x)
    (hright : QueuesRight (.start e, x)) : e.start.frontHead = 0 ∧ e.start.rearHead = 0 := by
  obtain ⟨-, hmem⟩ := of_memMain h
  have hne := e.frontq_ne_rearq
  obtain ⟨⟨lf, lr, hheld, -, hpending⟩, -, hrear, -⟩ := hright
  dsimp only at hheld hrear
  constructor
  · -- the chain of the front queue has one node, and the head stands behind it
    have hvals : (vals lf : Multiset Closure) = {⟨mainfiber, e.start.address⟩} :=
      congrArg Pending.front hpending
    have hlen := congrArg Multiset.card hvals
    rw [Multiset.coe_card, vals, List.length_map, Multiset.card_singleton] at hlen
    obtain ⟨x, rfl⟩ := List.length_eq_one_iff.mp hlen
    obtain ⟨-, -, next, hnode, hnext⟩ := hheld.front
    rw [hmem] at hnode
    simp [Memory.queuePush, MemStart.heads, hne] at hnode
    rw [hnode.1]
    exact hnext
  · have hempty := hrear.mpr rfl
    rw [hmem] at hempty
    simpa [Memory.queuePush, Memory.queueIsEmpty, MemStart.heads, hne.symm] using hempty

end Scheduler

open Scheduler

/-- **Exactly if both queue heads are null at the start are the ready queues as they
should be** in every state of every run. -/
theorem waeio_queuesRight_iff (e : MemStart) (x : MemState) (h : memMain e = some x) :
    (∀ l p, Lts.Steps PendingTr (.start e, x) l p → QueuesRight p) ↔
      e.start.frontHead = 0 ∧ e.start.rearHead = 0 := by
  constructor
  · exact fun hright => heads_null_of_queuesRight h (hright [] _ (.nil _))
  · rintro ⟨hf, hr⟩ l p hl
    obtain ⟨lf, lr, hheld, hp⟩ : ∃ lf lr, Held p.2.mem lf lr ∧ p.1 = .of lf lr := by
      refine hl.invariant (P := fun p => ∃ lf lr, Held p.2.mem lf lr ∧ p.1 = .of lf lr) ?_
        ⟨_, _, held_memMain h hf hr, rfl⟩
      rintro ⟨-, s⟩ a ⟨hist, t⟩ ⟨lf, lr, hheld, rfl⟩ ⟨⟨nodes, hstep⟩, hhist⟩
      obtain ⟨lf', lr', hkept⟩ := memStep_refines hheld hstep
      exact ⟨lf', lr', hkept.held, hhist.trans hkept.pending⟩
    obtain ⟨hist, s⟩ := p
    obtain rfl := hp
    exact queuesRight_of_held hheld

/-- The queues of a server that waits for its first connection, where `malloc` cleared
the heads. -/
theorem waeio_queuesRight_iff_clean :
    ∃ e x, memMain e = some x ∧ e.start.frontHead = 0 ∧ e.start.rearHead = 0 ∧
      QueuesRight (.start e, x) := by
  obtain ⟨x, hx⟩ : ∃ x, x ∈ memMain ⟨.clean, 16, 32, 48, by decide, by decide⟩ :=
    ⟨_, by rfl⟩
  exact ⟨_, x, hx, rfl, rfl, (waeio_queuesRight_iff _ x hx).mpr ⟨rfl, rfl⟩ [] _ (.nil _)⟩

/-- **A closure nobody pushed**: where `malloc` left a word behind in the head of the
rear queue, that queue is not empty at the start, and nothing was pushed to it. -/
theorem not_queuesRight_rearHead :
    ∃ e x, memMain e = some x ∧ e.start.rearHead = 64 ∧
      x.mem.queueIsEmpty x.mem.rearq = false ∧ (Pending.start e).rear = 0 ∧
      ¬QueuesRight (.start e, x) := by
  obtain ⟨x, hx, hempty⟩ : ∃ x ∈ memMain
      ⟨{ Start.clean with rearHead := 64 }, 16, 32, 48, by decide, by decide⟩,
      x.mem.queueIsEmpty x.mem.rearq = false :=
    ⟨_, by rfl, by decide⟩
  refine ⟨_, x, hx, rfl, hempty, rfl, fun hright => ?_⟩
  exact absurd (heads_null_of_queuesRight hx hright).2 (by decide)

end Waeio
