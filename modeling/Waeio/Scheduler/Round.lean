import Waeio.Scheduler.Cases
import Waeio.Scheduler.Queues

/-!
# The ready phase of a round

The first loop of `run_next`: as long as the front queue is not empty, take a closure
out of it, resume its fiber and let `handle_request` process what it came back with.
Here the fibers may do anything while they run, whatever the fiber library knows of
them: a `Waeio.Scheduler.Resumption` is what one resumption brings about, and one pass
through the loop is `Waeio.Scheduler.Loop.body`.

The loop ends because `handle_request` pushes to the rear queue only, so that each pass
makes the front queue shorter by one node (`Waeio.Scheduler.Loop.Drains.step`).
-/

namespace Waeio

namespace Scheduler

open LinkedList (addrs vals)

/-! ### The loop -/

/-- **What a resumption brings about**, by the time the fiber is back: the scheduler
beside its queues, what `fiber_resume` reports, and the addresses `malloc` returns to
`queue_push`. -/
structure Resumption where
  /-- All but the queues, as the fiber leaves it. -/
  rest : State
  /-- What `fiber_resume` stores through its last argument. -/
  status : FiberStatus
  /-- What `fiber_resume` returns. -/
  payload : Cmd
  /-- The addresses of the new nodes. -/
  nodes : List ℕ

/-- The state of the loop, with the variables `status` and `keep_going` of
`run_next`. -/
structure Loop where
  /-- The queues. -/
  mem : Memory
  /-- All but the queues. -/
  rest : State
  /-- `status` -/
  status : FiberStatus
  /-- `keep_going` -/
  keepGoing : Bool

namespace Loop

/-- `!queue_is_empty(ctl.frontq) && keep_going` -/
def test (s : Loop) : Bool := !s.mem.queueIsEmpty s.mem.frontq && s.keepGoing

/-- **The body of the loop**: the closure whose fiber is resumed with its argument, and
the state afterwards. -/
def body (s : Loop) (r : Resumption) : Option (Closure × Loop) :=
  (s.mem.queuePop s.mem.frontq).bind fun (clo, mem) =>
    (handleRequest r.rest clo.fiber r.status r.payload).bind fun (rest, keepGoing) =>
      (mem.pushAll (requested r.status r.payload clo.fiber r.rest.allocated) r.nodes).map
        fun mem => (clo, ⟨mem, rest, r.status, keepGoing⟩)

/-- **One pass through the loop**, labelled by the closure and the resumption. -/
def Tr (s : Loop) (a : Closure × Resumption) (t : Loop) : Prop :=
  s.test = true ∧ s.body a.2 = some (a.1, t)

/-- What a pass pushes. -/
def pushed (a : Closure × Resumption) : List Closure :=
  requested a.2.status a.2.payload a.1.fiber a.2.rest.allocated

end Loop

/-! ### What the fibers may do -/

/-- **The fiber proceeds**: it returns, or yields a command other than `QUIT`. -/
def Resumption.Proceeds (r : Resumption) : Prop :=
  r.status = .ok ∨ r.status = .yield ∧ r.payload.tag ≠ some .quit

/-- The descriptor in the command is an index of the array it is used for. -/
def Resumption.InBounds (r : Resumption) : Prop :=
  r.status = .yield →
    (r.payload.tag = some .async → r.payload.arg.toNat < MAX_CONNECTIONS) ∧
      (r.payload.tag = some .accept ∨ r.payload.tag = some .recv ∨ r.payload.tag = some .send →
        r.payload.arg.toNat < r.rest.wfd.capacity)

/-- `malloc` serves the pushes of the pass. -/
def Resumption.Served (r : Resumption) (s : Loop) : Prop :=
  ∀ clo mem, s.mem.queuePop s.mem.frontq = some (clo, mem) →
    (mem.pushAll (requested r.status r.payload clo.fiber r.rest.allocated) r.nodes).isSome

/-- The scheduler keeps going when a fiber proceeds. -/
theorem handleRequest_keepGoing {s t : State} {f : ℕ} {r : Resumption} {keepGoing : Bool}
    (hr : r.Proceeds) (h : handleRequest s f r.status r.payload = some (t, keepGoing)) :
    keepGoing = true := by
  have hh := handled_of_handleRequest h
  generalize hstatus : r.status = status at hh
  cases hh with
  | quit htag =>
    rcases hr with hok | ⟨-, hquit⟩
    · exact absurd (hok.symm.trans hstatus) (by simp)
    · exact absurd htag hquit
  | _ => rfl

/-- `handle_request` processes what a fiber that proceeds asks for. -/
theorem exists_handleRequest {r : Resumption} (hr : r.Proceeds) (hin : r.InBounds) (f : ℕ) :
    ∃ rest keepGoing, handleRequest r.rest f r.status r.payload = some (rest, keepGoing) := by
  rcases hr with hstatus | ⟨hstatus, htag⟩
  · rw [hstatus]
    exact ⟨_, _, rfl⟩
  · obtain ⟨hasync, hio⟩ := hin hstatus
    rw [hstatus, handleRequest]
    rcases hp : r.payload.tag with _ | tag
    · exact ⟨_, _, rfl⟩
    · cases tag with
      | accept => exact ⟨_, _, if_pos (hio (Or.inl hp))⟩
      | async => exact ⟨_, _, if_pos (hasync hp)⟩
      | suspend => exact ⟨_, _, rfl⟩
      | recv => exact ⟨_, _, if_pos (hio (Or.inr (Or.inl hp)))⟩
      | send => exact ⟨_, _, if_pos (hio (Or.inr (Or.inr hp)))⟩
      | quit => exact absurd hp htag

namespace Loop

variable {s t : Loop} {a : Closure × Resumption} {l : List (Closure × Resumption)}

/-! ### What a pass does to the queues -/

/-- **The loop on its way**: the front queue has the closures `front` left, the rear
queue holds `rear`, and the loop keeps going. -/
structure Drains (s : Loop) (front rear : List Closure) : Prop where
  held : ∃ lf lr, Held s.mem lf lr ∧ vals lf = front ∧ vals lr = rear
  keepGoing : s.keepGoing = true

variable {front rear : List Closure}

theorem Drains.test_iff (h : Drains s front rear) : s.test = true ↔ front ≠ [] := by
  obtain ⟨⟨lf, lr, hheld, rfl, -⟩, hk⟩ := h
  rw [test, hk, Bool.and_true, Bool.not_eq_true', ← Bool.not_eq_true, hheld.front_isEmpty_iff]
  simp [vals]

/-- **A pass takes the first closure out of the front queue**, and pushes to the rear
queue only. -/
theorem Drains.step (h : Drains s front rear) (htr : Tr s a t) (ha : a.2.Proceeds) :
    ∃ front', front = a.1 :: front' ∧ Drains t front' ((pushed a).reverse ++ rear) := by
  obtain ⟨clo, r⟩ := a
  obtain ⟨htest, hbody⟩ := htr
  have hne := h.test_iff.mp htest
  obtain ⟨⟨lf, lr, hheld, rfl, rfl⟩, hk⟩ := h
  cases lf with
  | nil => exact absurd rfl hne
  | cons x lf =>
    obtain ⟨m, hpop, hheld'⟩ := hheld.pop
    obtain ⟨⟨clo', mem⟩, hpop', hbody⟩ := Option.bind_eq_some_iff.mp hbody
    obtain ⟨rfl, rfl⟩ := Prod.mk.inj (Option.some.inj (hpop.symm.trans hpop'))
    obtain ⟨⟨rest, keepGoing⟩, hreq, hbody⟩ := Option.bind_eq_some_iff.mp hbody
    obtain ⟨mem, hpush, hpair⟩ := Option.map_eq_some_iff.mp hbody
    obtain ⟨rfl, rfl⟩ := Prod.mk.inj hpair
    obtain ⟨lr', hheld'', hvals⟩ := hheld'.pushAll hpush
    exact ⟨vals lf, rfl, ⟨lf, lr', hheld'', rfl, hvals⟩, handleRequest_keepGoing ha hreq⟩

/-- **The passes of the loop resume the front queue in order**, each closure once. -/
theorem Drains.steps (h : Drains s front rear) (hl : Lts.Steps Tr s l t)
    (hproceed : ∀ a ∈ l, a.2.Proceeds) :
    ∃ front', front = l.map Prod.fst ++ front' ∧
      Drains t front' ((l.flatMap pushed).reverse ++ rear) := by
  induction hl generalizing front rear with
  | nil s => exact ⟨front, rfl, h⟩
  | cons htr _ ih =>
    obtain ⟨front₁, rfl, h₁⟩ := h.step htr (hproceed _ List.mem_cons_self)
    obtain ⟨front', rfl, h'⟩ := ih h₁ fun a ha => hproceed a (List.mem_cons_of_mem _ ha)
    exact ⟨front', rfl, by simpa using h'⟩

/-- **The loop goes on** as long as there is a closure in the front queue. -/
theorem Drains.progress (h : Drains s front rear) (htest : s.test = true) {r : Resumption}
    (hr : r.Proceeds) (hin : r.InBounds) (hserved : r.Served s) :
    ∃ clo t, Tr s (clo, r) t := by
  have hne := h.test_iff.mp htest
  obtain ⟨⟨lf, lr, hheld, rfl, rfl⟩, hk⟩ := h
  cases lf with
  | nil => exact absurd rfl hne
  | cons x lf =>
    obtain ⟨m, hpop, -⟩ := hheld.pop
    obtain ⟨rest, keepGoing, hreq⟩ := exists_handleRequest hr hin x.2.fiber
    obtain ⟨mem, hpush⟩ := Option.isSome_iff_exists.mp (hserved _ _ hpop)
    refine ⟨x.2, ⟨mem, rest, r.status, keepGoing⟩, htest, ?_⟩
    simp [body, hpop, hreq, hpush]

end Loop

/-! ### The passes of the scheduler's machine -/

/-- The operations of a running fiber leave the queues and the variables of the loop
alone. -/
theorem running_of_io {s t : MemState} {ops : List (Act × List QueueEvent)} {f : ℕ} {site : Site}
    {status : FiberStatus} {keepGoing : Bool} {frame : Frame}
    (hs : s.rest.pc = .running f site status keepGoing frame)
    (hio : Lts.Steps MemTr s ops t) (hops : ∀ a ∈ ops, ∃ op, a.1 = .io op) :
    t.mem = s.mem ∧ ∃ frame', t.rest.pc = .running f site status keepGoing frame' := by
  induction hio generalizing frame with
  | nil s => exact ⟨rfl, frame, hs⟩
  | @cons s u t a ops htr _ ih =>
    obtain ⟨op, hop⟩ := hops a List.mem_cons_self
    obtain ⟨nodes, hstep⟩ := htr
    rw [hop] at hstep
    obtain ⟨rest, hrest, hpair⟩ := Option.map_eq_some_iff.mp hstep
    obtain ⟨-, rfl⟩ := Prod.mk.inj hpair
    have hpc : ∃ frame', rest.pc = .running f site status keepGoing frame' := by
      simp only [step, ioStep, hs] at hrest
      split_ifs at hrest
      split at hrest
      · split at hrest
        · obtain rfl := Option.some.inj hrest
          exact ⟨_, rfl⟩
        · exact absurd hrest (by simp)
      · exact absurd hrest (by simp)
    obtain ⟨frame', hpc⟩ := hpc
    exact ih hpc fun a ha => hops a (List.mem_cons_of_mem _ ha)

/-- **A pass of the machine is a pass of the loop**: it takes a closure out of the front
queue, its fiber performs operations and stops. -/
theorem Loop.tr_of_machine {s u v t : MemState} {status : FiberStatus} {frame : Frame} {f : ℕ}
    {ops : List (Act × List QueueEvent)} {evs evs' : List QueueEvent} {o : Outcome}
    {nodes : List ℕ} (hs : s.rest.pc = .ready status true) (hpop : memPopStep s = some (evs, u))
    (hu : u.rest.pc = .running f .queue status true frame) (hio : Lts.Steps MemTr u ops v)
    (hops : ∀ a ∈ ops, ∃ op, a.1 = .io op) (hstop : memStopStep v o nodes = some (evs', t)) :
    ∃ clo rest keepGoing, evs = [.pop clo] ∧
      Loop.Tr ⟨s.mem, s.rest, status, true⟩
        (clo, ⟨recordStop v.rest clo.fiber o, o.status, o.payload, nodes⟩)
        ⟨t.mem, rest, o.status, keepGoing⟩ ∧
      t.rest = { rest with pc := .ready o.status keepGoing } := by
  rw [memPopStep, hs] at hpop
  dsimp only at hpop
  split_ifs at hpop with hempty
  split at hpop
  · next clo mem hq =>
    obtain ⟨rfl, rfl⟩ := Prod.mk.inj (Option.some.inj hpop)
    -- the fiber that runs is that of the closure
    obtain rfl : clo.fiber = f := by
      rw [fiberResume] at hu
      split_ifs at hu
      exact (Pc.running.inj hu).1
    obtain ⟨hmem, frame', hv⟩ := running_of_io hu hio hops
    rw [memStopStep, hv] at hstop
    obtain ⟨rest', hrest, hmap⟩ := Option.bind_eq_some_iff.mp hstop
    obtain ⟨mem', hpush, hpair⟩ := Option.map_eq_some_iff.mp hmap
    obtain ⟨-, rfl⟩ := Prod.mk.inj hpair
    rw [hmem] at hpush
    rw [stopStep, hv] at hrest
    dsimp only at hrest
    split_ifs at hrest
    split at hrest
    · next rest keepGoing hreq =>
      obtain rfl := Option.some.inj hrest
      refine ⟨clo, rest, keepGoing, rfl, ⟨?_, ?_⟩, rfl⟩
      · simpa [Loop.test] using hempty
      · have hreq' : handleRequest (recordStop v.rest clo.fiber o) clo.fiber o.status o.payload =
            some (rest, keepGoing) := hreq
        have hpush' : mem.pushAll (requested o.status o.payload clo.fiber v.rest.allocated) nodes =
            some mem' := hpush
        simp [Loop.body, hq, hreq', recordStop_allocated, hpush']
    · exact absurd hrest (by simp)
  · obtain ⟨-, rfl⟩ := Prod.mk.inj (Option.some.inj hpop)
    exact absurd hu (by simp)

end Scheduler

open Scheduler LinkedList

/-- **One round runs each ready fiber exactly once and ends**: with `front` and `rear` in
the two queues, the loop resumes the fibers of `front` in order, each with its argument
and none besides; it is over exactly when it has resumed them all, and as long as it is
not, a fiber that proceeds brings it one pass further. When it is over and the queues
are swapped, the front queue holds `rear` and what was pushed, and the rear queue is
empty. -/
theorem waeio_round_runs_front (s : Loop) (front rear : List Closure)
    (h : Loop.Drains s front rear) (l : List (Closure × Resumption)) (t : Loop)
    (hl : Lts.Steps Loop.Tr s l t) (hproceed : ∀ a ∈ l, a.2.Proceeds) :
    l.map Prod.fst <+: front ∧ (t.test = false ↔ l.map Prod.fst = front) ∧
      (t.test = true → ∀ r : Resumption, r.Proceeds → r.InBounds → r.Served t →
        ∃ clo u, Loop.Tr t (clo, r) u) ∧
      (t.test = false → ∃ lf, Held t.mem.queueSwap lf [] ∧
        vals lf = (l.flatMap Loop.pushed).reverse ++ rear) := by
  obtain ⟨front', rfl, hdrains⟩ := h.steps hl hproceed
  have hover : t.test = false ↔ front' = [] := by
    rw [← Bool.not_eq_true, hdrains.test_iff, not_not]
  refine ⟨List.prefix_append _ _, ?_, fun htest r hr hin hserved =>
    hdrains.progress htest hr hin hserved, fun htest => ?_⟩
  · rw [hover]
    exact List.self_eq_append_right.symm
  · obtain ⟨⟨lf, lr, hheld, hfront, hrear⟩, -⟩ := hdrains
    rw [hover.mp htest] at hfront
    obtain rfl : lf = [] := List.map_eq_nil_iff.mp hfront
    exact ⟨lr, hheld.swap, hrear⟩

namespace Scheduler

/-- Two queues: the front one with nodes for the fibers `3` and `4`, the rear one with a node
for the fiber `5`. -/
def twoReady : Memory where
  nodes := fun a =>
    if a = 8 then some ⟨16, ⟨3, 7⟩⟩ else if a = 16 then some ⟨0, ⟨4, 9⟩⟩
    else if a = 24 then some ⟨0, ⟨5, 1⟩⟩ else none
  heads := fun a => if a = 100 then 8 else if a = 200 then 24 else 0
  frontq := 100
  rearq := 200

theorem held_twoReady : Held twoReady [(8, ⟨3, 7⟩), (16, ⟨4, 9⟩)] [(24, ⟨5, 1⟩)] :=
  ⟨⟨rfl, by decide, 16, rfl, rfl, by decide, 0, rfl, rfl⟩, ⟨rfl, by decide, 0, rfl, rfl⟩,
    by decide, by decide⟩

end Scheduler

/-- A round with two ready fibers, the first of which calls `waeio_async` while the second
returns. The fiber of the call, the one that has made it and the one that was in the rear queue
before are ready for the next round. -/
theorem waeio_round_runs_front_async :
    ∃ s l t lf, Lts.Steps Loop.Tr s l t ∧ t.test = false ∧ l.map Prod.fst = [⟨3, 7⟩, ⟨4, 9⟩] ∧
      Held t.mem.queueSwap lf [] ∧ vals lf = [⟨3, 0⟩, ⟨6, 2⟩, ⟨5, 1⟩] := by
  obtain ⟨rest, -⟩ : ∃ rest, waeioMain .clean = some rest :=
    Option.isSome_iff_exists.mp (by decide +kernel)
  have hdrains : Loop.Drains ⟨twoReady, rest, .other, true⟩ [⟨3, 7⟩, ⟨4, 9⟩] [⟨5, 1⟩] :=
    ⟨⟨_, _, held_twoReady, rfl, rfl⟩, rfl⟩
  have hasync : ∃ u, Loop.Tr ⟨twoReady, rest, .other, true⟩
      (⟨3, 7⟩, ⟨{ rest with allocated := 6 }, .yield, ⟨some .async, 40, 2⟩, [32, 40]⟩) u :=
    ⟨_, rfl, rfl⟩
  obtain ⟨u, hu⟩ := hasync
  have hone := Lts.Steps.single hu
  obtain ⟨-, hover, hprogress, -⟩ := waeio_round_runs_front _ _ _ hdrains _ u hone
    (by simp [Resumption.Proceeds])
  have htest : u.test = true := by
    rw [← Bool.not_eq_false, hover]
    simp
  obtain ⟨clo, t, ht⟩ := hprogress htest ⟨u.rest, .ok, ⟨none, 0, 0⟩, []⟩ (Or.inl rfl) nofun
    fun clo mem _ => rfl
  have hl := hone.snoc ht
  obtain ⟨hfront, hover, -, hswap⟩ := waeio_round_runs_front _ _ _ hdrains _ t hl
    (by simp [Resumption.Proceeds])
  obtain rfl : clo = ⟨4, 9⟩ := by simpa using hfront
  have hend := hover.mpr rfl
  obtain ⟨lf, hheld, hvals⟩ := hswap hend
  exact ⟨_, _, t, lf, hl, hend, rfl, hheld, hvals⟩

end Waeio
