import Waeio.Lib.Fifo
import Waeio.Scheduler.Queues

/-!
# The order in which the ready queues give closures back

`queue_push` puts its node in front of the others, and `queue_pop` takes the node in front.
So a `struct queue` is a stack: it gives the closures back in the order in which it was given
them exactly as long as every `queue_pop` finds one closure in the queue
(`Waeio.Scheduler.QueueTr`). The two queues of the scheduler change places after each round,
and neither is turned round when they do. A round resumes the fibers in the order in which
they became ready if no more than one did so since the round before.

A closure is told from another by the node it is in: the same fiber may be in a queue
twice.
-/

namespace Waeio

namespace Scheduler

open LinkedList (Chain addrs vals)
open Fifo (Op StackTr Alone)

/-! ### One queue -/

/-- **The operations on the queue `q`**: the node that `malloc` returns to `queue_push` or
that `queue_pop` frees, and the closure. A queue that is empty is not popped. -/
def QueueTr (q : ℕ) (m : Memory) : Op (ℕ × Closure) → Memory → Prop
  | .push x, m' => m.Fresh x.1 ∧ m' = m.queuePush q x.2 x.1
  | .pop x, m' => m.queueIsEmpty q = false ∧ x.1 = m.heads q ∧ m.queuePop q = some (x.2, m')

/-- The queue `q` holds one closure: there is no node behind the first. -/
def Memory.HoldsOne (m : Memory) (q : ℕ) : Prop := ∃ clo, m.nodes (m.heads q) = some ⟨0, clo⟩

/-- A pop finds one closure in the queue. -/
def PopsOne (q : ℕ) (m : Memory) : Op (ℕ × Closure) → Prop
  | .push _ => True
  | .pop _ => m.HoldsOne q

variable {m m' : Memory} {q : ℕ} {s t : MemState}

/-- The first node is the only one exactly if its `next` is null. -/
theorem holdsOne_iff {x : ℕ × Closure} {l : List (ℕ × Closure)}
    (h : Chain m.nodes (m.heads q) (x :: l)) : m.HoldsOne q ↔ l = [] := by
  obtain ⟨next, hnode, hrest⟩ := h.free
  rw [← hrest.eq_zero_iff]
  constructor
  · rintro ⟨clo, hclo⟩
    exact (LinkedList.Node.mk.inj (Option.some.inj (hnode.symm.trans hclo))).1
  · rintro rfl
    exact ⟨x.2, hnode⟩

/-- A pop of a queue with nodes takes the first. -/
theorem exists_of_pop {l : List (ℕ × Closure)} {x : ℕ × Closure}
    (hc : Chain m.nodes (m.heads q) l) (h : QueueTr q m (.pop x) m') :
    ∃ r, l = x :: r ∧ Chain m'.nodes (m'.heads q) r := by
  obtain ⟨hempty, hx, hpop⟩ := h
  cases l with
  | nil =>
    rw [Memory.queueIsEmpty, hc.eq_zero_iff.mpr rfl] at hempty
    exact absurd hempty (by decide)
  | cons y r =>
    obtain ⟨next, hnode, hrest⟩ := hc.free
    rw [m.queuePop_eq hnode] at hpop
    obtain ⟨hval, rfl⟩ := Prod.mk.inj (Option.some.inj hpop)
    refine ⟨r, ?_, ?_⟩
    · rw [Prod.ext (hx.trans hc.1) hval.symm]
    · dsimp only
      rwa [Function.update_self]

/-- **A queue is a stack.** -/
theorem queueTr_stack (q : ℕ) :
    Lts.Simulation (fun m l => Chain m.nodes (m.heads q) l) (QueueTr q) StackTr := by
  intro m l a m' hc h
  cases a with
  | push x =>
    obtain ⟨⟨hne, hfree⟩, rfl⟩ := h
    refine ⟨x :: l, ⟨fun hmem => ?_, rfl⟩, ?_⟩
    · exact hc.not_mem_of_fresh hfree (List.mem_map_of_mem hmem)
    · dsimp only [Memory.queuePush]
      rw [Function.update_self]
      exact hc.alloc hfree hne x.2
  | pop x =>
    obtain ⟨r, rfl, hr⟩ := exists_of_pop hc h
    exact ⟨r, rfl, hr⟩

theorem popsOne_iff_alone (q : ℕ) (m : Memory) (l : List (ℕ × Closure)) (a : Op (ℕ × Closure))
    (m' : Memory) (hc : Chain m.nodes (m.heads q) l) (h : QueueTr q m a m') :
    PopsOne q m a ↔ Alone l a := by
  cases a with
  | push x => exact Iff.rfl
  | pop x =>
    obtain ⟨r, rfl, -⟩ := exists_of_pop hc h
    refine (holdsOne_iff hc).trans ?_
    rw [Alone, List.length_cons, Nat.succ_inj, List.length_eq_zero_iff]

/-! ### The rounds of the scheduler -/

/-- **What is in the two queues**, with the nodes, in the order of the pushes. -/
structure Ready where
  /-- In the queue at `ctl.frontq`. -/
  front : List (ℕ × Closure)
  /-- In the queue at `ctl.rearq`. -/
  rear : List (ℕ × Closure)

/-- What is in the queues after these calls, of which the pushes get the addresses `nodes`.
A pop is taken to return what was pushed first. -/
def Ready.after : Ready → List ℕ → List QueueEvent → Ready
  | h, _, [] => h
  | h, nodes, .pop _ :: evs => after { h with front := h.front.tail } nodes evs
  | h, nodes, .swap :: evs => after ⟨h.rear, h.front⟩ nodes evs
  | h, node :: nodes, .push clo :: evs =>
    after { h with rear := h.rear ++ [(node, clo)] } nodes evs
  | h, [], .push _ :: _ => h

/-- **A step as a transition**, labelled by what happens, the addresses `malloc` returns and
the calls of the queue functions. -/
def NodeTr (s : MemState) (a : Act × List ℕ × List QueueEvent) (t : MemState) : Prop :=
  memStep s a.2.1 a.1 = some (a.2.2, t)

/-- A step, with what is in the queues beside the state. -/
abbrev ReadyTr : Ready × MemState → Act × List ℕ × List QueueEvent → Ready × MemState → Prop :=
  Lts.Observed (fun h _ a _ => h.after a.2.1 a.2.2) NodeTr

/-- **Fibers are resumed in the order in which they became ready**: the closure that is
popped is in the node that was pushed before the others. -/
def ResumesOldest (p : Ready × MemState) (a : Act × List ℕ × List QueueEvent)
    (_ : Ready × MemState) : Prop :=
  ∀ clo, .pop clo ∈ a.2.2 → p.1.front.head? = some (p.2.mem.heads p.2.mem.frontq, clo)

/-- One closure is in the front queue when it is popped. -/
def ResumesOnly (p : Ready × MemState) (a : Act × List ℕ × List QueueEvent) : Prop :=
  a.1 = .pop → p.1.front.length = 1

/-- **The queues hold what they should**: the node pushed last comes first. -/
def Ready.Held (p : Ready × MemState) : Prop :=
  Scheduler.Held p.2.mem p.1.front.reverse p.1.rear.reverse

variable {h : Ready} {p r : Ready × MemState} {a : Act × List ℕ × List QueueEvent}

/-- **What a step does to the queues**: it pops, pushes to the rear queue, or swaps. -/
theorem memStep_cases {act : Act} {nodes : List ℕ} {ev : List QueueEvent}
    (hstep : memStep s nodes act = some (ev, t)) :
    act = .pop ∧ memPopStep s = some (ev, t) ∨
      act ≠ .pop ∧ ((∃ clos, ev = clos.map .push ∧ s.mem.pushAll clos nodes = some t.mem) ∨
        ev = [.swap] ∧ t.mem = s.mem.queueSwap) := by
  cases act with
  | pop => exact Or.inl ⟨rfl, hstep⟩
  | stop o =>
    refine Or.inr ⟨by rintro ⟨⟩, Or.inl ?_⟩
    rw [memStep, memStopStep] at hstep
    split at hstep
    · obtain ⟨rest, -, hrest⟩ := Option.bind_eq_some_iff.mp hstep
      obtain ⟨m, hpush, hpair⟩ := Option.map_eq_some_iff.mp hrest
      obtain ⟨rfl, rfl⟩ := Prod.mk.inj hpair
      exact ⟨_, rfl, hpush⟩
    · exact absurd hstep (by simp)
  | poll revents host =>
    refine Or.inr ⟨by rintro ⟨⟩, Or.inr ?_⟩
    rw [memStep, memPollStep] at hstep
    split at hstep
    · split_ifs at hstep
      obtain ⟨rfl, rfl⟩ := Prod.mk.inj (Option.some.inj hstep)
      exact ⟨rfl, rfl⟩
    · exact absurd hstep (by simp)
  | visit | io | round | exit =>
    obtain ⟨rest, -, hpair⟩ := Option.map_eq_some_iff.mp hstep
    obtain ⟨rfl, rfl⟩ := Prod.mk.inj hpair
    exact Or.inr ⟨by rintro ⟨⟩, Or.inl ⟨[], rfl, rfl⟩⟩

/-- The pushes of `handle_request` come behind what is in the rear queue. -/
theorem Ready.Held.pushAll (hheld : Ready.Held (h, s)) {clos : List Closure} {nodes : List ℕ}
    (hpush : s.mem.pushAll clos nodes = some t.mem) :
    Ready.Held (h.after nodes (clos.map .push), t) := by
  induction clos generalizing s h nodes with
  | nil =>
    rw [List.map_nil, Ready.after, Ready.Held, ← Option.some.inj hpush]
    exact hheld
  | cons clo clos ih =>
    cases nodes with
    | nil => exact absurd hpush (by simp [Memory.pushAll])
    | cons node nodes =>
      rw [Memory.pushAll] at hpush
      split_ifs at hpush with hfresh
      refine ih (s := { s with mem := s.mem.queuePush s.mem.rearq clo node }) ?_ hpush
      have hpushed := Scheduler.Held.push hheld hfresh clo
      rwa [← List.singleton_append, ← List.reverse_singleton, ← List.reverse_append] at hpushed

/-- **A pop returns the oldest closure exactly if there is no other**, for it returns the
one pushed last. -/
theorem resumesOldest_iff (hheld : Ready.Held p) (htr : ReadyTr p a r) :
    ResumesOldest p a r ↔ ResumesOnly p a := by
  obtain ⟨h, s⟩ := p
  obtain ⟨act, nodes, ev⟩ := a
  rcases memStep_cases htr.1 with ⟨rfl, hpop⟩ | ⟨hact, hev⟩
  · obtain ⟨x, lf, hfront, rfl, -, -⟩ := memPopStep_of_held hheld hpop
    dsimp only at hfront
    have hrev : h.front = (x :: lf).reverse := by rw [← hfront, List.reverse_reverse]
    have hchain : Chain s.mem.nodes (s.mem.heads s.mem.frontq) (x :: lf) := by
      rw [← hfront]
      exact hheld.front
    have hoff := Fifo.head?_reverse_cons_iff (List.Nodup.of_map _ hchain.nodup_addrs)
    rw [← hrev] at hoff
    simp only [ResumesOldest, ResumesOnly, List.mem_singleton, QueueEvent.pop.injEq, forall_eq,
      hchain.1, forall_const]
    rw [hoff, hrev, List.length_reverse, List.length_cons, Nat.succ_inj, List.length_eq_zero_iff]
  · refine iff_of_true (fun clo hclo => ?_) fun hpop => absurd hpop hact
    rcases hev with ⟨clos, rfl, -⟩ | ⟨rfl, -⟩ <;> simp at hclo

/-- **The queues keep what they should hold**, where each closure popped was alone. -/
theorem Ready.Held.step (hheld : Ready.Held p) (htr : ReadyTr p a r) (honly : ResumesOnly p a) :
    Ready.Held r := by
  obtain ⟨h, s⟩ := p
  obtain ⟨h', t⟩ := r
  obtain ⟨act, nodes, ev⟩ := a
  obtain ⟨hstep, rfl⟩ : NodeTr s (act, nodes, ev) t ∧ h' = h.after nodes ev := htr
  rcases memStep_cases hstep with ⟨rfl, hpop⟩ | ⟨-, ⟨clos, rfl, hpush⟩ | ⟨rfl, hswap⟩⟩
  · obtain ⟨x, lf, hfront, rfl, hheld', -⟩ := memPopStep_of_held hheld hpop
    have hlen : h.front.length = 1 := honly rfl
    dsimp only at hfront
    have hlf : lf = [] := by
      have hlen' := congrArg List.length hfront
      rw [List.length_reverse, hlen, List.length_cons] at hlen'
      exact List.length_eq_zero_iff.mp (Nat.succ_inj.mp hlen'.symm)
    have htail : h.front.tail = [] := by
      rw [← List.length_eq_zero_iff, List.length_tail, hlen]
    rw [Ready.after, Ready.after, Ready.Held]
    dsimp only
    rw [htail]
    rwa [hlf] at hheld'
  · exact hheld.pushAll hpush
  · rw [Ready.after, Ready.after, Ready.Held]
    dsimp only
    rw [hswap]
    exact Scheduler.Held.swap hheld

end Scheduler

open Scheduler
open Fifo (Op)

/-- **The ready queues are first in, first out exactly as long as there is no choice**: the
operations on a queue, from an empty one on, are in order exactly if every pop finds one
closure in the queue; and in a run of the scheduler every fiber of the front queue that is
resumed is the one that became ready first exactly if it is the only one there. -/
theorem waeio_fifo_iff {q : ℕ} {m : Memory} (hempty : m.heads q = 0) {p : Ready × MemState}
    (hp : Ready.Held p) :
    (∀ l m', Lts.Steps (QueueTr q) m l m' →
      (Fifo.InOrder l ↔ Lts.Steps (Lts.Guarded (QueueTr q) (PopsOne q)) m l m')) ∧
    ∀ l r, Lts.Steps (Lts.Upheld ReadyTr ResumesOldest) p l r ↔
      Lts.Steps (Lts.Guarded ReadyTr ResumesOnly) p l r := by
  constructor
  · intro l m' hl
    exact Fifo.inOrder_iff_guarded (queueTr_stack q) (popsOne_iff_alone q) hl hempty
  · intro l r
    exact Lts.steps_upheld_iff_guarded (I := Ready.Held) (F := ResumesOldest) (C := ResumesOnly)
      (fun _ _ _ h htr hin => h.step htr ((resumesOldest_iff h htr).mp hin))
      (fun _ _ _ h htr => resumesOldest_iff h htr) hp

namespace Scheduler

/-- A heap without nodes, and two queues that are empty. -/
def emptyQueues : Memory := ⟨fun _ => none, fun _ => 0, 100, 200⟩

end Scheduler

/-- One closure at a time: through a queue, and from the start of the scheduler to its first
fiber. -/
theorem waeio_fifo_iff_one :
    Fifo.InOrder [Op.push (8, (⟨3, 7⟩ : Closure)), .pop (8, ⟨3, 7⟩)] ∧
      ∃ x ∈ memMain ⟨.clean, 16, 32, 48, by decide, by decide⟩, ∃ r,
        Lts.Steps (Lts.Upheld ReadyTr ResumesOldest)
          (⟨[(48, ⟨mainfiber, Start.clean.address⟩)], []⟩, x)
          [(.pop, [], [.pop ⟨mainfiber, Start.clean.address⟩])] r := by
  obtain ⟨x, hx⟩ : ∃ x, x ∈ memMain ⟨.clean, 16, 32, 48, by decide, by decide⟩ := ⟨_, by rfl⟩
  have hheld : Ready.Held (⟨[(48, ⟨mainfiber, Start.clean.address⟩)], []⟩, x) :=
    held_memMain hx rfl rfl
  obtain ⟨hqueue, hready⟩ := waeio_fifo_iff (show emptyQueues.heads 100 = 0 from rfl) hheld
  constructor
  · have hpush : QueueTr 100 emptyQueues (.push (8, ⟨3, 7⟩))
        (emptyQueues.queuePush 100 ⟨3, 7⟩ 8) := ⟨by decide, rfl⟩
    obtain ⟨m', hm'⟩ : ∃ m', QueueTr 100 (emptyQueues.queuePush 100 ⟨3, 7⟩ 8)
        (.pop (8, ⟨3, 7⟩)) m' := ⟨_, by decide, rfl, rfl⟩
    exact (hqueue _ _ (.cons hpush (.single hm'))).mpr
      (.cons ⟨hpush, trivial⟩ (.single ⟨hm', ⟨3, 7⟩, rfl⟩))
  · obtain ⟨t, ht⟩ : ∃ t, memStep x [] .pop =
        some ([.pop ⟨mainfiber, Start.clean.address⟩], t) := by
      obtain rfl := Option.some.inj hx
      exact ⟨_, rfl⟩
    exact ⟨x, hx, (⟨[], []⟩, t), (hready _ _).mpr (.single ⟨⟨ht, rfl⟩, fun _ => rfl⟩)⟩

/-- **Last in, first out**: of two closures the queue returns the one pushed last. -/
theorem not_waeio_fifo : ¬ ∀ q m, m.heads q = 0 → ∀ l m', Lts.Steps (QueueTr q) m l m' →
    Fifo.InOrder l := by
  intro h
  have hfirst : QueueTr 100 emptyQueues (.push (8, ⟨1, 0⟩))
      (emptyQueues.queuePush 100 ⟨1, 0⟩ 8) := ⟨by decide, rfl⟩
  have hsecond : QueueTr 100 (emptyQueues.queuePush 100 ⟨1, 0⟩ 8) (.push (16, ⟨2, 0⟩))
      ((emptyQueues.queuePush 100 ⟨1, 0⟩ 8).queuePush 100 ⟨2, 0⟩ 16) := ⟨by decide, rfl⟩
  obtain ⟨m', hpop⟩ : ∃ m', QueueTr 100
      ((emptyQueues.queuePush 100 ⟨1, 0⟩ 8).queuePush 100 ⟨2, 0⟩ 16) (.pop (16, ⟨2, 0⟩)) m' :=
    ⟨_, by decide, rfl, rfl⟩
  have hin := h 100 emptyQueues rfl _ m' (.cons hfirst (.cons hsecond (.single hpop)))
  exact absurd (List.cons_prefix_cons.mp hin).1 (by decide)

end Waeio
