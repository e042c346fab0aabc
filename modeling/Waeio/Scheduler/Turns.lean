import Waeio.Scheduler.Cases
import Waeio.Scheduler.Fifo

/-!
# Whose turn it is

`Waeio.Scheduler.Fifo` says when the ready queue is first in, first out, and mostly it is not.
It is fair all the same. The swap of the two queues cuts a run into turns: what is pushed in one
turn is due in the next, the last one first, and with the queues in memory that is the whole
law (`Waeio.Scheduler.Turns.Kept`). No closure that is due is left out, none is resumed twice,
and none that is pushed later comes before it – unless a fiber asks to quit while others are
due, and then there is no next turn.

The invariant has two halves. What is due is what was resumed and what is in the front queue,
in every state; what was pushed is in the rear queue as long as another swap may come
(`Waeio.Scheduler.Pc.Filling`).
-/

namespace Waeio

namespace Scheduler

open LinkedList (vals vals_cons)

/-! ### The turns -/

/-- **What a turn is about**, in the order of the calls of `queue_push` and `queue_pop`. -/
structure Turns where
  /-- What was pushed since the last swap. -/
  pushed : List Closure
  /-- What was pushed in the turn before. -/
  due : List Closure
  /-- What was resumed since the last swap. -/
  resumed : List Closure
  deriving DecidableEq

/-- After one more call of a queue function. -/
def Turns.after (h : Turns) : QueueEvent → Turns
  | .push clo => { h with pushed := h.pushed ++ [clo] }
  | .pop clo => { h with resumed := h.resumed ++ [clo] }
  | .swap => ⟨[], h.pushed, []⟩

/-- At the start of the loop the listener is due. -/
def Turns.start (e : MemStart) : Turns := ⟨[], [⟨mainfiber, e.start.address⟩], []⟩

/-- **A step**, with the turns beside the state. -/
abbrev TurnsTr : Turns × MemState → Act × List QueueEvent → Turns × MemState → Prop :=
  Lts.Observed (fun h _ a _ => a.2.foldl Turns.after h) MemTr

/-- What is pushed from here on is for the next turn. -/
def Pc.Filling : Pc → Prop
  | .ready _ _ | .running _ .queue _ _ _ => True
  | .events _ _ keepGoing | .running _ (.event _) _ keepGoing _ => keepGoing = true
  | .leaving | .done | .stray => False

/-- **The law of the turns**: the closures that are due were resumed or are in the front queue,
the last one pushed before the others, and what was pushed since is in the rear queue. -/
def Turns.Kept (p : Turns × MemState) : Prop :=
  ∃ lf lr, Held p.2.mem lf lr ∧ p.1.resumed ++ vals lf = p.1.due.reverse ∧
    (p.2.rest.pc.Filling → vals lr = p.1.pushed.reverse)

variable {s t : MemState} {h : Turns} {p q : Turns × MemState} {a : Act × List QueueEvent}
  {act : Act} {nodes : List ℕ} {ev : List QueueEvent} {lf lr : List (ℕ × Closure)}

/-! ### The steps -/

/-- Only a poll begins a turn. -/
theorem Pc.Filling.of_stepped {s t : State} (hstep : Stepped s act t)
    (hpoll : ∀ revents host, act ≠ .poll revents host) (ht : t.pc.Filling) : s.pc.Filling := by
  cases hstep with
  | pop frame hpc | popDead hpc | popWild hpc =>
    rw [hpc]
    trivial
  | visit frame hpc =>
    rw [hpc]
    exact ht
  | visitStray => exact ht.elim
  | @io f site status keepGoing frame op r wfd frame' hpc =>
    rw [hpc]
    cases site with
    | queue => trivial
    | event v => exact ht
  | @stop f site status keepGoing answer frame o t hpc =>
    rw [hpc]
    cases site with
    | queue => trivial
    | event v =>
      cases answer with
      | false => exact ht.elim
      | true => exact ht
  | @poll status keepGoing revents host => exact absurd rfl (hpoll revents host)
  | @round i status status' keepGoing hpc =>
    rw [hpc]
    cases keepGoing with
    | false => exact ht.elim
    | true => exact rfl
  | exit => exact ht.elim

/-- A step of the machine with its queues in memory that is no poll. -/
theorem filling_of_memStep (hheld : Held s.mem lf lr) (hstep : memStep s nodes act = some (ev, t))
    (hswap : ev ≠ [.swap]) (ht : t.rest.pc.Filling) : s.rest.pc.Filling := by
  obtain ⟨lf', lr', hkept⟩ := memStep_refines hheld hstep
  have hstepped : Stepped (s.view lf lr) act (t.view lf' lr') := Tr.stepped hkept.step
  have hfilling : (s.view lf lr).pc.Filling := by
    refine Pc.Filling.of_stepped hstepped ?_ ht
    rintro revents host rfl
    rw [memStep, memPollStep] at hstep
    split at hstep
    · split_ifs at hstep
      exact hswap (congrArg Prod.fst (Option.some.inj hstep)).symm
    · cases hstep
  exact hfilling

/-- **What comes before a swap**: the front queue is empty, or a fiber has asked to quit, and
then there is no next turn. -/
theorem of_swap (hheld : Held s.mem lf lr) (hstep : memStep s nodes act = some ([.swap], t)) :
    ∃ status keepGoing, s.rest.pc = .ready status keepGoing ∧ (keepGoing = true → lf = []) ∧
      t.mem = s.mem.queueSwap ∧ (t.rest.pc.Filling → keepGoing = true) := by
  cases act with
  | pop =>
    obtain ⟨x, lf', -, hev, -⟩ := memPopStep_of_held hheld hstep
    cases hev
  | stop o =>
    rw [memStep, memStopStep] at hstep
    split at hstep
    · obtain ⟨rest, -, hrest⟩ := Option.bind_eq_some_iff.mp hstep
      obtain ⟨m, -, hpair⟩ := Option.map_eq_some_iff.mp hrest
      have hev := congrArg Prod.fst hpair
      rw [List.map_eq_singleton_iff] at hev
      obtain ⟨clo, -, hclo⟩ := hev
      cases hclo
    · cases hstep
  | poll revents host =>
    rw [memStep, memPollStep] at hstep
    split at hstep
    · next status keepGoing hpc =>
      split_ifs at hstep with htest
      obtain ⟨-, rfl⟩ := Prod.mk.inj (Option.some.inj hstep)
      refine ⟨status, keepGoing, hpc, fun hk => ?_, rfl, fun hfilling => ?_⟩
      · rw [hk, Bool.not_true, Bool.or_false] at htest
        exact hheld.front_isEmpty_iff.mp htest
      · dsimp only at hfilling
        split_ifs at hfilling
        · exact hfilling
        · exact hfilling.elim
    · cases hstep
  | visit | io | round | exit =>
    obtain ⟨rest, -, hpair⟩ := Option.map_eq_some_iff.mp hstep
    have hev := congrArg Prod.fst hpair
    cases hev

/-- The pushes of a step, as the turns have them. -/
theorem foldl_after_push (h : Turns) (clos : List Closure) :
    (clos.map QueueEvent.push).foldl Turns.after h = { h with pushed := h.pushed ++ clos } := by
  induction clos generalizing h with
  | nil => rw [List.map_nil, List.foldl_nil, List.append_nil]
  | cons clo clos ih =>
    rw [List.map_cons, List.foldl_cons, ih, Turns.after, List.append_assoc, List.singleton_append]

/-- **Every step keeps the law of the turns.** -/
theorem Turns.Kept.step (hkept : Turns.Kept p) (htr : TurnsTr p a q) : Turns.Kept q := by
  obtain ⟨h, s⟩ := p
  obtain ⟨h', t⟩ := q
  obtain ⟨act, ev⟩ := a
  obtain ⟨⟨nodes, hstep⟩, hturns⟩ := htr
  obtain rfl : h' = ev.foldl Turns.after h := hturns
  obtain ⟨lf, lr, hheld, hdue, hpushed⟩ := hkept
  dsimp only at hheld hdue hpushed hstep
  by_cases hswap : ev = [.swap]
  · subst hswap
    obtain ⟨status, keepGoing, hpc, hempty, hmem, hfilling⟩ := of_swap hheld hstep
    have hrear := hpushed (by rw [hpc]; trivial)
    refine ⟨lr, lf, ?_, hrear, fun ht => ?_⟩
    · dsimp only
      rw [hmem]
      exact hheld.swap
    · rw [hempty (hfilling ht)]
      rfl
  · rcases memStep_cases hstep with ⟨rfl, hpop⟩ | ⟨hact, ⟨clos, rfl, hpush⟩ | ⟨hev, -⟩⟩
    · obtain ⟨x, lf', rfl, rfl, hheld', -⟩ := memPopStep_of_held hheld hpop
      refine ⟨lf', lr, hheld', ?_, fun ht => hpushed (filling_of_memStep hheld hstep hswap ht)⟩
      rw [vals_cons, List.append_cons] at hdue
      exact hdue
    · obtain ⟨lr', hheld', hvals⟩ := hheld.pushAll hpush
      rw [foldl_after_push]
      refine ⟨lf, lr', hheld', hdue, fun ht => ?_⟩
      rw [hvals, List.reverse_append, hpushed (filling_of_memStep hheld hstep hswap ht)]
    · exact absurd hev hswap

/-- The law of the turns at the start. -/
theorem kept_start {e : MemStart} {x : MemState} (hmain : memMain e = some x)
    (hf : e.start.frontHead = 0) (hr : e.start.rearHead = 0) : Turns.Kept (.start e, x) :=
  ⟨_, _, held_memMain hmain hf hr, rfl, fun _ => rfl⟩

/-! ### Runs that are computed -/

/-- A step in which `malloc` returns `nodes`. -/
def turnsStep (nodes : List ℕ) (p : Turns × MemState) (a : Act × List QueueEvent) :
    Option (Turns × MemState) :=
  match memStep p.2 nodes a.1 with
  | some (ev, t) => if ev = a.2 then some (a.2.foldl Turns.after p.1, t) else none
  | none => none

theorem steps_of_turnsStep {l : List (Act × List QueueEvent)}
    (hexec : q ∈ Lts.exec (turnsStep nodes) p l) : Lts.Steps TurnsTr p l q := by
  refine (Lts.exec_eq_some_iff.mp hexec).mono fun p a q hstep => ?_
  rw [turnsStep] at hstep
  split at hstep
  · next ev t hmem =>
    obtain ⟨rfl, heq⟩ := Option.ite_none_right_eq_some.mp hstep
    obtain rfl := Option.some.inj heq
    exact ⟨⟨nodes, hmem⟩, rfl⟩
  · cases hstep

end Scheduler

open Scheduler

/-- **No fiber that is ready is left out**: in every run of `waeio_main` from queue heads that
are null, what was resumed since the last swap of the queues is what was pushed in the turn
before, from the last one on, and the rest of it is in the front queue; and the queues are
swapped only when nothing is left of it, or when a fiber has asked to quit. -/
theorem waeio_turns (e : MemStart) (x : MemState) (h : memMain e = some x)
    (hf : e.start.frontHead = 0) (hr : e.start.rearHead = 0) (l : List (Act × List QueueEvent))
    (p : Turns × MemState) (hl : Lts.Steps TurnsTr (.start e, x) l p) :
    Turns.Kept p ∧ ∀ a q, TurnsTr p a q → a.2 = [.swap] → p.2.rest.pc.keepsGoing = true →
      p.1.resumed = p.1.due.reverse ∧ q.1.due = p.1.pushed := by
  have hkept : Turns.Kept p :=
    hl.invariant (fun _ _ _ hkept htr => hkept.step htr) (kept_start h hf hr)
  refine ⟨hkept, ?_⟩
  rintro ⟨act, ev⟩ ⟨h', t⟩ ⟨⟨nodes, hstep⟩, hturns⟩ rfl hgoing
  obtain ⟨lf, lr, hheld, hdue, -⟩ := hkept
  obtain ⟨status, keepGoing, hpc, hempty, -, -⟩ := of_swap hheld hstep
  rw [hpc] at hgoing
  obtain rfl := hempty hgoing
  refine ⟨?_, ?_⟩
  · rw [← hdue]
    exact (List.append_nil _).symm
  · exact congrArg Turns.due hturns

/-- The listener makes a fiber and is suspended: in the next turn it is resumed before the fiber
it has made. -/
theorem waeio_turns_async :
    ∃ x p, memMain ⟨.clean, 16, 32, 48, by decide, by decide⟩ = some x ∧
      Lts.Steps TurnsTr (.start ⟨.clean, 16, 32, 48, by decide, by decide⟩, x)
        [(.pop, [.pop ⟨0, 4096⟩]), (.stop (.yields (.async 7 1) 0), [.push ⟨1, 1⟩, .push ⟨0, 0⟩]),
          (.poll (fun _ => 0) ⟨0, 0⟩, [.swap]), (.round .other, []), (.pop, [.pop ⟨0, 0⟩])] p ∧
      p.1 = ⟨[], [⟨1, 1⟩, ⟨0, 0⟩], [⟨0, 0⟩]⟩ ∧ Turns.Kept p := by
  obtain ⟨x, hx, p, hp, hturns⟩ : ∃ x ∈ memMain ⟨.clean, 16, 32, 48, by decide, by decide⟩,
      ∃ p ∈ Lts.exec (turnsStep [64, 80])
        (.start ⟨.clean, 16, 32, 48, by decide, by decide⟩, x)
        [(.pop, [.pop ⟨0, 4096⟩]), (.stop (.yields (.async 7 1) 0), [.push ⟨1, 1⟩, .push ⟨0, 0⟩]),
          (.poll (fun _ => 0) ⟨0, 0⟩, [.swap]), (.round .other, []), (.pop, [.pop ⟨0, 0⟩])],
        p.1 = ⟨[], [⟨1, 1⟩, ⟨0, 0⟩], [⟨0, 0⟩]⟩ := by
    decide +kernel
  have hl := steps_of_turnsStep hp
  exact ⟨x, p, hx, hl, hturns, (waeio_turns _ x hx rfl rfl _ p hl).1⟩

end Waeio
