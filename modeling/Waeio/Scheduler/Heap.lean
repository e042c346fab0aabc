import Waeio.Scheduler.Fifo

/-!
# Two levels of one scheduler

`Waeio.Scheduler.Basic` has the ready queues as lists, and `Waeio.Scheduler.Memory` as nodes in
a heap. From queue heads that are null these are one machine: each run of either is a run of the
other (`Waeio.Scheduler.stores_refinement`, `Waeio.Scheduler.stores_refinement_back`), and what
is proved of the lists holds of the memory.

On the way from the lists to the memory the allocator comes in, for it has to find an address
for each push. It does, because the heap never holds anything but the nodes of the two queues
(`Waeio.Scheduler.Stores`): every `queue_push` adds one, and every `queue_pop` frees the one it
returns. So no node is leaked while the loop runs. What the loop leaves in the queues when it
ends is never freed.
-/

namespace Waeio

namespace Scheduler

open LinkedList (Exact addrs vals)

/-- **The heap stores the queues of the state `u`**, and nothing else. -/
def Stores (s : MemState) (u : State) : Prop :=
  ∃ lf lr, Held s.mem lf lr ∧ Exact s.mem.nodes (addrs lf ++ addrs lr) ∧ u = s.view lf lr

/-- The lists of the state end in null. -/
def State.Plain (s : State) : Prop := s.frontq.tail = 0 ∧ s.rearq.tail = 0

variable {m m' : Memory} {s t : MemState} {lf lr lf' lr' : List (ℕ × Closure)} {act : Act}
  {nodes : List ℕ} {ev : List QueueEvent} {clos : List Closure}

/-! ### What is in the heap -/

/-- The queues hold one thing. -/
theorem Held.unique (h : Held m lf lr) (h' : Held m lf' lr') : lf = lf' ∧ lr = lr' :=
  ⟨h.front.unique h'.front, h.rear.unique h'.rear⟩

/-- Each push adds a node. -/
theorem Held.exact_pushAll (h : Held m lf lr) (he : Exact m.nodes (addrs lf ++ addrs lr))
    (hpush : m.pushAll clos nodes = some m') :
    ∃ lr', Held m' lf lr' ∧ Exact m'.nodes (addrs lf ++ addrs lr') := by
  induction clos generalizing m lr nodes with
  | nil =>
    obtain rfl := Option.some.inj hpush
    exact ⟨lr, h, he⟩
  | cons clo clos ih =>
    cases nodes with
    | nil => cases hpush
    | cons node nodes =>
      rw [Memory.pushAll] at hpush
      obtain ⟨hfresh, hpush⟩ := Option.ite_none_right_eq_some.mp hpush
      exact ih (h.push hfresh clo) ((he.alloc node _).perm List.perm_middle.symm) hpush

/-- There are addresses for all pushes. -/
theorem Held.exists_pushAll (h : Held m lf lr) (he : Exact m.nodes (addrs lf ++ addrs lr))
    (clos : List Closure) : ∃ nodes m', m.pushAll clos nodes = some m' := by
  induction clos generalizing m lr with
  | nil => exact ⟨[], m, rfl⟩
  | cons clo clos ih =>
    obtain ⟨node, hfresh⟩ : ∃ node, m.Fresh node := he.exists_fresh
    obtain ⟨nodes, m', hpush⟩ :=
      ih (h.push hfresh clo) ((he.alloc node ⟨_, clo⟩).perm List.perm_middle.symm)
    exact ⟨node :: nodes, m', by rw [Memory.pushAll, if_pos hfresh, hpush]⟩

/-- A pop frees the node it returns. -/
theorem Held.exact_pop {x : ℕ × Closure} (h : Held s.mem (x :: lf) lr)
    (he : Exact s.mem.nodes (addrs (x :: lf) ++ addrs lr))
    (hstep : memPopStep s = some (ev, t)) : Exact t.mem.nodes (addrs lf ++ addrs lr) := by
  obtain ⟨next, hnode, -⟩ := h.front.free
  have hhead : s.mem.heads s.mem.frontq = x.1 := h.front.1
  rw [memPopStep] at hstep
  split at hstep
  · split_ifs at hstep
    rw [s.mem.queuePop_eq hnode] at hstep
    obtain ⟨-, rfl⟩ := Prod.mk.inj (Option.some.inj hstep)
    dsimp only
    rw [hhead]
    refine he.free fun hmem => ?_
    exact (List.nodup_cons.mp h.nodup).1 hmem
  · cases hstep

/-- **Every step keeps the heap exact.** -/
theorem exact_memStep (h : Held s.mem lf lr) (he : Exact s.mem.nodes (addrs lf ++ addrs lr))
    (hstep : memStep s nodes act = some (ev, t)) :
    ∃ lf' lr', Held t.mem lf' lr' ∧ Exact t.mem.nodes (addrs lf' ++ addrs lr') := by
  rcases memStep_cases hstep with ⟨rfl, hpop⟩ | ⟨-, ⟨clos, -, hpush⟩ | ⟨-, hswap⟩⟩
  · obtain ⟨x, lf', rfl, -, hheld, -⟩ := memPopStep_of_held h hpop
    exact ⟨lf', lr, hheld, h.exact_pop he hpop⟩
  · obtain ⟨lr', hheld, hexact⟩ := h.exact_pushAll he hpush
    exact ⟨lf, lr', hheld, hexact⟩
  · rw [hswap]
    exact ⟨lr, lf, h.swap, he.perm List.perm_append_comm⟩

/-! ### What stands beside the heap -/

theorem State.Plain.withQueues_self {s : State} (h : s.Plain) :
    s.withQueues s.frontq.nodes s.rearq.nodes = s := by
  have hfront : (⟨s.frontq.nodes, 0⟩ : Queue) = s.frontq := by rw [← h.1]
  have hrear : (⟨s.rearq.nodes, 0⟩ : Queue) = s.rearq := by rw [← h.2]
  rw [State.withQueues, hfront, hrear]

/-- A state whose queues were replaced is plain. -/
theorem State.Plain.of_eq {s u : State} {front rear : List Closure}
    (h : s = u.withQueues front rear) : s.Plain := by
  rw [h]
  exact ⟨rfl, rfl⟩

theorem plain_memStep (h : s.rest.Plain) (hstep : memStep s nodes act = some (ev, t)) :
    t.rest.Plain := by
  have hself := h.withQueues_self
  cases act with
  | pop =>
    rw [memStep, memPopStep] at hstep
    split at hstep
    · split_ifs at hstep
      split at hstep
      · obtain ⟨-, rfl⟩ := Prod.mk.inj (Option.some.inj hstep)
        dsimp only
        rw [fiberResume]
        split_ifs
        · exact h
        · exact h
      · obtain ⟨-, rfl⟩ := Prod.mk.inj (Option.some.inj hstep)
        exact h
    · cases hstep
  | stop o =>
    rw [memStep, memStopStep] at hstep
    split at hstep
    · next f site status keepGoing frame hpc =>
      obtain ⟨rest, hstop, hrest⟩ := Option.bind_eq_some_iff.mp hstep
      obtain ⟨mem, -, hpair⟩ := Option.map_eq_some_iff.mp hrest
      obtain ⟨-, rfl⟩ := Prod.mk.inj hpair
      have hview := @stopStep_withQueues s.rest rest s.rest.frontq.nodes s.rest.rearq.nodes
        f site status keepGoing frame o hpc hstop
      rw [hself, hstop] at hview
      exact State.Plain.of_eq (Option.some.inj hview)
    · cases hstep
  | poll revents host =>
    rw [memStep, memPollStep] at hstep
    split at hstep
    · split_ifs at hstep
      obtain ⟨-, rfl⟩ := Prod.mk.inj (Option.some.inj hstep)
      exact h
    · cases hstep
  | visit | io | round | exit =>
    obtain ⟨rest, hrest, hpair⟩ := Option.map_eq_some_iff.mp hstep
    obtain ⟨-, rfl⟩ := Prod.mk.inj hpair
    have hview := step_withQueues (by rintro ⟨⟩) (by rintro _ ⟨⟩) (by rintro _ _ ⟨⟩) hrest
      s.rest.frontq.nodes s.rest.rearq.nodes
    rw [hself, hrest] at hview
    exact State.Plain.of_eq (Option.some.inj hview)

/-! ### From the lists to the memory -/

/-- **The memory takes every step of the lists**: `malloc` finds an address for each push. -/
theorem exists_memStep (h : Held s.mem lf lr) (he : Exact s.mem.nodes (addrs lf ++ addrs lr))
    (hplain : s.rest.Plain) {u : State} (hstep : step (s.view lf lr) act = some u) :
    ∃ nodes ev t, memStep s nodes act = some (ev, t) := by
  have hself : (s.view lf lr).withQueues s.rest.frontq.nodes s.rest.rearq.nodes = s.rest :=
    hplain.withQueues_self
  cases act with
  | pop =>
    have hempty := h.queueIsEmpty_view
    have hpc : (s.view lf lr).pc = s.rest.pc := rfl
    rw [step, popStep, hpc] at hstep
    split at hstep
    · next status hready =>
      rw [hempty] at hstep
      split_ifs at hstep with hnil
      cases lf with
      | nil => exact absurd (h.front_isEmpty_iff.mpr rfl) hnil
      | cons x lf =>
        obtain ⟨mem, hpop, -⟩ := h.pop
        refine ⟨[], [.pop x.2], ⟨fiberResume s.rest x.2.fiber x.2.arg .queue status true, mem⟩, ?_⟩
        rw [memStep, memPopStep, hready]
        dsimp only
        rw [if_neg hnil, hpop]
    · cases hstep
  | stop o =>
    cases hpc : s.rest.pc with
    | running f site status keepGoing frame =>
      have hview := @stopStep_withQueues (s.view lf lr) u s.rest.frontq.nodes s.rest.rearq.nodes
        f site status keepGoing frame o hpc hstep
      rw [hself] at hview
      obtain ⟨rest, hstop⟩ : ∃ rest, stopStep s.rest o = some rest := ⟨_, hview⟩
      obtain ⟨clos, hclos⟩ : ∃ clos, requested (statusAfter site status o) o.payload f
        s.rest.allocated = clos := ⟨_, rfl⟩
      obtain ⟨nodes, mem, hpush⟩ := h.exists_pushAll he clos
      refine ⟨nodes, clos.map .push, ⟨rest, mem⟩, ?_⟩
      rw [memStep, memStopStep, hpc]
      dsimp only
      rw [hstop, Option.bind_some, hclos, hpush]
      rfl
    | _ =>
      have hnone : stopStep (s.view lf lr) o = none := by
        have hview : (s.view lf lr).pc = s.rest.pc := rfl
        rw [stopStep, hview, hpc]
      cases hnone.symm.trans hstep
  | poll revents host =>
    have hempty := h.queueIsEmpty_view
    have hpc : (s.view lf lr).pc = s.rest.pc := rfl
    rw [step, pollStep, hpc] at hstep
    split at hstep
    · next status keepGoing hready =>
      rw [hempty] at hstep
      split_ifs at hstep with hend
      have hsome : memStep s [] (.poll revents host) ≠ none := by
        rw [memStep, memPollStep, hready]
        dsimp only
        rw [if_pos hend]
        rintro ⟨⟩
      obtain ⟨⟨ev, t⟩, hmem⟩ := Option.ne_none_iff_exists'.mp hsome
      exact ⟨[], ev, t, hmem⟩
    · cases hstep
  | visit | io | round | exit =>
    have hrest := step_withQueues (by rintro ⟨⟩) (by rintro _ ⟨⟩) (by rintro _ _ ⟨⟩) hstep
      s.rest.frontq.nodes s.rest.rearq.nodes
    rw [hself] at hrest
    exact ⟨[], [], _, Option.map_eq_some_iff.mpr ⟨_, hrest, rfl⟩⟩

/-! ### Both ways -/

/-- **From the memory to the lists.** -/
theorem stores_refinement : Lts.Refinement (fun s u => Stores s u ∧ s.rest.Plain)
    (fun (a : Act × List QueueEvent) act => a.1 = act) MemTr Tr := by
  rintro s u ⟨act, ev⟩ t ⟨⟨lf, lr, hheld, hexact, rfl⟩, hplain⟩ ⟨nodes, hstep⟩
  obtain ⟨lf', lr', hheld', hexact'⟩ := exact_memStep hheld hexact hstep
  obtain ⟨lf₁, lr₁, hkept⟩ := memStep_refines hheld hstep
  obtain ⟨rfl, rfl⟩ := hheld'.unique hkept.held
  exact ⟨act, t.view lf' lr', rfl, hkept.step, ⟨lf', lr', hheld', hexact', rfl⟩,
    plain_memStep hplain hstep⟩

/-- **From the lists to the memory.** -/
theorem stores_refinement_back : Lts.Refinement (fun u s => Stores s u ∧ s.rest.Plain)
    (fun act (a : Act × List QueueEvent) => a.1 = act) Tr MemTr := by
  rintro u s act v ⟨hstores, hplain⟩ hstep
  obtain ⟨lf, lr, hheld, hexact, rfl⟩ := id hstores
  obtain ⟨nodes, ev, t, hmem⟩ := exists_memStep hheld hexact hplain hstep
  -- the step of the memory is a step of the lists, and there is only one
  obtain ⟨act', w, rfl, hw, hstores', hplain'⟩ :=
    stores_refinement s _ (act, ev) t ⟨hstores, hplain⟩ ⟨nodes, hmem⟩
  obtain rfl := Option.some.inj (hw.symm.trans hstep)
  exact ⟨(act, ev), t, rfl, ⟨nodes, hmem⟩, hstores', hplain'⟩

/-- At the start the one node is that of the listener. -/
theorem stores_memMain {e : MemStart} {x : MemState} (h : memMain e = some x)
    (hf : e.start.frontHead = 0) (hr : e.start.rearHead = 0) :
    ∃ u, waeioMain e.start = some u ∧ Stores x u ∧ x.rest.Plain := by
  have hmain := waeioMain_view h hf hr
  obtain ⟨hrest, hmem⟩ := of_memMain h
  refine ⟨_, hmain, ⟨_, _, held_memMain h hf hr, ?_, rfl⟩, ?_⟩
  · rw [hmem]
    exact LinkedList.Exact.alloc (fun a => iff_of_false (fun hne => hne rfl) List.not_mem_nil) _ _
  · exact State.Plain.of_eq (Option.some.inj (hrest.symm.trans hmain))

/-- The labels of a run, without the calls of the queue functions. -/
theorem forall₂_fst {l : List (Act × List QueueEvent)} {l' : List Act}
    (h : List.Forall₂ (fun a act => a.1 = act) l l') : l.map Prod.fst = l' := by
  induction h with
  | nil => rfl
  | cons hact _ ih => rw [List.map_cons, hact, ih]

end Scheduler

open Scheduler

/-- **The scheduler on lists and the scheduler in memory are one machine**: from queue heads
that are null, every run of the one that has its queues in a heap is a run of the one that has
them as lists, and the other way round; and what is allocated in the heap at the end of the run
are the nodes of the two queues. -/
theorem waeio_inMemory (e : MemStart) (x : MemState) (h : memMain e = some x)
    (hf : e.start.frontHead = 0) (hr : e.start.rearHead = 0) :
    (∀ l t, Lts.Steps MemTr x l t → ∃ u, Run e.start (l.map Prod.fst) u ∧ Stores t u) ∧
      ∀ l u, Run e.start l u →
        ∃ l' t, l'.map Prod.fst = l ∧ Lts.Steps MemTr x l' t ∧ Stores t u := by
  obtain ⟨u₀, hmain, hstores⟩ := stores_memMain h hf hr
  constructor
  · intro l t hl
    obtain ⟨l', u, hlabels, hu, hstores', -⟩ := stores_refinement.steps hl hstores
    rw [forall₂_fst hlabels]
    exact ⟨u, ⟨u₀, hmain, hu⟩, hstores'⟩
  · rintro l u ⟨u₁, hmain₁, hl⟩
    obtain rfl := Option.some.inj (hmain.symm.trans hmain₁)
    obtain ⟨l', t, hlabels, ht, hstores', -⟩ := stores_refinement_back.steps hl hstores
    exact ⟨l', t, forall₂_fst hlabels.flip, ht, hstores'⟩

/-- The first connection of a server, in memory. -/
theorem waeio_inMemory_firstConnection :
    ∃ x u l t, memMain ⟨.clean, 16, 32, 48, by decide, by decide⟩ = some x ∧
      Run .clean firstConnection u ∧ l.map Prod.fst = firstConnection ∧
      Lts.Steps MemTr x l t ∧ Stores t u ∧ u.rearq.nodes = [⟨0, 0⟩, ⟨1, 1⟩] := by
  obtain ⟨x, hx⟩ : ∃ x, x ∈ memMain ⟨.clean, 16, 32, 48, by decide, by decide⟩ := ⟨_, by rfl⟩
  obtain ⟨u, hu, hrear⟩ : ∃ u ∈ after firstConnection, u.rearq.nodes = [⟨0, 0⟩, ⟨1, 1⟩] := by
    decide +kernel
  have hrun := run_of_after hu
  obtain ⟨l, t, hl, ht, hstores⟩ := (waeio_inMemory _ x hx rfl rfl).2 _ u hrun
  exact ⟨x, u, l, t, hx, hrun, hl, ht, hstores, hrear⟩

end Waeio
