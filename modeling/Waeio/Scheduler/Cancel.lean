import Waeio.Scheduler.Cases

/-!
# Cancellation

Once a fiber has called `waeio_cancel_all`, no fiber is to be resumed again
(`Waeio.Scheduler.CancellationFinal`). The request ends the loop it was made in,
and two things may still follow.

* A request from the front queue ends the loop over that queue only: `run_next`
  goes on to swap the queues and to poll, and resumes the fiber of every
  descriptor an event is reported on. In the poll phase the same request makes
  `run_next` return at once.
* In the poll phase `handle_request` is not given the status of the fiber that
  has just stopped, but what `status` held before. With anything but
  `FIBER_YIELD` there it does not look at the request.

`Waeio.Scheduler.CancelsCleanly` excludes these two. What is left of a run after a
cancellation then goes through `Waeio.Scheduler.Stopping` states, which resume
nothing.
-/

namespace Waeio

namespace Scheduler

/-- A fiber yields the request of `waeio_cancel_all`. -/
def Act.Cancels : Act → Prop
  | .stop (.yields .cancelAll _) => True
  | _ => False

/-- A fiber is resumed. -/
def Act.Resumes : Act → Prop
  | .pop | .visit _ => True
  | _ => False

/-- **Cancellation is final** in a run with these steps: after a fiber has
cancelled, none is resumed. -/
def CancellationFinal (l : List Act) : Prop :=
  ∀ l₁ a l₂, l = l₁ ++ a :: l₂ → a.Cancels → ∀ b ∈ l₂, ¬b.Resumes

/-- No event is reported on a descriptor that is open. -/
def NoEvent (wfd : WasioPollfd) (revents : ℕ → BitVec 16) : Prop :=
  ∀ v < wfd.capacity, (wfd.vfds v).fd ≠ -1 → revents v = 0

/-- **The step cancels cleanly**: in the poll phase a fiber cancels only while
`status` holds `FIBER_YIELD` (or `FIBER_ERROR`, where the scheduler aborts); and
after a cancellation from the front queue the poll fails, or reports nothing. -/
def CancelsCleanly (s : State) : Act → Prop
  | .stop (.yields .cancelAll _) => ∀ status ∈ s.pc.pollStatus, status = .yield ∨ status = .error
  | .poll revents host => s.pc.keepsGoing = false → host.ret < 0 ∨ NoEvent s.wfd revents
  | _ => True

instance (wfd : WasioPollfd) (revents : ℕ → BitVec 16) : Decidable (NoEvent wfd revents) :=
  inferInstanceAs (Decidable (∀ v < wfd.capacity, _ → _))

instance (s : State) : DecidablePred (CancelsCleanly s)
  | .stop (.yields .cancelAll _) => inferInstanceAs (Decidable (∀ status ∈ s.pc.pollStatus, _))
  | .poll revents _ => inferInstanceAs (Decidable (_ → _ ∨ NoEvent s.wfd revents))
  | .stop (.returns _) | .stop (.fails _) | .stop (.yields (.async _ _) _)
  | .stop (.yields (.accept _) _) | .stop (.yields (.acceptFull _) _)
  | .stop (.yields (.recv _ _) _) | .stop (.yields (.send _ _) _) => isTrue trivial
  | .pop | .visit _ | .io _ | .round _ | .exit _ => isTrue trivial

variable {s t : State} {a : Act}

/-! ### States that resume nothing -/

/-- The scheduler is on its way out: nothing is resumed from here on. -/
def Stopping (s : State) : Prop :=
  match s.pc with
  | .ready _ keepGoing => keepGoing = false
  | .events i _ keepGoing => keepGoing = false ∧ nextEvent s.wfd i = none
  | .leaving | .done => True
  | .running _ _ _ _ _ | .stray => False

theorem nextEvent_eq_none {wfd : WasioPollfd} (h : ∀ v < wfd.capacity, hasEvent wfd v = false)
    (i : ℕ) : nextEvent wfd i = none := by
  rw [nextEvent, List.find?_eq_none]
  intro v hv
  obtain ⟨hle, hlt⟩ := List.mem_range'_1.mp hv
  rw [h v (by omega)]
  simp

/-- A clean cancellation puts the scheduler on its way out. -/
theorem stopping_of_cancels (htr : Tr s a t) (hclean : CancelsCleanly s a) (hquit : a.Cancels) :
    Stopping t := by
  cases htr.stepped with
  | @stop f site status keepGoing answer frame o t hpc hmay hh =>
    cases o with
    | returns | fails => exact absurd hquit id
    | yields call residue =>
      cases call with
      | cancelAll =>
        cases site with
        | queue =>
          obtain ⟨rfl, rfl⟩ := hh.served rfl rfl
          exact rfl
        | event v =>
          rcases hclean status (by rw [hpc]; rfl) with rfl | rfl
          · obtain ⟨rfl, rfl⟩ := hh.served rfl rfl
            exact trivial
          · -- the scheduler aborts on `FIBER_ERROR`
            cases hh
      | _ => exact absurd hquit id
  | _ => exact absurd hquit id

/-- **On its way out the scheduler resumes nothing**, and it stays there. -/
theorem Stopping.step (h : Stopping s) (htr : Tr s a t) (hclean : CancelsCleanly s a) :
    Stopping t ∧ ¬a.Resumes := by
  cases htr.stepped with
  | pop frame hpc | popDead hpc | popWild hpc =>
    rw [Stopping, hpc] at h
    exact absurd h (by simp)
  | visit frame hpc hnext | visitStray hpc hnext =>
    simp only [Stopping, hpc, hnext] at h
    exact absurd h.2 (by simp)
  | io frame' hpc | stop hpc =>
    rw [Stopping, hpc] at h
    exact h.elim
  | @poll status keepGoing revents host hpc hend =>
    rw [Stopping, hpc] at h
    subst h
    refine ⟨?_, id⟩
    rcases hclean (by rw [hpc]; rfl) with hneg | hnone
    · rw [if_pos hneg]
      exact trivial
    · split_ifs
      · exact trivial
      · refine ⟨rfl, nextEvent_eq_none ?_ 0⟩
        intro v hv
        by_cases hfd : (s.wfd.vfds v).fd = -1
        · simp [hasEvent, hfd]
        · simp [hasEvent, hnone v hv hfd]
  | round hpc hnext =>
    rw [Stopping, hpc] at h
    obtain ⟨rfl, -⟩ := h
    exact ⟨trivial, id⟩
  | exit => exact ⟨trivial, id⟩

end Scheduler

open Scheduler

/-- **Cancellation is final** in every run whose steps cancel cleanly. -/
theorem cancellationFinal_of_cancelsCleanly (s₀ s : Scheduler.State) (l : List Act)
    (h : Lts.Steps (Lts.Guarded Scheduler.Tr CancelsCleanly) s₀ l s) : CancellationFinal l := by
  rintro l₁ a l₂ rfl hquit
  obtain ⟨s₁, -, hrest⟩ := h.split
  cases hrest with
  | cons hstep hrest =>
    refine hrest.forall_mem (I := Stopping) ?_ (stopping_of_cancels hstep.1 hstep.2 hquit)
    rintro s b t hs ⟨htr, hclean⟩
    exact hs.step htr hclean

/-- The listener is enqueued after the first connection, in front of its fiber; when it is run
again it cancels, and the host reports no event. -/
def cancelWhileQueued : List Act :=
  firstConnection ++ [.round .other, .poll (eventOn 0 0) ⟨0, 0⟩, .round .other, .pop,
    .stop (.yields .cancelAll 0), .poll (eventOn 0 0) ⟨0, 0⟩, .round .other, .exit ⟨0, 0⟩]

/-- The fiber of the connection is in a queue from there on, and is not resumed. -/
theorem cancellationFinal_of_cancelsCleanly_queued :
    (∃ s ∈ afterIf CancelsCleanly cancelWhileQueued, s.pc = .done ∧ s.rearq.nodes = [⟨1, 1⟩]) ∧
      CancellationFinal cancelWhileQueued := by
  have hrun : ∃ s ∈ afterIf CancelsCleanly cancelWhileQueued,
      s.pc = .done ∧ s.rearq.nodes = [⟨1, 1⟩] := by
    decide +kernel
  refine ⟨hrun, ?_⟩
  obtain ⟨s, hs, -⟩ := hrun
  obtain ⟨s₀, -, hsteps⟩ := guarded_of_afterIf hs
  exact cancellationFinal_of_cancelsCleanly s₀ s _ hsteps

/-- The listener is enqueued after the first connection; when it is run again it
cancels, while another connection is waiting at the slot 0. -/
def cancelAfterConnection : List Act :=
  firstConnection ++ [.round .other, .poll (eventOn 0 0) ⟨0, 0⟩, .round .other, .pop,
    .stop (.yields .cancelAll 0), .poll (eventOn 0 POLLIN) ⟨1, 0⟩, .visit 4096]

/-- **The listener is resumed after it has cancelled.** -/
theorem not_cancellationFinal_afterConnection :
    (∃ s, Scheduler.Run .clean cancelAfterConnection s) ∧
      ¬CancellationFinal cancelAfterConnection := by
  constructor
  · obtain ⟨s, hs, -⟩ :
        ∃ s ∈ after cancelAfterConnection,
          s.pc = .running mainfiber (.event 0) .yield false .user := by
      decide +kernel
    exact ⟨s, run_of_after hs⟩
  · intro h
    refine h (cancelAfterConnection.take 10) (.stop (.yields .cancelAll 0))
      [.poll (eventOn 0 POLLIN) ⟨1, 0⟩, .visit 4096] rfl trivial (.visit 4096) ?_ trivial
    exact List.mem_cons_of_mem _ List.mem_cons_self

end Waeio
