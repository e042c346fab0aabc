import Waeio.Scheduler.Cases

/-!
# The outcome of a resumption

`run_next` resumes fibers at two places, with one variable `status` between them. In the
ready phase it calls `fiber_resume(clo.fiber, clo.arg, &status)`; in the poll phase
`fiber_resume(ctl.fibers[vfd], &status, 0)`, with the last two arguments exchanged: the
fiber is given the address of `status`, and its outcome goes to the null pointer, so that
`handle_request` is handed what the variable held before.

`Waeio.Scheduler.resumption` takes note of what a fiber is given and what is due to it,
and `Waeio.Scheduler.HandledRight` says that `handle_request` is called with the fiber
that was resumed and its own outcome. A resumption in the poll phase is never handled
right, one in the ready phase always is.
-/

namespace Waeio

namespace Scheduler

/-! ### Resumptions and how they are handled -/

/-- A call of `fiber_resume`. -/
structure Resumed where
  /-- The fiber. -/
  fiber : ℕ
  /-- The argument passed to the fiber, a pointer as a number. -/
  given : ℤ
  /-- The argument due to it: that stored with its closure, or `0` in the poll phase. -/
  due : ℤ
  deriving DecidableEq, Repr

/-- **The last call of `fiber_resume`**, after one more step. -/
def resumption (h : Option Resumed) (s : State) : Act → Option Resumed
  | .pop => s.frontq.nodes.head?.map fun clo => ⟨clo.fiber, clo.arg, clo.arg⟩
  | .visit address => s.nextVisit.bind fun vfd => (s.fibers vfd).map fun f => ⟨f, address, 0⟩
  | .io _ | .stop _ | .poll _ _ | .round _ | .exit _ => h

/-- What `handle_request` is called with when the running fiber stops
(`Waeio.Scheduler.stopStep`). -/
def handled (s : State) (o : Outcome) : Option (ℕ × FiberStatus × Cmd) :=
  match s.pc with
  | .running f site status _ _ => some (f, statusAfter site status o, o.payload)
  | _ => none

/-- The last call of `fiber_resume` beside the state. -/
abbrev Resuming := Option Resumed × State

/-- The address of `status` is not the null pointer. -/
def Act.Addressed : Act → Prop
  | .visit address => address ≠ 0
  | _ => True

instance : DecidablePred Act.Addressed
  | .visit address => inferInstanceAs (Decidable (address ≠ 0))
  | .pop | .io _ | .stop _ | .poll _ _ | .round _ | .exit _ => isTrue trivial

/-- **A step**, with the last call of `fiber_resume` beside the state. -/
def TrResuming (p : Resuming) (a : Act) (q : Resuming) : Prop :=
  Lts.Observed (fun h s a _ => resumption h s a) Tr p a q ∧ a.Addressed

/-- **The resumption is handled with its own outcome**: `handle_request` is called with
the fiber that was resumed, the status of this resumption and what it returned, and the
fiber was given what was due to it. -/
def HandledRight (p : Resuming) (a : Act) (_ : Resuming) : Prop :=
  ∀ o, a = .stop o →
    ∃ r ∈ p.1, handled p.2 o = some (r.fiber, o.status, o.payload) ∧ r.given = r.due

/-- **The fiber that stops was resumed in the ready phase.** -/
def InReadyPhase (p : Resuming) : Act → Prop
  | .stop _ => p.2.pc.pollStatus = none
  | _ => True

instance (p : Resuming) : DecidablePred (InReadyPhase p)
  | .stop _ => inferInstanceAs (Decidable (p.2.pc.pollStatus = none))
  | .pop | .visit _ | .io _ | .poll _ _ | .round _ | .exit _ => isTrue trivial

/-! ### The two places -/

/-- **The fiber that runs is the one resumed last**, and it was given what was due to it
exactly in the ready phase. -/
def InHand (p : Resuming) : Prop :=
  ∀ f site status keepGoing frame, p.2.pc = .running f site status keepGoing frame →
    ∃ r, p.1 = some r ∧ r.fiber = f ∧ (r.given = r.due ↔ site = .queue)

theorem inHand_of_fiber_eq_none {p : Resuming} (h : p.2.pc.fiber = none) : InHand p := by
  intro f site status keepGoing frame hpc
  rw [hpc] at h
  exact absurd h (by simp [Pc.fiber])

variable {p q : Resuming} {a : Act}

theorem InHand.step (h : InHand p) (htr : TrResuming p a q) : InHand q := by
  obtain ⟨hist, s⟩ := p
  obtain ⟨hist', t⟩ := q
  obtain ⟨⟨hstep, rfl⟩, haddr⟩ : (Tr s a t ∧ hist' = resumption hist s a) ∧ a.Addressed := htr
  cases hstep.stepped with
  | @pop status clo nodes frame hpc hnodes hlive =>
    rintro f site status keepGoing frame ⟨⟩
    exact ⟨⟨clo.fiber, clo.arg, clo.arg⟩, by simp [resumption, hnodes], rfl, by simp⟩
  | popDead | popWild => exact inHand_of_fiber_eq_none rfl
  | @visit i vfd f status keepGoing address frame hpc hnext hf hlive =>
    rintro f site status keepGoing frame ⟨⟩
    refine ⟨⟨f, address, 0⟩, by simp [resumption, State.nextVisit, hpc, hnext, hf], rfl, ?_⟩
    exact iff_of_false haddr (by simp)
  | visitStray => exact inHand_of_fiber_eq_none rfl
  | io frame' hpc =>
    rintro f site status keepGoing frame ⟨⟩
    exact h _ _ _ _ _ hpc
  | @stop f site status keepGoing answer frame o t hpc =>
    refine inHand_of_fiber_eq_none ?_
    cases site <;> cases answer <;> rfl
  | poll =>
    refine inHand_of_fiber_eq_none ?_
    dsimp only
    split_ifs <;> rfl
  | round =>
    refine inHand_of_fiber_eq_none ?_
    dsimp only
    split_ifs <;> rfl
  | exit => exact inHand_of_fiber_eq_none rfl

/-- **A resumption is handled right exactly in the ready phase.** -/
theorem InHand.handledRight_iff (h : InHand p) (htr : TrResuming p a q) :
    HandledRight p a q ↔ InReadyPhase p a := by
  obtain ⟨hist, s⟩ := p
  obtain ⟨hist', t⟩ := q
  obtain ⟨⟨hstep, rfl⟩, haddr⟩ : (Tr s a t ∧ hist' = resumption hist s a) ∧ a.Addressed := htr
  cases hstep.stepped with
  | @stop f site status keepGoing answer frame o t hpc =>
    obtain ⟨r, hr, rfl, hgiven⟩ := h _ _ _ _ _ hpc
    dsimp only at hr
    cases site with
    | queue =>
      refine iff_of_true ?_ (by simp [InReadyPhase, hpc, Pc.pollStatus])
      rintro _ ⟨⟩
      exact ⟨r, hr, by simp [handled, hpc, statusAfter], hgiven.mpr rfl⟩
    | event vfd =>
      refine iff_of_false (fun hright => ?_) (by simp [InReadyPhase, hpc, Pc.pollStatus])
      obtain ⟨r', hr', -, hgiven'⟩ := hright o rfl
      obtain rfl := Option.some.inj (hr.symm.trans hr')
      exact absurd (hgiven.mp hgiven') (by simp)
  | _ => exact iff_of_true nofun trivial

/-! ### Runs that are computed -/

/-- A step that meets the condition `C`. -/
def resuming (C : Resuming → Act → Prop) [∀ p a, Decidable (C p a)] (p : Resuming) (a : Act) :
    Option Resuming :=
  if a.Addressed ∧ C p a then (step p.2 a).map fun t => (resumption p.1 p.2 a, t) else none

theorem trResuming_of_resuming {C : Resuming → Act → Prop} [∀ p a, Decidable (C p a)]
    (h : resuming C p a = some q) : TrResuming p a q ∧ C p a := by
  obtain ⟨⟨haddr, hC⟩, hmap⟩ := Option.ite_none_right_eq_some.mp h
  obtain ⟨t, hstep, rfl⟩ := Option.map_eq_some_iff.mp hmap
  exact ⟨⟨⟨hstep, rfl⟩, haddr⟩, hC⟩

theorem steps_of_resuming {C : Resuming → Act → Prop} [∀ p a, Decidable (C p a)] {l : List Act}
    (h : q ∈ Lts.exec (resuming C) p l) : Lts.Steps (Lts.Guarded TrResuming C) p l q :=
  (Lts.exec_eq_some_iff.mp h).mono fun _ _ _ => trResuming_of_resuming

end Scheduler

open Scheduler

end Waeio
