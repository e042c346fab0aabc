import Mathlib.Data.List.Nodup
import Waeio.Scheduler.Orderly

/-!
# Fibers that are gone

The scheduler is never to resume a fiber that is not live, and never to release a
fiber twice (`Waeio.Scheduler.NoneGone`). It keeps references to fibers in two
queues and in the table `fibers`, and it clears none of them when a fiber
completes. So it takes some care from its clients, and some luck.

* The heads of the queues are not initialised: `malloc` has to return zeroed
  memory for them.
* In the poll phase `status` has to say `FIBER_OK` exactly when a fiber has
  returned, although `fiber_resume` does not set it.
* A slot can be polled from the moment it is opened, and its entry of `fibers` is
  written later, by the case `ASYNC`: no event may be reported on it before. A
  history variable keeps the slots whose entry was written since they were opened
  (`Waeio.Scheduler.attach`).
* A fiber that returns may be in no queue, and its slot has to be closed.
* `waeio_main` releases the main fiber: it must not have returned.

`Waeio.Scheduler.Careful` asks for this of every step.
-/

namespace Waeio

namespace Scheduler

/-- **No fiber that is gone** was resumed, and none was released twice. -/
structure NoneGone (s : State) : Prop where
  not_stray : s.pc ≠ .stray
  released_nodup : s.released.Nodup

/-! ### The slots a fiber was attached to -/

/-- **The attached slots after a step**: a slot is attached when its entry of
`fibers` is written, and no longer attached when it is opened. -/
def attach (A : ℕ → Bool) (s : State) (_ : Act) (t : State) : ℕ → Bool := fun v =>
  t.fibers v != s.fibers v || (A v && !(s.wfd.fds v == -1 && t.wfd.fds v != -1))

/-- The slots that are attached at the start: that of the listening socket. -/
def attachedAtStart (s : State) : ℕ → Bool := fun v => (s.fibers v).isSome

/-- The scheduler with the history variable. -/
def TrAttached : (ℕ → Bool) × State → Act → (ℕ → Bool) × State → Prop := Lts.Observed attach Tr

/-- The fiber `f` is in no queue, and no open slot belongs to it. -/
def Forgotten (s : State) (f : ℕ) : Prop :=
  (∀ clo ∈ s.queues, clo.fiber ≠ f) ∧
    ∀ v < s.wfd.capacity, s.wfd.fds v ≠ -1 → s.fibers v ≠ some f

instance (s : State) (f : ℕ) : Decidable (Forgotten s f) :=
  inferInstanceAs (Decidable ((∀ clo ∈ s.queues, _) ∧ ∀ v < s.wfd.capacity, _ → _))

/-- **The step is careful**: an event is taken from an attached slot only; in the
poll phase `status` says `FIBER_OK` if and only if the fiber has returned; a fiber
that returns is forgotten; and the main fiber has not returned when `waeio_main`
releases it. -/
def Careful (p : (ℕ → Bool) × State) : Act → Prop
  | .visit _ => ∀ v ∈ p.2.nextVisit, p.1 v = true
  | .stop o =>
    (∀ status ∈ p.2.pc.pollStatus, status = .ok ↔ o.Returns) ∧
      (o.Returns → ∀ f ∈ p.2.pc.fiber, Forgotten p.2 f)
  | .exit _ => mainfiber ∉ p.2.returned
  | _ => True

instance (p : (ℕ → Bool) × State) : DecidablePred (Careful p)
  | .visit _ => inferInstanceAs (Decidable (∀ v ∈ p.2.nextVisit, p.1 v = true))
  | .stop o => inferInstanceAs
    (Decidable ((∀ status ∈ p.2.pc.pollStatus, (status = .ok ↔ o.Returns)) ∧
      (o.Returns → ∀ f ∈ p.2.pc.fiber, Forgotten p.2 f)))
  | .exit _ => inferInstanceAs (Decidable (mainfiber ∉ p.2.returned))
  | .pop | .io _ | .poll _ _ | .round _ => isTrue trivial

variable {A : ℕ → Bool} {s t : State} {f : ℕ} {a : Act}

/-! ### The invariant -/

/-- **All references are to live fibers**: in the queues, and in the table at the
open slots that are attached. -/
structure Safe (A : ℕ → Bool) (s : State) : Prop where
  queued_live : ∀ clo ∈ s.queues, s.Live clo.fiber
  attached_live : ∀ v, A v = true → s.wfd.fds v ≠ -1 → ∃ f, s.fibers v = some f ∧ s.Live f
  released_returned : s.pc ≠ .done → ∀ f ∈ s.released, f ∈ s.returned
  released_nodup : s.released.Nodup
  front_tail : s.frontq.tail = 0
  rear_tail : s.rearq.tail = 0
  not_stray : s.pc ≠ .stray

/-- A slot that is attached after a step was so before, or its entry was written. -/
theorem attached_or_written {v : ℕ} (hA : attach A s a t v = true) :
    t.fibers v ≠ s.fibers v ∨ A v = true := by
  rw [attach, Bool.or_eq_true, bne_iff_ne, Bool.and_eq_true] at hA
  exact hA.imp_right And.left

/-- A slot that is attached and open after a step that writes no entry was so
before. -/
theorem attached_of_attach {v : ℕ} (hf : t.fibers = s.fibers) (hA : attach A s a t v = true)
    (hopen : t.wfd.fds v ≠ -1) : A v = true ∧ s.wfd.fds v ≠ -1 := by
  rw [attach, hf, bne_self_eq_false, Bool.false_or, Bool.and_eq_true] at hA
  refine ⟨hA.1, fun hclosed => ?_⟩
  simp [hclosed, hopen] at hA

theorem Safe.mono (h : Safe A s) {A' : ℕ → Bool} (hsub : ∀ v, A' v = true → A v = true) :
    Safe A' s :=
  ⟨h.queued_live, fun v hv => h.attached_live v (hsub v hv), h.released_returned,
    h.released_nodup, h.front_tail, h.rear_tail, h.not_stray⟩

/-- Where the program is does not matter, short of the end. -/
theorem Safe.setPc (h : Safe A s) (hdone : s.pc ≠ .done) {pc : Pc} (hpc : pc ≠ .stray) :
    Safe A { s with pc := pc } :=
  ⟨h.queued_live, h.attached_live, fun _ => h.released_returned hdone, h.released_nodup,
    h.front_tail, h.rear_tail, hpc⟩

theorem statusAfter_ok_iff {site : Site} {status : FiberStatus} {keepGoing : Bool} {frame : Frame}
    {o : Outcome} (hpc : s.pc = .running f site status keepGoing frame)
    (h : ∀ σ ∈ s.pc.pollStatus, σ = .ok ↔ o.Returns) :
    statusAfter site status o = .ok ↔ o.Returns := by
  cases site with
  | queue => cases o <;> simp [statusAfter, Outcome.status, Outcome.Returns]
  | event v => exact h status (by rw [hpc]; rfl)

/-! ### Fibers that stop -/

theorem ne_stray_pcAfter {site : Site} {status : FiberStatus} {keepGoing answer : Bool} :
    pcAfter site status keepGoing answer ≠ .stray := by
  cases site with
  | queue => simp [pcAfter]
  | event v => cases answer <;> simp [pcAfter]

/-- A fiber returns. -/
theorem Safe.returns (h : Safe A s) (ho : Orderly s) (hlive : s.Live f) (hdone : s.pc ≠ .done)
    (hgone : Forgotten s f) {pc : Pc} (hpc : pc ≠ .stray) :
    Safe A
      { s with
        returned := insert f s.returned
        nconns := Uint32.pred s.nconns
        released := f :: s.released
        pc := pc } := by
  have hkeep : ∀ g, s.Live g → g ≠ f → g < s.allocated ∧ g ∉ insert f s.returned :=
    fun g hg hne => ⟨hg.1, fun hmem => (Finset.mem_insert.mp hmem).elim hne hg.2⟩
  refine ⟨?_, ?_, ?_, ?_, h.front_tail, h.rear_tail, hpc⟩
  · exact fun clo hclo => hkeep _ (h.queued_live clo hclo) (hgone.1 clo hclo)
  · intro v hA hopen
    obtain ⟨g, hg, hglive⟩ := h.attached_live v hA hopen
    obtain ⟨O, hO⟩ := ho.table
    have hlt : v < s.wfd.capacity := by
      rw [hO.capacity_eq]
      exact hO.out_lt v ((hO.bound_iff v).mp hopen)
    -- no open slot names the fiber that returns
    exact ⟨g, hg, hkeep g hglive fun he => hgone.2 v hlt hopen (he ▸ hg)⟩
  · rintro - g hg
    rcases List.mem_cons.mp hg with rfl | hg
    · exact Finset.mem_insert_self _ _
    · exact Finset.mem_insert_of_mem (h.released_returned hdone g hg)
  · exact List.nodup_cons.mpr ⟨fun hmem => hlive.2 (h.released_returned hdone f hmem),
      h.released_nodup⟩

theorem Safe.pushRear (h : Safe A s) (hlive : s.Live f) (arg : ℤ) :
    Safe A (pushRear s f arg) where
  queued_live clo hclo := by
    rcases List.mem_append.mp hclo with hclo | hclo
    · exact h.queued_live clo (List.mem_append_left _ hclo)
    · rcases List.mem_cons.mp hclo with rfl | hclo
      · exact hlive
      · exact h.queued_live clo (List.mem_append_right _ hclo)
  attached_live := h.attached_live
  released_returned := h.released_returned
  released_nodup := h.released_nodup
  front_tail := h.front_tail
  rear_tail := h.rear_tail
  not_stray := h.not_stray

/-- The fiber that is made is live, and its slot is attached. -/
theorem Safe.spawn (h : Safe A s) (ho : Orderly s) (vfd : BitVec 32) :
    Safe (fun v => v == vfd.toNat || A v) (spawn s vfd) ∧
      (spawn s vfd).Live s.allocated ∧ ∀ g, s.Live g → (spawn s vfd).Live g := by
  have hchild : (Scheduler.spawn s vfd).Live s.allocated :=
    ⟨Nat.lt_succ_self _, fun hmem => Nat.lt_irrefl _ (ho.returned_lt _ hmem)⟩
  have hkeep : ∀ g, s.Live g → (Scheduler.spawn s vfd).Live g :=
    fun g hg => ⟨Nat.lt_succ_of_lt hg.1, hg.2⟩
  refine ⟨⟨?_, ?_, h.released_returned, h.released_nodup, h.front_tail, h.rear_tail,
    h.not_stray⟩, hchild, hkeep⟩
  · intro clo hclo
    rcases List.mem_append.mp hclo with hclo | hclo
    · exact hkeep _ (h.queued_live clo (List.mem_append_left _ hclo))
    · rcases List.mem_cons.mp hclo with rfl | hclo
      · exact hchild
      · exact hkeep _ (h.queued_live clo (List.mem_append_right _ hclo))
  · intro v hA hopen
    rcases eq_or_ne v vfd.toNat with rfl | hne
    · exact ⟨s.allocated, Function.update_self .., hchild⟩
    · have hA' : A v = true := by simpa [hne] using hA
      obtain ⟨g, hg, hglive⟩ := h.attached_live v hA' hopen
      exact ⟨g, (Function.update_of_ne hne ..).trans hg, hkeep g hglive⟩

/-- `handle_request` processes what a live fiber has yielded. -/
theorem Safe.handled (h : Safe A s) (ho : Orderly s) (hlive : s.Live f) {payload : Cmd}
    {status : FiberStatus} {answer : Bool} (hh : Handled s f payload status t answer)
    (hstatus : status ≠ .ok) :
    t.pc = s.pc ∧ ∃ A', Safe A' t ∧ ∀ v, t.fibers v ≠ s.fibers v ∨ A v = true → A' v = true := by
  have hsame : ∀ v, s.fibers v ≠ s.fibers v ∨ A v = true → A v = true :=
    fun v hv => hv.resolve_left (not_not.mpr rfl)
  cases hh with
  | completed => exact absurd rfl hstatus
  | noStatus | noTag | quit => exact ⟨rfl, A, h, hsame⟩
  | suspended => exact ⟨rfl, A, h.pushRear hlive 0, hsame⟩
  | registered b =>
    exact ⟨rfl, A, ⟨h.queued_live, h.attached_live, h.released_returned, h.released_nodup,
      h.front_tail, h.rear_tail, h.not_stray⟩, hsame⟩
  | spawned htag hlt =>
    obtain ⟨hspawn, -, hkeep⟩ := h.spawn ho payload.arg
    refine ⟨rfl, _, hspawn.pushRear (hkeep f hlive) 0, fun v hv => ?_⟩
    rcases eq_or_ne v payload.arg.toNat with rfl | hne
    · simp
    · have hold : (Scheduler.pushRear (Scheduler.spawn s payload.arg) f 0).fibers v = s.fibers v :=
        Function.update_of_ne hne ..
      simp [hv.resolve_left (not_not.mpr hold)]

/-! ### A careful step is safe -/

theorem Safe.recordStop (h : Safe A s) {o : Outcome} (hr : ¬o.Returns) :
    Safe A (recordStop s f o) := by
  cases o with
  | returns memory => exact absurd trivial hr
  | yields | fails =>
    exact ⟨h.queued_live, h.attached_live, h.released_returned, h.released_nodup, h.front_tail,
      h.rear_tail, h.not_stray⟩

theorem recordStop_live {o : Outcome} (hr : ¬o.Returns) (hlive : s.Live f) :
    (recordStop s f o).Live f := by
  cases o with
  | returns memory => exact absurd trivial hr
  | yields | fails => exact hlive

theorem recordStop_fibers (s : State) (f : ℕ) (o : Outcome) :
    (recordStop s f o).fibers = s.fibers := by
  cases o <;> rfl

/-- The step that stops a fiber. -/
theorem Safe.stop (h : Safe A s) (ho : Orderly s) (hlive : s.Live f) {site : Site}
    {status : FiberStatus} {keepGoing answer : Bool} {frame : Frame} {o : Outcome} {pc : Pc}
    (hpc : s.pc = .running f site status keepGoing frame) (hc : Careful (A, s) (.stop o))
    (hh : Handled (Scheduler.recordStop s f o) f o.payload (statusAfter site status o) t answer)
    (hpc' : pc ≠ .stray) :
    Safe (attach A s (.stop o) { t with pc := pc }) { t with pc := pc } := by
  have hdone : s.pc ≠ .done := by simp [hpc]
  have hstatus := statusAfter_ok_iff hpc hc.1
  by_cases hr : o.Returns
  · have hgone := hc.2 hr f (by rw [hpc]; rfl)
    rw [hstatus.mpr hr] at hh
    cases o with
    | yields | fails => exact absurd hr id
    | returns memory =>
      cases hh with
      | completed =>
        refine (h.returns ho hlive hdone hgone hpc').mono fun v hv => ?_
        have hwritten := attached_or_written (s := s) (a := .stop (.returns memory)) hv
        exact hwritten.resolve_left (not_not.mpr rfl)
  · have hlive' := recordStop_live hr hlive
    obtain ⟨htpc, A', hA', hsub⟩ := (h.recordStop hr).handled (ho.recordStop hlive.1 o) hlive' hh
      (mt hstatus.mp hr)
    rw [recordStop_fibers] at hsub
    have hdone' : t.pc ≠ .done := by rwa [htpc, recordStop_pc]
    exact (hA'.setPc hdone' hpc').mono fun v hv =>
      hsub v (attached_or_written (s := s) (a := .stop o) hv)

/-- **A careful step keeps all references to live fibers.** -/
theorem Safe.step (h : Safe A s) (ho : Orderly s) (hrun : RunningLive s) (htr : Tr s a t)
    (hc : Careful (A, s) a) : Safe (attach A s a t) t := by
  have hwritten : ∀ v, attach A s a t v = true → t.fibers v ≠ s.fibers v ∨ A v = true :=
    fun v => attached_or_written
  have hattached : t.fibers = s.fibers → ∀ v, attach A s a t v = true → t.wfd.fds v ≠ -1 →
      A v = true ∧ s.wfd.fds v ≠ -1 :=
    fun hf v => attached_of_attach hf
  cases htr.stepped with
  | pop frame hpc hnodes hlive =>
    -- the closure popped leaves the queues, and the others stay
    refine ⟨fun clo hclo => ?_, fun v hv hopen => ?_, fun _ => ?_, h.released_nodup, h.front_tail,
      h.rear_tail, by simp⟩
    · refine h.queued_live clo ?_
      rw [State.queues, hnodes]
      exact List.mem_cons_of_mem _ hclo
    · exact h.attached_live v (hattached rfl v hv hopen).1 hopen
    · exact h.released_returned (by simp [hpc])
  | popDead hpc hnodes hdead =>
    refine absurd (h.queued_live _ ?_) hdead
    rw [State.queues, hnodes]
    exact List.mem_cons_self
  | popWild hpc hnodes htail => exact absurd h.front_tail htail
  | visit frame hpc hnext hf hlive =>
    refine (h.setPc (by simp [hpc]) (by simp)).mono fun v hv => ?_
    exact (hwritten v hv).resolve_left (not_not.mpr rfl)
  | @visitStray i v status keepGoing address hpc hnext hstray =>
    -- a slot that is attached and open has a live fiber
    have hA : A v = true := hc v (by rw [State.nextVisit, hpc]; exact hnext)
    obtain ⟨O, hO⟩ := ho.table
    have hopen : s.wfd.fds v ≠ -1 := by
      rw [← hO.sync]
      exact fd_ne_of_nextEvent hnext
    obtain ⟨f, hf, hlive⟩ := h.attached_live v hA hopen
    exact absurd hlive (hstray f hf)
  | io frame' hpc hop =>
    refine ⟨h.queued_live, fun v hv hopen => ?_, fun _ => ?_, h.released_nodup, h.front_tail,
      h.rear_tail, by simp⟩
    · obtain ⟨hA, hopen'⟩ := hattached rfl v hv hopen
      exact h.attached_live v hA hopen'
    · exact h.released_returned (by simp [hpc])
  | stop hpc hmay hh => exact h.stop ho (hrun _ _ _ _ _ hpc) hpc hc hh ne_stray_pcAfter
  | poll hpc hend =>
    refine ⟨fun clo hclo => ?_, fun v hv hopen => ?_, fun _ => ?_, h.released_nodup, h.rear_tail,
      h.front_tail, ?_⟩
    · exact h.queued_live clo ((List.perm_append_comm ..).subset hclo)
    · exact h.attached_live v (hattached rfl v hv hopen).1 hopen
    · exact h.released_returned (by simp [hpc])
    · dsimp only
      split_ifs <;> simp
  | round hpc hnext =>
    refine (h.setPc (by simp [hpc]) ?_).mono fun v hv => ?_
    · split_ifs <;> simp
    · exact (hwritten v hv).resolve_left (not_not.mpr rfl)
  | exit hpc hop =>
    refine ⟨h.queued_live, fun v hv hopen => ?_, fun hcon => absurd rfl hcon, ?_, h.front_tail,
      h.rear_tail, by simp⟩
    · obtain ⟨hA, hopen'⟩ := hattached rfl v hv hopen
      exact h.attached_live v hA hopen'
    · -- a main fiber that was released before has returned
      refine List.nodup_cons.mpr ⟨fun hmem => hc ?_, h.released_nodup⟩
      exact h.released_returned (by simp [hpc]) _ hmem

theorem safe_start {e : Start} (h : waeioMain e = some s) (hfront : e.frontHead = 0)
    (hrear : e.rearHead = 0) : Safe (attachedAtStart s) s := by
  obtain ⟨wfd₀, wfd, r, v, hinit, htr, -, -, rfl⟩ := waeioMain_cases h
  refine ⟨?_, ?_, by simp, List.nodup_nil, hfront, hrear, by simp⟩
  · intro clo hclo
    obtain rfl : clo = ⟨mainfiber, e.address⟩ := by simpa [State.queues] using hclo
    exact ⟨Nat.one_pos, by simp⟩
  · intro u hA hopen
    obtain ⟨f, hf⟩ := Option.isSome_iff_exists.mp hA
    refine ⟨f, hf, ?_⟩
    dsimp only at hf
    rcases eq_some_of_update hf with ⟨-, rfl⟩ | ⟨-, hnone⟩
    · exact ⟨Nat.one_pos, by simp⟩
    · exact absurd hnone (by simp)

end Scheduler

open Scheduler

/-- **No fiber that is gone is resumed, and none is released twice**, in a run from
zeroed queue heads whose steps are all careful. -/
theorem noneGone_of_careful (e : Scheduler.Start) (hfront : e.frontHead = 0)
    (hrear : e.rearHead = 0) (s₀ s : Scheduler.State) (h : waeioMain e = some s₀)
    (A : ℕ → Bool) (l : List Act)
    (hl : Lts.Steps (Lts.Guarded TrAttached Careful) (attachedAtStart s₀, s₀) l (A, s)) :
    NoneGone s := by
  have hinv : Safe A s ∧ Orderly s ∧ RunningLive s := by
    refine hl.invariant (P := fun p => Safe p.1 p.2 ∧ Orderly p.2 ∧ RunningLive p.2) ?_
      ⟨safe_start h hfront hrear, orderly_start h, runningLive_start h⟩
    rintro ⟨A, s⟩ a ⟨A', t⟩ ⟨hsafe, ho, hrun⟩ ⟨⟨htr, hA⟩, hc⟩
    obtain rfl : A' = attach A s a t := hA
    exact ⟨hsafe.step ho hrun htr hc, ho.step htr, hrun.step htr⟩
  exact ⟨hinv.1.not_stray, hinv.1.released_nodup⟩

/-- The first connection is careful: its slot is attached before it is polled. -/
theorem noneGone_of_careful_firstConnection :
    ∃ s, Scheduler.Run .clean firstConnection s ∧ NoneGone s := by
  let carefully (p : (ℕ → Bool) × Scheduler.State) (a : Act) :=
    (step p.2 a).map fun t => (attach p.1 p.2 a t, t)
  obtain ⟨s₀, hstart, p, hp⟩ : ∃ s₀ ∈ waeioMain .clean,
      ∃ p ∈ Lts.exec (fun p a => if Careful p a then carefully p a else none)
        (attachedAtStart s₀, s₀) firstConnection, p.1 1 = true := by
    decide +kernel
  have hsteps : Lts.Steps (Lts.Guarded TrAttached Careful) (attachedAtStart s₀, s₀)
      firstConnection p := by
    refine (Lts.guarded_of_exec hp.1).mono ?_
    rintro p a q ⟨hstep, hc⟩
    obtain ⟨t, ht, rfl⟩ := Option.map_eq_some_iff.mp hstep
    exact ⟨⟨ht, rfl⟩, hc⟩
  exact ⟨p.2, ⟨s₀, hstart, hsteps.of_guarded.of_observed⟩,
    noneGone_of_careful .clean rfl rfl s₀ p.2 hstart p.1 firstConnection hsteps⟩

/-- The first connection is served by a fiber that returns and leaves its slot
open; then the client hangs up. -/
def hangUpAfterReturn : List Act :=
  firstConnection ++ [.round .other, .poll (eventOn 0 0) ⟨0, 0⟩, .round .other, .pop,
    .stop (.yields (.accept 0) 0), .pop, .stop (.returns ⟨none, 0, 0⟩),
    .poll (eventOn 1 POLLHUP) ⟨1, 0⟩, .visit 4096]

/-- The listener returns, the poll fails, and `waeio_main` cleans up. -/
def listenerReturns : List Act :=
  [.pop, .stop (.returns ⟨none, 0, 0⟩), .poll (eventOn 0 0) ⟨-1, 4⟩, .exit ⟨0, 0⟩]

/-- **A fiber that has returned is resumed**, and **the main fiber is released
twice**. -/
theorem not_noneGone_hangUp_listenerReturns :
    (∃ s, Scheduler.Run .clean hangUpAfterReturn s ∧ s.pc = .stray ∧ ¬NoneGone s) ∧
      ∃ s, Scheduler.Run .clean listenerReturns s ∧ s.released = [mainfiber, mainfiber] ∧
        ¬NoneGone s := by
  constructor
  · obtain ⟨s, hs, hpc⟩ : ∃ s ∈ after hangUpAfterReturn, s.pc = .stray := by decide +kernel
    exact ⟨s, run_of_after hs, hpc, fun h => h.not_stray hpc⟩
  · obtain ⟨s, hs, hrel⟩ : ∃ s ∈ after listenerReturns, s.released = [mainfiber, mainfiber] := by
      decide +kernel
    refine ⟨s, run_of_after hs, hrel, fun h => ?_⟩
    have hnodup := h.released_nodup
    rw [hrel] at hnodup
    exact absurd hnodup (by simp)

end Waeio
