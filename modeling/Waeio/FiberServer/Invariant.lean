import Waeio.FiberServer.Order

/-!
# The right fiber with the right descriptor

`Waeio.FiberServer.Inv` is what holds at each point of the program: between two
resumptions no fiber runs, and during one only the fiber of the entry the program has
come to. There is one lemma for each part of the program that a step runs, and
`Waeio.FiberServer.Inv.step` puts them together.

So what `main` resumes is alive (`Waeio.fiberServer_resumes`).
-/

namespace Waeio

namespace FiberServer

open HostPoll
open Http (Call Answer Label Site Pc Frame Parser)

variable {created : List ℤ} {frames : ℕ → Frame} {T : Table} {s t : Program} {n i f : ℕ}
  {fd : ℤ} {site : Site} {phr : Parser}

/-! ### The invariant -/

/-- No fiber runs. -/
def Quiet (frames : ℕ → Frame) : Prop := ∀ g, frames g ≠ .running

/-- **At a call of `fiber_resume`**, or in it: the entry is in order, and `fd` is set. -/
def AtSite (created : List ℤ) (frames : ℕ → Frame) (T : Table) (n : ℕ) (fd : ℤ) : Site → Prop
  | .sweep i => InSweep created frames T n i False ∧ i < n ∧ fd = (T.cell i).fd ∧
      fd ≠ FIBER_KILL_SIGNAL
  | .kill i => InOrderFrom created frames T i ∧ i < T.length ∧ fd = FIBER_KILL_SIGNAL

/-- **In the fiber `f`**, which is that of the entry and runs alone. -/
structure InFiber (created : List ℤ) (frames : ℕ → Frame) (T : Table) (n : ℕ) (fd : ℤ)
    (site : Site) (f : ℕ) : Prop where
  atSite : AtSite created frames T n fd site
  fiber_eq : (T.cell site.index).closure.fiber = f
  runs : frames f = .running
  alone : ∀ g, frames g = .running → g = f

/-- **The invariant**, by the point the program is at. -/
def Inv (created : List ℤ) (s : Program) : Prop :=
  match s.pc with
  | .listen => s.srv.wfd.capacity = MAX_CONNECTIONS ∧ s.srv.wfd.length = 0 ∧ created = [] ∧
      s.srv.allocated = 0 ∧ Quiet s.frames ∧ ∀ g, s.frames g = .fresh
  | .poll => InOrderFrom created s.frames s.srv.table 0 ∧ Quiet s.frames
  | .sweep i => InSweep created s.frames s.srv.table s.pollfdSize i False ∧ Quiet s.frames
  | .resume site => AtSite created s.frames s.srv.table s.pollfdSize s.srv.fd site ∧ Quiet s.frames
  | .accept site f => InFiber created s.frames s.srv.table s.pollfdSize s.srv.fd site f ∧
      f = listenerFiber ∧ site = .sweep 0 ∧ s.srv.wfd.length < MAX_CONNECTIONS
  | .recv site f | .send site f _ =>
      InFiber created s.frames s.srv.table s.pollfdSize s.srv.fd site f
  | .closeDone i _ _ => InSweep created s.frames s.srv.table s.pollfdSize i True ∧
      i < s.pollfdSize ∧ Quiet s.frames
  | .kill i => InOrderFrom created s.frames s.srv.table i ∧ Quiet s.frames
  | .closeKill i => InOrderFrom created s.frames s.srv.table (i + 1) ∧ i < s.srv.wfd.length ∧
      Quiet s.frames
  | .exited | .aborted => Sized created s.srv.table
  | .stray => False

/-! ### The entry at a call of `fiber_resume` -/

theorem AtSite.entryOk (h : AtSite created frames T n fd site) :
    EntryOk created frames site.index (T.cell site.index) := by
  cases site with
  | sweep i => exact h.1.entryOk h.2.1
  | kill i => exact h.1.entryOk h.2.1

theorem AtSite.sized (h : AtSite created frames T n fd site) : Sized created T := by
  cases site with
  | sweep i => exact h.1.toSized
  | kill i => exact h.1.toSized

/-- A fiber that stays alive. -/
theorem AtSite.setAlive (h : AtSite created frames T n fd site) {frame : Frame}
    (hframe : Alive frame) :
    AtSite created (Function.update frames f frame) T n fd site := by
  cases site with
  | sweep i =>
    obtain ⟨hsweep, hrest⟩ := h
    exact ⟨⟨hsweep.toSized, hsweep.size_le, hsweep.le, hsweep.ahead, hsweep.flag,
      hsweep.order.setAlive hframe⟩, hrest⟩
  | kill i =>
    obtain ⟨hfrom, hrest⟩ := h
    exact ⟨⟨hfrom.toSized, hfrom.noHole, hfrom.order.setAlive hframe⟩, hrest⟩

/-- The listener is resumed by the sweep as the first entry. -/
theorem InFiber.site_eq (h : InFiber created frames T n fd site listenerFiber)
    (hfd : fd ≠ FIBER_KILL_SIGNAL) : site = .sweep 0 := by
  have hzero := h.atSite.entryOk.listener h.fiber_eq
  cases site with
  | sweep i => exact congrArg Site.sweep hzero
  | kill i => exact absurd h.atSite.2.2 hfd

/-- When the fiber stops, none runs. -/
theorem InFiber.quiet (h : InFiber created frames T n fd site f) {frame : Frame}
    (hframe : frame ≠ .running) : Quiet (Function.update frames f frame) := by
  intro g
  rcases eq_or_ne g f with rfl | hne
  · rwa [Function.update_self]
  · rw [Function.update_of_ne hne]
    exact fun hg => hne (h.alone g hg)

/-! ### Back in `main` -/

theorem inv_nextRound (h : InOrderFrom created s.frames s.srv.table 0) (hq : Quiet s.frames) :
    Inv created (nextRound s) := by
  rw [nextRound]
  split_ifs
  · exact ⟨h, hq⟩
  · exact ⟨⟨⟨h.capacity_eq, h.length_le, h.created_eq⟩, h.noHole, h.order⟩, hq⟩

theorem inv_sweepEnd (h : InSweep created s.frames s.srv.table n i False) (hq : Quiet s.frames) :
    Inv created (sweepEnd s) := by
  have hdone := h.done
  rw [sweepEnd]
  split_ifs at hdone ⊢
  · exact inv_nextRound hdone hq
  · exact inv_nextRound hdone hq

/-- The fiber yields. -/
theorem inv_yields (h : InFiber created s.frames s.srv.table s.pollfdSize s.srv.fd site f)
    {frame : Frame} (hframe : frame.Resumable) : Inv created (yields site f frame s) := by
  have halive : Alive frame := by
    rcases hframe with rfl | rfl | rfl <;> exact ⟨nofun, nofun⟩
  have hq : Quiet (Function.update s.frames f frame) :=
    h.quiet (by rcases hframe with rfl | rfl | rfl <;> exact nofun)
  have hsite := h.atSite.setAlive (f := f) halive
  cases site with
  | sweep i => exact ⟨hsite.1.visited hsite.2.1 (visited_yield s.srv i), hq⟩
  | kill i => exact ⟨hsite.1.succ, hsite.2.1, hq⟩

/-- **The fiber is done for**, having returned or failed. -/
theorem inv_back_done {status : Scheduler.FiberStatus} (hstatus : status ≠ .yield)
    (h : AtSite created s.frames s.srv.table s.pollfdSize s.srv.fd site)
    (hfiber : (s.srv.cell site.index).closure.fiber = f)
    (hq : Quiet (Function.update s.frames f .finished)) :
    Inv created (back status (s.setFrame f .finished) site) := by
  subst hfiber
  cases site with
  | sweep i =>
    have hframes : ∀ g ≠ (s.srv.cell i).closure.fiber,
        ((s.setFrame (s.srv.cell i).closure.fiber .finished).setFrame
          (s.srv.cell i).closure.fiber .freed).frames g = s.frames g := by
      intro g hg
      simp [Program.setFrame, hg]
    have hquiet : Quiet ((s.setFrame (s.srv.cell i).closure.fiber .finished).setFrame
        (s.srv.cell i).closure.fiber .freed).frames := by
      intro g
      rcases eq_or_ne g (s.srv.cell i).closure.fiber with rfl | hne
      · simp [Program.setFrame]
      · simpa [Program.setFrame, hne, Site.index] using hq g
    have hsweep := h.1.without h.2.1 hframes
    cases status with
    | yield => exact absurd rfl hstatus
    | ok | error | other => exact ⟨hsweep, h.2.1, hquiet⟩
  | kill i =>
    refine ⟨h.1.without h.2.1 fun g hg => ?_, h.2.1, hq⟩
    exact Function.update_of_ne hg _ _

theorem inv_returns (h : InFiber created s.frames s.srv.table s.pollfdSize s.srv.fd site f) :
    Inv created (returns site f s) :=
  inv_back_done nofun h.atSite h.fiber_eq (h.quiet nofun)

/-! ### The listener -/

theorem inv_awaitSpace
    (h : InFiber created s.frames s.srv.table s.pollfdSize s.srv.fd site listenerFiber)
    (hfd : s.srv.fd ≠ FIBER_KILL_SIGNAL) : Inv created (awaitSpace site listenerFiber s) := by
  have hsized := h.atSite.sized
  rw [awaitSpace]
  split_ifs with hfull
  · exact inv_yields h (Or.inr (Or.inl rfl))
  · refine ⟨h, rfl, h.site_eq hfd, lt_of_le_of_ne hsized.length_le fun heq => hfull ?_⟩
    exact heq.trans hsized.capacity_eq.symm

theorem inv_listenerLoop
    (h : InFiber created s.frames s.srv.table s.pollfdSize s.srv.fd site listenerFiber) :
    Inv created (listenerLoop site listenerFiber s) := by
  rw [listenerLoop]
  split_ifs with hfd
  · exact inv_returns h
  · exact inv_awaitSpace h hfd

theorem inv_acceptMore
    (h : InFiber created s.frames s.srv.table s.pollfdSize s.srv.fd site listenerFiber)
    (hfd : s.srv.fd ≠ FIBER_KILL_SIGNAL) : Inv created (acceptMore site listenerFiber s) := by
  rw [acceptMore]
  split_ifs with hmore
  · exact ⟨h, rfl, h.site_eq hfd, lt_of_lt_of_eq hmore.1 h.atSite.sized.capacity_eq⟩
  · exact inv_listenerLoop h

theorem inv_enterListener
    (h : InFiber created s.frames s.srv.table s.pollfdSize s.srv.fd site listenerFiber)
    (frame : Frame) : Inv created (enterListener site listenerFiber frame s) := by
  unfold enterListener
  split
  · exact inv_listenerLoop h
  · split_ifs with hfd
    · exact inv_returns h
    · exact inv_awaitSpace h hfd
  · split_ifs with hfd
    · exact inv_returns h
    · exact inv_acceptMore h hfd

/-! ### The fiber of a connection -/

theorem inv_enterConnection
    (h : InFiber created s.frames s.srv.table s.pollfdSize s.srv.fd site f) (frame : Frame) :
    Inv created (enterConnection site f frame s) := by
  unfold enterConnection
  split
  · exact h
  · split_ifs
    · exact inv_returns h
    · exact h

theorem inv_respond (h : InFiber created s.frames s.srv.table s.pollfdSize s.srv.fd site f)
    (now : Http.Tm) : Inv created (respond phr now site f s) := by
  rw [respond]
  obtain ⟨globals, quit, _ | rc⟩ := Http.answer phr now s.globals
  · exact inv_returns h
  · exact h

/-! ### The steps of `main` -/

/-- A step that neither calls the host nor resumes a fiber. -/
theorem Inv.tauStep (h : Inv created s) (hstep : tauStep s = some t) : Inv created t := by
  rw [FiberServer.tauStep] at hstep
  split at hstep
  · rename_i i hpc
    rw [Inv, hpc] at h
    obtain ⟨hsweep, hq⟩ := h
    dsimp only at hstep
    split_ifs at hstep with hi
    · -- nothing is reported for the entry
      obtain rfl := Option.some.inj hstep
      exact ⟨hsweep.visited hi (visited_idle i (b := s.srv.endServer)), hq⟩
    · -- the entry hangs up
      obtain rfl := Option.some.inj hstep
      have hframes : ∀ g ≠ (s.srv.cell i).closure.fiber,
          (s.setFrame (s.srv.fibers i).fiber .freed).frames g = s.frames g :=
        fun g hg => Function.update_of_ne hg _ _
      refine ⟨(hsweep.without hi hframes).visited hi (visited_hangUp s.srv i), fun g => ?_⟩
      rcases eq_or_ne g (s.srv.fibers i).fiber with rfl | hne
      · simp [Program.setFrame]
      · simpa [Program.setFrame, hne] using hq g
    · obtain rfl := Option.some.inj hstep
      exact inv_sweepEnd (s := { s with srv := { s.srv with endServer := true } }) hsweep hq
    · -- the fiber is to be resumed
      rename_i hfour
      obtain rfl := Option.some.inj hstep
      refine ⟨⟨hsweep, hi, rfl, fun heq => ?_⟩, hq⟩
      rw [show (s.srv.wfd.fds i).fd = FIBER_KILL_SIGNAL from heq, FIBER_KILL_SIGNAL] at hfour
      omega
    · obtain rfl := Option.some.inj hstep
      exact hsweep.toSized
    · obtain rfl := Option.some.inj hstep
      exact inv_sweepEnd hsweep hq
  · rename_i i hpc
    rw [Inv, hpc] at h
    obtain ⟨hfrom, hq⟩ := h
    split_ifs at hstep with hi hhole <;> obtain rfl := Option.some.inj hstep
    · exact ⟨hfrom.succ, hq⟩
    · exact ⟨⟨hfrom, hi, rfl⟩, hq⟩
    · exact hfrom.toSized
  · cases hstep

/-- **What `main` resumes is alive.** -/
theorem AtSite.live (h : AtSite created s.frames s.srv.table n fd site) (hq : Quiet s.frames) :
    s.Live (s.srv.fibers site.index).fiber := by
  have hok := h.entryOk
  refine ⟨hok.pos, hok.fiber_le.trans h.sized.created_eq.le, ?_⟩
  have halive := hok.alive
  have hrun := hq (s.srv.fibers site.index).fiber
  change Alive (s.frames (s.srv.fibers site.index).fiber) at halive
  cases hframe : s.frames (s.srv.fibers site.index).fiber with
  | fresh => exact Or.inl rfl
  | full => exact Or.inr (Or.inl rfl)
  | again => exact Or.inr (Or.inr rfl)
  | running => exact absurd hframe hrun
  | finished => exact absurd hframe halive.1
  | freed => exact absurd hframe halive.2

/-- `fiber_resume`. -/
theorem Inv.resumeStep (h : Inv created s) {resumed : Bool}
    (hstep : resumeStep s f fd resumed = some t) : Inv created t := by
  rw [FiberServer.resumeStep] at hstep
  split at hstep
  swap
  · cases hstep
  rename_i site hpc
  rw [Inv, hpc] at h
  obtain ⟨hsite, hq⟩ := h
  rw [Option.ite_none_right_eq_some] at hstep
  obtain ⟨⟨rfl, -⟩, hstep⟩ := hstep
  dsimp only at hstep
  have hlive : Program.Live
      { s with srv := s.srv.emit (.resume (s.srv.fibers site.index).fiber fd) }
      (s.srv.fibers site.index).fiber := hsite.live hq
  rw [if_pos hlive] at hstep
  have hruns : InFiber created (Function.update s.frames (s.srv.fibers site.index).fiber .running)
      s.srv.table s.pollfdSize s.srv.fd site (s.srv.fibers site.index).fiber := by
    have halive : Alive .running := ⟨by rintro ⟨⟩, by rintro ⟨⟩⟩
    refine ⟨hsite.setAlive halive, rfl, Function.update_self _ _ _, fun g hg => ?_⟩
    by_contra hne
    exact hq g ((Function.update_of_ne hne _ _).symm.trans hg)
  cases resumed with
  | true =>
    rw [if_pos rfl] at hstep
    obtain rfl := Option.some.inj hstep
    split_ifs with hlisten
    · rw [hlisten] at hruns ⊢
      exact inv_enterListener hruns _
    · exact inv_enterConnection hruns _
  | false =>
    rw [if_neg Bool.false_ne_true] at hstep
    obtain rfl := Option.some.inj hstep
    refine inv_back_done (by rintro ⟨⟩) hsite rfl fun g => ?_
    rcases eq_or_ne g (s.srv.fibers site.index).fiber with rfl | hne
    · simp
    · simpa [hne] using hq g

/-! ### The answers of the host -/

/-- A step that opens no descriptor. -/
theorem addDescriptor_of_none {a : Label} (h : newDescriptor a = none) :
    addDescriptor created a = created := by
  rw [addDescriptor, h]
  exact List.append_nil _

/-- A step that opens the descriptor `fd`. -/
theorem addDescriptor_of_some {a : Label} (h : newDescriptor a = some fd) :
    addDescriptor created a = created ++ [fd] := by
  rw [addDescriptor, h]
  rfl

theorem inv_listened (hpc : s.pc = .listen) (h : Inv created s) (a : Answer) (port backlog : ℤ) :
    Inv (addDescriptor created (.call (.listen port backlog) a)) (listened s a) := by
  rw [Inv, hpc] at h
  obtain ⟨hcap, hlen, rfl, halloc, hq, hfresh⟩ := h
  have hlt : s.srv.wfd.length < s.srv.wfd.capacity := by
    rw [hlen, hcap]
    decide
  have hcaplt : s.srv.wfd.capacity < 2 ^ 32 := hcap ▸ MAX_CONNECTIONS_lt
  by_cases hneg : a.ret < 0
  · rw [addDescriptor_of_none (a := .call (.listen port backlog) a)
      (if_neg (not_le.mpr hneg)), listened,
      wasioListen_of_neg hlt _ _ hneg]
    have hsized : Sized [] s.srv.table := ⟨hcap, by simp [Server.table, hlen], halloc.symm⟩
    cases translateError a.errno <;> exact hsized
  · have hnonneg : 0 ≤ a.ret := not_lt.mp hneg
    rw [addDescriptor_of_some (a := .call (.listen port backlog) a)
      (if_pos hnonneg), listened, wasioListen_of_nonneg hlt hcaplt _ _ hneg,
      hlen]
    -- the listener is appended to the empty table
    have horder : Orderly ([] ++ [a.ret]) s.frames
        (Function.update s.srv.cell 0 ⟨a.ret, ⟨listenerFiber, a.ret⟩⟩) fun k => False ∨ k = 0 :=
      Orderly.append ⟨by rintro _ ⟨⟩, by rintro _ _ ⟨⟩⟩ (fun _ => rfl)
        (by rw [hfresh]; exact ⟨by rintro ⟨⟩, by rintro ⟨⟩⟩)
    have hcell : ∀ k, Entry.mk (Function.update s.srv.wfd.fds 0 (opened a.ret) k).fd
        (Function.update s.srv.fibers 0 ⟨listenerFiber, a.ret⟩ k) =
          Function.update s.srv.cell 0 ⟨a.ret, ⟨listenerFiber, a.ret⟩⟩ k := by
      intro k
      rcases eq_or_ne k 0 with rfl | hne
      · simp [opened]
      · simp [Server.cell, hne]
    refine inv_nextRound
      ⟨⟨hcap, (by decide : 0 + 1 ≤ MAX_CONNECTIONS), rfl⟩, fun k _ hk => ?_, ?_⟩ hq
    · obtain rfl : k = 0 := Nat.lt_one_iff.mp hk
      show Entry.isHole (Entry.mk _ _) = false
      rw [hcell, Function.update_self]
      refine decide_eq_false fun heq => ?_
      rw [show a.ret = -1 from heq] at hnonneg
      omega
    · refine horder.mono (fun k hk _ => ⟨Or.inr (Nat.lt_one_iff.mp hk.2), hcell k⟩) ?_
      exact fun _ _ _ halive => halive

theorem inv_polled (hpc : s.pc = .poll) (h : Inv created s) (a : Answer) :
    Inv created (polled s a) := by
  rw [Inv, hpc] at h
  obtain ⟨hfrom, hq⟩ := h
  rw [polled, wasioPoll]
  by_cases hneg : a.ret < 0
  · rw [if_pos hneg]
    have hround := inv_nextRound
      (s := { s with srv := s.srv.emit (.call (.poll s.srv.wfd.length timeout)) }) hfrom hq
    cases translateError a.errno <;> exact hround
  · rw [if_neg hneg]
    dsimp only
    have hcell : ∀ k, (if k < s.srv.wfd.length then
        { s.srv.wfd.fds k with revents := a.revents k } else s.srv.wfd.fds k).fd =
          (s.srv.wfd.fds k).fd := by
      intro k
      split_ifs <;> rfl
    have hfrom' : InOrderFrom created s.frames
        ⟨fun k => ⟨(if k < s.srv.wfd.length then
          { s.srv.wfd.fds k with revents := a.revents k } else s.srv.wfd.fds k).fd, s.srv.fibers k⟩,
          s.srv.wfd.length, s.srv.wfd.capacity, s.srv.allocated, s.srv.compressPollfd⟩ 0 := by
      simp only [hcell]
      exact hfrom
    split_ifs
    · exact inv_nextRound hfrom' hq
    · exact ⟨hfrom'.inSweep, hq⟩

theorem inv_accepted (hpc : s.pc = .accept site f) (h : Inv created s) (a : Answer) (vfd : ℤ) :
    Inv (addDescriptor created (.call (.accept vfd) a)) (accepted s site f a) := by
  rw [Inv, hpc] at h
  obtain ⟨hfiber, rfl, rfl, hlt⟩ := h
  obtain ⟨hsweep, hn, hfd, hkill⟩ := hfiber.atSite
  have hcap : s.srv.wfd.capacity = MAX_CONNECTIONS := hsweep.capacity_eq
  have hlt' : s.srv.wfd.length < s.srv.wfd.capacity := hlt.trans_eq hcap.symm
  have hcaplt : s.srv.wfd.capacity < 2 ^ 32 := hcap ▸ MAX_CONNECTIONS_lt
  by_cases hneg : a.ret < 0
  · rw [addDescriptor_of_none (a := .call (.accept vfd) a)
      (if_neg (not_le.mpr hneg)), accepted,
      wasioAccept_of_neg hlt' _ hneg]
    have hyields : Inv created (yields (.sweep 0) listenerFiber .again
        { s with srv := s.srv.emit (.call (.accept s.srv.fd)) }) :=
      inv_yields (s := { s with srv := s.srv.emit (.call (.accept s.srv.fd)) }) hfiber
        (Or.inr (Or.inr rfl))
    have hreturns := inv_returns (s := { s with srv := { s.srv.emit (.call (.accept s.srv.fd)) with
      endServer := true } }) hfiber
    rw [translateError]
    split_ifs
    · exact hyields
    · exact hreturns
  · have hnonneg : 0 ≤ a.ret := not_lt.mp hneg
    have hpred : Uint32.pred (s.srv.wfd.length + 1) = s.srv.wfd.length :=
      Uint32.pred_of_pos (Nat.succ_pos _)
    have hcreated : created ≠ [] := by
      rintro rfl
      exact absurd (hsweep.entryOk hn).created_eq (by simp)
    have hsweep' := hsweep.accepted hlt hnonneg hcreated
    rw [addDescriptor_of_some (a := .call (.accept vfd) a)
      (if_pos hnonneg), accepted,
      wasioAccept_of_nonneg hlt' hcaplt _ hneg]
    dsimp only
    rw [hpred]
    -- the entry of the listener is another one, and so is its fiber
    have hne : (0 : ℕ) ≠ s.srv.wfd.length := by
      have hle : s.pollfdSize ≤ s.srv.wfd.length + 0 := hsweep.le
      omega
    have hzero : (s.srv.accepted a.ret).cell 0 = s.srv.cell 0 := by
      rw [cell_accepted, Function.update_of_ne hne]
    have halloc : listenerFiber ≠ s.srv.allocated + 1 := by
      have hle := (hsweep.entryOk hn).fiber_le.trans hsweep.created_eq.le
      rw [show (s.srv.table.cell 0).closure.fiber = listenerFiber from hfiber.fiber_eq] at hle
      change listenerFiber ≤ s.srv.allocated at hle
      omega
    have hfiber' : InFiber (created ++ [a.ret])
        (Function.update s.frames (s.srv.allocated + 1) .fresh) (s.srv.accepted a.ret).table
        s.pollfdSize s.srv.fd (.sweep 0) listenerFiber := by
      refine ⟨⟨hsweep', hn, ?_, hkill⟩, ?_, ?_, fun g hg => ?_⟩
      · exact hfd.trans (congrArg Entry.fd hzero.symm)
      · exact (congrArg (fun e => e.closure.fiber) hzero).trans hfiber.fiber_eq
      · rw [Function.update_of_ne halloc]
        exact hfiber.runs
      · rcases eq_or_ne g (s.srv.allocated + 1) with rfl | hneg
        · rw [Function.update_self] at hg
          cases hg
        · rw [Function.update_of_ne hneg] at hg
          exact hfiber.alone g hg
    split_ifs
    · exact inv_acceptMore (s := { s.setFrame (s.srv.allocated + 1) .fresh with
        srv := (s.srv.accepted a.ret).emit (.call (.accept s.srv.fd)), newFd := a.ret })
        hfiber' hkill
    · exact hsweep'.toSized

theorem inv_received (h : InFiber created s.frames s.srv.table s.pollfdSize s.srv.fd site f)
    (a : Answer) : Inv created (received phr s site f a) := by
  rw [received, wasioRecv]
  have hreturns (call : HostCall) : Inv created
      (returns site f { s with srv := s.srv.emit (.call call) }) :=
    inv_returns (s := { s with srv := s.srv.emit (.call call) }) h
  have hyields (call : HostCall) : Inv created
      (yields site f .again { s with srv := s.srv.emit (.call call) }) :=
    inv_yields (s := { s with srv := s.srv.emit (.call call) }) h (Or.inr (Or.inr rfl))
  split_ifs
  · exact hreturns _
  · cases translateError a.errno with
    | eagain => exact hyields _
    | ok | error | efull | econn => exact hreturns _
  · dsimp only
    split_ifs
    · exact inv_respond (s := { s with
        srv := s.srv.emit (.call (.recv s.srv.fd Http.BUFFER_SIZE))
        globals := s.globals.received (a.received Http.BUFFER_SIZE)
        nbytes := a.ret.toNat }) h a.now
    · exact h.atSite.sized

theorem inv_sent (h : InFiber created s.frames s.srv.table s.pollfdSize s.srv.fd site f)
    (rc : ℕ) (a : Answer) : Inv created (sent s site f rc a) := by
  rw [sent]
  dsimp only
  split_ifs
  · exact inv_returns (s := { s with
      srv := s.srv.emit (.call (wasioSend s.srv.fd rc a.toHostAnswer).call)
      nbytes := _ }) h
  · exact h

theorem inv_closedDone (h : InSweep created s.frames s.srv.table s.pollfdSize i True)
    (hi : i < s.pollfdSize) (hq : Quiet s.frames) (failed : Bool) (a : Answer) :
    Inv created (closedDone s i fd failed a) := by
  rw [closedDone]
  dsimp only
  split_ifs
  · exact ⟨h.visited hi (visited_taken (s.srv.emit _) i _).of_emit, hq⟩
  · exact h.toSized

theorem inv_closedKill (h : InOrderFrom created s.frames s.srv.table (i + 1))
    (hi : i < s.srv.wfd.length) (hq : Quiet s.frames) (a : Answer) :
    Inv created (closedKill s i a) :=
  ⟨h.shorten (Nat.zero_lt_of_lt hi), hq⟩

/-! ### Runs -/

/-- **Every step keeps the invariant**, with the descriptors there have been. -/
theorem Inv.step {a : Label} (h : Inv created s) (hstep : Step phr s a t) :
    Inv (addDescriptor created a) t := by
  rw [Step] at hstep
  cases a with
  | tau =>
    rw [addDescriptor_of_none rfl]
    exact h.tauStep hstep
  | resume f fd resumed =>
    rw [addDescriptor_of_none rfl]
    exact h.resumeStep hstep
  | call c a =>
    obtain ⟨hc, ht⟩ := Option.ite_none_right_eq_some.mp hstep
    obtain rfl := Option.some.inj ht
    rw [answered]
    cases hpc : s.pc <;> rw [Program.call, hpc] at hc <;> dsimp only at hc ⊢
    case sweep | resume | kill | exited | aborted | stray => cases hc
    all_goals obtain rfl := Option.some.inj hc
    case listen => exact inv_listened hpc h a _ _
    case accept => exact inv_accepted hpc h a _
    all_goals rw [addDescriptor_of_none rfl]
    case poll => exact inv_polled hpc h a
    all_goals rw [Inv, hpc] at h
    case recv => exact inv_received h a
    case send => exact inv_sent h _ a
    case closeDone => exact inv_closedDone h.1 h.2.1 h.2.2 _ a
    case closeKill => exact inv_closedKill h.1 h.2.1 h.2.2 a

theorem inv_start : Inv [] .start :=
  ⟨rfl, rfl, rfl, rfl, fun _ => nofun, fun _ => rfl⟩

/-- **The invariant holds in every run.** -/
theorem Runs.inv {l : List Label} (h : Runs phr l s) : Inv (descriptors l) s :=
  h.invariant_foldl (fun _ _ _ _ hinv hstep => hinv.step hstep) inv_start

/-- What `main` is to set `fd` to before it resumes the fiber `f`. -/
def signalFor (created : List ℤ) (f : ℕ) : Site → Option ℤ
  | .sweep _ => created[f - 1]?
  | .kill _ => some FIBER_KILL_SIGNAL

theorem AtSite.signalFor_eq (h : AtSite created frames T n fd site) :
    signalFor created (T.cell site.index).closure.fiber site = some fd := by
  have hcreated := h.entryOk.created_eq
  cases site with
  | sweep i => exact hcreated.trans (congrArg some h.2.2.1.symm)
  | kill i => exact congrArg some h.2.2.symm

/-- An answer of the host to a call that transfers no data. -/
def plainAnswer (ret errno : ℤ) (revents : ℕ → BitVec 16) : Answer :=
  ⟨⟨ret, errno⟩, revents, fun _ => 0, ⟨0, 1, 0, 100, 0, 0, 0⟩⟩

/-- A client connects, and its descriptor gets readable. -/
def oneClient : List Label :=
  [.call (.listen 8080 2048) (plainAnswer 4 0 fun _ => 0),
    .call (.poll [(4, POLLIN)] timeout) (plainAnswer 1 0 fun _ => POLLIN),
    .tau, .resume 1 4 true,
    .call (.accept 4) (plainAnswer 5 0 fun _ => 0),
    .call (.accept 4) (plainAnswer (-1) HOST_EAGAIN fun _ => 0),
    .tau,
    .call (.poll [(4, POLLIN), (5, POLLIN)] timeout)
      (plainAnswer 1 0 fun i => if i = 1 then POLLIN else 0),
    .tau, .tau]

end FiberServer

open FiberServer Http

/-- **The right fiber runs with the right descriptor.** In every run, what `main`
resumes was allocated and has neither finished nor been freed, and `fd` is the
descriptor the fiber was created for, or the kill signal; and at the head of the
request loop no fiber has two entries. -/
theorem fiberServer_resumes (phr : Parser) (l : List Label) (s : Program)
    (h : FiberServer.Runs phr l s) :
    (∀ site, s.pc = .resume site →
      s.Live (s.srv.fibers site.index).fiber ∧
        signalFor (descriptors l) (s.srv.fibers site.index).fiber site = some s.srv.fd) ∧
      (s.pc = .poll → ∀ j < s.srv.wfd.length, ∀ k < s.srv.wfd.length,
        (s.srv.fibers j).fiber = (s.srv.fibers k).fiber → j = k) := by
  have hinv := h.inv
  refine ⟨fun site hpc => ?_, fun hpc j hj k hk heq => ?_⟩ <;> rw [FiberServer.Inv, hpc] at hinv
  · obtain ⟨hsite, hq⟩ := hinv
    exact ⟨hsite.live hq, hsite.signalFor_eq⟩
  · obtain ⟨hfrom, -⟩ := hinv
    exact hfrom.order.inj j k ⟨Nat.zero_le j, hj⟩ ⟨Nat.zero_le k, hk⟩
      (hfrom.noHole j (Nat.zero_le j) hj) (hfrom.noHole k (Nat.zero_le k) hk) heq

/-- The fiber of a client is resumed with the descriptor of the client. -/
theorem fiberServer_resumes_oneClient :
    ∃ s, FiberServer.Runs (fun _ => ⟨-1, none, 0, 1⟩) oneClient s ∧ s.pc = .resume (.sweep 1) ∧
      s.Live 2 ∧ s.srv.fd = 5 := by
  obtain ⟨s, hs, hpc, hfiber, hcreated⟩ :
      ∃ s ∈ Lts.exec (FiberServer.step fun _ => ⟨-1, none, 0, 1⟩) .start oneClient,
        s.pc = .resume (.sweep 1) ∧ (s.srv.fibers 1).fiber = 2 ∧
          (descriptors oneClient)[1]? = some 5 := by
    decide +kernel
  have hrun := runs_of_exec hs
  obtain ⟨hlive, hfd⟩ := (fiberServer_resumes _ _ s hrun).1 (.sweep 1) hpc
  rw [Site.index, hfiber] at hlive hfd
  exact ⟨s, hrun, hpc, hlive, Option.some.inj (hfd.symm.trans hcreated)⟩

end Waeio
