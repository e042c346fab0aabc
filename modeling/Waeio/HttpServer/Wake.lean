import Waeio.HttpServer.Loop

/-!
# Who is woken for an event

`main` has put the fiber of the listener into the table `fibers`, and nobody puts one
there: `w_accept` pushes the closure of a new connection to the queue and leaves its entry
as it is. So the loop over the slots finds the null pointer at every slot but the
listener's. It also ends at `wfd.length`, the number of bound slots, and not at the last of
them, and is left out if `host_poll` counts no event.

`Waeio.HttpServer.Main.Iteration` takes note of the slots that are ready after a poll and
of those whose fiber was resumed since. `Waeio.HttpServer.Main.WakesOwn` is what is
claimed: a fiber is resumed for a ready slot once, and it is the one that serves the slot;
and by the end of the round all ready slots have had theirs.
-/

namespace Waeio

namespace HttpServer

open FiberServer (FIBER_KILL_SIGNAL FiberClosure)
open Http (Answer)
open WasioHost (Ready)

namespace Main

/-! ### What is claimed of a round -/

/-- **What has happened since the last poll.** -/
structure Iteration where
  /-- The slots that were ready after it. -/
  ready : List ℕ
  /-- The host has counted an event. -/
  counted : Bool
  /-- The slots for which a fiber was resumed. -/
  woken : List ℕ

/-- The slots with an event. -/
def readySlots (wfd : WasioPollfd) : List ℕ :=
  (List.range FiberServer.MAX_CONNECTIONS).filter fun v => Ready wfd v

theorem mem_readySlots {wfd : WasioPollfd} {v : ℕ} :
    v ∈ readySlots wfd ↔ v < FiberServer.MAX_CONNECTIONS ∧ Ready wfd v := by
  simp [readySlots]

/-- **Taking note** of one more step. -/
def note (h : Iteration) (p : Program) (a : Act) (q : Program) : Iteration :=
  match p.pc, a with
  | .poll, .answer a =>
    { ready := readySlots q.srv.wfd, counted := 0 < a.ret, woken := [] }
  | .scan i, .resume _ => { h with woken := i :: h.woken }
  | _, _ => h

/-- The program, with what has happened since the last poll. -/
abbrev Noting := Iteration × Program

/-- **A step**, with what has happened since the last poll beside the state. -/
def TrNoting (env : Env) : Noting → Act → Noting → Prop := Lts.Observed note (Tr env)

/-- **The fiber serves the slot**: it can be resumed, and the slot is that of its
closure. -/
def Serves (s : Server) (f v : ℕ) : Prop := (s.frames f).Suspended ∧ s.descriptor f = v

instance (s : Server) (f v : ℕ) : Decidable (Serves s f v) := inferInstanceAs (Decidable (_ ∧ _))

/-- **Every ready slot wakes its own fiber**: a fiber resumed for it is the one that serves
it, and was not resumed for it before; and when the round ends, one was resumed. -/
def WakesOwn (n : Noting) (a : Act) (_ : Noting) : Prop :=
  match n.2.pc, a with
  | .scan i, .resume _ =>
    i ∈ n.1.ready → Serves n.2.srv (n.2.srv.fibers i).fiber i ∧ i ∉ n.1.woken
  | .swap, .tau => ∀ v ∈ n.1.ready, v ∈ n.1.woken
  | _, _ => True

/-- **Only the listener's slot is ready**, and the host has counted its event. -/
def OnlyListener (n : Noting) (a : Act) : Prop :=
  match n.2.pc, a with
  | .scan i, .resume _ => i ∈ n.1.ready → i = 0
  | .swap, .tau => ∀ v ∈ n.1.ready, v = 0 ∧ n.1.counted
  | _, _ => True

variable {env : Env} {s t : Server} {f : ℕ} {a : Answer}

/-! ### The invariant of the loop -/

/-- The call is one of the loop. -/
def Site.InLoop : Site → Prop
  | .queue _ | .event _ => True
  | .kill _ => False

/-- `main` is in its loop. -/
def Pc.InLoop : Pc → Prop
  | .front _ | .poll | .scan _ | .swap => True
  | .running site _ | .closing site _ => site.InLoop
  | .kill _ | .exited | .aborted | .stray => False

/-- The fiber that runs. -/
def Pc.current : Pc → Option ℕ
  | .running _ clo => some clo.fiber
  | _ => none

/-- How far the loop over the slots is when `handle_request` returns. -/
def Site.position : Site → Option ℕ
  | .event v => some (v + 1)
  | .queue _ | .kill _ => none

/-- How far the loop over the slots is, once the fiber that runs stops. -/
def Pc.position : Pc → Option ℕ
  | .scan i => some i
  | .running site _ | .closing site _ => site.position
  | .front _ | .poll | .swap | .kill _ | .exited | .aborted | .stray => none

/-- **What holds in the loop**, of the variables of `main`. -/
structure Looping (p : Program) : Prop where
  tabled : Tabled p.srv
  listens : Listens p.srv p.pc.current
  running : ∀ site clo, p.pc = .running site clo →
    clo.fiber ≤ p.srv.allocated ∧ clo.fd = p.srv.descriptor clo.fiber
  closing : ∀ site clo, p.pc = .closing site clo →
    clo.fd = p.srv.descriptor clo.fiber ∧ p.srv.frames clo.fiber = .finished

/-- **What holds in the loop**, of the events since the last poll. -/
structure Noted (h : Iteration) (p : Program) : Prop where
  /-- The loop over the slots begins with the listener's, if it is ready. -/
  first : p.pc = .scan 0 → 0 ∈ h.ready → 0 < p.srv.wfd.length ∧ Ready p.srv.wfd 0
  /-- In the loop, fibers were resumed for slots it has passed, and for the listener's. -/
  scanning : ∀ i, p.pc.position = some i → h.counted ∧
    (∀ v ∈ h.woken, v < i ∧ (v ∈ h.ready → v = 0)) ∧ (0 < i → 0 ∈ h.ready → 0 ∈ h.woken)
  /-- Behind it, for no other. -/
  swapping : p.pc = .swap → ∀ v ∈ h.ready, v ∈ h.woken ↔ v = 0 ∧ h.counted

/-- **The invariant**, as long as `main` is in its loop. -/
def Inv (n : Noting) : Prop := n.2.pc.InLoop → Looping n.2 ∧ Noted n.1 n.2

variable {p q : Program} {h : Iteration} {site : Site} {clo : FiberClosure} {i : ℕ}

theorem note_scan {resumed : Bool} (hpc : p.pc = .scan i) :
    note h p (.resume resumed) q = { h with woken := i :: h.woken } := by
  unfold note
  rw [hpc]

/-- Where `main` is neither at the slots nor behind them, nothing is to be noted. -/
theorem noted_of_position (hpos : p.pc.position = none) (hswap : p.pc ≠ .swap) : Noted h p where
  first hpc := absurd hpos (by rw [hpc]; exact nofun)
  scanning i hi := absurd (hpos.symm.trans hi) nofun
  swapping hpc := absurd hpc hswap

/-- The loop over the slots is as far as it was. -/
theorem Noted.of_scanning {i : ℕ} (hnoted : Noted h p) (hp : p.pc.position = some (i + 1))
    (hq : q.pc.position = some (i + 1)) : Noted h q where
  first hpc := by
    rw [hpc] at hq
    exact absurd (Option.some.inj hq) (by omega)
  scanning j hj := hnoted.scanning j (hp.trans (hq.symm.trans hj))
  swapping hpc := by
    rw [hpc] at hq
    exact absurd hq nofun

theorem looping_of_pc (htab : Tabled p.srv) (hlisten : Listens p.srv none)
    (hrun : ∀ site clo, p.pc ≠ .running site clo) (hclose : ∀ site clo, p.pc ≠ .closing site clo) :
    Looping p := by
  refine ⟨htab, ?_, fun site clo hpc => absurd hpc (hrun site clo),
    fun site clo hpc => absurd hpc (hclose site clo)⟩
  exact Or.inl hlisten.waiting

/-- `main` goes on behind `handle_request`. -/
theorem looping_after (htab : Tabled s) (hlisten : Listens s none) :
    Looping ⟨s, after site⟩ := by
  cases site <;> exact looping_of_pc htab hlisten nofun nofun

/-- **How a fiber comes back to the loop**: it is at a call of the host, it has returned,
it has yielded, or `main` leaves the loop. -/
theorem back_cases (clo : FiberClosure) (s : Server) (hsite : site.InLoop) :
    ((∃ pt, s.frames clo.fiber = .running pt) ∧ back site clo s = ⟨s, .running site clo⟩) ∨
    (s.frames clo.fiber = .finished ∧ back site clo s = ⟨s, .closing site clo⟩) ∨
    (∃ t, (∀ pt, s.frames clo.fiber ≠ .running pt) ∧ handleYield clo s = some (true, t) ∧
      back site clo s = ⟨t, after site⟩) ∨
    ¬(back site clo s).pc.InLoop := by
  have hyields : (∀ pt, s.frames clo.fiber ≠ .running pt) →
      (∀ t, handleYield clo s = some (true, t) → back site clo s = ⟨t, after site⟩) →
      (∀ t, handleYield clo s = some (false, t) → back site clo s = leave t site) →
      (handleYield clo s = none → back site clo s = ⟨s, .aborted⟩) →
      (∃ t, (∀ pt, s.frames clo.fiber ≠ .running pt) ∧ handleYield clo s = some (true, t) ∧
        back site clo s = ⟨t, after site⟩) ∨ ¬(back site clo s).pc.InLoop := by
    intro hrun htrue hfalse hnone
    cases hreq : handleYield clo s with
    | none =>
      rw [hnone hreq]
      exact Or.inr id
    | some r =>
      obtain ⟨b, t⟩ := r
      cases b with
      | true => exact Or.inl ⟨t, hrun, rfl, htrue t hreq⟩
      | false =>
        right
        rw [hfalse t hreq]
        cases site <;> exact id
  cases site with
  | kill => exact hsite.elim
  | queue | event =>
    cases hframe : s.frames clo.fiber with
    | running pt => exact Or.inl ⟨⟨pt, rfl⟩, by simp only [back, hframe]⟩
    | finished => exact Or.inr (Or.inl ⟨rfl, by simp only [back, hframe]⟩)
    | _ =>
      rw [hframe] at hyields
      refine Or.inr (Or.inr (hyields nofun (fun t h => ?_) (fun t h => ?_) fun h => ?_))
      all_goals simp only [back, hframe, h]

/-- **When a fiber has run a piece of its code** in the loop, `main` is in its loop as
before, or leaves it. -/
theorem looping_back (htab : Tabled s) (hlisten : Listens s (some clo.fiber))
    (hle : clo.fiber ≤ s.allocated) (hfd : clo.fd = s.descriptor clo.fiber) (hsite : site.InLoop)
    (hloop : (back site clo s).pc.InLoop) :
    Looping (back site clo s) ∧ ((back site clo s).pc = .running site clo ∨
      (back site clo s).pc = .closing site clo ∨ (back site clo s).pc = after site) := by
  -- the listener does not run any more
  have hstop : (∀ pt, s.frames clo.fiber ≠ .running pt) → Listens s none := by
    intro hrun
    refine Or.inl (hlisten.resolve_right fun h => ?_)
    obtain ⟨hcur, hacc⟩ := h
    rw [← Option.some.inj hcur] at hacc
    cases hframe : s.frames clo.fiber with
    | running pt => exact hrun pt hframe
    | _ =>
      rw [hframe] at hacc
      exact hacc
  rcases back_cases clo s hsite with ⟨-, hback⟩ | ⟨hfin, hback⟩ |
    ⟨t, hrun, hreq, hback⟩ | hleave
  · rw [hback]
    refine ⟨⟨htab, hlisten, ?_, nofun⟩, Or.inl rfl⟩
    rintro _ _ ⟨⟩
    exact ⟨hle, hfd⟩
  · rw [hback]
    refine ⟨⟨htab, Or.inl (hstop (by simp [hfin])).waiting, nofun, ?_⟩, Or.inr (Or.inl rfl)⟩
    rintro _ _ ⟨⟩
    exact ⟨hfd, hfin⟩
  · rw [hback]
    refine ⟨?_, Or.inr (Or.inr rfl)⟩
    obtain ⟨wfd, rearq, rfl, hquiet, hrear⟩ := htab.inOrder.handleYield_cases hreq
    refine looping_after (htab.congr (htab.inOrder.congr hquiet rfl rfl rfl rfl rfl) rfl rfl rfl ?_)
      (Or.inl (hstop hrun).waiting)
    intro clo' hclo'
    rcases hrear with rfl | rfl
    · exact Or.inl hclo'
    · rw [← List.append_assoc] at hclo'
      refine (List.mem_append.mp hclo').imp id fun hmem => ?_
      obtain rfl := List.mem_singleton.mp hmem
      exact ⟨hle, hfd⟩
  · exact absurd hloop hleave

/-! ### The steps -/

/-- `main` does not come back to its loop. -/
theorem not_inLoop_back_kill : ¬(back (.kill i) clo s).pc.InLoop := by
  rw [back]
  split
  · exact id
  · exact id
  · exact id

theorem fiberResume_inLoop {resumed : Bool} {arg : ℤ}
    (h : (fiberResume env resumed site clo arg s).pc.InLoop) :
    (s.frames clo.fiber).Suspended ∧
      fiberResume env resumed site clo arg s = back site clo (resume env clo.fiber arg s) := by
  rw [fiberResume] at h ⊢
  split_ifs at h ⊢ with hsus hres
  · exact ⟨hsus, rfl⟩
  · exact h.elim
  · exact h.elim

/-- **The three places where a fiber is resumed.** -/
theorem resume_cases {resumed : Bool} (htr : Tr env p (.resume resumed) q) :
    (∃ i clo, p.pc = .front i ∧ clo ∈ p.srv.frontq ∧
      q = fiberResume env resumed (.queue i) clo clo.fd p.srv) ∨
    (∃ i, p.pc = .scan i ∧ i < p.srv.wfd.length ∧ Ready p.srv.wfd i ∧
      q = fiberResume env resumed (.event i) (p.srv.fibers i) 0 (clear i p.srv)) ∨
    ∃ i, p.pc = .kill i ∧
      q = fiberResume env resumed (.kill i) (p.srv.fibers i) FIBER_KILL_SIGNAL p.srv := by
  obtain ⟨⟨site, clo, arg, s⟩, htarget, rfl⟩ := Option.map_eq_some_iff.mp htr
  rw [target] at htarget
  split at htarget
  · next i hpc =>
    obtain ⟨clo', hclo', heq⟩ := Option.map_eq_some_iff.mp htarget
    cases heq
    exact Or.inl ⟨i, clo, hpc, List.mem_of_getElem? hclo', rfl⟩
  · next i hpc =>
    obtain ⟨⟨hlt, hready⟩, heq⟩ := Option.ite_none_right_eq_some.mp htarget
    cases heq
    exact Or.inr (Or.inl ⟨i, hpc, hlt, hready, rfl⟩)
  · next i hpc =>
    obtain ⟨-, heq⟩ := Option.ite_none_right_eq_some.mp htarget
    cases heq
    exact Or.inr (Or.inr ⟨i, hpc, rfl⟩)
  · exact absurd htarget nofun

theorem inLoop_of_step {act : Act} (htr : Tr env p act q) (hq : q.pc.InLoop) : p.pc.InLoop := by
  rw [Tr] at htr
  cases hpc : p.pc with
  | front | poll | scan | swap => trivial
  | exited | aborted | stray =>
    cases act <;> simp [step, tauStep, target, answerStep, hpc] at htr
  | kill i =>
    cases act with
    | tau =>
      simp only [step, tauStep, hpc] at htr
      split_ifs at htr <;> obtain rfl := Option.some.inj htr <;> exact hq
    | resume resumed =>
      rcases resume_cases htr with ⟨j, clo, hpc', -⟩ | ⟨j, hpc', -⟩ | ⟨j, -, rfl⟩
      · exact absurd (hpc.symm.trans hpc') nofun
      · exact absurd (hpc.symm.trans hpc') nofun
      · obtain ⟨-, heq⟩ := fiberResume_inLoop hq
        rw [heq] at hq
        exact (not_inLoop_back_kill hq).elim
    | answer a => simp [step, answerStep, hpc] at htr
  | running site clo | closing site clo =>
    cases site with
    | queue | event => trivial
    | kill j =>
      cases act with
      | tau => simp [step, tauStep, hpc] at htr
      | resume resumed => simp [step, target, hpc] at htr
      | answer a =>
        simp only [step, answerStep, hpc] at htr
        split at htr <;> obtain rfl := Option.some.inj htr
        · -- the fiber goes on, or its slot is closed
          first
          | exact absurd hq not_inLoop_back_kill
          | exact hq
        · exact hq

/-- A fiber of the loop is resumed, and runs a piece of its code. -/
theorem looping_resume {arg : ℤ} (htab : Tabled s) (hlisten : Listens s none)
    (hsus : (s.frames clo.fiber).Suspended) (hle : clo.fiber ≤ s.allocated)
    (hfd : clo.fd = s.descriptor clo.fiber) (harg : arg = 0 ∨ arg = clo.fd)
    (hfresh : (s.frames clo.fiber).Fresh → arg = s.descriptor clo.fiber) (hsite : site.InLoop)
    (hloop : (back site clo (resume env clo.fiber arg s)).pc.InLoop) :
    Looping (back site clo (resume env clo.fiber arg s)) ∧
      (back site clo (resume env clo.fiber arg s)).pc.position = site.position ∧
      (back site clo (resume env clo.fiber arg s)).pc ≠ .swap := by
  have hkill : arg ≠ FIBER_KILL_SIGNAL := by
    have hnonneg := htab.inOrder.nonneg hsus.ne_freed
    rw [FIBER_KILL_SIGNAL]
    omega
  obtain ⟨htab', hlisten', halloc, hdesc⟩ := htab.resume env hlisten hsus hkill hfresh
  obtain ⟨hback, hpc⟩ := looping_back htab' hlisten' (hle.trans_eq halloc.symm)
    (by rw [hdesc, hfd]) hsite hloop
  refine ⟨hback, ?_⟩
  rcases hpc with hpc | hpc | hpc <;> rw [hpc]
  · exact ⟨rfl, nofun⟩
  · exact ⟨rfl, nofun⟩
  · cases site with
    | kill => exact hsite.elim
    | queue | event => exact ⟨rfl, nofun⟩

/-- A state that differs in the flags of the poll array only. -/
theorem Tabled.withWfd (h : Tabled s) {wfd : WasioPollfd} (hquiet : WasioHost.Quiet s.wfd wfd) :
    Tabled { s with wfd := wfd } :=
  h.congr (h.inOrder.congr hquiet rfl rfl rfl rfl rfl) rfl rfl rfl fun _ => Or.inl

theorem quiet_clear (i : ℕ) (s : Server) : WasioHost.Quiet s.wfd (clear i s).wfd := by
  refine ⟨rfl, rfl, rfl, rfl, fun j => ?_, rfl, rfl⟩
  rcases eq_or_ne j i with rfl | hne
  · simp [clear]
  · simp [clear, hne]

theorem Tabled.clear (h : Tabled s) (i : ℕ) : Tabled (clear i s) :=
  h.withWfd (quiet_clear i s)

/-- The fiber in the table of a slot can be resumed if the slot is the listener's. -/
theorem Looping.eq_zero_of_suspended (hl : Looping p)
    (hsus : (p.srv.frames (p.srv.fibers i).fiber).Suspended) : i = 0 := by
  by_contra hne
  rw [hl.tabled.fiber_eq, if_neg hne, hl.tabled.inOrder.unborn 0 (Or.inl rfl)] at hsus
  exact hsus

/-- **The steps of the loops keep the invariant.** -/
theorem inv_tau (hinv : Looping p ∧ Noted h p) (htr : Tr env p .tau q) (hq : q.pc.InLoop) :
    Looping q ∧ Noted h q := by
  obtain ⟨hl, hnoted⟩ := hinv
  have hlisten : p.pc.current = none → Listens p.srv none := fun h => h ▸ hl.listens
  have htau : tauStep p = some q := htr
  rw [tauStep] at htau
  split at htau
  · next i hpc =>
    split_ifs at htau
    obtain rfl := Option.some.inj htau
    exact ⟨looping_of_pc hl.tabled (hlisten (by rw [hpc]; rfl)) nofun nofun,
      noted_of_position rfl nofun⟩
  · next i hpc =>
    have hnone := hlisten (by rw [hpc]; rfl)
    obtain ⟨hcounted, hwoken, hfirst⟩ := hnoted.scanning i (by rw [hpc]; rfl)
    split_ifs at htau with hlt hready <;> obtain rfl := Option.some.inj htau
    · -- the slot has no event, so it is not the listener's, if that is ready
      have hpos : 0 ∈ h.ready → 0 < i := by
        intro hmem
        by_contra hzero
        obtain rfl : i = 0 := by omega
        exact hready (hnoted.first hpc hmem).2
      refine ⟨looping_of_pc hl.tabled hnone nofun nofun, nofun, ?_, nofun⟩
      rintro _ ⟨⟩
      refine ⟨hcounted, fun v hv => ⟨Nat.lt_succ_of_lt (hwoken v hv).1, (hwoken v hv).2⟩, ?_⟩
      exact fun _ hmem => hfirst (hpos hmem) hmem
    · refine ⟨looping_of_pc hl.tabled hnone nofun nofun, nofun, nofun, fun _ v hv => ?_⟩
      constructor
      · exact fun hmem => ⟨(hwoken v hmem).2 hv, hcounted⟩
      · rintro ⟨rfl, -⟩
        refine hfirst ?_ hv
        by_contra hzero
        obtain rfl : i = 0 := by omega
        exact hlt (hnoted.first hpc hv).1
  · next hpc =>
    obtain rfl := Option.some.inj htau
    refine ⟨looping_of_pc (hl.tabled.congr ?_ rfl rfl rfl ?_) (hlisten (by rw [hpc]; rfl)) nofun
      nofun, noted_of_position rfl nofun⟩
    · exact hl.tabled.inOrder.congr (.refl _) rfl rfl rfl rfl rfl
    · intro clo hclo
      left
      simpa [Server.swap] using Or.inr (by simpa [Server.swap] using hclo)
  · split_ifs at htau <;> obtain rfl := Option.some.inj htau <;> exact hq.elim
  · exact absurd htau nofun

/-- **A resumption keeps the invariant**, if it is for the listener's slot or for none that is
ready. -/
theorem inv_resume {resumed : Bool} (hinv : Looping p ∧ Noted h p)
    (htr : Tr env p (.resume resumed) q) (hq : q.pc.InLoop) :
    Looping q ∧ Noted (note h p (.resume resumed) q) q := by
  obtain ⟨hl, hnoted⟩ := hinv
  have hlisten : p.pc.current = none → Listens p.srv none := fun h => h ▸ hl.listens
  rcases resume_cases htr with ⟨i, clo, hpc, hmem, rfl⟩ | ⟨i, hpc, -, -, rfl⟩ | ⟨i, -, rfl⟩
  · obtain ⟨hsus, hback⟩ := fiberResume_inLoop hq
    obtain ⟨hle, hfd⟩ := hl.tabled.queued clo (List.mem_append_left _ hmem)
    rw [hback] at hq ⊢
    have hsite : (Site.queue i).InLoop := trivial
    obtain ⟨hloop, hpos, hswap⟩ := looping_resume hl.tabled (hlisten (by rw [hpc]; rfl)) hsus hle
      hfd (Or.inr rfl) (fun _ => hfd) hsite hq
    exact ⟨hloop, noted_of_position hpos hswap⟩
  · obtain ⟨hsus, hback⟩ := fiberResume_inLoop hq
    obtain rfl := hl.eq_zero_of_suspended hsus
    have hfiber : (p.srv.fibers 0).fiber = lfiber := hl.tabled.fiber_eq 0
    have hfd : (p.srv.fibers 0).fd = p.srv.descriptor (p.srv.fibers 0).fiber := by
      rw [hfiber, hl.tabled.descriptor_eq, hl.tabled.fd_zero]
    have hle : (p.srv.fibers 0).fiber ≤ p.srv.allocated :=
      (hl.tabled.inOrder.zero_lt hsus.ne_freed).2
    rw [hback] at hq ⊢
    have hsite : (Site.event 0).InLoop := trivial
    obtain ⟨hloop, hpos, hswap⟩ := looping_resume (hl.tabled.clear 0)
      (hlisten (by rw [hpc]; rfl)) hsus hle hfd (Or.inl rfl)
      (fun _ => hl.tabled.fd_zero.symm.trans hfd) hsite hq
    obtain ⟨hcounted, hwoken, -⟩ := hnoted.scanning 0 (by rw [hpc]; rfl)
    rw [Site.position] at hpos
    refine ⟨hloop, fun hzero => ?_, fun j hj => ?_, fun h => absurd h hswap⟩
    · rw [hzero] at hpos
      exact absurd (Option.some.inj hpos) (by decide)
    · rw [hpos] at hj
      obtain rfl := Option.some.inj hj
      rw [note_scan hpc]
      refine ⟨hcounted, fun v hv => ?_, fun _ _ => List.mem_cons_self⟩
      rcases List.mem_cons.mp hv with rfl | hv
      · exact ⟨Nat.zero_lt_one, fun _ => rfl⟩
      · exact absurd (hwoken v hv).1 (Nat.not_lt_zero v)
  · obtain ⟨-, hback⟩ := fiberResume_inLoop hq
    rw [hback] at hq
    exact (not_inLoop_back_kill hq).elim

/-- **A fiber of the loop goes on** with the answer of the host. -/
theorem inv_running (hinv : Looping p ∧ Noted h p) (hpc : p.pc = .running site clo)
    (hsite : site.InLoop) (hans : answered env clo.fiber p.srv a = some t)
    (hq : (back site clo t).pc.InLoop) :
    Looping (back site clo t) ∧ Noted h (back site clo t) := by
  obtain ⟨hl, hnoted⟩ := hinv
  obtain ⟨hle, hfd⟩ := hl.running site clo hpc
  have hlisten : Listens p.srv (some clo.fiber) := by
    have hcur := hl.listens
    rwa [hpc] at hcur
  obtain ⟨htab, hlisten', halloc, hdesc⟩ := hl.tabled.answered hlisten hans
  obtain ⟨hloop, hpos⟩ := looping_back htab hlisten' (hle.trans halloc)
    (by rw [hdesc _ hle, hfd]) hsite hq
  refine ⟨hloop, ?_⟩
  have hold : p.pc.position = site.position := by rw [hpc]; rfl
  cases site with
  | kill => exact hsite.elim
  | queue i =>
    have hnew : (back (.queue i) clo t).pc.position = none := by
      rcases hpos with hpos | hpos | hpos <;> rw [hpos] <;> rfl
    refine noted_of_position hnew ?_
    rcases hpos with hpos | hpos | hpos <;> rw [hpos] <;> exact nofun
  | event v =>
    refine hnoted.of_scanning (i := v) hold ?_
    rcases hpos with hpos | hpos | hpos <;> rw [hpos] <;> rfl

/-- **A connection is closed**, and `main` goes on. -/
theorem inv_closing (hinv : Looping p ∧ Noted h p) (hpc : p.pc = .closing site clo)
    (hsite : site.InLoop) {host : HostAnswer} (hdone : handleDone clo p.srv host = some t) :
    Looping ⟨t, after site⟩ ∧ Noted h ⟨t, after site⟩ := by
  obtain ⟨hl, hnoted⟩ := hinv
  obtain ⟨hfd, hfin⟩ := hl.closing site clo hpc
  have hlisten : Listens p.srv none := by
    have hcur := hl.listens
    rwa [hpc] at hcur
  obtain ⟨htab, hlisten'⟩ := hl.tabled.handleDone hlisten hfd hfin hdone
  refine ⟨looping_after htab hlisten', ?_⟩
  cases site with
  | kill => exact hsite.elim
  | queue => exact noted_of_position rfl nofun
  | event v => exact hnoted.of_scanning (i := v) (by rw [hpc]; rfl) rfl

/-- **The host is polled.** -/
theorem inv_polled (hl : Looping p) (hpc : p.pc = .poll) (hq : (polled p.srv a).pc.InLoop) :
    Looping (polled p.srv a) ∧
      Noted ⟨readySlots (polled p.srv a).srv.wfd, 0 < a.ret, []⟩ (polled p.srv a) := by
  have hlisten : Listens p.srv none := by
    have hcur := hl.listens
    rwa [hpc] at hcur
  have hquiet := WasioHost.quiet_wasioPoll p.srv.wfd 100 a.revents a.toHostAnswer
  rw [polled, wasioPoll] at hq ⊢
  rw [wasioPoll] at hquiet
  by_cases hneg : a.ret < 0
  · rw [if_pos hneg] at hq
    split at hq
    · next heq => exact absurd (congrArg (fun r => r.1.result) heq) (translateError_ne_ok _)
    · exact hq.elim
  rw [if_neg hneg] at hquiet ⊢
  have htab := hl.tabled.withWfd hquiet
  dsimp only at htab ⊢
  split_ifs with hcount
  · have hpos : 0 < a.ret := by omega
    refine ⟨looping_of_pc htab hlisten (by rintro _ _ ⟨⟩) (by rintro _ _ ⟨⟩),
      fun _ hmem => ?_, ?_, by rintro ⟨⟩⟩
    · -- the listener's slot is bound, so the loop goes as far
      dsimp only at hmem
      have hready := (mem_readySlots.mp hmem).2
      obtain ⟨O, hO, -⟩ := htab.inOrder.table
      have hbound : 0 ∈ O := (hO.bound_iff 0).mp (hO.sync 0 ▸ hready.1)
      exact ⟨hO.length_eq ▸ Finset.card_pos.mpr ⟨0, hbound⟩, hready⟩
    · rintro _ ⟨⟩
      exact ⟨decide_eq_true hpos, by rintro _ ⟨⟩, fun hlt => absurd hlt (Nat.lt_irrefl 0)⟩
  · have hzero : ¬0 < a.ret := by omega
    refine ⟨looping_of_pc htab hlisten (by rintro _ _ ⟨⟩) (by rintro _ _ ⟨⟩),
      by rintro ⟨⟩, by rintro _ ⟨⟩, fun _ v _ => ?_⟩
    simp [hzero]

/-- **Every step keeps the invariant.** -/
theorem Inv.step {n m : Noting} {act : Act} (hinv : Inv n) (htr : TrNoting env n act m) :
    Inv m := by
  obtain ⟨h, p⟩ := n
  obtain ⟨h', q⟩ := m
  obtain ⟨hstep, rfl⟩ : Tr env p act q ∧ h' = note h p act q := htr
  intro hq
  have hp := inLoop_of_step hstep hq
  have hold := hinv hp
  cases act with
  | tau =>
    have hnote : note h p .tau q = h := by
      unfold note
      split
      · next heq => exact absurd heq nofun
      · next heq => exact absurd heq nofun
      · rfl
    rw [hnote]
    exact inv_tau hold hstep hq
  | resume resumed => exact inv_resume hold hstep hq
  | answer a =>
    simp only [Tr, HttpServer.Main.step, answerStep] at hstep
    split at hstep
    · next hpc =>
      obtain rfl := Option.some.inj hstep
      have hnote : note h p (.answer a) (polled p.srv a) =
          ⟨readySlots (polled p.srv a).srv.wfd, 0 < a.ret, []⟩ := by
        unfold note
        rw [hpc]
      rw [hnote]
      exact inv_polled hold.1 hpc hq
    · next site clo hpc =>
      have hsite : site.InLoop := by
        rw [hpc] at hp
        exact hp
      have hnote : note h p (.answer a) q = h := by
        unfold note
        rw [hpc]
      rw [hnote]
      split at hstep <;> obtain rfl := Option.some.inj hstep
      · next hans => exact inv_running hold hpc hsite hans hq
      · exact hq.elim
    · next site clo hpc =>
      have hsite : site.InLoop := by
        rw [hpc] at hp
        exact hp
      have hnote : note h p (.answer a) q = h := by
        unfold note
        rw [hpc]
      rw [hnote]
      split at hstep <;> obtain rfl := Option.some.inj hstep
      · next hdone => exact inv_closing hold hpc hsite hdone
      · exact hq.elim
    · exact absurd hstep nofun

/-- **At the slots, exactly the listener is woken right.** -/
theorem Inv.wakesOwn_iff {n m : Noting} {act : Act} (hinv : Inv n) (htr : TrNoting env n act m) :
    WakesOwn n act m ↔ OnlyListener n act := by
  obtain ⟨h, p⟩ := n
  unfold WakesOwn OnlyListener
  cases hpc : p.pc with
  | scan i =>
    obtain ⟨hl, hnoted⟩ := hinv (by rw [hpc]; trivial)
    cases act with
    | resume resumed =>
      refine imp_congr_right fun _ => ?_
      constructor
      · exact fun hserves => hl.eq_zero_of_suspended hserves.1.1
      · rintro rfl
        have hlisten : Listens p.srv none := by
          have hcur := hl.listens
          rwa [hpc] at hcur
        refine ⟨⟨?_, ?_⟩, fun hmem => ?_⟩
        · rw [hl.tabled.fiber_eq 0]
          exact hlisten.waiting.suspended
        · rw [hl.tabled.fiber_eq 0]
          exact hl.tabled.descriptor_eq
        · have hlt := ((hnoted.scanning 0 (by rw [hpc]; rfl)).2.1 0 hmem).1
          exact absurd hlt (lt_irrefl 0)
    | tau | answer => exact Iff.rfl
  | swap =>
    obtain ⟨-, hnoted⟩ := hinv (by rw [hpc]; trivial)
    cases act with
    | tau => exact forall₂_congr (hnoted.swapping hpc)
    | resume | answer => exact Iff.rfl
  | _ => exact Iff.rfl

/-- Nothing has happened before the first poll. -/
def Iteration.init : Iteration := ⟨[], false, []⟩

theorem inv_start {host : HostAnswer} (hstart : serverMain host = some s) :
    Inv (.init, start s) := by
  obtain ⟨-, -, -, -, -, -, hfibers, hfront, hrear, -, halloc, hframes, hdesc, -⟩ :=
    serverMain_cases hstart
  refine fun _ => ⟨looping_of_pc ⟨inOrder_start hstart, fun v => ?_, ?_, ?_, ?_⟩ ?_ nofun nofun,
    noted_of_position rfl nofun⟩
  · change (s.fibers v).fiber = _
    rw [hfibers]
    split_ifs with hv
    · rw [hv, Function.update_self]
    · rw [Function.update_of_ne hv]
  · change (s.fibers 0).fd = 0
    rw [hfibers, Function.update_self]
  · change s.descriptor lfiber = 0
    rw [hdesc, Function.update_self]
  · change ∀ clo ∈ s.frontq ++ s.rearq, _
    rw [hfront, hrear, List.append_nil]
    intro clo hclo
    obtain rfl := List.mem_singleton.mp hclo
    exact ⟨halloc.ge, by change (0 : ℤ) = s.descriptor lfiber; rw [hdesc, Function.update_self]⟩
  · left
    change (s.frames lfiber).Waiting
    rw [hframes, Function.update_self]
    trivial

/-! ### Runs that are computed -/

/-- `Waeio.HttpServer.Main.OnlyListener` as a test. -/
def onlyListener (n : Noting) (act : Act) : Bool :=
  match n.2.pc, act with
  | .scan i, .resume _ => i ∈ n.1.ready → i = 0
  | .swap, .tau => ∀ v ∈ n.1.ready, v = 0 ∧ n.1.counted
  | _, _ => true

theorem onlyListener_iff {n : Noting} {act : Act} :
    onlyListener n act = true ↔ OnlyListener n act := by
  unfold onlyListener OnlyListener
  split
  · exact decide_eq_true_iff
  · exact decide_eq_true_iff
  · exact iff_of_true rfl trivial

instance (n : Noting) (act : Act) : Decidable (OnlyListener n act) :=
  decidable_of_iff _ onlyListener_iff

/-- A step that meets the condition `C`. -/
def noting (env : Env) (C : Noting → Act → Prop) [∀ n a, Decidable (C n a)] (n : Noting)
    (act : Act) : Option Noting :=
  if C n act then (step env n.2 act).map fun q => (note n.1 n.2 act q, q) else none

theorem trNoting_of_noting {C : Noting → Act → Prop} [∀ n a, Decidable (C n a)] {n m : Noting}
    {act : Act} (hstep : noting env C n act = some m) : TrNoting env n act m ∧ C n act := by
  obtain ⟨hC, hmap⟩ := Option.ite_none_right_eq_some.mp hstep
  obtain ⟨q, hq, rfl⟩ := Option.map_eq_some_iff.mp hmap
  exact ⟨⟨hq, rfl⟩, hC⟩

theorem steps_of_noting {C : Noting → Act → Prop} [∀ n a, Decidable (C n a)] {n m : Noting}
    {l : List Act} (hexec : m ∈ Lts.exec (noting env C) n l) :
    Lts.Steps (Lts.Guarded (TrNoting env) C) n l m :=
  (Lts.exec_eq_some_iff.mp hexec).mono fun _ _ _ => trNoting_of_noting

/-- An answer with events, or without. -/
def answerWith (ret errno : ℤ) (revents : ℕ → BitVec 16) : Answer where
  ret := ret
  errno := errno
  revents := revents
  data := fun _ => 0
  now := ⟨0, 1, 0, 70, 0, 0, 0⟩

/-- An event on one slot. -/
def eventOn (v : ℕ) : Answer := answerWith 1 0 fun i => if i = v then POLLIN else 0

/-- A call of the host that would block. -/
def wouldBlock : Act := .answer (answerWith (-1) HOST_EAGAIN fun _ => 0)

/-- A parser that is given no request. -/
def silent : Env := ⟨fun _ _ _ => ⟨-1, none, 0, 0⟩, fun _ _ => 0⟩

end Main

end HttpServer

open HttpServer (serverMain Env Server)
open HttpServer.Main

/-- **Exactly the runs whose polls find the listener's slot ready at most, and count its
event, wake the own fiber of every ready slot**: once in a round, and no other. -/
theorem httpServer_wakesOwn_iff (env : Env) (host : HostAnswer) (s₀ : Server)
    (h : serverMain host = some s₀) (l : List Act) (n : Noting) :
    Lts.Steps (Lts.Upheld (TrNoting env) WakesOwn) (.init, start s₀) l n ↔
      Lts.Steps (Lts.Guarded (TrNoting env) OnlyListener) (.init, start s₀) l n :=
  Lts.steps_upheld_iff_guarded (I := Inv) (F := WakesOwn) (C := OnlyListener)
    (fun _ _ _ hinv htr _ => hinv.step htr) (fun _ _ _ hinv htr => hinv.wakesOwn_iff htr)
    (inv_start h)

/-- The listener is woken, and finds no connection. -/
theorem httpServer_wakesOwn_iff_listener :
    ∃ s₀ n, serverMain ⟨3, 0⟩ = some s₀ ∧ n.1.ready = [0] ∧ n.1.woken = [0] ∧
      Lts.Steps (Lts.Upheld (TrNoting silent) WakesOwn) (.init, start s₀)
        [.resume true, wouldBlock, .tau, .answer (eventOn 0), .resume true, wouldBlock, .tau,
          .tau] n := by
  obtain ⟨s₀, hstart, n, hn, hready, hwoken⟩ : ∃ s₀ ∈ serverMain ⟨3, 0⟩,
      ∃ n ∈ Lts.exec (noting silent OnlyListener) (.init, start s₀)
        [.resume true, wouldBlock, .tau, .answer (eventOn 0), .resume true, wouldBlock, .tau,
          .tau], n.1.ready = [0] ∧ n.1.woken = [0] := by
    decide +kernel
  exact ⟨s₀, n, hstart, hready, hwoken,
    (httpServer_wakesOwn_iff silent ⟨3, 0⟩ s₀ hstart _ n).mpr (steps_of_noting hn)⟩

/-- **The null pointer is resumed for a connection**: a client connects, its fiber waits in
`w_recv`, and `host_poll` finds its slot ready. -/
theorem not_wakesOwn_connection :
    ∃ s₀ l n m, serverMain ⟨3, 0⟩ = some s₀ ∧
      Lts.Steps (TrNoting silent) (.init, start s₀) l n ∧ TrNoting silent n (.resume true) m ∧
      n.2.pc = .scan 1 ∧ n.1.ready = [1] ∧ Serves n.2.srv 2 1 ∧ (n.2.srv.fibers 1).fiber = 0 ∧
      m.2.pc = .stray ∧ ¬WakesOwn n (.resume true) m := by
  obtain ⟨s₀, hstart, n, hn, m, hm, hpc, hready, hserves, hnull, hstray, hdead⟩ :
      ∃ s₀ ∈ serverMain ⟨3, 0⟩, ∃ n ∈ Lts.exec (noting silent fun _ _ => True) (.init, start s₀)
        [.resume true, .answer (answerWith 5 0 fun _ => 0), wouldBlock, .tau,
          .answer (answerWith 0 0 fun _ => 0), .tau, .resume true, wouldBlock, .tau,
          .answer (eventOn 1), .tau],
        ∃ m ∈ noting silent (fun _ _ => True) n (.resume true), n.2.pc = .scan 1 ∧
          n.1.ready = [1] ∧ Serves n.2.srv 2 1 ∧ (n.2.srv.fibers 1).fiber = 0 ∧
          m.2.pc = .stray ∧ ¬(n.2.srv.frames 0).Suspended := by
    decide +kernel
  refine ⟨s₀, _, n, m, hstart, (steps_of_noting hn).of_guarded, (trNoting_of_noting hm).1, hpc,
    hready, hserves, hnull, hstray, fun hwakes => hdead ?_⟩
  unfold WakesOwn at hwakes
  rw [hpc] at hwakes
  rw [← hnull]
  exact (hwakes (by simp [hready])).1.1

end Waeio
