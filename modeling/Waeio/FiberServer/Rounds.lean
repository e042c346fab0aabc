import Waeio.FiberServer.CleanUp
import Waeio.FiberServer.Isolation

/-!
# How long the server stays away from poll

Between two polls the program sweeps the table, in which each fiber it resumes runs as long
as it likes: the listener accepts until the table is full or the host has no more
connections, and the fiber of a connection goes on receiving and sending as long as there is
something to receive. So a client that never stops sending keeps the server to itself
(`Waeio.fiberServer_starves`). It takes that, though: a part of a run without a poll has a
number of steps that is bounded by the size of the table, and two more for each receive that
succeeds (`Waeio.fiberServer_comesBack`).

`Waeio.FiberServer.budget` is the number of steps that are left at most, if no receive succeeds.
A receive that does pays for the send behind it, and for itself.
-/

namespace Waeio

namespace FiberServer

open HostPoll
open Http (Call Answer Label Site Pc Frame Parser)

variable {phr : Parser} {s t u : Program} {a : Label} {created : List ℤ} {site : Site}
  {f i n : ℕ} {d : ℤ}

/-! ### The budget -/

/-- How many steps are left at most behind the entry, in the sweep or in the clean-up. -/
def restOf (s : Program) : Site → ℕ
  | .sweep i => 4 * (s.pollfdSize - (i + 1)) + (4 * MAX_CONNECTIONS + 2)
  | .kill i => 4 * (s.srv.wfd.length - 1 - (i + 1)) + 1

/-- How many connections may be accepted in the fiber of the entry: the listener is the first
entry. -/
def room : Site → ℕ
  | .sweep 0 => MAX_CONNECTIONS
  | .sweep (_ + 1) | .kill _ => 0

/-- **How many steps are left at most** until the next poll, if no receive succeeds. -/
def budget (s : Program) : ℕ :=
  match s.pc with
  | .listen => 4 * MAX_CONNECTIONS + 2
  | .sweep i => 4 * (s.pollfdSize - i) + (4 * MAX_CONNECTIONS + 2) + room (.sweep i)
  | .resume site => restOf s site + 3 + room site
  | .accept site _ => restOf s site + 2 + (MAX_CONNECTIONS - s.srv.wfd.length)
  | .recv site _ => restOf s site + 2
  | .send site _ _ => restOf s site + 3
  | .closeDone i _ _ => restOf s (.sweep i) + 1
  | .closeKill i => restOf s (.kill i) + 1
  | .kill i => 4 * (s.srv.wfd.length - i) + 1
  | .poll | .exited | .aborted | .stray => 0

/-- A receive that succeeds. -/
def Receives : Label → Prop
  | .call (.recv _ _) a => 0 < a.ret
  | _ => False

instance : DecidablePred Receives
  | .tau | .resume _ _ _ => inferInstanceAs (Decidable False)
  | .call (.recv _ _) a => inferInstanceAs (Decidable (0 < a.ret))
  | .call (.listen _ _) _ | .call (.poll _ _) _ | .call (.accept _) _ | .call (.send _ _) _
  | .call (.close _) _ => inferInstanceAs (Decidable False)

/-- What a step pays for. -/
def credit (a : Label) : ℕ := if Receives a then 2 else 0

/-- The number of receives that succeed. -/
def receptions (l : List Label) : ℕ := l.countP (Receives ·)

theorem sum_credit (l : List Label) : (l.map credit).sum = 2 * receptions l := by
  induction l with
  | nil => rfl
  | cons a l ih =>
    rw [List.map_cons, List.sum_cons, ih, receptions, receptions, List.countP_cons, credit]
    by_cases ha : Receives a
    · simp only [ha, if_true, decide_true]
      omega
    · simp only [ha, if_false, decide_false, Bool.false_eq_true]
      omega

/-- What is left behind the entry depends on the two lengths only. -/
theorem restOf_congr (hsize : t.pollfdSize = s.pollfdSize)
    (hlen : t.srv.wfd.length = s.srv.wfd.length) (site : Site) : restOf t site = restOf s site := by
  cases site with
  | sweep i => rw [restOf, restOf, hsize]
  | kill i => rw [restOf, restOf, hlen]

/-! ### Back in `main` -/

theorem budget_nextRound (h : Inv created (nextRound s)) :
    budget (nextRound s) ≤ 4 * MAX_CONNECTIONS + 1 := by
  rw [nextRound] at h ⊢
  split_ifs at h ⊢
  · have hle : s.srv.wfd.length ≤ MAX_CONNECTIONS := h.1.length_le
    dsimp only [budget]
    omega
  · exact Nat.zero_le _

/-- **When a fiber stops**, its entry costs one more step at most. -/
theorem budget_back (status : Scheduler.FiberStatus) (s : Program) (site : Site) :
    budget (back status s site) ≤ restOf s site + 1 := by
  cases site with
  | sweep i =>
    cases status with
    | ok | error | other => exact le_rfl
    | yield => exact Nat.le_succ _
  | kill i => exact le_rfl

theorem budget_yields (frame : Frame) : budget (yields site f frame s) ≤ restOf s site + 1 := by
  have hrest : restOf (s.setFrame f frame) site = restOf s site := restOf_congr rfl rfl site
  exact hrest ▸ budget_back .yield (s.setFrame f frame) site

theorem budget_returns : budget (returns site f s) ≤ restOf s site + 1 := by
  have hrest : restOf (s.setFrame f .finished) site = restOf s site := restOf_congr rfl rfl site
  exact hrest ▸ budget_back .ok (s.setFrame f .finished) site

/-! ### The listener -/

/-- **The listener stops, or accepts once more.** -/
def MayAccept (site : Site) (f : ℕ) (s t : Program) : Prop :=
  budget t ≤ restOf s site + 1 ∨
    t.pc = .accept site f ∧ budget t = restOf s site + 2 + (MAX_CONNECTIONS - s.srv.wfd.length)

theorem mayAccept_accept (d : ℤ) :
    MayAccept site f s { s with newFd := d, pc := .accept site f } := by
  refine Or.inr ⟨rfl, ?_⟩
  cases site <;> rfl

theorem mayAccept_awaitSpace : MayAccept site f s (awaitSpace site f s) := by
  rw [awaitSpace]
  split_ifs
  · exact Or.inl (budget_yields _)
  · exact mayAccept_accept _

theorem mayAccept_listenerLoop : MayAccept site f s (listenerLoop site f s) := by
  rw [listenerLoop]
  split_ifs
  · exact Or.inl budget_returns
  · exact mayAccept_awaitSpace

theorem mayAccept_acceptMore : MayAccept site f s (acceptMore site f s) := by
  rw [acceptMore]
  split_ifs
  · exact mayAccept_accept _
  · exact mayAccept_listenerLoop

theorem mayAccept_enterListener (frame : Frame) :
    MayAccept site f s (enterListener site f frame s) := by
  unfold enterListener
  split
  · have hrest : restOf { s with newFd := -1 } site = restOf s site := restOf_congr rfl rfl site
    have hloop : MayAccept site f { s with newFd := -1 }
        (listenerLoop site f { s with newFd := -1 }) := mayAccept_listenerLoop
    rwa [MayAccept, hrest] at hloop
  · split_ifs
    · exact Or.inl budget_returns
    · exact mayAccept_awaitSpace
  · split_ifs
    · exact Or.inl budget_returns
    · exact mayAccept_acceptMore

/-- The listener is the first entry of the sweep. -/
theorem MayAccept.budget_le (h : MayAccept site f s t) (ht : Inv created t) :
    budget t ≤ restOf s site + 2 + room site := by
  rcases h with h | ⟨hpc, h⟩
  · omega
  · rw [Inv, hpc] at ht
    obtain ⟨-, -, rfl, -⟩ := ht
    rw [h, room]
    omega

/-! ### The fiber of a connection -/

theorem budget_receive : budget (receive site f s) = restOf s site + 2 := by
  cases site <;> rfl

theorem budget_enterConnection (frame : Frame) :
    budget (enterConnection site f frame s) ≤ restOf s site + 2 := by
  unfold enterConnection
  split
  · exact budget_receive.le
  · split_ifs
    · exact budget_returns.trans (Nat.le_succ _)
    · exact budget_receive.le

theorem budget_respond (now : Http.Tm) :
    budget (respond phr now site f s) ≤ restOf s site + 3 := by
  rw [respond]
  obtain ⟨globals, quit, _ | rc⟩ := Http.answer phr now s.globals
  · refine budget_returns.trans ?_
    cases site <;> exact Nat.add_le_add_left (by decide) _
  · cases site <;> exact le_rfl

/-- **A receive** is followed by a send only if it succeeds. -/
theorem budget_received (hpc : s.pc = .recv site f) (d : ℤ) (n : ℕ) (a : Answer) :
    budget (received phr s site f a) < budget s + credit (.call (.recv d n) a) := by
  have hs : budget s = restOf s site + 2 := by rw [budget, hpc]
  have hstops : ∀ u : Program, restOf u site = restOf s site →
      budget (yields site f .again u) < budget s ∧ budget (returns site f u) < budget s := by
    intro u hu
    have hyields : budget (yields site f .again u) ≤ restOf u site + 1 := budget_yields _
    have hreturns : budget (returns site f u) ≤ restOf u site + 1 := budget_returns
    omega
  have hrest : ∀ call, restOf { s with srv := s.srv.emit (.call call) } site = restOf s site :=
    fun _ => restOf_congr rfl rfl site
  rw [received, wasioRecv]
  by_cases hpos : 0 < a.ret
  · have hcredit : credit (.call (.recv d n) a) = 2 := if_pos hpos
    rw [if_neg (by omega), if_neg (by omega), hcredit]
    dsimp only
    split_ifs
    · refine lt_of_le_of_lt (budget_respond a.now) ?_
      have hsame : restOf { s with
          srv := s.srv.emit (.call (.recv s.srv.fd Http.BUFFER_SIZE))
          globals := s.globals.received (a.received Http.BUFFER_SIZE)
          nbytes := a.ret.toNat } site = restOf s site := restOf_congr rfl rfl site
      rw [hsame, hs]
      omega
    · exact Nat.add_pos_right _ (by decide)
  · have hcredit : credit (.call (.recv d n) a) = 0 := if_neg hpos
    rw [hcredit, Nat.add_zero]
    split_ifs
    · exact (hstops _ (hrest _)).2
    · cases translateError a.errno with
      | eagain => exact (hstops _ (hrest _)).1
      | ok | error | efull | econn => exact (hstops _ (hrest _)).2
    · omega

theorem budget_sent (hpc : s.pc = .send site f n) (a : Answer) :
    budget (sent s site f n a) < budget s := by
  have hs : budget s = restOf s site + 3 := by rw [budget, hpc]
  have hrest : ∀ (call : HostCall) (m : ℕ), restOf
      { s with srv := s.srv.emit (.call call), nbytes := m } site = restOf s site :=
    fun _ _ => restOf_congr rfl rfl site
  rw [sent]
  dsimp only
  split_ifs
  · refine lt_of_le_of_lt budget_returns ?_
    rw [hrest, hs]
    omega
  · rw [budget_receive, hrest, hs]
    omega

/-! ### The steps -/

/-- **Each connection the listener accepts** takes away room for another. -/
theorem budget_accepted (hpc : s.pc = .accept site f) (h : Inv created s) (a : Answer) :
    budget (accepted s site f a) < budget s := by
  have hs : budget s = restOf s site + 2 + (MAX_CONNECTIONS - s.srv.wfd.length) := by
    rw [budget, hpc]
  rw [Inv, hpc] at h
  obtain ⟨hfiber, rfl, rfl, hlt⟩ := h
  have hcap : s.srv.wfd.capacity = MAX_CONNECTIONS := hfiber.atSite.1.capacity_eq
  have hlt' : s.srv.wfd.length < s.srv.wfd.capacity := hlt.trans_eq hcap.symm
  have hcaplt : s.srv.wfd.capacity < 2 ^ 32 := hcap ▸ MAX_CONNECTIONS_lt
  rw [accepted]
  by_cases hneg : a.ret < 0
  · rw [wasioAccept_of_neg hlt' _ hneg]
    have hlast : restOf s (.sweep 0) + 1 < budget s := by omega
    rw [translateError]
    split_ifs
    · exact lt_of_le_of_lt (budget_yields _) hlast
    · exact lt_of_le_of_lt budget_returns hlast
  · have hpred : Uint32.pred (s.srv.wfd.length + 1) = s.srv.wfd.length :=
      Uint32.pred_of_pos (Nat.succ_pos _)
    rw [wasioAccept_of_nonneg hlt' hcaplt _ hneg]
    dsimp only
    rw [hpred]
    -- the program with the new entry
    let u : Program := { s.setFrame (s.srv.allocated + 1) .fresh with
      srv := (s.srv.accepted a.ret).emit (.call (.accept s.srv.fd)), newFd := a.ret }
    have hrest : restOf u (.sweep 0) = restOf s (.sweep 0) := rfl
    have hlen : u.srv.wfd.length = s.srv.wfd.length + 1 := rfl
    have hmore : budget (acceptMore (.sweep 0) listenerFiber u) < budget s := by
      have haccept : MayAccept (.sweep 0) listenerFiber u
          (acceptMore (.sweep 0) listenerFiber u) := mayAccept_acceptMore
      rcases haccept with h | ⟨-, h⟩
      · omega
      · rw [hrest, hlen] at h
        omega
    split_ifs
    · exact hmore
    · rw [hs]
      exact Nat.add_pos_left (Nat.succ_pos _) _

/-- A step of `main` that neither calls the host nor resumes a fiber. -/
theorem budget_tauStep (hstep : tauStep s = some t) (ht : Inv created t) :
    budget t < budget s := by
  rw [tauStep] at hstep
  split at hstep
  · rename_i i hpc
    have hs : budget s =
        4 * (s.pollfdSize - i) + (4 * MAX_CONNECTIONS + 2) + room (.sweep i) := by
      rw [budget, hpc]
    have hend : ∀ u : Program, Inv created (sweepEnd u) → budget (sweepEnd u) < budget s := by
      intro u hu
      rw [sweepEnd] at hu ⊢
      have hround := budget_nextRound hu
      omega
    dsimp only at hstep
    split_ifs at hstep with hi <;> obtain rfl := Option.some.inj hstep
    · change 4 * (s.pollfdSize - (i + 1)) + (4 * MAX_CONNECTIONS + 2) + 0 < budget s
      omega
    · change 4 * (s.pollfdSize - (i + 1)) + (4 * MAX_CONNECTIONS + 2) + 0 < budget s
      omega
    · exact hend _ ht
    · have hresume : restOf s (.sweep i) + 3 + room (.sweep i) < budget s := by
        rw [restOf]
        omega
      exact hresume
    · rw [hs]
      exact Nat.add_pos_left (Nat.succ_pos _) _
    · exact hend _ ht
  · rename_i i hpc
    have hs : budget s = 4 * (s.srv.wfd.length - i) + 1 := by rw [budget, hpc]
    split_ifs at hstep with hi <;> obtain rfl := Option.some.inj hstep
    · change 4 * (s.srv.wfd.length - (i + 1)) + 1 < budget s
      omega
    · change 4 * (s.srv.wfd.length - 1 - (i + 1)) + 1 + 3 + 0 < budget s
      omega
    · rw [hs]
      exact Nat.succ_pos _
  · cases hstep

/-- `fiber_resume`. -/
theorem budget_resumeStep {resumed : Bool} (hstep : resumeStep s f d resumed = some t)
    (ht : Inv created t) : budget t < budget s := by
  rw [resumeStep] at hstep
  split at hstep
  swap
  · cases hstep
  rename_i site hpc
  have hs : budget s = restOf s site + 3 + room site := by rw [budget, hpc]
  rw [Option.ite_none_right_eq_some] at hstep
  obtain ⟨-, hstep⟩ := hstep
  dsimp only at hstep
  have hrest : ∀ frame, restOf
      (({ s with srv := s.srv.emit (.resume f d) } : Program).setFrame f frame) site =
        restOf s site := fun _ => restOf_congr rfl rfl site
  split_ifs at hstep <;> obtain rfl := Option.some.inj hstep
  · have haccept := (mayAccept_enterListener _).budget_le ht
    rw [hrest] at haccept
    omega
  · refine lt_of_le_of_lt (budget_enterConnection _) ?_
    rw [hrest]
    omega
  · have hback := budget_back .error
      (({ s with srv := s.srv.emit (.resume f d) } : Program).setFrame f .finished) site
    rw [hrest] at hback
    omega
  · rw [hs]
    exact Nat.add_pos_left (Nat.succ_pos _) _

/-- **Every step but a poll** makes the budget smaller, or is paid for by a receive. -/
theorem budget_step (h : Inv created s) (hstep : Step phr s a t)
    (hpoll : ∀ fds timeout b, a ≠ .call (.poll fds timeout) b) :
    budget t < budget s + credit a := by
  have ht := h.step hstep
  rw [Step] at hstep
  cases a with
  | tau => exact budget_tauStep hstep ht
  | resume f d resumed => exact budget_resumeStep hstep ht
  | call c b =>
    obtain ⟨hc, heq⟩ := Option.ite_none_right_eq_some.mp hstep
    obtain rfl := Option.some.inj heq
    rw [answered] at ht ⊢
    cases hpc : s.pc <;> rw [Program.call, hpc] at hc <;> rw [hpc] at ht <;>
      dsimp only at hc ht ⊢
    case sweep | resume | kill | exited | aborted | stray => cases hc
    all_goals obtain rfl := Option.some.inj hc
    case poll => exact absurd rfl (hpoll _ _ b)
    case recv site f => exact budget_received hpc _ _ b
    case accept site f => exact Nat.lt_add_right _ (budget_accepted hpc h b)
    case send site f rc => exact Nat.lt_add_right _ (budget_sent hpc b)
    all_goals refine Nat.lt_add_right _ ?_
    case listen =>
      have hs : budget s = 4 * MAX_CONNECTIONS + 2 := by rw [budget, hpc]
      rw [listened] at ht ⊢
      split at ht <;> rw [hs]
      · exact lt_of_le_of_lt (budget_nextRound ht) (Nat.lt_succ_self _)
      · exact Nat.succ_pos _
      · exact Nat.succ_pos _
    case closeDone i d failed =>
      have hs : budget s = restOf s (.sweep i) + 1 := by rw [budget, hpc]
      rw [closedDone, hs]
      dsimp only
      split_ifs
      · exact Nat.lt_succ_self _
      · exact Nat.succ_pos _
    case closeKill i =>
      have hs : budget s = restOf s (.kill i) + 1 := by rw [budget, hpc]
      rw [Inv, hpc] at h
      have hlen : (closedKill s i b).srv.wfd.length = s.srv.wfd.length - 1 :=
        Uint32.pred_of_pos (Nat.zero_lt_of_lt h.2.1)
      have hnext : budget (closedKill s i b) =
          4 * ((closedKill s i b).srv.wfd.length - (i + 1)) + 1 := rfl
      rw [hnext, hlen, hs]
      exact Nat.lt_succ_self _

/-! ### Runs -/

theorem restOf_le (h : AtSite created s.frames s.srv.table s.pollfdSize s.srv.fd site) :
    restOf s site + 3 ≤ 8 * MAX_CONNECTIONS + 1 := by
  cases site with
  | sweep i =>
    have hsize := h.1.size_le
    have hlt := h.2.1
    rw [restOf]
    omega
  | kill i =>
    have hlen : s.srv.wfd.length ≤ MAX_CONNECTIONS := h.1.length_le
    have hlt : i < s.srv.wfd.length := h.2.1
    rw [restOf]
    omega

theorem room_le (site : Site) : room site ≤ MAX_CONNECTIONS := by
  rcases site with (_ | i) | i
  · exact le_rfl
  · exact Nat.zero_le _
  · exact Nat.zero_le _

/-- **The budget is bounded** by the size of the table. -/
theorem budget_le (h : Inv created s) : budget s ≤ 9 * MAX_CONNECTIONS + 2 := by
  rw [Inv] at h
  rw [budget]
  cases hpc : s.pc <;> rw [hpc] at h <;> dsimp only at h ⊢
  case listen | poll | exited | aborted => omega
  case sweep i =>
    have hsize := h.1.size_le
    have hroom := room_le (.sweep i)
    omega
  case resume site =>
    have hrest := restOf_le h.1
    have hroom := room_le site
    omega
  case accept site f =>
    have hrest := restOf_le h.1.atSite
    omega
  case recv site f | send site f n =>
    have hrest := restOf_le h.atSite
    omega
  case closeDone i d failed =>
    have hsize := h.1.size_le
    have hlt := h.2.1
    rw [restOf]
    omega
  case kill i =>
    have hlen : s.srv.wfd.length ≤ MAX_CONNECTIONS := h.1.length_le
    omega
  case closeKill i =>
    have hlen : s.srv.wfd.length ≤ MAX_CONNECTIONS := h.1.length_le
    have hlt := h.2.1
    rw [restOf]
    omega

/-- **The program is never stuck**, but at its end. -/
theorem exists_step (phr : Parser) (h : Inv created s) (hexited : s.pc ≠ .exited)
    (haborted : s.pc ≠ .aborted) : ∃ a t, Step phr s a t := by
  have hcalls : ∀ c, s.call = some c → ∃ a t, Step phr s a t := fun c hc =>
    ⟨.call c (plainAnswer 0 0 fun _ => 0), _, if_pos hc⟩
  cases hpc : s.pc with
  | exited => exact absurd hpc hexited
  | aborted => exact absurd hpc haborted
  | stray =>
    rw [Inv, hpc] at h
    exact h.elim
  | sweep i =>
    obtain ⟨t, ht⟩ : ∃ t, tauStep s = some t := by
      rw [tauStep, hpc]
      dsimp only
      split_ifs <;> exact ⟨_, rfl⟩
    exact ⟨.tau, t, ht⟩
  | kill i =>
    obtain ⟨t, ht⟩ : ∃ t, tauStep s = some t := by
      rw [tauStep, hpc]
      dsimp only
      split_ifs <;> exact ⟨_, rfl⟩
    exact ⟨.tau, t, ht⟩
  | resume site =>
    obtain ⟨t, ht⟩ : ∃ t, resumeStep s (s.srv.fibers site.index).fiber s.srv.fd true = some t := by
      rw [resumeStep, hpc]
      dsimp only
      rw [if_pos ⟨rfl, rfl⟩]
      split_ifs <;> exact ⟨_, rfl⟩
    exact ⟨.resume _ _ true, t, ht⟩
  | _ => exact hcalls _ (by rw [Program.call, hpc])

/-! ### A client that goes on sending -/

/-- **A request is answered** with the response `b`, and does not end the server. -/
structure Served (phr : Parser) (a : Answer) (b : List UInt8) : Prop where
  pos : 0 < a.ret
  response : responseTo phr a.now (a.received Http.BUFFER_SIZE) = some b
  stays : (Http.answer phr a.now
    (Http.Globals.init.received (a.received Http.BUFFER_SIZE))).2.1 = false

/-- The two calls of a request. -/
def exchange (d : ℤ) (a : Answer) (b : List UInt8) (c : Answer) : List Label :=
  [.call (.recv d Http.BUFFER_SIZE) a, .call (.send d b) c]

/-- After the receive the response is to be sent. -/
theorem Served.received {a : Answer} {b : List UInt8} (h : Served phr a b)
    (hinit : s.globals = .init) (hend : s.srv.endServer = false) :
    ∃ rc, (received phr s site f a).pc = .send site f rc ∧
      (received phr s site f a).srv.endServer = false ∧
      (received phr s site f a).srv.fd = s.srv.fd ∧
      Http.contents (received phr s site f a).globals.resbuf rc = b := by
  have hpos := h.pos
  have hcount : 0 < a.ret.toNat := by omega
  have hresponse := h.response
  have hstays := h.stays
  rw [responseTo] at hresponse
  rw [FiberServer.received, wasioRecv, if_neg (by omega), if_neg (by omega)]
  dsimp only
  rw [if_pos hcount, respond, hinit]
  cases hanswer : Http.answer phr a.now (Http.Globals.init.received
      (a.received Http.BUFFER_SIZE)) with
  | mk globals rest =>
    obtain ⟨quit, rc⟩ := rest
    rw [hanswer] at hresponse hstays
    obtain ⟨rc, rfl, hb⟩ := Option.map_eq_some_iff.mp hresponse
    obtain rfl : quit = false := hstays
    refine ⟨rc, rfl, ?_, rfl, hb⟩
    exact (Bool.or_false _).trans hend

/-- **One request**, and the fiber is where it was. -/
theorem serve_one {l : List Label} (h : Runs phr l s) (hpc : s.pc = .recv site f)
    (hend : s.srv.endServer = false) {a : Answer} {b : List UInt8} (ha : Served phr a b)
    (c : Answer) :
    ∃ t, Runs phr (l ++ exchange s.srv.fd a b c) t ∧
      t.pc = .recv site f ∧ t.srv.endServer = false ∧ t.srv.fd = s.srv.fd := by
  have hinit : s.globals = .init := by
    have hans := Runs.answering h
    rwa [Answering, hpc] at hans
  obtain ⟨rc, hupc, huend, hufd, hb⟩ := @Served.received phr s site f a b ha hinit hend
  have hrecv : Step phr s (.call (.recv s.srv.fd Http.BUFFER_SIZE) a)
      (received phr s site f a) := by
    rw [Step, step, if_pos (by rw [Program.call, hpc]), answered, hpc]
  generalize received phr s site f a = u at hupc huend hufd hb hrecv
  have hcall : u.call = some (.send s.srv.fd b) := by
    rw [Program.call, hupc, ← hb, ← hufd]
  have hsend : Step phr u (.call (.send s.srv.fd b) c) (sent u site f rc c) := by
    rw [Step, step, if_pos hcall, answered, hupc]
  have hback : sent u site f rc c = receive site f
      { u with
        srv := u.srv.emit (.call (wasioSend u.srv.fd rc c.toHostAnswer).call)
        nbytes := (wasioSend u.srv.fd rc c.toHostAnswer).count.getD u.nbytes } := by
    rw [sent]
    exact if_neg (ne_true_of_eq_false huend)
  refine ⟨_, Lts.Steps.append h (.cons hrecv (.single hsend)), ?_⟩
  rw [hback]
  exact ⟨rfl, huend, hufd⟩

/-- **Any number of requests**, each with its response and with what the host says of the send. -/
theorem serve_many {l : List Label} (h : Runs phr l s) (hpc : s.pc = .recv site f)
    (hend : s.srv.endServer = false) {es : List (Answer × List UInt8 × Answer)}
    (hes : ∀ e ∈ es, Served phr e.1 e.2.1) :
    ∃ t, Runs phr (l ++ es.flatMap fun e => exchange s.srv.fd e.1 e.2.1 e.2.2) t ∧
      t.pc = .recv site f ∧ t.srv.endServer = false ∧ t.srv.fd = s.srv.fd := by
  induction es using List.reverseRecOn with
  | nil => exact ⟨s, by rwa [List.flatMap_nil, List.append_nil], hpc, hend, rfl⟩
  | append_singleton es e ih =>
    obtain ⟨t, ht, htpc, htend, htfd⟩ := ih fun e he => hes e (List.mem_append_left _ he)
    have he : Served phr e.1 e.2.1 := hes e (List.mem_append_right _ List.mem_cons_self)
    obtain ⟨u, hu, hupc, huend, hufd⟩ := serve_one ht htpc htend he e.2.2
    rw [htfd, List.append_assoc] at hu
    refine ⟨u, ?_, hupc, huend, hufd.trans htfd⟩
    rwa [List.flatMap_append, List.flatMap_singleton]

end FiberServer

open FiberServer

/-- **The server comes back to its poll.** In every run, a part without a poll has at most nine
steps for each place in the table, and two more for each receive that succeeds, whatever the
host answers otherwise; and the program only stops where it has ended, or where an assertion
has failed. -/
theorem fiberServer_comesBack (phr : Http.Parser) (l₁ l₂ : List Http.Label)
    (s : FiberServer.Program) (h : FiberServer.Runs phr (l₁ ++ l₂) s)
    (hpoll : ∀ fds timeout a, Http.Label.call (.poll fds timeout) a ∉ l₂) :
    l₂.length ≤ 9 * MAX_CONNECTIONS + 2 + 2 * receptions l₂ ∧
      ((∀ a t, ¬FiberServer.Step phr s a t) → s.pc = .exited ∨ s.pc = .aborted) := by
  obtain ⟨u, hu, hrest⟩ := Lts.Steps.split h
  have hguarded := hrest.guarded_of_forall
    (C := fun a => ∀ fds timeout b, a ≠ .call (.poll fds timeout) b)
    (by rintro a ha fds timeout b rfl; exact hpoll fds timeout b ha)
  have hlen := hguarded.length_le_add (I := fun s => ∃ created, Inv created s) (m := budget)
    (w := credit) (fun s a t hinv hstep => by
      obtain ⟨created, hinv⟩ := hinv
      exact ⟨⟨_, hinv.step hstep.1⟩, budget_step hinv hstep.1 hstep.2⟩) ⟨_, Runs.inv hu⟩
  have hbound := budget_le (Runs.inv hu)
  rw [sum_credit] at hlen
  refine ⟨by omega, fun hstuck => ?_⟩
  by_contra hends
  obtain ⟨hexited, haborted⟩ := not_or.mp hends
  obtain ⟨a, t, hstep⟩ := exists_step phr (Runs.inv h) hexited haborted
  exact hstuck a t hstep

/-- A client connects and closes its connection. -/
theorem fiberServer_comesBack_oneClient :
    ∃ l s, FiberServer.Runs (fun _ => ⟨-1, none, 0, 1⟩) (oneClient ++ l) s ∧ s.pc = .sweep 2 ∧
      l.length ≤ 9 * MAX_CONNECTIONS + 2 + 2 * receptions l := by
  obtain ⟨s, hs, hpc⟩ : ∃ s ∈ Lts.exec (FiberServer.step fun _ => ⟨-1, none, 0, 1⟩) .start
      (oneClient ++ [.resume 2 5 true,
        .call (.recv 5 Http.BUFFER_SIZE) (plainAnswer 0 0 fun _ => 0),
        .call (.close 5) (plainAnswer 0 0 fun _ => 0)]), s.pc = .sweep 2 := by
    decide +kernel
  have hrun := runs_of_exec hs
  exact ⟨_, s, hrun, hpc, (fiberServer_comesBack _ _ _ s hrun (by simp)).1⟩

/-- **A client that goes on sending keeps the server to itself.** In every run, whenever a
fiber is at its receive and the server is not to end, the next steps may be any requests on the
same descriptor that are answered, each received and its response sent, whatever the host says
of the sends: no other fiber runs, the server does not poll, and after them the fiber is at its
receive again, with the same descriptor and the server still not to end. -/
theorem fiberServer_starves (phr : Http.Parser) (l : List Http.Label) (s : FiberServer.Program)
    (h : FiberServer.Runs phr l s) (site : Http.Site) (f : ℕ) (hpc : s.pc = .recv site f)
    (hend : s.srv.endServer = false) (es : List (Http.Answer × List UInt8 × Http.Answer))
    (hes : ∀ e ∈ es, Served phr e.1 e.2.1) :
    ∃ t, FiberServer.Runs phr
        (l ++ es.flatMap fun e => exchange s.srv.fd e.1 e.2.1 e.2.2) t ∧
      t.pc = .recv site f ∧ t.srv.endServer = false ∧ t.srv.fd = s.srv.fd :=
  serve_many h hpc hend hes

/-- A client that sends bad requests, one byte and two bytes in turn; the host takes the first
of the two responses and fails to send the second. -/
theorem fiberServer_starves_oneClient :
    ∃ b b' t, FiberServer.Runs (fun _ => ⟨-1, none, 0, 1⟩) (oneClient ++ [.resume 2 5 true] ++
        (List.replicate 1000 [(plainAnswer 1 0 fun _ => 0, b, plainAnswer 111 0 fun _ => 0),
          (plainAnswer 2 0 fun _ => 0, b', plainAnswer (-1) 0 fun _ => 0)]).flatten.flatMap
            fun e => exchange 5 e.1 e.2.1 e.2.2) t ∧
      t.pc = .recv (.sweep 1) 2 ∧ t.srv.endServer = false := by
  obtain ⟨s, hs, hpc, hend, hfd⟩ : ∃ s ∈ Lts.exec (FiberServer.step fun _ => ⟨-1, none, 0, 1⟩)
      .start (oneClient ++ [.resume 2 5 true]), s.pc = .recv (.sweep 1) 2 ∧
        s.srv.endServer = false ∧ s.srv.fd = 5 := by
    decide +kernel
  have hserved : ∀ n ∈ [(1 : ℤ), 2], ∃ b, Served (fun _ => ⟨-1, none, 0, 1⟩)
      (plainAnswer n 0 fun _ => 0) b := by
    intro n hn
    have hpos : 0 < (plainAnswer n 0 fun _ => 0).ret := by
      revert n
      decide
    have hstays : (Http.answer (fun _ => ⟨-1, none, 0, 1⟩) (plainAnswer n 0 fun _ => 0).now
        (Http.Globals.init.received
          ((plainAnswer n 0 fun _ => 0).received Http.BUFFER_SIZE))).2.1 = false := by
      revert n
      decide +kernel
    obtain ⟨b, hb⟩ : ∃ b, responseTo (fun _ => ⟨-1, none, 0, 1⟩) (plainAnswer n 0 fun _ => 0).now
        ((plainAnswer n 0 fun _ => 0).received Http.BUFFER_SIZE) = some b := by
      refine Option.isSome_iff_exists.mp ?_
      revert n
      decide +kernel
    exact ⟨b, hpos, hb, hstays⟩
  obtain ⟨b, hb⟩ := hserved 1 (by decide)
  obtain ⟨b', hb'⟩ := hserved 2 (by decide)
  obtain ⟨t, ht, hback, hstays, -⟩ := fiberServer_starves _ _ s (runs_of_exec hs) _ _ hpc hend
    (List.replicate 1000 [(plainAnswer 1 0 fun _ => 0, b, plainAnswer 111 0 fun _ => 0),
      (plainAnswer 2 0 fun _ => 0, b', plainAnswer (-1) 0 fun _ => 0)]).flatten fun e he => by
    obtain ⟨es, hes, he⟩ := List.mem_flatten.mp he
    rw [List.eq_of_mem_replicate hes] at he
    rcases List.mem_pair.mp he with rfl | rfl
    · exact hb
    · exact hb'
  rw [hfd] at ht
  exact ⟨b, b', t, ht, hback, hstays⟩

end Waeio
