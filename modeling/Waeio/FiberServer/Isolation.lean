import Waeio.FiberServer.Invariant

/-!
# A client is answered from its own bytes

All fibers share one buffer for the request, one for the response, and the variables
the parser fills in. Between a receive that succeeds and the send that follows no other
fiber runs, and before the receive everything is reset. So what is sent is a function
of the bytes received, and of the clock (`Waeio.FiberServer.responseTo`), and goes where
the bytes came from.

The last label of a run is its history here: `Waeio.FiberServer.Answering` says what it
was when the program is about to send.
-/

namespace Waeio

namespace FiberServer

open HostPoll
open Http (Answer Label Site Pc Frame Parser Globals BUFFER_SIZE contents)

/-- **The response to the bytes of a client**, if it gets one. -/
def responseTo (phr : Parser) (now : Http.Tm) (data : List UInt8) : Option (List UInt8) :=
  let (globals, _, rc) := Http.answer phr now (Globals.init.received data)
  rc.map (contents globals.resbuf)

/-- A receive on a negative descriptor does not succeed. -/
def RejectsNegative (l : List Label) : Prop :=
  ∀ d n a, Label.call (.recv d n) a ∈ l → d < 0 → a.ret ≤ 0

/-- **What happened just before**, where the fiber of a connection is about to receive
or to send. -/
def Answering (phr : Parser) (last : Option Label) (s : Program) : Prop :=
  match s.pc with
  | .recv _ _ => s.globals = .init
  | .send _ _ rc => ∃ a quit, last = some (.call (.recv s.srv.fd BUFFER_SIZE) a) ∧ 0 < a.ret ∧
      Http.answer phr a.now (Globals.init.received (a.received BUFFER_SIZE)) =
        (s.globals, quit, some rc)
  | _ => True

variable {phr : Parser} {last : Option Label} {s t : Program} {f i : ℕ} {site : Site} {fd : ℤ}

/-! ### Where the program gets to -/

theorem answering_nextRound (s : Program) : Answering phr last (nextRound s) := by
  rw [nextRound]
  split_ifs <;> exact trivial

/-- The fiber of a connection resets the variables before it receives. -/
theorem answering_receive (site : Site) (f : ℕ) (s : Program) :
    Answering phr last (receive site f s) := rfl

theorem answering_plain (s : Program) (h : Plain s.pc) : Answering phr last s := by
  rw [Answering]
  cases hpc : s.pc <;> rw [hpc] at h <;> first | exact trivial | exact h.elim

theorem answering_back (status : Scheduler.FiberStatus) :
    Answering phr last (back status s site) := lands_back answering_plain status

/-- **A receive that succeeds** leads to a send only through the response to the bytes. -/
theorem answering_received (h : s.globals = .init) (a : Answer) :
    Answering phr (some (.call (.recv s.srv.fd BUFFER_SIZE) a)) (received phr s site f a) := by
  rw [received, wasioRecv]
  split_ifs with hzero hneg
  · exact answering_back _
  · cases translateError a.errno <;> exact answering_back _
  · dsimp only
    split_ifs
    · rw [respond, h]
      dsimp only
      cases hanswer : Http.answer phr a.now (Globals.init.received (a.received BUFFER_SIZE)) with
      | mk globals rest =>
        obtain ⟨quit, _ | rc⟩ := rest
        · exact answering_back _
        · exact ⟨a, quit, rfl, by omega, hanswer⟩
    · exact trivial

/-! ### The steps -/

/-- **Every step leaves behind what it did.** -/
theorem Answering.step {a : Label} (h : Answering phr last s) (hstep : Step phr s a t) :
    Answering phr (some a) t := by
  by_cases hrecv : ∃ site f, s.pc = .recv site f
  · obtain ⟨site, f, hpc⟩ := hrecv
    obtain ⟨b, rfl, rfl⟩ := step_of_recv hpc hstep
    rw [Answering, hpc] at h
    exact answering_received h b
  · exact lands_step answering_nextRound answering_receive answering_plain hstep
      fun site f hpc => hrecv ⟨site, f, hpc⟩

/-- **In every run**, the last step is what led to a send. -/
theorem Runs.answering {l : List Label} (h : Runs phr l s) : Answering phr l.getLast? s := by
  have hlast : l.foldl (fun _ a => some a) (none : Option Label) = l.getLast? := by
    induction l using List.reverseRecOn with
    | nil => rfl
    | append_singleton l a _ => rw [List.foldl_concat, List.getLast?_concat]
  rw [← hlast]
  exact Lts.Steps.invariant_foldl (h := fun _ a => some a) (P := Answering phr)
    (fun _ _ _ _ hans hstep => hans.step hstep) h trivial

/-- **What a fiber sends.** The bytes are the response to those it has received just
before, from the same descriptor, which is that the fiber was created for. -/
theorem Runs.sends {l : List Label} (h : Runs phr l s) (hhost : RejectsNegative l) {rc : ℕ}
    (hpc : s.pc = .send site f rc) :
    ∃ l₀ a, l = l₀ ++ [.call (.recv s.srv.fd BUFFER_SIZE) a] ∧ 0 < a.ret ∧
      responseTo phr a.now (a.received BUFFER_SIZE) = some (contents s.globals.resbuf rc) ∧
      (descriptors l)[f - 1]? = some s.srv.fd := by
  have hans := h.answering
  have hinv := h.inv
  rw [Answering, hpc] at hans
  rw [Inv, hpc] at hinv
  obtain ⟨a, quit, hlast, hret, hanswer⟩ := hans
  obtain ⟨l₀, rfl⟩ := List.getLast?_eq_some_iff.mp hlast
  refine ⟨l₀, a, rfl, hret, ?_, ?_⟩
  · rw [responseTo, hanswer]
    rfl
  · have hsignal := hinv.atSite.signalFor_eq
    rw [hinv.fiber_eq] at hsignal
    cases site with
    | sweep i => exact hsignal
    | kill i =>
      -- the kill signal is no descriptor, so nothing was received from it
      have hkill : s.srv.fd = FIBER_KILL_SIGNAL := hinv.atSite.2.2
      have hneg : s.srv.fd < 0 := by
        rw [hkill]
        decide
      exact absurd (hhost _ _ a (List.mem_append_right _ List.mem_cons_self) hneg)
        (not_le.mpr hret)

/-- What the program is about to call. -/
theorem call_eq_send {d : ℤ} {b : List UInt8} (h : s.call = some (.send d b)) :
    ∃ site f rc, s.pc = .send site f rc ∧ d = s.srv.fd ∧ b = contents s.globals.resbuf rc := by
  cases hpc : s.pc with
  | send site f rc =>
    rw [Program.call, hpc] at h
    obtain ⟨rfl, rfl⟩ := Http.Call.send.inj (Option.some.inj h)
    exact ⟨_, _, _, rfl, rfl, rfl⟩
  | _ =>
    rw [Program.call, hpc] at h
    exact absurd h (by simp)

/-- In the run, the bytes `b` are sent on `d` after the receive that was answered `a`. -/
def Responds (l : List Label) (d : ℤ) (a : Answer) (b : List UInt8) : Prop :=
  ∃ l₁ l₂ n a', l = l₁ ++ .call (.recv d n) a :: .call (.send d b) a' :: l₂

/-- A part of a run. -/
theorem RejectsNegative.of_append {l m : List Label} (h : RejectsNegative (l ++ m)) :
    RejectsNegative l :=
  fun d n a ha => h d n a (List.mem_append_left _ ha)

/-- The descriptors received from. -/
def receivedFrom (l : List Label) : List ℤ :=
  l.filterMap fun
    | .call (.recv d _) _ => some d
    | _ => none

theorem rejectsNegative_of_receivedFrom {l : List Label} (h : ∀ d ∈ receivedFrom l, 0 ≤ d) :
    RejectsNegative l := fun d _ _ ha hneg =>
  absurd (h d (List.mem_filterMap.mpr ⟨_, ha, rfl⟩)) (not_le.mpr hneg)

/-- **Before a send in a run**, the same descriptor was received from. -/
theorem Runs.before_send {l l₁ l₂ : List Label} {d : ℤ} {b : List UInt8} {a' : Answer}
    (h : Runs phr l s) (hhost : RejectsNegative l) (hl : l = l₁ ++ .call (.send d b) a' :: l₂) :
    ∃ l₀ a, l₁ = l₀ ++ [.call (.recv d BUFFER_SIZE) a] ∧ 0 < a.ret ∧
      responseTo phr a.now (a.received BUFFER_SIZE) = some b ∧
      ∃ u site f rc, Runs phr l₁ u ∧ u.pc = .send site f rc ∧
        (descriptors l₁)[f - 1]? = some d := by
  subst hl
  obtain ⟨u, hu, hrest⟩ := Lts.Steps.split h
  cases hrest with
  | cons hstep _ =>
    obtain ⟨hcall, -⟩ := Option.ite_none_right_eq_some.mp hstep
    obtain ⟨site, f, rc, hpc, rfl, rfl⟩ := call_eq_send hcall
    obtain ⟨l₀, a, hl₀, hret, hresponse, hfd⟩ := Runs.sends hu hhost.of_append hpc
    exact ⟨l₀, a, hl₀, hret, hresponse, u, site, f, rc, hu, hpc, hfd⟩

theorem Runs.responseTo_eq {l : List Label} {d : ℤ} {a : Answer} {b : List UInt8}
    (h : Runs phr l s) (hhost : RejectsNegative l) (hr : Responds l d a b) :
    responseTo phr a.now (a.received BUFFER_SIZE) = some b := by
  obtain ⟨l₁, l₂, n, a', rfl⟩ := hr
  obtain ⟨l₀, c, heq, -, hresponse, -⟩ := h.before_send hhost
    (List.append_cons l₁ (.call (.recv d n) a) (.call (.send d b) a' :: l₂))
  obtain ⟨-, rfl⟩ := Label.call.inj (List.head_eq_of_cons_eq (List.append_inj_right' heq rfl))
  exact hresponse

/-! ### A request -/

/-- The parser, on the request `quitRequest`. -/
def quitParser : Parser := fun b =>
  if b.take 31 = Http.bytes "GET /quit HTTP/1.1\r\nHost: a\r\n\r\n" then ⟨31, some 4, 5, 1⟩
  else ⟨-2, none, 0, 0⟩

/-- The host hands over a request. -/
def quitAnswer : Answer where
  ret := 31
  errno := 0
  revents := fun _ => 0
  data := fun k => (Http.bytes "GET /quit HTTP/1.1\r\nHost: a\r\n\r\n").getD k 0
  now := ⟨4, 1, 0, 70, 0, 0, 0⟩

/-- A client asks the server to quit. -/
def oneRequest : List Label :=
  oneClient ++ [.resume 2 5 true, .call (.recv 5 BUFFER_SIZE) quitAnswer]

end FiberServer

open FiberServer Http

/-- **A client is answered from its own bytes**, in every run: each byte string that is
sent is the response to what was received in the step before, on the same descriptor,
which is the one the sending fiber was created for; and so two runs that agree on the
bytes received send the same. -/
theorem fiberServer_isolated (phr : Parser) (l : List Label) (s : Program)
    (h : FiberServer.Runs phr l s) (hhost : RejectsNegative l) :
    (∀ l₁ d b a' l₂, l = l₁ ++ .call (.send d b) a' :: l₂ →
      ∃ l₀ a, l₁ = l₀ ++ [.call (.recv d BUFFER_SIZE) a] ∧ 0 < a.ret ∧
        responseTo phr a.now (a.received BUFFER_SIZE) = some b ∧
        ∃ u site f rc, FiberServer.Runs phr l₁ u ∧ u.pc = .send site f rc ∧
          (descriptors l₁)[f - 1]? = some d) ∧
      ∀ m t, FiberServer.Runs phr m t → RejectsNegative m → ∀ d a b e c b',
        Responds l d a b → Responds m e c b' →
        a.received BUFFER_SIZE = c.received BUFFER_SIZE → a.now = c.now → b = b' := by
  refine ⟨fun l₁ d b a' l₂ hl => h.before_send hhost hl, ?_⟩
  intro m t hm hhostm d a b e c b' hl hr hdata hnow
  have hb := h.responseTo_eq hhost hl
  have hb' := hm.responseTo_eq hhostm hr
  rw [hdata, hnow, hb'] at hb
  exact (Option.some.inj hb).symm

namespace FiberServer

/-- A parser that knows one more request. -/
def twoParser : Parser := fun b =>
  if b.take 28 = Http.bytes "GET /a HTTP/1.1\r\nHost: a\r\n\r\n" then ⟨28, some 4, 2, 1⟩
  else quitParser b

/-- The host hands over that request. -/
def lostAnswer : Answer where
  ret := 28
  errno := 0
  revents := fun _ => 0
  data := fun k => (Http.bytes "GET /a HTTP/1.1\r\nHost: a\r\n\r\n").getD k 0
  now := ⟨4, 1, 0, 70, 0, 0, 0⟩

/-- The response to it. -/
def lostResponse : List UInt8 :=
  (responseTo twoParser lostAnswer.now (lostAnswer.received BUFFER_SIZE)).getD []

/-- Two clients connect. The fiber of the first has nothing to receive yet, that of the second
receives a request and responds, and then the first is run again. -/
def interrupted : List Label :=
  [.call (.listen 8080 2048) (plainAnswer 4 0 fun _ => 0),
    .call (.poll [(4, POLLIN)] timeout) (plainAnswer 1 0 fun _ => POLLIN),
    .tau, .resume 1 4 true,
    .call (.accept 4) (plainAnswer 5 0 fun _ => 0),
    .call (.accept 4) (plainAnswer 6 0 fun _ => 0),
    .call (.accept 4) (plainAnswer (-1) HOST_EAGAIN fun _ => 0),
    .tau,
    .call (.poll [(4, POLLIN), (5, POLLIN), (6, POLLIN)] timeout)
      (plainAnswer 2 0 fun i => if i = 0 then 0 else POLLIN),
    .tau, .tau, .resume 2 5 true,
    .call (.recv 5 BUFFER_SIZE) (plainAnswer (-1) HOST_EAGAIN fun _ => 0),
    .tau, .resume 3 6 true,
    .call (.recv 6 BUFFER_SIZE) lostAnswer,
    .call (.send 6 lostResponse) (plainAnswer lostResponse.length 0 fun _ => 0),
    .call (.recv 6 BUFFER_SIZE) (plainAnswer (-1) HOST_EAGAIN fun _ => 0),
    .tau,
    .call (.poll [(4, POLLIN), (5, POLLIN), (6, POLLIN)] timeout)
      (plainAnswer 1 0 fun i => if i = 1 then POLLIN else 0),
    .tau, .tau, .resume 2 5 true]

end FiberServer

/-- The response to the first client is that to its own request, after the second client has
had the one buffer. -/
theorem fiberServer_isolated_twoClients :
    ∃ b s, FiberServer.Runs twoParser (interrupted ++ [.call (.recv 5 BUFFER_SIZE) quitAnswer] ++
        [.call (.send 5 b) (plainAnswer 112 0 fun _ => 0)]) s ∧
      responseTo twoParser quitAnswer.now (quitAnswer.received BUFFER_SIZE) = some b := by
  obtain ⟨s, hs, hpc, hfd⟩ : ∃ s ∈ Lts.exec (FiberServer.step twoParser) .start
      (interrupted ++ [.call (.recv 5 BUFFER_SIZE) quitAnswer]),
      s.pc = .send (.sweep 1) 2 112 ∧ s.srv.fd = 5 := by
    decide +kernel
  have hcall : s.call = some (.send 5 (contents s.globals.resbuf 112)) := by
    rw [Program.call, hpc, hfd]
  have hrun : FiberServer.Runs twoParser (interrupted ++
      [.call (.recv 5 BUFFER_SIZE) quitAnswer] ++
      [.call (.send 5 (contents s.globals.resbuf 112)) (plainAnswer 112 0 fun _ => 0)]) _ :=
    Lts.Steps.snoc (runs_of_exec hs) (if_pos hcall)
  have hhost : RejectsNegative (interrupted ++ [.call (.recv 5 BUFFER_SIZE) quitAnswer] ++
      [.call (.send 5 (contents s.globals.resbuf 112)) (plainAnswer 112 0 fun _ => 0)]) := by
    have hfrom : ∀ d ∈ [(5 : ℤ), 6, 6, 5], 0 ≤ d := by decide
    exact rejectsNegative_of_receivedFrom hfrom
  obtain ⟨l₀, a, hl₀, -, hresponse, -⟩ := (fiberServer_isolated twoParser _ _ hrun hhost).1
    (interrupted ++ [.call (.recv 5 BUFFER_SIZE) quitAnswer]) 5 _ _ [] rfl
  obtain ⟨-, rfl⟩ := Label.call.inj (List.head_eq_of_cons_eq (List.append_inj_right' hl₀ rfl))
  exact ⟨_, _, hrun, hresponse⟩

end Waeio
