import Waeio.Lib.Steps
import Waeio.Scheduler.Basic

/-!
# The blocking calls

`waeio_accept`, `waeio_recv` and `waeio_send`, each a loop that yields a command, calls
the backend, and starts over while the descriptor is busy. Here they are machines by
themselves, whose events (`Waeio.Scheduler.Event`) are all they have to do with the rest
of the program: what a yield is resumed with, what `ctl.nconns` and `ctl.max_conns` are
when they are compared, and the table and the answer of the host at a call of the
backend. All of it may be anything at any time.

`Waeio.Scheduler.Wrapper.Protocol` is what the three have in common, read off the events
of a call from its beginning; that they have it follows from the local rules
`Waeio.Scheduler.Wrapper.Obeys`. `Waeio.Scheduler.Wrapper.frame_step` says that they
move through the frames of the scheduler's machine.
-/

namespace Waeio

namespace Scheduler

/-! ### The three calls -/

/-- **Where a blocking call is.** -/
inductive WrapperPc
  /-- Before it yields its command. -/
  | yields : WrapperPc
  /-- In `waeio_accept`, before it compares `ctl.nconns` with `ctl.max_conns`. -/
  | space : WrapperPc
  /-- In `waeio_accept`, before it yields `SUSPEND`. -/
  | suspends : WrapperPc
  /-- Before it calls the backend. -/
  | backend : WrapperPc
  /-- It has returned `value`, and set `errno` if it did. -/
  | returned (value : ℤ) (errno : Option ℤ) : WrapperPc
  deriving DecidableEq, Repr

/-- **What happens in a blocking call.** -/
inductive Event
  /-- It yields the command of `call`, and is resumed with `ans`. -/
  | yields (call : Call) (ans : ℤ) : Event
  /-- It compares `ctl.nconns` with `ctl.max_conns`. -/
  | tests (nconns maxConns : ℕ) : Event
  /-- It calls the backend, on this table and with this answer of the host. -/
  | backend (wfd : WasioPollfd) (host : HostAnswer) : Event

/-- A blocking call. -/
structure Wrapper where
  /-- The call of the interface, with its arguments. -/
  call : Call
  /-- The function of the backend it calls. -/
  backend : WasioPollfd → HostAnswer → WasioHost.Reply
  /-- What it does at an event. -/
  step : WrapperPc → Event → Option WrapperPc

/-- `if (ans == FIBER_KILL_SIGNAL) errno = FIBER_KILL_SIGNAL; return ans;` -/
def returnAns (ans : ℤ) : WrapperPc :=
  .returned ans (if ans = FIBER_KILL_SIGNAL then some FIBER_KILL_SIGNAL else none)

/-- Behind the call of the backend: return on `WASIO_OK`, start over while the
descriptor is busy, return `-1` otherwise. -/
def afterBackend (r : WasioHost.Reply) (value : ℤ) : WrapperPc :=
  match r.result with
  | .ok => .returned value none
  | .eagain => .yields
  | .error | .efull | .econn => .returned (-1) none

/-- The conversion of a `uint32_t` to the `int` that is returned. -/
def toInt (n : ℕ) : ℤ := Int.bmod n (2 ^ 32)

/-- `waeio_accept` -/
def waeioAccept (vfd : BitVec 32) : Wrapper where
  call := .accept vfd
  backend wfd host := (wasioAccept wfd vfd.toNat host).1
  step
    | .yields, .yields call ans =>
      if call = .accept vfd then some (if ans < 0 then returnAns ans else .space) else none
    | .space, .tests nconns maxConns => some (if nconns = maxConns then .suspends else .backend)
    | .suspends, .yields call ans =>
      if call = .acceptFull vfd then some (if ans < 0 then returnAns ans else .space) else none
    | .backend, .backend wfd host => some (afterBackend (wasioAccept wfd vfd.toNat host).1 0)
    | _, _ => none

/-- The loop of `waeio_recv` and `waeio_send`. -/
def transferStep (own : Call) (backend : WasioPollfd → HostAnswer → WasioHost.Reply) :
    WrapperPc → Event → Option WrapperPc
  | .yields, .yields call ans =>
    if call = own then
      some (if ans = FIBER_KILL_SIGNAL then .returned ans (some FIBER_KILL_SIGNAL) else .backend)
    else none
  | .backend, .backend wfd host =>
    let r := backend wfd host
    some (afterBackend r (toInt (r.count.getD 0)))
  | _, _ => none

/-- `waeio_recv` -/
def waeioRecv (vfd : BitVec 32) (len : ℕ) : Wrapper where
  call := .recv vfd len
  backend wfd host := (wasioRecv wfd vfd.toNat len host).1
  step := transferStep (.recv vfd len) fun wfd host => (wasioRecv wfd vfd.toNat len host).1

/-- `waeio_send` -/
def waeioSend (vfd : BitVec 32) (len : ℕ) : Wrapper where
  call := .send vfd len
  backend wfd host := (wasioSend wfd vfd.toNat len host).1
  step := transferStep (.send vfd len) fun wfd host => (wasioSend wfd vfd.toNat len host).1

/-- The host returns an `int32_t`. -/
def Event.Int32 : Event → Prop
  | .backend _ host => host.ret < 2 ^ 31
  | .yields _ _ | .tests _ _ => True

/-- The event is a yield. -/
def Event.IsYield : Event → Prop
  | .yields _ _ => True
  | .tests _ _ | .backend _ _ => False

namespace Wrapper

/-- **An event of a blocking call.** -/
def Tr (w : Wrapper) (s : WrapperPc) (e : Event) (t : WrapperPc) : Prop :=
  w.step s e = some t ∧ e.Int32

/-! ### The protocol -/

/-- What a blocking call is to return for a reply of the backend that is `WASIO_OK`. -/
def success (w : Wrapper) (r : WasioHost.Reply) : ℤ :=
  match w.call with
  | .accept _ => 0
  | _ => r.count.getD 0

/-- What a blocking call returns on, when it is resumed with it. -/
def returnsOn (w : Wrapper) (ans : ℤ) : Prop :=
  match w.call with
  | .accept _ => ans < 0
  | _ => ans = FIBER_KILL_SIGNAL

/-- Where a blocking call goes on when it is resumed and does not return: to the test
for space or to the backend. -/
def resumed (w : Wrapper) : WrapperPc :=
  match w.call with
  | .accept _ => .space
  | _ => .backend

/-- The call as which `waeio_accept` waits for space. -/
def whenFull : Call → Call
  | .accept vfd => .acceptFull vfd
  | call => call

/-- **The call does not stop at `s`**, unless it has returned: what it does next it can
do whatever it is resumed with, whatever the counters are, and whatever the host
answers. -/
def GoesOn (w : Wrapper) : WrapperPc → Prop
  | .yields => ∀ ans, ∃ t, w.Tr .yields (.yields w.call ans) t
  | .space => ∀ nconns maxConns, ∃ t, w.Tr .space (.tests nconns maxConns) t
  | .suspends => ∀ ans, ∃ t, w.Tr .suspends (.yields (whenFull w.call) ans) t
  | .backend => ∀ wfd host, host.ret < 2 ^ 31 → ∃ t, w.Tr .backend (.backend wfd host) t
  | .returned _ _ => True

/-- **The protocol of a blocking call** with the events `l` behind it, which is at
`t`. -/
structure Protocol (w : Wrapper) (l : List Event) (t : WrapperPc) : Prop where
  /-- The backend is called after a yield that was not resumed with the kill signal. -/
  asked : ∀ l₁ wfd host l₂, l = l₁ ++ .backend wfd host :: l₂ →
    ∃ l₀ call ans m, l₁ = l₀ ++ .yields call ans :: m ∧ (∀ e ∈ m, ¬e.IsYield) ∧
      ans ≠ FIBER_KILL_SIGNAL
  /-- The kill signal is returned, with `errno` set, and nothing happens after it. -/
  killed : ∀ l₁ call l₂, l = l₁ ++ .yields call FIBER_KILL_SIGNAL :: l₂ →
    l₂ = [] ∧ t = .returned FIBER_KILL_SIGNAL (some FIBER_KILL_SIGNAL)
  /-- What it returns on is returned, and nothing happens after it. -/
  returns : ∀ l₁ call ans l₂, l = l₁ ++ .yields call ans :: l₂ → w.returnsOn ans →
    l₂ = [] ∧ t = returnAns ans
  /-- Resumed with anything else, it goes on to the test for space or to the backend. -/
  resumes : ∀ l₁ call ans, l = l₁ ++ [.yields call ans] → ¬w.returnsOn ans → t = w.resumed
  /-- While there is no space it suspends, and otherwise it calls the backend. -/
  tests : ∀ l₁ nconns maxConns, l = l₁ ++ [.tests nconns maxConns] →
    t = if nconns = maxConns then .suspends else .backend
  /-- When the descriptor is busy, it is back where it yields its command. -/
  retries : ∀ l₁ wfd host, l = l₁ ++ [.backend wfd host] →
    (w.backend wfd host).result = .eagain → t = .yields
  /-- While the descriptor is busy, the next thing to happen is that the command is
  yielded again. -/
  busy : ∀ l₁ wfd host e l₂, l = l₁ ++ .backend wfd host :: e :: l₂ →
    (w.backend wfd host).result = .eagain → ∃ ans, e = .yields w.call ans
  /-- A success of the backend is returned at once. -/
  done : ∀ l₁ wfd host l₂, l = l₁ ++ .backend wfd host :: l₂ →
    (w.backend wfd host).result = .ok →
    l₂ = [] ∧ t = .returned (w.success (w.backend wfd host)) none
  /-- Nothing else is returned as a success. -/
  success : ∀ value errno, t = .returned value errno → 0 ≤ value →
    ∃ l₁ wfd host, l = l₁ ++ [.backend wfd host] ∧ (w.backend wfd host).result = .ok ∧
      value = w.success (w.backend wfd host)
  /-- Any other error gives `-1` at once. -/
  failed : ∀ l₁ wfd host l₂, l = l₁ ++ .backend wfd host :: l₂ →
    (w.backend wfd host).result ≠ .ok → (w.backend wfd host).result ≠ .eagain →
    l₂ = [] ∧ t = .returned (-1) none
  /-- Until it returns it goes on. -/
  goesOn : w.GoesOn t

/-- **The backend is only called while there is space**: right after the test that
`ctl.nconns` is not `ctl.max_conns`. -/
def SparesFull (l : List Event) : Prop :=
  ∀ l₁ wfd host l₂, l = l₁ ++ .backend wfd host :: l₂ →
    ∃ l₀ nconns maxConns, l₁ = l₀ ++ [.tests nconns maxConns] ∧ nconns ≠ maxConns

/-! ### The local rules -/

/-- **The local rules of a blocking call**: what leads where. -/
structure Obeys (w : Wrapper) : Prop where
  /-- A yield leads back with what it was resumed with, or on. -/
  yields : ∀ s call ans t, w.Tr s (.yields call ans) t →
    (w.returnsOn ans ∧ t = returnAns ans) ∨ (¬w.returnsOn ans ∧ t = w.resumed)
  /-- A test leads to the backend, or to another yield. -/
  tests : ∀ s nconns maxConns t, w.Tr s (.tests nconns maxConns) t →
    s = .space ∧ t = if nconns = maxConns then .suspends else .backend
  /-- The backend is called at one place, and leads where its reply says. -/
  backend : ∀ s wfd host t, w.Tr s (.backend wfd host) t →
    s = .backend ∧ t = afterBackend (w.backend wfd host) (w.success (w.backend wfd host)) ∧
      0 ≤ w.success (w.backend wfd host)
  /-- At its beginning, it yields its command. -/
  begins : ∀ e t, w.Tr .yields e t → ∃ ans, e = .yields w.call ans
  /-- Nothing happens after it has returned. -/
  returned : ∀ value errno e t, ¬w.Tr (.returned value errno) e t
  /-- It does not stop where it begins. -/
  starts : w.GoesOn .yields
  /-- It does not stop where an event leads. -/
  goesOn : ∀ s e t, w.Tr s e t → w.GoesOn t

/-- The count of bytes is an `int`, so that its conversions leave it as it is. -/
theorem toInt_of_lt {n : ℕ} (h : n < 2 ^ 31) : toInt n = n :=
  Int.bmod_eq_of_le (by omega) (by omega)

/-- Every blocking call returns on the kill signal. -/
theorem returnsOn_kill (w : Wrapper) : w.returnsOn FIBER_KILL_SIGNAL := by
  rw [returnsOn]
  split
  · decide
  · rfl

/-- What a blocking call returns on is negative. -/
theorem neg_of_returnsOn {w : Wrapper} {ans : ℤ} (h : w.returnsOn ans) : ans < 0 := by
  rw [returnsOn] at h
  split at h
  · exact h
  · rw [h]
    decide

theorem resumed_cases (w : Wrapper) : w.resumed = .space ∨ w.resumed = .backend := by
  rw [resumed]
  split
  · exact Or.inl rfl
  · exact Or.inr rfl

theorem accept_goesOn (vfd : BitVec 32) (s : WrapperPc) : (waeioAccept vfd).GoesOn s := by
  cases s with
  | yields | suspends => exact fun ans => ⟨_, if_pos rfl, trivial⟩
  | space => exact fun nconns maxConns => ⟨_, rfl, trivial⟩
  | backend => exact fun wfd host hret => ⟨_, rfl, hret⟩
  | returned => exact trivial

theorem obeys_accept (vfd : BitVec 32) : (waeioAccept vfd).Obeys where
  yields s call ans t h := by
    have hyield : ∀ own : Call,
        (if call = own then some (if ans < 0 then returnAns ans else .space) else none) = some t →
        (ans < 0 ∧ t = returnAns ans) ∨ (¬ans < 0 ∧ t = .space) := by
      intro own h
      obtain ⟨-, h⟩ := Option.ite_none_right_eq_some.mp h
      obtain rfl := Option.some.inj h
      split_ifs with hneg
      · exact Or.inl ⟨hneg, rfl⟩
      · exact Or.inr ⟨hneg, rfl⟩
    cases s with
    | yields | suspends => exact hyield _ h.1
    | space | backend | returned => exact absurd h.1 (by simp [waeioAccept])
  tests s nconns maxConns t h := by
    cases s with
    | space => exact ⟨rfl, (Option.some.inj h.1).symm⟩
    | _ => exact absurd h.1 (by simp [waeioAccept])
  backend s wfd host t h := by
    cases s with
    | backend =>
      obtain rfl := Option.some.inj h.1
      exact ⟨rfl, rfl, le_refl _⟩
    | _ => exact absurd h.1 (by simp [waeioAccept])
  begins e t h := by
    cases e with
    | yields call ans =>
      obtain ⟨rfl, -⟩ := Option.ite_none_right_eq_some.mp h.1
      exact ⟨ans, rfl⟩
    | _ => exact absurd h.1 (by simp [waeioAccept])
  returned value errno e t h := absurd h.1 (by simp [waeioAccept])
  starts := accept_goesOn vfd _
  goesOn _ _ t _ := accept_goesOn vfd t

theorem starts_transfer {w : Wrapper} (hstep : w.step = transferStep w.call w.backend) :
    w.GoesOn .yields :=
  fun ans => ⟨_, by rw [hstep]; exact if_pos rfl, trivial⟩

/-- The rules of a call with the loop of `waeio_recv` and `waeio_send`. -/
theorem obeys_transfer {w : Wrapper} (hstep : w.step = transferStep w.call w.backend)
    (hreturns : ∀ ans, w.returnsOn ans ↔ ans = FIBER_KILL_SIGNAL) (hresumed : w.resumed = .backend)
    (hsuccess : ∀ r, w.success r = r.count.getD 0)
    (hcount : ∀ wfd host, host.ret < 2 ^ 31 → (w.backend wfd host).count.getD 0 < 2 ^ 31) :
    w.Obeys where
  yields s call ans t h := by
    obtain ⟨h, -⟩ := h
    rw [hstep] at h
    cases s with
    | yields =>
      obtain ⟨-, h⟩ := Option.ite_none_right_eq_some.mp h
      obtain rfl := Option.some.inj h
      rw [hreturns, hresumed]
      split_ifs with hk
      · exact Or.inl ⟨hk, by rw [returnAns, if_pos hk]⟩
      · exact Or.inr ⟨hk, rfl⟩
    | _ => exact absurd h (by simp [transferStep])
  tests s nconns maxConns t h := by
    rw [Tr, hstep] at h
    exact absurd h.1 (by cases s <;> simp [transferStep])
  backend s wfd host t h := by
    obtain ⟨h, hret⟩ := h
    rw [hstep] at h
    cases s with
    | backend =>
      obtain rfl := Option.some.inj h
      rw [hsuccess, toInt_of_lt (hcount wfd host hret)]
      exact ⟨rfl, rfl, Int.natCast_nonneg _⟩
    | _ => exact absurd h (by simp [transferStep])
  begins e t h := by
    obtain ⟨h, -⟩ := h
    rw [hstep] at h
    cases e with
    | yields call ans =>
      obtain ⟨rfl, -⟩ := Option.ite_none_right_eq_some.mp h
      exact ⟨ans, rfl⟩
    | _ => exact absurd h (by simp [transferStep])
  returned value errno e t h := by
    rw [Tr, hstep] at h
    exact absurd h.1 (by simp [transferStep])
  starts := starts_transfer hstep
  goesOn s e t h := by
    have hbackend : w.GoesOn .backend := fun wfd host hret => ⟨_, by rw [hstep]; rfl, hret⟩
    obtain ⟨h, -⟩ := h
    rw [hstep] at h
    cases s <;> cases e <;> simp only [transferStep, reduceCtorEq] at h
    case yields.yields =>
      obtain ⟨-, h⟩ := Option.ite_none_right_eq_some.mp h
      obtain rfl := Option.some.inj h
      split_ifs
      · exact trivial
      · exact hbackend
    case backend.backend =>
      obtain rfl := Option.some.inj h
      rw [afterBackend]
      split
      · exact trivial
      · exact starts_transfer hstep
      all_goals exact trivial

theorem obeys_recv (vfd : BitVec 32) (len : ℕ) : (waeioRecv vfd len).Obeys := by
  refine obeys_transfer rfl (fun _ => Iff.rfl) rfl (fun _ => rfl) fun wfd host hret => ?_
  simp only [waeioRecv, wasioRecv]
  split_ifs
  · simp
  · simp only [Option.getD_some]
    omega

theorem obeys_send (vfd : BitVec 32) (len : ℕ) : (waeioSend vfd len).Obeys := by
  refine obeys_transfer rfl (fun _ => Iff.rfl) rfl (fun _ => rfl) fun wfd host hret => ?_
  simp only [waeioSend, wasioSend]
  split_ifs
  · simp
  · simp only [Option.getD_some]
    omega

/-! ### From the rules to the protocol -/

variable {w : Wrapper} {s t : WrapperPc} {l l₁ l₂ : List Event} {e : Event} {wfd : WasioPollfd}
  {host : HostAnswer}

/-- A call that has returned does nothing more. -/
theorem Obeys.eq_of_returned (h : w.Obeys) {value : ℤ} {errno : Option ℤ}
    (hl : Lts.Steps w.Tr (.returned value errno) l t) : l = [] ∧ t = .returned value errno :=
  hl.eq_of_stuck fun e u => h.returned value errno e u

/-- Before it calls the backend or compares, the call was resumed, and not with the kill
signal. -/
theorem Obeys.asked (h : w.Obeys) (hl : Lts.Steps w.Tr .yields l t)
    (ht : t = .backend ∨ t = .space) :
    ∃ l₀ call ans m, l = l₀ ++ .yields call ans :: m ∧ (∀ e ∈ m, ¬e.IsYield) ∧
      ans ≠ FIBER_KILL_SIGNAL := by
  -- by induction from the end of the run
  induction l using List.reverseRecOn generalizing t with
  | nil =>
    cases hl
    exact absurd ht (by simp)
  | append_singleton l e ih =>
    obtain ⟨u, v, hu, htr, hv⟩ := Lts.Steps.split_cons hl
    cases hv
    cases e with
    | yields call ans =>
      rcases h.yields _ _ _ _ htr with ⟨-, rfl⟩ | ⟨hgo, -⟩
      · exact absurd ht (by simp [returnAns])
      · exact ⟨l, call, ans, [], rfl, by simp, fun hkill => hgo (hkill ▸ w.returnsOn_kill)⟩
    | tests nconns maxConns =>
      obtain ⟨rfl, -⟩ := h.tests _ _ _ _ htr
      obtain ⟨l₀, call, ans, m, rfl, hm, hkill⟩ := ih hu (Or.inr rfl)
      refine ⟨l₀, call, ans, m ++ [.tests nconns maxConns], by simp, ?_, hkill⟩
      intro e he
      rcases List.mem_append.mp he with he | he
      · exact hm e he
      · obtain rfl := List.mem_singleton.mp he
        exact id
    | backend wfd host =>
      obtain ⟨-, rfl, -⟩ := h.backend _ _ _ _ htr
      rw [afterBackend] at ht
      split at ht <;> exact absurd ht (by simp)

/-- The last event of a call leads where it is. -/
theorem last_step (hl : Lts.Steps w.Tr .yields l t) (heq : l = l₁ ++ [e]) :
    ∃ u, w.Tr u e t := by
  subst heq
  obtain ⟨u, v, -, htr, hv⟩ := hl.split_cons
  cases hv
  exact ⟨u, htr⟩

/-- What a call returns on is the last thing that happens. -/
theorem Obeys.returns (h : w.Obeys) {call : Call} {ans : ℤ}
    (hl : Lts.Steps w.Tr .yields (l₁ ++ .yields call ans :: l₂) t) (hret : w.returnsOn ans) :
    l₂ = [] ∧ t = returnAns ans := by
  obtain ⟨u, v, -, htr, hv⟩ := hl.split_cons
  rcases h.yields _ _ _ _ htr with ⟨-, rfl⟩ | ⟨hgo, -⟩
  · exact h.eq_of_returned hv
  · exact absurd hret hgo

/-- **A blocking call that obeys the rules follows the protocol.** -/
theorem Obeys.protocol (h : w.Obeys) (hl : Lts.Steps w.Tr .yields l t) : w.Protocol l t where
  asked l₁ wfd host l₂ heq := by
    subst heq
    -- what comes before the call of the wasio layer has asked for it
    obtain ⟨u, v, hu, htr, -⟩ := hl.split_cons
    exact h.asked hu (Or.inl (h.backend _ _ _ _ htr).1)
  killed l₁ call l₂ heq := by
    subst heq
    obtain ⟨hnil, ht⟩ := h.returns hl w.returnsOn_kill
    exact ⟨hnil, ht.trans (by rw [returnAns, if_pos rfl])⟩
  returns l₁ call ans l₂ heq hret := by
    subst heq
    exact h.returns hl hret
  resumes l₁ call ans heq hret := by
    obtain ⟨u, htr⟩ := last_step hl heq
    exact ((h.yields _ _ _ _ htr).resolve_left fun hcon => hret hcon.1).2
  tests l₁ nconns maxConns heq := by
    obtain ⟨u, htr⟩ := last_step hl heq
    exact (h.tests _ _ _ _ htr).2
  retries l₁ wfd host heq hbusy := by
    obtain ⟨u, htr⟩ := last_step hl heq
    obtain ⟨-, rfl, -⟩ := h.backend _ _ _ _ htr
    rw [afterBackend, hbusy]
  busy l₁ wfd host e l₂ heq hbusy := by
    subst heq
    obtain ⟨u, v, -, htr, hv⟩ := hl.split_cons
    obtain ⟨-, rfl, -⟩ := h.backend _ _ _ _ htr
    cases hv with
    | cons hnext _ =>
      simp only [afterBackend, hbusy] at hnext
      exact h.begins _ _ hnext
  done l₁ wfd host l₂ heq hok := by
    subst heq
    obtain ⟨u, v, -, htr, hv⟩ := hl.split_cons
    obtain ⟨-, rfl, -⟩ := h.backend _ _ _ _ htr
    simp only [afterBackend, hok] at hv
    exact h.eq_of_returned hv
  success value errno hret hnonneg := by
    subst hret
    -- the last event is the one that returns
    rcases List.eq_nil_or_concat' l with rfl | ⟨l₁, e, rfl⟩
    · cases hl
    obtain ⟨u, v, -, htr, hv⟩ := hl.split_cons
    cases hv
    cases e with
    | yields call ans =>
      -- what a call returns on is negative
      rcases h.yields _ _ _ _ htr with ⟨hret, heq⟩ | ⟨-, hgo⟩
      · obtain ⟨rfl, -⟩ := WrapperPc.returned.inj heq
        have hneg := neg_of_returnsOn hret
        omega
      · rcases w.resumed_cases with hres | hres <;> exact absurd (hgo.trans hres) (by simp)
    | tests nconns maxConns =>
      obtain ⟨-, hgo⟩ := h.tests _ _ _ _ htr
      split_ifs at hgo
    | backend wfd host =>
      obtain ⟨-, heq, -⟩ := h.backend _ _ _ _ htr
      rw [afterBackend] at heq
      split at heq
      · next hok => exact ⟨l₁, wfd, host, rfl, hok, (WrapperPc.returned.inj heq).1⟩
      · exact absurd heq (by simp)
      all_goals
        obtain ⟨rfl, -⟩ := WrapperPc.returned.inj heq
        exact absurd hnonneg (by decide)
  failed l₁ wfd host l₂ heq hok hbusy := by
    subst heq
    obtain ⟨u, v, -, htr, hv⟩ := hl.split_cons
    obtain ⟨-, rfl, -⟩ := h.backend _ _ _ _ htr
    rw [afterBackend] at hv
    split at hv
    · next hres => exact absurd hres hok
    · next hres => exact absurd hres hbusy
    all_goals exact h.eq_of_returned hv
  goesOn := by
    rcases List.eq_nil_or_concat' l with rfl | ⟨l₁, e, rfl⟩
    · cases hl
      exact h.starts
    · obtain ⟨u, htr⟩ := last_step hl rfl
      exact h.goesOn _ _ _ htr

/-- `waeio_accept` comes to its call of `wasio_accept` from the test for space only. -/
theorem tests_of_accept {vfd : BitVec 32} (h : (waeioAccept vfd).Tr s e .backend) :
    ∃ nconns maxConns, e = .tests nconns maxConns ∧ nconns ≠ maxConns := by
  have hback : ∀ ans, (if ans < 0 then returnAns ans else WrapperPc.space) ≠ .backend := by
    intro ans
    split_ifs
    · exact nofun
    · exact nofun
  obtain ⟨h, -⟩ := h
  cases s with
  | yields | suspends =>
    cases e with
    | yields call ans =>
      obtain ⟨-, h⟩ := Option.ite_none_right_eq_some.mp h
      exact absurd (Option.some.inj h) (hback ans)
    | _ => exact absurd h (by simp [waeioAccept])
  | space =>
    cases e with
    | tests nconns maxConns =>
      refine ⟨nconns, maxConns, rfl, fun heq => ?_⟩
      simp [waeioAccept, heq] at h
    | _ => exact absurd h (by simp [waeioAccept])
  | backend =>
    cases e with
    | backend wfd host =>
      have heq := Option.some.inj h
      rw [afterBackend] at heq
      split at heq <;> exact absurd heq (by simp)
    | _ => exact absurd h (by simp [waeioAccept])
  | returned => exact absurd h (by simp [waeioAccept])

/-- **`waeio_accept` calls the backend only while there is space.** -/
theorem sparesFull_accept {vfd : BitVec 32} (hl : Lts.Steps (waeioAccept vfd).Tr .yields l t) :
    SparesFull l := by
  rintro l₁ wfd host l₂ rfl
  obtain ⟨u, v, hu, htr, -⟩ := hl.split_cons
  obtain ⟨rfl, -⟩ := (obeys_accept vfd).backend _ _ _ _ htr
  rcases List.eq_nil_or_concat' l₁ with rfl | ⟨l₀, e, rfl⟩
  · cases hu
  obtain ⟨u, v, -, htest, hv⟩ := hu.split_cons
  cases hv
  obtain ⟨nconns, maxConns, rfl, hne⟩ := tests_of_accept htest
  exact ⟨l₀, nconns, maxConns, rfl, hne⟩

/-! ### In the scheduler's machine -/

/-- Where the machine of the scheduler has the fiber. -/
def frame (w : Wrapper) : WrapperPc → Frame
  | .yields => .again w.call
  | .space | .suspends | .backend => .resumed w.call
  | .returned _ _ => .user

theorem frame_afterBackend (w : Wrapper) (r : WasioHost.Reply) (value : ℤ) :
    w.frame (afterBackend r value) = afterIo w.call r := by
  rw [afterBackend, afterIo]
  split <;> simp_all [frame]

/-- The frame a blocking call moves to at an event, from `p`. -/
def frameAfter (w : Wrapper) (p : Frame) : Event → Frame
  | .yields call ans => call.resume ans
  | .tests _ _ => p
  | .backend wfd host => afterIo w.call (w.backend wfd host)

/-- **The blocking calls move through the frames of the scheduler's machine.** -/
theorem frame_step {vfd : BitVec 32} {len : ℕ}
    (hw : w = waeioAccept vfd ∨ w = waeioRecv vfd len ∨ w = waeioSend vfd len)
    (h : w.Tr s e t) : w.frame t = w.frameAfter (w.frame s) e := by
  obtain ⟨h, -⟩ := h
  rcases hw with rfl | rfl | rfl
  · cases s <;> cases e <;> simp only [waeioAccept, reduceCtorEq] at h
    case yields.yields | suspends.yields =>
      obtain ⟨rfl, ht⟩ := Option.ite_none_right_eq_some.mp h
      obtain rfl := Option.some.inj ht
      dsimp only [frameAfter, Call.resume]
      split_ifs <;> rfl
    case space.tests =>
      obtain rfl := Option.some.inj h
      split_ifs <;> rfl
    case backend.backend =>
      obtain rfl := Option.some.inj h
      exact frame_afterBackend _ _ _
  all_goals
    cases s <;> cases e <;> simp only [waeioRecv, waeioSend, transferStep, reduceCtorEq] at h
    case yields.yields =>
      obtain ⟨rfl, ht⟩ := Option.ite_none_right_eq_some.mp h
      obtain rfl := Option.some.inj ht
      dsimp only [frameAfter, Call.resume]
      split_ifs <;> rfl
    case backend.backend =>
      obtain rfl := Option.some.inj h
      exact frame_afterBackend _ _ _

end Wrapper

end Scheduler

open Scheduler

end Waeio
