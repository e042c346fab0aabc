import Waeio.HttpServer.Code
import Waeio.Lib.Steps

/-!
# The command of the fiber that yielded

`cmd` is one variable for all fibers. `w_recv` and `w_send` set it before their first call
of the backend and not again, however often they yield, so between two yields of one call
another fiber may have set it.

The fibers run here under any scheduler (`Waeio.HttpServer.Interleaving`): whenever a fiber
stops, any fiber that can be resumed may be resumed next, with any argument, and the host
is polled, and the queues are swapped, at any time. What `handle_request` finds in `cmd`
for a fiber that yields from `w_recv` or `w_send` is the fiber's own command exactly where
the fiber was the last one to set a command.

The direction of the interest is another matter. `w_send` waits for the write bit, and the
table registers the read bit for it, so that no slot ever has the write bit
(`Waeio.WasioHost.ReadMasks`). What is left are the yields from `w_recv`
(`Waeio.HttpServer.Inv.handlesOwn_iff`).
-/

namespace Waeio

namespace HttpServer

open FiberServer (FIBER_KILL_SIGNAL FiberClosure)
open Http (Answer Tm)

/-! ### The fibers under any scheduler -/

/-- **Whose turn it is.** -/
inductive Turn
  /-- The scheduler's. -/
  | scheduler : Turn
  /-- That of a fiber, which is at a call of the host. -/
  | fiber (f : ℕ) : Turn
  /-- In `handle_request`, before the `wasio_close` for a fiber that has returned. -/
  | closing (clo : FiberClosure) : Turn
  /-- A fiber has asked to quit. -/
  | ended : Turn
  /-- The program was aborted. -/
  | aborted : Turn
  deriving DecidableEq, Repr

/-- **The fibers under any scheduler.** -/
structure Interleaving where
  /-- The state of the server. -/
  srv : Server
  /-- Whose turn it is. -/
  turn : Turn

/-- What happens in a step. -/
inductive Act
  /-- The fiber `f` is resumed with `arg`, if the fiber library manages to. -/
  | resume (f : ℕ) (arg : ℤ) (resumed : Bool) : Act
  /-- The host answers. -/
  | answer (a : Answer) : Act
  /-- The host is polled. -/
  | poll (revents : ℕ → BitVec 16) (host : HostAnswer) : Act
  /-- The queues are swapped. -/
  | swap : Act

/-- The closure of a fiber. -/
def Server.closure (s : Server) (f : ℕ) : FiberClosure := ⟨f, s.descriptor f⟩

/-- What the scheduler does when the fiber `f` has run a piece of its code: nothing while
it is at a call of the host, and else `handle_request`. -/
def back (f : ℕ) (s : Server) : Interleaving :=
  match s.frames f with
  | .running _ => ⟨s, .fiber f⟩
  | .finished => ⟨s, .closing (s.closure f)⟩
  | _ =>
    match handleYield (s.closure f) s with
    | some (true, s) => ⟨s, .scheduler⟩
    | some (false, s) => ⟨s, .ended⟩
    | none => ⟨s, .aborted⟩

/-- **One step under any scheduler.** A fiber that was not resumed before is given its
descriptor. -/
def step (env : Env) (p : Interleaving) : Act → Option Interleaving
  | .resume f arg resumed =>
    if p.turn = .scheduler ∧ (p.srv.frames f).Suspended ∧
        ((p.srv.frames f).Fresh → arg = p.srv.descriptor f) then
      some (if resumed then back f (resume env f arg p.srv) else ⟨p.srv, .aborted⟩)
    else none
  | .answer a =>
    match p.turn with
    | .fiber f =>
      match answered env f p.srv a with
      | some s => some (back f s)
      | none => some ⟨p.srv, .aborted⟩
    | .closing clo =>
      match handleDone clo p.srv a.toHostAnswer with
      | some s => some ⟨s, .scheduler⟩
      | none => some ⟨p.srv, .aborted⟩
    | _ => none
  | .poll revents host =>
    if p.turn = .scheduler then
      some ⟨{ p.srv with wfd := (wasioPoll p.srv.wfd 100 revents host).2 }, .scheduler⟩
    else none
  | .swap => if p.turn = .scheduler then some ⟨p.srv.swap, .scheduler⟩ else none

/-- A step as a transition. -/
def Tr (env : Env) (p : Interleaving) (a : Act) (q : Interleaving) : Prop :=
  step env p a = some q

/-! ### What is claimed of a yield -/

/-- **The command of the fiber that yields** in a step from `w_recv` or `w_send`, the
backend having answered `WASIO_EAGAIN`. -/
def waits (p : Interleaving) : Act → Option Cmd
  | .answer a =>
    match p.turn with
    | .fiber f =>
      match p.srv.frames f with
      | .running (.recv c buflen) =>
        if (wasioRecv p.srv.wfd c.clientfd.toNat (BUFFER_SIZE - buflen) a.toHostAnswer).1.result =
            .eagain then
          some ⟨.recv, c.clientfd⟩
        else none
      | .running (.send c _ nbytes) =>
        if (wasioSend p.srv.wfd c.clientfd.toNat nbytes a.toHostAnswer).1.result = .eagain then
          some ⟨.send, c.clientfd⟩
        else none
      | _ => none
    | _ => none
  | .resume _ _ _ | .poll _ _ | .swap => none

/-- The event a command waits for: that its descriptor can be read from, or written to. -/
def Cmd.event (c : Cmd) : BitVec 16 :=
  match c.tag with
  | .recv => POLLIN
  | .send => POLLOUT
  | .async | .yield | .quit => 0

/-- The table with the interest of a command registered: its event is added in the slot of
its descriptor. -/
def Cmd.register (c : Cmd) (wfd : WasioPollfd) : WasioPollfd :=
  let v := c.fd.toNat
  { wfd with vfds := WasioHost.addEvent (WasioHost.setFd wfd.vfds v (wfd.fds v)) v c.event }

/-- The next poll asks for the event of the command, on an open descriptor. -/
def Cmd.Awaited (c : Cmd) (wfd : WasioPollfd) : Prop :=
  (wfd.vfds c.fd.toNat).fd ≠ -1 ∧ (wfd.vfds c.fd.toNat).events &&& c.event ≠ 0

/-- **The yield is handled with the fiber's own command**: `handle_request` finds it in
`cmd`, and registers its interest, in the fiber's own descriptor and direction, and no
other. -/
def HandlesOwn (p : Interleaving) (a : Act) (q : Interleaving) : Prop :=
  ∀ c, waits p a = some c →
    q.srv.cmd = c ∧ q.srv.wfd = c.register p.srv.wfd ∧ c.Awaited q.srv.wfd

/-- **It is from `w_recv`, and no other fiber has set a command since**: the fiber that
yields was the last to. -/
def ReceivesLast (p : Interleaving) (a : Act) : Prop :=
  ∀ c ∈ waits p a, c.tag = .recv ∧ p.turn = .fiber p.srv.maker

instance (p : Interleaving) (a : Act) : Decidable (ReceivesLast p a) :=
  inferInstanceAs (Decidable (∀ c ∈ waits p a, _))

/-! ### The invariant -/

/-- **What holds in every state**: the fibers and their descriptors are in order, no slot
has the write bit, and a fiber that has returned is not yet freed while its descriptor is
closed. -/
structure Inv (p : Interleaving) : Prop where
  inOrder : InOrder p.srv
  readMasks : WasioHost.ReadMasks p.srv.wfd
  closing : ∀ clo, p.turn = .closing clo →
    clo = p.srv.closure clo.fiber ∧ p.srv.frames clo.fiber ≠ .freed

variable {env : Env} {p q : Interleaving} {a : Act} {f : ℕ} {s : Server}

theorem Inv.of_turn (h : InOrder s) (hm : WasioHost.ReadMasks s.wfd) {turn : Turn}
    (hturn : ∀ clo, turn ≠ .closing clo) : Inv ⟨s, turn⟩ :=
  ⟨h, hm, fun clo hclo => absurd hclo (hturn clo)⟩

theorem inv_scheduler (h : InOrder s) (hm : WasioHost.ReadMasks s.wfd) : Inv ⟨s, .scheduler⟩ :=
  .of_turn h hm (by simp)

theorem inv_back (h : InOrder s) (hm : WasioHost.ReadMasks s.wfd) : Inv (back f s) := by
  rw [back]
  split
  · exact .of_turn h hm (by simp)
  · next hframe =>
    refine ⟨h, hm, fun clo hclo => ?_⟩
    obtain rfl := Turn.closing.inj hclo
    exact ⟨rfl, by simp [Server.closure, hframe]⟩
  · split
    · next hreq => exact .of_turn (h.handleYield hreq) (readMasks_handleYield hm hreq) (by simp)
    · next hreq => exact .of_turn (h.handleYield hreq) (readMasks_handleYield hm hreq) (by simp)
    · exact .of_turn h hm (by simp)

/-- **Every step keeps the invariant.** -/
theorem Inv.step (h : Inv p) (htr : Tr env p a q) : Inv q := by
  rw [Tr] at htr
  cases a with
  | resume f arg resumed =>
    rw [HttpServer.step] at htr
    obtain ⟨⟨-, hsus, hfresh⟩, heq⟩ := Option.ite_none_right_eq_some.mp htr
    obtain rfl := Option.some.inj heq
    split_ifs
    · have hgo := goes_resume env hsus (fun e he => h.inOrder.fd_eq f e he) hfresh
      refine inv_back (h.inOrder.goes hsus.ne_freed hgo) ?_
      rw [hgo.wfd_eq]
      exact h.readMasks
    · exact .of_turn h.inOrder h.readMasks (by simp)
  | answer a =>
    simp only [HttpServer.step] at htr
    split at htr
    · split at htr
      · next hans =>
        obtain rfl := Option.some.inj htr
        exact inv_back (h.inOrder.answered hans) (readMasks_answered h.inOrder h.readMasks hans)
      · obtain rfl := Option.some.inj htr
        exact .of_turn h.inOrder h.readMasks (by simp)
    · next clo hturn =>
      obtain ⟨hclo, hframe⟩ := h.closing clo hturn
      split at htr
      · next hdone =>
        obtain rfl := Option.some.inj htr
        have hfd := congrArg FiberClosure.fd hclo
        exact inv_scheduler (h.inOrder.handleDone hfd hframe hdone)
          (readMasks_handleDone h.inOrder h.readMasks hfd hframe hdone)
      · obtain rfl := Option.some.inj htr
        exact .of_turn h.inOrder h.readMasks (by simp)
    · exact absurd htr nofun
  | poll revents host =>
    obtain ⟨-, heq⟩ := Option.ite_none_right_eq_some.mp htr
    obtain rfl := Option.some.inj heq
    refine inv_scheduler (h.inOrder.congr ?_ rfl rfl rfl rfl rfl) (h.readMasks.same ?_)
    · exact WasioHost.quiet_wasioPoll _ _ _ _
    · exact WasioHost.sameMasks_wasioPoll _ _ _ _
  | swap =>
    obtain ⟨-, heq⟩ := Option.ite_none_right_eq_some.mp htr
    obtain rfl := Option.some.inj heq
    exact inv_scheduler (h.inOrder.congr (.refl _) rfl rfl rfl rfl rfl) h.readMasks

/-! ### The yields from `w_recv` and `w_send` -/

theorem received_of_eagain {phr : ℕ → ℕ → Http.Parser} {c : Conn} {buflen : ℕ} {a : Answer}
    (h : (wasioRecv s.wfd c.clientfd.toNat (BUFFER_SIZE - buflen) a.toHostAnswer).1.result =
      .eagain) : received phr f c buflen s a = some (s.setFrame f (.receiving c buflen)) := by
  rw [received]
  obtain ⟨⟨call, res, vfd, count⟩, hreply⟩ : ∃ r,
    (wasioRecv s.wfd c.clientfd.toNat (BUFFER_SIZE - buflen) a.toHostAnswer).1 = r := ⟨_, rfl⟩
  rw [hreply] at h ⊢
  obtain rfl : res = .eagain := h
  rfl

theorem sent_of_eagain {c : Conn} {ans : ℤ} {nbytes : ℕ} {a : Answer}
    (h : (wasioSend s.wfd c.clientfd.toNat nbytes a.toHostAnswer).1.result = .eagain) :
    sent f c ans nbytes s a = s.setFrame f (.sending c ans nbytes) := by
  rw [sent, h]

/-- **A fiber that yields from `w_recv` or `w_send`** waits for its own command, leaves
`cmd` as it is, and is handed to `handle_request`. -/
theorem waits_cases {c : Cmd} (htr : Tr env p a q) (hwaits : waits p a = some c) :
    ∃ f frame, p.turn = .fiber f ∧ (p.srv.frames f).own = some c ∧ frame.own = some c ∧
      frame.Suspended ∧ q = back f (p.srv.setFrame f frame) := by
  cases a with
  | resume | poll | swap => exact absurd hwaits nofun
  | answer a =>
    simp only [waits] at hwaits
    split at hwaits
    case h_2 => exact absurd hwaits nofun
    next f hturn =>
    simp only [Tr, HttpServer.step, hturn, answered] at htr
    split at hwaits
    case h_3 => exact absurd hwaits nofun
    case h_1 c' buflen hframe =>
      obtain ⟨hres, hc⟩ := Option.ite_none_right_eq_some.mp hwaits
      obtain rfl := Option.some.inj hc
      simp only [hframe, received_of_eagain hres] at htr
      exact ⟨f, .receiving c' buflen, hturn, by rw [hframe]; rfl, rfl, trivial,
        (Option.some.inj htr).symm⟩
    case h_2 c' ans nbytes hframe =>
      obtain ⟨hres, hc⟩ := Option.ite_none_right_eq_some.mp hwaits
      obtain rfl := Option.some.inj hc
      simp only [hframe, sent_of_eagain hres] at htr
      exact ⟨f, .sending c' ans nbytes, hturn, by rw [hframe]; rfl, rfl, trivial,
        (Option.some.inj htr).symm⟩

/-- `handle_request` leaves `cmd` as it is. -/
theorem cmd_handleYield {clo : FiberClosure} {b : Bool} {t : Server}
    (h : handleYield clo s = some (b, t)) : t.cmd = s.cmd := by
  rw [handleYield] at h
  split at h
  case h_1 =>
    obtain ⟨rearq, -, heq⟩ := Option.map_eq_some_iff.mp h
    obtain ⟨-, rfl⟩ := Prod.mk.inj heq
    rfl
  case h_5 => cases h
  all_goals
    obtain ⟨-, rfl⟩ := Prod.mk.inj (Option.some.inj h)
    rfl

theorem cmd_back (f : ℕ) (s : Server) : (back f s).srv.cmd = s.cmd := by
  rw [back]
  split
  · rfl
  · rfl
  · split
    · next hreq => exact cmd_handleYield hreq
    · next hreq => exact cmd_handleYield hreq
    · rfl

/-- The interest of a receive is registered for the command that is found there. -/
theorem wfd_back {c : Cmd} (hown : (s.frames f).own = some c) (hsus : (s.frames f).Suspended)
    (hcmd : s.cmd = c) (htag : c.tag = .recv) (hm : WasioHost.ReadMasks s.wfd) :
    (back f s).srv.wfd = c.register s.wfd := by
  rw [back]
  cases hframe : s.frames f with
  | receiving =>
    simp only [handleYield, hcmd, htag, wasioNotifyRecv, Cmd.register, Cmd.event, hm.pollin_eq]
  | sending =>
    rw [hframe] at hown
    obtain rfl := Option.some.inj hown
    exact absurd htag (by simp)
  | running | finished | freed =>
    rw [hframe] at hsus
    exact hsus.elim
  | _ =>
    rw [hframe] at hown
    cases hown

/-- Once it is registered, the next poll asks for it. -/
theorem awaited_register {c : Cmd} {wfd : WasioPollfd} (htag : c.tag = .recv)
    (hopen : wfd.fds c.fd.toNat ≠ -1) : c.Awaited (c.register wfd) := by
  have hevent : c.event = POLLIN := by rw [Cmd.event, htag]
  constructor
  · simpa [Cmd.register, WasioHost.addEvent, WasioHost.setFd] using hopen
  · rw [Cmd.register, WasioHost.events_addEvent, if_pos rfl, hevent]
    exact WasioHost.and_pollin_or_pollin _

/-- No slot waits for an event to write. -/
theorem not_awaited_of_send {c : Cmd} {wfd : WasioPollfd} (hm : WasioHost.ReadMasks wfd)
    (htag : c.tag = .send) : ¬c.Awaited wfd := by
  rintro ⟨-, hevents⟩
  rw [Cmd.event, htag] at hevents
  exact hevents (hm.no_pollout _)

/-- The descriptor of a fiber that waits for one is open. -/
theorem InOrder.fds_of_own (h : InOrder s) {c : Cmd} (hown : (s.frames f).own = some c) :
    s.wfd.fds c.fd.toNat ≠ -1 := by
  obtain ⟨O, hO, hbound⟩ := h.table
  obtain ⟨hfd, -⟩ := Frame.fd_of_own hown
  have hlive : s.frames f ≠ .freed := by
    intro hfreed
    rw [hfreed] at hown
    exact absurd hown (by simp [Frame.own])
  obtain ⟨v, hv, hd⟩ := hbound f hlive
  rw [h.fd_eq f c.fd hfd, hd, Int.toNat_natCast]
  exact (hO.bound_iff v).mpr hv

/-- **A yield is handled with the fiber's own command exactly if it is from `w_recv` and
the fiber has set the command last.** -/
theorem Inv.handlesOwn_iff (h : Inv p) (htr : Tr env p a q) :
    HandlesOwn p a q ↔ ReceivesLast p a := by
  cases hwaits : waits p a with
  | none =>
    refine iff_of_true (fun c hc => ?_) fun c hc => ?_
    · exact absurd (hwaits.symm.trans hc) nofun
    · exact absurd (hwaits.symm.trans hc) nofun
  | some c =>
    have hq := h.step htr
    obtain ⟨f, frame, hturn, hold, hnew, hsus, rfl⟩ := waits_cases htr hwaits
    have hmaker : p.srv.maker = f ↔ p.srv.cmd = c := h.inOrder.own f c hold
    have hlast : ReceivesLast p a ↔ c.tag = .recv ∧ p.srv.maker = f := by
      simp [ReceivesLast, hwaits, hturn, eq_comm]
    rw [hlast, hmaker]
    constructor
    · intro hhandles
      obtain ⟨hcmd, -, hawaited⟩ := hhandles c hwaits
      refine ⟨(Frame.fd_of_own hold).2.resolve_right fun htag => ?_,
        (cmd_back f (p.srv.setFrame f frame)).symm.trans hcmd⟩
      exact not_awaited_of_send hq.readMasks htag hawaited
    · rintro ⟨htag, hcmd⟩ c' hc'
      obtain rfl := Option.some.inj (hwaits.symm.trans hc')
      have hwfd := wfd_back (f := f) (s := p.srv.setFrame f frame) (by simpa using hnew)
        (by simpa using hsus) hcmd htag h.readMasks
      refine ⟨(cmd_back f _).trans hcmd, hwfd, ?_⟩
      rw [hwfd]
      exact awaited_register htag (h.inOrder.fds_of_own hold)

/-! ### Runs that are computed -/

/-- A step that meets the condition `C`. -/
def stepIf (env : Env) (C : Interleaving → Act → Prop) [∀ p a, Decidable (C p a)]
    (p : Interleaving) (a : Act) : Option Interleaving :=
  if C p a then step env p a else none

theorem steps_of_stepIf {C : Interleaving → Act → Prop} [∀ p a, Decidable (C p a)] {l : List Act}
    (h : q ∈ Lts.exec (stepIf env C) p l) : Lts.Steps (Lts.Guarded (Tr env) C) p l q :=
  (Lts.exec_eq_some_iff.mp h).mono fun _ _ _ hstep =>
    let ⟨hC, htr⟩ := Option.ite_none_right_eq_some.mp hstep
    ⟨htr, hC⟩

/-- A program that is given no request. -/
def noRequest : Env := ⟨fun _ _ _ => ⟨-1, none, 0, 0⟩, fun _ _ => 0⟩

/-- An answer with a result and an error code, and no data. -/
def plainAnswer (ret errno : ℤ) : Answer where
  ret := ret
  errno := errno
  revents := fun _ => 0
  data := fun _ => 0
  now := ⟨0, 1, 0, 70, 0, 0, 0⟩

/-- The listener accepts two connections, on the slots `1` and `2`, and waits for more. -/
def twoConnections : List Act :=
  [.resume 1 0 true, .answer (plainAnswer 5 0), .answer (plainAnswer 6 0),
    .answer (plainAnswer (-1) HOST_EAGAIN), .swap]

/-- The fiber `f` is resumed with `arg`, and finds that its call would block. -/
def blocks (f : ℕ) (arg : ℤ) : List Act :=
  [.resume f arg true, .answer (plainAnswer (-1) HOST_EAGAIN)]

end HttpServer

open HttpServer

/-- **Exactly the runs that yield from `w_recv` only, and in which no other fiber sets a
command between two yields of a call, handle every yield with the fiber's own command**:
whatever the parser, the stacks, the order in which the fibers are resumed and the answers
of the host are. -/
theorem httpServer_handlesOwn_iff (env : Env) (host : HostAnswer) (s₀ : Server)
    (h : serverMain host = some s₀) (l : List Act) (p : Interleaving) :
    Lts.Steps (Lts.Upheld (Tr env) HandlesOwn) ⟨s₀, .scheduler⟩ l p ↔
      Lts.Steps (Lts.Guarded (Tr env) ReceivesLast) ⟨s₀, .scheduler⟩ l p :=
  Lts.steps_upheld_iff_guarded (I := Inv) (F := HandlesOwn) (C := ReceivesLast)
    (fun _ _ _ hinv htr _ => hinv.step htr) (fun _ _ _ hinv htr => hinv.handlesOwn_iff htr)
    (inv_scheduler (inOrder_start h) (readMasks_start h))

/-- The fiber of the first connection waits, and yields again when it is resumed. -/
theorem httpServer_handlesOwn_iff_again :
    ∃ s₀ p, serverMain ⟨3, 0⟩ = some s₀ ∧ p.srv.cmd = ⟨.recv, 1⟩ ∧
      Lts.Steps (Lts.Upheld (Tr noRequest) HandlesOwn) ⟨s₀, .scheduler⟩
        (twoConnections ++ (blocks 2 1 ++ blocks 2 0)) p := by
  obtain ⟨s₀, hstart, p, hp, hcmd⟩ : ∃ s₀ ∈ serverMain ⟨3, 0⟩,
      ∃ p ∈ Lts.exec (stepIf noRequest ReceivesLast) ⟨s₀, .scheduler⟩
        (twoConnections ++ (blocks 2 1 ++ blocks 2 0)), p.srv.cmd = ⟨.recv, 1⟩ := by
    decide +kernel
  exact ⟨s₀, p, hstart, hcmd,
    (httpServer_handlesOwn_iff noRequest ⟨3, 0⟩ s₀ hstart _ p).mpr (steps_of_stepIf hp)⟩

/-- **The interest of another connection is registered**: the fibers of two connections
wait in `w_recv`, the first one is resumed, finds that it would block once more, and yields;
`handle_request` finds the command of the second. **And a fiber that is to send waits to
receive**: the response to a request would block, and `handle_request` finds the command of
the fiber and registers the read bit. -/
theorem not_handlesOwn_blocks :
    ∃ s₀, serverMain ⟨3, 0⟩ = some s₀ ∧
      (∃ l p a q, Lts.Steps (Tr noRequest) ⟨s₀, .scheduler⟩ l p ∧ Tr noRequest p a q ∧
        waits p a = some ⟨.recv, 1⟩ ∧ q.srv.cmd = ⟨.recv, 2⟩ ∧ ¬HandlesOwn p a q) ∧
      ∃ l p a q, Lts.Steps (Tr noRequest) ⟨s₀, .scheduler⟩ l p ∧ Tr noRequest p a q ∧
        waits p a = some ⟨.send, 1⟩ ∧ q.srv.cmd = ⟨.send, 1⟩ ∧
        (q.srv.wfd.vfds 1).events = POLLIN ∧ ¬HandlesOwn p a q := by
  obtain ⟨s₀, hstart, ⟨p, hp, q, hq, hwaits, hcmd⟩, p', hp', q', hq', hwaits', hcmd', hevents⟩ :
      ∃ s₀ ∈ serverMain ⟨3, 0⟩,
        (∃ p ∈ Lts.exec (stepIf noRequest fun _ _ => True) ⟨s₀, .scheduler⟩
          (twoConnections ++ (blocks 2 1 ++ blocks 3 2 ++ [.resume 2 0 true])),
          ∃ q ∈ step noRequest p (.answer (plainAnswer (-1) HOST_EAGAIN)),
            waits p (.answer (plainAnswer (-1) HOST_EAGAIN)) = some ⟨.recv, 1⟩ ∧
              q.srv.cmd = ⟨.recv, 2⟩) ∧
        ∃ p ∈ Lts.exec (stepIf noRequest fun _ _ => True) ⟨s₀, .scheduler⟩
          (twoConnections ++ [.resume 2 1 true, .answer (plainAnswer 1 0)]),
          ∃ q ∈ step noRequest p (.answer (plainAnswer (-1) HOST_EAGAIN)),
            waits p (.answer (plainAnswer (-1) HOST_EAGAIN)) = some ⟨.send, 1⟩ ∧
              q.srv.cmd = ⟨.send, 1⟩ ∧ (q.srv.wfd.vfds 1).events = POLLIN := by
    decide +kernel
  refine ⟨s₀, hstart,
    ⟨_, p, _, q, (steps_of_stepIf hp).of_guarded, hq, hwaits, hcmd, fun h => ?_⟩,
    _, p', _, q', (steps_of_stepIf hp').of_guarded, hq', hwaits', hcmd', hevents, fun h => ?_⟩
  · have hown := (h _ hwaits).1
    rw [hcmd] at hown
    exact absurd hown (by decide)
  · obtain ⟨-, -, -, hawaited⟩ := h _ hwaits'
    have hslot : (q'.srv.wfd.vfds (Cmd.fd ⟨.send, 1⟩).toNat).events = POLLIN := hevents
    rw [hslot] at hawaited
    exact absurd hawaited (by decide)

end Waeio
