import Waeio.HttpServer.Basic
import Waeio.WasioHost.Masks

/-!
# What a piece of a fiber's code does

Whatever the code, a fiber only moves to another frame, and may set `cmd` first
(`Waeio.HttpServer.Goes`). The command it sets is for its own descriptor, or one that says
nothing of descriptors; the frame it moves to is one of a call it has set the command for,
or was in before.

`Waeio.HttpServer.InOrder` is what this keeps, beside what accepting and closing a
connection keep: that the fibers which are not freed have descriptors of their own, bound
in the table, and that the command of a fiber which waits in `w_recv` or `w_send` is in
`cmd` exactly as long as no other fiber has set it.
-/

namespace Waeio

namespace HttpServer

open FiberServer (FIBER_KILL_SIGNAL FiberClosure)
open Http (Answer Tm)
open WasioHost (TableInv ReadMasks)

/-! ### Frames -/

/-- The descriptor a fiber keeps in its variables. -/
def Frame.fd : Frame → Option ℤ
  | .space fd | .listening fd | .running (.accept fd _) => some fd
  | .receiving c _ | .sending c _ _ | .running (.recv c _) | .running (.send c _ _) =>
    some c.clientfd
  | .fresh _ | .quitting | .finished | .freed => none

/-- **The command of a fiber** that is in `w_recv` or `w_send`. -/
def Frame.own : Frame → Option Cmd
  | .receiving c _ | .running (.recv c _) => some ⟨.recv, c.clientfd⟩
  | .sending c _ _ | .running (.send c _ _) => some ⟨.send, c.clientfd⟩
  | .fresh _ | .space _ | .listening _ | .quitting | .running (.accept _ _) | .finished
  | .freed => none

theorem Frame.fd_of_own {frame : Frame} {c : Cmd} (h : frame.own = some c) :
    frame.fd = some c.fd ∧ (c.tag = .recv ∨ c.tag = .send) := by
  cases frame with
  | receiving | sending =>
    obtain rfl := Option.some.inj h
    simp [Frame.fd]
  | running p =>
    cases p with
    | recv | send =>
      obtain rfl := Option.some.inj h
      simp [Frame.fd]
    | accept => exact absurd h (by simp [Frame.own])
  | _ => exact absurd h (by simp [Frame.own])

theorem Frame.Suspended.ne_freed {frame : Frame} (h : frame.Suspended) : frame ≠ .freed := by
  rintro rfl
  exact h

/-! ### A piece of code -/

/-- A command that a fiber with the descriptor `d` may set. -/
def Cmd.For (c : Cmd) (d : ℤ) : Prop := (c.tag = .recv ∨ c.tag = .send) → c.fd = d

/-- A frame for a fiber with the descriptor `d`. -/
structure Frame.For (frame : Frame) (d : ℤ) : Prop where
  ne_freed : frame ≠ .freed
  fd_eq : ∀ e, frame.fd = some e → e = d

/-- **A piece of the code of `f`**, whose descriptor is `d`. -/
inductive Goes (f : ℕ) (d : ℤ) (s : Server) : Server → Prop
  /-- It moves on within the call it is in, or out of it. -/
  | moves {frame : Frame} (hfor : frame.For d)
      (hown : ∀ c, frame.own = some c → (s.frames f).own = some c) :
      Goes f d s (s.setFrame f frame)
  /-- It sets the command, and moves on. -/
  | makes {frame : Frame} {c : Cmd} (hfor : frame.For d) (hcmd : c.For d)
      (hown : ∀ c', frame.own = some c' → c' = c) :
      Goes f d s ((s.make f c.tag c.fd).setFrame f frame)

variable {f : ℕ} {d fd : ℤ} {s t : Server} {c : Conn} {ans : ℤ} {buflen nbytes maxAccept : ℕ}

/-- It leaves the table of virtual descriptors alone. -/
theorem Goes.wfd_eq (h : Goes f d s t) : t.wfd = s.wfd := by
  cases h <;> rfl

theorem goes_acceptMore : Goes f d s (acceptMore f d maxAccept s) := by
  rw [acceptMore]
  split_ifs
  · exact .moves ⟨by simp, by simp [Frame.fd]⟩ (by simp [Frame.own])
  · exact .makes (c := ⟨.recv, d⟩) ⟨by simp, by simp [Frame.fd]⟩ (fun _ => rfl)
      (by simp [Frame.own])

theorem goes_listenerLoop : Goes f d s (listenerLoop f d s) := by
  rw [listenerLoop]
  split_ifs
  · exact .makes (c := ⟨.yield, 0⟩) ⟨by simp, by simp [Frame.fd]⟩ (by simp [Cmd.For])
      (by simp [Frame.own])
  · exact goes_acceptMore

theorem goes_wRecv (hc : c.clientfd = d) : Goes f d s (wRecv f c buflen s) :=
  .makes (c := ⟨.recv, c.clientfd⟩) ⟨by simp, by simp [Frame.fd, hc]⟩ (fun _ => hc)
    (by simp [Frame.own, eq_comm])

theorem goes_wSend (hc : c.clientfd = d) : Goes f d s (wSend f c ans nbytes s) :=
  .makes (c := ⟨.send, c.clientfd⟩) ⟨by simp, by simp [Frame.fd, hc]⟩ (fun _ => hc)
    (by simp [Frame.own, eq_comm])

theorem goes_finished : Goes f d s (s.setFrame f .finished) :=
  .moves ⟨by simp, by simp [Frame.fd]⟩ (by simp [Frame.own])

theorem goes_afterSend (hc : c.clientfd = d) : Goes f d s (afterSend f c ans s) := by
  rw [afterSend]
  split_ifs
  · exact .makes (c := ⟨.quit, -1⟩) ⟨by simp, by simp [Frame.fd]⟩ (by simp [Cmd.For])
      (by simp [Frame.own])
  · exact goes_wRecv hc

/-- **Resumed, a fiber runs a piece of its code.** A fresh one is given its descriptor. -/
theorem goes_resume (env : Env) {arg : ℤ} (hsus : (s.frames f).Suspended)
    (hfd : ∀ e, (s.frames f).fd = some e → e = d) (hfresh : (s.frames f).Fresh → arg = d) :
    Goes f d s (resume env f arg s) := by
  rw [resume]
  cases hframe : s.frames f with
  | fresh entry =>
    rw [hframe] at hfresh
    obtain rfl := hfresh trivial
    cases entry with
    | listener => exact goes_listenerLoop
    | handleConnection => exact goes_wRecv rfl
  | space e | listening e =>
    obtain rfl := hfd e (by rw [hframe]; rfl)
    dsimp only
    split_ifs
    · exact goes_finished
    · exact goes_listenerLoop
  | receiving c buflen =>
    have hc := hfd c.clientfd (by rw [hframe]; rfl)
    dsimp only
    split_ifs
    · exact goes_finished
    · exact .moves ⟨by simp, by simp [Frame.fd, hc]⟩ (by simp [hframe, Frame.own])
  | sending c ans nbytes =>
    have hc := hfd c.clientfd (by rw [hframe]; rfl)
    dsimp only
    split_ifs
    · exact goes_afterSend hc
    · exact .moves ⟨by simp, by simp [Frame.fd, hc]⟩ (by simp [hframe, Frame.own])
  | quitting => exact goes_finished
  | running | finished | freed =>
    rw [hframe] at hsus
    exact hsus.elim

/-- What the fiber of a connection does with the answer to its receive. -/
theorem goes_received {phr : ℕ → ℕ → Http.Parser} {a : Answer} (hc : c.clientfd = d)
    (hframe : s.frames f = .running (.recv c buflen)) (h : received phr f c buflen s a = some t) :
    Goes f d s t := by
  rw [received] at h
  split at h
  · obtain rfl := Option.some.inj h
    exact .moves ⟨by simp, by simp [Frame.fd, hc]⟩ (by simp [hframe, Frame.own])
  · split_ifs at h
    · obtain rfl := Option.some.inj h
      exact goes_finished
    · dsimp only at h
      split at h
      · obtain rfl := Option.some.inj h
        exact goes_wSend hc
      · obtain rfl := Option.some.inj h
        exact goes_wRecv hc
      · exact absurd h nofun
  · obtain rfl := Option.some.inj h
    exact goes_finished

/-- What it does with the answer to its send. -/
theorem goes_sent {a : Answer} (hc : c.clientfd = d)
    (hframe : s.frames f = .running (.send c ans nbytes)) :
    Goes f d s (sent f c ans nbytes s a) := by
  rw [sent]
  split
  · exact .moves ⟨by simp, by simp [Frame.fd, hc]⟩ (by simp [hframe, Frame.own])
  · exact goes_afterSend hc

/-! ### The state in order -/

/-- **The fibers and their descriptors are in order.** -/
structure InOrder (s : Server) : Prop where
  /-- The table is in order, and a fiber that is not freed has a bound slot of it. -/
  table : ∃ O, TableInv FiberServer.MAX_CONNECTIONS O s.wfd ∧
    ∀ f, s.frames f ≠ .freed → ∃ v ∈ O, s.descriptor f = (v : ℕ)
  /-- No other fiber that is not freed has it. -/
  inj : ∀ f g, s.frames f ≠ .freed → s.frames g ≠ .freed → s.descriptor f = s.descriptor g → f = g
  /-- The fibers are numbered as they are allocated. -/
  unborn : ∀ f, f = 0 ∨ s.allocated < f → s.frames f = .freed
  /-- The descriptor in the variables of a fiber is that of its closure. -/
  fd_eq : ∀ f d, (s.frames f).fd = some d → d = s.descriptor f
  /-- The command of a fiber is in `cmd` as long as no other has set it. -/
  own : ∀ f c, (s.frames f).own = some c → (s.maker = f ↔ s.cmd = c)

theorem InOrder.nonneg (h : InOrder s) (hf : s.frames f ≠ .freed) : 0 ≤ s.descriptor f := by
  obtain ⟨O, -, hbound⟩ := h.table
  obtain ⟨v, -, hv⟩ := hbound f hf
  omega

/-- Only the fields that the invariant speaks of matter. -/
theorem InOrder.congr (h : InOrder s) (hwfd : WasioHost.Quiet s.wfd t.wfd)
    (hframes : t.frames = s.frames) (hdesc : t.descriptor = s.descriptor)
    (halloc : t.allocated = s.allocated) (hcmd : t.cmd = s.cmd) (hmaker : t.maker = s.maker) :
    InOrder t where
  table := by
    obtain ⟨O, hO, hbound⟩ := h.table
    rw [hframes, hdesc]
    exact ⟨O, hO.quiet hwfd, hbound⟩
  inj := by
    rw [hframes, hdesc]
    exact h.inj
  unborn := by
    rw [hframes, halloc]
    exact h.unborn
  fd_eq := by
    rw [hframes, hdesc]
    exact h.fd_eq
  own := by
    rw [hframes, hcmd, hmaker]
    exact h.own

/-- A state in order, with the fiber `f` in another frame: what is left is the command. -/
theorem InOrder.moved (h : InOrder s) (hf : s.frames f ≠ .freed) {frame : Frame}
    (hfor : frame.For (s.descriptor f)) (hwfd : t.wfd = s.wfd) (halloc : t.allocated = s.allocated)
    (hdesc : t.descriptor = s.descriptor) (hframes : t.frames = (s.setFrame f frame).frames)
    (hown : ∀ g c, (t.frames g).own = some c → (t.maker = g ↔ t.cmd = c)) : InOrder t := by
  have halive : ∀ g, t.frames g ≠ .freed → s.frames g ≠ .freed := by
    intro g hg
    rcases eq_or_ne g f with rfl | hne
    · exact hf
    · rwa [hframes, s.frames_setFrame_of_ne hne] at hg
  refine ⟨?_, fun g g' hg hg' => ?_, fun g hg => ?_, fun g e he => ?_, hown⟩
  · obtain ⟨O, hO, hbound⟩ := h.table
    rw [hwfd, hdesc]
    exact ⟨O, hO, fun g hg => hbound g (halive g hg)⟩
  · rw [hdesc]
    exact h.inj g g' (halive g hg) (halive g' hg')
  · rw [halloc] at hg
    have hne : g ≠ f := by
      rintro rfl
      exact hf (h.unborn g hg)
    rw [hframes, s.frames_setFrame_of_ne hne]
    exact h.unborn g hg
  · rw [hdesc]
    rw [hframes] at he
    rcases eq_or_ne g f with rfl | hne
    · rw [s.frames_setFrame_self] at he
      exact hfor.fd_eq e he
    · rw [s.frames_setFrame_of_ne hne] at he
      exact h.fd_eq g e he

/-- **The state stays in order** when a fiber runs a piece of its code. -/
theorem InOrder.goes (h : InOrder s) (hf : s.frames f ≠ .freed)
    (hgo : Goes f (s.descriptor f) s t) : InOrder t := by
  cases hgo with
  | @moves frame hfor hown =>
    refine h.moved hf hfor rfl rfl rfl rfl fun g c hc => ?_
    rcases eq_or_ne g f with rfl | hne
    · rw [s.frames_setFrame_self] at hc
      exact h.own g c (hown c hc)
    · rw [s.frames_setFrame_of_ne hne] at hc
      exact h.own g c hc
  | @makes frame cmd hfor hcmd hown =>
    refine h.moved hf hfor rfl rfl rfl rfl fun g c hc => ?_
    rcases eq_or_ne g f with rfl | hne
    · rw [Server.frames_setFrame_self] at hc
      exact iff_of_true rfl (hown c hc).symm
    · -- another fiber has lost its command
      rw [Server.frames_setFrame_of_ne _ hne, Server.frames_make] at hc
      refine iff_of_false hne.symm fun heq => hne ?_
      obtain ⟨hfd, htag⟩ := Frame.fd_of_own hc
      have hg : s.frames g ≠ .freed := by
        intro hfreed
        rw [hfreed] at hc
        exact absurd hc (by simp [Frame.own])
      refine h.inj g f hg hf ?_
      rw [← h.fd_eq g _ hfd, ← heq]
      exact hcmd (by rw [← heq] at htag; exact htag)

/-! ### A new connection -/

theorem max_connections_mod : FiberServer.MAX_CONNECTIONS % 32 = 0 := rfl

theorem InOrder.zero_lt (h : InOrder s) (hf : s.frames f ≠ .freed) : f ≠ 0 ∧ f ≤ s.allocated :=
  ⟨fun hzero => hf (h.unborn f (Or.inl hzero)),
    not_lt.mp fun hlt => hf (h.unborn f (Or.inr hlt))⟩

/-- **What becomes of an accept**: a connection with a slot that was free, or the listener
waits for one. -/
theorem InOrder.accepted_cases (h : InOrder s) {a : Answer}
    (hacc : accepted f fd maxAccept s a = some t) :
    t = (s.make f .recv fd).setFrame f (.listening fd) ∨
    ∃ v fl u, (∀ O, TableInv FiberServer.MAX_CONNECTIONS O s.wfd → v ∉ O ∧
        TableInv FiberServer.MAX_CONNECTIONS (insert v O) (WasioHost.bindSlot s.wfd v a.ret fl)) ∧
      u = { allocConnection fd v { s with wfd := WasioHost.bindSlot s.wfd v a.ret fl } with
        rearq := s.rearq ++ [⟨s.allocated + 1, v⟩], clients := Uint32.succ s.clients } ∧
      t = acceptMore f fd maxAccept u := by
  obtain ⟨O, hO, -⟩ := h.table
  rw [accepted] at hacc
  rcases hO.accept_cases max_connections_mod fd.toNat a.toHostAnswer with
    ⟨v, fl, heq, hret, hv, hlt, hrep⟩ | ⟨res, hres, heq⟩ <;> rw [heq] at hacc
  · obtain ⟨rearq, hpush, rfl⟩ := Option.map_eq_some_iff.mp hacc
    obtain ⟨-, hrearq⟩ := Option.ite_none_right_eq_some.mp hpush
    obtain rfl := Option.some.inj hrearq
    refine Or.inr ⟨v, fl, _, fun O' hO' => ?_, rfl, rfl⟩
    obtain rfl : O' = O := Finset.ext fun e => (hO'.bound_iff e).symm.trans (hO.bound_iff e)
    exact ⟨hv.1, hO'.bind hret hv.1 hlt hrep⟩
  · left
    cases res with
    | ok => exact absurd rfl hres
    | _ => exact (Option.some.inj hacc).symm

/-- **The state stays in order** when a connection is accepted and its fiber allocated. -/
theorem InOrder.alloc (h : InOrder s) (fd : ℤ) {v : ℕ} {d : ℤ} {fl : Freelist}
    (hbind : ∀ O, TableInv FiberServer.MAX_CONNECTIONS O s.wfd → v ∉ O ∧
      TableInv FiberServer.MAX_CONNECTIONS (insert v O) (WasioHost.bindSlot s.wfd v d fl)) :
    InOrder (allocConnection fd v { s with wfd := WasioHost.bindSlot s.wfd v d fl }) := by
  obtain ⟨O, hO, hbound⟩ := h.table
  obtain ⟨hv, hO'⟩ := hbind O hO
  have hne : ∀ g, s.frames g ≠ .freed → g ≠ s.allocated + 1 := fun g hg => by
    have := (h.zero_lt hg).2
    omega
  -- the new fiber has a slot that no other has
  have hnew : ∀ g, s.frames g ≠ .freed → s.descriptor g ≠ v := by
    intro g hg hd
    obtain ⟨w, hw, hdw⟩ := hbound g hg
    obtain rfl : w = v := by omega
    exact hv hw
  -- a fiber that is live afterwards is the new one, or was live before
  have hframe : ∀ g, Function.update s.frames (s.allocated + 1) (.fresh .handleConnection) g ≠
      .freed → g = s.allocated + 1 ∨ g ≠ s.allocated + 1 ∧ s.frames g ≠ .freed := by
    intro g hg
    rcases eq_or_ne g (s.allocated + 1) with rfl | hne
    · exact Or.inl rfl
    · rw [Function.update_of_ne hne] at hg
      exact Or.inr ⟨hne, hg⟩
  refine ⟨⟨insert v O, hO'.quiet (hO'.quiet_notify _ _), fun g hg => ?_⟩, fun g g' hg hg' hd => ?_,
    fun g hg => ?_, fun g e he => ?_, fun g c hc => ?_⟩
  · rcases hframe g hg with rfl | ⟨hg', halive⟩
    · exact ⟨v, Finset.mem_insert_self v O, Function.update_self ..⟩
    · obtain ⟨w, hw, hdw⟩ := hbound g halive
      exact ⟨w, Finset.mem_insert_of_mem hw, (Function.update_of_ne hg' ..).trans hdw⟩
  · -- no two fibers get the same slot
    dsimp only [allocConnection] at hd
    rcases hframe g hg with rfl | ⟨hgne, halive⟩ <;>
      rcases hframe g' hg' with rfl | ⟨hgne', halive'⟩
    · rfl
    · rw [Function.update_self, Function.update_of_ne hgne'] at hd
      exact absurd hd.symm (hnew g' halive')
    · rw [Function.update_self, Function.update_of_ne hgne] at hd
      exact absurd hd (hnew g halive)
    · rw [Function.update_of_ne hgne, Function.update_of_ne hgne'] at hd
      exact h.inj g g' halive halive' hd
  · have hg' : g ≠ s.allocated + 1 := by
      dsimp only [allocConnection] at hg
      omega
    refine (Function.update_of_ne hg' ..).trans (h.unborn g ?_)
    dsimp only [allocConnection] at hg
    omega
  · dsimp only [allocConnection] at he ⊢
    rcases eq_or_ne g (s.allocated + 1) with rfl | hne'
    · rw [Function.update_self] at he
      exact absurd he (by simp [Frame.fd])
    · rw [Function.update_of_ne hne'] at he ⊢
      exact h.fd_eq g e he
  · dsimp only [allocConnection] at hc ⊢
    rcases eq_or_ne g (s.allocated + 1) with rfl | hne'
    · rw [Function.update_self] at hc
      exact absurd hc (by simp [Frame.own])
    · rw [Function.update_of_ne hne'] at hc
      exact h.own g c hc

/-- **A connection was accepted** between `s` and `u`: there is one more fiber, whose
closure is at the end of the queue. -/
structure Connects (s u : Server) : Prop where
  inOrder : InOrder u
  readMasks : ReadMasks s.wfd → ReadMasks u.wfd
  fibers_eq : u.fibers = s.fibers
  frontq_eq : u.frontq = s.frontq
  allocated_eq : u.allocated = s.allocated + 1
  frames_eq : u.frames = (s.setFrame u.allocated (.fresh .handleConnection)).frames
  rearq_eq : ∃ v : ℕ, u.rearq = s.rearq ++ [⟨u.allocated, v⟩] ∧
    u.descriptor = Function.update s.descriptor u.allocated v

/-- The other fibers are where they were. -/
theorem Connects.frames_of_alive {u : Server} (hu : Connects s u) (h : InOrder s)
    (hf : s.frames f ≠ .freed) : u.frames f = s.frames f := by
  have hne : f ≠ u.allocated := by
    have := (h.zero_lt hf).2
    have := hu.allocated_eq
    omega
  rw [hu.frames_eq, s.frames_setFrame_of_ne hne]

/-- **What a fiber does with the answer of the host**: it runs a piece of its code, the
listener after it has accepted a connection or not. -/
theorem InOrder.answered_goes (h : InOrder s) {env : Env} {a : Answer}
    (hans : answered env f s a = some t) :
    s.frames f ≠ .freed ∧ ∃ u, (u = s ∨ Connects s u) ∧ Goes f (u.descriptor f) u t := by
  rw [answered] at hans
  split at hans
  · next fd maxAccept hframe =>
    have hf : s.frames f ≠ .freed := by simp [hframe]
    obtain rfl := h.fd_eq f fd (by rw [hframe]; rfl)
    refine ⟨hf, ?_⟩
    rcases h.accepted_cases hans with rfl | ⟨v, fl, u, hbind, hu, rfl⟩
    · exact ⟨s, Or.inl rfl, .makes (c := ⟨.recv, s.descriptor f⟩) ⟨by simp, by simp [Frame.fd]⟩
        (fun _ => rfl) (by simp [Frame.own])⟩
    · have hin : InOrder u := by
        rw [hu]
        exact (h.alloc (s.descriptor f) hbind).congr (.refl _) rfl rfl rfl rfl rfl
      have hdesc : u.descriptor = Function.update s.descriptor u.allocated v := by rw [hu]; rfl
      have hne : f ≠ u.allocated := by
        have hle := (h.zero_lt hf).2
        rw [hu]
        dsimp only [allocConnection]
        omega
      refine ⟨u, Or.inr ⟨hin, fun hm => ?_, ?_, ?_, ?_, ?_, v, ?_, hdesc⟩, ?_⟩
      · have hbound := hm.same (WasioHost.sameMasks_bindSlot s.wfd v a.ret fl)
        rw [hu]
        exact hbound.asked _ hbound.pollin_eq
      · rw [hu]; rfl
      · rw [hu]; rfl
      · rw [hu]; rfl
      · rw [hu]; rfl
      · rw [hu]; rfl
      · rw [hdesc, Function.update_of_ne hne]
        exact goes_acceptMore
  · next c buflen hframe =>
    have hc := h.fd_eq f c.clientfd (by rw [hframe]; rfl)
    exact ⟨by simp [hframe], s, Or.inl rfl, goes_received hc hframe hans⟩
  · next c ans nbytes hframe =>
    have hc := h.fd_eq f c.clientfd (by rw [hframe]; rfl)
    obtain rfl := Option.some.inj hans
    exact ⟨by simp [hframe], s, Or.inl rfl, goes_sent hc hframe⟩
  · exact absurd hans nofun

/-- **The state stays in order** when a fiber goes on with the answer of the host. -/
theorem InOrder.answered (h : InOrder s) {env : Env} {a : Answer}
    (hans : answered env f s a = some t) : InOrder t := by
  obtain ⟨hf, u, rfl | hu, hgo⟩ := h.answered_goes hans
  · exact h.goes hf hgo
  · exact hu.inOrder.goes (by rwa [hu.frames_of_alive h hf]) hgo

/-- Whatever the answer, no write interest is registered. -/
theorem readMasks_answered (h : InOrder s) (hm : ReadMasks s.wfd) {env : Env} {a : Answer}
    (hans : answered env f s a = some t) : ReadMasks t.wfd := by
  obtain ⟨-, u, hu, hgo⟩ := h.answered_goes hans
  rw [hgo.wfd_eq]
  rcases hu with rfl | hu
  · exact hm
  · exact hu.readMasks hm

/-! ### `handle_request` -/

/-- Nor by `handle_request`, which registers a read interest instead. -/
theorem readMasks_handleYield (hm : ReadMasks s.wfd) {clo : FiberClosure} {b : Bool}
    (hreq : handleYield clo s = some (b, t)) : ReadMasks t.wfd := by
  rw [handleYield] at hreq
  split at hreq
  case h_1 =>
    obtain ⟨rearq, -, heq⟩ := Option.map_eq_some_iff.mp hreq
    obtain ⟨-, rfl⟩ := Prod.mk.inj heq
    exact hm
  case h_5 => cases hreq
  all_goals obtain ⟨-, rfl⟩ := Prod.mk.inj (Option.some.inj hreq)
  · exact hm.asked _ hm.pollin_eq
  · exact hm.asked _ hm.pollout_eq
  · exact hm

/-- **What `handle_request` does for a fiber that has yielded**: it registers an interest,
or puts the fiber into the queue. -/
theorem InOrder.handleYield_cases (h : InOrder s) {clo : FiberClosure} {b : Bool}
    (hreq : handleYield clo s = some (b, t)) :
    ∃ wfd rearq, t = { s with wfd := wfd, rearq := rearq } ∧ WasioHost.Quiet s.wfd wfd ∧
      (rearq = s.rearq ∨ rearq = s.rearq ++ [clo]) := by
  obtain ⟨O, hO, -⟩ := h.table
  rw [handleYield] at hreq
  split at hreq
  · obtain ⟨rearq, hpush, heq⟩ := Option.map_eq_some_iff.mp hreq
    obtain ⟨-, rfl⟩ := Prod.mk.inj heq
    rw [fqPush, Option.ite_none_right_eq_some] at hpush
    exact ⟨s.wfd, rearq, rfl, .refl _, Or.inr (Option.some.inj hpush.2).symm⟩
  · obtain ⟨-, rfl⟩ := Prod.mk.inj (Option.some.inj hreq)
    exact ⟨_, s.rearq, rfl, hO.quiet_notify _ _, Or.inl rfl⟩
  · obtain ⟨-, rfl⟩ := Prod.mk.inj (Option.some.inj hreq)
    exact ⟨_, s.rearq, rfl, hO.quiet_notify _ _, Or.inl rfl⟩
  · obtain ⟨-, rfl⟩ := Prod.mk.inj (Option.some.inj hreq)
    exact ⟨s.wfd, s.rearq, rfl, .refl _, Or.inl rfl⟩
  · exact absurd hreq nofun

theorem InOrder.handleYield (h : InOrder s) {clo : FiberClosure} {b : Bool}
    (hreq : handleYield clo s = some (b, t)) : InOrder t := by
  obtain ⟨wfd, rearq, rfl, hquiet, -⟩ := h.handleYield_cases hreq
  exact h.congr hquiet rfl rfl rfl rfl rfl

/-- **The state stays in order** when the fiber of a connection has returned. -/
theorem InOrder.handleDone (h : InOrder s) {clo : FiberClosure} {host : HostAnswer}
    (hclo : clo.fd = s.descriptor clo.fiber) (hf : s.frames clo.fiber ≠ .freed)
    (hdone : handleDone clo s host = some t) : InOrder t := by
  obtain ⟨O, hO, hbound⟩ := h.table
  obtain ⟨v, hv, hd⟩ := hbound clo.fiber hf
  have hvfd : clo.fd.toNat = v := by omega
  rw [HttpServer.handleDone, hvfd] at hdone
  rcases hO.close_cases (hO.out_lt v hv) host with ⟨-, res, hres, heq⟩ | ⟨-, fl, hrep, heq⟩ <;>
    rw [heq] at hdone
  · cases res with
    | ok => exact absurd rfl hres
    | _ => exact absurd hdone nofun
  obtain rfl := Option.some.inj hdone
  -- the fibers that are left
  have halive : ∀ g, (s.setFrame clo.fiber .freed).frames g ≠ .freed →
      g ≠ clo.fiber ∧ s.frames g ≠ .freed := by
    intro g hg
    rcases eq_or_ne g clo.fiber with rfl | hne
    · exact absurd (s.frames_setFrame_self _ _) hg
    · exact ⟨hne, by rwa [s.frames_setFrame_of_ne hne] at hg⟩
  refine ⟨⟨O.erase v, hO.unbind hv hrep, fun g hg => ?_⟩, fun g g' hg hg' => ?_, fun g hg => ?_,
    fun g e he => ?_, fun g c hc => ?_⟩
  · obtain ⟨hne, hg'⟩ := halive g hg
    obtain ⟨w, hw, hdw⟩ := hbound g hg'
    refine ⟨w, Finset.mem_erase.mpr ⟨?_, hw⟩, hdw⟩
    rintro rfl
    exact hne (h.inj g clo.fiber hg' hf (hdw.trans hd.symm))
  · exact h.inj g g' (halive g hg).2 (halive g' hg').2
  · dsimp only
    rcases eq_or_ne g clo.fiber with rfl | hne
    · exact s.frames_setFrame_self _ _
    · rw [s.frames_setFrame_of_ne hne]
      exact h.unborn g hg
  · dsimp only at he
    rcases eq_or_ne g clo.fiber with rfl | hne
    · rw [s.frames_setFrame_self] at he
      exact absurd he (by simp [Frame.fd])
    · rw [s.frames_setFrame_of_ne hne] at he
      exact h.fd_eq g e he
  · dsimp only at hc
    rcases eq_or_ne g clo.fiber with rfl | hne
    · rw [s.frames_setFrame_self] at hc
      exact absurd hc (by simp [Frame.own])
    · rw [s.frames_setFrame_of_ne hne] at hc
      exact h.own g c hc

theorem readMasks_handleDone (h : InOrder s) (hm : ReadMasks s.wfd) {clo : FiberClosure}
    {host : HostAnswer} (hclo : clo.fd = s.descriptor clo.fiber)
    (hf : s.frames clo.fiber ≠ .freed) (hdone : handleDone clo s host = some t) :
    ReadMasks t.wfd := by
  obtain ⟨O, hO, hbound⟩ := h.table
  obtain ⟨v, hv, hd⟩ := hbound clo.fiber hf
  have hvfd : clo.fd.toNat = v := by omega
  rw [HttpServer.handleDone, hvfd] at hdone
  rcases hO.close_cases (hO.out_lt v hv) host with ⟨-, res, hres, heq⟩ | ⟨-, fl, -, heq⟩ <;>
    rw [heq] at hdone
  · cases res with
    | ok => exact absurd rfl hres
    | _ => exact absurd hdone nofun
  · obtain rfl := Option.some.inj hdone
    exact hm.same (WasioHost.sameMasks_unbindSlot s.wfd v fl)

/-! ### The start -/

/-- **At the start** there is the listener only, with the slot `0`. -/
theorem serverMain_cases {host : HostAnswer} (h : serverMain host = some s) :
    ∃ wfd₀ fl, wasioInit FiberServer.MAX_CONNECTIONS true = (.ok, some wfd₀) ∧ 0 ≤ host.ret ∧
      TableInv FiberServer.MAX_CONNECTIONS {0} s.wfd ∧
      s.wfd = WasioHost.bindSlot wfd₀ 0 host.ret fl ∧
      s.fibers = Function.update (fun _ => ⟨0, -1⟩) 0 ⟨lfiber, 0⟩ ∧ s.frontq = [⟨lfiber, 0⟩] ∧
      s.rearq = [] ∧ s.cmd = ⟨.async, 0⟩ ∧ s.allocated = lfiber ∧
      s.frames = Function.update (fun _ => .freed) lfiber (.fresh .listener) ∧
      s.descriptor = Function.update (fun _ => -1) lfiber 0 ∧ s.maker = 0 := by
  rw [serverMain] at h
  split at h
  case h_2 => cases h
  next wfd₀ hinit =>
    have hO := WasioHost.tableInv_init (by decide) hinit
    rw [wasioListen] at h
    by_cases hneg : host.ret < 0
    · rw [if_pos hneg] at h
      split at h
      · next heq => exact absurd (congrArg (fun r => r.1.result) heq) (translateError_ne_ok _)
      · cases h
    · rw [if_neg hneg] at h
      rcases hO.wrap_cases max_connections_mod host.ret with ⟨v, fl, hw, hv, hlt, hrep⟩ | hw <;>
        rw [hw] at h
      · dsimp only at h
        split_ifs at h with hv0
        subst hv0
        obtain rfl := Option.some.inj h
        exact ⟨wfd₀, fl, hinit, not_lt.mp hneg, hO.bind (not_lt.mp hneg) hv.1 hlt hrep, rfl, rfl,
          rfl, rfl, rfl, rfl, rfl, rfl, rfl⟩
      · cases h

theorem readMasks_start {host : HostAnswer} (h : serverMain host = some s) : ReadMasks s.wfd := by
  obtain ⟨wfd₀, fl, hinit, -, -, hwfd, -⟩ := serverMain_cases h
  rw [hwfd]
  exact (WasioHost.readMasks_init hinit).same (WasioHost.sameMasks_bindSlot wfd₀ 0 host.ret fl)

theorem inOrder_start {host : HostAnswer} (h : serverMain host = some s) : InOrder s := by
  obtain ⟨wfd₀, fl, -, -, hO, -, -, -, -, hcmd, halloc, hframes, hdesc, hmaker⟩ :=
    serverMain_cases h
  have halive : ∀ g, s.frames g ≠ .freed → g = lfiber := by
    intro g hg
    by_contra hne
    exact hg (by rw [hframes, Function.update_of_ne hne])
  refine ⟨⟨_, hO, fun g hg => ?_⟩, fun g g' hg hg' _ => ?_, fun g hg => ?_, fun g e he => ?_,
    fun g c hc => ?_⟩
  · obtain rfl := halive g hg
    exact ⟨0, Finset.mem_singleton_self 0, by rw [hdesc, Function.update_self]; rfl⟩
  · rw [halive g hg, halive g' hg']
  · have hne : g ≠ lfiber := by
      rw [halloc] at hg
      rcases hg with rfl | hlt
      · decide
      · exact hlt.ne'
    rw [hframes, Function.update_of_ne hne]
  · rw [hframes] at he
    rcases eq_or_ne g lfiber with rfl | hne
    · exact absurd he (by simp [Frame.fd])
    · rw [Function.update_of_ne hne] at he
      exact absurd he (by simp [Frame.fd])
  · rw [hframes] at hc
    rcases eq_or_ne g lfiber with rfl | hne
    · exact absurd hc (by simp [Frame.own])
    · rw [Function.update_of_ne hne] at hc
      exact absurd hc (by simp [Frame.own])

end HttpServer

end Waeio
