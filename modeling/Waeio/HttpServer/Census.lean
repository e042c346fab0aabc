import Waeio.HttpServer.Command
import Waeio.HttpServer.Wake

/-!
# The number of clients, and the end of the program

`clients` is counted up where `w_accept` allocates a fiber, and down where `handle_request`
frees one. So in the loop it is the number of connections that live, and one less than the
number of bound slots, the listener's being the other one
(`Waeio.HttpServer.Main.Census`). In particular it never wraps around, and is never more
than `max_clients`.

The fiber that asks to quit is one that lives, and `handle_request` has not counted it down
when `main` leaves its loop. The loop over the table kills the listener only, which is not
counted. So `clients` is not zero at the assertion behind that loop, and the program is
aborted there: it never returns from `main`
(`Waeio.HttpServer.Main.Ends`).

What a step in the loop can do is said once, in `Waeio.HttpServer.Main.LoopStep`.
-/

namespace Waeio

namespace HttpServer

open FiberServer (FIBER_KILL_SIGNAL FiberClosure)
open Http (Answer)
open WasioHost (Quiet)

/-! ### Frames, and the commands set on the way to them -/

/-- A frame of a fiber that runs `handle_connection`, or does not live. -/
def Frame.OfConnection : Frame → Prop
  | .fresh .handleConnection | .receiving _ _ | .sending _ _ _ | .quitting
  | .running (.recv _ _) | .running (.send _ _ _) | .finished | .freed => True
  | .fresh .listener | .space _ | .listening _ | .running (.accept _ _) => False

/-- **The command with which a fiber moves to a frame**, if it sets one. -/
def Frame.After : Frame → Option CmdTag → Prop
  | .space _, tag => tag = some .yield
  | .listening _, tag => tag = some .recv
  | .quitting, tag => tag = some .quit
  | .running (.recv _ _), tag => tag = none ∨ tag = some .recv
  | .running (.send _ _ _), tag => tag = none ∨ tag = some .send
  | .running (.accept _ _), tag | .receiving _ _, tag | .sending _ _ _, tag | .finished, tag =>
    tag = none
  | .fresh _, _ | .freed, _ => False

/-- **A piece of the code of `f`**, by the command it sets. -/
inductive Piece (f : ℕ) (s : Server) : Server → Prop
  /-- It sets none. -/
  | moves {frame : Frame} (hafter : frame.After none)
      (hkind : (s.frames f).OfConnection → frame.OfConnection) : Piece f s (s.setFrame f frame)
  /-- It sets one. -/
  | makes {frame : Frame} {tag : CmdTag} {fd : ℤ} (hafter : frame.After (some tag))
      (hkind : (s.frames f).OfConnection → frame.OfConnection) :
      Piece f s ((s.make f tag fd).setFrame f frame)

variable {env : Env} {f : ℕ} {fd arg : ℤ} {s t : Server} {c : Conn} {ans : ℤ}
  {buflen nbytes maxAccept : ℕ} {a : Answer}

theorem piece_acceptMore (hkind : ¬(s.frames f).OfConnection) :
    Piece f s (acceptMore f fd maxAccept s) := by
  rw [acceptMore]
  split_ifs
  · exact .moves rfl fun h => absurd h hkind
  · exact .makes rfl fun h => absurd h hkind

theorem piece_listenerLoop (hkind : ¬(s.frames f).OfConnection) :
    Piece f s (listenerLoop f fd s) := by
  rw [listenerLoop]
  split_ifs
  · exact .makes rfl fun h => absurd h hkind
  · exact piece_acceptMore hkind

theorem piece_wRecv : Piece f s (wRecv f c buflen s) := .makes (Or.inr rfl) fun _ => trivial

theorem piece_wSend : Piece f s (wSend f c ans nbytes s) := .makes (Or.inr rfl) fun _ => trivial

theorem piece_finished : Piece f s (s.setFrame f .finished) := .moves rfl fun _ => trivial

theorem piece_afterSend : Piece f s (afterSend f c ans s) := by
  rw [afterSend]
  split_ifs
  · exact .makes rfl fun _ => trivial
  · exact piece_wRecv

theorem piece_resume (env : Env) (arg : ℤ) (hsus : (s.frames f).Suspended) :
    Piece f s (resume env f arg s) := by
  rw [resume]
  cases hframe : s.frames f with
  | fresh entry =>
    cases entry with
    | listener => exact piece_listenerLoop (by rw [hframe]; exact id)
    | handleConnection => exact piece_wRecv
  | space fd | listening fd =>
    dsimp only
    split_ifs
    · exact piece_finished
    · exact piece_listenerLoop (by rw [hframe]; exact id)
  | receiving c buflen =>
    dsimp only
    split_ifs
    · exact piece_finished
    · exact .moves (Or.inl rfl) fun _ => trivial
  | sending c ans nbytes =>
    dsimp only
    split_ifs
    · exact piece_afterSend
    · exact .moves (Or.inl rfl) fun _ => trivial
  | quitting => exact piece_finished
  | running | finished | freed =>
    rw [hframe] at hsus
    exact hsus.elim

theorem piece_received {phr : ℕ → ℕ → Http.Parser} (h : received phr f c buflen s a = some t) :
    Piece f s t := by
  rw [received] at h
  split at h
  · obtain rfl := Option.some.inj h
    exact .moves rfl fun _ => trivial
  · split_ifs at h
    · obtain rfl := Option.some.inj h
      exact piece_finished
    · dsimp only at h
      split at h
      · obtain rfl := Option.some.inj h
        exact piece_wSend
      · obtain rfl := Option.some.inj h
        exact piece_wRecv
      · cases h
  · obtain rfl := Option.some.inj h
    exact piece_finished

theorem piece_sent : Piece f s (sent f c ans nbytes s a) := by
  rw [sent]
  split
  · exact .moves rfl fun _ => trivial
  · exact piece_afterSend

/-! ### What a piece of code keeps -/

theorem Frame.After.ne_freed {frame : Frame} {tag : Option CmdTag} (h : frame.After tag) :
    frame ≠ .freed := by
  rintro rfl
  exact h

/-- What a piece of code leaves as it is. -/
theorem Piece.same (h : Piece f s t) :
    t.wfd = s.wfd ∧ t.fibers = s.fibers ∧ t.frontq = s.frontq ∧ t.rearq = s.rearq ∧
      t.clients = s.clients ∧ t.allocated = s.allocated ∧ ∀ g ≠ f, t.frames g = s.frames g := by
  cases h with
  | moves => exact ⟨rfl, rfl, rfl, rfl, rfl, rfl, fun g hg => s.frames_setFrame_of_ne hg _⟩
  | makes =>
    exact ⟨rfl, rfl, rfl, rfl, rfl, rfl, fun g hg => Server.frames_setFrame_of_ne _ hg _⟩

theorem Piece.not_fresh (h : Piece f s t) : ¬(t.frames f).Fresh := by
  cases h with
  | @moves frame hafter =>
    rw [s.frames_setFrame_self]
    cases frame <;> first | exact id | exact hafter.elim
  | @makes frame tag fd hafter =>
    rw [Server.frames_setFrame_self]
    cases frame <;> first | exact id | exact hafter.elim

theorem Piece.ne_freed (h : Piece f s t) : t.frames f ≠ .freed := by
  cases h with
  | moves hafter =>
    rw [s.frames_setFrame_self]
    exact hafter.ne_freed
  | makes hafter =>
    rw [Server.frames_setFrame_self]
    exact hafter.ne_freed

theorem Piece.ofConnection (h : Piece f s t) (hkind : (s.frames f).OfConnection) :
    (t.frames f).OfConnection := by
  cases h with
  | moves _ hframe =>
    rw [s.frames_setFrame_self]
    exact hframe hkind
  | makes _ hframe =>
    rw [Server.frames_setFrame_self]
    exact hframe hkind

/-- **Only a fiber that is about to quit asks for it**, and only one that waits for space
asks to be put into the queue. -/
theorem Piece.tag_cases (h : Piece f s t) : t.cmd.tag = s.cmd.tag ∨
    (t.cmd.tag = .quit → t.frames f = .quitting) ∧
      (t.cmd.tag = .yield → ¬(t.frames f).OfConnection) := by
  cases h with
  | moves => exact Or.inl rfl
  | @makes frame tag fd hafter =>
    right
    rw [Server.frames_setFrame_self]
    change (tag = .quit → _) ∧ (tag = .yield → _)
    constructor
    · rintro rfl
      cases frame with
      | quitting => rfl
      | running p => cases p <;> simp [Frame.After] at hafter
      | _ => simp [Frame.After] at hafter
    · rintro rfl
      cases frame with
      | space => exact id
      | running p => cases p <;> simp [Frame.After] at hafter
      | _ => simp [Frame.After] at hafter

/-- There are not more bound slots than the table has. -/
theorem InOrder.length_le (h : InOrder s) : s.wfd.length ≤ FiberServer.MAX_CONNECTIONS := by
  obtain ⟨O, hO, -⟩ := h.table
  exact hO.length_le

namespace Main

variable {p q : Program} {act : Act} {clo : FiberClosure} {site : Site}

/-! ### What a step in the loop can do -/

/-- `main` is between two resumptions. -/
def Pc.Between : Pc → Prop
  | .poll | .scan _ | .swap => True
  | _ => False

/-- The program has stopped for good, other than by returning from `main`. -/
def Pc.Fails : Pc → Prop
  | .aborted | .stray => True
  | _ => False

/-- **What a step in the loop can do.** -/
inductive LoopStep (env : Env) (p : Program) : Program → Prop
  /-- A loop ends or goes on, or the host is polled. -/
  | goes {wfd : WasioPollfd} {pc : Pc} (hcur : p.pc.current = none) (hwfd : Quiet p.srv.wfd wfd)
      (hpc : pc.Between) : LoopStep env p ⟨{ p.srv with wfd := wfd }, pc⟩
  /-- The queues are swapped. -/
  | swaps (hpc : p.pc = .swap) : LoopStep env p ⟨p.srv.swap, .front 0⟩
  /-- The next fiber of the queue is resumed. -/
  | queued {i : ℕ} {clo : FiberClosure} (hpc : p.pc = .front i) (hclo : p.srv.frontq[i]? = some clo)
      (hsus : (p.srv.frames clo.fiber).Suspended) :
      LoopStep env p (back (.queue i) clo (resume env clo.fiber clo.fd p.srv))
  /-- The listener is resumed for an event. -/
  | heard (hpc : p.pc = .scan 0) :
      LoopStep env p (back (.event 0) ⟨lfiber, 0⟩ (resume env lfiber 0 (clear 0 p.srv)))
  /-- A fiber goes on with the answer of the host. -/
  | answered {site : Site} {clo : FiberClosure} {a : Answer} {t : Server}
      (hpc : p.pc = .running site clo) (hsite : site.InLoop)
      (hans : answered env clo.fiber p.srv a = some t) : LoopStep env p (back site clo t)
  /-- The slot of a connection that has returned is closed. -/
  | closed {site : Site} {clo : FiberClosure} {host : HostAnswer} {t : Server}
      (hpc : p.pc = .closing site clo) (hsite : site.InLoop)
      (hdone : handleDone clo p.srv host = some t) : LoopStep env p ⟨t, after site⟩
  /-- An assertion fails, or a fiber is resumed that cannot be. -/
  | fails {q : Program} (hpc : q.pc.Fails) (hframes : q.srv.frames = p.srv.frames) :
      LoopStep env p q

theorem loopStep_fiberResume {resumed : Bool} {arg : ℤ} {s : Server}
    (hframes : s.frames = p.srv.frames) (h : (s.frames clo.fiber).Suspended →
      LoopStep env p (back site clo (resume env clo.fiber arg s))) :
    LoopStep env p (fiberResume env resumed site clo arg s) := by
  rw [fiberResume]
  split_ifs with hsus
  · exact h hsus
  · exact .fails trivial hframes
  · exact .fails trivial hframes

/-- **Every step in the loop is one of these.** -/
theorem Looping.loopStep (hl : Looping p) (hp : p.pc.InLoop) (htr : Tr env p act q) :
    LoopStep env p q := by
  cases act with
  | tau =>
    have htau : tauStep p = some q := htr
    rw [tauStep] at htau
    split at htau
    · next hpc =>
      split_ifs at htau
      obtain rfl := Option.some.inj htau
      exact .goes (by rw [hpc]; rfl) (.refl _) trivial
    · next hpc =>
      have hcur : p.pc.current = none := by rw [hpc]; rfl
      split_ifs at htau <;> obtain rfl := Option.some.inj htau
      · exact .goes hcur (.refl _) trivial
      · exact .goes hcur (.refl _) trivial
    · next hpc =>
      obtain rfl := Option.some.inj htau
      exact .swaps hpc
    · next hpc =>
      rw [hpc] at hp
      exact hp.elim
    · cases htau
  | resume resumed =>
    obtain ⟨⟨site, clo, arg, s⟩, htarget, rfl⟩ := Option.map_eq_some_iff.mp htr
    rw [target] at htarget
    split at htarget
    · next i hpc =>
      obtain ⟨clo', hclo', heq⟩ := Option.map_eq_some_iff.mp htarget
      cases heq
      exact loopStep_fiberResume rfl fun hsus => .queued hpc hclo' hsus
    · next i hpc =>
      obtain ⟨-, heq⟩ := Option.ite_none_right_eq_some.mp htarget
      cases heq
      refine loopStep_fiberResume rfl fun hsus => ?_
      obtain rfl := hl.eq_zero_of_suspended hsus
      have hclo : p.srv.fibers 0 = ⟨lfiber, 0⟩ := calc
        p.srv.fibers 0 = ⟨(p.srv.fibers 0).fiber, (p.srv.fibers 0).fd⟩ := rfl
        _ = ⟨lfiber, 0⟩ := by rw [hl.tabled.fiber_eq, if_pos rfl, hl.tabled.fd_zero]
      rw [hclo]
      exact .heard hpc
    · next i hpc =>
      rw [hpc] at hp
      exact hp.elim
    · cases htarget
  | answer a =>
    simp only [Tr, step, answerStep] at htr
    split at htr
    · next hpc =>
      obtain rfl := Option.some.inj htr
      have hquiet := WasioHost.quiet_wasioPoll p.srv.wfd 100 a.revents a.toHostAnswer
      rw [polled]
      split
      · next heq =>
        rw [heq] at hquiet
        refine .goes (by rw [hpc]; rfl) hquiet ?_
        split_ifs <;> trivial
      · exact .fails trivial rfl
    · next site clo hpc =>
      rw [hpc] at hp
      split at htr <;> obtain rfl := Option.some.inj htr
      · next hans => exact .answered hpc hp hans
      · exact .fails trivial rfl
    · next site clo hpc =>
      rw [hpc] at hp
      split at htr <;> obtain rfl := Option.some.inj htr
      · next hdone => exact .closed hpc hp hdone
      · exact .fails trivial rfl
    · cases htr

/-! ### The count -/

instance (frame : Frame) : Decidable (frame = .freed) :=
  match frame with
  | .freed => isTrue rfl
  | .fresh _ | .space _ | .listening _ | .receiving _ _ | .sending _ _ _ | .quitting | .running _
  | .finished => isFalse (by simp)

/-- **The connections that live**: their fibers are allocated, and not freed. -/
def connections (s : Server) : Finset ℕ :=
  (Finset.range (s.allocated + 1)).filter fun f => f ≠ lfiber ∧ s.frames f ≠ .freed

variable {s t : Server} {f : ℕ}

theorem mem_connections (h : InOrder s) :
    f ∈ connections s ↔ f ≠ lfiber ∧ s.frames f ≠ .freed := by
  rw [connections, Finset.mem_filter, Finset.mem_range]
  exact ⟨fun hf => hf.2, fun hf => ⟨Nat.lt_succ_of_le (h.zero_lt hf.2).2, hf⟩⟩

/-- The same fibers live. -/
theorem connections_congr (halloc : t.allocated = s.allocated)
    (hframes : ∀ g, t.frames g = .freed ↔ s.frames g = .freed) :
    connections t = connections s := by
  rw [connections, connections, halloc]
  exact Finset.filter_congr fun g _ => and_congr_right fun _ => not_congr (hframes g)

/-- One more fiber lives. -/
theorem connections_of_alloc {frame : Frame} (h : InOrder s) (hne : s.allocated + 1 ≠ lfiber)
    (hframe : frame ≠ .freed) (halloc : t.allocated = s.allocated + 1)
    (hframes : t.frames = Function.update s.frames (s.allocated + 1) frame) :
    connections t = insert (s.allocated + 1) (connections s) := by
  ext g
  rw [Finset.mem_insert, mem_connections h, connections, Finset.mem_filter, Finset.mem_range,
    halloc, hframes]
  rcases eq_or_ne g (s.allocated + 1) with rfl | hg
  · simp [hne, hframe]
  · rw [Function.update_of_ne hg]
    constructor
    · exact fun hg' => Or.inr hg'.2
    · rintro (heq | hg')
      · exact absurd heq hg
      · have := (h.zero_lt hg'.2).2
        exact ⟨by omega, hg'⟩

/-- One fiber lives no more. -/
theorem connections_of_free (halloc : t.allocated = s.allocated)
    (hframes : t.frames = (s.setFrame f .freed).frames) :
    connections t = (connections s).erase f := by
  ext g
  rw [Finset.mem_erase, connections, connections, Finset.mem_filter, Finset.mem_filter, halloc,
    hframes]
  rcases eq_or_ne g f with rfl | hg
  · simp
  · rw [s.frames_setFrame_of_ne hg]
    exact ⟨fun hmem => ⟨hg, hmem⟩, fun hmem => hmem.2⟩

/-- **The count of the clients is right**, and nobody but the listener is in the table
`fibers`. -/
structure Census (s : Server) : Prop where
  clients_eq : s.clients = (connections s).card
  length_eq : s.wfd.length = s.clients + 1
  ofConnection : ∀ f ≠ lfiber, (s.frames f).OfConnection
  alone : (s.frames lfiber).Fresh → s.allocated = lfiber
  others : ∀ v ≠ 0, (s.fibers v).fd = -1

/-- There are never more than `max_clients`. -/
theorem Census.clients_le (h : Census s) (hin : InOrder s) : s.clients ≤ MAX_CLIENTS := by
  have hle := hin.length_le
  have hlen := h.length_eq
  rw [MAX_CLIENTS]
  omega

/-- Only the fields that are counted matter. -/
theorem Census.congr (h : Census s) (hlen : t.wfd.length = s.wfd.length)
    (hclients : t.clients = s.clients) (halloc : t.allocated = s.allocated)
    (hframes : t.frames = s.frames) (hfibers : t.fibers = s.fibers) : Census t where
  clients_eq := by
    rw [hclients, connections_congr halloc fun g => by rw [hframes]]
    exact h.clients_eq
  length_eq := by
    rw [hlen, hclients]
    exact h.length_eq
  ofConnection := by
    rw [hframes]
    exact h.ofConnection
  alone := by
    rw [hframes, halloc]
    exact h.alone
  others := by
    rw [hfibers]
    exact h.others

/-- **A fiber that runs a piece of its code** stays what it is. -/
theorem Census.piece (h : Census s) (hf : s.frames f ≠ .freed) (hpiece : Piece f s t) :
    Census t := by
  obtain ⟨hwfd, hfibers, -, -, hclients, halloc, hothers⟩ := hpiece.same
  refine ⟨?_, by rw [hwfd, hclients]; exact h.length_eq, fun g hg => ?_, fun hfresh => ?_, ?_⟩
  · rw [hclients, h.clients_eq, connections_congr halloc fun g => ?_]
    rcases eq_or_ne g f with rfl | hne
    · exact iff_of_false hpiece.ne_freed hf
    · rw [hothers g hne]
  · rcases eq_or_ne g f with rfl | hne
    · exact hpiece.ofConnection (h.ofConnection g hg)
    · rw [hothers g hne]
      exact h.ofConnection g hg
  · rcases eq_or_ne lfiber f with rfl | hne
    · exact absurd hfresh hpiece.not_fresh
    · rw [hothers lfiber hne] at hfresh
      exact halloc.trans (h.alone hfresh)
  · rw [hfibers]
    exact h.others

/-- **A connection that is accepted** is counted. -/
theorem Census.connects (h : Census s) (hin : InOrder s) (hlisten : s.frames lfiber ≠ .freed)
    (hfresh : ¬(s.frames lfiber).Fresh) (fd : ℤ) (v : ℕ) (d : ℤ) (fl : Freelist)
    (rearq : List FiberClosure) :
    Census { allocConnection fd v { s with wfd := WasioHost.bindSlot s.wfd v d fl } with
      rearq := rearq, clients := Uint32.succ s.clients } := by
  have hle := hin.length_le
  have hclients : Uint32.succ s.clients = s.clients + 1 := by
    refine Uint32.succ_of_lt ?_
    have hlen := h.length_eq
    rw [FiberServer.MAX_CONNECTIONS] at hle
    omega
  have hlength : Uint32.succ s.wfd.length = s.wfd.length + 1 := by
    refine Uint32.succ_of_lt ?_
    rw [FiberServer.MAX_CONNECTIONS] at hle
    omega
  have hnew : s.frames (s.allocated + 1) = .freed :=
    hin.unborn _ (Or.inr (Nat.lt_succ_self _))
  have hne : lfiber ≠ s.allocated + 1 := by
    have := (hin.zero_lt hlisten).2
    omega
  refine ⟨?_, ?_, fun g hg => ?_, fun hf => ?_, h.others⟩
  · dsimp only [allocConnection]
    have hmem : s.allocated + 1 ∉ connections s := fun hmem =>
      ((mem_connections hin).mp hmem).2 hnew
    rw [hclients, h.clients_eq, ← Finset.card_insert_of_notMem hmem]
    exact congrArg _ (connections_of_alloc hin hne.symm (by simp) rfl rfl).symm
  · exact hlength.trans (by rw [h.length_eq, hclients])
  · dsimp only [allocConnection]
    rcases eq_or_ne g (s.allocated + 1) with rfl | hg'
    · rw [Function.update_self]
      trivial
    · rw [Function.update_of_ne hg']
      exact h.ofConnection g hg
  · dsimp only [allocConnection] at hf
    rw [Function.update_of_ne hne] at hf
    exact absurd hf hfresh

/-- **A fiber that goes on with the answer of the host** keeps the count right. -/
theorem Census.answered {a : Answer} (h : Census s) (hin : InOrder s)
    (hlisten : s.frames lfiber ≠ .freed) (hans : answered env f s a = some t) :
    ∃ u, Census u ∧ u.cmd = s.cmd ∧ u.frames f = s.frames f ∧ s.frames f ≠ .freed ∧
      Piece f u t := by
  rw [HttpServer.answered] at hans
  split at hans
  · next fd maxAccept hframe =>
    -- only the listener is in `w_accept`
    obtain rfl : f = lfiber := by
      by_contra hne
      have hconn := h.ofConnection f hne
      rw [hframe] at hconn
      exact hconn
    have hkind : ¬(s.frames lfiber).OfConnection := by
      rw [hframe]
      exact id
    rcases hin.accepted_cases hans with rfl | ⟨v, fl, u, -, hu, rfl⟩
    · exact ⟨s, h, rfl, rfl, hlisten, .makes rfl fun hc => absurd hc hkind⟩
    · have hframes : u.frames lfiber = s.frames lfiber := by
        rw [hu]
        dsimp only [allocConnection]
        rw [Function.update_of_ne]
        have := (hin.zero_lt hlisten).2
        omega
      refine ⟨u, ?_, by rw [hu]; rfl, hframes, hlisten, piece_acceptMore (hframes ▸ hkind)⟩
      rw [hu]
      exact h.connects hin hlisten (by rw [hframe]; exact id) fd v a.ret fl _
  · next hframe => exact ⟨s, h, rfl, rfl, by simp [hframe], piece_received hans⟩
  · next hframe =>
    obtain rfl := Option.some.inj hans
    exact ⟨s, h, rfl, rfl, by simp [hframe], piece_sent⟩
  · cases hans

/-- **A connection that is closed** is counted down. -/
theorem Census.handleDone {clo : FiberClosure} {host : HostAnswer} (h : Census s) (hin : InOrder s)
    (hne : clo.fiber ≠ lfiber) (hf : s.frames clo.fiber ≠ .freed)
    (hdone : handleDone clo s host = some t) : Census t ∧ t.cmd = s.cmd := by
  have hmem : clo.fiber ∈ connections s := (mem_connections hin).mpr ⟨hne, hf⟩
  have hpos : 0 < s.clients := h.clients_eq ▸ Finset.card_pos.mpr ⟨_, hmem⟩
  have hclients : Uint32.pred s.clients = s.clients - 1 := Uint32.pred_of_pos hpos
  rw [HttpServer.handleDone] at hdone
  split at hdone
  case h_2 => cases hdone
  next wfd hclose =>
  obtain rfl := Option.some.inj hdone
  have hlength : wfd.length = Uint32.pred s.wfd.length := by
    rw [wasioClose] at hclose
    split_ifs at hclose
    · obtain ⟨hres, -⟩ := Prod.mk.inj (Option.some.inj hclose)
      exact absurd (congrArg (fun r => r.result) hres) (translateError_ne_ok _)
    · split at hclose
      · obtain ⟨-, rfl⟩ := Prod.mk.inj (Option.some.inj hclose)
        rfl
      · cases hclose
  refine ⟨⟨?_, ?_, fun g hg => ?_, fun hfresh => ?_, fun v hv => ?_⟩, rfl⟩
  · refine (hclients.trans ?_ : Uint32.pred s.clients = _)
    rw [h.clients_eq, ← Finset.card_erase_of_mem hmem]
    refine congrArg _ (Eq.symm ?_)
    exact connections_of_free rfl rfl
  · have hlen := h.length_eq
    change wfd.length = Uint32.pred s.clients + 1
    rw [hlength, Uint32.pred_of_pos (by omega), hclients]
    omega
  · dsimp only
    rcases eq_or_ne g clo.fiber with rfl | hg'
    · rw [s.frames_setFrame_self]
      trivial
    · rw [s.frames_setFrame_of_ne hg']
      exact h.ofConnection g hg
  · dsimp only at hfresh
    rw [s.frames_setFrame_of_ne hne.symm] at hfresh
    exact h.alone hfresh
  · dsimp only
    rcases eq_or_ne v clo.fd.toNat with rfl | hv'
    · rw [Function.update_self]
    · rw [Function.update_of_ne hv']
      exact h.others v hv

/-! ### The end of the program -/

/-- The listener has been resumed before. -/
theorem listening_of_waiting {frame : Frame} (h : frame.Waiting) (hfresh : ¬frame.Fresh) :
    (∃ fd, frame = .space fd) ∨ ∃ fd, frame = .listening fd := by
  cases frame with
  | fresh => exact absurd trivial hfresh
  | space fd => exact Or.inl ⟨fd, rfl⟩
  | listening fd => exact Or.inr ⟨fd, rfl⟩
  | _ => exact h.elim

/-- **What holds in the loop.** -/
structure Kept (p : Program) : Prop where
  census : Census p.srv
  tag_ne : p.srv.cmd.tag ≠ .quit

/-- **What holds behind the loop**: a client is counted that nobody counts down, and the
listener is the only fiber to be killed. -/
def Ends (p : Program) : Prop :=
  match p.pc with
  | .kill i => i ≤ FiberServer.MAX_CONNECTIONS ∧ 0 < p.srv.clients ∧
      (∀ v ≠ 0, (p.srv.fibers v).fd = -1) ∧
      (i = 0 → p.srv.fibers 0 = ⟨lfiber, 0⟩ ∧ (p.srv.frames lfiber).Waiting ∧
        ¬(p.srv.frames lfiber).Fresh)
  | .running site _ | .closing site _ => site.InLoop
  | .exited => False
  | .front _ | .poll | .scan _ | .swap | .aborted | .stray => True

/-- **The invariant** of the whole program. -/
def Counted (p : Program) : Prop := (p.pc.InLoop → Kept p) ∧ Ends p

theorem counted_of_fails (h : p.pc.Fails) : Counted p := by
  obtain ⟨s, pc⟩ := p
  cases pc with
  | aborted | stray => exact ⟨fun h => h.elim, trivial⟩
  | _ => exact h.elim

/-- `handle_request` tells `main` to go on, unless the fiber has asked to quit. -/
theorem handleYield_cases {b : Bool} (hreq : handleYield clo s = some (b, t)) :
    b = true ∧ s.cmd.tag ≠ .quit ∨ b = false ∧ s.cmd.tag = .quit ∧ t = s := by
  rw [handleYield] at hreq
  split at hreq
  case h_1 htag =>
    obtain ⟨rearq, -, heq⟩ := Option.map_eq_some_iff.mp hreq
    exact Or.inl ⟨(Prod.mk.inj heq).1.symm, by simp [htag]⟩
  case h_4 htag =>
    obtain ⟨hb, ht⟩ := Prod.mk.inj (Option.some.inj hreq)
    exact Or.inr ⟨hb.symm, htag, ht.symm⟩
  case h_5 => cases hreq
  all_goals
    next htag =>
    exact Or.inl ⟨(Prod.mk.inj (Option.some.inj hreq)).1.symm, by simp [htag]⟩

/-- **How a fiber that yields comes back to the loop.** -/
theorem back_of_suspended (hsite : site.InLoop) (hsus : (s.frames clo.fiber).Suspended) :
    (∃ t, handleYield clo s = some (true, t) ∧ back site clo s = ⟨t, after site⟩) ∨
    (s.cmd.tag = .quit ∧ back site clo s = leave s site) ∨ back site clo s = ⟨s, .aborted⟩ := by
  cases site with
  | kill => exact hsite.elim
  | queue | event =>
    cases hframe : s.frames clo.fiber with
    | running | finished | freed =>
      rw [hframe] at hsus
      exact hsus.elim
    | _ =>
      simp only [back, hframe]
      cases hreq : handleYield clo s with
      | none => exact Or.inr (Or.inr rfl)
      | some r =>
        obtain ⟨b, t⟩ := r
        rcases handleYield_cases hreq with ⟨rfl, -⟩ | ⟨rfl, hquit, rfl⟩
        · exact Or.inl ⟨t, rfl, rfl⟩
        · exact Or.inr (Or.inl ⟨hquit, rfl⟩)

theorem counted_after (h : Census s) (htag : s.cmd.tag ≠ .quit) (hsite : site.InLoop) :
    Counted ⟨s, after site⟩ :=
  ⟨fun _ => ⟨h, htag⟩, by cases site <;> trivial⟩

/-- **A connection asks to quit**: it is counted, and the listener waits. -/
theorem counted_leave (htab : Tabled s) (hlisten : Listens s (some f)) (h : Census s)
    (hframe : s.frames f = .quitting) (hsite : site.InLoop) : Counted (leave s site) := by
  have hne : f ≠ lfiber := by
    rintro rfl
    rw [Listens, hframe] at hlisten
    rcases hlisten with hwait | ⟨-, hacc⟩
    · exact hwait
    · exact hacc
  have hf : s.frames f ≠ .freed := by simp [hframe]
  have hpos : 0 < s.clients :=
    h.clients_eq ▸ Finset.card_pos.mpr ⟨f, (mem_connections htab.inOrder).mpr ⟨hne, hf⟩⟩
  have hwait : (s.frames lfiber).Waiting :=
    (hlisten.of_ne (fun heq => hne (Option.some.inj heq)) rfl none).waiting
  -- it was the listener that has accepted the connection
  have hfresh : ¬(s.frames lfiber).Fresh := by
    intro hfresh
    obtain ⟨hzero, hle⟩ := htab.inOrder.zero_lt hf
    rw [h.alone hfresh] at hle
    rw [lfiber] at hle hne
    omega
  have hclo : s.fibers 0 = ⟨lfiber, 0⟩ := calc
    s.fibers 0 = ⟨(s.fibers 0).fiber, (s.fibers 0).fd⟩ := rfl
    _ = ⟨lfiber, 0⟩ := by rw [htab.fiber_eq, if_pos rfl, htab.fd_zero]
  cases site with
  | kill => exact hsite.elim
  | queue | event =>
    exact ⟨fun h => h.elim, Nat.zero_le _, hpos, h.others, fun _ => ⟨hclo, hwait, hfresh⟩⟩

/-- How a fiber that does not yield comes back to the loop. -/
theorem back_of_not_suspended (hsite : site.InLoop) (hf : s.frames clo.fiber ≠ .freed)
    (hsus : ¬(s.frames clo.fiber).Suspended) :
    back site clo s = ⟨s, .running site clo⟩ ∨
      s.frames clo.fiber = .finished ∧ back site clo s = ⟨s, .closing site clo⟩ := by
  cases hframe : s.frames clo.fiber with
  | running =>
    left
    simp only [back, hframe]
  | finished =>
    right
    cases site with
    | kill => exact hsite.elim
    | queue | event => simp only [back, hframe, and_self]
  | freed => exact absurd hframe hf
  | _ =>
    rw [hframe] at hsus
    exact absurd trivial hsus

/-- **When a fiber has run a piece of its code**, `main` goes on, or leaves its loop with a
client counted. -/
theorem counted_back (htab : Tabled s) (hlisten : Listens s (some clo.fiber)) (h : Census s)
    (hf : s.frames clo.fiber ≠ .freed)
    (htag : s.cmd.tag = .quit → s.frames clo.fiber = .quitting) (hsite : site.InLoop) :
    Counted (back site clo s) := by
  by_cases hsus : (s.frames clo.fiber).Suspended
  · rcases back_of_suspended hsite hsus with ⟨t, hreq, hback⟩ | ⟨hquit, hback⟩ | hback <;>
      rw [hback]
    · obtain ⟨wfd, rearq, rfl, hquiet, -⟩ := htab.inOrder.handleYield_cases hreq
      refine counted_after (h.congr hquiet.length_eq rfl rfl rfl rfl) ?_ hsite
      exact ((handleYield_cases hreq).resolve_right fun hr => (by cases hr.1)).2
    · exact counted_leave htab hlisten h (htag hquit) hsite
    · exact counted_of_fails trivial
  · have hne : s.cmd.tag ≠ .quit := fun hquit => hsus (by rw [htag hquit]; trivial)
    rcases back_of_not_suspended hsite hf hsus with hback | ⟨-, hback⟩ <;> rw [hback]
    · exact ⟨fun _ => ⟨h, hne⟩, hsite⟩
    · exact ⟨fun _ => ⟨h, hne⟩, hsite⟩

/-! ### The steps -/

/-- **Every step in the loop keeps the invariant.** -/
theorem Kept.loopStep (hl : Looping p) (h : Kept p) (hstep : LoopStep env p q) : Counted q := by
  have hlisten : p.pc.current = none → Listens p.srv none := fun hcur => hcur ▸ hl.listens
  -- a fiber that is resumed has not asked to quit before
  have hresume : ∀ {site clo arg u}, site.InLoop → p.pc.current = none → Tabled u → Census u →
      u.frames = p.srv.frames → u.cmd = p.srv.cmd → (u.frames clo.fiber).Suspended →
      arg ≠ FIBER_KILL_SIGNAL → ((u.frames clo.fiber).Fresh → arg = u.descriptor clo.fiber) →
      Counted (back site clo (resume env clo.fiber arg u)) := by
    intro site clo arg u hsite hcur htab hcensus hframes hcmd hsus harg hfresh
    have hwait : Listens u none := Or.inl (hframes ▸ (hlisten hcur).waiting)
    obtain ⟨htab', hlisten', -, -⟩ := htab.resume env hwait hsus harg hfresh
    have hpiece := piece_resume env arg hsus
    refine counted_back htab' hlisten' (hcensus.piece hsus.ne_freed hpiece) hpiece.ne_freed ?_ hsite
    intro hquit
    rcases hpiece.tag_cases with heq | ⟨hquits, -⟩
    · exact absurd (hcmd ▸ heq.symm.trans hquit) h.tag_ne
    · exact hquits hquit
  cases hstep with
  | goes hcur hwfd hpc =>
    rename_i wfd pc
    have hcensus : Census { p.srv with wfd := wfd } :=
      h.census.congr hwfd.length_eq rfl rfl rfl rfl
    cases pc with
    | poll | scan | swap => exact ⟨fun _ => ⟨hcensus, h.tag_ne⟩, trivial⟩
    | _ => exact hpc.elim
  | swaps => exact ⟨fun _ => ⟨h.census.congr rfl rfl rfl rfl rfl, h.tag_ne⟩, trivial⟩
  | @queued i clo hpc hclo hsus =>
    obtain ⟨-, hfd⟩ := hl.tabled.queued clo
      (List.mem_append_left _ (List.mem_of_getElem? hclo))
    have hnonneg := hl.tabled.inOrder.nonneg hsus.ne_freed
    refine hresume trivial (by rw [hpc]; rfl) hl.tabled h.census rfl rfl hsus ?_ fun _ => hfd
    rw [FIBER_KILL_SIGNAL]
    omega
  | heard hpc =>
    have hwait := (hlisten (by rw [hpc]; rfl)).waiting
    exact @hresume _ ⟨lfiber, 0⟩ _ _ trivial (by rw [hpc]; rfl) (hl.tabled.clear 0)
      (h.census.congr (quiet_clear 0 _).length_eq rfl rfl rfl rfl) rfl rfl hwait.suspended
      (by decide) fun _ => hl.tabled.descriptor_eq.symm
  | @answered site clo a t hpc hsite hans =>
    have hcur : Listens p.srv (some clo.fiber) := by
      have hlistens := hl.listens
      rwa [hpc] at hlistens
    obtain ⟨htab, hlisten', -, -⟩ := hl.tabled.answered hcur hans
    obtain ⟨u, hcensus, hcmd, hframe, hf, hpiece⟩ :=
      h.census.answered hl.tabled.inOrder hcur.ne_freed hans
    refine counted_back htab hlisten' (hcensus.piece (by rwa [hframe]) hpiece) hpiece.ne_freed ?_
      hsite
    intro hquit
    rcases hpiece.tag_cases with heq | ⟨hquits, -⟩
    · exact absurd (hcmd ▸ heq.symm.trans hquit) h.tag_ne
    · exact hquits hquit
  | @closed site clo host t hpc hsite hdone =>
    obtain ⟨-, hfin⟩ := hl.closing site clo hpc
    have hne : clo.fiber ≠ lfiber := by
      intro heq
      have hwait := (hlisten (by rw [hpc]; rfl)).waiting
      rw [← heq, hfin] at hwait
      exact hwait
    obtain ⟨hcensus, hcmd⟩ :=
      h.census.handleDone hl.tabled.inOrder hne (by simp [hfin]) hdone
    exact counted_after hcensus (hcmd ▸ h.tag_ne) hsite
  | fails hpc => exact counted_of_fails hpc

/-- The listener is killed. -/
theorem resume_kill (hwait : (s.frames lfiber).Waiting) (hfresh : ¬(s.frames lfiber).Fresh) :
    resume env lfiber FIBER_KILL_SIGNAL s = s.setFrame lfiber .finished := by
  rw [resume]
  rcases listening_of_waiting hwait hfresh with ⟨fd, hframe⟩ | ⟨fd, hframe⟩ <;> rw [hframe]
  · exact if_pos rfl
  · exact if_pos rfl

/-- **Every step behind the loop** leaves the client counted. -/
theorem Ends.step (hp : ¬p.pc.InLoop) (h : Ends p) (htr : Tr env p act q) : Counted q := by
  obtain ⟨s, pc⟩ := p
  cases pc with
  | front | poll | scan | swap => exact absurd trivial hp
  | running site | closing site => exact absurd h hp
  | exited => exact h.elim
  | aborted | stray =>
    cases act <;> simp [Tr, step, tauStep, target, answerStep] at htr
  | kill i =>
    obtain ⟨-, hpos, hothers, hzero⟩ := h
    cases act with
    | answer a => simp [Tr, step, answerStep] at htr
    | tau =>
      simp only [Tr, step, tauStep] at htr
      split_ifs at htr with hlt hfd hclients <;> obtain rfl := Option.some.inj htr
      · exact ⟨fun h => h.elim, hlt, hpos, hothers, fun hi => absurd hi (Nat.succ_ne_zero i)⟩
      · exact absurd hclients (Nat.ne_of_gt hpos)
      · exact counted_of_fails trivial
    | resume resumed =>
      obtain ⟨⟨site, clo, arg, u⟩, htarget, rfl⟩ := Option.map_eq_some_iff.mp htr
      obtain ⟨⟨-, hfd⟩, heq⟩ := Option.ite_none_right_eq_some.mp htarget
      cases heq
      -- only the listener is in the table
      obtain rfl : i = 0 := by
        by_contra hne
        exact hfd (hothers i hne)
      obtain ⟨hclo, hwait, hfresh⟩ := hzero rfl
      change Counted (fiberResume env resumed (.kill 0) (s.fibers 0) FIBER_KILL_SIGNAL s)
      rw [hclo, fiberResume]
      split_ifs
      · rw [resume_kill hwait hfresh, back, s.frames_setFrame_self]
        refine ⟨fun h => h.elim, by decide, hpos, fun v hv => ?_,
          fun hi => absurd hi (Nat.succ_ne_zero 0)⟩
        exact (congrArg _ (Function.update_of_ne hv ..)).trans (hothers v hv)
      · exact counted_of_fails trivial
      · exact counted_of_fails trivial

/-- **Every step keeps the invariant.** -/
theorem Counted.step {n m : Noting} (h : Counted n.2) (hinv : Inv n) (htr : TrNoting env n act m) :
    Counted m.2 := by
  by_cases hp : n.2.pc.InLoop
  · exact (h.1 hp).loopStep (hinv hp).1 ((hinv hp).1.loopStep hp htr.1)
  · exact h.2.step hp htr.1

/-- Behind the last entry of the table **the assertion fails** that no client is left. -/
theorem Ends.assertion_fails (h : Ends p) (hpc : p.pc = .kill FiberServer.MAX_CONNECTIONS) :
    p.srv.clients ≠ 0 ∧ Tr env p .tau ⟨p.srv, .aborted⟩ := by
  obtain ⟨s, pc⟩ := p
  subst hpc
  have hne : s.clients ≠ 0 := Nat.ne_of_gt h.2.1
  refine ⟨hne, ?_⟩
  simp only [Tr, HttpServer.Main.step, tauStep, if_neg (Nat.lt_irrefl _), if_neg hne]

/-- **The loop over the table gets to its end**, if the fiber library manages to resume the
listener. -/
theorem Ends.exists_last {i : ℕ} (h : Ends p) (hpc : p.pc = .kill i) :
    ∃ l q, Lts.Steps (Tr env) p l q ∧ Ends q ∧ q.pc = .kill FiberServer.MAX_CONNECTIONS := by
  have hle : i ≤ FiberServer.MAX_CONNECTIONS := by
    rw [Ends, hpc] at h
    exact h.1
  induction hn : FiberServer.MAX_CONNECTIONS - i generalizing p i with
  | zero =>
    obtain rfl : i = FiberServer.MAX_CONNECTIONS := by omega
    exact ⟨[], p, .nil p, h, hpc⟩
  | succ n ih =>
    have hlt : i < FiberServer.MAX_CONNECTIONS := by omega
    -- an entry is passed over, or is the listener's
    obtain ⟨act, q, htr, hq⟩ : ∃ act q, Tr env p act q ∧ q.pc = .kill (i + 1) := by
      obtain ⟨s, pc⟩ := p
      subst hpc
      obtain ⟨-, -, hothers, hzero⟩ := h
      by_cases hfd : (s.fibers i).fd = -1
      · exact ⟨.tau, ⟨s, .kill (i + 1)⟩,
          by simp only [Tr, HttpServer.Main.step, tauStep, if_pos hlt, if_pos hfd], rfl⟩
      · obtain rfl : i = 0 := by
          by_contra hne
          exact hfd (hothers i hne)
        obtain ⟨hclo, hwait, hfresh⟩ := hzero rfl
        have htarget : target ⟨s, .kill 0⟩ = some (.kill 0, s.fibers 0, FIBER_KILL_SIGNAL, s) :=
          if_pos ⟨hlt, hfd⟩
        refine ⟨.resume true, _, by rw [Tr, HttpServer.Main.step, htarget]; rfl, ?_⟩
        dsimp only
        rw [hclo, fiberResume, if_pos hwait.suspended, if_pos rfl, resume_kill hwait hfresh, back,
          s.frames_setFrame_self]
        rfl
    have hends : Ends q := (h.step (by rw [hpc]; exact id) htr).2
    obtain ⟨l, r, hl, hr⟩ := ih hends hq hlt (by omega)
    exact ⟨act :: l, r, .cons htr hl, hr⟩

theorem clients_serverMain {host : HostAnswer} (hstart : serverMain host = some s) :
    s.clients = 0 := by
  rw [serverMain] at hstart
  split at hstart
  case h_2 => cases hstart
  split at hstart
  case h_2 => cases hstart
  split_ifs at hstart
  obtain rfl := Option.some.inj hstart
  rfl

theorem counted_start {host : HostAnswer} (hstart : serverMain host = some s) :
    Counted (start s) := by
  obtain ⟨-, -, -, -, hO, -, hfibers, -, -, hcmd, halloc, hframes, -, -⟩ := serverMain_cases hstart
  have hclients := clients_serverMain hstart
  have hfreed : ∀ f ≠ lfiber, s.frames f = .freed := fun f hf => by
    rw [hframes, Function.update_of_ne hf]
  refine ⟨fun _ => ⟨⟨?_, ?_, fun f hf => ?_, fun _ => halloc, fun v hv => ?_⟩, ?_⟩, trivial⟩
  · change s.clients = (connections s).card
    rw [hclients, eq_comm, Finset.card_eq_zero, connections]
    exact Finset.filter_false_of_mem fun f _ hf => hf.2 (hfreed f hf.1)
  · change s.wfd.length = s.clients + 1
    rw [hclients, hO.length_eq, Finset.card_singleton]
  · change (s.frames f).OfConnection
    rw [hfreed f hf]
    trivial
  · change (s.fibers v).fd = -1
    rw [hfibers, Function.update_of_ne hv]
  · change s.cmd.tag ≠ .quit
    rw [hcmd]
    decide

/-- The parser, on the only request there is. -/
def oneQuit : Env := ⟨fun _ _ _ => ⟨31, some 4, 5, 1⟩, fun _ _ => 0⟩

/-- That request. -/
def quitRequest : Answer :=
  { answerWith 31 0 fun _ => 0 with
    data := fun k => (Http.bytes "GET /quit HTTP/1.1\r\nHost: a\r\n\r\n").getD k 0 }

/-- **The invariants of every state that is reached.** -/
theorem inv_counted {host : HostAnswer} (hstart : serverMain host = some s) {l : List Act}
    (hl : Lts.Steps (Tr env) (start s) l p) : ∃ h, Inv (h, p) ∧ Counted p := by
  obtain ⟨h, hnoting⟩ := hl.observed note .init
  refine ⟨h, hnoting.invariant (P := fun n => Inv n ∧ Counted n.2) (fun n act m hn htr => ?_)
    ⟨inv_start hstart, counted_start hstart⟩⟩
  exact ⟨hn.1.step htr, hn.2.step hn.1 htr⟩

end Main

end HttpServer

open HttpServer (serverMain Env Server MAX_CLIENTS)
open HttpServer.Main

/-- **The clients are counted right in every round, and no run returns from `main`**: while
`main` is in its loop, `clients` is the number of connections that live, one less than the
number of bound slots, and at most `max_clients`. Once a client has asked to quit, one is
still counted, the loop over the table gets to its end if the listener can be resumed, and
the assertion behind it, that there are none left, fails. -/
theorem httpServer_clients (env : Env) (host : HostAnswer) (s₀ : Server)
    (h : serverMain host = some s₀) (l : List Act) (p : Program)
    (hl : Lts.Steps (Tr env) (start s₀) l p) :
    (p.pc.InLoop → p.srv.clients = (connections p.srv).card ∧
      p.srv.wfd.length = p.srv.clients + 1 ∧ p.srv.clients ≤ MAX_CLIENTS) ∧
    (∀ i, p.pc = .kill i → 0 < p.srv.clients ∧
      ∃ l' q, Lts.Steps (Tr env) p l' q ∧ q.pc = .kill FiberServer.MAX_CONNECTIONS ∧
        q.srv.clients ≠ 0 ∧ Tr env q .tau ⟨q.srv, .aborted⟩) ∧
    p.pc ≠ .exited := by
  obtain ⟨n, hinv, hcounted⟩ := inv_counted h hl
  refine ⟨fun hloop => ?_, fun i hpc => ?_, fun hpc => ?_⟩
  · have hcensus := (hcounted.1 hloop).census
    exact ⟨hcensus.clients_eq, hcensus.length_eq,
      hcensus.clients_le (hinv hloop).1.tabled.inOrder⟩
  · obtain ⟨l', q, hl', hends', hq⟩ := hcounted.2.exists_last hpc
    refine ⟨?_, l', q, hl', hq, hends'.assertion_fails hq⟩
    have hends := hcounted.2
    rw [Ends, hpc] at hends
    exact hends.2.1
  · have hends := hcounted.2
    rw [Ends, hpc] at hends
    exact hends

/-- A client asks the server to quit: the listener is killed, and the client is counted. -/
theorem httpServer_clients_quit :
    ∃ s₀ l p, serverMain ⟨3, 0⟩ = some s₀ ∧ Lts.Steps (Tr oneQuit) (start s₀) l p ∧
      p.pc = .kill 1 ∧ 0 < p.srv.clients ∧
      ∃ l' q, Lts.Steps (Tr oneQuit) p l' q ∧ q.pc = .kill FiberServer.MAX_CONNECTIONS ∧
        q.srv.clients ≠ 0 ∧ Tr oneQuit q .tau ⟨q.srv, .aborted⟩ := by
  obtain ⟨s₀, hstart, p, hp, hpc⟩ : ∃ s₀ ∈ serverMain ⟨3, 0⟩,
      ∃ p ∈ Lts.exec (step oneQuit) (start s₀)
        [.resume true, .answer (answerWith 5 0 fun _ => 0), wouldBlock, .tau,
          .answer (answerWith 0 0 fun _ => 0), .tau, .resume true,
          .answer quitRequest, .answer (answerWith 100 0 fun _ => 0), .resume true],
        p.pc = .kill 1 := by
    decide +kernel
  have hl := Lts.exec_eq_some_iff.mp hp
  obtain ⟨-, hkill, -⟩ := httpServer_clients oneQuit ⟨3, 0⟩ s₀ hstart _ p hl
  exact ⟨s₀, _, p, hstart, hl, hpc, hkill 1 hpc⟩

end Waeio
