import Mathlib.Data.Nat.ModEq
import Waeio.EchoServer.Echo

/-!
# What the echo server counts, and what it leaves open

`Waeio.EchoServer.Echo` says which runs of the echo server count the connections. Here are all
of them. The table never goes wrong: as long as the server is in its loop, the slots that are
bound are the listener's and those of the live connections, each with the descriptor the host
has given for it, and the loop serves live connections only (`Waeio.EchoServer.Standing`).
It is `nclients` that does, and by how much is known from the closings alone
(`Waeio.EchoServer.Tally`): a connection that is closed behind the first send stays in the
count, and one that the host refuses to close later drops out of it.

The count matters at the end. Where a client asks the server to quit, the slots from
`nclients` down to `1` are closed, and so exactly the connections on slots above `nclients`
stay open – and all of them where `wasio_poll` fails.
-/

namespace Waeio

namespace EchoServer

open Http (Answer)
open WasioHost (Quiet Ready bindSlot unbindSlot)
open Freelist (Represents)

/-! ### What is counted -/

/-- **The closings that `nclients` does not follow.** -/
structure Tally where
  /-- How many connections were closed behind the first send. -/
  atOnce : ℕ
  /-- How many closings behind a later send the host has refused. -/
  refused : ℕ
  deriving DecidableEq

/-- No closing. -/
def Tally.init : Tally := ⟨0, 0⟩

/-- Counting one more step. -/
def Tally.after (k : Tally) (n : Noting) (act : Act) (_ : Noting) : Tally :=
  match n.2.pc, act with
  | .closeSent _, .answer a => if a.ret = 0 then { k with atOnce := k.atOnce + 1 } else k
  | .closeResent _, .answer a => if a.ret = 0 then k else { k with refused := k.refused + 1 }
  | _, _ => k

/-- The server, with what has passed and what was counted. -/
abbrev Counting := Tally × Noting

/-- **A step**, with what was counted beside what has passed. -/
def TrCounting : Counting → Act → Counting → Prop := Lts.Observed Tally.after TrNoting

/-- The slot the server is about to call the host for. -/
def Pc.served : Pc → Option ℕ
  | .recv v | .send v _ | .closeSent v | .resend v | .closeResent v => some v
  | _ => none

/-- **The table is right**: the slots that are bound are the listener's and those of the live
connections, with the descriptors the host has given, and a live connection is served. -/
structure Standing (h : Record) (p : Program) : Prop where
  bound : Bound h p
  peer_eq : ∀ v ∈ h.live, p.wfd.fds v = h.peer v
  served : ∀ v ∈ p.pc.served, v ∈ h.live

/-- **What `nclients` is**, modulo `2 ^ 32`. -/
structure Counted (k : Tally) (h : Record) (p : Program) : Prop where
  standing : Standing h p
  count : p.nclients + k.refused ≡ h.live.card + k.atOnce [MOD 2 ^ 32]

variable {k : Tally} {h h' : Record} {p q : Program} {n m : Noting} {a : Answer} {v : ℕ}

/-! ### The steps of the loop -/

/-- What is counted goes by where the server is. -/
theorem after_of_pc {act : Act} {pc : Pc} (hpc : p.pc = pc) :
    k.after (h, p) act n = k.after (h, { p with pc := pc }) act n := by
  rw [← hpc]

/-- The server goes on, and no connection is accepted or closed. -/
theorem Counted.moves (hk : Counted k h p) (hq : Quiet p.wfd q.wfd)
    (hsame : q.sockfd = p.sockfd ∧ q.nclients = p.nclients)
    (hlive : h'.live = h.live ∧ h'.peer = h.peer) (hserved : ∀ v ∈ q.pc.served, v ∈ h.live) :
    Counted k h' q := by
  obtain ⟨⟨hb, hpeer, -⟩, hcount⟩ := hk
  have hbound : Bound h q := hb.congr hq hsame.1
  refine ⟨⟨⟨?_, ?_, hbound.sockfd_eq⟩, ?_, ?_⟩, ?_⟩
  · rw [hlive.1]
    exact hbound.table
  · rw [hlive.1]
    exact hbound.zero_notMem
  · rw [hlive.1, hlive.2, hq.fds_eq]
    exact hpeer
  · rw [hlive.1]
    exact hserved
  · rw [hlive.1, hsame.2]
    exact hcount

theorem counted_polled (hk : Counted k h p) : Counted k h (polled p a) := by
  have hq := WasioHost.quiet_wasioPoll p.wfd 1000 a.revents a.toHostAnswer
  rw [polled]
  split
  · next hpoll =>
    rw [hpoll] at hq
    exact hk.moves hq ⟨rfl, rfl⟩ ⟨rfl, rfl⟩ (fun _ hv => by cases hv)
  · next hpoll =>
    rw [hpoll] at hq
    exact hk.moves hq ⟨rfl, rfl⟩ ⟨rfl, rfl⟩ (fun _ hv => by cases hv)

/-- **The loop turns to a slot** that is bound: the listener's, or a live connection's. -/
theorem counted_body {block : ℕ → UInt8} (hk : Counted k h p) (hready : Ready p.wfd v) :
    Counted k h (body v block p) := by
  rw [body]
  split_ifs with hsock
  · exact hk.moves (.refl _) ⟨rfl, rfl⟩ ⟨rfl, rfl⟩ (fun _ hv => by cases hv)
  · rw [hk.standing.bound.sockfd_eq] at hsock
    have hlive := hk.standing.bound.mem_live hsock hready.1
    have hserved : ∀ u ∈ some v, u ∈ h.live := by
      rintro u hu
      obtain rfl := Option.some.inj hu
      exact hlive
    split
    · exact hk.moves (.refl _) ⟨rfl, rfl⟩ ⟨rfl, rfl⟩ hserved
    · exact hk.moves (.refl _) ⟨rfl, rfl⟩ ⟨rfl, rfl⟩ hserved

/-- **A connection is accepted**, on a slot that was free. -/
theorem counted_accepted (hk : Counted k h p) (hpc : p.pc = .accept)
    (hin : (accepted p a).pc.InLoop) :
    Counted k (note h p (.answer a) (accepted p a)) (accepted p a) := by
  obtain ⟨⟨hb, hpeer, -⟩, hcount⟩ := hk
  rcases hb.table.accept_cases (by decide) p.sockfd a.toHostAnswer with
    ⟨v, fl, hacc, hret, hleast, hlt, hrep⟩ | ⟨res, hres, hacc⟩
  · have hnote : note h p (.answer a) (accepted p a) = h.accept v a.ret := by
      simp only [note, hpc, hacc]
    obtain ⟨hwfd, hn, hsock, hq⟩ : (accepted p a).wfd =
          (wasioNotifyRecv (wasioNotifyRecv (bindSlot p.wfd v a.ret fl) v).2 p.sockfd).2 ∧
        (accepted p a).nclients = Uint32.succ p.nclients ∧ (accepted p a).sockfd = p.sockfd ∧
        (accepted p a).pc = .foreach := by
      rw [accepted, hacc]
      exact ⟨rfl, rfl, rfl, rfl⟩
    have hlive : v ∉ h.live := fun hmem => hleast.1 (Finset.mem_insert_of_mem hmem)
    have haccept : (h.accept v a.ret).live = insert v h.live := rfl
    have htable := hb.table.bind (d := a.ret) hret hleast.1 hlt hrep
    have hrecv := htable.quiet_notify v p.wfd.pollin
    have hnotify := (htable.quiet hrecv).quiet_notify p.sockfd p.wfd.pollin
    rw [hnote]
    refine ⟨⟨hb.bind hleast.1 ?_ hsock, fun u hu => ?_, fun u hu => ?_⟩, ?_⟩
    · rw [hwfd]
      exact (htable.quiet hrecv).quiet hnotify
    · have hfds : (accepted p a).wfd.fds = Function.update p.wfd.fds v a.ret := by
        rw [hwfd]
        rfl
      rw [hfds]
      rcases eq_or_ne u v with rfl | hne
      · simp [Record.accept]
      · have hu := Finset.mem_of_mem_insert_of_ne hu hne
        simpa [Record.accept, hne] using hpeer u hu
    · rw [hq] at hu
      cases hu
    · rw [haccept, Finset.card_insert_of_notMem hlive, hn]
      calc Uint32.succ p.nclients + k.refused
          ≡ p.nclients + 1 + k.refused [MOD 2 ^ 32] := (Uint32.succ_modEq _).add_right _
        _ = p.nclients + k.refused + 1 := Nat.add_right_comm _ _ _
        _ ≡ h.live.card + k.atOnce + 1 [MOD 2 ^ 32] := hcount.add_right _
        _ = h.live.card + 1 + k.atOnce := Nat.add_right_comm _ _ _
  · have haccept : accepted p a = { p with pc := .aborted } := by
      simp only [accepted, hacc]
    rw [haccept] at hin
    exact hin.elim

theorem counted_received (hk : Counted k h p) (hpc : p.pc = .recv v)
    (hin : (received v p a).pc.InLoop) :
    Counted k (note h p (.answer a) (received v p a)) (received v p a) := by
  have hlive : v ∈ h.live := hk.standing.served v (by rw [hpc]; rfl)
  have hnote : note h p (.answer a) (received v p a) = h.receive v (a.received BUFFER_SIZE) :=
    note_of_pc hpc
  have hserved : ∀ u ∈ some v, u ∈ h.live := by
    rintro u hu
    obtain rfl := Option.some.inj hu
    exact hlive
  rw [hnote]
  revert hin
  rw [received]
  split
  · dsimp only
    split_ifs
    · exact False.elim
    · exact fun _ => hk.moves (.refl _) ⟨rfl, rfl⟩ ⟨rfl, rfl⟩ hserved
  · exact False.elim

theorem counted_sent {nrecv : ℕ} (hk : Counted k h p) (hpc : p.pc = .send v nrecv) :
    Counted k (note h p (.answer a) (sent v nrecv p a)) (sent v nrecv p a) := by
  have hlive : v ∈ h.live := hk.standing.served v (by rw [hpc]; rfl)
  have hnote : note h p (.answer a) (sent v nrecv p a) =
      h.send v (p.bytesOf v (min a.ret.toNat nrecv)) := note_of_pc hpc
  have hquiet := hk.standing.bound.table.quiet_notify v p.wfd.pollout
  rw [hnote]
  unfold sent
  dsimp only
  split_ifs
  · exact hk.moves hquiet ⟨rfl, rfl⟩ ⟨rfl, rfl⟩ (fun _ hv => by cases hv)
  · exact hk.moves hquiet ⟨rfl, rfl⟩ ⟨rfl, rfl⟩ (fun _ hv => by cases hv)
  · refine hk.moves (.refl _) ⟨rfl, rfl⟩ ⟨rfl, rfl⟩ ?_
    rintro u hu
    obtain rfl := Option.some.inj hu
    exact hlive

theorem counted_resent (hk : Counted k h p) (hpc : p.pc = .resend v)
    (hin : (resent v p a).pc.InLoop) :
    Counted k (note h p (.answer a) (resent v p a)) (resent v p a) := by
  have hlive : v ∈ h.live := hk.standing.served v (by rw [hpc]; rfl)
  have hnote : note h p (.answer a) (resent v p a) =
      h.send v (p.bytesOf v (min a.ret.toNat BUFFER_SIZE)) := note_of_pc hpc
  rw [hnote]
  revert hin
  rw [resent]
  split_ifs
  · intro _
    refine hk.moves (.refl _) ⟨rfl, rfl⟩ ⟨rfl, rfl⟩ ?_
    rintro u hu
    obtain rfl := Option.some.inj hu
    exact hlive
  · exact False.elim

/-- What a closing leaves of a table that is right. -/
theorem Standing.closed (hs : Standing h p) (hv : v ∈ h.live) {fl : Freelist}
    (hrep : Represents MAX_CLIENTS ((insert 0 h.live).erase v) fl)
    (hwfd : q.wfd = unbindSlot p.wfd v fl) (hsock : q.sockfd = p.sockfd) (hq : q.pc = .foreach) :
    Standing (h.close v 0) q where
  bound := hs.bound.unbind hv hrep hwfd hsock
  peer_eq u hu := by
    obtain ⟨hne, hu⟩ := Finset.mem_erase.mp hu
    rw [hwfd, fds_unbindSlot_of_ne hne]
    exact hs.peer_eq u hu
  served u hu := by
    rw [hq] at hu
    cases hu

/-- **A connection is closed behind the first send**: it stays in the count. -/
theorem counted_closeSent (hk : Counted k h p) (hpc : p.pc = .closeSent v) :
    Counted (k.after (h, p) (.answer a) n) (note h p (.answer a) q)
      (closed v (fun p => { p with pc := .foreach }) p a) := by
  have hlive : v ∈ h.live := hk.standing.served v (by rw [hpc]; rfl)
  have hafter : k.after (h, p) (.answer a) n =
      if a.ret = 0 then { k with atOnce := k.atOnce + 1 } else k := after_of_pc hpc
  rw [hafter, note_close hpc (Or.inl rfl)]
  rcases hk.standing.bound.closed_cases (hk.standing.bound.lt hlive)
    (fun p => { p with pc := .foreach }) a with ⟨hret, hclosed⟩ | ⟨hret, fl, hrep, hclosed⟩
  · rw [if_neg hret, hclosed, Record.close, if_neg hret]
    exact hk.moves (.refl _) ⟨rfl, rfl⟩ ⟨rfl, rfl⟩ (fun _ hv => by cases hv)
  · rw [if_pos hret, hclosed, hret]
    refine ⟨hk.standing.closed hlive hrep rfl rfl rfl, ?_⟩
    have hcard : (h.close v 0).live.card + 1 = h.live.card := Finset.card_erase_add_one hlive
    dsimp only
    rw [← Nat.add_assoc, Nat.add_right_comm, hcard]
    exact hk.count

/-- **A connection is closed behind a later send**, or not: it drops out of the count. -/
theorem counted_closeResent (hk : Counted k h p) (hpc : p.pc = .closeResent v) :
    Counted (k.after (h, p) (.answer a) n) (note h p (.answer a) q)
      (closed v (fun p => { p.decrement with pc := .foreach }) p a) := by
  have hlive : v ∈ h.live := hk.standing.served v (by rw [hpc]; rfl)
  have hafter : k.after (h, p) (.answer a) n =
      if a.ret = 0 then k else { k with refused := k.refused + 1 } := after_of_pc hpc
  have hpred := (Uint32.pred_modEq p.nclients).add_right k.refused
  rw [hafter, note_close hpc (Or.inr rfl)]
  rcases hk.standing.bound.closed_cases (hk.standing.bound.lt hlive)
    (fun p => { p.decrement with pc := .foreach }) a with
    ⟨hret, hclosed⟩ | ⟨hret, fl, hrep, hclosed⟩
  · rw [if_neg hret, hclosed, Record.close, if_neg hret]
    obtain ⟨hs, -⟩ := hk.moves (q := { p with pc := .foreach }) (.refl _) ⟨rfl, rfl⟩ ⟨rfl, rfl⟩
      (fun _ hv => by cases hv)
    refine ⟨⟨⟨hs.bound.table, hs.bound.zero_notMem, hs.bound.sockfd_eq⟩, hs.peer_eq, hs.served⟩, ?_⟩
    rw [← Nat.add_assoc, Nat.add_right_comm]
    exact hpred.trans hk.count
  · rw [if_pos hret, hclosed, hret]
    refine ⟨hk.standing.closed hlive hrep rfl rfl rfl, ?_⟩
    have hcard : (h.close v 0).live.card + 1 = h.live.card := Finset.card_erase_add_one hlive
    refine Nat.ModEq.add_right_cancel' 1 ?_
    rw [Nat.add_right_comm, Nat.add_right_comm _ k.atOnce, hcard]
    exact hpred.trans hk.count

/-! ### The steps behind the loop -/

/-- What a closing comes to. -/
theorem closed_eq (v : ℕ) (next : Program → Program) (p : Program) (a : Answer) :
    (closed v next p a).pc = .aborted ∨ ∃ wfd, closed v next p a = next { p with wfd := wfd } := by
  rw [closed]
  split
  · exact Or.inr ⟨_, rfl⟩
  · exact Or.inl rfl

/-- **What happens behind the loop**: the slot `nclients` is closed as long as there is one, and
then the listener. -/
theorem Tr.behind {act : Act} (htr : Tr p act q) (hp : ¬p.pc.InLoop) :
    p.pc.Running ∧ (q.pc = .aborted ∨
      (p.pc = .quit ∧ 0 < p.nclients ∧ (∃ a, act = .answer a) ∧ q.pc = .quit ∧
        q.nclients = p.nclients - 1) ∨
      (p.pc = .quit ∧ p.nclients = 0 ∧ act = .tau ∧ q.pc = .finish) ∨
      (p.pc = .finish ∧ q.pc = .exited)) := by
  obtain ⟨hstep, -⟩ := htr
  cases act with
  | visit u block =>
    obtain ⟨⟨hpc, -⟩, -⟩ := Option.ite_none_right_eq_some.mp hstep
    rw [hpc] at hp
    exact absurd trivial hp
  | tau =>
    rw [step] at hstep
    split at hstep
    · next hpc =>
      rw [hpc] at hp
      exact absurd trivial hp
    · next hpc =>
      obtain ⟨hzero, heq⟩ := Option.ite_none_right_eq_some.mp hstep
      obtain rfl := Option.some.inj heq
      rw [hpc]
      exact ⟨trivial, Or.inr (Or.inr (Or.inl ⟨rfl, hzero, rfl, rfl⟩))⟩
    · cases hstep
  | answer a =>
    rw [step, answerStep] at hstep
    cases hpc : p.pc with
    | quit =>
      rw [hpc] at hstep
      obtain ⟨hpos, heq⟩ := Option.ite_none_right_eq_some.mp hstep
      obtain rfl := Option.some.inj heq
      refine ⟨trivial, ?_⟩
      rcases closed_eq p.nclients Program.decrement p a with habort | ⟨wfd, hclosed⟩
      · exact Or.inl habort
      · rw [hclosed]
        exact Or.inr (Or.inl ⟨rfl, hpos, ⟨a, rfl⟩, hpc, Uint32.pred_of_pos hpos⟩)
    | finish =>
      rw [hpc] at hstep
      obtain rfl := Option.some.inj hstep
      refine ⟨trivial, ?_⟩
      rcases closed_eq p.sockfd (fun p => { p with pc := .exited }) p a with
        habort | ⟨wfd, hclosed⟩
      · exact Or.inl habort
      · rw [hclosed]
        exact Or.inr (Or.inr (Or.inr ⟨rfl, rfl⟩))
    | exited | aborted =>
      rw [hpc] at hstep
      cases hstep
    | _ =>
      rw [hpc] at hp
      exact absurd trivial hp

/-- The loop is not entered again. -/
theorem Tr.inLoop {act : Act} (htr : Tr p act q) (hq : q.pc.InLoop) : p.pc.InLoop := by
  by_contra hp
  obtain ⟨-, habort | ⟨-, -, -, hquit, -⟩ | ⟨-, -, -, hfinish⟩ | ⟨-, hend⟩⟩ := htr.behind hp
  · rw [habort] at hq
    exact hq
  · rw [hquit] at hq
    exact hq
  · rw [hfinish] at hq
    exact hq
  · rw [hend] at hq
    exact hq

/-- **How the loop is left**: `wasio_poll` fails, or a client has asked to quit, or the program
is aborted. -/
theorem Tr.leaves {act : Act} (htr : Tr p act q) (hp : p.pc.InLoop) (hq : ¬q.pc.InLoop) :
    q.pc = .aborted ∨ ((p.pc = .poll ∧ q.pc = .finish) ∨ ∃ v, p.pc = .recv v ∧ q.pc = .quit) ∧
      q.nclients = p.nclients ∧ (note h p act q).live = h.live := by
  obtain ⟨hstep, -⟩ := htr
  cases act with
  | visit u block =>
    obtain ⟨-, heq⟩ := Option.ite_none_right_eq_some.mp hstep
    obtain rfl := Option.some.inj heq
    refine absurd ?_ hq
    rw [body]
    split_ifs
    · trivial
    · split <;> trivial
  | tau =>
    rw [step] at hstep
    split at hstep
    · obtain ⟨-, heq⟩ := Option.ite_none_right_eq_some.mp hstep
      obtain rfl := Option.some.inj heq
      exact absurd trivial hq
    · next hpc =>
      rw [hpc] at hp
      exact hp.elim
    · cases hstep
  | answer a =>
    rw [step, answerStep] at hstep
    cases hpc : p.pc with
    | poll =>
      rw [hpc] at hstep
      obtain rfl := Option.some.inj hstep
      have hnote : note h p (.answer a) (polled p a) = h := note_of_pc hpc
      rw [hnote]
      revert hq
      rw [polled]
      split
      · exact fun hq => absurd trivial hq
      · exact fun _ => Or.inr ⟨Or.inl ⟨rfl, rfl⟩, rfl, rfl⟩
    | accept =>
      rw [hpc] at hstep
      obtain rfl := Option.some.inj hstep
      revert hq
      rw [accepted]
      split
      · exact fun hq => absurd trivial hq
      · exact fun _ => Or.inl rfl
    | recv v =>
      rw [hpc] at hstep
      obtain rfl := Option.some.inj hstep
      have hnote : note h p (.answer a) (received v p a) = h.receive v (a.received BUFFER_SIZE) :=
        note_of_pc hpc
      rw [hnote]
      revert hq
      rw [received]
      split
      · dsimp only
        split_ifs
        · exact fun _ => Or.inr ⟨Or.inr ⟨v, rfl, rfl⟩, rfl, rfl⟩
        · exact fun hq => absurd trivial hq
      · exact fun _ => Or.inl rfl
    | send v nrecv =>
      rw [hpc] at hstep
      obtain rfl := Option.some.inj hstep
      refine absurd ?_ hq
      unfold sent
      dsimp only
      split_ifs <;> trivial
    | resend v =>
      rw [hpc] at hstep
      obtain rfl := Option.some.inj hstep
      revert hq
      rw [resent]
      split_ifs
      · exact fun hq => absurd trivial hq
      · exact fun _ => Or.inl rfl
    | closeSent v =>
      rw [hpc] at hstep
      obtain rfl := Option.some.inj hstep
      rcases closed_eq v (fun p => { p with pc := .foreach }) p a with habort | ⟨wfd, hclosed⟩
      · exact Or.inl habort
      · rw [hclosed] at hq
        exact absurd trivial hq
    | closeResent v =>
      rw [hpc] at hstep
      obtain rfl := Option.some.inj hstep
      rcases closed_eq v (fun p => { p.decrement with pc := .foreach }) p a with
        habort | ⟨wfd, hclosed⟩
      · exact Or.inl habort
      · rw [hclosed] at hq
        exact absurd trivial hq
    | foreach =>
      rw [hpc] at hstep
      cases hstep
    | quit | finish | exited | aborted =>
      rw [hpc] at hp
      exact hp.elim

/-! ### Every run -/

/-- **Every step of the loop keeps the count.** -/
theorem Counted.step {act : Act} (hk : Counted k h p) (htr : Tr p act q) (hp : p.pc.InLoop)
    (hq : q.pc.InLoop) : Counted (k.after (h, p) act n) (note h p act q) q := by
  obtain ⟨hstep, -⟩ := htr
  cases act with
  | visit v block =>
    rw [EchoServer.step] at hstep
    obtain ⟨⟨hpc, hready, -⟩, heq⟩ := Option.ite_none_right_eq_some.mp hstep
    obtain rfl := Option.some.inj heq
    have hnote : ∀ q, note h p (.visit v block) q = h := fun _ => note_of_pc hpc
    have hafter : k.after (h, p) (.visit v block) n = k := after_of_pc hpc
    rw [hnote, hafter]
    refine counted_body (hk.moves (.refl _) ⟨rfl, rfl⟩ ⟨rfl, rfl⟩ ?_) hready
    intro u hu
    rw [hpc] at hu
    cases hu
  | tau =>
    rw [EchoServer.step] at hstep
    split at hstep
    · next hpc =>
      obtain ⟨-, heq⟩ := Option.ite_none_right_eq_some.mp hstep
      obtain rfl := Option.some.inj heq
      have hnote : ∀ q, note h p .tau q = h := fun _ => note_of_pc hpc
      have hafter : k.after (h, p) .tau n = k := after_of_pc hpc
      rw [hnote, hafter]
      exact hk.moves (.refl _) ⟨rfl, rfl⟩ ⟨rfl, rfl⟩ (fun _ hv => by cases hv)
    · next hpc =>
      rw [hpc] at hp
      exact hp.elim
    · cases hstep
  | answer a =>
    rw [EchoServer.step, answerStep] at hstep
    cases hpc : p.pc with
    | poll =>
      rw [hpc] at hstep
      obtain rfl := Option.some.inj hstep
      have hnote : note h p (.answer a) (polled p a) = h := note_of_pc hpc
      have hafter : k.after (h, p) (.answer a) n = k := after_of_pc hpc
      rw [hnote, hafter]
      exact counted_polled hk
    | accept =>
      rw [hpc] at hstep
      obtain rfl := Option.some.inj hstep
      have hafter : k.after (h, p) (.answer a) n = k := after_of_pc hpc
      rw [hafter]
      exact counted_accepted hk hpc hq
    | recv v =>
      rw [hpc] at hstep
      obtain rfl := Option.some.inj hstep
      have hafter : k.after (h, p) (.answer a) n = k := after_of_pc hpc
      rw [hafter]
      exact counted_received hk hpc hq
    | send v nrecv =>
      rw [hpc] at hstep
      obtain rfl := Option.some.inj hstep
      have hafter : k.after (h, p) (.answer a) n = k := after_of_pc hpc
      rw [hafter]
      exact counted_sent hk hpc
    | resend v =>
      rw [hpc] at hstep
      obtain rfl := Option.some.inj hstep
      have hafter : k.after (h, p) (.answer a) n = k := after_of_pc hpc
      rw [hafter]
      exact counted_resent hk hpc hq
    | closeSent v =>
      rw [hpc] at hstep
      obtain rfl := Option.some.inj hstep
      exact counted_closeSent hk hpc
    | closeResent v =>
      rw [hpc] at hstep
      obtain rfl := Option.some.inj hstep
      exact counted_closeResent hk hpc
    | foreach =>
      rw [hpc] at hstep
      cases hstep
    | quit | finish | exited | aborted =>
      rw [hpc] at hp
      exact hp.elim

theorem pc_of_serverMain {host : HostAnswer} (hstart : serverMain host = some p) :
    p.pc = .poll := by
  rw [serverMain] at hstart
  split at hstart
  · split at hstart
    · obtain ⟨-, heq⟩ := Option.ite_none_right_eq_some.mp hstart
      obtain rfl := Option.some.inj heq
      rfl
    · cases hstart
  · cases hstart

theorem counted_init {host : HostAnswer} (hstart : serverMain host = some p) :
    Counted .init .init p := by
  have hinv := inv_init hstart
  have hpc := pc_of_serverMain hstart
  refine ⟨⟨hinv.bound (by rw [hpc]; trivial), hinv.echoes.peer_eq, fun v hv => ?_⟩, ?_⟩
  · rw [hpc] at hv
    cases hv
  · rw [hinv.echoes.nclients_eq]
    rfl

/-- In every run the count is kept as long as the server is in its loop. -/
theorem counted_of_steps {host : HostAnswer} (hstart : serverMain host = some p) {l : List Act}
    {c : Counting} (hrun : Lts.Steps TrCounting (.init, .init, p) l c) (hin : c.2.2.pc.InLoop) :
    Counted c.1 c.2.1 c.2.2 := by
  refine hrun.invariant (P := fun c => c.2.2.pc.InLoop → Counted c.1 c.2.1 c.2.2) ?_
    (fun _ => counted_init hstart) hin
  rintro ⟨k, h, p⟩ act ⟨k', h', q⟩ hk ⟨⟨htr, hnote⟩, hafter⟩ hq
  obtain rfl : h' = note h p act q := hnote
  obtain rfl : k' = k.after (h, p) act (note h p act q, q) := hafter
  have hp := htr.inLoop hq
  exact (hk hp).step (n := (note h p act q, q)) htr hp hq

/-- A program that has ended takes no step. -/
theorem not_trNoting {act : Act} (hn : ¬n.2.pc.Running) : ¬TrNoting n act m := by
  rintro ⟨htr, -⟩
  refine hn (htr.behind fun hin => hn ?_).1
  exact hin.running

/-- The closing of the listener leaves the connections open. -/
theorem live_of_finish {l : List Act} (hrun : Lts.Steps TrNoting n l m) (hn : n.2.pc = .finish)
    (hm : m.2.pc = .exited) : m.1.live = n.1.live := by
  cases hrun with
  | nil => rfl
  | @cons _ t _ act l hstep hrest =>
    have hnote : t.1 = n.1 := hstep.2.trans (note_of_pc hn)
    have hstuck : ¬t.2.pc.Running := by
      rcases (hstep.1.behind (by rw [hn]; exact id)).2 with habort | ⟨hpc, -⟩ | ⟨hpc, -⟩ | ⟨-, hend⟩
      · rw [habort]
        exact id
      · rw [hn] at hpc
        cases hpc
      · rw [hn] at hpc
        cases hpc
      · rw [hend]
        exact id
    rw [(hrest.eq_of_stuck fun _ _ => not_trNoting hstuck).2, hnote]

/-- **The closings from the slot `count` down to `1` spare a slot**, if `l` is what the host
answers to them: it is above `count`, or the host refuses to close it. -/
def Spared (count : ℕ) (l : List Act) (v : ℕ) : Prop :=
  count < v ∨ ∃ a, l[count - v]? = some (.answer a) ∧ a.ret ≠ 0

/-- **What stays open when a client has asked to quit.** -/
theorem mem_live_of_quit {l : List Act} (hrun : Lts.Steps TrNoting n l m) (hn : n.2.pc = .quit)
    (hm : m.2.pc = .exited) (hzero : 0 ∉ n.1.live) (v : ℕ) :
    v ∈ m.1.live ↔ v ∈ n.1.live ∧ Spared n.2.nclients l v := by
  induction hrun with
  | nil =>
    rw [hn] at hm
    cases hm
  | @cons n t m act l hstep hrest ih =>
    rcases (hstep.1.behind (by rw [hn]; exact id)).2 with habort |
      ⟨-, hpos, ⟨a, rfl⟩, hquit, hcount⟩ | ⟨-, hcount, rfl, hfinish⟩ | ⟨hpc, -⟩
    · -- an aborted program does not end
      have hstuck : ¬t.2.pc.Running := by
        rw [habort]
        exact id
      rw [(hrest.eq_of_stuck fun _ _ => not_trNoting hstuck).2, habort] at hm
      cases hm
    · -- the slot `nclients` is closed, or spared
      have hnote : t.1 = n.1.close n.2.nclients a.ret := hstep.2.trans (note_of_pc hn)
      have hlive : ∀ u, u ∈ t.1.live ↔ u ∈ n.1.live ∧ (u = n.2.nclients → a.ret ≠ 0) := by
        intro u
        rw [hnote, Record.close]
        split_ifs with hret
        · rw [Finset.mem_erase, and_comm]
          exact and_congr_right fun _ =>
            ⟨fun hne heq => absurd heq hne, fun himp heq => himp heq hret⟩
        · exact ⟨fun hu => ⟨hu, fun _ => hret⟩, And.left⟩
      rw [ih hquit hm (fun hmem => hzero ((hlive 0).mp hmem).1), hlive, and_assoc]
      refine and_congr_right fun hv => ?_
      have hne : v ≠ 0 := fun heq => hzero (heq ▸ hv)
      rw [Spared, Spared, hcount]
      rcases lt_trichotomy v n.2.nclients with hlt | rfl | hgt
      · have hindex : n.2.nclients - v = n.2.nclients - 1 - v + 1 := by omega
        rw [hindex, List.getElem?_cons_succ]
        constructor
        · rintro ⟨-, hlt' | hrefused⟩
          · omega
          · exact Or.inr hrefused
        · rintro (hlt' | hrefused)
          · omega
          · exact ⟨fun heq => absurd heq hlt.ne, Or.inr hrefused⟩
      · rw [Nat.sub_self, List.getElem?_cons_zero]
        constructor
        · rintro ⟨hret, -⟩
          exact Or.inr ⟨a, rfl, hret rfl⟩
        · rintro (hlt | ⟨b, hb, hret⟩)
          · exact absurd hlt (lt_irrefl _)
          · obtain ⟨⟩ := Option.some.inj hb
            exact ⟨fun _ => hret, Or.inl (Nat.sub_lt hpos one_pos)⟩
      · refine iff_of_true ⟨fun heq => absurd heq hgt.ne', Or.inl ?_⟩ (Or.inl hgt)
        omega
    · -- all are closed
      have hnote : t.1 = n.1 := by
        refine hstep.2.trans ?_
        rw [note_of_pc hn]
        rfl
      rw [live_of_finish hrest hfinish hm, hnote, Spared, hcount]
      refine ⟨fun hv => ⟨hv, Or.inl (Nat.pos_of_ne_zero ?_)⟩, And.left⟩
      rintro rfl
      exact hzero hv
    · rw [hn] at hpc
      cases hpc

/-! ### Runs that are computed -/

/-- A step, with what is counted. -/
def stepCounting (c : Counting) (act : Act) : Option Counting :=
  (stepIf (fun _ _ => True) c.2 act).map fun n => (c.1.after c.2 act n, n)

theorem steps_of_stepCounting {c d : Counting} {l : List Act}
    (hexec : d ∈ Lts.exec stepCounting c l) : Lts.Steps TrCounting c l d := by
  refine (Lts.exec_eq_some_iff.mp hexec).mono fun c act d hstep => ?_
  obtain ⟨n, hn, rfl⟩ := Option.map_eq_some_iff.mp hstep
  exact ⟨(trNoting_of_stepIf hn).1, rfl⟩

/-- The host has received a request to quit. -/
def quits : Act :=
  .answer { plainAnswer 4 with data := fun i => [113, 117, 105, 116].getD i 0 }

end EchoServer

open EchoServer

/-- **What the echo server counts**: in its loop, the slots that are bound are the listener's and
those of the connections accepted and not closed, with the descriptors the host has given; the
host is called for these only; and `nclients` is their number, with the connections that were
closed at once and without those that the host refused to close later. -/
theorem echoServer_counts (host : HostAnswer) (s₀ : Program) (h : serverMain host = some s₀)
    (l : List Act) (k : Tally) (n : Noting)
    (hrun : Lts.Steps TrCounting (.init, .init, s₀) l (k, n)) (hin : n.2.pc.InLoop) :
    (∀ v, (n.2.wfd.vfds v).fd ≠ -1 ↔ v = 0 ∨ v ∈ n.1.live) ∧
      (∀ v ∈ n.1.live, v < MAX_CLIENTS ∧ n.2.wfd.fds v = n.1.peer v) ∧
      (∀ v ∈ n.2.pc.served, v ∈ n.1.live) ∧
      n.2.nclients + k.refused ≡ n.1.live.card + k.atOnce [MOD 2 ^ 32] := by
  obtain ⟨⟨hb, hpeer, hserved⟩, hcount⟩ := counted_of_steps h hrun hin
  refine ⟨fun v => ?_, fun v hv => ⟨hb.lt hv, hpeer v hv⟩, hserved, hcount⟩
  rw [hb.table.sync, hb.table.bound_iff, Finset.mem_insert]

/-- Two wrongs: a connection is closed at once, and for the next one on its slot, the host
refuses. The count is right again. -/
theorem echoServer_counts_twoWrongs :
    ∃ s₀ l n, serverMain ⟨3, 0⟩ = some s₀ ∧
      Lts.Steps TrCounting (.init, .init, s₀) l (⟨1, 1⟩, n) ∧ n.1.live = {1} ∧
      n.2.nclients = 1 ∧ n.2.nclients + 1 ≡ n.1.live.card + 1 [MOD 2 ^ 32] := by
  obtain ⟨s₀, hstart, c, hc, htally, hlive, hcount, hpc⟩ : ∃ s₀ ∈ serverMain ⟨3, 0⟩,
      ∃ c ∈ Lts.exec stepCounting (.init, .init, s₀)
        (event 0 ++ [answers 5, .tau] ++ event 1 ++ [answers 2, answers 2, answers 0, .tau] ++
          event 0 ++ [answers 6, .tau] ++ event 1 ++ [answers 2, answers (-1)]),
        c.1 = ⟨1, 1⟩ ∧ c.2.1.live = {1} ∧ c.2.2.nclients = 1 ∧ c.2.2.pc = .foreach := by
    decide +kernel
  obtain ⟨k, n⟩ := c
  obtain rfl : k = ⟨1, 1⟩ := htally
  have hrun := steps_of_stepCounting hc
  exact ⟨s₀, _, n, hstart, hrun, hlive, hcount,
    (echoServer_counts ⟨3, 0⟩ s₀ hstart _ _ n hrun (by rw [hpc]; trivial)).2.2.2⟩

/-- **What the echo server leaves open**: a run that ends has left the loop because `wasio_poll`
has failed, and then all its connections are open, or because a client has asked to quit. Then
those are open that the closings from the slot `nclients` down to `1` spare. -/
theorem echoServer_leaves (host : HostAnswer) (s₀ : Program) (h : serverMain host = some s₀)
    (l : List Act) (m : Noting) (hrun : Lts.Steps TrNoting (.init, s₀) l m)
    (hend : m.2.pc = .exited) :
    ∃ l₁ n a t l₂, l = l₁ ++ a :: l₂ ∧ Lts.Steps TrNoting (.init, s₀) l₁ n ∧ TrNoting n a t ∧
      Lts.Steps TrNoting t l₂ m ∧
      (n.2.pc = .poll ∧ t.2.pc = .finish ∧ m.1.live = n.1.live ∨
        ∃ u ∈ n.1.live, n.2.pc = .recv u ∧ t.2.pc = .quit ∧ (n.2.nclients < MAX_CLIENTS →
          ∀ v, v ∈ m.1.live ↔ v ∈ n.1.live ∧ Spared n.2.nclients l₂ v)) := by
  have hpc : s₀.pc = .poll := pc_of_serverMain h
  obtain ⟨l₁, n, a, t, l₂, rfl, hrun₁, hin, hleave, hout, hrest⟩ :=
    hrun.exists_leaving (P := fun n => n.2.pc.InLoop) (by rw [hpc]; trivial)
      (by rw [hend]; exact id)
  refine ⟨l₁, n, a, t, l₂, rfl, hrun₁, hleave, hrest, ?_⟩
  obtain ⟨k, hcounting⟩ := hrun₁.observed Tally.after .init
  have hk := counted_of_steps h hcounting hin
  have hnote : t.1 = note n.1 n.2 a t.2 := hleave.2
  rcases hleave.1.leaves hin hout with habort | ⟨⟨hpoll, hfinish⟩ | ⟨u, hrecv, hquit⟩, hn, hlive⟩
  · have hstuck : ¬t.2.pc.Running := by
      rw [habort]
      exact id
    rw [(hrest.eq_of_stuck fun _ _ => not_trNoting hstuck).2, habort] at hend
    cases hend
  · refine Or.inl ⟨hpoll, hfinish, ?_⟩
    rw [live_of_finish hrest hfinish hend, hnote, hlive]
  · have hu : u ∈ n.1.live := hk.standing.served u (by rw [hrecv]; rfl)
    refine Or.inr ⟨u, hu, hrecv, hquit, fun _ v => ?_⟩
    have hzero : 0 ∉ t.1.live := by
      rw [hnote, hlive]
      exact hk.standing.bound.zero_notMem
    rw [mem_live_of_quit hrest hquit hend hzero, hnote, hlive, hn]

/-- **The client that asks to quit is left**: of two connections the first one is served and
closed, and the second one, on the slot `2`, asks to quit. The server closes the slot `1`. -/
theorem echoServer_leaves_second :
    ∃ s₀ l m, serverMain ⟨3, 0⟩ = some s₀ ∧ Lts.Steps TrNoting (.init, s₀) l m ∧
      m.2.pc = .exited ∧ m.1.live = {2} ∧ m.1.received 2 = [113, 117, 105, 116] ∧
      ∃ l₁ n a t l₂, l = l₁ ++ a :: l₂ ∧ Lts.Steps TrNoting (.init, s₀) l₁ n ∧ TrNoting n a t ∧
        Lts.Steps TrNoting t l₂ m ∧
        (n.2.pc = .poll ∧ t.2.pc = .finish ∧ m.1.live = n.1.live ∨
          ∃ u ∈ n.1.live, n.2.pc = .recv u ∧ t.2.pc = .quit ∧ (n.2.nclients < MAX_CLIENTS →
            ∀ v, v ∈ m.1.live ↔ v ∈ n.1.live ∧ Spared n.2.nclients l₂ v)) := by
  obtain ⟨s₀, hstart, m, hm, hend, hlive, hrecv⟩ : ∃ s₀ ∈ serverMain ⟨3, 0⟩,
      ∃ m ∈ Lts.exec (stepIf fun _ _ => True) (.init, s₀)
        (event 0 ++ [answers 5, .tau] ++ event 0 ++ [answers 6, .tau] ++ event 1 ++
          [answers 2, answers 0, .tau] ++ event 1 ++ [answers 2, answers 0, .tau] ++ event 2 ++
          [quits, answers (-1), .tau, answers 0]),
        m.2.pc = .exited ∧ m.1.live = {2} ∧ m.1.received 2 = [113, 117, 105, 116] := by
    decide +kernel
  have hrun := (steps_of_stepIf hm).of_guarded
  exact ⟨s₀, _, m, hstart, hrun, hend, hlive, hrecv,
    echoServer_leaves ⟨3, 0⟩ s₀ hstart _ m hrun hend⟩

end Waeio
