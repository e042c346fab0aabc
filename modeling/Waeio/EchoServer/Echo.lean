import Waeio.EchoServer.Record

/-!
# What the echo server echoes

Four steps of the server may break what `Waeio.EchoServer.Echoes` says, and
`Waeio.EchoServer.Careful` says when they do not:

* a slot with a block is served by sending the first `buffer_size` bytes of the block,
  however many of them were received, and however many were sent already;
* where all is sent right after the receive, or the send is refused, the connection is
  closed, but `nclients` is not decremented, and the block stays in the table: the next
  connection on the slot is sent what this one has left there;
* where the connection is closed behind a later send, `nclients` is decremented whether the
  host has closed it or not;
* and so it is at the end, where the slots from `nclients` down to `1` are closed, whichever
  slots are bound.

So in a good run no connection is ever closed in the round that receives from it.
Every careful step keeps the invariant (`Waeio.EchoServer.Inv.step`), and every step that
keeps what is claimed is careful (`Waeio.EchoServer.Inv.careful`).
-/

namespace Waeio

namespace EchoServer

open Http (Answer contents)
open WasioHost (TableInv Quiet Ready bindSlot unbindSlot)
open Freelist (Represents)

variable {h : Record} {p q : Program} {a : Answer} {v : ℕ}

/-! ### The condition -/

/-- **What is left of the block begins like the block**, `k` bytes far: so many bytes were
received and not sent, and if some were sent, the next ones are those at the beginning. -/
def Repeats (h : Record) (p : Program) (v k : ℕ) : Prop :=
  (h.sent v).length + k ≤ (h.received v).length ∧
    ∀ block ∈ p.buffers v, ∀ i < k, block ((h.sent v).length + i) = block i

/-- **The condition on a step.** -/
def Careful (n : Noting) : Act → Prop
  | .answer a =>
    match n.2.pc with
    | .resend v => Repeats n.1 n.2 v (min a.ret.toNat BUFFER_SIZE)
    | .closeSent _ => a.ret ≠ 0
    | .closeResent _ => a.ret = 0
    | .quit => a.ret = 0 ∧ (n.2.wfd.vfds n.2.nclients).fd ≠ -1
    | _ => True
  | .visit _ _ | .tau => True

/-! ### The steps -/

theorem Pc.InLoop.running {pc : Pc} (hin : pc.InLoop) : pc.Running := by
  cases pc with
  | exited | aborted => exact hin.elim
  | _ => trivial

/-- What the invariant says where the server is. -/
theorem Inv.at_pc {pc : Pc} (hinv : Inv h p) (hpc : p.pc = pc) :
    (pc.Running → Bound h p) ∧ (pc.InLoop → Buffered h p) ∧ At h p pc := by
  subst hpc
  exact ⟨hinv.bound, hinv.buffered, hinv.place⟩

theorem Inv.in_loop {pc : Pc} (hinv : Inv h p) (hpc : p.pc = pc) (hin : pc.InLoop) :
    Bound h p ∧ Buffered h p ∧ At h p pc :=
  ⟨(hinv.at_pc hpc).1 hin.running, (hinv.at_pc hpc).2.1 hin, (hinv.at_pc hpc).2.2⟩

/-- The server goes on, and nothing has passed. -/
theorem Inv.moves {pc : Pc} (hinv : Inv h p) (hpc : p.pc = pc) (hrun : pc.Running)
    (hnot : ∀ v, pc ≠ .closeResent v) (hq : Quiet p.wfd q.wfd)
    (hsame : q.sockfd = p.sockfd ∧ q.nclients = p.nclients ∧ q.buffers = p.buffers)
    (hloop : q.pc.InLoop → pc.InLoop) (hat : At h q q.pc) : Inv h q := by
  obtain ⟨hb, hbuf, -⟩ := hinv.at_pc hpc
  exact ⟨hinv.echoes.congr hq.fds_eq hsame.2.1, fun _ => (hb hrun).congr hq hsame.1,
    fun hin => (hbuf (hloop hin)).congr hsame.2.2 (hpc ▸ hnot), hat⟩

/-- The server ends. -/
theorem inv_of_not_running (he : Echoes h q) (hrun : ¬q.pc.Running) : Inv h q where
  echoes := he
  bound hq := absurd hq hrun
  buffered hin := absurd hin.running hrun
  place := by
    cases hpc : q.pc with
    | exited | aborted => trivial
    | _ =>
      rw [hpc] at hrun
      exact absurd trivial hrun

theorem inv_polled (hinv : Inv h p) (hpc : p.pc = .poll) : Inv h (polled p a) := by
  have hq := WasioHost.quiet_wasioPoll p.wfd 1000 a.revents a.toHostAnswer
  rw [polled]
  split
  · next hpoll =>
    rw [hpoll] at hq
    exact hinv.moves hpc trivial nofun hq ⟨rfl, rfl, rfl⟩ (fun _ => trivial) trivial
  · next hpoll =>
    rw [hpoll] at hq
    exact hinv.moves hpc trivial nofun hq ⟨rfl, rfl, rfl⟩ (fun _ => trivial) trivial

/-- **The loop turns to a slot**: it is the listener's, a connection's on which nothing was
received, or a connection's with a block. -/
theorem inv_body {block : ℕ → UInt8} (hinv : Inv h p) (hpc : p.pc = .foreach)
    (hready : Ready p.wfd v) : Inv h (body v block p) := by
  obtain ⟨hb, hbuf, -⟩ := hinv.in_loop hpc trivial
  have hnot : ∀ u, p.pc ≠ .closeResent u := by
    rw [hpc]
    exact nofun
  rw [body]
  split_ifs with hsock
  · exact hinv.moves hpc trivial nofun (.refl _) ⟨rfl, rfl, rfl⟩ (fun _ => trivial) trivial
  · rw [hb.sockfd_eq] at hsock
    have hlive := hb.mem_live hsock hready.1
    split
    · next hnone =>
      have hfresh := hbuf.fresh v hlive hnone (hnot v)
      refine ⟨hinv.echoes.congr rfl rfl, fun _ => hb.congr (.refl _) rfl, fun _ => ?_, hlive,
        ⟨block, Function.update_self ..⟩, hfresh⟩
      exact hbuf.fill hnot hlive rfl rfl (fun _ _ => rfl) (by rw [hfresh]; rfl)
    · next b hsome =>
      exact hinv.moves hpc trivial nofun (.refl _) ⟨rfl, rfl, rfl⟩ (fun _ => trivial)
        ⟨hlive, b, hsome⟩

theorem inv_accepted (hinv : Inv h p) (hpc : p.pc = .accept) :
    Inv (note h p (.answer a) (accepted p a)) (accepted p a) := by
  obtain ⟨hb, hbuf, -⟩ := hinv.in_loop hpc trivial
  rcases hb.table.accept_cases (by decide) p.sockfd a.toHostAnswer with
    ⟨v, fl, hacc, hret, hleast, hlt, hrep⟩ | ⟨res, hres, hacc⟩
  · have hnote : note h p (.answer a) (accepted p a) = h.accept v a.ret := by
      simp only [note, hpc, hacc]
    obtain ⟨hwfd, hn, hsock, hbuffers, hq⟩ : (accepted p a).wfd =
          (wasioNotifyRecv (wasioNotifyRecv (bindSlot p.wfd v a.ret fl) v).2 p.sockfd).2 ∧
        (accepted p a).nclients = Uint32.succ p.nclients ∧ (accepted p a).sockfd = p.sockfd ∧
        (accepted p a).buffers = p.buffers ∧ (accepted p a).pc = .foreach := by
      rw [accepted, hacc]
      exact ⟨rfl, rfl, rfl, rfl, rfl⟩
    -- the two interests are registered in the table with the new slot
    have htable := hb.table.bind (d := a.ret) hret hleast.1 hlt hrep
    have hrecv := htable.quiet_notify v p.wfd.pollin
    have hnotify := (htable.quiet hrecv).quiet_notify p.sockfd p.wfd.pollin
    have htable' : TableInv MAX_CLIENTS (insert v (insert 0 h.live)) (accepted p a).wfd := by
      rw [hwfd]
      exact (htable.quiet hrecv).quiet hnotify
    rw [hnote]
    obtain ⟨hb', he'⟩ := hb.connect (d := a.ret) hinv.echoes hleast.1 htable' (by rw [hwfd]; rfl)
      hn hsock
    exact ⟨he', fun _ => hb', fun _ => hbuf.connect (by rw [hpc]; exact nofun)
      (fun hmem => hleast.1 (Finset.mem_insert_of_mem hmem)) hbuffers, by rw [hq]; trivial⟩
  · have hnote : note h p (.answer a) (accepted p a) = h := by
      simp only [note, hpc, hacc]
    have haccept : accepted p a = { p with pc := .aborted } := by
      simp only [accepted, hacc]
    rw [hnote, haccept]
    exact inv_of_not_running (hinv.echoes.congr rfl rfl) id

/-- **Bytes are received** on a connection that has received none. -/
theorem inv_received (hinv : Inv h p) (hpc : p.pc = .recv v) (hret : a.ret ≤ BUFFER_SIZE) :
    Inv (note h p (.answer a) (received v p a)) (received v p a) := by
  obtain ⟨hb, hbuf, hlive, ⟨b, hsome⟩, hnone⟩ := hinv.in_loop hpc trivial
  have hnote : note h p (.answer a) (received v p a) = h.receive v (a.received BUFFER_SIZE) :=
    note_of_pc hpc
  rw [hnote]
  by_cases hneg : a.ret < 0
  · have habort : received v p a = { p with pc := .aborted } := by
      simp only [received, wasioRecv, hsome, if_pos hneg]
      split
      · next hok => exact absurd (congrArg WasioHost.Reply.result hok) (translateError_ne_ok _)
      · rfl
    rw [habort]
    exact inv_of_not_running (hinv.echoes.receive rfl rfl) id
  · have hlen : (a.received BUFFER_SIZE).length = a.ret.toNat := by
      rw [Answer.received, Http.length_contents]
      omega
    have hdata : (h.receive v (a.received BUFFER_SIZE)).received v = a.received BUFFER_SIZE := by
      simp [Record.receive, hnone]
    have hempty : h.sent v = [] := List.prefix_nil.mp (hnone ▸ hinv.echoes.echo v)
    obtain ⟨block, hblock, hwfd, hn, hsock, hbuffers, hq⟩ : ∃ block,
        contents block (a.received BUFFER_SIZE).length = a.received BUFFER_SIZE ∧
        (received v p a).wfd = p.wfd ∧ (received v p a).nclients = p.nclients ∧
        (received v p a).sockfd = p.sockfd ∧
        (received v p a).buffers = Function.update p.buffers v (some block) ∧
        ((received v p a).pc = .quit ∨ (received v p a).pc = .send v a.ret.toNat) := by
      have hrec : received v p a =
          { p with
            buffers := Function.update p.buffers v
              (some (Http.write b 0 (a.received BUFFER_SIZE)))
            pc := if startsWithQuit (Http.write b 0 (a.received BUFFER_SIZE)) then .quit
              else .send v a.ret.toNat } := by
        simp only [received, wasioRecv, hsome, if_neg hneg]
      rw [hrec]
      exact ⟨_, Http.contents_write b _, rfl, rfl, rfl, rfl, ite_eq_or_eq _ _ _⟩
    have hb' : Bound h (received v p a) := hb.congr (by rw [hwfd]; exact .refl _) hsock
    refine ⟨hinv.echoes.receive (by rw [hwfd]) hn, fun _ => ⟨hb'.table, hb'.zero_notMem,
      hb'.sockfd_eq⟩, fun _ => hbuf.fill (by rw [hpc]; rintro _ ⟨⟩) hlive hbuffers rfl ?_ ?_, ?_⟩
    · intro u hne
      simp [Record.receive, hne]
    · rw [hdata, hblock]
    · rcases hq with hq | hq <;> rw [hq]
      · trivial
      · exact ⟨hlive, ⟨block, by rw [hbuffers, Function.update_self]⟩, hempty, by rw [hdata, hlen]⟩

/-- **The bytes of the receive are sent**, all or some of them. -/
theorem inv_sent {nrecv : ℕ} (hinv : Inv h p) (hpc : p.pc = .send v nrecv) :
    Inv (note h p (.answer a) (sent v nrecv p a)) (sent v nrecv p a) := by
  obtain ⟨hb, hbuf, hlive, ⟨b, hsome⟩, hempty, hlen⟩ := hinv.in_loop hpc trivial
  have hnote : note h p (.answer a) (sent v nrecv p a) =
      h.send v (p.bytesOf v (min a.ret.toNat nrecv)) := note_of_pc hpc
  have hdata : h.sent v ++ p.bytesOf v (min a.ret.toNat nrecv) <+: h.received v := by
    rw [hempty, List.nil_append, Program.bytesOf, hsome, hbuf.held v hlive b hsome, hlen]
    exact Http.contents_prefix_iff.mpr ⟨min_le_right _ _, fun _ _ => rfl⟩
  have hquiet : Quiet p.wfd (wasioNotifySend p.wfd v).2 := hb.table.quiet_notify v p.wfd.pollout
  rw [hnote]
  obtain ⟨hq, hn, hsock, hbuffers, hat⟩ : Quiet p.wfd (sent v nrecv p a).wfd ∧
      (sent v nrecv p a).nclients = p.nclients ∧ (sent v nrecv p a).sockfd = p.sockfd ∧
      (sent v nrecv p a).buffers = p.buffers ∧
      ((sent v nrecv p a).pc = .foreach ∨ (sent v nrecv p a).pc = .closeSent v) := by
    unfold sent
    dsimp only
    split_ifs
    · exact ⟨hquiet, rfl, rfl, rfl, Or.inl rfl⟩
    · exact ⟨hquiet, rfl, rfl, rfl, Or.inl rfl⟩
    · exact ⟨.refl _, rfl, rfl, rfl, Or.inr rfl⟩
  have hb' := hb.congr hq hsock
  have hbuf' := hbuf.congr hbuffers (by rw [hpc]; exact nofun)
  refine ⟨hinv.echoes.send hq.fds_eq hn hdata, fun _ => ⟨hb'.table, hb'.zero_notMem, hb'.sockfd_eq⟩,
    fun _ => ⟨hbuf'.fresh, hbuf'.held, hbuf'.closed⟩, ?_⟩
  rcases hat with hat | hat <;> rw [hat]
  · trivial
  · exact hlive

/-- What is sent on a slot with a block comes next exactly if the block repeats itself. -/
theorem repeats_iff {b : ℕ → UInt8} {k : ℕ} (he : Echoes h p) (hbuf : Buffered h p)
    (hlive : v ∈ h.live) (hsome : p.buffers v = some b) :
    h.sent v ++ p.bytesOf v k <+: h.received v ↔ Repeats h p v k := by
  have hheld := hbuf.held v hlive b hsome
  have hle := (he.echo v).length_le
  -- what was sent is at the beginning of the block
  have hsent : h.sent v = contents b (h.sent v).length := by
    have hfront : contents b (h.sent v).length <+: h.received v := by
      rw [hheld]
      exact Http.contents_prefix_iff.mpr ⟨hle, fun _ _ => rfl⟩
    refine List.IsPrefix.eq_of_length ?_ (Http.length_contents b _).symm
    exact List.prefix_of_prefix_length_le (he.echo v) hfront (Http.length_contents b _).ge
  have hnext : h.sent v ++ p.bytesOf v k = contents b (h.sent v).length ++ contents b k := by
    rw [Program.bytesOf, hsome]
    exact congrArg (· ++ contents b k) hsent
  rw [hnext, hheld, Http.contents_append_prefix_iff hle, Repeats]
  simp [hsome]

/-- **The block is sent from its beginning**, and freed. -/
theorem inv_resent (hinv : Inv h p) (hpc : p.pc = .resend v)
    (hrep : Repeats h p v (min a.ret.toNat BUFFER_SIZE)) :
    Inv (note h p (.answer a) (resent v p a)) (resent v p a) := by
  obtain ⟨hb, hbuf, hlive, b, hsome⟩ := hinv.in_loop hpc trivial
  have hnote : note h p (.answer a) (resent v p a) =
      h.send v (p.bytesOf v (min a.ret.toNat BUFFER_SIZE)) := note_of_pc hpc
  have hdata := (repeats_iff hinv.echoes hbuf hlive hsome).mpr hrep
  rw [hnote, resent]
  split_ifs
  · have hbuf' : Buffered h { p with
        buffers := Function.update p.buffers v none
        pc := .closeResent v } := hbuf.free (by rw [hpc]; exact nofun) rfl rfl
    exact ⟨hinv.echoes.send rfl rfl hdata, fun _ => ⟨hb.table, hb.zero_notMem, hb.sockfd_eq⟩,
      fun _ => ⟨hbuf'.fresh, hbuf'.held, hbuf'.closed⟩, hlive, Function.update_self ..⟩
  · exact inv_of_not_running (hinv.echoes.send rfl rfl hdata) id

theorem note_close {pc : Pc} (hpc : p.pc = pc) (hclose : pc = .closeSent v ∨ pc = .closeResent v) :
    note h p (.answer a) q = h.close v a.ret := by
  rcases hclose with rfl | rfl
  · exact note_of_pc hpc
  · exact note_of_pc hpc

/-- The host refuses to close the connection. -/
theorem inv_closeSent (hinv : Inv h p) (hpc : p.pc = .closeSent v) (hret : a.ret ≠ 0) :
    Inv (note h p (.answer a) q) (closed v (fun p => { p with pc := .foreach }) p a) := by
  obtain ⟨hb, -, hlive⟩ := hinv.in_loop hpc trivial
  have hnote : note h p (.answer a) q = h := by
    rw [note_close hpc (Or.inl rfl), Record.close, if_neg hret]
  rw [hnote]
  rcases hb.closed_cases (hb.lt hlive) (fun p => { p with pc := .foreach }) a with
    ⟨-, hclosed⟩ | ⟨hzero, -⟩
  · rw [hclosed]
    exact hinv.moves hpc trivial nofun (.refl _) ⟨rfl, rfl, rfl⟩ (fun _ => trivial) trivial
  · exact absurd hzero hret

/-- The host closes a connection whose block was sent. -/
theorem inv_closeResent (hinv : Inv h p) (hpc : p.pc = .closeResent v) (hret : a.ret = 0) :
    Inv (note h p (.answer a) q)
      (closed v (fun p => { p.decrement with pc := .foreach }) p a) := by
  obtain ⟨hb, hbuf, hlive, hnone⟩ := hinv.in_loop hpc trivial
  rw [note_close hpc (Or.inr rfl), hret]
  rcases hb.closed_cases (hb.lt hlive) (fun p => { p.decrement with pc := .foreach }) a with
    ⟨hne, -⟩ | ⟨-, fl, hrep, hclosed⟩
  · exact absurd hret hne
  · rw [hclosed]
    have hdis := hb.disconnect (q := { { p with wfd := unbindSlot p.wfd v fl }.decrement with
      pc := .foreach }) hinv.echoes hlive hrep rfl rfl rfl
    exact ⟨hdis.2, fun _ => hdis.1, fun _ => hbuf.disconnect hpc hnone rfl, trivial⟩

/-- The host closes the connection on the slot `nclients`. -/
theorem inv_quit (hinv : Inv h p) (hpc : p.pc = .quit) (hpos : 0 < p.nclients) (hret : a.ret = 0)
    (hfd : (p.wfd.vfds p.nclients).fd ≠ -1) :
    Inv (note h p (.answer a) q) (closed p.nclients Program.decrement p a) := by
  have hb := (hinv.at_pc hpc).1 trivial
  have hlive := hb.mem_live hpos.ne' hfd
  have hnote : note h p (.answer a) q = h.close p.nclients 0 := hret ▸ note_of_pc hpc
  rw [hnote]
  rcases hb.closed_cases (hb.lt hlive) Program.decrement a with
    ⟨hne, -⟩ | ⟨-, fl, hrep, hclosed⟩
  · exact absurd hret hne
  · rw [hclosed]
    have hdis := hb.disconnect
      (q := { p with wfd := unbindSlot p.wfd p.nclients fl }.decrement)
      hinv.echoes hlive hrep rfl rfl rfl
    refine ⟨hdis.2, fun _ => hdis.1, fun hin => ?_, ?_⟩
    · change p.pc.InLoop at hin
      rw [hpc] at hin
      exact hin.elim
    · change At _ _ p.pc
      rw [hpc]
      trivial

/-- The listener is closed. -/
theorem inv_finish (hinv : Inv h p) (hpc : p.pc = .finish) :
    Inv (note h p (.answer a) q) (closed p.sockfd (fun p => { p with pc := .exited }) p a) := by
  have hb := (hinv.at_pc hpc).1 trivial
  have hnote : note h p (.answer a) q = h := note_of_pc hpc
  rw [hnote]
  have hlt : p.sockfd < MAX_CLIENTS := by
    rw [hb.sockfd_eq]
    decide
  rcases hb.closed_cases hlt (fun p => { p with pc := .exited }) a with ⟨-, hclosed⟩ |
    ⟨-, fl, -, hclosed⟩ <;> rw [hclosed]
  · exact inv_of_not_running (hinv.echoes.congr rfl rfl) id
  · refine inv_of_not_running ⟨hinv.echoes.echo, fun u hu => ?_, hinv.echoes.nclients_eq⟩ id
    refine (fds_unbindSlot_of_ne ?_).trans (hinv.echoes.peer_eq u hu)
    rw [hb.sockfd_eq]
    exact hb.ne_zero hu

/-- **The steps without an answer of the host keep the invariant.** -/
theorem inv_tau (hinv : Inv h p) (hstep : step p .tau = some q) : Inv h q := by
  rw [step] at hstep
  split at hstep
  · next hpc =>
    obtain ⟨-, heq⟩ := Option.ite_none_right_eq_some.mp hstep
    obtain rfl := Option.some.inj heq
    exact hinv.moves hpc trivial nofun (.refl _) ⟨rfl, rfl, rfl⟩ (fun _ => trivial) trivial
  · next hpc =>
    obtain ⟨-, heq⟩ := Option.ite_none_right_eq_some.mp hstep
    obtain rfl := Option.some.inj heq
    exact hinv.moves hpc trivial nofun (.refl _) ⟨rfl, rfl, rfl⟩ False.elim trivial
  · exact absurd hstep nofun

/-- **Every careful step keeps the invariant.** -/
theorem Inv.step {act : Act} (hinv : Inv h p) (htr : Tr p act q) (hC : Careful (h, p) act) :
    Inv (note h p act q) q := by
  obtain ⟨hstep, hadm⟩ := htr
  cases act with
  | visit v block =>
    rw [EchoServer.step] at hstep
    obtain ⟨⟨hpc, hready, -⟩, heq⟩ := Option.ite_none_right_eq_some.mp hstep
    obtain rfl := Option.some.inj heq
    have hnote : ∀ q, note h p (.visit v block) q = h := fun _ => note_of_pc hpc
    rw [hnote]
    have hvisited : Inv h { p with visited := v :: p.visited } :=
      hinv.moves hpc trivial nofun (.refl _) ⟨rfl, rfl, rfl⟩ (fun _ => trivial)
        (by rw [hpc]; trivial)
    exact inv_body hvisited hpc hready
  | tau =>
    have hnote : note h p .tau q = h := by
      cases hpc : p.pc <;> exact note_of_pc hpc
    rw [hnote]
    exact inv_tau hinv hstep
  | answer a =>
    rw [EchoServer.step, answerStep] at hstep
    simp only [Careful] at hC
    cases hpc : p.pc with
    | foreach | exited | aborted =>
      rw [hpc] at hstep
      exact absurd hstep nofun
    | quit =>
      rw [hpc] at hstep hC
      obtain ⟨hpos, heq⟩ := Option.ite_none_right_eq_some.mp hstep
      obtain rfl := Option.some.inj heq
      exact inv_quit hinv hpc hpos hC.1 hC.2
    | poll =>
      rw [hpc] at hstep
      obtain rfl := Option.some.inj hstep
      have hnote : note h p (.answer a) (polled p a) = h := note_of_pc hpc
      rw [hnote]
      exact inv_polled hinv hpc
    | accept =>
      rw [hpc] at hstep
      obtain rfl := Option.some.inj hstep
      exact inv_accepted hinv hpc
    | recv v =>
      rw [hpc] at hstep
      obtain rfl := Option.some.inj hstep
      exact inv_received hinv hpc (hadm v hpc)
    | send v nrecv =>
      rw [hpc] at hstep
      obtain rfl := Option.some.inj hstep
      exact inv_sent hinv hpc
    | closeSent v =>
      rw [hpc] at hstep hC
      obtain rfl := Option.some.inj hstep
      exact inv_closeSent hinv hpc hC
    | resend v =>
      rw [hpc] at hstep hC
      obtain rfl := Option.some.inj hstep
      exact inv_resent hinv hpc hC
    | closeResent v =>
      rw [hpc] at hstep hC
      obtain rfl := Option.some.inj hstep
      exact inv_closeResent hinv hpc hC
    | finish =>
      rw [hpc] at hstep
      obtain rfl := Option.some.inj hstep
      exact inv_finish hinv hpc

/-! ### No other step will do -/

/-- Whatever the host answers, the server goes on. -/
theorem Bound.exists_closed (hb : Bound h p) (hv : v < MAX_CLIENTS) (next : Program → Program)
    (a : Answer) : ∃ wfd, closed v next p a = next { p with wfd := wfd } := by
  rcases hb.closed_cases hv next a with ⟨-, hclosed⟩ | ⟨-, fl, -, hclosed⟩
  · exact ⟨p.wfd, hclosed⟩
  · exact ⟨_, hclosed⟩

theorem live_close_of_ne {ret : ℤ} (hret : ret ≠ 0) : (h.close v ret).live = h.live := by
  rw [Record.close, if_neg hret]

theorem live_close_of_notMem {ret : ℤ} (hv : v ∉ h.live) : (h.close v ret).live = h.live := by
  rw [Record.close]
  split_ifs
  · exact Finset.erase_eq_of_notMem hv
  · rfl

/-- A server that goes on with one client less, and as many connections, has lost count. -/
theorem not_echoes_of_pred {h' : Record} (he : Echoes h p) (hpos : 0 < h.live.card)
    (hlive : h'.live = h.live) (hn : q.nclients = Uint32.pred p.nclients) : ¬Echoes h' q := by
  intro he'
  have hcount := he'.nclients_eq
  rw [hn, he.nclients_eq, Uint32.pred_of_pos hpos, hlive] at hcount
  omega

/-- **Every step that keeps what is claimed is careful.** -/
theorem Inv.careful {act : Act} (hinv : Inv h p) (htr : Tr p act q)
    (he : Echoes (note h p act q) q) : Careful (h, p) act := by
  obtain ⟨hstep, -⟩ := htr
  cases act with
  | visit | tau => trivial
  | answer a =>
    rw [EchoServer.step, answerStep] at hstep
    simp only [Careful]
    have hcount := hinv.echoes.nclients_eq
    cases hpc : p.pc with
    | resend v =>
      obtain ⟨-, hbuf, hlive, b, hsome⟩ := hinv.in_loop hpc trivial
      refine (repeats_iff hinv.echoes hbuf hlive hsome).mp ?_
      have hnote : note h p (.answer a) q =
          h.send v (p.bytesOf v (min a.ret.toNat BUFFER_SIZE)) := note_of_pc hpc
      rw [hnote] at he
      simpa [Record.send] using he.echo v
    | closeSent v =>
      rw [hpc] at hstep
      obtain rfl := Option.some.inj hstep
      obtain ⟨hb, -, hlive⟩ := hinv.in_loop hpc trivial
      obtain ⟨wfd, hclosed⟩ := hb.exists_closed (hb.lt hlive) (fun p => { p with pc := .foreach }) a
      -- the connection is closed, and `nclients` counts it
      intro hret
      have hpos : 0 < h.live.card := Finset.card_pos.mpr ⟨v, hlive⟩
      have hcard := he.nclients_eq
      rw [hclosed, note_close hpc (Or.inl rfl), Record.close, if_pos hret,
        Finset.card_erase_of_mem hlive] at hcard
      change p.nclients = _ at hcard
      omega
    | closeResent v =>
      rw [hpc] at hstep
      obtain rfl := Option.some.inj hstep
      obtain ⟨hb, -, hlive, -⟩ := hinv.in_loop hpc trivial
      obtain ⟨wfd, hclosed⟩ := hb.exists_closed (hb.lt hlive)
        (fun p => { p.decrement with pc := .foreach }) a
      by_contra hret
      rw [note_close hpc (Or.inr rfl)] at he
      refine not_echoes_of_pred hinv.echoes (Finset.card_pos.mpr ⟨v, hlive⟩)
        (live_close_of_ne hret) ?_ he
      rw [hclosed]
      rfl
    | quit =>
      rw [hpc] at hstep
      obtain ⟨hpos, heq⟩ := Option.ite_none_right_eq_some.mp hstep
      obtain rfl := Option.some.inj heq
      have hb := (hinv.at_pc hpc).1 trivial
      obtain ⟨wfd, hclosed⟩ := hb.exists_closed (hcount ▸ hb.card_lt) Program.decrement a
      have hnote : note h p (.answer a) (closed p.nclients Program.decrement p a) =
          h.close p.nclients a.ret := note_of_pc hpc
      rw [hnote] at he
      by_contra hnot
      refine not_echoes_of_pred hinv.echoes (hcount ▸ hpos) ?_ (by rw [hclosed]; rfl) he
      by_cases hret : a.ret = 0
      · refine live_close_of_notMem fun hmem => hnot ⟨hret, ?_⟩
        rw [hb.table.sync, hb.table.bound_iff]
        exact Finset.mem_insert_of_mem hmem
      · exact live_close_of_ne hret
    | _ => trivial

/-! ### The start -/

theorem inv_init {host : HostAnswer} (hstart : serverMain host = some p) : Inv .init p := by
  rw [serverMain] at hstart
  split at hstart
  case h_2 => exact absurd hstart nofun
  next wfd hinit =>
  have htable : TableInv MAX_CLIENTS ∅ wfd := WasioHost.tableInv_init (by decide) hinit
  split at hstart
  case h_2 => exact absurd hstart nofun
  next call sockfd count wfd' hlisten =>
  obtain ⟨rfl, heq⟩ := Option.ite_none_right_eq_some.mp hstart
  obtain rfl := Option.some.inj heq
  have htr : WasioHost.Tr wfd (.listen 8080 64 host, ⟨call, .ok, some 0, count⟩) wfd' :=
    ⟨⟨nofun, nofun, nofun⟩, congrArg some hlisten⟩
  rcases htable.step_cases (by decide) htr with ⟨-, -, hvfd, -⟩ |
    ⟨v, d, fl, hbind, hd, hleast, hlt, hrep, rfl, -⟩ | ⟨v, fl, -, -, -, -, hvfd⟩
  · exact absurd hvfd nofun
  · obtain rfl := Option.some.inj hbind.2.2
    have hbound := htable.bind hd hleast.1 hlt hrep
    refine ⟨⟨fun _ => List.prefix_rfl, nofun, rfl⟩, fun _ => ⟨?_, nofun, rfl⟩,
      fun _ => ⟨nofun, nofun, fun _ _ => rfl⟩, trivial⟩
    exact hbound.quiet (hbound.quiet_notify 0 _)
  · exact absurd hvfd nofun

/-! ### Runs that are computed -/

instance (h : Record) (p : Program) (v k : ℕ) : Decidable (Repeats h p v k) :=
  inferInstanceAs (Decidable (_ ∧ _))

/-- `Waeio.EchoServer.Careful` as a test. -/
def careful (n : Noting) : Act → Bool
  | .answer a =>
    match n.2.pc with
    | .resend v => Repeats n.1 n.2 v (min a.ret.toNat BUFFER_SIZE)
    | .closeSent _ => a.ret ≠ 0
    | .closeResent _ => a.ret = 0
    | .quit => a.ret = 0 ∧ (n.2.wfd.vfds n.2.nclients).fd ≠ -1
    | _ => true
  | .visit _ _ | .tau => true

theorem careful_iff {n : Noting} {act : Act} : careful n act = true ↔ Careful n act := by
  cases act with
  | visit | tau => exact iff_of_true rfl trivial
  | answer a =>
    simp only [careful, Careful]
    split
    · exact decide_eq_true_iff
    · exact decide_eq_true_iff
    · exact decide_eq_true_iff
    · exact decide_eq_true_iff
    · exact iff_of_true rfl trivial

instance (n : Noting) (act : Act) : Decidable (Careful n act) := decidable_of_iff _ careful_iff

/-- The host has answered with no more than a block takes. -/
def Act.Short : Act → Bool
  | .answer a => a.ret ≤ BUFFER_SIZE
  | .visit _ _ | .tau => true

theorem Act.Short.admissible {act : Act} (hact : act.Short = true) : act.Admissible p := by
  cases act with
  | visit | tau => trivial
  | answer a =>
    intro v _
    exact of_decide_eq_true hact

/-- A step that meets the condition `C`. -/
def stepIf (C : Noting → Act → Prop) [∀ n a, Decidable (C n a)] (n : Noting) (act : Act) :
    Option Noting :=
  if C n act ∧ act.Short then (step n.2 act).map fun q => (note n.1 n.2 act q, q) else none

theorem trNoting_of_stepIf {C : Noting → Act → Prop} [∀ n a, Decidable (C n a)] {n m : Noting}
    {act : Act} (hstep : stepIf C n act = some m) : TrNoting n act m ∧ C n act := by
  obtain ⟨⟨hC, hshort⟩, hmap⟩ := Option.ite_none_right_eq_some.mp hstep
  obtain ⟨q, hq, rfl⟩ := Option.map_eq_some_iff.mp hmap
  exact ⟨⟨⟨hq, Act.Short.admissible hshort⟩, rfl⟩, hC⟩

theorem steps_of_stepIf {C : Noting → Act → Prop} [∀ n a, Decidable (C n a)] {n m : Noting}
    {l : List Act} (hexec : m ∈ Lts.exec (stepIf C) n l) :
    Lts.Steps (Lts.Guarded TrNoting C) n l m :=
  (Lts.exec_eq_some_iff.mp hexec).mono fun _ _ _ => trNoting_of_stepIf

/-- What the host answers, with no events. -/
def plainAnswer (ret : ℤ) : Answer where
  ret := ret
  errno := 0
  revents := fun _ => 0
  data := fun i => [104, 105].getD i 0
  now := ⟨0, 1, 0, 70, 0, 0, 0⟩

/-- The server polls, the slot `v` has an event, and the loop turns to it. -/
def event (v : ℕ) : List Act :=
  [.answer { plainAnswer 1 with revents := fun i => if i = v then POLLIN else 0 },
    .visit v fun _ => 0]

/-- The host answers `ret`. -/
def answers (ret : ℤ) : Act := .answer (plainAnswer ret)

end EchoServer

open EchoServer

/-- **Exactly the careful runs of the echo server echo to each connection what was received on
it, and count the connections.** -/
theorem echoServer_echoes_iff (host : HostAnswer) (s₀ : Program) (h : serverMain host = some s₀)
    (l : List Act) (n : Noting) :
    Lts.Steps (Lts.Within TrNoting fun n => Echoes n.1 n.2) (.init, s₀) l n ↔
      Lts.Steps (Lts.Guarded TrNoting Careful) (.init, s₀) l n := by
  refine Lts.steps_upheld_iff_guarded (I := fun n : Noting => Inv n.1 n.2)
    (F := fun _ _ n => Echoes n.1 n.2) ?_ ?_ (inv_init h)
  · rintro ⟨h, p⟩ act ⟨h', q⟩ hinv ⟨htr, hnote⟩ he
    obtain rfl : h' = note h p act q := hnote
    exact hinv.step htr (hinv.careful htr he)
  · rintro ⟨h, p⟩ act ⟨h', q⟩ hinv ⟨htr, hnote⟩
    obtain rfl : h' = note h p act q := hnote
    exact ⟨hinv.careful htr, fun hC => (hinv.step htr hC).echoes⟩

/-- A client sends two bytes, the host takes none of them at first, and then both. -/
theorem echoServer_echoes_iff_later :
    ∃ s₀ n, serverMain ⟨3, 0⟩ = some s₀ ∧ n.1.received 1 = [104, 105] ∧
      n.1.sent 1 = [104, 105] ∧ n.2.nclients = 0 ∧
      Lts.Steps (Lts.Within TrNoting fun n => Echoes n.1 n.2) (.init, s₀)
        (event 0 ++ [answers 5, .tau] ++ event 1 ++ [answers 2, answers 0, .tau] ++ event 1 ++
          [answers 2, answers 0]) n := by
  obtain ⟨s₀, hstart, n, hn, hrecv, hsent, hcount⟩ : ∃ s₀ ∈ serverMain ⟨3, 0⟩,
      ∃ n ∈ Lts.exec (stepIf Careful) (.init, s₀)
        (event 0 ++ [answers 5, .tau] ++ event 1 ++ [answers 2, answers 0, .tau] ++ event 1 ++
          [answers 2, answers 0]), n.1.received 1 = [104, 105] ∧ n.1.sent 1 = [104, 105] ∧
        n.2.nclients = 0 := by
    decide +kernel
  exact ⟨s₀, n, hstart, hrecv, hsent, hcount,
    (echoServer_echoes_iff ⟨3, 0⟩ s₀ hstart _ n).mpr (steps_of_stepIf hn)⟩

/-- **A client is sent the bytes of another**: one sends two bytes, has them back at once, and
is gone; the next one, on the same slot, has sent nothing. The server counts two clients. -/
theorem not_echoes_stale :
    ∃ s₀ l n, serverMain ⟨3, 0⟩ = some s₀ ∧ Lts.Steps TrNoting (.init, s₀) l n ∧
      n.1.live = {1} ∧ n.1.peer 1 = 6 ∧ n.2.wfd.fds 1 = 6 ∧ n.1.received 1 = [] ∧
      n.1.sent 1 = [104, 105] ∧ n.2.nclients = 2 ∧ ¬Echoes n.1 n.2 := by
  obtain ⟨s₀, hstart, n, hn, hlive, hpeer, hfd, hrecv, hsent, hcount⟩ :
      ∃ s₀ ∈ serverMain ⟨3, 0⟩, ∃ n ∈ Lts.exec (stepIf fun _ _ => True) (.init, s₀)
        (event 0 ++ [answers 5, .tau] ++ event 1 ++ [answers 2, answers 2, answers 0, .tau] ++
          event 0 ++ [answers 6, .tau] ++ event 1 ++ [answers 2]),
        n.1.live = {1} ∧ n.1.peer 1 = 6 ∧ n.2.wfd.fds 1 = 6 ∧ n.1.received 1 = [] ∧
          n.1.sent 1 = [104, 105] ∧ n.2.nclients = 2 := by
    decide +kernel
  refine ⟨s₀, _, n, hstart, (steps_of_stepIf hn).of_guarded, hlive, hpeer, hfd, hrecv, hsent,
    hcount, fun he => ?_⟩
  have hfront := he.echo 1
  rw [hrecv, hsent] at hfront
  exact absurd (List.prefix_nil.mp hfront) nofun

end Waeio
