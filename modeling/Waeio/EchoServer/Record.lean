import Waeio.EchoServer.Basic
import Waeio.WasioHost.Table

/-!
# What passes on the connections of the echo server

`Waeio.EchoServer.Record` keeps, beside the state of the server, what a client of it could
tell: the connections it has accepted and not closed, by their slots, and the bytes it has
received and sent on each. `Waeio.EchoServer.Echoes` is what is claimed of them.

`Waeio.EchoServer.Inv` is the invariant, phase by phase. Its three parts have lemmas of
their own: a connection is accepted or closed (`Waeio.EchoServer.Bound.connect`,
`Waeio.EchoServer.Bound.disconnect`), a block is filled or freed
(`Waeio.EchoServer.Buffered.fill`, `Waeio.EchoServer.Buffered.free`), and bytes pass
(`Waeio.EchoServer.Echoes.receive`, `Waeio.EchoServer.Echoes.send`).
-/

namespace Waeio

namespace EchoServer

open Http (Answer contents)
open WasioHost (TableInv Quiet Ready bindSlot unbindSlot)
open Freelist (Represents)

/-! ### What a client could tell -/

/-- **The connections, and what has passed on them**, by the slot. -/
structure Record where
  /-- The slots of the connections that are accepted and not yet closed. -/
  live : Finset ℕ
  /-- The descriptor the host has given for the connection. -/
  peer : ℕ → ℤ
  /-- What was received on the connection. -/
  received : ℕ → List UInt8
  /-- What was sent on it. -/
  sent : ℕ → List UInt8

/-- A connection is accepted, on the slot `v`. -/
def Record.accept (h : Record) (v : ℕ) (d : ℤ) : Record where
  live := insert v h.live
  peer := Function.update h.peer v d
  received := Function.update h.received v []
  sent := Function.update h.sent v []

/-- Bytes are received. -/
def Record.receive (h : Record) (v : ℕ) (data : List UInt8) : Record :=
  { h with received := Function.update h.received v (h.received v ++ data) }

/-- Bytes are sent. -/
def Record.send (h : Record) (v : ℕ) (data : List UInt8) : Record :=
  { h with sent := Function.update h.sent v (h.sent v ++ data) }

/-- The host was asked to close the connection on the slot `v`, and has answered `ret`. -/
def Record.close (h : Record) (v : ℕ) (ret : ℤ) : Record :=
  if ret = 0 then { h with live := h.live.erase v } else h

/-- No connection. -/
def Record.init : Record := ⟨∅, fun _ => 0, fun _ => [], fun _ => []⟩

/-- The first `k` bytes of the block of a slot. -/
def Program.bytesOf (p : Program) (v k : ℕ) : List UInt8 :=
  match p.buffers v with
  | some block => contents block k
  | none => []

/-- **Taking note** of one more step. -/
def note (h : Record) (p : Program) (act : Act) (_ : Program) : Record :=
  match p.pc, act with
  | .accept, .answer a =>
    match (wasioAccept p.wfd p.sockfd a.toHostAnswer).1 with
    | ⟨_, .ok, some v, _⟩ => h.accept v a.ret
    | _ => h
  | .recv v, .answer a => h.receive v (a.received BUFFER_SIZE)
  | .send v nrecv, .answer a => h.send v (p.bytesOf v (min a.ret.toNat nrecv))
  | .resend v, .answer a => h.send v (p.bytesOf v (min a.ret.toNat BUFFER_SIZE))
  | .closeSent v, .answer a | .closeResent v, .answer a => h.close v a.ret
  | .quit, .answer a => h.close p.nclients a.ret
  | _, _ => h

/-- The server, with what has passed. -/
abbrev Noting := Record × Program

/-- **A step**, with what has passed beside the state. -/
def TrNoting : Noting → Act → Noting → Prop := Lts.Observed note Tr

/-! ### What is claimed -/

/-- **Each connection is sent what was received on it, and `nclients` counts the
connections**: what is sent is a prefix of what was received; a slot is bound to the
connection that was accepted on it. -/
structure Echoes (h : Record) (p : Program) : Prop where
  echo : ∀ v, h.sent v <+: h.received v
  peer_eq : ∀ v ∈ h.live, p.wfd.fds v = h.peer v
  nclients_eq : p.nclients = h.live.card

/-! ### The invariant -/

variable {h : Record} {p q : Program} {a : Answer} {v : ℕ}

/-- What is noted goes by where the server is. -/
theorem note_of_pc {act : Act} {pc : Pc} (hpc : p.pc = pc) :
    note h p act q = note h { p with pc := pc } act q := by
  rw [← hpc]

/-- The server runs. -/
def Pc.Running : Pc → Prop
  | .exited | .aborted => False
  | _ => True

/-- The server is in its loop. -/
def Pc.InLoop : Pc → Prop
  | .quit | .finish | .exited | .aborted => False
  | _ => True

/-- **The table has the listener and the connections.** -/
structure Bound (h : Record) (p : Program) : Prop where
  table : TableInv MAX_CLIENTS (insert 0 h.live) p.wfd
  zero_notMem : 0 ∉ h.live
  sockfd_eq : p.sockfd = 0

/-- **What the table `buffers` says of a slot is true.** -/
structure Buffered (h : Record) (p : Program) : Prop where
  /-- Nothing was received on a connection without a block, unless it is about to be
  closed. -/
  fresh : ∀ v ∈ h.live, p.buffers v = none → p.pc ≠ .closeResent v → h.received v = []
  /-- A block has what was received. -/
  held : ∀ v ∈ h.live, ∀ block ∈ p.buffers v,
    h.received v = contents block (h.received v).length
  /-- A slot without a connection has no block. -/
  closed : ∀ v ∉ h.live, p.buffers v = none

/-- What holds where the server is. -/
def At (h : Record) (p : Program) : Pc → Prop
  | .recv v => v ∈ h.live ∧ (∃ block, p.buffers v = some block) ∧ h.received v = []
  | .send v nrecv =>
    v ∈ h.live ∧ (∃ block, p.buffers v = some block) ∧ h.sent v = [] ∧
      (h.received v).length = nrecv
  | .resend v => v ∈ h.live ∧ ∃ block, p.buffers v = some block
  | .closeSent v => v ∈ h.live
  | .closeResent v => v ∈ h.live ∧ p.buffers v = none
  | _ => True

/-- **The invariant**, phase by phase. -/
structure Inv (h : Record) (p : Program) : Prop where
  echoes : Echoes h p
  bound : p.pc.Running → Bound h p
  buffered : p.pc.InLoop → Buffered h p
  place : At h p p.pc

theorem Echoes.congr (he : Echoes h p) (hfds : q.wfd.fds = p.wfd.fds)
    (hn : q.nclients = p.nclients) : Echoes h q where
  echo := he.echo
  peer_eq v hv := by
    rw [hfds]
    exact he.peer_eq v hv
  nclients_eq := hn.trans he.nclients_eq

theorem Bound.congr (hb : Bound h p) (hq : Quiet p.wfd q.wfd) (hsock : q.sockfd = p.sockfd) :
    Bound h q :=
  ⟨hb.table.quiet hq, hb.zero_notMem, hsock.trans hb.sockfd_eq⟩

theorem Buffered.congr (hbuf : Buffered h p) (hbuffers : q.buffers = p.buffers)
    (hpc : ∀ v, p.pc ≠ .closeResent v) : Buffered h q where
  fresh v hv hnone _ := hbuf.fresh v hv (hbuffers ▸ hnone) (hpc v)
  held v hv := by
    rw [hbuffers]
    exact hbuf.held v hv
  closed v hv := by
    rw [hbuffers]
    exact hbuf.closed v hv

/-- A slot is given a block that has what was received on it. -/
theorem Buffered.fill {h' : Record} {block : ℕ → UInt8} (hbuf : Buffered h p)
    (hpc : ∀ u, p.pc ≠ .closeResent u) (hv : v ∈ h.live)
    (hbuffers : q.buffers = Function.update p.buffers v (some block)) (hlive : h'.live = h.live)
    (hothers : ∀ u ≠ v, h'.received u = h.received u)
    (hdata : h'.received v = contents block (h'.received v).length) : Buffered h' q where
  fresh u hu hnone _ := by
    rw [hlive] at hu
    rw [hbuffers] at hnone
    rcases eq_or_ne u v with rfl | hne
    · rw [Function.update_self] at hnone
      exact absurd hnone nofun
    · rw [Function.update_of_ne hne] at hnone
      rw [hothers u hne]
      exact hbuf.fresh u hu hnone (hpc u)
  held u hu b hsome := by
    rw [hlive] at hu
    rw [hbuffers] at hsome
    rcases eq_or_ne u v with rfl | hne
    · rw [Function.update_self] at hsome
      obtain rfl := Option.some.inj hsome
      exact hdata
    · rw [Function.update_of_ne hne] at hsome
      rw [hothers u hne]
      exact hbuf.held u hu b hsome
  closed u hu := by
    rw [hlive] at hu
    have hne : u ≠ v := by
      rintro rfl
      exact hu hv
    rw [hbuffers, Function.update_of_ne hne]
    exact hbuf.closed u hu

/-- The block of a slot is freed, before the slot is closed. -/
theorem Buffered.free (hbuf : Buffered h p) (hpc : ∀ u, p.pc ≠ .closeResent u)
    (hbuffers : q.buffers = Function.update p.buffers v none) (hq : q.pc = .closeResent v) :
    Buffered h q where
  fresh u hu hnone hne := by
    rw [hq, ne_eq, Pc.closeResent.injEq] at hne
    rw [hbuffers, Function.update_of_ne (Ne.symm hne)] at hnone
    exact hbuf.fresh u hu hnone (hpc u)
  held u hu b hsome := by
    rw [hbuffers] at hsome
    rcases eq_or_ne u v with rfl | hne
    · rw [Function.update_self] at hsome
      exact absurd hsome nofun
    · rw [Function.update_of_ne hne] at hsome
      exact hbuf.held u hu b hsome
  closed u hu := by
    rw [hbuffers]
    rcases eq_or_ne u v with rfl | hne
    · rw [Function.update_self]
    · rw [Function.update_of_ne hne]
      exact hbuf.closed u hu

theorem Bound.lt (hb : Bound h p) (hv : v ∈ h.live) : v < MAX_CLIENTS :=
  hb.table.out_lt v (Finset.mem_insert_of_mem hv)

theorem Bound.ne_zero (hb : Bound h p) (hv : v ∈ h.live) : v ≠ 0 := by
  rintro rfl
  exact hb.zero_notMem hv

/-- There are fewer connections than slots. -/
theorem Bound.card_lt (hb : Bound h p) : h.live.card < MAX_CLIENTS := by
  have hle := hb.table.length_le
  rw [hb.table.length_eq, Finset.card_insert_of_notMem hb.zero_notMem] at hle
  exact hle

/-- A bound slot other than the listener's has a connection. -/
theorem Bound.mem_live (hb : Bound h p) (hne : v ≠ 0) (hfd : (p.wfd.vfds v).fd ≠ -1) :
    v ∈ h.live := by
  rw [hb.table.sync, hb.table.bound_iff] at hfd
  exact Finset.mem_of_mem_insert_of_ne hfd hne

/-! ### Closing -/

/-- The two ends of a `wasio_close`. -/
theorem Bound.closed_cases (hb : Bound h p) (hv : v < MAX_CLIENTS) (next : Program → Program)
    (a : Answer) :
    (a.ret ≠ 0 ∧ closed v next p a = next p) ∨
    (a.ret = 0 ∧ ∃ fl, Represents MAX_CLIENTS ((insert 0 h.live).erase v) fl ∧
      closed v next p a = next { p with wfd := unbindSlot p.wfd v fl }) := by
  rcases hb.table.close_cases hv a.toHostAnswer with ⟨hret, res, -, hclose⟩ |
    ⟨hret, fl, hrep, hclose⟩
  · exact Or.inl ⟨hret, by rw [closed, hclose]⟩
  · exact Or.inr ⟨hret, fl, hrep, by rw [closed, hclose]⟩

theorem fds_unbindSlot_of_ne {s : WasioPollfd} {fl : Freelist} {u : ℕ} (hne : u ≠ v) :
    (unbindSlot s v fl).fds u = s.fds u :=
  Function.update_of_ne hne _ _

/-- The slot of a connection is freed. -/
theorem Bound.unbind (hb : Bound h p) (hv : v ∈ h.live) {fl : Freelist}
    (hrep : Represents MAX_CLIENTS ((insert 0 h.live).erase v) fl)
    (hwfd : q.wfd = unbindSlot p.wfd v fl) (hsock : q.sockfd = p.sockfd) :
    Bound (h.close v 0) q := by
  have hlive : (h.close v 0).live = h.live.erase v := rfl
  refine ⟨?_, ?_, hsock.trans hb.sockfd_eq⟩
  · rw [hlive, hwfd, ← Finset.erase_insert_of_ne (hb.ne_zero hv).symm]
    exact hb.table.unbind (Finset.mem_insert_of_mem hv) hrep
  · rw [hlive]
    exact fun hmem => hb.zero_notMem (Finset.mem_of_mem_erase hmem)

/-- **A connection is closed, and `nclients` is decremented.** -/
theorem Bound.disconnect (hb : Bound h p) (he : Echoes h p) (hv : v ∈ h.live) {fl : Freelist}
    (hrep : Represents MAX_CLIENTS ((insert 0 h.live).erase v) fl)
    (hwfd : q.wfd = unbindSlot p.wfd v fl) (hn : q.nclients = Uint32.pred p.nclients)
    (hsock : q.sockfd = p.sockfd) : Bound (h.close v 0) q ∧ Echoes (h.close v 0) q := by
  have hlive : (h.close v 0).live = h.live.erase v := rfl
  have hpos : 0 < h.live.card := Finset.card_pos.mpr ⟨v, hv⟩
  refine ⟨hb.unbind hv hrep hwfd hsock, he.echo, fun u hu => ?_, ?_⟩
  · obtain ⟨hne, hu⟩ := Finset.mem_erase.mp hu
    rw [hwfd, fds_unbindSlot_of_ne hne]
    exact he.peer_eq u hu
  · rw [hn, he.nclients_eq, Uint32.pred_of_pos hpos, hlive, Finset.card_erase_of_mem hv]

/-- A connection without a block is closed. -/
theorem Buffered.disconnect (hbuf : Buffered h p) (hpc : p.pc = .closeResent v)
    (hnone : p.buffers v = none) (hbuffers : q.buffers = p.buffers) : Buffered (h.close v 0) q where
  fresh u hu hnone _ := by
    obtain ⟨hne, hu⟩ := Finset.mem_erase.mp hu
    refine hbuf.fresh u hu (hbuffers ▸ hnone) ?_
    rw [hpc, ne_eq, Pc.closeResent.injEq]
    exact hne.symm
  held u hu b hsome := hbuf.held u (Finset.mem_of_mem_erase hu) b (hbuffers ▸ hsome)
  closed u hu := by
    rw [hbuffers]
    by_cases hmem : u ∈ h.live
    · have heq : u = v := by
        by_contra hne
        exact hu (Finset.mem_erase.mpr ⟨hne, hmem⟩)
      rw [heq, hnone]
    · exact hbuf.closed u hmem

/-! ### Accepting -/

/-- A slot is bound to a new connection. -/
theorem Bound.bind {d : ℤ} (hb : Bound h p) (hv : v ∉ insert 0 h.live)
    (htable : TableInv MAX_CLIENTS (insert v (insert 0 h.live)) q.wfd)
    (hsock : q.sockfd = p.sockfd) : Bound (h.accept v d) q := by
  have haccept : (h.accept v d).live = insert v h.live := rfl
  refine ⟨?_, fun hmem => ?_, hsock.trans hb.sockfd_eq⟩
  · rw [haccept, Finset.insert_comm]
    exact htable
  · rcases Finset.mem_insert.mp hmem with rfl | hmem
    · exact hv (Finset.mem_insert_self _ _)
    · exact hb.zero_notMem hmem

/-- **A connection is accepted, and `nclients` is incremented.** -/
theorem Bound.connect {d : ℤ} (hb : Bound h p) (he : Echoes h p) (hv : v ∉ insert 0 h.live)
    (htable : TableInv MAX_CLIENTS (insert v (insert 0 h.live)) q.wfd)
    (hfds : q.wfd.fds = Function.update p.wfd.fds v d) (hn : q.nclients = Uint32.succ p.nclients)
    (hsock : q.sockfd = p.sockfd) : Bound (h.accept v d) q ∧ Echoes (h.accept v d) q := by
  have hlive : v ∉ h.live := fun hmem => hv (Finset.mem_insert_of_mem hmem)
  have haccept : (h.accept v d).live = insert v h.live := rfl
  refine ⟨hb.bind hv htable hsock, fun u => ?_, fun u hu => ?_, ?_⟩
  · rcases eq_or_ne u v with rfl | hne
    · simp [Record.accept]
    · simpa [Record.accept, hne] using he.echo u
  · rw [hfds]
    rcases eq_or_ne u v with rfl | hne
    · simp [Record.accept]
    · have hu := Finset.mem_of_mem_insert_of_ne hu hne
      simpa [Record.accept, hne] using he.peer_eq u hu
  · have hcard := hb.card_lt
    rw [MAX_CLIENTS] at hcard
    rw [haccept, Finset.card_insert_of_notMem hlive, hn, he.nclients_eq,
      Uint32.succ_of_lt (by omega)]

/-- A new connection has no block. -/
theorem Buffered.connect {d : ℤ} (hbuf : Buffered h p) (hpc : ∀ u, p.pc ≠ .closeResent u)
    (hlive : v ∉ h.live) (hbuffers : q.buffers = p.buffers) : Buffered (h.accept v d) q where
  fresh u hu hnone _ := by
    rw [hbuffers] at hnone
    rcases eq_or_ne u v with rfl | hne
    · simp [Record.accept]
    · have hu := Finset.mem_of_mem_insert_of_ne hu hne
      simpa [Record.accept, hne] using hbuf.fresh u hu hnone (hpc u)
  held u hu b hsome := by
    rw [hbuffers] at hsome
    rcases eq_or_ne u v with rfl | hne
    · rw [hbuf.closed u hlive] at hsome
      exact absurd hsome nofun
    · have hu := Finset.mem_of_mem_insert_of_ne hu hne
      simpa [Record.accept, hne] using hbuf.held u hu b hsome
  closed u hu := by
    rw [hbuffers]
    exact hbuf.closed u fun hmem => hu (Finset.mem_insert_of_mem hmem)

/-! ### Receiving and sending -/

/-- Bytes are received. -/
theorem Echoes.receive {data : List UInt8} (he : Echoes h p) (hfds : q.wfd.fds = p.wfd.fds)
    (hn : q.nclients = p.nclients) : Echoes (h.receive v data) q where
  echo u := by
    refine (he.echo u).trans ?_
    rcases eq_or_ne u v with rfl | hne
    · simp [Record.receive]
    · simp [Record.receive, hne]
  peer_eq := (he.congr hfds hn).peer_eq
  nclients_eq := (he.congr hfds hn).nclients_eq

/-- Bytes are sent that come next. -/
theorem Echoes.send {data : List UInt8} (he : Echoes h p) (hfds : q.wfd.fds = p.wfd.fds)
    (hn : q.nclients = p.nclients) (hdata : h.sent v ++ data <+: h.received v) :
    Echoes (h.send v data) q where
  echo u := by
    rcases eq_or_ne u v with rfl | hne
    · simpa [Record.send] using hdata
    · simpa [Record.send, hne] using he.echo u
  peer_eq := (he.congr hfds hn).peer_eq
  nclients_eq := (he.congr hfds hn).nclients_eq

end EchoServer

end Waeio
