import Waeio.FiberServer.Machine
import Waeio.FiberServer.Visit

/-!
# The table and the fibers stay in order

`Waeio.FiberServer.Inv` says of each point of the program what holds of the table
there: which of its entries are in order (`Waeio.FiberServer.EntryOk`), that no two of
these have one fiber, and how long the table is. An entry in order has the descriptor
its fiber was created for, in both arrays, and its fiber is alive.

During the sweep the entries that count are those below `length` and those still to be
visited (`Waeio.FiberServer.InSweep`): an entry taken away makes the table shorter at
once, and the entries at its end, which are in use, are then beyond its length. The
listener appends to the table only when it is the first to be visited, so none of the
entries is overwritten.

The descriptor a fiber was created for is a history of the answers of the host
(`Waeio.FiberServer.descriptors`).
-/

namespace Waeio

namespace FiberServer

open HostPoll
open Http (Call Answer Label Site Pc Frame Parser)

/-! ### Entries in order -/

/-- The descriptor a call of the host opens. -/
def newDescriptor : Label → Option ℤ
  | .call (.listen _ _) a | .call (.accept _) a => if 0 ≤ a.ret then some a.ret else none
  | _ => none

/-- One more step: the descriptors for which a fiber was created. -/
def addDescriptor (created : List ℤ) (a : Label) : List ℤ := created ++ (newDescriptor a).toList

/-- **The descriptors the fibers were created for**, the fiber `f` for the one at the
index `f - 1`. -/
def descriptors (l : List Label) : List ℤ := l.foldl addDescriptor []

/-- The fiber has neither returned nor failed, nor been freed. -/
def Alive (frame : Frame) : Prop := frame ≠ .finished ∧ frame ≠ .freed

/-- **The entry `k` is in order.** -/
structure EntryOk (created : List ℤ) (frames : ℕ → Frame) (k : ℕ) (e : Entry) : Prop where
  fd_eq : e.closure.fd = e.fd
  pos : 0 < e.closure.fiber
  created_eq : created[e.closure.fiber - 1]? = some e.fd
  alive : Alive (frames e.closure.fiber)
  listener : e.closure.fiber = listenerFiber → k = 0

/-- **The entries `D` that are no holes are in order**, and each has its own fiber. -/
structure Orderly (created : List ℤ) (frames : ℕ → Frame) (cell : ℕ → Entry) (D : ℕ → Prop) :
    Prop where
  ok : ∀ k, D k → (cell k).isHole = false → EntryOk created frames k (cell k)
  inj : ∀ j k, D j → D k → (cell j).isHole = false → (cell k).isHole = false →
    (cell j).closure.fiber = (cell k).closure.fiber → j = k

variable {created : List ℤ} {frames frames' : ℕ → Frame} {cell cell' : ℕ → Entry} {D D' : ℕ → Prop}
  {srv srv' : Server} {s t : Program} {i n f : ℕ} {site : Site} {a : Label}

/-- Fewer entries, and other fibers. -/
theorem Orderly.mono (h : Orderly created frames cell D)
    (hcell : ∀ k, D' k → (cell' k).isHole = false → D k ∧ cell' k = cell k)
    (hframes : ∀ k, D' k → (cell' k).isHole = false →
      Alive (frames (cell' k).closure.fiber) → Alive (frames' (cell' k).closure.fiber)) :
    Orderly created frames' cell' D' where
  ok k hk hhole := by
    obtain ⟨hD, heq⟩ := hcell k hk hhole
    have hok := h.ok k hD (heq ▸ hhole)
    rw [← heq] at hok
    exact ⟨hok.fd_eq, hok.pos, hok.created_eq, hframes k hk hhole hok.alive, hok.listener⟩
  inj j k hj hk hholej hholek hfiber := by
    obtain ⟨hDj, heqj⟩ := hcell j hj hholej
    obtain ⟨hDk, heqk⟩ := hcell k hk hholek
    rw [heqj] at hholej hfiber
    rw [heqk] at hholek hfiber
    exact h.inj j k hDj hDk hholej hholek hfiber

/-- Fewer entries. -/
theorem Orderly.of_imp (h : Orderly created frames cell D) (hD : ∀ k, D' k → D k) :
    Orderly created frames cell D' :=
  h.mono (fun k hk _ => ⟨hD k hk, rfl⟩) fun _ _ _ halive => halive

/-- A fiber that stays alive. -/
theorem Orderly.setAlive (h : Orderly created frames cell D) {frame : Frame}
    (hframe : Alive frame) :
    Orderly created (Function.update frames f frame) cell D := by
  refine h.mono (fun k hk _ => ⟨hk, rfl⟩) fun k _ _ halive => ?_
  rcases eq_or_ne (cell k).closure.fiber f with heq | hne
  · rwa [heq, Function.update_self]
  · rwa [Function.update_of_ne hne]

/-- The fiber of the entry `i` is done for, and the entry does not count any more. -/
theorem Orderly.without (h : Orderly created frames cell D) (hi : D i)
    (hhole : (cell i).isHole = false)
    (hframes : ∀ g ≠ (cell i).closure.fiber, frames' g = frames g) :
    Orderly created frames' cell (fun k => D k ∧ k ≠ i) := by
  refine h.mono (fun k hk _ => ⟨hk.1, rfl⟩) fun k hk hholek halive => ?_
  have hne : (cell k).closure.fiber ≠ (cell i).closure.fiber := fun heq =>
    hk.2 (h.inj k i hk.1 hi hholek hhole heq)
  rwa [hframes _ hne]

/-- More descriptors have been opened. -/
theorem Orderly.created_append (h : Orderly created frames cell D) (new : List ℤ) :
    Orderly (created ++ new) frames cell D where
  ok k hk hhole := by
    have hok := h.ok k hk hhole
    obtain ⟨hlt, -⟩ := List.getElem?_eq_some_iff.mp hok.created_eq
    refine ⟨hok.fd_eq, hok.pos, ?_, hok.alive, hok.listener⟩
    rw [List.getElem?_append_left hlt]
    exact hok.created_eq
  inj := h.inj

/-- The fiber of an entry in order was allocated. -/
theorem EntryOk.fiber_le {k : ℕ} {e : Entry} (h : EntryOk created frames k e) :
    e.closure.fiber ≤ created.length := by
  obtain ⟨hlt, -⟩ := List.getElem?_eq_some_iff.mp h.created_eq
  omega

/-- **A connection is appended**, with a new fiber. -/
theorem Orderly.append (h : Orderly created frames cell D) {n : ℕ} {fd : ℤ}
    (hn : created = [] → n = 0) (hframe : Alive (frames (created.length + 1))) :
    Orderly (created ++ [fd]) frames
      (Function.update cell n ⟨fd, ⟨created.length + 1, fd⟩⟩) fun k => D k ∨ k = n := by
  have hnew : EntryOk (created ++ [fd]) frames n ⟨fd, ⟨created.length + 1, fd⟩⟩ := by
    refine ⟨rfl, Nat.succ_pos _, by simp, hframe, fun hlisten => hn ?_⟩
    exact List.length_eq_zero_iff.mp (Nat.succ.inj hlisten)
  -- the other entries have fibers that were allocated before
  have hold : ∀ k, k ≠ n → (D k ∨ k = n) → (cell k).isHole = false →
      EntryOk (created ++ [fd]) frames k (cell k) ∧
        (cell k).closure.fiber ≠ created.length + 1 := by
    intro k hne hk hhole
    have hD := hk.resolve_right hne
    have hle := (h.ok k hD hhole).fiber_le
    exact ⟨(h.created_append [fd]).ok k hD hhole, by omega⟩
  constructor
  · intro k hk hhole
    rcases eq_or_ne k n with rfl | hne
    · rwa [Function.update_self]
    · rw [Function.update_of_ne hne] at hhole ⊢
      exact (hold k hne hk hhole).1
  · intro j k hj hk hholej hholek hfiber
    rcases eq_or_ne j n with rfl | hnej <;> rcases eq_or_ne k j with rfl | hnek
    · rfl
    · rw [Function.update_self, Function.update_of_ne hnek] at hfiber
      rw [Function.update_of_ne hnek] at hholek
      exact absurd hfiber.symm (hold k hnek hk hholek).2
    · rfl
    · rw [Function.update_of_ne hnej] at hfiber hholej
      rcases eq_or_ne k n with rfl | hnekn
      · rw [Function.update_self] at hfiber
        exact absurd hfiber (hold j hnej hj hholej).2
      · rw [Function.update_of_ne hnekn] at hfiber hholek
        exact h.inj j k (hj.resolve_right hnej) (hk.resolve_right hnekn) hholej hholek hfiber

/-- **The compaction keeps the entries in order**, and leaves no hole. -/
theorem Orderly.compacted (h : Orderly created frames srv.cell fun k => k < srv.wfd.length)
    (hlt : srv.wfd.length < 2 ^ 32) :
    Orderly created frames (compact srv).cell (fun k => k < (compact srv).wfd.length) ∧
      (∀ k < (compact srv).wfd.length, ((compact srv).cell k).isHole = false) ∧
      (compact srv).wfd.length ≤ srv.wfd.length := by
  have hrow : Compact.row (compact srv).cell (compact srv).wfd.length =
      (Compact.row srv.cell srv.wfd.length).filter fun e => !e.isHole := entries_compact hlt
  -- the entries left, by where they were
  have hmem : ∀ k < (compact srv).wfd.length, ∃ j, j < srv.wfd.length ∧
      (srv.cell j).isHole = false ∧ (compact srv).cell k = srv.cell j := by
    intro k hk
    obtain ⟨j, hj, hhole, heq⟩ := Compact.exists_of_row_eq_filter hrow hk
    exact ⟨j, hj, by simpa using hhole, heq⟩
  have hinj : ∀ j k, j < (compact srv).wfd.length → k < (compact srv).wfd.length →
      ((compact srv).cell j).closure.fiber = ((compact srv).cell k).closure.fiber → j = k := by
    intro j k hj hk heq
    have hold : ∀ j < srv.wfd.length, ∀ k < srv.wfd.length, (!(srv.cell j).isHole) = true →
        (!(srv.cell k).isHole) = true →
        (srv.cell j).closure.fiber = (srv.cell k).closure.fiber → j = k :=
      fun j hj k hk hholej hholek =>
        h.inj j k hj hk (by simpa using hholej) (by simpa using hholek)
    exact Compact.inj_of_row_eq_filter (fun e : Entry => e.closure.fiber) hrow hold hj hk heq
  refine ⟨⟨fun k hk _ => ?_, fun j k hj hk _ _ heq => hinj j k hj hk heq⟩, fun k hk => ?_,
    Compact.le_of_row_eq_filter hrow⟩
  · obtain ⟨j, hj, hhole, heq⟩ := hmem k hk
    have hok := h.ok j hj hhole
    rw [heq]
    refine ⟨hok.fd_eq, hok.pos, hok.created_eq, hok.alive, fun hlisten => ?_⟩
    -- the listener was the first entry, and no hole, so it is the first entry left
    obtain rfl := hok.listener hlisten
    obtain ⟨hpos, hfirst⟩ := Compact.head_of_row_eq_filter hrow hj (by rw [hhole]; rfl)
    refine hinj k 0 hk hpos ?_
    rw [heq, hfirst]
  · obtain ⟨j, -, hhole, heq⟩ := hmem k hk
    rwa [heq]

/-! ### The table at the points of the program -/

/-- The table, as far as the program looks at it. -/
structure Table where
  /-- The entries. -/
  cell : ℕ → Entry
  /-- `length` -/
  length : ℕ
  /-- `capacity` -/
  capacity : ℕ
  /-- The number of fibers allocated. -/
  allocated : ℕ
  /-- `compress_pollfd` -/
  compress : Bool

/-- The table of a server. -/
def Server.table (srv : Server) : Table :=
  ⟨srv.cell, srv.wfd.length, srv.wfd.capacity, srv.allocated, srv.compressPollfd⟩

/-- The sizes, and the number of fibers. -/
structure Sized (created : List ℤ) (T : Table) : Prop where
  capacity_eq : T.capacity = MAX_CONNECTIONS
  length_le : T.length ≤ MAX_CONNECTIONS
  created_eq : created.length = T.allocated

/-- **The entries from `i` on are in order**: at the head of the request loop all of
them, and in the clean-up those it has not come to. -/
structure InOrderFrom (created : List ℤ) (frames : ℕ → Frame) (T : Table) (i : ℕ) : Prop
    extends Sized created T where
  noHole : ∀ k, i ≤ k → k < T.length → (T.cell k).isHole = false
  order : Orderly created frames T.cell fun k => i ≤ k ∧ k < T.length

/-- **The sweep before the entry `i`**, of `n` entries in all; or in the middle of it,
when the fiber of the entry is gone. -/
structure InSweep (created : List ℤ) (frames : ℕ → Frame) (T : Table) (n i : ℕ) (gone : Prop) : Prop
    extends Sized created T where
  size_le : n ≤ MAX_CONNECTIONS
  le : n ≤ T.length + i
  ahead : ∀ k, i ≤ k → k < n → (T.cell k).isHole = false
  flag : T.compress = false → ∀ k < T.length, (T.cell k).isHole = false
  order : Orderly created frames T.cell fun k =>
    (k < T.length ∨ i ≤ k ∧ k < n) ∧ (gone → k ≠ i)

variable {T : Table} {gone : Prop} {k : ℕ}

theorem MAX_CONNECTIONS_lt : MAX_CONNECTIONS < 2 ^ 32 := by decide

/-- The entry an operation has come to. -/
theorem InSweep.entryOk (h : InSweep created frames T n i False) (hi : i < n) :
    EntryOk created frames i (T.cell i) :=
  h.order.ok i ⟨Or.inr ⟨le_rfl, hi⟩, False.elim⟩ (h.ahead i le_rfl hi)

theorem InOrderFrom.entryOk (h : InOrderFrom created frames T i) (hi : i < T.length) :
    EntryOk created frames i (T.cell i) :=
  h.order.ok i ⟨le_rfl, hi⟩ (h.noHole i le_rfl hi)

theorem InOrderFrom.succ (h : InOrderFrom created frames T i) :
    InOrderFrom created frames T (i + 1) where
  toSized := h.toSized
  noHole k hk := h.noHole k (by omega)
  order := h.order.of_imp fun k hk => ⟨by omega, hk.2⟩

/-- The clean-up takes an entry away. -/
theorem InOrderFrom.shorten (h : InOrderFrom created frames srv.table i) (hi : 0 < srv.wfd.length) :
    InOrderFrom created frames srv.shorten.table i := by
  have hpred : srv.shorten.wfd.length = srv.wfd.length - 1 := Uint32.pred_of_pos hi
  have hlt : ∀ k, k < srv.shorten.wfd.length → k < srv.wfd.length := fun k hk => by omega
  have hle := h.length_le
  refine ⟨⟨h.capacity_eq, ?_, h.created_eq⟩, fun k hik hk => h.noHole k hik (hlt k hk),
    h.order.of_imp fun k hk => ⟨hk.1, hlt k hk.2⟩⟩
  exact hpred.le.trans ((Nat.sub_le _ _).trans hle)

/-- The sweep starts. -/
theorem InOrderFrom.inSweep (h : InOrderFrom created frames T 0) :
    InSweep created frames T T.length 0 False where
  toSized := h.toSized
  size_le := h.length_le
  le := by omega
  ahead k _ hk := h.noHole k (Nat.zero_le k) hk
  flag _ k hk := h.noHole k (Nat.zero_le k) hk
  order := h.order.of_imp fun k hk => ⟨Nat.zero_le k, hk.1.elim id And.right⟩

/-- **The sweep goes on to the next entry**, whatever it has done with this one. -/
theorem InSweep.visited (h : InSweep created frames srv.table n i gone) (hi : i < n)
    (hv : Visited i gone srv srv') : InSweep created frames srv'.table n (i + 1) False := by
  have hle := h.le
  have hlen := h.length_le
  have hpos : gone → srv'.wfd.length + 1 = srv.wfd.length := by
    intro hgone
    have hlt : 0 < srv.wfd.length := by
      show 0 < srv.table.length
      omega
    rw [(hv.of_gone hgone).2.1, Uint32.pred_of_pos hlt]
    omega
  -- the table gets shorter only if the entry goes
  have hlength : n ≤ srv'.wfd.length + (i + 1) ∧ srv'.wfd.length ≤ srv.wfd.length := by
    change n ≤ srv.wfd.length + i at hle
    by_cases hgone : gone
    · have heq := hpos hgone
      omega
    · rw [(hv.of_stays hgone).1]
      omega
  refine ⟨⟨hv.framed.capacity_eq.trans h.capacity_eq, hlength.2.trans hlen, ?_⟩, h.size_le,
    hlength.1, fun k hk hkn => ?_, fun hflag k hk => ?_, ?_⟩
  · exact h.created_eq.trans hv.framed.allocated_eq.symm
  · show (srv'.cell k).isHole = false
    rw [hv.cell_of_ne k (by omega)]
    exact h.ahead k (by omega) hkn
  · show (srv'.cell k).isHole = false
    -- the flag is down, so the entry has not gone
    have hstays : ¬gone := fun hgone => by
      have htrue : srv'.table.compress = true := (hv.of_gone hgone).2.2
      rw [hflag] at htrue
      exact Bool.false_ne_true htrue
    obtain ⟨hlen', hsame, hcell⟩ := hv.of_stays hstays
    have hdown : srv.compressPollfd = false := hsame.symm.trans hflag
    have hold := h.flag hdown k (hk.trans_eq hlen')
    rcases eq_or_ne k i with rfl | hne
    · rwa [hcell hdown]
    · rwa [hv.cell_of_ne k hne]
  · refine h.order.mono (fun k hk hhole => ?_) fun _ _ _ halive => halive
    have hD : k < srv.wfd.length ∨ i ≤ k ∧ k < n := by
      rcases hk.1 with hk | hk
      · exact Or.inl (lt_of_lt_of_le hk hlength.2)
      · exact Or.inr ⟨by omega, hk.2⟩
    rcases eq_or_ne k i with rfl | hne
    · -- the entry itself, which is no hole, so it has stayed as it was
      have hstays : ¬gone := fun hgone => by
        have htrue := (hv.of_gone hgone).1
        rw [show (srv'.cell k).isHole = false from hhole] at htrue
        exact Bool.false_ne_true htrue
      refine ⟨⟨hD, fun hgone => absurd hgone hstays⟩, hv.cell_self.resolve_left ?_⟩
      rw [show (srv'.cell k).isHole = false from hhole]
      exact Bool.false_ne_true
    · exact ⟨⟨hD, fun _ => hne⟩, hv.cell_of_ne k hne⟩

/-- The fiber of the entry the sweep has come to is done for. -/
theorem InSweep.without (h : InSweep created frames T n i False) (hi : i < n)
    (hframes : ∀ g ≠ (T.cell i).closure.fiber, frames' g = frames g) :
    InSweep created frames' T n i True where
  toSized := h.toSized
  size_le := h.size_le
  le := h.le
  ahead := h.ahead
  flag := h.flag
  order := (h.order.without ⟨Or.inr ⟨le_rfl, hi⟩, False.elim⟩ (h.ahead i le_rfl hi) hframes).of_imp
    fun _ hk => ⟨⟨hk.1, False.elim⟩, hk.2 trivial⟩

/-- The same in the clean-up. -/
theorem InOrderFrom.without (h : InOrderFrom created frames T i) (hi : i < T.length)
    (hframes : ∀ g ≠ (T.cell i).closure.fiber, frames' g = frames g) :
    InOrderFrom created frames' T (i + 1) where
  toSized := h.toSized
  noHole := h.succ.noHole
  order := (h.order.without ⟨le_rfl, hi⟩ (h.noHole i le_rfl hi) hframes).of_imp
    fun _ hk => ⟨⟨by omega, hk.2⟩, by omega⟩

/-- **The end of the sweep**, without a compaction where the flag is down. -/
theorem InSweep.done (h : InSweep created frames srv.table n i False) :
    InOrderFrom created frames (if srv.compressPollfd then compact srv else srv).table 0 := by
  have hle : srv.wfd.length ≤ MAX_CONNECTIONS := h.length_le
  have horder : Orderly created frames srv.cell fun k => k < srv.wfd.length :=
    h.order.of_imp fun k hk => ⟨Or.inl hk, False.elim⟩
  split_ifs with hflag
  · obtain ⟨hkept, hhole, hlen⟩ := horder.compacted (lt_of_le_of_lt hle MAX_CONNECTIONS_lt)
    have hframed := framed_compact srv
    exact ⟨⟨hframed.capacity_eq.trans h.capacity_eq, hlen.trans hle,
      h.created_eq.trans hframed.allocated_eq.symm⟩, fun k _ hk => hhole k hk,
      hkept.of_imp fun _ hk => hk.2⟩
  · exact ⟨h.toSized, fun k _ hk => h.flag (Bool.eq_false_iff.mpr hflag) k hk,
      horder.of_imp fun _ hk => hk.2⟩

theorem cell_accepted (srv : Server) (fd : ℤ) :
    (srv.accepted fd).cell =
      Function.update srv.cell srv.wfd.length ⟨fd, ⟨srv.allocated + 1, fd⟩⟩ := by
  funext k
  rcases eq_or_ne k srv.wfd.length with rfl | hne
  · simp [Server.accepted, Server.cell, opened]
  · simp [Server.accepted, Server.cell, hne]

/-- **The listener appends a connection.** It is the first entry, so the entries still
to be visited are all within the length. -/
theorem InSweep.accepted (h : InSweep created frames srv.table n 0 False)
    (hlt : srv.wfd.length < MAX_CONNECTIONS) {fd : ℤ} (hfd : 0 ≤ fd) (hcreated : created ≠ []) :
    InSweep (created ++ [fd]) (Function.update frames (srv.allocated + 1) .fresh)
      (srv.accepted fd).table n 0 False := by
  have hle : n ≤ srv.wfd.length := h.le
  have hlen : created.length = srv.allocated := h.created_eq
  have hnew : (⟨fd, ⟨srv.allocated + 1, fd⟩⟩ : Entry).isHole = false :=
    decide_eq_false fun heq => by
      rw [show fd = -1 from heq] at hfd
      omega
  have hhole : ∀ k, (k ≠ srv.wfd.length → (srv.cell k).isHole = false) →
      ((srv.accepted fd).cell k).isHole = false := by
    intro k hk
    rw [cell_accepted]
    rcases eq_or_ne k srv.wfd.length with rfl | hne
    · rwa [Function.update_self]
    · rw [Function.update_of_ne hne]
      exact hk hne
  have halive : Alive Frame.fresh := ⟨nofun, nofun⟩
  have horder : Orderly (created ++ [fd]) _ _ _ :=
    (h.order.setAlive (f := srv.allocated + 1) halive).append (n := srv.wfd.length)
    (fun heq => absurd heq hcreated) (by rwa [hlen, Function.update_self])
  rw [hlen] at horder
  refine ⟨⟨h.capacity_eq, hlt, ?_⟩, h.size_le, hle.trans (Nat.le_succ _),
    fun k hk hkn => hhole k fun _ => h.ahead k hk hkn,
    fun hflag k hk => hhole k fun hne => h.flag hflag k ?_, ?_⟩
  · simp [hlen, Server.table, Server.accepted]
  · exact lt_of_le_of_ne (Nat.le_of_lt_succ hk) hne
  · show Orderly _ _ (srv.accepted fd).cell _
    rw [cell_accepted]
    refine horder.of_imp fun k hk => ?_
    rcases Nat.lt_or_ge k srv.wfd.length with hklt | hkge
    · exact Or.inl ⟨Or.inl hklt, False.elim⟩
    · rcases hk.1 with hk | hk
      · exact Or.inr (Nat.le_antisymm (Nat.le_of_lt_succ hk) hkge)
      · exact Or.inl ⟨Or.inr hk, False.elim⟩

end FiberServer

end Waeio
