import Waeio.Bespoke.Bounds
import Waeio.Lib.Ledger

/-!
# The descriptors of the bespoke server

The host opens a descriptor in `host_listen` and in `host_accept`, and closes one in
`host_close`. The server keeps the descriptors it has to close in the array `fds`, marks an
entry with `-1` when it has closed its descriptor, lets the compaction take such entries out,
and closes what is left when it ends.

So the array is a ledger (`Waeio.Bespoke.book`), which every step keeps even: an accepted
connection is a new entry, a closed one an entry that has gone, and the compaction moves
descriptors and loses none. That the program names to the host only descriptors that are open
takes a little more: when it polls, no entry is marked, and in the sweep none is from the entry
on that the sweep has come to (`Waeio.Bespoke.Dense`).

The one thing that may be lost is the connection that is written behind a full array. The run
is over then.
-/

namespace Waeio

namespace Bespoke

open Http (Call Answer Parser)

variable {phr : Parser} {s t : Program} {a : Label} {i j k : ℕ}

/-! ### The ledger -/

/-- The descriptors a step opens. -/
def Label.opens : Label → List ℤ
  | .tau => []
  | .call c a => c.opens a

/-- The descriptors a step closes. -/
def Label.closes : Label → List ℤ
  | .tau => []
  | .call c _ => c.closes

/-- The descriptors a step names to the host. -/
def Label.uses : Label → List ℤ
  | .tau => []
  | .call c _ => c.uses

/-- The descriptors in the array. -/
def descriptors (t : Table) : List ℤ := Compact.row (fun k => (t.fds k).fd) t.nfds

/-- The descriptors from the entry `i` on that are not closed. -/
def openFrom (i : ℕ) (t : Table) : List ℤ := ((descriptors t).drop i).filter (0 ≤ ·)

/-- The entry from which on the descriptors are to be closed yet, if there are any. -/
def Pc.heldFrom : Pc → Option ℕ
  | .listen | .exited => none
  | .cleanUp i | .closeLast i => some i
  | .poll | .sweep _ | .accept _ | .recv _ | .send _ _ | .close _ | .aborted | .overrun => some 0

/-- **What is to be closed yet.** -/
def Program.held (s : Program) : List ℤ := s.pc.heldFrom.elim [] fun i => openFrom i s.table

/-- **The array as a ledger of descriptors.** -/
def book : Ledger.Book Program Label ℤ := ⟨Program.held, Label.opens, Label.closes⟩

/-! ### The array -/

@[simp] theorem length_descriptors (t : Table) : (descriptors t).length = t.nfds :=
  Compact.length_row _ _

theorem getElem?_descriptors {t : Table} (h : k < t.nfds) :
    (descriptors t)[k]? = some (t.fds k).fd := Compact.getElem?_row h

theorem mem_descriptors {t : Table} {d : ℤ} : d ∈ descriptors t ↔ ∃ k < t.nfds, (t.fds k).fd = d :=
  Compact.mem_row

/-- The array is read through its descriptors only. -/
theorem openFrom_congr {u v : Table} (hn : v.nfds = u.nfds)
    (hfd : ∀ k < u.nfds, (v.fds k).fd = (u.fds k).fd) (i : ℕ) : openFrom i v = openFrom i u := by
  rw [openFrom, openFrom, descriptors, descriptors, hn, Compact.row_congr hfd]

theorem openFrom_of_ge {t : Table} (h : t.nfds ≤ i) : openFrom i t = [] := by
  rw [openFrom, List.drop_eq_nil_of_le (by rwa [length_descriptors]), List.filter_nil]

theorem openFrom_eq_cons {t : Table} (hi : i < t.nfds) :
    openFrom i t =
      if 0 ≤ (t.fds i).fd then (t.fds i).fd :: openFrom (i + 1) t else openFrom (i + 1) t := by
  have hlt : i < (descriptors t).length := by rwa [length_descriptors]
  have hget : (descriptors t)[i] = (t.fds i).fd :=
    Option.some.inj ((List.getElem?_eq_getElem hlt).symm.trans (getElem?_descriptors hi))
  rw [openFrom, List.drop_eq_getElem_cons hlt, hget, List.filter_cons, openFrom]
  exact if_congr (by simp) rfl rfl

theorem openFrom_single {t : Table} (hn : t.nfds = 1) (hfd : 0 ≤ (t.fds 0).fd) :
    openFrom 0 t = [(t.fds 0).fd] := by
  rw [openFrom_eq_cons (hn.symm ▸ Nat.one_pos), if_pos hfd, openFrom_of_ge hn.le]

/-- A descriptor that is not negative is held. -/
theorem mem_openFrom_zero {t : Table} (hk : k < t.nfds) (hfd : 0 ≤ (t.fds k).fd) :
    (t.fds k).fd ∈ openFrom 0 t :=
  List.mem_filter.mpr ⟨mem_descriptors.mpr ⟨k, hk, rfl⟩, by simpa using hfd⟩

/-- **The compaction loses no descriptor** that is open. -/
theorem openFrom_compact {t : Table} (h : t.nfds < 2 ^ 32) :
    openFrom 0 (compact t) = openFrom 0 t := by
  have hrow : descriptors (compact t) = (descriptors t).filter fun fd => !isHole fd :=
    (thins_compact h).row_eq
  rw [openFrom, openFrom, List.drop_zero, List.drop_zero, hrow, List.filter_filter]
  refine List.filter_congr fun fd _ => ?_
  by_cases hfd : 0 ≤ fd
  · have hne : fd ≠ -1 := by omega
    simp [hfd, isHole, hne]
  · simp [hfd]

/-- A new entry. -/
theorem openFrom_append {t : Table} {fd : ℤ} (hfd : 0 ≤ fd) (ev : BitVec 16) :
    openFrom 0
        { fds := Function.update t.fds t.nfds { t.fds t.nfds with fd := fd, events := ev }
          nfds := t.nfds + 1 } = openFrom 0 t ++ [fd] := by
  have hrow : Compact.row (fun k => ((Function.update t.fds t.nfds
      { t.fds t.nfds with fd := fd, events := ev }) k).fd) t.nfds = descriptors t :=
    Compact.row_congr fun k hk => by rw [Function.update_of_ne (Nat.ne_of_lt hk)]
  have hlast : ((Function.update t.fds t.nfds { t.fds t.nfds with fd := fd, events := ev })
      t.nfds).fd = fd := by rw [Function.update_self]
  rw [openFrom, descriptors, Compact.row_succ, hrow, hlast, List.drop_zero, List.filter_append,
    List.filter_cons_of_pos (by simpa using hfd), List.filter_nil]
  rfl

/-- An entry that is marked as closed. -/
theorem openFrom_mark {t : Table} (hk : k < t.nfds) (hfd : 0 ≤ (t.fds k).fd) :
    (openFrom 0 { t with fds := Function.update t.fds k { t.fds k with fd := -1 } } ++
      [(t.fds k).fd]).Perm (openFrom 0 t) := by
  have hcells : (fun m => ((Function.update t.fds k { t.fds k with fd := -1 }) m).fd) =
      Function.update (fun m => (t.fds m).fd) k (-1) := by
    funext m
    rcases eq_or_ne m k with rfl | hne
    · rw [Function.update_self, Function.update_self]
    · rw [Function.update_of_ne hne, Function.update_of_ne hne]
  have hperm := (Compact.row_update_perm (a := fun m => (t.fds m).fd) hk (-1)).filter (0 ≤ ·)
  rw [List.filter_append, List.filter_append, List.filter_cons_of_pos (by simpa using hfd),
    List.filter_cons_of_neg (by decide), List.filter_nil, List.append_nil] at hperm
  rwa [openFrom, descriptors, hcells, List.drop_zero]

/-! ### Where entries are marked -/

/-- The entry from which on no entry is marked. -/
def Pc.ahead : Pc → Option ℕ
  | .poll => some 0
  | .sweep i | .accept i | .recv i | .send i _ | .close i => some i
  | .listen | .cleanUp _ | .closeLast _ | .exited | .aborted | .overrun => none

/-- **Where the array has marked entries**: before the entry the sweep has come to, and only
if it is to be compacted. -/
structure Dense (s : Program) : Prop where
  floor : ∀ k < s.table.nfds, -1 ≤ (s.table.fds k).fd
  ahead : ∀ i, s.pc.ahead = some i → ∀ k, i ≤ k → k < s.table.nfds → 0 ≤ (s.table.fds k).fd
  compress : s.compressArray = false → ∀ k < s.table.nfds, 0 ≤ (s.table.fds k).fd
  last : ∀ i, s.pc = .closeLast i → i < s.table.nfds ∧ 0 ≤ (s.table.fds i).fd

theorem dense_start (reqbuf resbuf : ℕ → UInt8) : Dense (.start reqbuf resbuf) :=
  ⟨fun _ _ => Int.negSucc_le_zero 0, fun _ h => (by cases h), fun _ _ _ => le_rfl,
    fun _ h => (by cases h)⟩

/-- **The program goes on**, within the sweep or out of it, and leaves the descriptors alone. -/
structure Moves (s t : Program) : Prop where
  nfds_eq : t.table.nfds = s.table.nfds
  fd_eq : ∀ k, (t.table.fds k).fd = (s.table.fds k).fd
  compress_eq : t.compressArray = s.compressArray
  heldFrom_eq : t.pc.heldFrom = s.pc.heldFrom
  ahead : ∀ j, t.pc.ahead = some j → ∃ i, s.pc.ahead = some i ∧ i ≤ j
  last : ∀ i, t.pc ≠ .closeLast i

theorem Moves.held_eq (h : Moves s t) : t.held = s.held := by
  have hopen : (fun i => openFrom i t.table) = fun i => openFrom i s.table :=
    funext fun i => openFrom_congr h.nfds_eq (fun k _ => h.fd_eq k) i
  rw [Program.held, Program.held, h.heldFrom_eq, hopen]

theorem Moves.dense (h : Moves s t) (hs : Dense s) : Dense t where
  floor k hk := by
    rw [h.fd_eq]
    exact hs.floor k (h.nfds_eq ▸ hk)
  ahead j hj k hk hlt := by
    rw [h.fd_eq]
    obtain ⟨i, hi, hij⟩ := h.ahead j hj
    exact hs.ahead i hi k (hij.trans hk) (h.nfds_eq ▸ hlt)
  compress hc k hk := by
    rw [h.fd_eq]
    exact hs.compress (h.compress_eq ▸ hc) k (h.nfds_eq ▸ hk)
  last i hi := absurd hi (h.last i)

/-! ### The steps without a call -/

/-- **The end of the sweep**: no entry is marked any more, and nothing is lost. -/
theorem sweepEnd_dense (hs : Dense s) (hlt : s.table.nfds < 2 ^ 32) :
    Dense (sweepEnd s) ∧ (sweepEnd s).held = openFrom 0 s.table := by
  have hloop : ∀ u : Program, (∀ k < u.table.nfds, 0 ≤ (u.table.fds k).fd) →
      Dense (loopEnd u) ∧ (loopEnd u).held = openFrom 0 u.table := by
    intro u hu
    have hfloor : ∀ k < u.table.nfds, -1 ≤ (u.table.fds k).fd := fun k hk => by
      have := hu k hk
      omega
    rw [loopEnd]
    split_ifs
    · exact ⟨⟨hfloor, fun _ h => (by cases h), fun _ => hu, fun _ h => (by cases h)⟩, rfl⟩
    · exact ⟨⟨hfloor, fun _ _ k _ hk => hu k hk, fun _ => hu, fun _ h => (by cases h)⟩, rfl⟩
  rw [sweepEnd]
  split_ifs with hc
  · rw [← openFrom_compact hlt]
    refine hloop _ fun k hk => ?_
    -- what the compaction leaves was there, and was no hole
    obtain ⟨j, hj, hhole, heq⟩ := Compact.exists_of_row_eq_filter (thins_compact hlt).row_eq hk
    have hne : (s.table.fds j).fd ≠ -1 := fun he => by simp [isHole, slots, he] at hhole
    have hfloor := hs.floor j hj
    have heq : ((compact s.table).fds k).fd = (s.table.fds j).fd := heq
    dsimp only
    omega
  · exact hloop s (hs.compress (by simpa using hc))

theorem tauStep_even (hs : Dense s) (hlt : s.table.nfds < 2 ^ 32) (hstep : tauStep s = some t) :
    Dense t ∧ t.held = s.held := by
  have hmoves : Moves s t → Dense t ∧ t.held = s.held := fun h => ⟨h.dense hs, h.held_eq⟩
  rw [tauStep] at hstep
  split at hstep
  · rename_i i hpc
    have hheld : s.held = openFrom 0 s.table := by rw [Program.held, hpc]; rfl
    dsimp only at hstep
    split_ifs at hstep with hlt' hzero hin hlisten <;> obtain rfl := Option.some.inj hstep
    · refine hmoves ⟨rfl, fun _ => rfl, rfl, by rw [hpc]; rfl, fun j hj => ?_,
        fun _ h => (by cases h)⟩
      obtain rfl := Option.some.inj hj
      exact ⟨i, by rw [hpc]; rfl, Nat.le_succ i⟩
    · rw [hheld]
      exact sweepEnd_dense (s := { s with endServer := true })
        ⟨hs.floor, hs.ahead, hs.compress, hs.last⟩ hlt
    · refine hmoves ⟨rfl, fun _ => rfl, rfl, by rw [hpc]; rfl,
        fun j hj => ⟨i, by rw [hpc]; rfl, ?_⟩, fun _ h => (by cases h)⟩
      exact (Option.some.inj hj).le
    · refine hmoves ⟨rfl, fun _ => rfl, rfl, by rw [hpc]; rfl,
        fun j hj => ⟨i, by rw [hpc]; rfl, ?_⟩, fun _ h => (by cases h)⟩
      exact (Option.some.inj hj).le
    · rw [hheld]
      exact sweepEnd_dense hs hlt
  · rename_i i hpc
    have hheld : s.held = openFrom i s.table := by rw [Program.held, hpc]; rfl
    rw [hheld]
    split_ifs at hstep with hi hfd <;> obtain rfl := Option.some.inj hstep
    · refine ⟨⟨hs.floor, fun _ h => (by cases h), hs.compress, fun k hk => ?_⟩, rfl⟩
      obtain rfl := Pc.closeLast.inj hk
      exact ⟨hi, hfd⟩
    · refine ⟨⟨hs.floor, fun _ h => (by cases h), hs.compress, fun _ h => (by cases h)⟩, ?_⟩
      rw [openFrom_eq_cons hi, if_neg hfd]
      rfl
    · refine ⟨⟨hs.floor, fun _ h => (by cases h), hs.compress, fun _ h => (by cases h)⟩, ?_⟩
      rw [openFrom_of_ge (Nat.not_lt.mp hi)]
      rfl
  · cases hstep

/-! ### The steps with a call -/

/-- The entry of the descriptor a call is made for. -/
theorem fd_mem_held (hheld : s.pc.heldFrom = some 0) (hi : i < s.table.nfds)
    (hfd : 0 ≤ (s.table.fds i).fd) : (s.table.fds i).fd ∈ s.held := by
  rw [Program.held, hheld]
  exact mem_openFrom_zero hi hfd

/-- **The program names only what it holds** to the host. -/
theorem uses_mem_held (h : Inv s) (hs : Dense s) {c : Call} (hc : s.call = some c) :
    ∀ d ∈ c.uses, d ∈ s.held := by
  have hserving : ∀ {pc : Pc}, s.pc = pc → pc ≠ .listen → pc ≠ .exited → Serving s := by
    rintro pc rfl hl he
    exact h.serving hl he
  have hconn : ∀ {pc : Pc} {i : ℕ}, s.pc = pc → pc ≠ .listen → pc ≠ .exited →
      pc.heldFrom = some 0 → pc.ahead = some i → (Serving s → AtConnection i s) →
      (s.table.fds i).fd ∈ s.held := by
    rintro pc i rfl hl he hfrom hahead hat
    have hserve := hserving rfl hl he
    have hi := (hat hserve).lt_size.trans_le (hat hserve).size_le
    exact fd_mem_held hfrom hi (hs.ahead i hahead i le_rfl hi)
  rw [Program.call] at hc
  split at hc <;> cases hc
  · exact fun d hd => absurd hd (List.not_mem_nil)
  · next hpc =>
    intro d hd
    obtain ⟨e, he, rfl⟩ := List.mem_map.mp hd
    obtain ⟨k, hk, rfl⟩ := List.mem_map.mp he
    have hk := List.mem_range.mp hk
    exact fd_mem_held (by rw [hpc]; rfl) hk (hs.ahead 0 (by rw [hpc]; rfl) k (Nat.zero_le k) hk)
  · next i hpc =>
    have htable := (hserving hpc (by simp) (by simp)).table
    have hlistens := (hserving hpc (by simp) (by simp)).listens
    refine List.forall_mem_singleton.mpr ?_
    rw [← htable.listener] at hlistens ⊢
    exact fd_mem_held (by rw [hpc]; rfl) htable.pos hlistens
  · next i hpc =>
    refine List.forall_mem_singleton.mpr (hconn hpc (by simp) (by simp) rfl rfl fun hserve => ?_)
    simpa [PcOk, hpc] using hserve.point
  · next i rc hpc =>
    refine List.forall_mem_singleton.mpr (hconn hpc (by simp) (by simp) rfl rfl fun hserve => ?_)
    simpa [PcOk, hpc] using hserve.point
  · next i hpc =>
    refine List.forall_mem_singleton.mpr (hconn hpc (by simp) (by simp) rfl rfl fun hserve => ?_)
    simpa [PcOk, hpc] using hserve.point
  · next i hpc =>
    obtain ⟨hi, hfd⟩ := hs.last i hpc
    refine List.forall_mem_singleton.mpr ?_
    rw [Program.held, hpc]
    change (s.table.fds i).fd ∈ openFrom i s.table
    rw [openFrom_eq_cons hi, if_pos hfd]
    exact List.mem_cons_self

/-- Behind the loop over the requests of a connection, and in it, the array stays as it is. -/
theorem moves_connectionEnd (hheld : s.pc.heldFrom = some 0) (hahead : s.pc.ahead = some i)
    {u : Program} (ht : u.table = s.table) (hcompress : u.compressArray = s.compressArray) :
    Moves s (connectionEnd i u) := by
  have hfd : ∀ k, (u.table.fds k).fd = (s.table.fds k).fd := fun k => by rw [ht]
  rw [connectionEnd]
  split_ifs
  · refine ⟨congrArg Table.nfds ht, hfd, hcompress, hheld.symm, fun j hj => ⟨i, hahead, ?_⟩,
      fun _ h => (by cases h)⟩
    exact (Option.some.inj hj).le
  · refine ⟨congrArg Table.nfds ht, hfd, hcompress, hheld.symm, fun j hj => ⟨i, hahead, ?_⟩,
      fun _ h => (by cases h)⟩
    obtain rfl := Option.some.inj hj
    exact Nat.le_succ i

theorem moves_received (hheld : s.pc.heldFrom = some 0) (hahead : s.pc.ahead = some i)
    (ans : Answer) : Moves s (received phr i s ans) := by
  rw [received]
  split_ifs
  · exact moves_connectionEnd hheld hahead rfl rfl
  · exact moves_connectionEnd hheld hahead rfl rfl
  · rw [respond]
    split
    · exact ⟨rfl, fun _ => rfl, rfl, hheld.symm, fun _ h => (by cases h), fun _ h => (by cases h)⟩
    · dsimp only
      split_ifs
      · exact moves_connectionEnd hheld hahead rfl rfl
      · refine ⟨rfl, fun _ => rfl, rfl, hheld.symm, fun j hj => ⟨i, hahead, ?_⟩,
          fun _ h => (by cases h)⟩
        exact (Option.some.inj hj).le

theorem moves_sent (hheld : s.pc.heldFrom = some 0) (hahead : s.pc.ahead = some i) (ans : Answer) :
    Moves s (sent i s ans) := by
  rw [sent]
  split_ifs
  · exact moves_connectionEnd hheld hahead rfl rfl
  · refine ⟨rfl, fun _ => rfl, rfl, hheld.symm, fun j hj => ⟨i, hahead, ?_⟩,
      fun _ h => (by cases h)⟩
    exact (Option.some.inj hj).le

/-- A step in which the program just goes on opens and closes nothing. -/
theorem Moves.even (h : Moves s t) (hs : Dense s) (ho : a.opens = []) (hc : a.closes = []) :
    Dense t ∧ book.Balances s a t :=
  ⟨h.dense hs, .of_eq h.held_eq ho hc⟩

/-- The listener is the first descriptor. -/
theorem listened_even (hs : Dense s) (hpc : s.pc = .listen) (hn : s.table.nfds = 1) {p b : ℤ}
    (ans : Answer) :
    Dense (listened s ans) ∧ book.Balances s (.call (.listen p b) ans) (listened s ans) := by
  have hheld : s.held = [] := by rw [Program.held, hpc]; rfl
  rw [listened]
  split_ifs with hneg
  · refine ⟨⟨hs.floor, fun _ h => (by cases h), hs.compress, fun _ h => (by cases h)⟩, ?_⟩
    exact .of_eq hheld.symm (if_neg (Int.not_le.mpr hneg)) rfl
  · have hret : 0 ≤ ans.ret := Int.not_lt.mp hneg
    -- the first entry is the only one
    have hnonneg : ∀ {P : ℤ → Prop} {k : ℕ}, P ans.ret → k < s.table.nfds →
        P ((Function.update s.table.fds 0
          { s.table.fds 0 with fd := ans.ret, events := POLLIN }) k).fd := by
      intro P k hP hk
      obtain rfl : k = 0 := by omega
      rwa [Function.update_self]
    refine ⟨⟨fun k hk => hnonneg (Int.le_trans (by decide) hret) hk,
      fun _ _ k _ hk => hnonneg hret hk, fun _ k hk => hnonneg hret hk,
      fun _ h => (by cases h)⟩, ?_⟩
    refine .of_open (d := ans.ret) ?_ (if_pos hret) rfl
    have hpos : 0 < s.table.nfds := hn.symm ▸ Nat.one_pos
    have hone : [_] = [ans.ret] := congrArg (fun d => [d]) (hnonneg (P := (· = ans.ret)) rfl hpos)
    have hopen := openFrom_single (t :=
      { s.table with
        fds := Function.update s.table.fds 0
          { s.table.fds 0 with fd := ans.ret, events := POLLIN } }) hn (hnonneg hret hpos)
    change (openFrom 0 _).Perm (s.held ++ [ans.ret])
    rw [hheld]
    exact .of_eq (hopen.trans hone)

/-- A poll writes to no descriptor. -/
theorem moves_polled (hpc : s.pc = .poll) (ans : Answer) : Moves s (polled s ans) := by
  have hfd : ∀ k, (if k < s.table.nfds then { s.table.fds k with revents := ans.revents k }
      else s.table.fds k).fd = (s.table.fds k).fd := by
    intro k
    split_ifs <;> rfl
  rw [polled]
  dsimp only
  split_ifs
  · exact ⟨rfl, hfd, rfl, by rw [hpc]; rfl, fun _ h => (by cases h), fun _ h => (by cases h)⟩
  · refine ⟨rfl, hfd, rfl, by rw [hpc]; rfl, fun j hj => ⟨0, by rw [hpc]; rfl, ?_⟩,
      fun _ h => (by cases h)⟩
    exact Nat.zero_le j

/-- **A connection that is accepted** is a new entry, if there is room for it. -/
theorem accepted_even (hs : Dense s) (hpc : s.pc = .accept i) {fd : ℤ} (ans : Answer)
    (hover : (accepted i s ans).pc ≠ .overrun) :
    Dense (accepted i s ans) ∧ book.Balances s (.call (.accept fd) ans) (accepted i s ans) := by
  have hheld : s.held = openFrom 0 s.table := by rw [Program.held, hpc]; rfl
  rw [accepted] at hover ⊢
  split_ifs at hover ⊢ with hneg hlt
  · refine Moves.even ⟨rfl, fun _ => rfl, rfl, by rw [hpc]; rfl,
      fun j hj => ⟨i, by rw [hpc]; rfl, ?_⟩,
      fun _ h => (by cases h)⟩ hs (if_neg (Int.not_le.mpr hneg)) rfl
    obtain rfl := Option.some.inj hj
    exact Nat.le_succ i
  · have hret : 0 ≤ ans.ret := Int.not_lt.mp hneg
    have hsucc : Uint32.succ s.table.nfds = s.table.nfds + 1 :=
      Uint32.succ_of_lt (lt_of_le_of_lt hlt (by decide))
    rw [hsucc]
    -- each entry is the new one, or was there
    have hcases : ∀ {P : ℤ → Prop} {k : ℕ}, P ans.ret →
        (k < s.table.nfds → P (s.table.fds k).fd) → k < s.table.nfds + 1 →
        P (Function.update s.table.fds s.table.nfds
          { s.table.fds s.table.nfds with fd := ans.ret, events := POLLIN } k).fd := by
      intro P k hnew hold hk
      rcases eq_or_ne k s.table.nfds with rfl | hne
      · rwa [Function.update_self]
      · rw [Function.update_of_ne hne]
        exact hold (by omega)
    refine ⟨⟨fun k hk => hcases (Int.le_trans (by decide) hret) (hs.floor k) hk,
      fun j hj k hjk hk => hcases hret (hs.ahead j ?_ k hjk) hk,
      fun hc k hk => hcases hret (hs.compress hc k) hk, fun _ h => (by cases h)⟩, ?_⟩
    · rw [hpc]
      exact hj
    · refine .of_open (d := ans.ret) ?_ (if_pos hret) rfl
      change (openFrom 0 _).Perm (s.held ++ [ans.ret])
      rw [openFrom_append hret, hheld]
  · exact absurd rfl hover

/-- **A connection that is closed** is marked. -/
theorem closed_even (hs : Dense s) (hpc : s.pc = .close i) (hi : i < s.table.nfds)
    (ans : Answer) :
    Dense (closed i s) ∧ book.Balances s (.call (.close (s.table.fds i).fd) ans) (closed i s) := by
  have hheld : s.held = openFrom 0 s.table := by rw [Program.held, hpc]; rfl
  have hahead := hs.ahead i (by rw [hpc]; rfl)
  refine ⟨⟨fun k hk => ?_, fun j hj k hjk hk => ?_, fun hc => (by cases hc),
    fun _ h => (by cases h)⟩, .of_close (d := (s.table.fds i).fd) ?_ rfl rfl⟩
  · dsimp only [closed]
    rcases eq_or_ne k i with rfl | hne
    · rw [Function.update_self]
    · rw [Function.update_of_ne hne]
      exact hs.floor k hk
  · obtain rfl := Option.some.inj hj
    dsimp only [closed]
    rw [Function.update_of_ne (by omega)]
    exact hahead k (by omega) hk
  · change (openFrom 0 _ ++ [_]).Perm s.held
    rw [hheld]
    exact openFrom_mark hi (hahead i le_rfl hi)

/-- **A step with a call** keeps the ledger even, unless it writes behind the array. -/
theorem answered_even (h : Inv s) (hs : Dense s) {c : Call} (hc : s.call = some c) (ans : Answer)
    (hover : (answered phr s ans).pc ≠ .overrun) :
    Dense (answered phr s ans) ∧ book.Balances s (.call c ans) (answered phr s ans) := by
  rw [answered] at hover ⊢
  rw [Program.call] at hc
  cases hpc : s.pc <;> rw [hpc] at hc hover <;> cases hc <;> dsimp only at hover ⊢
  case listen =>
    have hn : s.table.nfds = 1 := by
      rcases h with ⟨-, -, hn⟩ | ⟨hexited, -⟩ | hserving
      · exact hn
      · exact absurd (hpc.symm.trans hexited) (by simp)
      · exact absurd hserving.point (by simp [PcOk, hpc])
    exact listened_even hs hpc hn ans
  case poll => exact (moves_polled hpc ans).even hs rfl rfl
  case accept i => exact accepted_even hs hpc ans hover
  case recv i => exact (moves_received (by rw [hpc]; rfl) (by rw [hpc]; rfl) ans).even hs rfl rfl
  case send i rc => exact (moves_sent (by rw [hpc]; rfl) (by rw [hpc]; rfl) ans).even hs rfl rfl
  case close i =>
    have hi : AtConnection i s := by
      simpa [PcOk, hpc] using (h.serving (by simp [hpc]) (by simp [hpc])).point
    exact closed_even hs hpc (hi.lt_size.trans_le hi.size_le) ans
  case closeLast i =>
    obtain ⟨hi, hfd⟩ := hs.last i hpc
    have hheld : s.held = (s.table.fds i).fd :: openFrom (i + 1) s.table := by
      rw [Program.held, hpc]
      exact (openFrom_eq_cons hi).trans (if_pos hfd)
    refine ⟨⟨hs.floor, fun _ h => (by cases h), hs.compress, fun _ h => (by cases h)⟩, ?_⟩
    refine .of_close (d := (s.table.fds i).fd) ?_ rfl rfl
    change (openFrom (i + 1) s.table ++ [(s.table.fds i).fd]).Perm s.held
    rw [hheld]
    exact List.perm_append_singleton _ _

/-! ### Whole runs -/

/-- The invariant of the ledger. -/
def Even (s : Program) : Prop := Inv s ∧ Dense s

/-- A step that does not write behind the array found room in it. -/
theorem hasRoom_of_step (hstep : Step phr s a t) (hover : t.pc ≠ .overrun) : HasRoom s a := by
  cases a with
  | tau => trivial
  | call c ans =>
    obtain ⟨hc, ht⟩ := Option.ite_none_right_eq_some.mp hstep
    obtain rfl := Option.some.inj ht
    cases c with
    | accept fd =>
      intro hret
      obtain ⟨i, hpc⟩ := call_eq_accept hc
      rw [answered, hpc] at hover
      dsimp only [accepted] at hover
      rw [if_neg (Int.not_lt.mpr hret)] at hover
      by_contra hfull
      rw [if_neg hfull] at hover
      exact hover rfl
    | _ => trivial

/-- **Each step keeps the ledger even.** -/
theorem even_step (h : Even s) (hstep : Step phr s a t) (hover : t.pc ≠ .overrun) :
    Even t ∧ book.Balances s a t := by
  obtain ⟨hinv, hs⟩ := h
  have ht := inv_step hinv hstep (hasRoom_of_step hstep hover)
  cases a with
  | tau =>
    have hlt : s.table.nfds < 2 ^ 32 := by
      rcases hinv with ⟨hpc, -⟩ | ⟨hpc, -⟩ | hserving
      · rw [Step, step, tauStep, hpc] at hstep
        cases hstep
      · rw [Step, step, tauStep, hpc] at hstep
        cases hstep
      · exact lt_of_le_of_lt hserving.table.le (by decide)
    obtain ⟨hdense, hheld⟩ := tauStep_even hs hlt hstep
    exact ⟨⟨ht, hdense⟩, .of_eq hheld rfl rfl⟩
  | call c ans =>
    obtain ⟨hc, heq⟩ := Option.ite_none_right_eq_some.mp hstep
    obtain rfl := Option.some.inj heq
    obtain ⟨hdense, heven⟩ := answered_even hinv hs hc ans hover
    exact ⟨⟨ht, hdense⟩, heven⟩

/-- Behind the array there is no further step. -/
theorem pc_ne_overrun_of_step (hstep : Step phr s a t) : s.pc ≠ .overrun := by
  intro hpc
  cases a with
  | tau =>
    rw [Step, step, tauStep, hpc] at hstep
    cases hstep
  | call c ans =>
    obtain ⟨hc, -⟩ := Option.ite_none_right_eq_some.mp hstep
    rw [Program.call, hpc] at hc
    cases hc

/-- **A run keeps the ledger even**, as long as it does not write behind the array. -/
theorem even_run {reqbuf resbuf : ℕ → UInt8} {l : List Label}
    (h : Lts.Steps (Step phr) (.start reqbuf resbuf) l s) (hover : s.pc ≠ .overrun) :
    Even s ∧ (book.held s ++ book.closed l).Perm (book.opened l) := by
  have hwithin :=
    h.within (P := fun s => s.pc ≠ .overrun) (fun _ _ _ => pc_ne_overrun_of_step) hover
  have hstart : Even (.start reqbuf resbuf) := ⟨inv_start reqbuf resbuf, dense_start reqbuf resbuf⟩
  refine ⟨hwithin.invariant (P := Even) (fun _ _ _ hI hs => (even_step hI hs.1 hs.2).1) hstart, ?_⟩
  exact book.balance (fun _ _ _ hI hs => even_step hI hs.1 hs.2) hwithin hstart

end Bespoke

open Bespoke

/-- **The bespoke server keeps its descriptors in order.** In every run each descriptor it
names to the host – to poll it, to accept on it, to receive, send or close – is open at that
time, that is, `host_listen` and `host_accept` have returned it more often than it was closed;
and when the program ends, it has closed all that was opened, each as often as it was opened. -/
theorem bespoke_closesOnce (phr : Http.Parser) (l : List Bespoke.Label) (s : Bespoke.Program)
    (h : Bespoke.Runs phr l s) :
    (∀ l₁ a l₂, l = l₁ ++ a :: l₂ → ∀ d ∈ a.uses, Bespoke.book.IsOpen l₁ d) ∧
      (s.pc = .exited → (Bespoke.book.closed l).Perm (Bespoke.book.opened l)) := by
  obtain ⟨reqbuf, resbuf, h⟩ := h
  refine ⟨?_, fun hpc => ?_⟩
  · rintro l₁ a l₂ rfl d hd
    obtain ⟨u, u', hl, hu, -⟩ := h.split_cons
    obtain ⟨⟨hinv, hs⟩, heven⟩ := even_run hl (pc_ne_overrun_of_step hu)
    cases a with
    | tau => cases hd
    | call c ans =>
      obtain ⟨hc, -⟩ := Option.ite_none_right_eq_some.mp hu
      exact Ledger.Book.isOpen_of_mem heven (uses_mem_held hinv hs hc d hd)
  · obtain ⟨-, heven⟩ := even_run h (by simp [hpc])
    have hheld : Bespoke.book.held s = [] := by
      change s.held = []
      rw [Program.held, hpc]
      rfl
    rwa [hheld] at heven

/-- One connection, which the peer closes, and then nothing until the poll times out. -/
theorem bespoke_closesOnce_oneConnection :
    ∃ l s, Bespoke.Runs Bespoke.rootParser l s ∧ Bespoke.book.opened l = [3, 5] ∧
      (Bespoke.book.closed l).Perm [3, 5] := by
  obtain ⟨s, hs, hpc⟩ : ∃ s ∈ Lts.exec (Bespoke.step Bespoke.rootParser)
      (.start (fun _ => 0) fun _ => 0)
      [.call (.listen 8080 1000) (incoming 3), .call (.poll [(3, POLLIN)] timeout) (incoming 1),
        .tau, .call (.accept 3) (incoming 5),
        .call (.accept 3) (Bespoke.plainAnswer (-1) 11 fun _ => 0),
        .tau, .call (.poll [(3, POLLIN), (5, POLLIN)] timeout)
          (Bespoke.plainAnswer 1 0 fun k => if k = 1 then POLLIN else 0), .tau, .tau,
        .call (.recv 5 2048) (incoming 0), .call (.close 5) (incoming 0), .tau,
        .call (.poll [(3, POLLIN)] timeout) (incoming 0), .tau, .call (.close 3) (incoming 0),
        .tau], s.pc = .exited := by decide +kernel
  have hrun := Bespoke.runs_of_exec hs
  exact ⟨_, s, hrun, rfl, (bespoke_closesOnce Bespoke.rootParser _ s hrun).2 hpc⟩

end Waeio
