import Waeio.FiberServer.Invariant

/-!
# The bounds of the table

`wfd.fds` and `fibers` have `MAX_CONNECTIONS` entries each, and `wfd.length` is an
unsigned counter. `Waeio.FiberServer.Program.uses` lists what the next step of the
program does with them, in the order of the source: the indices it goes to, the
decrements of the counter, and the appends, each of which asserts that there is space.

The compaction takes many turns in one step, and its part of the list follows its loops
(`Waeio.FiberServer.compactUses`).
-/

namespace Waeio

namespace FiberServer

open HostPoll
open Http (Label Site Pc Parser)

/-! ### What a step does with the arrays and the counter -/

/-- A use of the arrays, or of the counter. -/
inductive Use
  /-- `wfd.fds[i]`, or `fibers[i]`. -/
  | index (i : ℕ) : Use
  /-- `wfd.length++`, after the assertion that it is less than `wfd.capacity`. -/
  | grow (length capacity : ℕ) : Use
  /-- `wfd.length--` -/
  | shrink (length : ℕ) : Use
  deriving DecidableEq, Repr

/-- **The use is within bounds.** -/
def Use.Ok : Use → Prop
  | .index i => i < MAX_CONNECTIONS
  | .grow length capacity => length < capacity
  | .shrink length => 0 < length

instance (u : Use) : Decidable u.Ok :=
  match u with
  | .index _ | .grow _ _ | .shrink _ => inferInstanceAs (Decidable (_ < _))

/-- The uses of `Waeio.FiberServer.moveDown`. -/
def moveDownUses : (k j : ℕ) → List Use
  | 0, _ => []
  | k + 1, j => .index j :: .index (j + 1) :: moveDownUses k (j + 1)

/-- The uses of `Waeio.FiberServer.compactFrom`. -/
def compactUses : (fuel i : ℕ) → Server → List Use
  | 0, _, _ => []
  | fuel + 1, i, s =>
    if i < s.wfd.length then
      .index i ::
        if (s.wfd.fds i).fd = -1 then
          moveDownUses (Uint32.pred s.wfd.length - i) i ++ .shrink s.wfd.length ::
            compactUses fuel (Uint32.succ (Uint32.pred i))
              (moveDown (Uint32.pred s.wfd.length - i) i s).shorten
        else compactUses fuel (Uint32.succ i) s
    else []

/-- The uses of the end of the sweep. -/
def sweepEndUses (s : Server) : List Use :=
  if s.compressPollfd then compactUses s.wfd.length 0 s else []

/-- **The uses of the next step.** -/
def Program.uses (s : Program) : List Use :=
  let wfd := s.srv.wfd
  match s.pc with
  | .listen =>
    (List.range wfd.capacity).map .index ++
      [.grow wfd.length wfd.capacity, .index wfd.length, .index 0]
  | .poll => (List.range wfd.length).map .index
  | .sweep i =>
    if i < s.pollfdSize then
      let revents := (wfd.fds i).revents
      .index i ::
        if revents = 0 then []
        else if revents &&& POLLHUP ≠ 0 then [.shrink wfd.length]
        else if revents &&& POLLIN = 0 then sweepEndUses s.srv
        else []
    else sweepEndUses s.srv
  | .resume site | .recv site _ | .send site _ _ => [.index site.index]
  | .accept site _ =>
    [.grow wfd.length wfd.capacity, .index wfd.length,
      .index (Uint32.pred (Uint32.succ wfd.length)), .index site.index]
  | .closeDone i _ _ | .closeKill i => [.index i, .shrink wfd.length]
  | .kill i => if i < wfd.length then [.index i] else []
  | .exited | .aborted | .stray => []

/-! ### The compaction -/

theorem moveDownUses_ok (k j : ℕ) (h : j + k < MAX_CONNECTIONS) : ∀ u ∈ moveDownUses k j, u.Ok := by
  induction k generalizing j with
  | zero => exact fun u hu => absurd hu List.not_mem_nil
  | succ k ih =>
    refine List.forall_mem_cons.mpr ⟨?_, List.forall_mem_cons.mpr ⟨?_, ih (j + 1) (by omega)⟩⟩
    · show j < MAX_CONNECTIONS
      omega
    · show j + 1 < MAX_CONNECTIONS
      omega

/-- **The compaction stays within bounds.** Its inner loop copies from the last entry
at most, and the counter is not zero where there is an entry to look at. -/
theorem compactUses_ok (fuel i : ℕ) (s : Server) (h : s.wfd.length ≤ MAX_CONNECTIONS) :
    ∀ u ∈ compactUses fuel i s, u.Ok := by
  induction fuel generalizing i s with
  | zero => exact fun u hu => absurd hu List.not_mem_nil
  | succ fuel ih =>
    rw [compactUses]
    split_ifs with hi hhole
    · have hpred : Uint32.pred s.wfd.length = s.wfd.length - 1 := Uint32.pred_of_pos (by omega)
      have hmoved : (moveDown (Uint32.pred s.wfd.length - i) i s).wfd.length = s.wfd.length := by
        rw [moveDown_eq]
        exact slots.size_moveDown _ _ s
      have hlen : (moveDown (Uint32.pred s.wfd.length - i) i s).shorten.wfd.length =
          s.wfd.length - 1 := by
        show Uint32.pred (moveDown (Uint32.pred s.wfd.length - i) i s).wfd.length = _
        rw [hmoved, hpred]
      refine List.forall_mem_cons.mpr ⟨lt_of_lt_of_le hi h, List.forall_mem_append.mpr ⟨?_,
        List.forall_mem_cons.mpr ⟨Nat.zero_lt_of_lt hi, ih _ _ (by omega)⟩⟩⟩
      exact moveDownUses_ok _ _ (by omega)
    · exact List.forall_mem_cons.mpr ⟨lt_of_lt_of_le hi h, ih _ _ h⟩
    · exact fun u hu => absurd hu List.not_mem_nil

theorem sweepEndUses_ok {s : Server} (h : s.wfd.length ≤ MAX_CONNECTIONS) :
    ∀ u ∈ sweepEndUses s, u.Ok := by
  rw [sweepEndUses]
  split_ifs
  · exact compactUses_ok _ _ _ h
  · exact fun u hu => absurd hu List.not_mem_nil

/-! ### The program -/

variable {created : List ℤ} {s : Program} {n i : ℕ} {fd : ℤ} {site : Site}

theorem forall_mem_range_index {n : ℕ} (h : n ≤ MAX_CONNECTIONS) :
    ∀ u ∈ (List.range n).map Use.index, u.Ok := by
  intro u hu
  obtain ⟨k, hk, rfl⟩ := List.mem_map.mp hu
  exact lt_of_lt_of_le (List.mem_range.mp hk) h

/-- The entry a fiber is resumed for. -/
theorem AtSite.index_lt {frames : ℕ → Http.Frame} {T : Table}
    (h : AtSite created frames T n fd site) : site.index < MAX_CONNECTIONS := by
  cases site with
  | sweep i => exact lt_of_lt_of_le h.2.1 h.1.size_le
  | kill i => exact lt_of_lt_of_le h.2.1 h.1.length_le

/-- The counter is not zero while there are entries to visit. -/
theorem InSweep.length_pos {frames : ℕ → Http.Frame} {T : Table} {gone : Prop}
    (h : InSweep created frames T n i gone) (hi : i < n) : 0 < T.length := by
  have hle := h.le
  omega

/-- **The sizes, at every point of the program.** -/
theorem Inv.sizes (h : Inv created s) :
    s.srv.wfd.capacity = MAX_CONNECTIONS ∧ s.srv.wfd.length ≤ MAX_CONNECTIONS := by
  cases hpc : s.pc <;> rw [Inv, hpc] at h
  case listen => exact ⟨h.1, h.2.1.le.trans (Nat.zero_le _)⟩
  case poll | sweep | closeDone | kill | closeKill => exact ⟨h.1.capacity_eq, h.1.length_le⟩
  case resume => exact ⟨h.1.sized.capacity_eq, h.1.sized.length_le⟩
  case accept => exact ⟨h.1.atSite.sized.capacity_eq, h.1.atSite.sized.length_le⟩
  case recv | send => exact ⟨h.atSite.sized.capacity_eq, h.atSite.sized.length_le⟩
  case exited | aborted => exact ⟨h.capacity_eq, h.length_le⟩
  case stray => exact h.elim

/-- **Every use is within bounds.** -/
theorem Inv.uses_ok (h : Inv created s) : ∀ u ∈ s.uses, u.Ok := by
  obtain ⟨hcap, hlen⟩ := h.sizes
  cases hpc : s.pc <;> rw [Inv, hpc] at h <;> rw [Program.uses, hpc]
  case listen =>
    have hzero := h.2.1
    refine List.forall_mem_append.mpr ⟨forall_mem_range_index hcap.le, ?_⟩
    rw [hzero, hcap]
    decide
  case poll => exact forall_mem_range_index hlen
  case sweep i =>
    dsimp only
    have hindex (hi : i < s.pollfdSize) : Use.Ok (.index i) := lt_of_lt_of_le hi h.1.size_le
    split_ifs with hi
    · exact List.forall_mem_singleton.mpr (hindex hi)
    · exact List.forall_mem_cons.mpr ⟨hindex hi,
        List.forall_mem_singleton.mpr (h.1.length_pos hi)⟩
    · exact List.forall_mem_cons.mpr ⟨hindex hi, sweepEndUses_ok hlen⟩
    · exact List.forall_mem_singleton.mpr (hindex hi)
    · exact sweepEndUses_ok hlen
  case resume => exact List.forall_mem_singleton.mpr h.1.index_lt
  case recv | send => exact List.forall_mem_singleton.mpr h.atSite.index_lt
  case accept site f =>
    obtain ⟨hfiber, -, -, hlt⟩ := h
    have hlt' := lt_of_lt_of_eq hlt hcap.symm
    have hpred : Uint32.pred (Uint32.succ s.srv.wfd.length) = s.srv.wfd.length := by
      have hmax := MAX_CONNECTIONS_lt
      rw [Uint32.succ_of_lt (by omega), Uint32.pred_of_pos (Nat.succ_pos _)]
      rfl
    dsimp only
    rw [hpred]
    exact List.forall_mem_cons.mpr ⟨hlt', List.forall_mem_cons.mpr ⟨hlt,
      List.forall_mem_cons.mpr ⟨hlt, List.forall_mem_singleton.mpr hfiber.atSite.index_lt⟩⟩⟩
  case closeDone i fd failed =>
    exact List.forall_mem_cons.mpr ⟨lt_of_lt_of_le h.2.1 h.1.size_le,
      List.forall_mem_singleton.mpr (h.1.length_pos h.2.1)⟩
  case closeKill i =>
    exact List.forall_mem_cons.mpr ⟨lt_of_lt_of_le h.2.1 hlen,
      List.forall_mem_singleton.mpr (Nat.zero_lt_of_lt h.2.1)⟩
  case kill i =>
    dsimp only
    split_ifs with hi
    · exact List.forall_mem_singleton.mpr (lt_of_lt_of_le hi hlen)
    · exact fun u hu => absurd hu List.not_mem_nil
  all_goals exact fun u hu => absurd hu List.not_mem_nil

end FiberServer

open FiberServer Http HostPoll

/-- **The table stays within its bounds**, in every run: `length` neither wraps nor
exceeds `capacity`, all indices are below `MAX_CONNECTIONS`, and the assertions of
`wasio_listen` and `wasio_accept` hold whatever the host answers. -/
theorem fiberServer_within_bounds (phr : Parser) (l : List Label) (s : Program)
    (h : FiberServer.Runs phr l s) :
    s.srv.wfd.capacity = MAX_CONNECTIONS ∧ s.srv.wfd.length ≤ MAX_CONNECTIONS ∧
      (∀ u ∈ s.uses, u.Ok) ∧
      (∀ a, s.pc = .listen → (wasioListen s.srv.wfd 8080 (MAX_CONNECTIONS * 2) a).isSome) ∧
      ∀ site f a, s.pc = .accept site f → (wasioAccept s.srv.wfd s.srv.fd a).isSome := by
  have hinv := h.inv
  obtain ⟨hcap, hlen⟩ := hinv.sizes
  have huses := hinv.uses_ok
  have hcaplt : s.srv.wfd.capacity < 2 ^ 32 := hcap ▸ MAX_CONNECTIONS_lt
  refine ⟨hcap, hlen, huses, fun a hpc => ?_, fun site f a hpc => ?_⟩ <;>
    rw [Program.uses, hpc] at huses
  · have hlt := huses (.grow _ _) (List.mem_append_right _ List.mem_cons_self)
    by_cases hneg : a.ret < 0
    · rw [wasioListen_of_neg hlt _ _ hneg]
      rfl
    · rw [wasioListen_of_nonneg hlt hcaplt _ _ hneg]
      rfl
  · have hlt := huses (.grow _ _) List.mem_cons_self
    by_cases hneg : a.ret < 0
    · rw [wasioAccept_of_neg hlt _ hneg]
      rfl
    · rw [wasioAccept_of_nonneg hlt hcaplt _ hneg]
      rfl

/-- With one client, the table has two entries. -/
theorem fiberServer_within_bounds_oneClient :
    ∃ s, FiberServer.Runs (fun _ => ⟨-1, none, 0, 1⟩) oneClient s ∧ s.srv.wfd.length = 2 ∧
      s.uses = [.index 1] ∧ ∀ u ∈ s.uses, u.Ok := by
  obtain ⟨s, hs, hlen, huses⟩ :
      ∃ s ∈ Lts.exec (FiberServer.step fun _ => ⟨-1, none, 0, 1⟩) .start oneClient,
        s.srv.wfd.length = 2 ∧ s.uses = [.index 1] := by
    decide +kernel
  have hrun := runs_of_exec hs
  exact ⟨s, hrun, hlen, huses, (fiberServer_within_bounds _ _ s hrun).2.2.1⟩

end Waeio
