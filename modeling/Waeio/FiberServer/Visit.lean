import Waeio.FiberServer.Compaction

/-!
# What one entry of the sweep does

The sweep does two things with an entry. It may resume the fiber, and the listener
then appends entries at the end of the table; what it appends depends on the space
there is and on the answers of the host (`Waeio.FiberServer.acceptLoop_spec`). And
it may take the entry away, or set its descriptor to `-1` all the same, because an
entry before it was taken away (`Waeio.FiberServer.Visited`).

Everything else about an entry stays as it was.
-/

namespace Waeio

namespace FiberServer

open HostPoll

variable {s t u : Server} {r : Round} {i : ℕ}

/-! ### What the listener appends -/

/-- The connections that arrive while there is space, and whether the listener
then returns, since the host reports an error. -/
def arrivals : (space : ℕ) → List HostAnswer → List ℤ × Bool
  | 0, _ | _, [] => ([], false)
  | space + 1, host :: hosts =>
    if host.ret < 0 then ([], decide (translateError host.errno ≠ .eagain))
    else (host.ret :: (arrivals space hosts).1, (arrivals space hosts).2)

/-- The entries of new connections, whose fibers are numbered from `fiber` on. -/
def entriesFrom (fiber : ℕ) : List ℤ → List Entry
  | [] => []
  | fd :: fds => ⟨fd, ⟨fiber, fd⟩⟩ :: entriesFrom (fiber + 1) fds

/-- The entries the listener appends to the table `s`. -/
def appended (s : Server) (hosts : List HostAnswer) : List Entry :=
  entriesFrom (s.allocated + 1) (arrivals (s.wfd.capacity - s.wfd.length) hosts).1

@[simp] theorem length_entriesFrom (fiber : ℕ) (fds : List ℤ) :
    (entriesFrom fiber fds).length = fds.length := by
  induction fds generalizing fiber with
  | nil => rfl
  | cons fd fds ih => rw [entriesFrom, List.length_cons, List.length_cons, ih]

/-- The new fibers are numbered one after the other. -/
theorem map_fiber_entriesFrom (fiber : ℕ) (fds : List ℤ) :
    ((entriesFrom fiber fds).map fun e => e.closure.fiber) = List.range' fiber fds.length := by
  induction fds generalizing fiber with
  | nil => rfl
  | cons fd fds ih => rw [entriesFrom, List.map_cons, ih, List.length_cons, List.range'_succ]

theorem fd_of_mem_entriesFrom {fiber : ℕ} {fds : List ℤ} {e : Entry}
    (h : e ∈ entriesFrom fiber fds) : e.fd ∈ fds := by
  induction fds generalizing fiber with
  | nil => exact absurd h (by simp [entriesFrom])
  | cons fd fds ih =>
    rcases List.mem_cons.mp h with rfl | h
    · exact List.mem_cons_self
    · exact List.mem_cons_of_mem _ (ih h)

/-- The host gives no negative descriptor to a connection. -/
theorem nonneg_of_mem_arrivals {space : ℕ} {hosts : List HostAnswer} {fd : ℤ}
    (h : fd ∈ (arrivals space hosts).1) : 0 ≤ fd := by
  induction hosts generalizing space with
  | nil => cases space <;> exact absurd h (by simp [arrivals])
  | cons host hosts ih =>
    cases space with
    | zero => exact absurd h (by simp [arrivals])
    | succ space =>
      rw [arrivals] at h
      split_ifs at h with hneg
      · exact absurd h (by simp)
      · rcases List.mem_cons.mp h with rfl | h
        · omega
        · exact ih h

theorem length_arrivals_le (space : ℕ) (hosts : List HostAnswer) :
    (arrivals space hosts).1.length ≤ space := by
  induction hosts generalizing space with
  | nil => cases space <;> simp [arrivals]
  | cons host hosts ih =>
    cases space with
    | zero => simp [arrivals]
    | succ space =>
      rw [arrivals]
      split_ifs with hneg
      · simp
      · simpa using ih space

/-- The table after the host has accepted the connection `fd`. -/
def Server.accepted (s : Server) (fd : ℤ) : Server :=
  { s with
    wfd := { s.wfd with
      fds := Function.update s.wfd.fds s.wfd.length (opened fd)
      length := s.wfd.length + 1 }
    fibers := Function.update s.fibers s.wfd.length ⟨s.allocated + 1, fd⟩
    allocated := s.allocated + 1 }

theorem entries_accepted (s : Server) (fd : ℤ) :
    (s.accepted fd).entries = s.entries ++ [⟨fd, ⟨s.allocated + 1, fd⟩⟩] := by
  rw [Server.entries, Server.accepted, Compact.row_succ]
  congr 1
  · refine Compact.row_congr fun k hk => ?_
    simp [Server.cell, Nat.ne_of_lt hk]
  · simp [Server.cell, opened]

/-- **What the listener does** with the state: it appends the entries of the
connections that arrive, and leaves those there were. -/
structure Appended (s t : Server) (new : List Entry) : Prop where
  entries_eq : t.entries = s.entries ++ new
  revents_eq : ∀ k < s.wfd.length, (t.wfd.fds k).revents = (s.wfd.fds k).revents
  compressPollfd_eq : t.compressPollfd = s.compressPollfd
  capacity_eq : t.wfd.capacity = s.wfd.capacity
  allocated_eq : t.allocated = s.allocated + new.length

theorem Appended.refl (s : Server) : Appended s s [] := by
  refine ⟨by simp, ?_, rfl, rfl, rfl⟩
  exact fun _ _ => rfl

/-- The event log and `end_server` do not matter for the table. -/
theorem Appended.congr {new : List Entry} (h : Appended s t new) (hwfd : u.wfd = t.wfd)
    (hfibers : u.fibers = t.fibers) (hflag : u.compressPollfd = t.compressPollfd)
    (halloc : u.allocated = t.allocated) : Appended s u new where
  entries_eq := by
    rw [← h.entries_eq, Server.entries, Server.entries, hwfd]
    exact Compact.row_congr fun k _ => by rw [Server.cell, Server.cell, hwfd, hfibers]
  revents_eq k hk := by rw [hwfd, h.revents_eq k hk]
  compressPollfd_eq := hflag.trans h.compressPollfd_eq
  capacity_eq := by rw [hwfd, h.capacity_eq]
  allocated_eq := halloc.trans h.allocated_eq

theorem Appended.accepted_trans {fd : ℤ} {new : List Entry}
    (h : Appended (s.accepted fd) t new) :
    Appended s t (⟨fd, ⟨s.allocated + 1, fd⟩⟩ :: new) where
  entries_eq := by
    rw [h.entries_eq, entries_accepted, List.append_assoc, List.singleton_append]
  revents_eq k hk := by
    rw [h.revents_eq k (Nat.lt_succ_of_lt hk)]
    simp [Server.accepted, Nat.ne_of_lt hk]
  compressPollfd_eq := h.compressPollfd_eq
  capacity_eq := h.capacity_eq
  allocated_eq := by
    rw [h.allocated_eq]
    show s.allocated + 1 + new.length = s.allocated + (new.length + 1)
    omega

theorem acceptLoop_of_full (hfull : s.wfd.length = s.wfd.capacity) (hosts : List HostAnswer) :
    acceptLoop s hosts = some (.yield, s) := by
  cases hosts with
  | nil => rw [acceptLoop, if_pos hfull]
  | cons host hosts => rw [acceptLoop, if_pos hfull]

/-- The listener yields when the call would block, and returns when it fails. -/
theorem acceptLoop_of_neg (hlt : s.wfd.length < s.wfd.capacity) {host : HostAnswer}
    (hneg : host.ret < 0) (hosts : List HostAnswer) :
    acceptLoop s (host :: hosts) =
      if translateError host.errno = .eagain then
        some (.yield, s.emit (.call (.accept s.fd)))
      else some (.ok, { s with endServer := true }.emit (.call (.accept s.fd))) := by
  rw [acceptLoop, if_neg (Nat.ne_of_lt hlt), wasioAccept_of_neg hlt _ hneg]
  rw [translateError]
  split_ifs <;> simp_all

/-- The listener goes on when it has accepted a connection. -/
theorem acceptLoop_of_nonneg (hlt : s.wfd.length < s.wfd.capacity)
    (hcap : s.wfd.capacity < 2 ^ 32) {host : HostAnswer} (hnonneg : ¬host.ret < 0)
    (hosts : List HostAnswer) :
    acceptLoop s (host :: hosts) =
      if 4 < host.ret then
        acceptLoop ((s.accepted host.ret).emit (.call (.accept s.fd))) hosts
      else none := by
  have hpred : Uint32.pred (s.wfd.length + 1) = s.wfd.length :=
    Uint32.pred_of_pos (Nat.succ_pos _)
  rw [acceptLoop, if_neg (Nat.ne_of_lt hlt), wasioAccept_of_nonneg hlt hcap _ hnonneg]
  dsimp only
  rw [hpred]
  rfl

/-- **The listener accepts what arrives**, and returns only if the host reports an
error. -/
theorem acceptLoop_spec (hosts : List HostAnswer) (s : Server) (hle : s.wfd.length ≤ s.wfd.capacity)
    (hcap : s.wfd.capacity < 2 ^ 32) {status : Scheduler.FiberStatus}
    (h : acceptLoop s hosts = some (status, t)) :
    Appended s t (appended s hosts) ∧
      (status ≠ .yield ↔ (arrivals (s.wfd.capacity - s.wfd.length) hosts).2 = true) := by
  induction hosts generalizing s with
  | nil =>
    have hnone : arrivals (s.wfd.capacity - s.wfd.length) [] = ([], false) := by
      cases s.wfd.capacity - s.wfd.length <;> rfl
    rw [acceptLoop] at h
    rw [appended, hnone]
    split_ifs at h <;> obtain ⟨rfl, rfl⟩ := Prod.mk.inj (Option.some.inj h)
    · exact ⟨.refl s, by simp⟩
    · exact ⟨(Appended.refl s).congr rfl rfl rfl rfl, by simp⟩
  | cons host hosts ih =>
    rcases Nat.eq_or_lt_of_le hle with hfull | hlt
    · rw [acceptLoop_of_full hfull] at h
      obtain ⟨rfl, rfl⟩ := Prod.mk.inj (Option.some.inj h)
      rw [appended, hfull, Nat.sub_self]
      exact ⟨.refl s, by simp [arrivals]⟩
    obtain ⟨space, hspace⟩ : ∃ space, s.wfd.capacity - s.wfd.length = space + 1 :=
      ⟨s.wfd.capacity - s.wfd.length - 1, by omega⟩
    rw [appended, hspace, arrivals]
    by_cases hneg : host.ret < 0
    · rw [acceptLoop_of_neg hlt hneg] at h
      rw [if_pos hneg]
      split_ifs at h with hagain <;> obtain ⟨rfl, rfl⟩ := Prod.mk.inj (Option.some.inj h)
      · exact ⟨(Appended.refl s).congr rfl rfl rfl rfl, by simp [hagain]⟩
      · exact ⟨(Appended.refl s).congr rfl rfl rfl rfl, by simp [hagain]⟩
    · rw [acceptLoop_of_nonneg hlt hcap hneg] at h
      rw [if_neg hneg]
      split_ifs at h with hfour
      -- one entry is there now, and the rest is appended to that table
      obtain ⟨happ, hstatus⟩ := ih ((s.accepted host.ret).emit (.call (.accept s.fd))) hlt hcap h
      have hspace' : s.wfd.capacity - (s.wfd.length + 1) = space := by omega
      have hnew : appended ((s.accepted host.ret).emit (.call (.accept s.fd))) hosts =
          entriesFrom (s.allocated + 1 + 1) (arrivals space hosts).1 := by
        rw [← hspace']
        rfl
      rw [hnew] at happ
      refine ⟨?_, hspace' ▸ hstatus⟩
      exact Appended.accepted_trans ⟨happ.entries_eq, happ.revents_eq, happ.compressPollfd_eq,
        happ.capacity_eq, happ.allocated_eq⟩

/-! ### What happens to the entry -/

/-- The entry `i` hangs up. -/
def Round.HangsUp (r : Round) (i : ℕ) : Prop := r.revents i &&& POLLHUP ≠ 0

/-- The entry `i` is readable. -/
def Round.Readable (r : Round) (i : ℕ) : Prop :=
  r.revents i &&& POLLHUP = 0 ∧ r.revents i &&& POLLIN ≠ 0

/-- The sweep ends at the entry `i`. -/
def Round.Breaks (r : Round) (i : ℕ) : Prop :=
  r.revents i ≠ 0 ∧ r.revents i &&& POLLHUP = 0 ∧ r.revents i &&& POLLIN = 0

/-- **What the sweep does with the entry `i`**, which goes or stays. An entry that
stays is left as it is while none has gone before it. -/
structure Visited (i : ℕ) (gone : Prop) (s t : Server) : Prop where
  framed : Framed s t
  cell_of_ne : ∀ k ≠ i, t.cell k = s.cell k
  revents_eq : ∀ k, (t.wfd.fds k).revents = (s.wfd.fds k).revents
  cell_self : (t.cell i).isHole = true ∨ t.cell i = s.cell i
  of_gone : gone → (t.cell i).isHole = true ∧ t.wfd.length = Uint32.pred s.wfd.length ∧
    t.compressPollfd = true
  of_stays : ¬gone → t.wfd.length = s.wfd.length ∧ t.compressPollfd = s.compressPollfd ∧
    (s.compressPollfd = false → t.cell i = s.cell i)

theorem cell_punch_self (s : Server) (i : ℕ) : ((s.punch i).cell i).isHole = true := by
  rw [isHole_cell]
  simp [Server.punch]

theorem cell_punch_of_ne (s : Server) {i k : ℕ} (h : k ≠ i) : (s.punch i).cell k = s.cell k := by
  simp [Server.cell, Server.punch, h]

theorem revents_punch (s : Server) (i k : ℕ) :
    ((s.punch i).wfd.fds k).revents = (s.wfd.fds k).revents := by
  rcases eq_or_ne k i with rfl | hne
  · simp [Server.punch]
  · simp [Server.punch, hne]

/-- An entry that nothing happens to. -/
theorem visited_idle (i : ℕ) {b : Bool} : Visited i False s { s with endServer := b } where
  framed := ⟨rfl, rfl⟩
  cell_of_ne _ _ := rfl
  revents_eq _ := rfl
  cell_self := Or.inr rfl
  of_gone := False.elim
  of_stays _ := ⟨rfl, rfl, fun _ => rfl⟩

theorem visited_hangUp (s : Server) (i : ℕ) : Visited i True s (hangUp i s) where
  framed := ⟨rfl, rfl⟩
  cell_of_ne k hk := by simp [hangUp, Server.cell, Server.punch, Server.shorten, Server.emit, hk]
  revents_eq := revents_punch s i
  cell_self := Or.inl (cell_punch_self _ i)
  of_gone _ := ⟨cell_punch_self _ i, rfl, rfl⟩
  of_stays h := absurd trivial h

/-- The event log does not matter for a visit. -/
theorem Visited.of_emit {gone : Prop} {e : Event} (h : Visited i gone (s.emit e) t) :
    Visited i gone s t where
  framed := ⟨h.framed.capacity_eq, h.framed.allocated_eq⟩
  cell_of_ne := h.cell_of_ne
  revents_eq := h.revents_eq
  cell_self := h.cell_self
  of_gone := h.of_gone
  of_stays := h.of_stays

/-- An entry that is taken away. Its descriptor is set to `-1` twice. -/
theorem visited_taken (s : Server) (i : ℕ) (b : Bool) :
    Visited i True s (flag i true { (s.punch i).shorten with endServer := b }) := by
  refine ⟨⟨rfl, rfl⟩, fun k hk => ?_, fun k => ?_, Or.inl (cell_punch_self _ i),
    fun _ => ⟨cell_punch_self _ i, rfl, rfl⟩, fun h => absurd trivial h⟩
  · exact (cell_punch_of_ne _ hk).trans (cell_punch_of_ne _ hk)
  · exact (revents_punch _ i k).trans (revents_punch _ i k)

/-- An entry whose fiber is done. -/
theorem visited_done {clo : FiberClosure} {host : HostAnswer} {b : Bool}
    (h : handleDone i clo host s = some t) :
    Visited i True s (flag i true { t with endServer := b }) := by
  rw [handleDone] at h
  split_ifs at h
  obtain rfl := Option.some.inj h
  exact (visited_taken _ i b).of_emit.of_emit

/-- An entry whose fiber has yielded loses its descriptor if the flag is up. -/
theorem visited_yield (s : Server) (i : ℕ) :
    Visited i False s (flag i false { s with wfd := { s.wfd with
      fds := Function.update s.wfd.fds i { s.wfd.fds i with events := POLLIN } } }) := by
  have hcell : ∀ k, Server.cell { s with wfd := { s.wfd with
      fds := Function.update s.wfd.fds i { s.wfd.fds i with events := POLLIN } } } k =
        s.cell k := by
    intro k
    rcases eq_or_ne k i with rfl | hne
    · simp [Server.cell]
    · simp [Server.cell, hne]
  have hrev : ∀ k, (Function.update s.wfd.fds i { s.wfd.fds i with events := POLLIN } k).revents =
      (s.wfd.fds k).revents := by
    intro k
    rcases eq_or_ne k i with rfl | hne
    · simp
    · simp [hne]
  rw [flag]
  cases hflag : s.compressPollfd with
  | true =>
    exact ⟨⟨rfl, rfl⟩, fun k hk => (cell_punch_of_ne _ hk).trans (hcell k),
      fun k => (revents_punch _ i k).trans (hrev k), Or.inl (cell_punch_self _ i), False.elim,
      fun _ => ⟨rfl, hflag.symm, fun h => absurd (hflag.symm.trans h) (by simp)⟩⟩
  | false =>
    exact ⟨⟨rfl, rfl⟩, fun k _ => hcell k, hrev, Or.inr (hcell i), False.elim,
      fun _ => ⟨rfl, hflag.symm, fun _ => hcell i⟩⟩

/-- `handle_command`, and what the sweep does with its answer. -/
theorem visited_handleCommand {clo : FiberClosure} {status : Scheduler.FiberStatus}
    {host : HostAnswer} {answer : Bool} (h : handleCommand i clo status host s = some (answer, t)) :
    Visited i (status ≠ .yield) s (flag i answer t) := by
  cases status with
  | yield =>
    obtain ⟨rfl, rfl⟩ := Prod.mk.inj (Option.some.inj h)
    simpa using visited_yield s i
  | ok | error | other =>
    obtain ⟨u, hu, hpair⟩ := Option.map_eq_some_iff.mp h
    obtain ⟨rfl, rfl⟩ := Prod.mk.inj hpair
    simpa using visited_done hu

/-! ### The visit -/

/-- A resumption of the listener. -/
theorem fiberResume_listener (hle : s.wfd.length ≤ s.wfd.capacity)
    (hcap : s.wfd.capacity < 2 ^ 32) (hfd : 4 ≤ s.fd) {status : Scheduler.FiberStatus}
    (h : fiberResume r i listenerFiber s = some (status, t)) :
    Appended s t (appended s r.accepts) ∧
      (status ≠ .yield ↔ (arrivals (s.wfd.capacity - s.wfd.length) r.accepts).2 = true) := by
  -- the kill signal is no descriptor
  have hkill : (s.emit (.resume listenerFiber s.fd)).fd ≠ FIBER_KILL_SIGNAL := by
    show s.fd ≠ _
    rw [FIBER_KILL_SIGNAL]
    omega
  rw [fiberResume, if_pos rfl, listener, if_neg hkill] at h
  obtain ⟨happ, hstatus⟩ :=
    acceptLoop_spec r.accepts (s.emit (.resume listenerFiber s.fd)) hle hcap h
  exact ⟨⟨happ.entries_eq, happ.revents_eq, happ.compressPollfd_eq, happ.capacity_eq,
    happ.allocated_eq⟩, hstatus⟩

/-- A resumption of another fiber leaves the table alone. -/
theorem fiberResume_of_ne {fiber : ℕ} (hfiber : fiber ≠ listenerFiber)
    {status : Scheduler.FiberStatus} (h : fiberResume r i fiber s = some (status, t)) :
    status = (r.stops i).status ∧ t.wfd = s.wfd ∧ t.fibers = s.fibers ∧
      t.compressPollfd = s.compressPollfd ∧ t.allocated = s.allocated := by
  rw [fiberResume, if_neg hfiber] at h
  obtain ⟨rfl, rfl⟩ := Prod.mk.inj (Option.some.inj h)
  exact ⟨rfl, rfl, rfl, rfl, rfl⟩

/-- **What a visit does**, by what the host reports for the entry. -/
inductive VisitCases (r : Round) (i : ℕ) (s : Server) : Bool → Server → Prop
  /-- Nothing is reported. -/
  | idle : r.revents i = 0 → VisitCases r i s true s
  /-- The entry hangs up. -/
  | hungUp {t : Server} : r.HangsUp i → Visited i True s t → VisitCases r i s true t
  /-- The sweep ends. -/
  | broken : r.Breaks i → VisitCases r i s false { s with endServer := true }
  /-- The fiber is resumed, and its entry goes if it does not yield. -/
  | resumed {status : Scheduler.FiberStatus} {t u : Server} : r.Readable i → 4 ≤ (s.wfd.fds i).fd →
      fiberResume r i (s.fibers i).fiber { s with fd := (s.wfd.fds i).fd } = some (status, t) →
      Visited i (status ≠ .yield) t u → VisitCases r i s true u

theorem visitCases_of_visit (hrev : (s.wfd.fds i).revents = r.revents i) {go : Bool}
    (h : visit r i s = some (go, t)) : VisitCases r i s go t := by
  rw [visit, hrev] at h
  split_ifs at h with hzero hhup hin
  · obtain ⟨rfl, rfl⟩ := Prod.mk.inj (Option.some.inj h)
    exact .idle hzero
  · obtain ⟨rfl, rfl⟩ := Prod.mk.inj (Option.some.inj h)
    exact .hungUp hhup (visited_hangUp s i)
  · obtain ⟨rfl, rfl⟩ := Prod.mk.inj (Option.some.inj h)
    exact .broken ⟨hzero, not_not.mp hhup, hin⟩
  · obtain ⟨u, hu, hpair⟩ := Option.map_eq_some_iff.mp h
    obtain ⟨rfl, rfl⟩ := Prod.mk.inj hpair
    rw [resumeEntry] at hu
    split_ifs at hu with hfd
    obtain ⟨⟨status, v⟩, hresume, hhandle⟩ := Option.bind_eq_some_iff.mp hu
    obtain ⟨⟨answer, w⟩, hcommand, rfl⟩ := Option.map_eq_some_iff.mp hhandle
    exact .resumed ⟨not_not.mp hhup, hin⟩ hfd hresume (visited_handleCommand hcommand)

end FiberServer

end Waeio
