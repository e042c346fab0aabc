import Waeio.FiberServer.Keep

/-!
# What a removal releases

A round that takes an entry away is to free its fiber and to close its descriptor, once
each, and to do neither for an entry that stays (`Waeio.FiberServer.ReleasesBoth`).

There are three ways to take an entry away, and the event log tells them apart: the two
branches of `handle_command` for a fiber that is done free the fiber and close the
descriptor, and the branch of the sweep for an entry that hung up only frees the fiber.
`Waeio.FiberServer.Released` is what the log has gained when the sweep has come to an entry.
So a round releases everything exactly when it meets no entry that hung up.
-/

namespace Waeio

namespace FiberServer

open HostPoll

variable {s s₀ t u v : Server} {r : Round} {l : List Entry} {i n : ℕ}

/-! ### The log -/

/-- The fibers freed, the last one first. -/
def frees (evs : List Event) : List ℕ :=
  evs.filterMap fun
    | .free f => some f
    | _ => none

/-- The descriptors closed, the last one first. -/
def closes (evs : List Event) : List ℤ :=
  evs.filterMap fun
    | .call (.close fd) => some fd
    | _ => none

/-- **Nothing is released between two states.** -/
def Idle (s t : Server) : Prop :=
  frees t.events = frees s.events ∧ closes t.events = closes s.events

theorem Idle.refl (s : Server) : Idle s s := ⟨rfl, rfl⟩

theorem Idle.trans (h : Idle s t) (h' : Idle t u) : Idle s u :=
  ⟨h'.1.trans h.1, h'.2.trans h.2⟩

/-- An event that releases nothing. -/
theorem idle_emit {e : Event} (hfree : frees [e] = []) (hclose : closes [e] = [])
    (h : t.events = e :: s.events) : Idle s t := by
  have hcons : e :: s.events = [e] ++ s.events := rfl
  rw [Idle, h, hcons, frees, closes, List.filterMap_append, List.filterMap_append]
  exact ⟨congrArg (· ++ frees s.events) hfree, congrArg (· ++ closes s.events) hclose⟩

/-! ### The parts of a round -/

/-- The listener releases nothing. -/
theorem idle_acceptLoop (hosts : List HostAnswer) (s : Server)
    (hle : s.wfd.length ≤ s.wfd.capacity) (hcap : s.wfd.capacity < 2 ^ 32)
    {status : Scheduler.FiberStatus} (h : acceptLoop s hosts = some (status, t)) : Idle s t := by
  induction hosts generalizing s with
  | nil =>
    rw [acceptLoop] at h
    split_ifs at h <;> obtain ⟨rfl, rfl⟩ := Prod.mk.inj (Option.some.inj h)
    · exact .refl s
    · exact idle_emit rfl rfl rfl
  | cons host hosts ih =>
    rcases Nat.eq_or_lt_of_le hle with hfull | hlt
    · rw [acceptLoop_of_full hfull] at h
      obtain ⟨rfl, rfl⟩ := Prod.mk.inj (Option.some.inj h)
      exact .refl s
    by_cases hneg : host.ret < 0
    · rw [acceptLoop_of_neg hlt hneg] at h
      split_ifs at h <;> obtain ⟨rfl, rfl⟩ := Prod.mk.inj (Option.some.inj h)
      · exact idle_emit rfl rfl rfl
      · exact idle_emit rfl rfl rfl
    · rw [acceptLoop_of_nonneg hlt hcap hneg] at h
      split_ifs at h
      have hone : Idle s ((s.accepted host.ret).emit (.call (.accept s.fd))) :=
        idle_emit rfl rfl rfl
      exact hone.trans (ih _ hlt hcap h)

/-- Nor does a fiber that is resumed. -/
theorem idle_fiberResume (hle : s.wfd.length ≤ s.wfd.capacity) (hcap : s.wfd.capacity < 2 ^ 32)
    {fiber : ℕ} {status : Scheduler.FiberStatus} (h : fiberResume r i fiber s = some (status, t)) :
    Idle s t := by
  have hone : Idle s (s.emit (.resume fiber s.fd)) := idle_emit rfl rfl rfl
  rw [fiberResume] at h
  split_ifs at h
  · rw [listener] at h
    split_ifs at h
    · obtain ⟨rfl, rfl⟩ := Prod.mk.inj (Option.some.inj h)
      exact hone
    · exact hone.trans (idle_acceptLoop _ _ hle hcap h)
  · obtain ⟨rfl, rfl⟩ := Prod.mk.inj (Option.some.inj h)
    exact hone

/-- Nor does the compaction. -/
theorem events_compact (s : Server) : (compact s).events = s.events := by
  rw [compact_eq]
  exact slots.compactFrom_keeps (P := fun t => t.events = s.events) _ (fun _ _ _ h => h)
    (fun _ h => h) _ _ rfl

/-- What `handle_command` releases, and what the sweep does with its answer. -/
theorem handleCommand_releases {clo : FiberClosure} {status : Scheduler.FiberStatus}
    {host : HostAnswer} {answer : Bool} (h : handleCommand i clo status host s = some (answer, t)) :
    if status = .yield then Idle s (flag i answer t)
    else frees (flag i answer t).events = clo.fiber :: frees s.events ∧
      closes (flag i answer t).events = clo.fd :: closes s.events := by
  have hflag (b : Bool) (w : Server) : (flag i b w).events = w.events := by
    rw [flag]
    split_ifs <;> rfl
  have hdone {w : Server} (hw : handleDone i clo host s = some w) :
      frees w.events = clo.fiber :: frees s.events ∧
        closes w.events = clo.fd :: closes s.events := by
    rw [handleDone, wasioClose] at hw
    by_cases hneg : host.ret < 0
    · simp [hneg, translateError_ne_ok] at hw
    · simp only [hneg, if_false, if_true] at hw
      obtain rfl := Option.some.inj hw
      exact ⟨rfl, rfl⟩
  rw [hflag]
  cases status with
  | yield =>
    obtain ⟨rfl, rfl⟩ := Prod.mk.inj (Option.some.inj h)
    rw [if_pos rfl, Idle, hflag]
    exact ⟨rfl, rfl⟩
  | ok | error | other =>
    obtain ⟨w, hw, hpair⟩ := Option.map_eq_some_iff.mp h
    obtain ⟨rfl, rfl⟩ := Prod.mk.inj hpair
    rw [if_neg (by decide)]
    exact ⟨(hdone hw).1, (hdone hw).2⟩

/-- **What a visit releases**, by what the host reports for the entry. -/
theorem visit_releases (hrev : (s.wfd.fds i).revents = r.revents i)
    (hle : s.wfd.length ≤ s.wfd.capacity) (hcap : s.wfd.capacity < 2 ^ 32) {go : Bool}
    (h : visit r i s = some (go, t)) :
    (¬ r.HangsUp i ∧ ¬ r.Readable i ∧ Idle s t) ∨
    (r.HangsUp i ∧ frees t.events = (s.fibers i).fiber :: frees s.events ∧
      closes t.events = closes s.events) ∨
    (r.Readable i ∧ ∃ status u, 4 ≤ (s.wfd.fds i).fd ∧
      fiberResume r i (s.fibers i).fiber { s with fd := (s.wfd.fds i).fd } = some (status, u) ∧
      if status = .yield then Idle s t
      else frees t.events = (u.fibers i).fiber :: frees s.events ∧
        closes t.events = (u.fibers i).fd :: closes s.events) := by
  rw [visit, hrev] at h
  split_ifs at h with hzero hhup hin
  · obtain ⟨rfl, rfl⟩ := Prod.mk.inj (Option.some.inj h)
    refine Or.inl ⟨fun hh => hh ?_, fun hh => hh.2 ?_, .refl _⟩ <;> rw [hzero] <;>
      exact BitVec.zero_and
  · obtain ⟨rfl, rfl⟩ := Prod.mk.inj (Option.some.inj h)
    exact Or.inr (Or.inl ⟨hhup, rfl, rfl⟩)
  · obtain ⟨rfl, rfl⟩ := Prod.mk.inj (Option.some.inj h)
    exact Or.inl ⟨hhup, fun hh => hh.2 hin, .refl _⟩
  · obtain ⟨w, hw, hpair⟩ := Option.map_eq_some_iff.mp h
    obtain ⟨rfl, rfl⟩ := Prod.mk.inj hpair
    rw [resumeEntry] at hw
    split_ifs at hw with hfd
    obtain ⟨⟨status, u⟩, hresume, hhandle⟩ := Option.bind_eq_some_iff.mp hw
    obtain ⟨⟨answer, x⟩, hcommand, rfl⟩ := Option.map_eq_some_iff.mp hhandle
    have hidle : Idle s u :=
      idle_fiberResume (s := { s with fd := (s.wfd.fds i).fd }) hle hcap hresume
    have hrel := handleCommand_releases hcommand
    refine Or.inr (Or.inr ⟨⟨not_not.mp hhup, hin⟩, status, u, hfd, hresume, ?_⟩)
    split_ifs at hrel ⊢
    · exact hidle.trans hrel
    · rw [← hidle.1, ← hidle.2]
      exact hrel

/-! ### The sweep -/

/-- What the fiber of a readable entry does, when it is not the listener. -/
theorem resumed_iff_done (hcell : s.cell i = s₀.cell i)
    (hne : (s₀.fibers i).fiber ≠ listenerFiber) {status : Scheduler.FiberStatus}
    (h : fiberResume r i (s.fibers i).fiber { s with fd := (s.wfd.fds i).fd } = some (status, u)) :
    (status = .yield ↔ ¬ Done s₀ r i) ∧ u.fibers i = s₀.fibers i := by
  have hfiber : s.fibers i = s₀.fibers i := congrArg Entry.closure hcell
  rw [hfiber] at h
  obtain ⟨rfl, -, hfibers, -, -⟩ := fiberResume_of_ne hne h
  rw [Done, if_neg hne, not_not, hfibers]
  exact ⟨Iff.rfl, hfiber⟩

/-- What the listener does. -/
theorem listener_iff_done (hentries : s.entries = s₀.entries)
    (hcapacity : s.wfd.capacity = s₀.wfd.capacity) (hpos : 0 < s₀.wfd.length)
    (hle : s.wfd.length ≤ s.wfd.capacity) (hcap : s.wfd.capacity < 2 ^ 32)
    (hfd : 4 ≤ (s.wfd.fds 0).fd) (hfiber : (s₀.fibers 0).fiber = listenerFiber)
    {status : Scheduler.FiberStatus}
    (h : fiberResume r 0 (s.fibers 0).fiber { s with fd := (s.wfd.fds 0).fd } = some (status, u)) :
    (status = .yield ↔ ¬ Done s₀ r 0) ∧ u.fibers 0 = s₀.fibers 0 := by
  have hlen : s.wfd.length = s₀.wfd.length := by
    rw [← length_entries, hentries, length_entries]
  have hcell (w : Server) (hw : 0 < w.wfd.length) : w.entries[0]? = some (w.cell 0) :=
    Compact.getElem?_row hw
  have hold : s.cell 0 = s₀.cell 0 := by
    have hzero := hcell s (hlen ▸ hpos)
    rw [hentries, hcell s₀ hpos] at hzero
    exact (Option.some.inj hzero).symm
  rw [show s.fibers 0 = s₀.fibers 0 from congrArg Entry.closure hold, hfiber] at h
  obtain ⟨happ, hstatus⟩ := fiberResume_listener (s := { s with fd := (s.wfd.fds 0).fd }) hle hcap
    hfd h
  refine ⟨?_, ?_⟩
  · rw [Done, if_pos hfiber, ← hlen, ← hcapacity, ← hstatus]
    exact not_not.symm
  · have hulen : 0 < u.wfd.length := by
      rw [← length_entries, happ.entries_eq, List.length_append]
      have hs : (Server.entries { s with fd := (s.wfd.fds 0).fd }).length = s.wfd.length :=
        length_entries _
      omega
    have hzero := hcell u hulen
    rw [happ.entries_eq, List.getElem?_append_left, show
      (Server.entries { s with fd := (s.wfd.fds 0).fd })[0]? = some (s.cell 0) from
        hcell s (hlen ▸ hpos), hold] at hzero
    · exact (congrArg Entry.closure (Option.some.inj hzero)).symm
    · rw [length_entries]
      exact hlen ▸ hpos

/-- The fibers of the entries below `i` that the round takes away. -/
def goneFibers (s : Server) (r : Round) (i : ℕ) : List ℕ :=
  ((List.range i).filter fun k => Removed s r k).map fun k => (s.fibers k).fiber

/-- The descriptors of those that did not hang up. -/
def goneFds (s : Server) (r : Round) (i : ℕ) : List ℤ :=
  ((List.range i).filter fun k => Removed s r k ∧ ¬ r.HangsUp k).map fun k => (s.fibers k).fd

/-- **What the sweep has released** when it has come to the entry `i`. -/
structure Released (s₀ : Server) (r : Round) (i : ℕ) (s : Server) : Prop where
  frees_eq : frees s.events = (goneFibers s₀ r i).reverse ++ frees s₀.events
  closes_eq : closes s.events = (goneFds s₀ r i).reverse ++ closes s₀.events

theorem goneFibers_succ (s : Server) (r : Round) (i : ℕ) :
    goneFibers s r (i + 1) =
      goneFibers s r i ++ if Removed s r i then [(s.fibers i).fiber] else [] := by
  rw [goneFibers, goneFibers, List.range_succ, List.filter_append, List.map_append]
  by_cases h : Removed s r i <;> simp [h]

theorem goneFds_succ (s : Server) (r : Round) (i : ℕ) :
    goneFds s r (i + 1) =
      goneFds s r i ++ if Removed s r i ∧ ¬ r.HangsUp i then [(s.fibers i).fd] else [] := by
  rw [goneFds, goneFds, List.range_succ, List.filter_append, List.map_append]
  by_cases h : Removed s r i ∧ ¬ r.HangsUp i <;> simp [h]

/-- The round takes nothing away beyond the entry the sweep ends at. -/
theorem Released.skip (h : Released s₀ r i s) (hin : i ≤ n)
    (hstay : ∀ k < n, i ≤ k → ¬ Removed s₀ r k) : Released s₀ r n s := by
  induction n, hin using Nat.le_induction with
  | base => exact h
  | succ n hin ih =>
    obtain ⟨hfrees, hcloses⟩ := ih fun k hk => hstay k (by omega)
    have hn := hstay n (Nat.lt_succ_self n) hin
    refine ⟨?_, ?_⟩
    · rw [goneFibers_succ, if_neg hn, List.append_nil, hfrees]
    · rw [goneFds_succ, if_neg fun hh => hn hh.1, List.append_nil, hcloses]

/-- **A visit** of an entry that is as it was before the round, where the fiber does what the
round says. -/
theorem Released.visit (h : Released s₀ r i s) (hreach : r.Reaches i)
    (hrev : (s.wfd.fds i).revents = r.revents i) (hle : s.wfd.length ≤ s.wfd.capacity)
    (hcap : s.wfd.capacity < 2 ^ 32) (hcell : s.fibers i = s₀.fibers i)
    (hdone : 4 ≤ (s.wfd.fds i).fd → ∀ status u,
      fiberResume r i (s.fibers i).fiber { s with fd := (s.wfd.fds i).fd } = some (status, u) →
      r.Readable i → (status = .yield ↔ ¬ Done s₀ r i) ∧ u.fibers i = s₀.fibers i)
    {go : Bool} (hv : FiberServer.visit r i s = some (go, t)) : Released s₀ r (i + 1) t := by
  rcases visit_releases hrev hle hcap hv with ⟨hhup, hread, hidle⟩ | ⟨hhup, hfree, hclose⟩ |
    ⟨hread, status, u, hfd, hresume, hrel⟩
  · -- the entry stays, whether or not the sweep goes on
    have hstays : ¬ Removed s₀ r i := fun hR => hR.2.elim hhup fun hr => hread hr.1
    refine ⟨?_, ?_⟩
    · rw [goneFibers_succ, if_neg hstays, List.append_nil, hidle.1, h.frees_eq]
    · rw [goneFds_succ, if_neg fun hh => hstays hh.1, List.append_nil, hidle.2, h.closes_eq]
  · have hR : Removed s₀ r i := ⟨hreach, Or.inl hhup⟩
    refine ⟨?_, ?_⟩
    · rw [goneFibers_succ, if_pos hR, hfree, h.frees_eq, hcell]
      simp
    · rw [goneFds_succ, if_neg fun hh => hh.2 hhup, List.append_nil, hclose, h.closes_eq]
  · obtain ⟨hyield, hfibers⟩ := hdone hfd status u hresume hread
    have hhup := not_hangsUp_of_readable hread
    by_cases hD : Done s₀ r i
    · have hR : Removed s₀ r i := ⟨hreach, Or.inr ⟨hread, hD⟩⟩
      rw [if_neg fun hy => (hyield.mp hy) hD, hfibers] at hrel
      refine ⟨?_, ?_⟩
      · rw [goneFibers_succ, if_pos hR, hrel.1, h.frees_eq]
        simp
      · rw [goneFds_succ, if_pos ⟨hR, hhup⟩, hrel.2, h.closes_eq]
        simp
    · have hstays : ¬ Removed s₀ r i := mt (removed_iff_done hreach hread).mp hD
      rw [if_pos (hyield.mpr hD)] at hrel
      refine ⟨?_, ?_⟩
      · rw [goneFibers_succ, if_neg hstays, List.append_nil, hrel.1, h.frees_eq]
      · rw [goneFds_succ, if_neg fun hh => hstays hh.1, List.append_nil, hrel.2, h.closes_eq]

/-- The table has its size in the sweep. -/
theorem Swept.sized (h : Swept s₀ r l i s) :
    s.wfd.length ≤ s.wfd.capacity ∧ s.wfd.capacity < 2 ^ 32 := by
  have hcount := h.count
  have hle := h.length_le
  have hmax : MAX_CONNECTIONS < 2 ^ 32 := by decide
  have hcap := h.capacity_eq
  omega

/-- The entry the sweep has come to is as it was before the round. -/
theorem Swept.cell_eq (h : Swept s₀ r l i s) (hi : i < s₀.wfd.length) : s.cell i = s₀.cell i :=
  Option.some.inj ((h.ahead i (h.old_lt hi) le_rfl).symm.trans (h.old i hi))

/-- **The visits of the entries that are not the listener's.** -/
theorem Released.sweep (k : ℕ) (h : Swept s₀ r l i s) (hrel : Released s₀ r i s)
    (hik : i + k = s₀.wfd.length) (hreach : k ≠ 0 → r.Reaches i)
    (hne : ∀ j < s₀.wfd.length, i ≤ j → r.Readable j → (s₀.fibers j).fiber ≠ listenerFiber)
    (hsweep : FiberServer.sweep r k i s = some t) : Released s₀ r s₀.wfd.length t := by
  induction k generalizing i s with
  | zero =>
    obtain rfl : i = s₀.wfd.length := hik
    obtain rfl := Option.some.inj hsweep
    exact hrel
  | succ k ih =>
    have hi : i < s₀.wfd.length := by omega
    have hcell := h.cell_eq hi
    have hvisit {go : Bool} {w : Server} (hv : FiberServer.visit r i s = some (go, w)) :
        Released s₀ r (i + 1) w :=
      hrel.visit (hreach (by simp)) (h.revents_eq i hi) h.sized.1 h.sized.2
        (congrArg Entry.closure hcell)
        (fun _ _ _ hresume hread => resumed_iff_done hcell (hne i hi le_rfl hread) hresume) hv
    rw [FiberServer.sweep] at hsweep
    split at hsweep
    · exact absurd hsweep (by simp)
    · rename_i w hv
      obtain rfl := Option.some.inj hsweep
      obtain ⟨-, hgo⟩ := h.visit hi (hreach (by simp)) (hne i hi le_rfl) hv
      exact (hvisit hv).skip hi fun j _ hj => not_removed_of_breaks (hgo.mp rfl) (by omega)
    · rename_i w hv
      obtain ⟨hnext, hgo⟩ := h.visit hi (hreach (by simp)) (hne i hi le_rfl) hv
      refine ih hnext (hvisit hv) (by omega) (fun _ => ⟨(hreach (by simp)).1, ?_⟩)
        (fun j hj hij => hne j hj (by omega)) hsweep
      intro j hj hb
      rcases Nat.lt_succ_iff_lt_or_eq.mp hj with hlt | rfl
      · exact (hreach (by simp)).2 j hlt hb
      · exact absurd (hgo.mpr hb) (by simp)

/-- **The sweep of a dense table**, with the listener resumed first where it is. -/
theorem Dense.released (h : Dense s) (hret : 0 < r.host.ret) (hpolled : Polled r s u)
    (hidle : Idle s u) (hsweep : sweep r s.wfd.length 0 u = some v) :
    Released s r s.wfd.length v := by
  have hreach : r.Reaches 0 := ⟨hret, fun j hj => absurd hj (Nat.not_lt_zero j)⟩
  have hzero := h.swept_zero hpolled
  have hstart : Released s r 0 u := ⟨hidle.1, hidle.2⟩
  by_cases hlisten : Listens s r
  · obtain ⟨k, hk⟩ : ∃ k, s.wfd.length = k + 1 := Nat.exists_eq_succ_of_ne_zero hlisten.1.ne'
    obtain ⟨hpos, -, hread, hfiber⟩ := hlisten
    have hvisit {go : Bool} {w : Server} (hv : visit r 0 u = some (go, w)) : Released s r 1 w :=
      hstart.visit hreach (hpolled.revents_eq 0 hpos) hzero.sized.1 hzero.sized.2
        (congrArg Entry.closure (congrFun hpolled.cell_eq 0))
        (fun hfd _ _ hresume _ => listener_iff_done hpolled.entries_eq hpolled.framed.capacity_eq
          hpos hzero.sized.1 hzero.sized.2 hfd hfiber hresume) hv
    have hlistens : Listens s r := ⟨hpos, hreach, hread, hfiber⟩
    have hafter {go : Bool} {w : Server} (hv : visit r 0 u = some (go, w)) :=
      hzero.visit_listener hlistens hpolled.entries_eq hpolled.framed.allocated_eq h.capacity_eq hv
    rw [hk, FiberServer.sweep] at hsweep
    split at hsweep
    · exact absurd hsweep (by simp)
    · rename_i hv
      exact absurd (hafter hv).2 (by simp)
    · rename_i w hv
      refine Released.sweep k (hafter hv).1 (hvisit hv) (by omega) (fun _ => ⟨hret, ?_⟩)
        (fun j hj hpos _ => h.fiber_ne hj hpos) hsweep
      intro j hj hb
      obtain rfl : j = 0 := by omega
      exact hread.2 hb.2.2
  · refine Released.sweep _ hzero hstart (Nat.zero_add _) (fun _ => hreach)
      (fun j hj _ hread => ?_) hsweep
    rcases Nat.eq_zero_or_pos j with rfl | hpos
    · exact fun hfiber => hlisten ⟨hj, hreach, hread, hfiber⟩
    · exact h.fiber_ne hj hpos

/-! ### The round -/

theorem idle_poll (r : Round) (s : Server) : Idle s (poll r s).2.2 := by
  have hcall : (poll r s).2.2.events = .call (.poll s.wfd.length timeout) :: s.events := by
    rw [poll, wasioPoll]
    split_ifs <;> rfl
  exact idle_emit rfl rfl hcall

/-- **What a round releases.** -/
theorem Dense.released_round (h : Dense s) (htr : Tr s r t) : Released s r s.wfd.length t := by
  have hidle := idle_poll r s
  rcases requestLoop_cases htr with ⟨hret, -, -, hevents⟩ |
    ⟨hret, u, v, hpolled, rfl, hsweep, rfl⟩
  · have hstart : Released s r 0 t := by
      rw [Idle, ← hevents] at hidle
      exact ⟨hidle.1, hidle.2⟩
    exact hstart.skip (Nat.zero_le _) fun k _ _ hR => absurd hR.1.1 (not_lt.mpr hret)
  · obtain ⟨hfrees, hcloses⟩ := h.released hret hpolled hidle hsweep
    have hevents : (if v.compressPollfd then compact v else v).events = v.events := by
      split_ifs
      · exact events_compact v
      · rfl
    exact ⟨by rw [hevents, hfrees], by rw [hevents, hcloses]⟩

/-- What is in the table after a round was there before, and was not taken away, or is new. -/
theorem Dense.mem_round (h : Dense s) (htr : Tr s r t) {e : Entry} (he : e ∈ t.entries) :
    e ∈ kept s r ∨ e ∈ fresh s r := by
  rcases requestLoop_cases htr with ⟨hret, hentries, -⟩ |
    ⟨hret, u, v, hpolled, rfl, hsweep, rfl⟩
  · rw [hentries] at he
    obtain ⟨k, hk, rfl⟩ := Compact.mem_row.mp he
    refine Or.inl (List.mem_map.mpr ⟨k, List.mem_filter.mpr ⟨List.mem_range.mpr hk, ?_⟩, rfl⟩)
    exact decide_eq_true fun hR => absurd hR.1.1 (not_lt.mpr hret)
  · have hswept := h.swept hret hpolled hsweep
    rw [hswept.entries_compact h] at he
    obtain ⟨hmem, hhole⟩ := List.mem_filter.mp he
    obtain ⟨k, hk, rfl⟩ := Compact.mem_row.mp hmem
    have hhole' : ¬ (v.cell k).isHole = true := by simpa using hhole
    have hget := hswept.getElem?_of_not_hole hk hhole'
    rcases Nat.lt_or_ge k s.wfd.length with hlt | hge
    · have hcell : v.cell k = s.cell k := Option.some.inj (hget.symm.trans (hswept.old k hlt))
      rw [hcell]
      refine Or.inl (List.mem_map.mpr ⟨k, List.mem_filter.mpr ⟨List.mem_range.mpr hlt, ?_⟩, rfl⟩)
      exact decide_eq_true fun hR => hhole' (hswept.removed k hlt hR)
    · rw [List.getElem?_append_right (by rwa [length_entries])] at hget
      exact Or.inr (List.mem_of_getElem? hget)

/-- The fibers of two entries differ. -/
theorem Dense.fiber_inj (h : Dense s) {j k : ℕ} (hj : j < s.wfd.length) (hk : k < s.wfd.length)
    (heq : (s.fibers j).fiber = (s.fibers k).fiber) : j = k := by
  have hnodup := h.nodup
  rw [Server.entries, Compact.row, List.map_map] at hnodup
  exact List.inj_on_of_nodup_map hnodup (List.mem_range.mpr hj) (List.mem_range.mpr hk) heq

/-! ### Runs -/

/-- **What the table holds**: each entry has the descriptor its fiber was made for, and no
fiber that was freed. -/
structure Held (s : Server) : Prop where
  paired : ∀ e ∈ s.entries, e.closure.fd = e.fd
  freed_le : ∀ f ∈ frees s.events, f ≤ s.allocated
  freed_ne : ∀ f ∈ frees s.events, ∀ e ∈ s.entries, e.closure.fiber ≠ f

theorem paired_entriesFrom {fiber : ℕ} {fds : List ℤ} {e : Entry} (h : e ∈ entriesFrom fiber fds) :
    e.closure.fd = e.fd := by
  induction fds generalizing fiber with
  | nil => exact absurd h (by simp [entriesFrom])
  | cons fd fds ih =>
    rcases List.mem_cons.mp h with rfl | h
    · rfl
    · exact ih h

theorem paired_fresh {e : Entry} (h : e ∈ fresh s r) : e.closure.fd = e.fd := by
  rcases fresh_eq_nil_or s r with hnil | ⟨-, happ⟩
  · exact absurd h (by simp [hnil])
  · rw [happ] at h
    exact paired_entriesFrom h

theorem mem_kept {e : Entry} :
    e ∈ kept s r ↔ ∃ k < s.wfd.length, ¬ Removed s r k ∧ s.cell k = e := by
  simp [kept, and_assoc]

theorem mem_goneFibers {f : ℕ} :
    f ∈ goneFibers s r n ↔ ∃ k < n, Removed s r k ∧ (s.fibers k).fiber = f := by
  simp [goneFibers, and_assoc]

/-- An entry that stays has another fiber than those freed. -/
theorem Dense.kept_ne (h : Dense s) {e : Entry} (he : e ∈ kept s r) :
    e.closure.fiber ∉ goneFibers s r s.wfd.length := by
  obtain ⟨k, hk, hstays, rfl⟩ := mem_kept.mp he
  intro hf
  obtain ⟨j, hj, hR, heq⟩ := mem_goneFibers.mp hf
  exact hstays (h.fiber_inj hj hk heq ▸ hR)

theorem allocated_round (h : Dense s) (htr : Tr s r t) : s.allocated ≤ t.allocated := by
  rcases requestLoop_cases htr with ⟨-, -, hframed, -⟩ | ⟨hret, u, v, hpolled, -, hsweep, rfl⟩
  · exact hframed.allocated_eq.ge
  · have hswept := h.swept hret hpolled hsweep
    refine hswept.allocated_le.trans (le_of_eq ?_)
    split_ifs
    · exact (framed_compact v).allocated_eq.symm
    · rfl

theorem Held.step (hd : Dense s) (h : Held s) (htr : Tr s r t) : Held t := by
  have hfrees := (hd.released_round htr).frees_eq
  have halloc := allocated_round hd htr
  have hgone {f : ℕ} (hf : f ∈ goneFibers s r s.wfd.length) : f ≤ s.allocated := by
    obtain ⟨k, hk, -, rfl⟩ := mem_goneFibers.mp hf
    exact hd.fiber_le (s.cell k) (Compact.mem_row.mpr ⟨k, hk, rfl⟩)
  have hmem {f : ℕ} (hf : f ∈ frees t.events) :
      f ∈ goneFibers s r s.wfd.length ∨ f ∈ frees s.events := by
    rw [hfrees] at hf
    simpa using hf
  have hle {f : ℕ} (hf : f ∈ frees t.events) : f ≤ s.allocated :=
    (hmem hf).elim hgone (h.freed_le f)
  refine ⟨fun e he => ?_, fun f hf => (hle hf).trans halloc, fun f hf e he => ?_⟩
  · rcases hd.mem_round htr he with hkept | hfresh
    · obtain ⟨k, hk, -, rfl⟩ := mem_kept.mp hkept
      exact h.paired _ (Compact.mem_row.mpr ⟨k, hk, rfl⟩)
    · exact paired_fresh hfresh
  · rcases hd.mem_round htr he with hkept | hfresh
    · rintro rfl
      rcases hmem hf with hg | hold
      · exact hd.kept_ne hkept hg
      · obtain ⟨k, hk, -, heq⟩ := mem_kept.mp hkept
        exact h.freed_ne _ hold e (Compact.mem_row.mpr ⟨k, hk, heq⟩) rfl
    · -- a new fiber was never freed
      have hlt := (fiber_of_mem_fresh hfresh).1
      have hf := hle hf
      omega

theorem held_serverMain {host : HostAnswer} (h : serverMain host = some s) : Held s := by
  obtain ⟨-, hentries, -, -⟩ := serverMain_spec h
  have hfrees : frees s.events = [] := by
    rw [serverMain, wasioListen, if_pos (by decide)] at h
    by_cases hneg : host.ret < 0
    · rw [if_pos hneg] at h
      cases herr : translateError host.errno <;> rw [herr] at h <;> exact absurd h (by simp)
    · rw [if_neg hneg, append_of_lt (by decide) (by decide)] at h
      obtain rfl := Option.some.inj h
      rfl
  refine ⟨?_, by simp [hfrees], by simp [hfrees]⟩
  rw [hentries, List.forall_mem_singleton]

/-! ### The result -/

/-- **The entries a round takes away.** -/
def removed (s : Server) (r : Round) : List Entry :=
  ((List.range s.wfd.length).filter fun i => Removed s r i).map s.cell

/-- **The round releases both**: the fibers it frees and the descriptors it closes are those of
the entries it takes away, one each, and no fiber in the table is ever freed before. -/
structure ReleasesBoth (s : Server) (r : Round) (t : Server) : Prop where
  freed : ∃ new, frees t.events = new ++ frees s.events ∧
    new.Perm ((removed s r).map fun e => e.closure.fiber)
  closed : ∃ new, closes t.events = new ++ closes s.events ∧
    new.Perm ((removed s r).map fun e => e.fd)
  once : ∀ e ∈ removed s r, (frees t.events).count e.closure.fiber = 1
  stays : ∀ e ∈ kept s r, e.closure.fiber ∉ frees t.events

/-- **The sweep meets no entry that hung up.** -/
def NoHangUp (s : Server) (r : Round) : Prop :=
  ∀ i < s.wfd.length, r.Reaches i → ¬ r.HangsUp i

instance (s : Server) (r : Round) : Decidable (NoHangUp s r) :=
  inferInstanceAs (Decidable (∀ i < s.wfd.length, _ → _))

theorem map_fiber_removed (s : Server) (r : Round) :
    ((removed s r).map fun e => e.closure.fiber) = goneFibers s r s.wfd.length := by
  rw [removed, List.map_map]
  rfl

/-- Where the table is in order, the descriptors that are closed are those in the table. -/
theorem Held.goneFds_eq (h : Held s) : goneFds s r s.wfd.length =
    (((List.range s.wfd.length).filter fun k => Removed s r k).filter
      fun k => ¬ r.HangsUp k).map fun k => (s.cell k).fd := by
  rw [goneFds, List.filter_filter]
  refine (List.map_congr_left fun k hk => ?_).trans (congrArg (List.map _) ?_)
  · have hlt := List.mem_range.mp (List.mem_filter.mp hk).1
    exact h.paired (s.cell k) (Compact.mem_row.mpr ⟨k, hlt, rfl⟩)
  · refine List.filter_congr fun k _ => ?_
    rw [Bool.decide_and, Bool.and_comm]

theorem nodup_goneFibers (h : Dense s) : (goneFibers s r s.wfd.length).Nodup := by
  refine List.Nodup.map_on (fun j hj k hk heq => ?_) (List.nodup_range.filter _)
  exact h.fiber_inj (List.mem_range.mp (List.mem_filter.mp hj).1)
    (List.mem_range.mp (List.mem_filter.mp hk).1) heq

/-- **One round.** -/
theorem round_releases_iff (hd : Dense s) (h : Held s) (htr : Tr s r t) :
    ReleasesBoth s r t ↔ NoHangUp s r := by
  obtain ⟨hfrees, hcloses⟩ := hd.released_round htr
  constructor
  · intro hrel i hi hreach hhup
    obtain ⟨new, hnew, hperm⟩ := hrel.closed
    rw [hcloses] at hnew
    have hlen := hperm.length_eq
    rw [← List.append_cancel_right hnew, List.length_reverse, h.goneFds_eq, removed,
      List.length_map, List.length_map, List.length_map] at hlen
    have hall := List.length_filter_eq_length_iff.mp hlen i
      (List.mem_filter.mpr ⟨List.mem_range.mpr hi, decide_eq_true ⟨hreach, Or.inl hhup⟩⟩)
    exact of_decide_eq_true hall hhup
  · intro hno
    have hself : ((List.range s.wfd.length).filter fun k => Removed s r k).filter
        (fun k => ¬ r.HangsUp k) = (List.range s.wfd.length).filter fun k => Removed s r k := by
      refine List.filter_eq_self.mpr fun k hk => ?_
      obtain ⟨hlt, hR⟩ := List.mem_filter.mp hk
      exact decide_eq_true (hno k (List.mem_range.mp hlt) (of_decide_eq_true hR).1)
    refine ⟨⟨_, hfrees, ?_⟩, ⟨_, hcloses, ?_⟩, fun e he => ?_, fun e he hf => ?_⟩
    · rw [map_fiber_removed]
      exact List.reverse_perm _
    · rw [h.goneFds_eq, hself, removed, List.map_map]
      exact List.reverse_perm _
    · have hmem : e.closure.fiber ∈ goneFibers s r s.wfd.length := by
        rw [← map_fiber_removed]
        exact List.mem_map_of_mem he
      obtain ⟨k, hk, -, heq⟩ := mem_goneFibers.mp hmem
      have hold : e.closure.fiber ∉ frees s.events := fun hf =>
        h.freed_ne _ hf (s.cell k) (Compact.mem_row.mpr ⟨k, hk, rfl⟩) heq
      rw [hfrees, List.count_append, List.count_reverse, List.count_eq_zero_of_not_mem hold,
        List.count_eq_one_of_mem (nodup_goneFibers hd) hmem]
    · rw [hfrees] at hf
      rcases List.mem_append.mp hf with hf | hf
      · exact hd.kept_ne he (List.mem_reverse.mp hf)
      · obtain ⟨k, hk, -, heq⟩ := mem_kept.mp he
        exact h.freed_ne _ hf e (Compact.mem_row.mpr ⟨k, hk, heq⟩) rfl

/-- The entry `i` hangs up. -/
def hangsUp (i : ℕ) : Round where
  host := ⟨1, 0⟩
  revents k := if k = i then POLLHUP else 0
  accepts := []
  stops _ := ⟨.yield, false⟩
  closes _ := ⟨0, 0⟩

/-- **Not every removal releases both**: where the first of two clients hangs up, its fiber is
freed, and no descriptor is closed. -/
theorem not_round_releases :
    ∃ s₀ s t, serverMain ⟨4, 0⟩ = some s₀ ∧ Lts.Steps Tr s₀ [twoConnect] s ∧
      Tr s (hangsUp 1) t ∧ removed s (hangsUp 1) = [⟨5, ⟨2, 5⟩⟩] ∧
      frees t.events = [2] ∧ closes t.events = [] ∧ ¬ ReleasesBoth s (hangsUp 1) t := by
  obtain ⟨s₀, h₀, s, hs, t, ht, hgone, hfrees, hcloses, hbefore⟩ :
      ∃ s₀ ∈ serverMain ⟨4, 0⟩,
        ∃ s ∈ Lts.exec (fun s r => requestLoop r s) s₀ [twoConnect],
          ∃ t ∈ requestLoop (hangsUp 1) s, removed s (hangsUp 1) = [⟨5, ⟨2, 5⟩⟩] ∧
            frees t.events = [2] ∧ closes t.events = [] ∧ closes s.events = [] := by
    decide +kernel
  refine ⟨s₀, s, t, h₀, Lts.exec_eq_some_iff.mp hs, ht, hgone, hfrees, hcloses, fun hrel => ?_⟩
  obtain ⟨new, hnew, hperm⟩ := hrel.closed
  rw [hcloses, hbefore, List.append_nil] at hnew
  rw [← hnew, hgone] at hperm
  exact absurd hperm.length_eq (by decide)

end FiberServer

open FiberServer

/-- **When removal releases both resources**: in a run all rounds do exactly when none of them
meets an entry that hung up. -/
theorem releasesBoth_iff (host : HostAnswer) (s₀ s : FiberServer.Server)
    (l : List FiberServer.Round) (h : serverMain host = some s₀) :
    Lts.Steps (Lts.Upheld FiberServer.Tr ReleasesBoth) s₀ l s ↔
      Lts.Steps (Lts.Guarded FiberServer.Tr NoHangUp) s₀ l s :=
  Lts.steps_upheld_iff_guarded (I := fun s => Dense s ∧ Held s) (F := ReleasesBoth)
    (C := NoHangUp) (fun _ _ _ hI htr _ => ⟨hI.1.step htr, hI.2.step hI.1 htr⟩)
    (fun _ _ _ hI htr => round_releases_iff hI.1 hI.2 htr)
    ⟨dense_serverMain h, held_serverMain h⟩

/-- Two clients connect, and the first of them is done. -/
theorem releasesBoth_iff_finishes_first :
    ∃ s₀ s, serverMain ⟨4, 0⟩ = some s₀ ∧
      Lts.Steps (Lts.Upheld FiberServer.Tr ReleasesBoth) s₀ [twoConnect, finishes 1] s := by
  obtain ⟨s₀, h₀, s, hs⟩ :
      ∃ s₀ ∈ serverMain ⟨4, 0⟩,
        ∃ s, Lts.exec (fun s r => if NoHangUp s r then requestLoop r s else none) s₀
          [twoConnect, finishes 1] = some s := by
    simp only [← Option.isSome_iff_exists]
    decide +kernel
  exact ⟨s₀, s, h₀, (releasesBoth_iff ⟨4, 0⟩ s₀ s _ h₀).mpr (Lts.guarded_of_exec hs)⟩

end Waeio
