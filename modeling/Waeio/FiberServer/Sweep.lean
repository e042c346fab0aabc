import Mathlib.Data.Nat.Count
import Waeio.FiberServer.Visit

/-!
# The sweep

Which entries a round takes away, and which it appends, is read off the state at
its start and the environment (`Waeio.FiberServer.Removed`,
`Waeio.FiberServer.fresh`): the listener is the first entry the sweep gets to, so
it appends before anything is taken away, and the sweep goes only through the
entries there were.

`Waeio.FiberServer.Swept` is the invariant. Of the row `l`, the old entries and then
the new ones, each entry is still at its index or is a hole; the removed ones are
holes, and an entry before the first removed one is not. But `length` is the length
of `l` less the number of the removed entries, and so the row in use has lost as
many entries at its end before the compaction begins.
-/

namespace Waeio

namespace FiberServer

open HostPoll

variable {s₀ s t : Server} {r : Round} {l : List Entry} {i n : ℕ}

/-! ### What a round takes away, and what it appends -/

/-- The sweep gets to the entry `i`. -/
def Round.Reaches (r : Round) (i : ℕ) : Prop := 0 < r.host.ret ∧ ∀ j < i, ¬r.Breaks j

/-- The fiber of the entry `i`, when it is resumed, does not yield. -/
def Done (s : Server) (r : Round) (i : ℕ) : Prop :=
  if (s.fibers i).fiber = listenerFiber then
    (arrivals (s.wfd.capacity - s.wfd.length) r.accepts).2 = true
  else (r.stops i).status ≠ .yield

/-- **The round takes the entry `i` away**: it hangs up, or its fiber finishes or
fails. -/
def Removed (s : Server) (r : Round) (i : ℕ) : Prop :=
  r.Reaches i ∧ (r.HangsUp i ∨ r.Readable i ∧ Done s r i)

/-- The listener is resumed. -/
def Listens (s : Server) (r : Round) : Prop :=
  0 < s.wfd.length ∧ r.Reaches 0 ∧ r.Readable 0 ∧ (s.fibers 0).fiber = listenerFiber

instance (r : Round) : DecidablePred r.HangsUp := fun _ => inferInstanceAs (Decidable (_ ≠ _))

instance (r : Round) : DecidablePred r.Readable := fun _ => inferInstanceAs (Decidable (_ ∧ _))

instance (r : Round) : DecidablePred r.Breaks := fun _ => inferInstanceAs (Decidable (_ ∧ _))

instance (r : Round) : DecidablePred r.Reaches := fun i =>
  inferInstanceAs (Decidable (_ ∧ ∀ j < i, ¬r.Breaks j))

instance (s : Server) (r : Round) : DecidablePred (Done s r) := fun _ =>
  inferInstanceAs (Decidable (if _ = _ then _ = _ else _ ≠ _))

instance (s : Server) (r : Round) : DecidablePred (Removed s r) := fun _ =>
  inferInstanceAs (Decidable (_ ∧ (_ ∨ _ ∧ _)))

instance (s : Server) (r : Round) : Decidable (Listens s r) :=
  inferInstanceAs (Decidable (_ ∧ _ ∧ _ ∧ _))

/-- **The entries the round appends.** -/
def fresh (s : Server) (r : Round) : List Entry :=
  if Listens s r then appended s r.accepts else []

/-- **The entries that stay.** -/
def kept (s : Server) (r : Round) : List Entry :=
  ((List.range s.wfd.length).filter fun i => ¬Removed s r i).map s.cell

theorem not_removed_of_breaks {j : ℕ} (h : r.Breaks j) (hle : j ≤ i) : ¬Removed s r i := by
  rintro ⟨hreach, hgone⟩
  rcases Nat.eq_or_lt_of_le hle with rfl | hlt
  · rcases hgone with hhup | ⟨hread, -⟩
    · exact hhup h.2.1
    · exact hread.2 h.2.2
  · exact hreach.2 j hlt h

/-! ### The invariant of the sweep -/

/-- **The sweep of the round `r`, begun in the state `s₀`, has gone through the
entries below `i`.** -/
structure Swept (s₀ : Server) (r : Round) (l : List Entry) (i : ℕ) (s : Server) : Prop where
  capacity_eq : s.wfd.capacity = MAX_CONNECTIONS
  length_le : l.length ≤ MAX_CONNECTIONS
  old : ∀ k < s₀.wfd.length, l[k]? = some (s₀.cell k)
  count : s.wfd.length + Nat.count (Removed s₀ r) i = l.length
  ahead : ∀ k < l.length, i ≤ k → l[k]? = some (s.cell k)
  behind : ∀ k < i, (s.cell k).isHole = true ∨ l[k]? = some (s.cell k)
  removed : ∀ k < i, Removed s₀ r k → (s.cell k).isHole = true
  early : ∀ k < i, (∀ j ≤ k, ¬Removed s₀ r j) → l[k]? = some (s.cell k)
  flag : s.compressPollfd = true ↔ ∃ j < i, Removed s₀ r j
  revents_eq : ∀ k < s₀.wfd.length, (s.wfd.fds k).revents = r.revents k
  fiber_le : ∀ e ∈ l, e.closure.fiber ≤ s.allocated
  allocated_le : s₀.allocated ≤ s.allocated

/-- At the start nothing is removed. -/
theorem swept_zero (hcap : s.wfd.capacity = MAX_CONNECTIONS) (hle : l.length ≤ MAX_CONNECTIONS)
    (hold : ∀ k < s₀.wfd.length, l[k]? = some (s₀.cell k)) (hentries : s.entries = l)
    (hflag : s.compressPollfd = false)
    (hrev : ∀ k < s₀.wfd.length, (s.wfd.fds k).revents = r.revents k)
    (hfiber : ∀ e ∈ l, e.closure.fiber ≤ s.allocated) (halloc : s₀.allocated ≤ s.allocated) :
    Swept s₀ r l 0 s where
  capacity_eq := hcap
  length_le := hle
  old := hold
  count := by rw [Nat.count_zero, ← hentries, length_entries, Nat.add_zero]
  ahead k hk _ := by
    rw [← hentries, length_entries] at hk
    rw [← hentries, Server.entries, Compact.getElem?_row hk]
  behind k hk := absurd hk (by omega)
  removed k hk := absurd hk (by omega)
  early k hk := absurd hk (by omega)
  flag := by simp [hflag]
  revents_eq := hrev
  fiber_le := hfiber
  allocated_le := halloc

theorem Swept.old_lt (h : Swept s₀ r l i s) {k : ℕ} (hk : k < s₀.wfd.length) : k < l.length :=
  (List.getElem?_eq_some_iff.mp (h.old k hk)).1

theorem Swept.size_le (h : Swept s₀ r l i s) : s₀.wfd.length ≤ l.length := by
  by_contra hlt
  have hself := h.old_lt (Nat.lt_of_not_le hlt)
  omega

/-- **A visit takes the invariant to the next entry.** -/
theorem Swept.visited (h : Swept s₀ r l i s) (hi : i < l.length) {gone : Prop}
    (hv : Visited i gone s t) (hgone : gone ↔ Removed s₀ r i) : Swept s₀ r l (i + 1) t := by
  have hcount : Nat.count (Removed s₀ r) i ≤ i := Nat.count_le _
  have hself := h.ahead i hi le_rfl
  refine ⟨hv.framed.capacity_eq.trans h.capacity_eq, h.length_le, h.old, ?_, ?_, ?_, ?_, ?_, ?_, ?_,
    ?_, ?_⟩
  · -- the length goes down exactly with a removed entry
    have hlen := h.count
    rw [Nat.count_succ]
    by_cases hR : Removed s₀ r i
    · rw [(hv.of_gone (hgone.mpr hR)).2.1, if_pos hR, Uint32.pred_of_pos (by omega)]
      omega
    · rw [(hv.of_stays (mt hgone.mp hR)).1, if_neg hR]
      exact hlen
  · intro k hk hik
    -- the entries ahead are not touched
    rw [hv.cell_of_ne k (by omega)]
    exact h.ahead k hk (by omega)
  · intro k hk
    rcases Nat.lt_succ_iff_lt_or_eq.mp hk with hlt | rfl
    · rw [hv.cell_of_ne k (Nat.ne_of_lt hlt)]
      exact h.behind k hlt
    · refine hv.cell_self.imp_right fun heq => ?_
      rw [heq]
      exact hself
  · intro k hk hR
    rcases Nat.lt_succ_iff_lt_or_eq.mp hk with hlt | rfl
    · rw [hv.cell_of_ne k (Nat.ne_of_lt hlt)]
      exact h.removed k hlt hR
    · exact (hv.of_gone (hgone.mpr hR)).1
  · intro k hk hR
    rcases Nat.lt_succ_iff_lt_or_eq.mp hk with hlt | rfl
    · rw [hv.cell_of_ne k (Nat.ne_of_lt hlt)]
      exact h.early k hlt hR
    · -- no entry before this one was removed, so the flag is down
      have hdown : s.compressPollfd = false := by
        rw [← Bool.not_eq_true, h.flag]
        rintro ⟨j, hj, hRj⟩
        exact hR j hj.le hRj
      rw [(hv.of_stays (mt hgone.mp (hR k le_rfl))).2.2 hdown]
      exact hself
  · -- the flag goes up with the first removed entry
    by_cases hR : Removed s₀ r i
    · exact iff_of_true (hv.of_gone (hgone.mpr hR)).2.2 ⟨i, Nat.lt_succ_self i, hR⟩
    · rw [(hv.of_stays (mt hgone.mp hR)).2.1, h.flag]
      constructor
      · rintro ⟨j, hj, hRj⟩
        exact ⟨j, Nat.lt_succ_of_lt hj, hRj⟩
      · rintro ⟨j, hj, hRj⟩
        have hne : j ≠ i := fun he => hR (he ▸ hRj)
        exact ⟨j, by omega, hRj⟩
  · intro k hk
    rw [hv.revents_eq, h.revents_eq k hk]
  · rw [hv.framed.allocated_eq]
    exact h.fiber_le
  · rw [hv.framed.allocated_eq]
    exact h.allocated_le

/-- Entries that are not removed may be passed over. -/
theorem Swept.skip (h : Swept s₀ r l i s) (hin : i ≤ n) (hn : n ≤ l.length)
    (hstay : ∀ k < n, i ≤ k → ¬Removed s₀ r k) : Swept s₀ r l n s := by
  induction n, hin using Nat.le_induction with
  | base => exact h
  | succ n hin ih =>
    refine (ih (by omega) fun k hk => hstay k (by omega)).visited (by omega)
      (visited_idle n (b := s.endServer)) ?_
    exact iff_of_false id (hstay n (Nat.lt_succ_self n) hin)

theorem Swept.congr (h : Swept s₀ r l i s) (hwfd : t.wfd = s.wfd) (hfibers : t.fibers = s.fibers)
    (hflag : t.compressPollfd = s.compressPollfd) (halloc : t.allocated = s.allocated) :
    Swept s₀ r l i t := by
  have hcell : t.cell = s.cell := by
    funext k
    rw [Server.cell, Server.cell, hwfd, hfibers]
  exact ⟨hwfd ▸ h.capacity_eq, h.length_le, h.old, hwfd ▸ h.count, hcell ▸ h.ahead,
    hcell ▸ h.behind, hcell ▸ h.removed, hcell ▸ h.early, hflag ▸ h.flag, hwfd ▸ h.revents_eq,
    halloc ▸ h.fiber_le, halloc ▸ h.allocated_le⟩

/-! ### The visits -/

theorem not_hangsUp_of_readable (h : r.Readable i) : ¬r.HangsUp i := fun hhup => hhup h.1

theorem not_removed_of_idle (h : r.revents i = 0) : ¬Removed s r i := by
  rintro ⟨-, hhup | ⟨hread, -⟩⟩
  · exact hhup (by rw [h]; exact BitVec.zero_and)
  · exact hread.2 (by rw [h]; exact BitVec.zero_and)

theorem removed_iff_done (hreach : r.Reaches i) (hread : r.Readable i) :
    Removed s r i ↔ Done s r i := by
  constructor
  · rintro ⟨-, hhup | ⟨-, hdone⟩⟩
    · exact absurd hhup (not_hangsUp_of_readable hread)
    · exact hdone
  · exact fun hdone => ⟨hreach, Or.inr ⟨hread, hdone⟩⟩

/-- The visit of an entry, unless it resumes the listener. -/
theorem Swept.visit (h : Swept s₀ r l i s) (hi : i < s₀.wfd.length) (hreach : r.Reaches i)
    (hne : r.Readable i → (s₀.fibers i).fiber ≠ listenerFiber) {go : Bool}
    (hv : visit r i s = some (go, t)) :
    Swept s₀ r l (i + 1) t ∧ (go = false ↔ r.Breaks i) := by
  have hlt := h.old_lt hi
  cases visitCases_of_visit (h.revents_eq i hi) hv with
  | idle hzero =>
    refine ⟨h.visited hlt (visited_idle i (b := s.endServer))
      (iff_of_false id (not_removed_of_idle hzero)), ?_⟩
    exact iff_of_false (by simp) fun hb => hb.1 hzero
  | hungUp hhup hvis =>
    refine ⟨h.visited hlt hvis (iff_of_true trivial ⟨hreach, Or.inl hhup⟩), ?_⟩
    exact iff_of_false (by simp) fun hb => hhup hb.2.1
  | broken hb =>
    exact ⟨h.visited hlt (visited_idle i)
      (iff_of_false id (not_removed_of_breaks hb le_rfl)), iff_of_true rfl hb⟩
  | @resumed status u _ hread hfd hresume hvis =>
    refine ⟨?_, iff_of_false (by simp) fun hb => hread.2 hb.2.2⟩
    -- the entry still is the one before the round, so its fiber is not the listener
    have hcell : s.cell i = s₀.cell i :=
      Option.some.inj ((h.ahead i hlt le_rfl).symm.trans (h.old i hi))
    have hfiber : (s.fibers i).fiber ≠ listenerFiber := by
      rw [show s.fibers i = s₀.fibers i from congrArg Entry.closure hcell]
      exact hne hread
    obtain ⟨rfl, hwfd, hfibers, hflag, halloc⟩ := fiberResume_of_ne hfiber hresume
    refine (h.congr hwfd hfibers hflag halloc).visited hlt hvis ?_
    rw [removed_iff_done hreach hread, Done, if_neg (hne hread)]

/-- There is space for what the listener appends. -/
theorem length_appended_le (s : Server) (hosts : List HostAnswer) :
    (appended s hosts).length ≤ s.wfd.capacity - s.wfd.length := by
  rw [appended, length_entriesFrom]
  exact length_arrivals_le _ _

/-- The fibers of the new entries were never allocated before. -/
theorem fiber_of_mem_appended {hosts : List HostAnswer} {e : Entry} (h : e ∈ appended s hosts) :
    s.allocated < e.closure.fiber ∧
      e.closure.fiber ≤ s.allocated + (appended s hosts).length := by
  have hmem := List.mem_map_of_mem (f := fun e => e.closure.fiber) h
  rw [appended, map_fiber_entriesFrom, List.mem_range'_1] at hmem
  rw [appended, length_entriesFrom]
  omega

/-- The visit that resumes the listener, before any entry is removed. -/
theorem Swept.visit_listener (h : Swept s₀ r s₀.entries 0 s) (hlisten : Listens s₀ r)
    (hentries : s.entries = s₀.entries) (halloc : s.allocated = s₀.allocated)
    (hcap : s₀.wfd.capacity = MAX_CONNECTIONS) {go : Bool}
    (hv : FiberServer.visit r 0 s = some (go, t)) :
    Swept s₀ r (s₀.entries ++ fresh s₀ r) 1 t ∧ go = true := by
  obtain ⟨hpos, hreach, hread, hfiber⟩ := hlisten
  have hcapacity := h.capacity_eq
  have hlen : s.wfd.length = s₀.wfd.length := by
    rw [← length_entries, hentries, length_entries]
  have hle : s₀.wfd.length ≤ MAX_CONNECTIONS := by
    have hlen := h.length_le
    rwa [length_entries] at hlen
  cases visitCases_of_visit (h.revents_eq 0 hpos) hv with
  | idle hzero => exact absurd (by rw [hzero]; exact BitVec.zero_and) hread.2
  | hungUp hhup => exact absurd hhup (not_hangsUp_of_readable hread)
  | broken hb => exact absurd hb.2.2 hread.2
  | @resumed status u _ _ hfd hresume hvis =>
    refine ⟨?_, rfl⟩
    have hcell : s.cell 0 = s₀.cell 0 :=
      Option.some.inj ((h.ahead 0 (h.old_lt hpos) le_rfl).symm.trans (h.old 0 hpos))
    rw [show s.fibers 0 = s₀.fibers 0 from congrArg Entry.closure hcell, hfiber] at hresume
    obtain ⟨happ, hstatus⟩ := fiberResume_listener (s := { s with fd := (s.wfd.fds 0).fd })
      (by dsimp only; omega) (by rw [hcapacity]; decide) hfd hresume
    -- the listener runs before any entry is removed: it appends to the old table
    have hnew : appended { s with fd := (s.wfd.fds 0).fd } r.accepts = fresh s₀ r := by
      rw [fresh, if_pos ⟨hpos, hreach, hread, hfiber⟩, appended, appended]
      dsimp only
      rw [hlen, halloc, hcapacity, hcap]
    have hspace := length_appended_le { s with fd := (s.wfd.fds 0).fd } r.accepts
    have hfibers : ∀ e ∈ appended { s with fd := (s.wfd.fds 0).fd } r.accepts,
        e.closure.fiber ≤ s.allocated +
          (appended { s with fd := (s.wfd.fds 0).fd } r.accepts).length :=
      fun e he => (fiber_of_mem_appended he).2
    rw [hnew] at happ hspace hfibers
    -- so the invariant holds at 0 again, for the longer row
    have hzero : Swept s₀ r (s₀.entries ++ fresh s₀ r) 0 u := by
      refine swept_zero (happ.capacity_eq.trans hcapacity) ?_ ?_
        (happ.entries_eq.trans (congrArg (· ++ fresh s₀ r) hentries)) ?_ ?_ ?_ ?_
      · rw [List.length_append, length_entries]
        dsimp only at hspace
        omega
      · intro k hk
        rw [List.getElem?_append_left (by rwa [length_entries])]
        exact h.old k hk
      · rw [happ.compressPollfd_eq, ← Bool.not_eq_true, h.flag]
        simp
      · intro k hk
        rw [happ.revents_eq k (by rwa [hlen])]
        exact h.revents_eq k hk
      · intro e he
        rw [happ.allocated_eq]
        rcases List.mem_append.mp he with he | he
        · exact (h.fiber_le e he).trans (Nat.le_add_right _ _)
        · exact hfibers e he
      · rw [happ.allocated_eq]
        exact h.allocated_le.trans (Nat.le_add_right _ _)
    refine hzero.visited (hzero.old_lt hpos) hvis ?_
    rw [removed_iff_done hreach hread, Done, if_pos hfiber, hstatus]
    dsimp only
    rw [hlen, hcapacity, hcap]

/-! ### The sweep -/

/-- **The sweep takes the invariant to the end of the old entries.** -/
theorem Swept.sweep (k : ℕ) (h : Swept s₀ r l i s) (hik : i + k = s₀.wfd.length)
    (hreach : k ≠ 0 → r.Reaches i)
    (hne : ∀ j < s₀.wfd.length, i ≤ j → r.Readable j → (s₀.fibers j).fiber ≠ listenerFiber)
    (hsweep : sweep r k i s = some t) : Swept s₀ r l s₀.wfd.length t := by
  induction k generalizing i s with
  | zero =>
    obtain rfl : i = s₀.wfd.length := hik
    obtain rfl := Option.some.inj hsweep
    exact h
  | succ k ih =>
    have hi : i < s₀.wfd.length := by omega
    rw [FiberServer.sweep] at hsweep
    split at hsweep
    · exact absurd hsweep (by simp)
    · -- the sweep ends here, and gets to none of the others
      rename_i u hvisit
      obtain rfl := Option.some.inj hsweep
      obtain ⟨hnext, hgo⟩ := h.visit hi (hreach (by simp)) (hne i hi le_rfl) hvisit
      refine hnext.skip hi ?_ fun j _ hj => not_removed_of_breaks (hgo.mp rfl) (by omega)
      exact h.size_le
    · rename_i u hvisit
      obtain ⟨hnext, hgo⟩ := h.visit hi (hreach (by simp)) (hne i hi le_rfl) hvisit
      refine ih hnext (by omega) (fun _ => ⟨(hreach (by simp)).1, ?_⟩)
        (fun j hj hij => hne j hj (by omega)) hsweep
      intro j hj hb
      rcases Nat.lt_succ_iff_lt_or_eq.mp hj with hlt | rfl
      · exact (hreach (by simp)).2 j hlt hb
      · exact absurd (hgo.mpr hb) (by simp)

end FiberServer

end Waeio
