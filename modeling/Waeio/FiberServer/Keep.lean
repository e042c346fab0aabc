import Mathlib.Data.List.Perm.Basic
import Mathlib.Order.Interval.Finset.Nat
import Waeio.FiberServer.Sweep

/-!
# The server keeps its connections

A round is to take away the entries whose fiber finished or failed or that hung
up, and nothing else, and to append the new connections
(`Waeio.FiberServer.KeepsConnections`).

The sweep has lowered `length` once for each entry it takes away, and the compaction
looks at the first `length` entries only, lowering it again for each hole it finds
there. So the round keeps its connections exactly when the compaction finds none,
that is, when the entries taken away are the last ones, new connections counted
after all the others (`Waeio.FiberServer.RemovesLast`).
-/

namespace Waeio

namespace FiberServer

open HostPoll

variable {s t u v : Server} {r : Round}

/-! ### The table at the head of the request loop -/

/-- **The table is dense**: no entry is a hole, the listener is the first entry if
it is one, and each fiber has one entry. -/
structure Dense (s : Server) : Prop where
  capacity_eq : s.wfd.capacity = MAX_CONNECTIONS
  length_le : s.wfd.length ≤ MAX_CONNECTIONS
  not_hole : ∀ e ∈ s.entries, e.isHole = false
  not_listener : ∀ e ∈ s.entries.tail, e.closure.fiber ≠ listenerFiber
  nodup : (s.entries.map fun e => e.closure.fiber).Nodup
  fiber_le : ∀ e ∈ s.entries, e.closure.fiber ≤ s.allocated
  listener_le : listenerFiber ≤ s.allocated

theorem fresh_eq_nil_or (s : Server) (r : Round) :
    fresh s r = [] ∨ Listens s r ∧ fresh s r = appended s r.accepts := by
  rw [fresh]
  split_ifs with h
  · exact Or.inr ⟨h, rfl⟩
  · exact Or.inl rfl

theorem fiber_of_mem_fresh {e : Entry} (h : e ∈ fresh s r) :
    s.allocated < e.closure.fiber ∧ e.closure.fiber ≤ s.allocated + (fresh s r).length := by
  rcases fresh_eq_nil_or s r with hnil | ⟨-, happ⟩
  · exact absurd h (by simp [hnil])
  · rw [happ] at h ⊢
    exact fiber_of_mem_appended h

theorem not_hole_of_mem_fresh {e : Entry} (h : e ∈ fresh s r) : e.isHole = false := by
  rcases fresh_eq_nil_or s r with hnil | ⟨-, happ⟩
  · exact absurd h (by simp [hnil])
  · rw [happ] at h
    have hnonneg := nonneg_of_mem_arrivals (fd_of_mem_entriesFrom h)
    refine decide_eq_false fun heq => ?_
    omega

theorem nodup_fresh (s : Server) (r : Round) :
    ((fresh s r).map fun e => e.closure.fiber).Nodup := by
  rcases fresh_eq_nil_or s r with hnil | ⟨-, happ⟩
  · simp [hnil]
  · rw [happ, appended, map_fiber_entriesFrom]
    exact List.nodup_range'

/-- The old and the new entries have a fiber each. -/
theorem Dense.nodup_append (h : Dense s) :
    ((s.entries ++ fresh s r).map fun e => e.closure.fiber).Nodup := by
  rw [List.map_append]
  refine List.Nodup.append h.nodup (nodup_fresh s r) ?_
  rintro f hold hnew
  obtain ⟨e, he, rfl⟩ := List.mem_map.mp hold
  obtain ⟨e', he', heq⟩ := List.mem_map.mp hnew
  -- the new fibers are numbered after all old ones
  have hle := h.fiber_le e he
  have hlt := (fiber_of_mem_fresh he').1
  omega

/-- **Any part of the old and the new entries is a dense table.** -/
theorem Dense.of_sublist (h : Dense s) (hcap : t.wfd.capacity = MAX_CONNECTIONS)
    (hlen : t.wfd.length ≤ MAX_CONNECTIONS) (hsub : t.entries.Sublist (s.entries ++ fresh s r))
    (hfiber : ∀ e ∈ s.entries ++ fresh s r, e.closure.fiber ≤ t.allocated)
    (halloc : s.allocated ≤ t.allocated) : Dense t := by
  refine ⟨hcap, hlen, ?_, ?_, ?_, fun e he => hfiber e (hsub.subset he),
    h.listener_le.trans halloc⟩
  · intro e he
    rcases List.mem_append.mp (hsub.subset he) with he | he
    · exact h.not_hole e he
    · exact not_hole_of_mem_fresh he
  · -- the tail of a part is a part of the tail
    intro e he
    have htail := hsub.tail.subset he
    have hmem : e ∈ s.entries.tail ∨ e ∈ fresh s r := by
      cases hs : s.entries with
      | nil =>
        rw [hs, List.nil_append] at htail
        exact Or.inr (List.mem_of_mem_tail htail)
      | cons x xs =>
        rw [hs, List.cons_append, List.tail_cons] at htail
        exact List.mem_append.mp htail
    rcases hmem with hmem | hmem
    · exact h.not_listener e hmem
    · have hlt := (fiber_of_mem_fresh hmem).1
      have hle := h.listener_le
      omega
  · exact h.nodup_append.sublist (hsub.map _)

/-! ### The round -/

/-- The state after `wasio_poll`, which writes the `revents`. -/
structure Polled (r : Round) (s u : Server) : Prop where
  framed : Framed s u
  cell_eq : u.cell = s.cell
  length_eq : u.wfd.length = s.wfd.length
  compressPollfd_eq : u.compressPollfd = false
  revents_eq : ∀ k < s.wfd.length, (u.wfd.fds k).revents = r.revents k

theorem Polled.entries_eq (h : Polled r s u) : u.entries = s.entries := by
  rw [Server.entries, Server.entries, h.cell_eq, h.length_eq]

theorem poll_of_neg (hneg : r.host.ret < 0) (s : Server) :
    ∃ u, poll r s = (translateError r.host.errno, none, u) ∧ u.entries = s.entries ∧
      Framed s u := by
  rw [poll, wasioPoll, if_pos hneg]
  exact ⟨_, rfl, rfl, rfl, rfl⟩

theorem poll_of_nonneg (hnonneg : ¬r.host.ret < 0) (s : Server) :
    ∃ u, poll r s = (.ok, some r.host.ret.toNat, u) ∧ Polled r s u := by
  rw [poll, wasioPoll, if_neg hnonneg]
  refine ⟨_, rfl, ⟨rfl, rfl⟩, ?_, rfl, rfl, fun k hk => ?_⟩
  · funext k
    simp only [Server.cell, Server.emit]
    split_ifs <;> rfl
  · simp only [Server.emit, if_pos hk]

/-- **The rounds**: without events nothing happens to the table; otherwise the round
goes through the entries, and compacts the table if the flag is up. -/
theorem requestLoop_cases (h : requestLoop r s = some t) :
    (r.host.ret ≤ 0 ∧ t.entries = s.entries ∧ Framed s t ∧ t.events = (poll r s).2.2.events) ∨
    (0 < r.host.ret ∧ ∃ u v, Polled r s u ∧ u = (poll r s).2.2 ∧
      sweep r s.wfd.length 0 u = some v ∧ t = if v.compressPollfd then compact v else v) := by
  rw [requestLoop] at h
  split_ifs at h
  by_cases hneg : r.host.ret < 0
  · obtain ⟨u, hpoll, hentries, hframed⟩ := poll_of_neg hneg s
    rw [hpoll] at h
    cases herr : translateError r.host.errno <;> rw [herr] at h
    case ok => exact absurd herr (translateError_ne_ok _)
    all_goals
      obtain rfl := Option.some.inj h
      exact Or.inl ⟨hneg.le, hentries, hframed, by rw [hpoll]⟩
  · obtain ⟨u, hpoll, hpolled⟩ := poll_of_nonneg hneg s
    rw [hpoll] at h
    dsimp only at h
    split_ifs at h with hzero
    · obtain rfl := Option.some.inj h
      exact Or.inl ⟨by omega, hpolled.entries_eq,
        ⟨hpolled.framed.capacity_eq, hpolled.framed.allocated_eq⟩, by rw [hpoll]⟩
    · obtain ⟨v, hsweep, rfl⟩ := Option.map_eq_some_iff.mp h
      rw [hpolled.length_eq] at hsweep
      exact Or.inr ⟨by omega, u, v, hpolled, by rw [hpoll], hsweep, rfl⟩

/-- No entry but the first is the listener's. -/
theorem Dense.fiber_ne (h : Dense s) {k : ℕ} (hk : k < s.wfd.length) (hpos : 1 ≤ k) :
    (s.fibers k).fiber ≠ listenerFiber := by
  refine h.not_listener (s.cell k) (List.mem_of_getElem? (i := k - 1) ?_)
  rw [List.getElem?_tail, Nat.sub_add_cancel hpos]
  exact Compact.getElem?_row hk

/-- The sweep of a dense table begins. -/
theorem Dense.swept_zero (h : Dense s) (hpolled : Polled r s u) : Swept s r s.entries 0 u :=
  FiberServer.swept_zero (hpolled.framed.capacity_eq.trans h.capacity_eq)
    (by rw [length_entries]; exact h.length_le) (fun _ hk => Compact.getElem?_row hk)
    hpolled.entries_eq hpolled.compressPollfd_eq hpolled.revents_eq
    (by rw [hpolled.framed.allocated_eq]; exact h.fiber_le) hpolled.framed.allocated_eq.ge

/-- **The sweep of a dense table.** -/
theorem Dense.swept (h : Dense s) (hret : 0 < r.host.ret) (hpolled : Polled r s u)
    (hsweep : sweep r s.wfd.length 0 u = some v) :
    Swept s r (s.entries ++ fresh s r) s.wfd.length v := by
  have hreach : r.Reaches 0 := ⟨hret, fun j hj => absurd hj (Nat.not_lt_zero j)⟩
  have hne : ∀ k < s.wfd.length, 1 ≤ k → (s.fibers k).fiber ≠ listenerFiber :=
    fun _ => h.fiber_ne
  have hzero := h.swept_zero hpolled
  by_cases hlisten : Listens s r
  · -- the listener is the first entry, and appends before anything else happens
    obtain ⟨k, hk⟩ : ∃ k, s.wfd.length = k + 1 := Nat.exists_eq_succ_of_ne_zero hlisten.1.ne'
    rw [hk, sweep] at hsweep
    split at hsweep
    · exact absurd hsweep (by simp)
    · rename_i hvisit
      exact absurd (hzero.visit_listener hlisten hpolled.entries_eq hpolled.framed.allocated_eq
        h.capacity_eq hvisit).2 (by simp)
    · rename_i w hvisit
      have hone := (hzero.visit_listener hlisten hpolled.entries_eq hpolled.framed.allocated_eq
        h.capacity_eq hvisit).1
      refine hone.sweep k (by omega) (fun _ => ⟨hret, fun j hj hb => ?_⟩)
        (fun j hj hpos _ => hne j hj hpos) hsweep
      obtain rfl : j = 0 := by omega
      exact hlisten.2.2.1.2 hb.2.2
  · have hfresh : fresh s r = [] := if_neg hlisten
    rw [hfresh, List.append_nil]
    refine hzero.sweep _ (Nat.zero_add _) (fun _ => hreach) (fun j hj _ hread => ?_) hsweep
    rcases Nat.eq_zero_or_pos j with rfl | hpos
    · exact fun hfiber => hlisten ⟨hj, hreach, hread, hfiber⟩
    · exact hne j hj hpos

/-! ### After the sweep -/

variable {s₀ : Server} {l : List Entry}

/-- The entries that are no holes are entries of the row `l`. -/
theorem Swept.getElem?_of_not_hole (h : Swept s₀ r l s₀.wfd.length v) {k : ℕ}
    (hk : k < v.wfd.length) (hhole : ¬(v.cell k).isHole = true) : l[k]? = some (v.cell k) := by
  have hcount := h.count
  rcases Nat.lt_or_ge k s₀.wfd.length with hlt | hge
  · exact (h.behind k hlt).resolve_left hhole
  · exact h.ahead k (by omega) hge

theorem Swept.filter_sublist (h : Swept s₀ r l s₀.wfd.length v) :
    (v.entries.filter fun e => !e.isHole).Sublist l :=
  Compact.filter_row_sublist fun k hk hp => h.getElem?_of_not_hole hk (by simpa using hp)

/-- The old entries and the new ones are no holes. -/
theorem Dense.not_hole_of_mem (h : Dense s) {e : Entry} (he : e ∈ s.entries ++ fresh s r) :
    e.isHole = false := by
  rcases List.mem_append.mp he with he | he
  · exact h.not_hole e he
  · exact not_hole_of_mem_fresh he

/-- **Before the first removed entry, nothing has changed.** -/
theorem Swept.entries_eq (h : Swept s r (s.entries ++ fresh s r) s.wfd.length v) {m : ℕ}
    (hm : m ≤ s.wfd.length) (hfinal : ∀ k < s.wfd.length, Removed s r k ↔ m ≤ k)
    (hfresh : m < s.wfd.length → fresh s r = []) :
    v.entries = Compact.row s.cell m ++ fresh s r := by
  have hcount := h.count
  rw [List.length_append, length_entries] at hcount
  have hsum := Compact.count_of_final hm hfinal
  refine Compact.row_eq_of_getElem? (by rw [List.length_append, Compact.length_row]; omega) ?_
  intro k hk
  rcases Nat.lt_or_ge k m with hlt | hge
  · have hearly := h.early k (by omega) fun j hj hR =>
      absurd ((hfinal j (by omega)).mp hR) (by omega)
    rw [List.getElem?_append_left (by rw [Compact.length_row]; exact hlt),
      Compact.getElem?_row hlt, ← hearly]
    exact (h.old k (by omega)).symm
  · -- a new entry, so no old one was removed
    have hfull : m = s.wfd.length := by
      by_contra hne
      have hnil := hfresh (Nat.lt_of_le_of_ne hm hne)
      rw [hnil, List.length_nil] at hcount
      omega
    subst hfull
    exact h.ahead k (by rw [List.length_append, length_entries]; omega) hge

/-- The removed entries are the last ones, and there are new ones only if there are
none. -/
def RemovesLast (s : Server) (r : Round) : Prop :=
  ∀ i < s.wfd.length, Removed s r i → fresh s r = [] ∧
    ∀ j < s.wfd.length, i < j → Removed s r j

instance (s : Server) (r : Round) : Decidable (RemovesLast s r) :=
  inferInstanceAs (Decidable (∀ i < s.wfd.length, _ → _ ∧ ∀ j < s.wfd.length, _ → _))

/-- **The round keeps the connections**: the entries after it are those before it
that stay and the new ones, each once. An entry that hung up behind the one that ends
the sweep is not visited in this round, and stays. -/
structure KeepsConnections (s : Server) (r : Round) (t : Server) : Prop where
  perm : t.entries.Perm (kept s r ++ fresh s r)
  nodup : t.entries.Nodup
  length_eq : t.wfd.length = (kept s r).length + (fresh s r).length

theorem removesLast_iff : RemovesLast s r ↔
    ∃ m ≤ s.wfd.length, (∀ k < s.wfd.length, Removed s r k ↔ m ≤ k) ∧
      (m < s.wfd.length → fresh s r = []) := by
  constructor
  · intro h
    by_cases hex : ∃ i, i < s.wfd.length ∧ Removed s r i
    · have hfirst := Nat.find_spec hex
      refine ⟨Nat.find hex, hfirst.1.le, fun k hk => ⟨fun hR => ?_, fun hle => ?_⟩,
        fun _ => (h _ hfirst.1 hfirst.2).1⟩
      · exact Nat.find_min' hex ⟨hk, hR⟩
      · rcases Nat.eq_or_lt_of_le hle with heq | hlt
        · exact heq ▸ hfirst.2
        · exact (h _ hfirst.1 hfirst.2).2 k hk hlt
    · refine ⟨s.wfd.length, le_rfl, fun k hk => ?_, fun hlt => absurd hlt (lt_irrefl _)⟩
      exact iff_of_false (fun hR => hex ⟨k, hk, hR⟩) (by omega)
  · rintro ⟨m, hm, hfinal, hfresh⟩ i hi hR
    have hmi := (hfinal i hi).mp hR
    exact ⟨hfresh (by omega), fun j hj hij => (hfinal j hj).mpr (by omega)⟩

/-- **The table after the compaction**, or without it where the flag is down: the
entries in use that are no holes. -/
theorem Swept.entries_compact (h : Swept s r (s.entries ++ fresh s r) s.wfd.length v)
    (hs : Dense s) :
    (if v.compressPollfd then compact v else v).entries =
      v.entries.filter fun e => !e.isHole := by
  have hcount := h.count
  have hle := h.length_le
  have hmax : MAX_CONNECTIONS < 2 ^ 32 := by decide
  split_ifs with hflag
  · exact FiberServer.entries_compact (by omega)
  · -- with the flag down no entry was removed, and there is no hole
    have hnone : ∀ k < s.wfd.length, ¬Removed s r k :=
      fun k hk hR => hflag (h.flag.mpr ⟨k, hk, hR⟩)
    have hentries := h.entries_eq le_rfl
      (fun k hk => iff_of_false (hnone k hk) (by omega)) (fun hlt => absurd hlt (lt_irrefl _))
    refine (List.filter_eq_self.mpr fun e he => ?_).symm
    rw [hentries] at he
    rw [hs.not_hole_of_mem he, Bool.not_false]

theorem length_kept_add_count (s : Server) (r : Round) :
    (kept s r).length + Nat.count (Removed s r) s.wfd.length = s.wfd.length := by
  have hsplit := List.length_eq_countP_add_countP (fun i => decide (Removed s r i))
    (l := List.range s.wfd.length)
  rw [List.length_range] at hsplit
  rw [kept, List.length_map, ← List.countP_eq_length_filter, Nat.count]
  simp only [decide_not, Bool.decide_eq_true] at hsplit ⊢
  omega

theorem Dense.keepsConnections (ht : Dense t) (h : t.entries = kept s r ++ fresh s r) :
    KeepsConnections s r t := by
  refine ⟨h ▸ List.Perm.refl _, List.Nodup.of_map _ ht.nodup, ?_⟩
  rw [← length_entries, h, List.length_append]

/-- **The sweep and the compaction keep the connections exactly when the removed
entries are the last ones.** -/
theorem Swept.keeps_iff (h : Swept s r (s.entries ++ fresh s r) s.wfd.length v)
    (hs : Dense s) (ht : Dense t)
    (hentries : t.entries = v.entries.filter fun e => !e.isHole) :
    KeepsConnections s r t ↔ RemovesLast s r := by
  have hcount := h.count
  have hkept := length_kept_add_count s r
  rw [List.length_append, length_entries] at hcount
  rw [removesLast_iff]
  constructor
  · intro hkeeps
    -- the compaction has found no hole
    have hlen : (v.entries.filter fun e => !e.isHole).length = v.entries.length := by
      rw [← hentries, length_entries, length_entries, hkeeps.length_eq]
      omega
    have hnone : ∀ k < v.wfd.length, ¬(v.cell k).isHole = true := by
      intro k hk
      have hall := List.length_filter_eq_length_iff.mp hlen (v.cell k)
        (Compact.mem_row.mpr ⟨k, hk, rfl⟩)
      simpa using hall
    have hfinal := Compact.final_of_count hkept fun k hk hR =>
      hnone k (by omega) (h.removed k (by omega) hR)
    refine ⟨(kept s r).length, by omega, hfinal, fun hlt => ?_⟩
    -- the first removed entry would be among those in use
    by_contra hfresh
    have hpos := List.length_pos_of_ne_nil hfresh
    exact hnone _ (by omega) (h.removed _ hlt ((hfinal _ hlt).mpr le_rfl))
  · rintro ⟨m, hm, hfinal, hfresh⟩
    -- the length the sweep leaves ends before the first removed entry
    have heq : t.entries = kept s r ++ fresh s r := by
      rw [hentries, h.entries_eq hm hfinal hfresh, kept,
        Compact.map_filter_range_of_final s.cell hm hfinal]
      refine List.filter_eq_self.mpr fun e he => ?_
      rw [hs.not_hole_of_mem, Bool.not_false]
      refine List.mem_append.mpr ((List.mem_append.mp he).imp_left fun he => ?_)
      obtain ⟨k, hk, rfl⟩ := Compact.mem_row.mp he
      exact Compact.mem_row.mpr ⟨k, by omega, rfl⟩
    exact ht.keepsConnections heq

/-! ### Runs -/

theorem not_listens_of_le (h : r.host.ret ≤ 0) : fresh s r = [] :=
  if_neg fun hlisten => absurd hlisten.2.1.1 (not_lt.mpr h)

/-- **Every round leaves the table dense.** -/
theorem Dense.step (h : Dense s) (htr : Tr s r t) : Dense t := by
  rcases requestLoop_cases htr with ⟨hret, hentries, hframed, -⟩ |
    ⟨hret, u, v, hpolled, -, hsweep, rfl⟩
  · have hlen : t.wfd.length = s.wfd.length := by
      rw [← length_entries, hentries, length_entries]
    refine h.of_sublist (r := r) (hframed.capacity_eq.trans h.capacity_eq) (hlen ▸ h.length_le)
      (by rw [hentries]; exact List.sublist_append_left _ _) ?_ hframed.allocated_eq.ge
    intro e he
    rw [not_listens_of_le hret, List.append_nil] at he
    rw [hframed.allocated_eq]
    exact h.fiber_le e he
  · have hswept := h.swept hret hpolled hsweep
    have hentries := hswept.entries_compact h
    have hframed : Framed v (if v.compressPollfd then compact v else v) := by
      split_ifs
      · exact framed_compact v
      · exact .refl v
    refine h.of_sublist (hframed.capacity_eq.trans hswept.capacity_eq) ?_
      (hentries ▸ hswept.filter_sublist) ?_ (hframed.allocated_eq ▸ hswept.allocated_le)
    · rw [← length_entries, hentries]
      have hle := hswept.length_le
      have hcount := hswept.count
      refine (List.length_filter_le _ _).trans ?_
      rw [length_entries]
      omega
    · rw [hframed.allocated_eq]
      exact hswept.fiber_le

/-- The server starts with the listener alone. -/
theorem serverMain_spec {host : HostAnswer} (h : serverMain host = some s) :
    0 ≤ host.ret ∧ s.entries = [⟨host.ret, ⟨listenerFiber, host.ret⟩⟩] ∧
      s.wfd.capacity = MAX_CONNECTIONS ∧ s.allocated = listenerFiber := by
  rw [serverMain, wasioListen, if_pos (by decide)] at h
  by_cases hneg : host.ret < 0
  · rw [if_pos hneg] at h
    cases herr : translateError host.errno <;> rw [herr] at h <;> exact absurd h (by simp)
  · rw [if_neg hneg, append_of_lt (by decide) (by decide)] at h
    obtain rfl := Option.some.inj h
    refine ⟨by omega, ?_, rfl, rfl⟩
    refine Compact.row_eq_of_getElem? rfl fun k hk => ?_
    obtain rfl : k = 0 := Nat.lt_one_iff.mp hk
    rfl

theorem dense_serverMain {host : HostAnswer} (h : serverMain host = some s) : Dense s := by
  obtain ⟨hret, hentries, hcap, halloc⟩ := serverMain_spec h
  have hlen : s.wfd.length = 1 := by rw [← length_entries, hentries, List.length_singleton]
  refine ⟨hcap, hlen ▸ by decide, ?_, ?_, ?_, ?_, halloc.ge⟩
  · rw [hentries, List.forall_mem_singleton]
    refine decide_eq_false fun heq => ?_
    have hneg : host.ret = -1 := heq
    omega
  · simp [hentries]
  · simp [hentries]
  · rw [hentries, List.forall_mem_singleton]
    exact halloc.ge

theorem Run.dense {host : HostAnswer} {l : List Round} (h : Run host l s) : Dense s := by
  obtain ⟨s₀, hstart, hsteps⟩ := h
  exact hsteps.invariant (fun _ _ _ h htr => h.step htr) (dense_serverMain hstart)

/-! ### Two connections -/

/-- Two clients connect. -/
def twoConnect : Round where
  host := ⟨1, 0⟩
  revents i := if i = 0 then POLLIN else 0
  accepts := [⟨5, 0⟩, ⟨6, 0⟩]
  stops _ := ⟨.yield, false⟩
  closes _ := ⟨0, 0⟩

/-- The entry `i` is readable, and its fiber finishes. -/
def finishes (i : ℕ) : Round where
  host := ⟨1, 0⟩
  revents k := if k = i then POLLIN else 0
  accepts := []
  stops _ := ⟨.ok, false⟩
  closes _ := ⟨0, 0⟩

end FiberServer

open FiberServer

/-- **The server keeps its connections in exactly the rounds that take away the
last entries**, in every run. -/
theorem keepsConnections_iff (host : HostAnswer) (l : List FiberServer.Round)
    (s t : FiberServer.Server) (r : FiberServer.Round) (h : FiberServer.Run host l s)
    (htr : FiberServer.Tr s r t) : KeepsConnections s r t ↔ RemovesLast s r := by
  have hs := h.dense
  have ht := hs.step htr
  rcases requestLoop_cases htr with ⟨hret, hentries, -⟩ | ⟨hret, u, v, hpolled, -, hsweep, rfl⟩
  · -- without events the round neither takes away nor appends
    have hnone : ∀ k, ¬Removed s r k := fun k hR => absurd hR.1.1 (not_lt.mpr hret)
    refine iff_of_true (ht.keepsConnections ?_) fun k _ hR => absurd hR (hnone k)
    rw [hentries, not_listens_of_le hret, List.append_nil, kept]
    refine (Compact.map_filter_range_of_final s.cell le_rfl fun k hk => ?_).symm
    exact iff_of_false (hnone k) (Nat.not_le.mpr hk)
  · have hswept := hs.swept hret hpolled hsweep
    exact hswept.keeps_iff hs ht (hswept.entries_compact hs)

/-- The last of two connections finishes, and the other one is kept. -/
theorem keepsConnections_iff_finishes_last :
    ∃ s t, FiberServer.Run ⟨4, 0⟩ [twoConnect] s ∧ FiberServer.Tr s (finishes 2) t ∧
      KeepsConnections s (finishes 2) t := by
  obtain ⟨s, hs, t, ht, hlast⟩ : ∃ s ∈ serve ⟨4, 0⟩ [twoConnect],
      ∃ t ∈ requestLoop (finishes 2) s, RemovesLast s (finishes 2) := by
    decide +kernel
  have hrun := run_of_serve hs
  exact ⟨s, t, hrun, ht, (keepsConnections_iff ⟨4, 0⟩ _ s t _ hrun ht).mpr hlast⟩

/-- **The first of two connections finishes, and both are gone.** -/
theorem not_keepsConnections_finishes_first :
    ∃ s t, FiberServer.Run ⟨4, 0⟩ [twoConnect] s ∧ FiberServer.Tr s (finishes 1) t ∧
      s.entries = [⟨4, ⟨1, 4⟩⟩, ⟨5, ⟨2, 5⟩⟩, ⟨6, ⟨3, 6⟩⟩] ∧ t.entries = [⟨4, ⟨1, 4⟩⟩] ∧
      ¬KeepsConnections s (finishes 1) t := by
  obtain ⟨s, hs, t, ht, hbefore, hafter, hstay⟩ : ∃ s ∈ serve ⟨4, 0⟩ [twoConnect],
      ∃ t ∈ requestLoop (finishes 1) s,
        s.entries = [⟨4, ⟨1, 4⟩⟩, ⟨5, ⟨2, 5⟩⟩, ⟨6, ⟨3, 6⟩⟩] ∧ t.entries = [⟨4, ⟨1, 4⟩⟩] ∧
          (kept s (finishes 1)).length = 2 := by
    decide +kernel
  refine ⟨s, t, run_of_serve hs, ht, hbefore, hafter, fun hkeeps => ?_⟩
  have hlen := hkeeps.length_eq
  rw [hstay, ← length_entries, hafter, List.length_singleton] at hlen
  omega

end Waeio
