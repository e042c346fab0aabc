import Mathlib.Data.Nat.Count
import Waeio.Lib.Compact
import Waeio.Lib.Ledger
import Waeio.WasioHost.Failure

/-!
# The descriptors of the table

`wasio_listen` and `wasio_accept` are handed a descriptor by the host, `wasio_wrap` by its
caller, and `wasio_close` gives one back. In between the table has to know it: the slots that
are bound are a ledger of the descriptors to be closed (`Waeio.WasioHost.book`).

The account of a descriptor has three sides. It is in a slot, it was closed, or it was
stranded: `wasio_listen` or `wasio_accept` found no slot for it, and nobody will close it. A
step keeps the account even (`Waeio.WasioHost.TableInv.balances`), a call of the host names
the descriptor of a slot, and one is stranded only if all slots are bound.

Nothing is said of two slots with the same descriptor. They are the host's to exclude: if it
hands out no descriptor that is open, no two slots have the same
(`Waeio.wasioHost_slots_distinct`).
-/

namespace Waeio

namespace WasioHost

open Lts (Steps)

/-! ### The accounts -/

/-- The descriptors that the table is to have, by one more operation. -/
def opens (a : Op × Reply) : List ℤ :=
  match a.1 with
  | .listen _ _ host | .accept _ host => if 0 ≤ host.ret then [host.ret] else []
  | .wrap fd => if a.2.result = .ok then [fd] else []
  | .recv _ _ _ | .send _ _ _ | .notifyRecv _ | .notifySend _ | .poll _ _ _ | .close _ _ => []

/-- Those that the host has closed. -/
def closes (a : Op × Reply) : List ℤ :=
  match a.2.call with
  | some (.close fd) => if a.2.result = .ok then [fd] else []
  | _ => []

/-- Those that are open, and were not put into a slot. -/
def strands (a : Op × Reply) : List ℤ :=
  match a.1 with
  | .listen _ _ host | .accept _ host =>
    if 0 ≤ host.ret ∧ a.2.result ≠ .ok then [host.ret] else []
  | .wrap _ | .recv _ _ _ | .send _ _ _ | .notifyRecv _ | .notifySend _ | .poll _ _ _
  | .close _ _ => []

/-- **The descriptors that are named to the host**, where there is one: `-1` is none. -/
def uses (a : Op × Reply) : List ℤ :=
  match a.2.call with
  | some (.accept fd) | some (.recv fd _) | some (.send fd _) | some (.close fd) =>
    if fd = -1 then [] else [fd]
  | some (.listen _ _) | some (.poll _ _) | none => []

/-- The descriptors in the slots. -/
def inSlots (cap : ℕ) (s : WasioPollfd) : List ℤ := (Compact.row s.fds cap).filter (· ≠ -1)

/-- **The table as a ledger of descriptors.** -/
def book (cap : ℕ) : Ledger.Book WasioPollfd (Op × Reply) ℤ :=
  ⟨inSlots cap, opens, fun a => closes a ++ strands a⟩

variable {cap : ℕ} {O : Finset ℕ} {s t : WasioPollfd} {a : Op × Reply} {v : ℕ} {d : ℤ}
  {fl : Freelist}

/-! ### The slots -/

theorem mem_inSlots (hv : v < cap) (hd : s.fds v ≠ -1) : s.fds v ∈ inSlots cap s :=
  List.mem_filter.mpr ⟨Compact.mem_row.mpr ⟨v, hv, rfl⟩, decide_eq_true hd⟩

/-- A slot that is bound has one more descriptor. -/
theorem inSlots_bindSlot (hv : v < cap) (hfree : s.fds v = -1) (hd : 0 ≤ d) :
    (inSlots cap (bindSlot s v d fl)).Perm (inSlots cap s ++ [d]) := by
  have hne : d ≠ -1 := by omega
  have hperm := (Compact.row_update_perm (a := s.fds) hv d).filter (· ≠ -1)
  rw [List.filter_append, List.filter_append, hfree] at hperm
  simpa [inSlots, bindSlot, hne] using hperm

/-- A slot that is freed has one less. -/
theorem inSlots_unbindSlot (hv : v < cap) (hd : s.fds v ≠ -1) :
    (inSlots cap (unbindSlot s v fl) ++ [s.fds v]).Perm (inSlots cap s) := by
  have hperm := (Compact.row_update_perm (a := s.fds) hv (-1)).filter (· ≠ -1)
  rw [List.filter_append, List.filter_append] at hperm
  simpa [inSlots, unbindSlot, hd] using hperm

/-- There are as many as slots that are bound. -/
theorem TableInv.length_inSlots (h : TableInv cap O s) : (inSlots cap s).length = s.length := by
  have hcount := Compact.length_filter_row (fun fd : ℤ => decide (fd ≠ -1)) s.fds cap
  rw [inSlots, hcount, Nat.count_eq_card_filter_range, h.length_eq, ← h.boundSlots_eq, boundSlots]
  simp

/-! ### The steps -/

theorem balances_of_eq (hslots : t.fds = s.fds) (hopens : opens a = closes a ++ strands a) :
    (book cap).Balances s a t := by
  rw [Ledger.Book.Balances, book]
  dsimp only
  rw [hopens, inSlots, inSlots, hslots]

/-- A call that names the descriptor of a slot. -/
theorem forall_mem_used (hv : v < cap) :
    ∀ d ∈ (if s.fds v = -1 then [] else [s.fds v]), d ∈ inSlots cap s := by
  intro d hd
  split_ifs at hd with hnone
  · cases hd
  · rw [List.mem_singleton.mp hd]
    exact mem_inSlots hv hnone

/-- A step without a call of the host, or with one that names no descriptor. -/
theorem forall_mem_unused (h : uses a = []) : ∀ d ∈ uses a, d ∈ inSlots cap s := by
  intro d hd
  rw [h] at hd
  exact absurd hd List.not_mem_nil

/-- A descriptor for which there is no slot. -/
theorem TableInv.length_of_full (h : TableInv cap O s) (hcap : cap % 32 = 0) {d : ℤ}
    (hfull : (wasioWrap s d).1 ≠ .ok) : s.length = cap := by
  rcases wasioWrap_cases s d with ⟨-, v, fl, hw⟩ | ⟨hfull, -⟩
  · exact absurd (congrArg Prod.fst hw) hfull
  · exact (h.full_iff hcap).mp hfull

/-- A slot is bound to a new descriptor. -/
theorem TableInv.balances_bind (h : TableInv cap O s) (hv : IsLeast {u | u ∉ O} v) (hlt : v < cap)
    (hd : 0 ≤ d) (hopens : opens a = [d]) (hcloses : closes a = []) (hstrands : strands a = []) :
    (book cap).Balances s a (bindSlot s v d fl) := by
  have hfree : s.fds v = -1 := not_not.mp fun hb => hv.1 ((h.bound_iff v).mp hb)
  refine Ledger.Book.Balances.of_open (inSlots_bindSlot hlt hfree hd) hopens ?_
  rw [book]
  dsimp only
  rw [hcloses, hstrands, List.append_nil]

/-- **A step keeps the account of every descriptor**, names only descriptors in slots, and
strands one only if all slots are bound. -/
theorem TableInv.balances (h : TableInv cap O s) (hcap : cap % 32 = 0) (htr : Tr s a t) :
    (book cap).Balances s a t ∧ (∀ d ∈ uses a, d ∈ inSlots cap s) ∧
      (strands a ≠ [] → s.length = cap) := by
  obtain ⟨op, r⟩ := a
  obtain ⟨hadm, hper⟩ := htr
  have hvfd : ∀ v, op.vfd = some v → v < cap := fun v hv => h.capacity_eq ▸ hadm.vfd_lt v hv
  cases op with
  | listen port backlog host =>
    simp only [perform, wasioListen, Option.some.injEq] at hper
    split_ifs at hper with hneg
    · obtain ⟨rfl, rfl⟩ := Prod.mk.inj hper
      have hret : ¬0 ≤ host.ret := not_le.mpr hneg
      refine ⟨balances_of_eq rfl ?_, forall_mem_unused rfl, fun hs => absurd ?_ hs⟩
      · simp [opens, closes, strands, hret]
      · simp [strands, hret]
    · have hret : 0 ≤ host.ret := not_lt.mp hneg
      rcases h.wrap_cases hcap host.ret with ⟨v, fl, hw, hv, hlt, -⟩ | hw <;> rw [hw] at hper <;>
        obtain ⟨rfl, rfl⟩ := Prod.mk.inj hper
      · refine ⟨h.balances_bind hv hlt hret (if_pos hret) rfl ?_, forall_mem_unused rfl,
          fun hs => absurd ?_ hs⟩ <;> simp [strands]
      · refine ⟨balances_of_eq rfl ?_, forall_mem_unused rfl,
          fun _ => h.length_of_full hcap (d := host.ret) ?_⟩
        · simp [opens, closes, strands, hret]
        · simp [hw]
  | wrap fd =>
    simp only [perform, Option.some.injEq] at hper
    rcases h.wrap_cases hcap fd with ⟨v, fl, hw, hv, hlt, -⟩ | hw <;> rw [hw] at hper <;>
      obtain ⟨rfl, rfl⟩ := Prod.mk.inj hper
    · exact ⟨h.balances_bind hv hlt (hadm.wrap_nonneg fd rfl) rfl rfl rfl, forall_mem_unused rfl,
        fun hs => absurd rfl hs⟩
    · exact ⟨balances_of_eq rfl rfl, forall_mem_unused rfl, fun hs => absurd rfl hs⟩
  | accept vfd host =>
    simp only [perform, Option.some.injEq] at hper
    rcases h.accept_cases hcap vfd host with ⟨v, fl, hacc, hret, hv, hlt, -⟩ | ⟨res, hres, hacc⟩ <;>
      rw [hacc] at hper <;> obtain ⟨rfl, rfl⟩ := Prod.mk.inj hper
    · refine ⟨h.balances_bind hv hlt hret (if_pos hret) rfl ?_, forall_mem_used (hvfd vfd rfl),
        fun hs => absurd ?_ hs⟩ <;> simp [strands]
    · refine ⟨balances_of_eq rfl ?_, forall_mem_used (hvfd vfd rfl), fun hs => ?_⟩
      · simp [opens, closes, strands, hres]
      · -- the host has answered with a descriptor
        have hret : 0 ≤ host.ret := by
          by_contra hneg
          exact hs (by simp [strands, hneg])
        refine h.length_of_full hcap (d := host.ret) fun hok => ?_
        rw [wasioAccept, if_neg (not_lt.mpr hret)] at hacc
        rcases wasioWrap_cases s host.ret with ⟨-, v, fl, hw⟩ | ⟨-, hw⟩
        · rw [hw] at hacc
          exact hres (congrArg (fun r => r.1.result) hacc).symm
        · rw [hw] at hok
          cases hok
  | recv vfd len host =>
    simp only [perform, wasioRecv, Option.some.injEq] at hper
    split_ifs at hper <;> obtain ⟨rfl, rfl⟩ := Prod.mk.inj hper <;>
      exact ⟨balances_of_eq rfl rfl, forall_mem_used (hvfd vfd rfl), fun hs => absurd rfl hs⟩
  | send vfd len host =>
    simp only [perform, wasioSend, Option.some.injEq] at hper
    split_ifs at hper <;> obtain ⟨rfl, rfl⟩ := Prod.mk.inj hper <;>
      exact ⟨balances_of_eq rfl rfl, forall_mem_used (hvfd vfd rfl), fun hs => absurd rfl hs⟩
  | notifyRecv vfd | notifySend vfd =>
    obtain ⟨rfl, rfl⟩ := Prod.mk.inj (Option.some.inj hper)
    exact ⟨balances_of_eq rfl rfl, forall_mem_unused rfl, fun hs => absurd rfl hs⟩
  | poll timeout revents host =>
    simp only [perform, wasioPoll, Option.some.injEq] at hper
    split_ifs at hper <;> obtain ⟨rfl, rfl⟩ := Prod.mk.inj hper <;>
      exact ⟨balances_of_eq rfl rfl, forall_mem_unused rfl, fun hs => absurd rfl hs⟩
  | close vfd host =>
    have hlt := hvfd vfd rfl
    rw [perform] at hper
    rcases h.close_cases hlt host with ⟨-, res, hres, hclose⟩ | ⟨hret, fl, hrep, hclose⟩ <;>
      rw [hclose] at hper <;> obtain ⟨rfl, rfl⟩ := Prod.mk.inj (Option.some.inj hper)
    · refine ⟨balances_of_eq rfl ?_, ?_, fun hs => absurd rfl hs⟩
      · simp [opens, closes, strands, hres]
      · rw [uses, h.sync]
        exact forall_mem_used hlt
    · have hfd : s.fds vfd ≠ -1 := fun he =>
        hadm.close_fails vfd host rfl (h.sync vfd ▸ he) hret
      refine ⟨?_, ?_, fun hs => absurd rfl hs⟩
      · refine Ledger.Book.Balances.of_close (inSlots_unbindSlot hlt hfd) rfl ?_
        simp [book, closes, strands, h.sync]
      · rw [uses, h.sync]
        exact forall_mem_used hlt

/-! ### The runs -/

/-- What the operations of a run have closed. -/
def closed (l : List (Op × Reply)) : List ℤ := l.flatMap closes

/-- What they have stranded. -/
def stranded (l : List (Op × Reply)) : List ℤ := l.flatMap strands

/-- What they have opened. -/
def opened (l : List (Op × Reply)) : List ℤ := l.flatMap opens

theorem book_closed_perm (cap : ℕ) (l : List (Op × Reply)) :
    ((book cap).closed l).Perm (closed l ++ stranded l) :=
  (List.flatMap_append_perm l closes strands).symm

/-- **The account of a run** is even. -/
theorem Run.balance (hcap : cap % 32 = 0) (hlt : cap < 2 ^ 32) {l : List (Op × Reply)}
    (h : Run cap l s) : (inSlots cap s ++ (book cap).closed l).Perm (opened l) := by
  obtain ⟨s₀, hinit, hsteps⟩ := h
  have hnone : inSlots cap s₀ = [] := by
    have hlen := (tableInv_init hlt hinit).length_inSlots
    rw [(tableInv_init hlt hinit).length_eq, Finset.card_empty] at hlen
    exact List.length_eq_zero_iff.mp hlen
  have heven := Ledger.Book.balance (b := book cap) (I := fun s => ∃ O, TableInv cap O s)
    (fun s a t hO htr => ?_) hsteps ⟨∅, tableInv_init hlt hinit⟩
  · change (inSlots cap s ++ (book cap).closed l).Perm (inSlots cap s₀ ++ opened l) at heven
    rwa [hnone] at heven
  · obtain ⟨O, hO⟩ := hO
    exact ⟨hO.step hcap htr, (hO.balances hcap htr).1⟩

/-- The number of times, in the three accounts. -/
theorem Run.count_opened (hcap : cap % 32 = 0) (hlt : cap < 2 ^ 32) {l : List (Op × Reply)}
    (h : Run cap l s) (d : ℤ) : (opened l).count d =
      (inSlots cap s).count d + (closed l).count d + (stranded l).count d := by
  rw [← (h.balance hcap hlt).count_eq, List.count_append, (book_closed_perm cap l).count_eq,
    List.count_append, Nat.add_assoc]

/-! ### A host that hands out no descriptor twice -/

/-- **The host hands out no descriptor that is open.** -/
def HostFresh (l : List (Op × Reply)) : Prop :=
  ∀ l₁ a l₂, l = l₁ ++ a :: l₂ → ∀ d ∈ opens a, (opened l₁).count d ≤ (closed l₁).count d

theorem hostFresh_iff {l : List (Op × Reply)} : HostFresh l ↔ ∀ k : Fin l.length,
    ∀ d ∈ opens l[k], (opened (l.take k)).count d ≤ (closed (l.take k)).count d := by
  constructor
  · intro h k
    refine h (l.take k) l[k] (l.drop (k + 1)) ?_
    rw [Fin.getElem_fin, List.getElem_cons_drop, List.take_append_drop]
  · rintro h l₁ a l₂ rfl d hd
    have hk : l₁.length < (l₁ ++ a :: l₂).length := by simp
    simpa using h ⟨l₁.length, hk⟩ d (by simpa using hd)

instance (l : List (Op × Reply)) : Decidable (HostFresh l) := decidable_of_iff _ hostFresh_iff.symm

theorem count_opens_le (a : Op × Reply) (d : ℤ) : (opens a).count d ≤ 1 := by
  refine List.count_le_length.trans ?_
  rw [opens]
  split
  · split_ifs <;> simp
  · split_ifs <;> simp
  · split_ifs <;> simp
  all_goals exact Nat.zero_le 1

/-- A descriptor is open once at most. -/
theorem HostFresh.count_opened_le {l : List (Op × Reply)} (h : HostFresh l) (d : ℤ) :
    (opened l).count d ≤ (closed l).count d + 1 := by
  induction l using List.reverseRecOn with
  | nil => exact Nat.zero_le _
  | append_singleton l a ih =>
    have hprefix : HostFresh l := fun l₁ a' l₂ heq =>
      h l₁ a' (l₂ ++ [a]) (by rw [heq, List.append_assoc, List.cons_append])
    have hold := ih hprefix
    have hone := count_opens_le a d
    have hopened : opened (l ++ [a]) = opened l ++ opens a := by simp [opened]
    have hclosed : closed (l ++ [a]) = closed l ++ closes a := by simp [closed]
    rw [hopened, hclosed, List.count_append, List.count_append]
    by_cases hd : d ∈ opens a
    · have hnew := h l a [] rfl d hd
      omega
    · rw [List.count_eq_zero_of_not_mem hd]
      omega

/-- Descriptors that are in the slots once are in one slot each. -/
theorem eq_of_nodup (h : (inSlots cap s).Nodup) {v w : ℕ} (hv : v < cap) (hw : w < cap)
    (hd : s.fds v ≠ -1) (heq : s.fds v = s.fds w) : v = w := by
  rw [inSlots, Compact.row, List.filter_map] at h
  refine List.inj_on_of_nodup_map h ?_ ?_ heq
  · exact List.mem_filter.mpr ⟨List.mem_range.mpr hv, decide_eq_true hd⟩
  · exact List.mem_filter.mpr ⟨List.mem_range.mpr hw, decide_eq_true (heq ▸ hd)⟩

end WasioHost

open WasioHost

/-- **The ledger of the table**, in every run with a capacity that is a multiple of `32`: each
descriptor that the table was to have is in a slot, was closed, or was stranded, as often as it
was opened; every call of the host on a descriptor names one that is open and not stranded; and
one is stranded only when as many are in slots as there are. -/
theorem wasioHost_ledger (cap : ℕ) (hcap : cap % 32 = 0) (hlt : cap < 2 ^ 32)
    (l : List (Op × Reply)) (s : WasioPollfd) (h : WasioHost.Run cap l s) :
    (∀ d, (opened l).count d =
      (inSlots cap s).count d + (closed l).count d + (stranded l).count d) ∧
    ∀ l₁ a l₂, l = l₁ ++ a :: l₂ →
      (∀ d ∈ uses a, (closed l₁).count d + (stranded l₁).count d < (opened l₁).count d) ∧
      (strands a ≠ [] →
        (opened l₁).length = cap + (closed l₁).length + (stranded l₁).length) := by
  refine ⟨h.count_opened hcap hlt, ?_⟩
  rintro l₁ a l₂ rfl
  obtain ⟨s₀, hinit, hsteps⟩ := h
  obtain ⟨u, u', hl₁, hu, -⟩ := hsteps.split_cons
  have hrun : WasioHost.Run cap l₁ u := ⟨s₀, hinit, hl₁⟩
  obtain ⟨O, hO⟩ := hrun.tableInv hcap hlt
  obtain ⟨-, huses, hfull⟩ := hO.balances hcap hu
  refine ⟨fun d hd => ?_, fun hs => ?_⟩
  · have hopen := Ledger.Book.isOpen_of_mem (b := book cap) (hrun.balance hcap hlt) (huses d hd)
    rwa [Ledger.Book.IsOpen, (book_closed_perm cap l₁).count_eq, List.count_append] at hopen
  · have hlen := (hrun.balance hcap hlt).length_eq
    rw [List.length_append, (book_closed_perm cap l₁).length_eq, List.length_append,
      hO.length_inSlots, hfull hs] at hlen
    omega

/-- A socket that listens on the descriptor 3, and a connection on the descriptor 5, which is
closed. -/
theorem wasioHost_ledger_connection :
    ∃ l s, WasioHost.Run 32 l s ∧ (opened l).length = 2 ∧
      (opened l).count 5 = (inSlots 32 s).count 5 + (closed l).count 5 + (stranded l).count 5 := by
  obtain ⟨s₀, hinit, p, hp, hlen⟩ : ∃ s₀, wasioInit 32 true = (.ok, some s₀) ∧
      ∃ p ∈ performAll s₀ [.listen 8080 1000 ⟨3, 0⟩, .accept 0 ⟨5, 0⟩, .close 1 ⟨0, 0⟩],
        (opened p.1).length = 2 := by
    refine ⟨_, rfl, ?_⟩
    decide +kernel
  have hrun : WasioHost.Run 32 p.1 p.2 := ⟨s₀, hinit, steps_of_performAll hp⟩
  exact ⟨p.1, p.2, hrun, hlen,
    (wasioHost_ledger 32 (by decide) (by decide) p.1 p.2 hrun).1 5⟩

/-- **No two slots have the same descriptor**, in every run, with a capacity that is a multiple
of `32`, in which the host hands out, and is given to wrap, no descriptor that is open. -/
theorem wasioHost_slots_distinct (cap : ℕ) (hcap : cap % 32 = 0) (hlt : cap < 2 ^ 32)
    (l : List (Op × Reply)) (s : WasioPollfd) (h : WasioHost.Run cap l s) (hhost : HostFresh l)
    (v w : ℕ) (hv : v < cap) (hw : w < cap) (hd : s.fds v ≠ -1) (heq : s.fds v = s.fds w) :
    v = w := by
  refine eq_of_nodup (List.nodup_iff_count_le_one.mpr fun d => ?_) hv hw hd heq
  have hcount := h.count_opened hcap hlt d
  have hle := hhost.count_opened_le d
  omega

/-- The descriptor of a connection that was closed is handed out again. -/
theorem wasioHost_slots_distinct_again :
    ∃ l s, WasioHost.Run 32 l s ∧ opened l = [3, 5, 5] ∧
      ∀ v < 32, s.fds v ≠ -1 → s.fds v = s.fds 1 → v = 1 := by
  obtain ⟨s₀, hinit, p, hp, hopened, hhost⟩ : ∃ s₀, wasioInit 32 true = (.ok, some s₀) ∧
      ∃ p ∈ performAll s₀ [.listen 8080 1000 ⟨3, 0⟩, .accept 0 ⟨5, 0⟩, .close 1 ⟨0, 0⟩,
        .accept 0 ⟨5, 0⟩], opened p.1 = [3, 5, 5] ∧ HostFresh p.1 := by
    refine ⟨_, rfl, ?_⟩
    decide +kernel
  have hrun : WasioHost.Run 32 p.1 p.2 := ⟨s₀, hinit, steps_of_performAll hp⟩
  refine ⟨p.1, p.2, hrun, hopened, fun v hv hd heq => ?_⟩
  exact wasioHost_slots_distinct 32 (by decide) (by decide) p.1 p.2 hrun
    hhost v 1 hv (by decide) hd heq

end Waeio
