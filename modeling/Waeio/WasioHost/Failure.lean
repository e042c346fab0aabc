import Mathlib.Data.Multiset.AddSub
import Waeio.WasioHost.Table

/-!
# Failed operations over the host

An operation makes its host call first and changes the table afterwards. What a failed
one may leave behind is therefore a descriptor: `wasio_listen` and `wasio_accept` are
handed one by the host and then find no slot for it. Which descriptors are open is a
history of the host calls (`Waeio.WasioHost.openFds`), with as many copies of a
descriptor as there are calls that returned it.

`Waeio.WasioHost.LeavesNothing` is what a failed operation should do, and
`Waeio.WasioHost.Op.Strands` is when it does not.
-/

namespace Waeio

/-- No word of the vector passes the test of `freelist_next`. -/
def Freelist.Full (fl : Freelist) : Prop := ∀ i < fl.len, fl.nextIndex i = none

instance (fl : Freelist) : Decidable fl.Full :=
  inferInstanceAs (Decidable (∀ i < fl.len, fl.nextIndex i = none))

namespace WasioHost

open Freelist (Represents freelistNext_cases)

/-! ### The descriptors that are open -/

/-- The open descriptors after a host call: a listening socket and a connection are
opened, and a descriptor is closed, if the call succeeds. -/
def afterCall (fds : Multiset ℤ) (host : HostAnswer) : HostCall → Multiset ℤ
  | .listen _ _ | .accept _ => if host.ret < 0 then fds else host.ret ::ₘ fds
  | .close fd => if host.ret = 0 then fds.erase fd else fds
  | .recv _ _ | .send _ _ | .poll _ _ => fds

/-- The answer of the host an operation is given. -/
def Op.host : Op → Option HostAnswer
  | .listen _ _ host | .accept _ host | .recv _ _ host | .send _ _ host | .poll _ _ host
  | .close _ host => some host
  | .wrap _ | .notifyRecv _ | .notifySend _ => none

/-- **The open host descriptors** after one more operation. -/
def openFds (fds : Multiset ℤ) (a : Op × Reply) : Multiset ℤ :=
  match a.1.host, a.2.call with
  | some host, some call => afterCall fds host call
  | _, _ => fds

/-! ### What a failed operation leaves -/

/-- **A failed operation leaves nothing behind**: the table and the open descriptors
are as before. -/
def LeavesNothing (s : WasioPollfd) (fds : Multiset ℤ) (a : Op × Reply) (t : WasioPollfd) :
    Prop :=
  a.2.result ≠ .ok → t = s ∧ openFds fds a = fds

/-- The operation works on single descriptors. -/
def Op.OnDescriptor : Op → Prop
  | .listen _ _ _ | .wrap _ | .accept _ _ | .recv _ _ _ | .send _ _ _ | .close _ _ => True
  | .notifyRecv _ | .notifySend _ | .poll _ _ _ => False

/-- **The operation strands a descriptor**: the host hands one out, and the table is
full. -/
def Op.Strands (s : WasioPollfd) : Op → Prop
  | .listen _ _ host | .accept _ host => 0 ≤ host.ret ∧ s.fl.Full
  | .wrap _ | .recv _ _ _ | .send _ _ _ | .notifyRecv _ | .notifySend _ | .poll _ _ _
  | .close _ _ => False

variable {s t : WasioPollfd} {fds : Multiset ℤ} {a : Op × Reply}

/-- `wasio_wrap` binds a slot, or the table is full and nothing changes. -/
theorem wasioWrap_cases (s : WasioPollfd) (d : ℤ) :
    (¬s.fl.Full ∧ ∃ v fl, wasioWrap s d = (.ok, some v, bindSlot s v d fl)) ∨
      (s.fl.Full ∧ wasioWrap s d = (.efull, none, s)) := by
  rcases freelistNext_cases s.fl with ⟨i, k, hi, hk, -, hnext⟩ | ⟨hfull, hnext⟩
  · refine Or.inl ⟨fun hfull => ?_, _, _, by rw [wasioWrap, hnext]; rfl⟩
    exact absurd (hk.symm.trans (hfull i hi)) (by simp)
  · exact Or.inr ⟨hfull, by rw [wasioWrap, hnext]⟩

/-- An operation that returned `WASIO_OK` has nothing to undo. -/
theorem leavesNothing_of_ok (h : a.2.result = .ok) : LeavesNothing s fds a t :=
  fun hfail => absurd h hfail

/-- A call of the host that opens a descriptor shows. -/
theorem cons_ne_self (d : ℤ) (fds : Multiset ℤ) : d ::ₘ fds ≠ fds := by
  intro h
  have hcard := congrArg Multiset.card h
  rw [Multiset.card_cons] at hcard
  omega

/-- **An operation leaves nothing behind when it fails, exactly if it strands no
descriptor.** -/
theorem leavesNothing_iff (hop : a.1.OnDescriptor) (h : perform s a.1 = some (a.2, t)) :
    LeavesNothing s fds a t ↔ ¬a.1.Strands s := by
  obtain ⟨op, r⟩ := a
  cases op with
  | notifyRecv | notifySend | poll => exact hop.elim
  | listen port backlog host =>
    simp only [perform, wasioListen, Option.some.injEq] at h
    split_ifs at h with hneg
    · obtain ⟨rfl, rfl⟩ := Prod.mk.inj h
      refine iff_of_true (fun _ => ⟨rfl, ?_⟩) fun hstrand => absurd hstrand.1 (not_le.mpr hneg)
      simp [openFds, Op.host, afterCall, hneg]
    · rcases wasioWrap_cases s host.ret with ⟨hfree, v, fl, hw⟩ | ⟨hfull, hw⟩ <;> rw [hw] at h <;>
        obtain ⟨rfl, rfl⟩ := Prod.mk.inj h
      · exact iff_of_true (leavesNothing_of_ok rfl) fun hstrand => hfree hstrand.2
      · -- the socket is open and in no slot
        refine iff_of_false (fun hleft => ?_) (not_not_intro ⟨not_lt.mp hneg, hfull⟩)
        have hopen := (hleft (by simp)).2
        simp only [openFds, Op.host, afterCall, if_neg hneg] at hopen
        exact cons_ne_self _ _ hopen
  | wrap fd =>
    simp only [perform, Option.some.injEq] at h
    refine iff_of_true ?_ id
    rcases wasioWrap_cases s fd with ⟨-, v, fl, hw⟩ | ⟨-, hw⟩ <;> rw [hw] at h <;>
      obtain ⟨rfl, rfl⟩ := Prod.mk.inj h
    · exact leavesNothing_of_ok rfl
    · exact fun _ => ⟨rfl, rfl⟩
  | accept vfd host =>
    simp only [perform, wasioAccept, Option.some.injEq] at h
    split_ifs at h with hneg
    · obtain ⟨rfl, rfl⟩ := Prod.mk.inj h
      refine iff_of_true (fun _ => ⟨rfl, ?_⟩) fun hstrand => absurd hstrand.1 (not_le.mpr hneg)
      simp [openFds, Op.host, afterCall, hneg]
    · rcases wasioWrap_cases s host.ret with ⟨hfree, v, fl, hw⟩ | ⟨hfull, hw⟩ <;> rw [hw] at h <;>
        obtain ⟨rfl, rfl⟩ := Prod.mk.inj h
      · exact iff_of_true (leavesNothing_of_ok rfl) fun hstrand => hfree hstrand.2
      · -- the connection is open and in no slot
        refine iff_of_false (fun hleft => ?_) (not_not_intro ⟨not_lt.mp hneg, hfull⟩)
        have hopen := (hleft (by simp)).2
        simp only [openFds, Op.host, afterCall, if_neg hneg] at hopen
        exact cons_ne_self _ _ hopen
  | recv vfd len host =>
    simp only [perform, wasioRecv, Option.some.injEq] at h
    split_ifs at h <;> obtain ⟨rfl, rfl⟩ := Prod.mk.inj h <;>
      exact iff_of_true (fun _ => ⟨rfl, rfl⟩) id
  | send vfd len host =>
    simp only [perform, wasioSend, Option.some.injEq] at h
    split_ifs at h <;> obtain ⟨rfl, rfl⟩ := Prod.mk.inj h <;>
      exact iff_of_true (fun _ => ⟨rfl, rfl⟩) id
  | close vfd host =>
    simp only [perform, wasioClose] at h
    refine iff_of_true ?_ id
    split_ifs at h with hfail
    · -- the host has not closed the descriptor
      obtain ⟨rfl, rfl⟩ := Prod.mk.inj (Option.some.inj h)
      exact fun _ => ⟨rfl, by simp [openFds, Op.host, afterCall, hfail]⟩
    · split at h
      · obtain ⟨rfl, -⟩ := Prod.mk.inj (Option.some.inj h)
        exact leavesNothing_of_ok rfl
      · exact absurd h (by simp)

/-- A table in order is full when as many slots are bound as it has. -/
theorem TableInv.full_iff {cap : ℕ} {O : Finset ℕ} (h : TableInv cap O s) (hcap : cap % 32 = 0) :
    s.fl.Full ↔ s.length = cap := by
  rw [h.length_eq]
  constructor
  · intro hfull
    rcases freelistNext_cases s.fl with ⟨i, k, hi, hk, -, -⟩ | ⟨-, hnext⟩
    · exact absurd (hk.symm.trans (hfull i hi)) (by simp)
    · have hsub : Finset.range cap ⊆ O := fun v hv =>
        (h.rep.next_full hnext).1 v (Finset.mem_range.mp hv)
      have hle := Finset.card_le_card hsub
      rw [Finset.card_range] at hle
      exact (LeastFirst.card_le_of_forall_lt h.out_lt).antisymm hle
  · intro hcard
    rcases freelistNext_cases s.fl with ⟨i, k, -, -, -, hnext⟩ | ⟨hfull, -⟩
    · obtain ⟨e, he, hleast, -, -⟩ := h.rep.next_ok hnext
      obtain rfl := Option.some.inj he
      have hlt := h.rep.next_lt (Or.inr hcap) hnext
      exact absurd (LeastFirst.mem_of_card_eq h.out_lt hcard hlt) hleast.1
    · exact hfull

end WasioHost

open WasioHost

/-- **Exactly the operations that strand no descriptor leave nothing behind when they
fail**, whatever the table, the arguments and the answer of the host. -/
theorem wasioHost_leavesNothing_iff (s t : WasioPollfd) (fds : Multiset ℤ) (a : Op × Reply)
    (hop : a.1.OnDescriptor) (h : perform s a.1 = some (a.2, t)) :
    LeavesNothing s fds a t ↔ ¬a.1.Strands s :=
  leavesNothing_iff hop h

/-- An `accept` that would block leaves nothing behind. -/
theorem wasioHost_leavesNothing_iff_eagain :
    ∃ s a t, perform s a.1 = some (a.2, t) ∧ a.2.result = .eagain ∧ LeavesNothing s 0 a t := by
  obtain ⟨s, -, y, haccept, hres⟩ : ∃ s ∈ (wasioInit 1 true).2,
      ∃ y ∈ perform s (.accept 0 ⟨-1, HOST_EAGAIN⟩), y.1.result = .eagain := by
    decide +kernel
  exact ⟨s, (.accept 0 ⟨-1, HOST_EAGAIN⟩, y.1), y.2, haccept, hres,
    (wasioHost_leavesNothing_iff s y.2 0 (.accept 0 ⟨-1, HOST_EAGAIN⟩, y.1) trivial haccept).mpr
      fun hstrand => absurd hstrand.1 (by decide)⟩

/-- **A connection with no slot stays open**: with its one slot bound to the socket, a
table has none for the connection the host hands out. -/
theorem not_leavesNothing_accept :
    ∃ l s a t, WasioHost.Run 1 l s ∧ Tr s a t ∧ a.2.call = some (.accept 3) ∧
      a.2.result = .efull ∧ openFds {3} a = {5, 3} ∧ ¬LeavesNothing s {3} a t := by
  obtain ⟨s₀, hinit, x, hlisten, hcap, y, haccept, hcall, hres⟩ :
      ∃ s₀ ∈ (wasioInit 1 true).2, ∃ x ∈ perform s₀ (.listen 8080 1000 ⟨3, 0⟩),
        x.2.capacity = 1 ∧ ∃ y ∈ perform x.2 (.accept 0 ⟨5, 0⟩),
          y.1.call = some (.accept 3) ∧ y.1.result = .efull := by
    decide +kernel
  have hopen : openFds {3} (.accept 0 ⟨5, 0⟩, y.1) = 5 ::ₘ {3} := by
    simp [openFds, Op.host, hcall, afterCall]
  refine ⟨[(.listen 8080 1000 ⟨3, 0⟩, x.1)], x.2, (.accept 0 ⟨5, 0⟩, y.1), y.2,
    ⟨s₀, wasioInit_eq_of_mem hinit, .single ⟨⟨by simp [Op.vfd], by simp, by simp⟩, hlisten⟩⟩,
    ⟨⟨by simp [Op.vfd, hcap], by simp, by simp⟩, haccept⟩, hcall, hres, hopen, fun hleft => ?_⟩
  have hsame := (hleft (by simp [hres])).2
  rw [hopen] at hsame
  exact cons_ne_self _ _ hsame

end Waeio
