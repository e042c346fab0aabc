import Waeio.WasioWasi.Binding

/-!
# Accepting a connection over WASI

`wasio_accept` of `src/wasio_wasi.c` reserves a slot before it calls `accept`, so two
things can go wrong, and it notices neither: it takes the result code of `wasio_wrap`
for one that is negative on failure, and it does nothing where `accept` fails. So it
returns `WASIO_OK` whenever it returns (`Waeio.WasioWasi.wasioAccept_ok`).

`Waeio.WasioWasi.AcceptRight` says what it should do, and
`Waeio.wasioWasi_acceptRight_iff` that it does so exactly where nothing fails.
-/

namespace Waeio

namespace WasioWasi

open Freelist (Represents)

/-- **A run on a fresh table**: `wasio_init` and then any operations. -/
def Run (capacity : ℕ) (l : List (Op × Reply)) (wfd : WasioPollfd) : Prop :=
  ∃ s₀, wasioInit capacity true = (.ok, some s₀) ∧ Lts.Steps Tr s₀ l wfd

/-- There is a free slot. -/
def HasFreeSlot (s : WasioPollfd) : Prop := ∃ v < s.capacity, s.fl.Available v

/-- The descriptor a reply's system call has opened; no operation closes one it has
opened. -/
def opened (r : Reply) (ans : ℤ) : Option ℤ :=
  match r.call with
  | some (.accept _) => if 0 ≤ ans then some ans else none
  | _ => none

/-- **What `wasio_accept` should do**: return, with `WASIO_OK` only if `accept` returned
a descriptor and a slot that was free holds it now; and if there is no free slot or
`accept` fails, with another code and with nothing changed and nothing open. -/
def AcceptRight (s : WasioPollfd) (vfd newConn : ℕ) (ans : ℤ) : Prop :=
  ∃ r t, wasioAccept s vfd newConn ans = some (r, t) ∧
    (r.result = .ok → 0 ≤ ans ∧
      ∃ v < s.capacity, r.vfd = some v ∧ s.fl.Available v ∧ (t.vfds v).fd = ans) ∧
    (¬(HasFreeSlot s ∧ 0 ≤ ans) → r.result ≠ .ok ∧ t = s ∧ opened r ans = none)

/-- The freelist of the table represents the slots in use. -/
def InUse (cap : ℕ) (s : WasioPollfd) : Prop :=
  s.capacity = cap ∧ ∃ O, Represents cap O s.fl

variable {cap : ℕ} {s t : WasioPollfd} {a : Op × Reply}

theorem inUse_init (hlt : cap < 2 ^ 32) (h : wasioInit cap true = (.ok, some s)) : InUse cap s := by
  have hinv := bindInv_init hlt h
  obtain ⟨O, hrep, -⟩ := hinv.rep
  exact ⟨hinv.capacity_eq, O, hrep⟩

/-- Reserving a slot keeps the freelist in order. -/
theorem InUse.wrap (h : InUse cap s) {fd : ℤ} {r : WasioResult × Option ℕ × WasioPollfd}
    (hw : wasioWrap s fd = some r) : InUse cap r.2.2 := by
  obtain ⟨hcap, O, hrep⟩ := h
  rcases wrap_cases hrep hw with ⟨v, fl, rfl, -, -, -, hrep'⟩ | ⟨rfl, -, -⟩
  · exact ⟨hcap, _, hrep'⟩
  · exact ⟨hcap, O, hrep⟩

/-- **`wasio_accept` returns `WASIO_OK`**, if it returns. -/
theorem wasioAccept_ok {vfd newConn : ℕ} {ans : ℤ} {r : Reply}
    (h : wasioAccept s vfd newConn ans = some (r, t)) : r.result = .ok := by
  obtain ⟨⟨res, out, u⟩, -, hacc⟩ := Option.bind_eq_some_iff.mp h
  have hcode : ¬code res < 0 := by cases res <;> decide
  dsimp only at hacc
  rw [if_neg hcode] at hacc
  split_ifs at hacc <;> obtain ⟨rfl, -⟩ := Prod.mk.inj (Option.some.inj hacc) <;> rfl

/-- What is left of the table by `wasio_accept` has the freelist `wasio_wrap` left. -/
theorem InUse.accept (h : InUse cap s) {vfd newConn : ℕ} {ans : ℤ} {r : Reply}
    (hacc : wasioAccept s vfd newConn ans = some (r, t)) : InUse cap t := by
  obtain ⟨⟨res, out, u⟩, hw, hacc⟩ := Option.bind_eq_some_iff.mp hacc
  obtain ⟨hcap, hrep⟩ := h.wrap hw
  dsimp only at hacc
  split_ifs at hacc <;> obtain ⟨-, rfl⟩ := Prod.mk.inj (Option.some.inj hacc) <;>
    exact ⟨hcap, hrep⟩

/-- **An operation keeps the freelist in order.** -/
theorem InUse.step (h : InUse cap s) (htr : Tr s a t) : InUse cap t := by
  obtain ⟨op, r⟩ := a
  obtain ⟨hvfd, hper⟩ := htr
  cases op with
  | wrap fd =>
    obtain ⟨x, hw, hpair⟩ := Option.map_eq_some_iff.mp hper
    obtain ⟨-, rfl⟩ := Prod.mk.inj hpair
    exact h.wrap hw
  | accept vfd newConn ans => exact h.accept hper
  | recv vfd len ans =>
    simp only [perform, wasioRecv, Option.some.injEq] at hper
    split_ifs at hper <;> obtain ⟨-, rfl⟩ := Prod.mk.inj hper <;> exact h
  | send vfd len ans =>
    simp only [perform, wasioSend, Option.some.injEq] at hper
    split_ifs at hper <;> obtain ⟨-, rfl⟩ := Prod.mk.inj hper <;> exact h
  | markReady vfd =>
    obtain ⟨-, rfl⟩ := Prod.mk.inj (Option.some.inj hper)
    exact h
  | poll timeout revents ans =>
    simp only [perform, wasioPoll, Option.some.injEq] at hper
    split_ifs at hper <;> obtain ⟨-, rfl⟩ := Prod.mk.inj hper <;> exact h
  | close vfd ans =>
    obtain ⟨hcap, O, hrep⟩ := h
    simp only [perform, wasioClose] at hper
    split_ifs at hper
    · obtain ⟨-, rfl⟩ := Prod.mk.inj (Option.some.inj hper)
      exact ⟨hcap, O, hrep⟩
    · have hlt : vfd < s.fl.size := by
        rw [hrep.size_eq, ← hcap]
        exact hvfd vfd rfl
      have hrec := Freelist.freelistReclaim_of_lt hlt
      rw [hrec] at hper
      obtain ⟨-, rfl⟩ := Prod.mk.inj (Option.some.inj hper)
      exact ⟨hcap, _, (hrep.reclaim_ok hrec).2.2⟩

theorem Run.inUse (hlt : cap < 2 ^ 32) {l : List (Op × Reply)} (h : Run cap l s) : InUse cap s := by
  obtain ⟨s₀, hinit, hsteps⟩ := h
  exact hsteps.invariant (fun _ _ _ hs htr => hs.step htr) (inUse_init hlt hinit)

/-- With a free slot, `wasio_wrap` reserves one. -/
theorem InUse.wrap_of_hasFreeSlot (h : InUse cap s) (hfree : HasFreeSlot s) (fd : ℤ) :
    ∃ v t, wasioWrap s fd = some (.ok, some v, t) ∧ v < s.capacity ∧ s.fl.Available v ∧
      t.capacity = s.capacity := by
  obtain ⟨hcap, O, hrep⟩ := h
  obtain ⟨u, hu, havail⟩ := hfree
  have hle := hrep.size_le
  have huO : u ∉ O := (hrep.avail u (by omega)).mp havail
  rcases Freelist.freelistNext_result s.fl with hok | hfull
  · obtain ⟨v, hv, hleast, -, -⟩ := hrep.next_ok (Prod.ext hok rfl)
    have hvu : v ≤ u := hleast.2 huO
    have hnext : freelistNext s.fl = (.ok, some v, (freelistNext s.fl).2.2) :=
      Prod.ext hok (Prod.ext hv rfl)
    have hlt : v < s.capacity := by omega
    refine ⟨v, { s with
      fl := (freelistNext s.fl).2.2
      vfds := setFd s.vfds v (-1)
      fds := Function.update s.fds v (toInt fd)
      length := Uint32.succ s.length }, ?_, hlt, (hrep.avail v (by omega)).mpr hleast.1, rfl⟩
    rw [wasioWrap, hnext]
    exact if_pos hlt
  · exact absurd ((hrep.next_full (Prod.ext hfull rfl)).1 u (by omega)) huO

/-- **`wasio_accept` is right exactly where nothing fails.** -/
theorem acceptRight_iff (h : InUse cap s) {vfd newConn : ℕ} {ans : ℤ} :
    AcceptRight s vfd newConn ans ↔ HasFreeSlot s ∧ 0 ≤ ans := by
  constructor
  · rintro ⟨r, t, hacc, -, hfail⟩
    by_contra hnot
    exact (hfail hnot).1 (wasioAccept_ok hacc)
  · rintro ⟨hfree, hans⟩
    obtain ⟨v, u, hw, hlt, havail, hcap⟩ := h.wrap_of_hasFreeSlot hfree (-1)
    have hacc : wasioAccept s vfd newConn ans = some (⟨some (.accept (toInt (u.fds vfd))), .ok,
        some v, none⟩, { u with vfds := setFd u.vfds v ans }) := by
      rw [wasioAccept, hw]
      simp [code, hans, hcap, hlt]
    refine ⟨_, _, hacc, fun _ => ⟨hans, v, hlt, rfl, havail, by simp [setFd]⟩, fun hnot => ?_⟩
    exact absurd ⟨hfree, hans⟩ hnot

end WasioWasi

open WasioWasi

/-- **A failed `accept` is reported and undone exactly where nothing fails**: in every
run, `wasio_accept` does what it should if and only if there is a free slot and `accept`
returns a descriptor. -/
theorem wasioWasi_acceptRight_iff (cap : ℕ) (hlt : cap < 2 ^ 32)
    (l : List (WasioWasi.Op × WasioWasi.Reply)) (s : WasioWasi.WasioPollfd)
    (h : WasioWasi.Run cap l s) (vfd newConn : ℕ) (ans : ℤ) :
    AcceptRight s vfd newConn ans ↔ HasFreeSlot s ∧ 0 ≤ ans :=
  acceptRight_iff (h.inUse hlt)

/-- A connection accepted into a free slot. -/
theorem wasioWasi_acceptRight_iff_wrap :
    ∃ l s, WasioWasi.Run 32 l s ∧ AcceptRight s 0 9 4 := by
  obtain ⟨s₀, hinit, x, hx, v, hv, havail⟩ : ∃ s₀ ∈ (WasioWasi.wasioInit 32 true).2,
      ∃ x ∈ WasioWasi.perform s₀ (.wrap 3), ∃ v < x.2.capacity, x.2.fl.Available v := by
    obtain ⟨s₀, hinit, x, hx, hlt, havail⟩ : ∃ s₀ ∈ (WasioWasi.wasioInit 32 true).2,
        ∃ x ∈ WasioWasi.perform s₀ (.wrap 3), 1 < x.2.capacity ∧ x.2.fl.Available 1 := by
      decide +kernel
    exact ⟨s₀, hinit, x, hx, 1, hlt, havail⟩
  have hrun : WasioWasi.Run 32 [(.wrap 3, x.1)] x.2 :=
    ⟨s₀, wasioInit_eq_of_mem hinit, .single ⟨by simp [Op.vfd], hx⟩⟩
  exact ⟨_, x.2, hrun, (wasioWasi_acceptRight_iff 32 (by decide) _ x.2 hrun 0 9 4).mpr
    ⟨⟨v, hv, havail⟩, by decide⟩⟩

/-- **Two failures that return `WASIO_OK`**: with `accept` failing the slot `1` stays
reserved; and with no free slot the descriptor `5` goes into the slot of the socket. -/
theorem not_acceptRight :
    (∃ l s r t, WasioWasi.Run 32 l s ∧ WasioWasi.wasioAccept s 0 0 (-1) = some (r, t) ∧
      r.result = .ok ∧ t.length = s.length + 1 ∧ ¬AcceptRight s 0 0 (-1)) ∧
    ∃ l s r t, WasioWasi.Run 1 l s ∧ WasioWasi.wasioAccept s 0 0 5 = some (r, t) ∧
      r.result = .ok ∧ (t.vfds 0).fd = 5 ∧ ¬AcceptRight s 0 0 5 := by
  constructor
  · obtain ⟨s₀, hinit, x, hx, y, hy, hres, hlen⟩ : ∃ s₀ ∈ (WasioWasi.wasioInit 32 true).2,
        ∃ x ∈ WasioWasi.perform s₀ (.wrap 3), ∃ y ∈ WasioWasi.wasioAccept x.2 0 0 (-1),
          y.1.result = .ok ∧ y.2.length = x.2.length + 1 := by
      decide +kernel
    refine ⟨[(.wrap 3, x.1)], x.2, y.1, y.2, ⟨s₀, wasioInit_eq_of_mem hinit,
      .single ⟨by simp [Op.vfd], hx⟩⟩, hy, hres, hlen, ?_⟩
    rintro ⟨r, t, hacc, hok, -⟩
    exact absurd (hok (wasioAccept_ok hacc)).1 (by decide)
  · obtain ⟨s₀, hinit, x, hx, hfull, y, hy, hres, hfd⟩ : ∃ s₀ ∈ (WasioWasi.wasioInit 1 true).2,
        ∃ x ∈ WasioWasi.perform s₀ (.wrap 3), (¬∃ v < x.2.capacity, x.2.fl.Available v) ∧
          ∃ y ∈ WasioWasi.wasioAccept x.2 0 0 5, y.1.result = .ok ∧ (y.2.vfds 0).fd = 5 := by
      decide +kernel
    refine ⟨[(.wrap 3, x.1)], x.2, y.1, y.2, ⟨s₀, wasioInit_eq_of_mem hinit,
      .single ⟨by simp [Op.vfd], hx⟩⟩, hy, hres, hfd, ?_⟩
    rintro ⟨r, t, hacc, -, hfail⟩
    exact (hfail fun h => hfull h.1).1 (wasioAccept_ok hacc)

end Waeio
