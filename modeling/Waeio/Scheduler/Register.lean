import Waeio.Scheduler.Orderly

/-!
# Waits are registered on the descriptor they name

When `waeio_accept(v)`, `waeio_recv(v)` or `waeio_send(v)` yields, the slot `v` of
the poll array is to gain the event bit of the wait, and no other slot is to
change (`Waeio.Scheduler.RegistersWait`). Two slips stand in the way.

* The three calls write the member `vfd` of the command, which is the first word
  of its union; `handle_request` reads the member `arg`, which is the second word.
  So the slot that is touched is the one the unset word happens to name.
* `src/wasio_host.c` imports `host_pollout` under the name `"pollin"`, so
  `wasio_notify_send` adds the bit for reading.

`Waeio.registersWait_iff` says when a wait comes out right all the same: the word
names the slot and the wait is not for sending, or there is nothing to do, both
bits being there already.
-/

namespace Waeio

namespace Scheduler

/-- The event bit a call waits for. -/
def Call.wanted : Call → BitVec 16
  | .send _ _ => POLLOUT
  | _ => POLLIN

/-- The event mask of the slot `v` has the bits of `b`. -/
def HasEvents (wfd : WasioPollfd) (v : ℕ) (b : BitVec 16) : Prop :=
  (wfd.vfds v).events ||| b = (wfd.vfds v).events

/-- **A wait for `v` is registered**: the request of the call is processed, the
slot `v` gains the event bit of the call, and every other slot keeps its
descriptor and its event mask. -/
def RegistersWait (s : State) (f : ℕ) (call : Call) (residue : BitVec 32) (v : ℕ) : Prop :=
  ∃ t, handleRequest s f .yield (call.cmd residue) = some (t, true) ∧
    (t.wfd.vfds v).events = (s.wfd.vfds v).events ||| call.wanted ∧
    ∀ u ≠ v, (t.wfd.vfds u).fd = (s.wfd.vfds u).fd ∧
      (t.wfd.vfds u).events = (s.wfd.vfds u).events

/-- **When a wait for `v` comes out right**: the word of the command that the call
does not set names `v`, and the call does not send; or it names a slot where
there is nothing to change, and the bit of the call is at `v` already. -/
def ComesOutRight (s : State) (call : Call) (residue v : BitVec 32) : Prop :=
  residue.toNat < s.wfd.capacity ∧
    ((residue = v ∧ call.wanted = POLLIN) ∨
      (HasEvents s.wfd v.toNat (call.wanted) ∧ HasEvents s.wfd residue.toNat POLLIN ∧
        (residue ≠ v → (s.wfd.vfds residue.toNat).fd = s.wfd.fds residue.toNat)))

variable {s : State} {f : ℕ} {call : Call} {v residue : BitVec 32}

/-! ### What the request does -/

/-- **The request of a wait** adds the bit for reading to the slot the unset word
names, whatever the call. -/
theorem handleRequest_wait (hin : s.wfd.pollin = POLLIN) (hout : s.wfd.pollout = POLLIN)
    (hv : call.waitsFor = some v) :
    handleRequest s f .yield (call.cmd residue) =
      if residue.toNat < s.wfd.capacity then some (notify s residue.toNat POLLIN, true)
      else none := by
  cases call with
  | async | acceptFull | cancelAll => exact absurd hv (by simp [Call.waitsFor])
  | accept | recv | send =>
    simp only [handleRequest, Call.cmd, Cmd.arg, wasioNotifyRecv, wasioNotifySend, hin, hout,
      notify]

theorem registersWait_iff_notify (hin : s.wfd.pollin = POLLIN) (hout : s.wfd.pollout = POLLIN)
    (hv : call.waitsFor = some v) :
    RegistersWait s f call residue v.toNat ↔
      residue.toNat < s.wfd.capacity ∧
        ((notify s residue.toNat POLLIN).wfd.vfds v.toNat).events =
          (s.wfd.vfds v.toNat).events ||| call.wanted ∧
        ∀ u ≠ v.toNat,
          ((notify s residue.toNat POLLIN).wfd.vfds u).fd = (s.wfd.vfds u).fd ∧
            ((notify s residue.toNat POLLIN).wfd.vfds u).events = (s.wfd.vfds u).events := by
  rw [RegistersWait, handleRequest_wait hin hout hv]
  constructor
  · rintro ⟨t, ht, hevents, hothers⟩
    split_ifs at ht with hlt
    obtain ⟨rfl, -⟩ := Prod.mk.inj (Option.some.inj ht)
    exact ⟨hlt, hevents, hothers⟩
  · rintro ⟨hlt, hevents, hothers⟩
    exact ⟨_, if_pos hlt, hevents, hothers⟩

/-! ### When it comes out right -/

/-- Two bits that add the same to a mask are in it. -/
theorem or_eq_self_of_disjoint {e a b : BitVec 16} (hab : a &&& b = 0) (h : e ||| a = e ||| b) :
    e ||| a = e := by
  refine BitVec.eq_of_getLsbD_eq fun i _ => ?_
  have h₁ : (e ||| a).getLsbD i = (e ||| b).getLsbD i := by rw [h]
  have h₂ : (a &&& b).getLsbD i = false := by simp [hab]
  simp only [BitVec.getLsbD_or, BitVec.getLsbD_and] at h₁ h₂ ⊢
  cases he : e.getLsbD i <;> cases ha : a.getLsbD i <;> simp_all

/-- The bit for reading is what the call wants, or both bits are in the mask. -/
theorem or_pollin_eq_or_wanted_iff (e : BitVec 16) (call : Call) :
    e ||| POLLIN = e ||| call.wanted ↔
      call.wanted = POLLIN ∨ (e ||| call.wanted = e ∧ e ||| POLLIN = e) := by
  constructor
  · intro h
    cases call with
    | send =>
      have hin := or_eq_self_of_disjoint (show POLLIN &&& POLLOUT = 0 by decide) h
      exact Or.inr ⟨h ▸ hin, hin⟩
    | _ => exact Or.inl rfl
  · rintro (h | ⟨h, h'⟩)
    · rw [h]
    · rw [h, h']

end Scheduler

open Scheduler

/-- **When a wait is registered on the descriptor it names**: exactly if the word
of the command that the call does not set names the slot and the call does not
send, or there is nothing to register. -/
theorem registersWait_iff (s : State) (f : ℕ) (call : Call) (residue v : BitVec 32)
    (hin : s.wfd.pollin = WasioHost.importPollin.result)
    (hout : s.wfd.pollout = WasioHost.importPollout.result) (hv : call.waitsFor = some v) :
    RegistersWait s f call residue v.toNat ↔ ComesOutRight s call residue v := by
  rw [registersWait_iff_notify hin hout hv, ComesOutRight]
  refine and_congr_right fun _ => ?_
  rcases eq_or_ne residue v with rfl | hne
  · -- the slot the wait names is the one that is touched
    have hothers : ∀ u ≠ residue.toNat,
        ((notify s residue.toNat POLLIN).wfd.vfds u).fd = (s.wfd.vfds u).fd ∧
          ((notify s residue.toNat POLLIN).wfd.vfds u).events = (s.wfd.vfds u).events := by
      intro u hu
      rw [notify_of_ne s hu]
      exact ⟨rfl, rfl⟩
    rw [notify_self, or_pollin_eq_or_wanted_iff]
    constructor
    · rintro ⟨h | ⟨h, h'⟩, -⟩
      · exact Or.inl ⟨rfl, h⟩
      · exact Or.inr ⟨h, h', fun hcon => absurd rfl hcon⟩
    · rintro (⟨-, h⟩ | ⟨h, h', -⟩)
      · exact ⟨Or.inl h, hothers⟩
      · exact ⟨Or.inr ⟨h, h'⟩, hothers⟩
  · -- another slot is touched, and must not change
    have hne' : v.toNat ≠ residue.toNat := fun he => hne (BitVec.eq_of_toNat_eq he.symm)
    rw [notify_of_ne s hne']
    constructor
    · rintro ⟨hevents, hothers⟩
      have hres := hothers residue.toNat hne'.symm
      rw [notify_self] at hres
      exact Or.inr ⟨hevents.symm, hres.2, fun _ => hres.1.symm⟩
    · rintro (⟨rfl, -⟩ | ⟨hevents, hres, hfd⟩)
      · exact absurd rfl hne
      · refine ⟨hevents.symm, fun u hu => ?_⟩
        rcases eq_or_ne u residue.toNat with rfl | hu'
        · rw [notify_self]
          exact ⟨(hfd hne).symm, hres⟩
        · rw [notify_of_ne s hu']
          exact ⟨rfl, rfl⟩

/-- The wait of the listening socket is registered if the unset word is `0`. -/
theorem registersWait_iff_accept :
    ∃ s, Scheduler.Run .clean [] s ∧ RegistersWait s mainfiber (.accept 0) 0 0 := by
  obtain ⟨s, hs, hcap⟩ : ∃ s ∈ after [], 0 < s.wfd.capacity := by decide +kernel
  have hrun := run_of_after hs
  refine ⟨s, hrun, ?_⟩
  exact (registersWait_iff s mainfiber (.accept 0) 0 0 hrun.orderly.pollin_eq
    hrun.orderly.pollout_eq rfl).mpr ⟨hcap, Or.inl ⟨rfl, rfl⟩⟩

/-- **Two waits of the main fiber that are lost**: that of a `waeio_recv` on the slot
0 if the unset word is `7`, and that of a `waeio_send` on the slot 0. -/
theorem not_registersWait_recv_send :
    ∃ s, Scheduler.Run .clean [.pop] s ∧ 0 < s.wfd.capacity ∧
      ¬RegistersWait s mainfiber (.recv 0 512) 7 0 ∧
      ¬RegistersWait s mainfiber (.send 0 512) 0 0 := by
  obtain ⟨s, hs, hcap, hevents⟩ :
      ∃ s ∈ after [.pop], 0 < s.wfd.capacity ∧ (s.wfd.vfds (0 : BitVec 32).toNat).events = 0 := by
    decide +kernel
  have hrun := run_of_after hs
  have hin := hrun.orderly.pollin_eq
  have hout := hrun.orderly.pollout_eq
  refine ⟨s, hrun, hcap, ?_, ?_⟩
  · rintro h
    obtain ⟨-, hgain, -⟩ := (registersWait_iff_notify (v := 0) hin hout rfl).mp h
    rw [notify_of_ne s (by decide), hevents] at hgain
    exact absurd hgain (by decide)
  · rintro h
    obtain ⟨-, hgain, -⟩ := (registersWait_iff_notify (v := 0) hin hout rfl).mp h
    rw [notify_self, hevents] at hgain
    have hbits : (0 : BitVec 16) ||| POLLIN = 0 ||| POLLOUT := hgain
    exact absurd hbits (by decide)

end Waeio
