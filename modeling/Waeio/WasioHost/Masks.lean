import Waeio.WasioHost.Table

/-!
# Interest masks

The mask `vfds[v].events` is to say what has been asked for since the slot `v` was
bound (`Waeio.WasioHost.MasksRight`): the read bit after a `wasio_notify_recv(v)`,
the write bit after a `wasio_notify_send(v)`. What has been asked for is a history
of the calls, `Waeio.WasioHost.since`.

Two things are in the way. The write bit the table uses is the one `host_pollin`
returns, under whose name `host_pollout` is imported, so a write interest registers
as a read interest. And no operation but `wasio_init` takes a bit out of a mask:
neither `wasio_close` nor `wasio_wrap` resets it, so the next connection in the slot
has the interests of the last one.

`Waeio.WasioHost.KeepsMasks` is the condition on a call to stay clear of both. Here
the capacity is any, and so is the descriptor wrapped: only the virtual descriptors
are below the capacity. The freelist may hand out a slot that is not.
-/

namespace Waeio

namespace WasioHost

open Freelist (Represents)

/-! ### What has been asked for -/

/-- What has been asked for since a slot was bound. -/
structure Asked where
  /-- A read interest. -/
  recv : Bool
  /-- A write interest. -/
  send : Bool
  deriving DecidableEq, Repr

/-- **What has been asked for since each slot was bound**, if it is bound, after one
more call. -/
def since (h : ℕ → Option Asked) (a : Op × Reply) : ℕ → Option Asked :=
  match a.1 with
  | .notifyRecv v => Function.update h v ((h v).map fun x => { x with recv := true })
  | .notifySend v => Function.update h v ((h v).map fun x => { x with send := true })
  | .close v _ => if a.2.result = .ok then Function.update h v none else h
  | _ =>
    match a.2.result, a.2.vfd with
    | .ok, some v => Function.update h v (some ⟨false, false⟩)
    | _, _ => h

/-- A call that names virtual descriptors below the capacity only. -/
def TrAny (s : WasioPollfd) (a : Op × Reply) (t : WasioPollfd) : Prop :=
  (∀ v, a.1.vfd = some v → v < s.capacity) ∧ perform s a.1 = some (a.2, t)

/-- The table, and what has been asked for. -/
abbrev Asking := (ℕ → Option Asked) × WasioPollfd

/-- A call, with the history beside the table. -/
abbrev TrAsking : Asking → Op × Reply → Asking → Prop :=
  Lts.Observed (fun h _ a _ => since h a) TrAny

/-- The mask has the bits asked for, and no others. -/
structure MaskRight (events : BitVec 16) (x : Asked) : Prop where
  recv : events &&& POLLIN ≠ 0 ↔ x.recv = true
  send : events &&& POLLOUT ≠ 0 ↔ x.send = true

/-- **The mask of every bound slot has the bits asked for since it was bound.** -/
def MasksRight (p : Asking) : Prop :=
  ∀ v x, p.1 v = some x → v < p.2.capacity ∧ MaskRight (p.2.vfds v).events x

/-- The call binds a slot, if there is a free one. -/
def Op.Opens : Op → Prop
  | .listen _ _ host | .accept _ host => 0 ≤ host.ret
  | .wrap _ => True
  | _ => False

/-- The slot the freelist hands out next is one of the table, and its mask has
neither bit. -/
def NextClean (s : WasioPollfd) : Prop :=
  ∀ v ∈ (freelistNext s.fl).2.1, v < s.capacity ∧ MaskRight (s.vfds v).events ⟨false, false⟩

/-- **The call keeps the masks right**: it asks for no write interest in a bound
slot, and binds no slot that has a bit left in its mask. -/
def KeepsMasks (p : Asking) (a : Op × Reply) : Prop :=
  (∀ v, a.1 = .notifySend v → p.1 v = none) ∧ (a.1.Opens → NextClean p.2)

/-! ### What a call does to the masks -/

/-- No mask has changed. -/
structure SameMasks (s t : WasioPollfd) : Prop where
  capacity_eq : t.capacity = s.capacity
  events_eq : ∀ v, (t.vfds v).events = (s.vfds v).events
  pollin_eq : t.pollin = s.pollin
  pollout_eq : t.pollout = s.pollout

variable {cap : ℕ} {O : Finset ℕ} {s t : WasioPollfd}

theorem SameMasks.refl (s : WasioPollfd) : SameMasks s s := ⟨rfl, fun _ => rfl, rfl, rfl⟩

/-- **What a call does** to the masks and to the slots in use. -/
inductive Effect (s : WasioPollfd) : Op × Reply → WasioPollfd → Prop
  /-- Nothing is bound, given up or asked for. -/
  | quiet {a : Op × Reply} {t : WasioPollfd} : SameMasks s t → t.fl = s.fl →
      (∀ h, since h a = h) → (∀ v, a.1 ≠ .notifySend v) →
      (a.1.Opens → (freelistNext s.fl).2.1 = none) → Effect s a t
  /-- The slot `v` is bound. -/
  | bound {a : Op × Reply} {t : WasioPollfd} (v : ℕ) : SameMasks s t →
      freelistNext s.fl = (.ok, some v, t.fl) →
      (∀ h, since h a = Function.update h v (some ⟨false, false⟩)) →
      (∀ v, a.1 ≠ .notifySend v) → a.1.Opens → Effect s a t
  /-- The slot `v` is given up. -/
  | freed {a : Op × Reply} {t : WasioPollfd} (v : ℕ) : SameMasks s t →
      freelistReclaim s.fl v = (.ok, t.fl) → (∀ h, since h a = Function.update h v none) →
      (∀ v, a.1 ≠ .notifySend v) → ¬a.1.Opens → Effect s a t
  /-- A read interest is asked for. -/
  | askedRecv (v : ℕ) (r : Reply) :
      Effect s (.notifyRecv v, r) { s with vfds := addEvent (setFd s.vfds v (s.fds v)) v s.pollin }
  /-- A write interest is asked for. -/
  | askedSend (v : ℕ) (r : Reply) :
      Effect s (.notifySend v, r) { s with vfds := addEvent (setFd s.vfds v (s.fds v)) v s.pollout }

theorem events_setFd (vfds : ℕ → Pollfd) (i : ℕ) (fd : ℤ) (v : ℕ) :
    (setFd vfds i fd v).events = (vfds v).events := by
  rcases eq_or_ne v i with rfl | hne
  · simp [setFd]
  · simp [setFd, hne]

/-- Binding a slot leaves the masks alone. -/
theorem sameMasks_bindSlot (s : WasioPollfd) (v : ℕ) (d : ℤ) (fl : Freelist) :
    SameMasks s (bindSlot s v d fl) :=
  ⟨rfl, events_setFd _ v d, rfl, rfl⟩

/-- Giving a slot up leaves the masks alone. -/
theorem sameMasks_unbindSlot (s : WasioPollfd) (v : ℕ) (fl : Freelist) :
    SameMasks s (unbindSlot s v fl) := by
  refine ⟨rfl, fun u => ?_, rfl, rfl⟩
  rcases eq_or_ne u v with rfl | hne
  · simp [unbindSlot]
  · simp [unbindSlot, hne]

/-- Polling leaves the masks alone. -/
theorem sameMasks_wasioPoll (s : WasioPollfd) (timeout : ℤ) (revents : ℕ → BitVec 16)
    (host : HostAnswer) : SameMasks s (wasioPoll s timeout revents host).2 := by
  rw [wasioPoll]
  split_ifs <;> exact ⟨rfl, fun _ => rfl, rfl, rfl⟩

/-- `wasio_wrap` binds the slot the freelist hands out, or finds none. -/
theorem wrap_effect (h : Represents cap O s.fl) (d : ℤ) :
    (∃ v u, wasioWrap s d = (.ok, some v, u) ∧ SameMasks s u ∧
      freelistNext s.fl = (.ok, some v, u.fl)) ∨
    (wasioWrap s d = (.efull, none, s) ∧ (freelistNext s.fl).2.1 = none) := by
  rcases Freelist.freelistNext_result s.fl with hok | hfull
  · obtain ⟨v, hv, -⟩ := h.next_ok (Prod.ext hok rfl)
    have hnext : freelistNext s.fl = (.ok, some v, (freelistNext s.fl).2.2) :=
      Prod.ext hok (Prod.ext hv rfl)
    refine Or.inl ⟨v, bindSlot s v d (freelistNext s.fl).2.2, ?_, sameMasks_bindSlot .., hnext⟩
    rw [wasioWrap, hnext]
    rfl
  · obtain ⟨-, hnone, hfl⟩ := h.next_full (Prod.ext hfull rfl)
    refine Or.inr ⟨?_, hnone⟩
    rw [wasioWrap, show freelistNext s.fl = (.full, none, s.fl) from
      Prod.ext hfull (Prod.ext hnone hfl)]

/-- **The cases of a call.** -/
theorem effect_of_tr (h : Represents cap O s.fl) (hcap : s.capacity = cap) {a : Op × Reply}
    (htr : TrAny s a t) : Effect s a t := by
  obtain ⟨op, r⟩ := a
  obtain ⟨hvfd, hper⟩ := htr
  cases op with
  | listen port backlog host =>
    simp only [perform, wasioListen, Option.some.injEq] at hper
    split_ifs at hper with hneg
    · obtain ⟨rfl, rfl⟩ := Prod.mk.inj hper
      exact .quiet (.refl s) rfl (fun _ => by simp [since]) (by simp) fun hop => absurd hop (by
        simpa [Op.Opens] using hneg)
    · rcases wrap_effect h host.ret with ⟨v, u, hw, hsame, hnext⟩ | ⟨hw, hnone⟩ <;>
        rw [hw] at hper <;> obtain ⟨rfl, rfl⟩ := Prod.mk.inj hper
      · exact .bound v hsame hnext (fun _ => by simp [since]) (by simp) (not_lt.mp hneg)
      · exact .quiet (.refl s) rfl (fun _ => by simp [since]) (by simp) fun _ => hnone
  | wrap fd =>
    simp only [perform, Option.some.injEq] at hper
    rcases wrap_effect h fd with ⟨v, u, hw, hsame, hnext⟩ | ⟨hw, hnone⟩ <;>
      rw [hw] at hper <;> obtain ⟨rfl, rfl⟩ := Prod.mk.inj hper
    · exact .bound v hsame hnext (fun _ => by simp [since]) (by simp) trivial
    · exact .quiet (.refl s) rfl (fun _ => by simp [since]) (by simp) fun _ => hnone
  | accept vfd host =>
    simp only [perform, wasioAccept, Option.some.injEq] at hper
    split_ifs at hper with hneg
    · obtain ⟨rfl, rfl⟩ := Prod.mk.inj hper
      exact .quiet (.refl s) rfl (fun _ => by simp [since]) (by simp) fun hop => absurd hop (by
        simpa [Op.Opens] using hneg)
    · rcases wrap_effect h host.ret with ⟨v, u, hw, hsame, hnext⟩ | ⟨hw, hnone⟩ <;>
        rw [hw] at hper <;> obtain ⟨rfl, rfl⟩ := Prod.mk.inj hper
      · exact .bound v
          ⟨hsame.capacity_eq, fun u => (events_setFd _ v _ u).trans (hsame.events_eq u),
            hsame.pollin_eq, hsame.pollout_eq⟩
          hnext (fun _ => by simp [since]) (by simp) (not_lt.mp hneg)
      · exact .quiet (.refl s) rfl (fun _ => by simp [since]) (by simp) fun _ => hnone
  | recv vfd len host =>
    simp only [perform, wasioRecv, Option.some.injEq] at hper
    split_ifs at hper <;> obtain ⟨rfl, rfl⟩ := Prod.mk.inj hper <;>
      exact .quiet (.refl s) rfl (fun _ => by simp [since]) (by simp) False.elim
  | send vfd len host =>
    simp only [perform, wasioSend, Option.some.injEq] at hper
    split_ifs at hper <;> obtain ⟨rfl, rfl⟩ := Prod.mk.inj hper <;>
      exact .quiet (.refl s) rfl (fun _ => by simp [since]) (by simp) False.elim
  | notifyRecv vfd =>
    obtain ⟨-, rfl⟩ := Prod.mk.inj (Option.some.inj hper)
    exact .askedRecv vfd r
  | notifySend vfd =>
    obtain ⟨-, rfl⟩ := Prod.mk.inj (Option.some.inj hper)
    exact .askedSend vfd r
  | poll timeout revents host =>
    simp only [perform, wasioPoll, Option.some.injEq] at hper
    split_ifs at hper <;> obtain ⟨rfl, rfl⟩ := Prod.mk.inj hper <;>
      exact .quiet ⟨rfl, fun _ => rfl, rfl, rfl⟩ rfl (fun _ => by simp [since]) (by simp) False.elim
  | close vfd host =>
    have hlt : vfd < s.fl.size := by
      rw [h.size_eq, ← hcap]
      exact hvfd vfd rfl
    simp only [perform, wasioClose] at hper
    split_ifs at hper with hfail
    · obtain ⟨rfl, rfl⟩ := Prod.mk.inj (Option.some.inj hper)
      exact .quiet (.refl s) rfl (fun _ => by simp [since, translateError_ne_ok]) (by simp)
        False.elim
    · -- the slot is below the capacity, so the freelist takes the entry back
      have hrec := Freelist.freelistReclaim_of_lt hlt
      rw [hrec] at hper
      obtain ⟨rfl, rfl⟩ := Prod.mk.inj (Option.some.inj hper)
      exact .freed vfd (sameMasks_unbindSlot ..) hrec (fun _ => by simp [since]) (by simp) id

/-! ### The bits -/

theorem and_pollin_or_pollin (b : BitVec 16) : (b ||| POLLIN) &&& POLLIN ≠ 0 := by
  intro hzero
  have hself : POLLIN &&& ((b ||| POLLIN) &&& POLLIN) = POLLIN := by
    rw [BitVec.and_comm (b ||| POLLIN), ← BitVec.and_assoc, BitVec.and_self]
    ext i hi
    simpa using fun hbit => Or.inr hbit
  rw [hzero] at hself
  exact absurd hself (by decide)

theorem and_pollout_or_pollin (b : BitVec 16) : (b ||| POLLIN) &&& POLLOUT = b &&& POLLOUT := by
  rw [BitVec.and_or_distrib_right, show POLLIN &&& POLLOUT = 0 from by decide]
  exact BitVec.or_zero

/-! ### The masks of a run -/

/-- A mask after an interest was registered. -/
theorem events_addEvent (vfds : ℕ → Pollfd) (i : ℕ) (fd : ℤ) (b : BitVec 16) (v : ℕ) :
    (addEvent (setFd vfds i fd) i b v).events =
      if v = i then (vfds v).events ||| b else (vfds v).events := by
  split_ifs with heq
  · subst heq
    simp [addEvent, setFd]
  · simp [addEvent, setFd, heq]

/-- **Both masks of the table are the read bit**, and no slot's mask has the write bit. -/
structure ReadMasks (s : WasioPollfd) : Prop where
  pollin_eq : s.pollin = POLLIN
  pollout_eq : s.pollout = POLLIN
  no_pollout : ∀ v, (s.vfds v).events &&& POLLOUT = 0

theorem readMasks_init (h : wasioInit cap true = (.ok, some s)) : ReadMasks s := by
  obtain ⟨hevents, hpollin, hpollout⟩ := statics_init h
  refine ⟨hpollin, hpollout, fun v => ?_⟩
  rw [hevents]
  exact BitVec.zero_and

theorem ReadMasks.same (h : ReadMasks s) (hsame : SameMasks s t) : ReadMasks t where
  pollin_eq := hsame.pollin_eq.trans h.pollin_eq
  pollout_eq := hsame.pollout_eq.trans h.pollout_eq
  no_pollout v := by
    rw [hsame.events_eq]
    exact h.no_pollout v

/-- Asking for an interest adds the read bit to the mask of a slot, whichever interest it
is. -/
theorem ReadMasks.asked (h : ReadMasks s) (v : ℕ) {b : BitVec 16} (hb : b = POLLIN) :
    ReadMasks { s with vfds := addEvent (setFd s.vfds v (s.fds v)) v b } where
  pollin_eq := h.pollin_eq
  pollout_eq := h.pollout_eq
  no_pollout u := by
    dsimp only
    rw [hb, events_addEvent]
    split_ifs
    · rw [and_pollout_or_pollin]
      exact h.no_pollout u
    · exact h.no_pollout u

variable {p q : Asking} {a : Op × Reply}

/-- The slots in use are those the history knows, both masks of the table are the
read bit, and no mask has the write bit. -/
structure MaskInv (cap : ℕ) (p : Asking) : Prop extends ReadMasks p.2 where
  capacity_eq : p.2.capacity = cap
  rep : ∃ O, Represents cap O p.2.fl ∧ ∀ v, v ∈ O ↔ (p.1 v).isSome

theorem maskInv_init (hlt : cap < 2 ^ 32) (h : wasioInit cap true = (.ok, some s)) :
    MaskInv cap (fun _ => none, s) := by
  have htable := tableInv_init hlt h
  exact ⟨readMasks_init h, htable.capacity_eq, ∅, htable.rep, by simp⟩

/-- The slots known after a call that asks for something are those known before. -/
theorem isSome_update_map (h : ℕ → Option Asked) (i : ℕ) (f : Asked → Asked) (v : ℕ) :
    (Function.update h i ((h i).map f) v).isSome = (h v).isSome := by
  rcases eq_or_ne v i with rfl | hne
  · simp
  · simp [hne]

/-- Where no mask has changed, what matters is which slots are in use. -/
theorem MaskInv.of_same {hist hist' : ℕ → Option Asked} (h : MaskInv cap (hist, s))
    (hsame : SameMasks s t) (hrep : Represents cap O t.fl)
    (hO : ∀ v, v ∈ O ↔ (hist' v).isSome) : MaskInv cap (hist', t) where
  toReadMasks := h.toReadMasks.same hsame
  capacity_eq := hsame.capacity_eq.trans h.capacity_eq
  rep := ⟨O, hrep, hO⟩

theorem MaskInv.asked {hist : ℕ → Option Asked} (h : MaskInv cap (hist, s)) (v : ℕ)
    (f : Asked → Asked) {b : BitVec 16} (hb : b = POLLIN) :
    MaskInv cap (Function.update hist v ((hist v).map f),
      { s with vfds := addEvent (setFd s.vfds v (s.fds v)) v b }) where
  toReadMasks := h.toReadMasks.asked v hb
  capacity_eq := h.capacity_eq
  rep := by
    obtain ⟨O, hrep, hO⟩ := h.rep
    refine ⟨O, hrep, fun u => ?_⟩
    rw [hO, isSome_update_map]

theorem MaskInv.step (h : MaskInv cap p) (htr : TrAsking p a q) : MaskInv cap q := by
  obtain ⟨hist, s⟩ := p
  obtain ⟨hist', t⟩ := q
  obtain ⟨htr, rfl⟩ : TrAny s a t ∧ hist' = since hist a := htr
  obtain ⟨O, hrep, hO⟩ := h.rep
  dsimp only at hrep hO
  cases effect_of_tr hrep h.capacity_eq htr with
  | quiet hsame hfl hsince =>
    rw [hsince]
    rw [← hfl] at hrep
    exact h.of_same hsame hrep hO
  | bound v hsame hnext hsince =>
    obtain ⟨e, he, -, -, hrep'⟩ := hrep.next_ok hnext
    obtain rfl := Option.some.inj he
    rw [hsince]
    refine h.of_same hsame hrep' fun u => ?_
    rw [Finset.mem_insert, hO]
    rcases eq_or_ne u v with rfl | hne
    · simp
    · simp [hne]
  | freed v hsame hrec hsince =>
    rw [hsince]
    refine h.of_same hsame (hrep.reclaim_ok hrec).2.2 fun u => ?_
    rw [Finset.mem_erase, hO]
    rcases eq_or_ne u v with rfl | hne
    · simp
    · simp [hne]
  | askedRecv v => exact h.asked v _ h.pollin_eq
  | askedSend v => exact h.asked v _ h.pollout_eq

/-- Where no mask has changed and the slots known are the same, so are the masks
right. -/
theorem masksRight_congr {hist : ℕ → Option Asked} (hsame : SameMasks s t) :
    MasksRight (hist, t) ↔ MasksRight (hist, s) := by
  simp only [MasksRight, hsame.capacity_eq, hsame.events_eq]

/-- What a history says of a slot after it was changed at one. -/
theorem update_eq_some {h : ℕ → Option Asked} {v u : ℕ} {o : Option Asked} {x : Asked}
    (hx : Function.update h v o u = some x) : u = v ∧ o = some x ∨ u ≠ v ∧ h u = some x := by
  rcases eq_or_ne u v with rfl | hne
  · exact Or.inl ⟨rfl, by rwa [Function.update_self] at hx⟩
  · exact Or.inr ⟨hne, by rwa [Function.update_of_ne hne] at hx⟩

/-- After a read interest is asked for, the masks are right as before. -/
theorem masksRight_askedRecv {hist : ℕ → Option Asked} (h : MaskInv cap (hist, s))
    (hp : MasksRight (hist, s)) (v : ℕ) :
    MasksRight (Function.update hist v ((hist v).map fun x => { x with recv := true }),
      { s with vfds := addEvent (setFd s.vfds v (s.fds v)) v s.pollin }) := by
  intro u x hx
  dsimp only
  rw [show s.pollin = POLLIN from h.pollin_eq, events_addEvent]
  rcases update_eq_some hx with ⟨rfl, hnew⟩ | ⟨hne, hold⟩
  · obtain ⟨y, hy, rfl⟩ := Option.map_eq_some_iff.mp hnew
    obtain ⟨hlt, hright⟩ := hp u y hy
    rw [if_pos rfl]
    refine ⟨hlt, iff_of_true (and_pollin_or_pollin _) rfl, ?_⟩
    rw [and_pollout_or_pollin]
    exact hright.send
  · rw [if_neg hne]
    exact hp u x hold

/-- **After a write interest is asked for**, the masks are right only if the slot is not
bound: the mask is given the read bit, and has no write bit. -/
theorem masksRight_askedSend_iff {hist : ℕ → Option Asked} (h : MaskInv cap (hist, s))
    (hp : MasksRight (hist, s)) (v : ℕ) :
    MasksRight (Function.update hist v ((hist v).map fun x => { x with send := true }),
      { s with vfds := addEvent (setFd s.vfds v (s.fds v)) v s.pollout }) ↔ hist v = none := by
  constructor
  · intro hq
    by_contra hbound
    obtain ⟨x, hx⟩ := Option.ne_none_iff_exists'.mp hbound
    -- the interest is asked for, and the mask has no write bit
    have hsend := (hq v { x with send := true } (by simp [hx])).2.send
    refine hsend.mpr rfl ?_
    dsimp only
    rw [show s.pollout = POLLIN from h.pollout_eq, events_addEvent, if_pos rfl,
      and_pollout_or_pollin]
    exact h.no_pollout v
  · intro hnone u x hx
    rcases update_eq_some hx with ⟨-, hnew⟩ | ⟨hne, hold⟩
    · exact absurd hnew (by simp [hnone])
    · dsimp only
      rw [events_addEvent, if_neg hne]
      exact hp u x hold

/-- **A call leaves the masks right exactly if it keeps them.** -/
theorem masksRight_iff_of_step (h : MaskInv cap p) (hp : MasksRight p) (htr : TrAsking p a q) :
    MasksRight q ↔ KeepsMasks p a := by
  obtain ⟨hist, s⟩ := p
  obtain ⟨hist', t⟩ := q
  obtain ⟨htr, rfl⟩ : TrAny s a t ∧ hist' = since hist a := htr
  obtain ⟨O, hrep, hO⟩ := h.rep
  cases effect_of_tr hrep h.capacity_eq htr with
  | quiet hsame hfl hsince hsend hopen =>
    rw [hsince, masksRight_congr hsame]
    refine iff_of_true hp ⟨fun v hv => absurd hv (hsend v), fun hop v hv => ?_⟩
    rw [hopen hop] at hv
    exact absurd hv (by simp)
  | bound v hsame hnext hsince hsend hopen =>
    rw [hsince, masksRight_congr hsame]
    have hv : (freelistNext s.fl).2.1 = some v := by rw [hnext]
    constructor
    · intro hq
      refine ⟨fun u hu => absurd hu (hsend u), fun _ u hu => ?_⟩
      obtain rfl := Option.some.inj (hv.symm.trans hu)
      exact hq v _ (Function.update_self ..)
    · rintro ⟨-, hclean⟩ u x hx
      rcases update_eq_some hx with ⟨rfl, hnew⟩ | ⟨-, hold⟩
      · obtain rfl := Option.some.inj hnew
        exact hclean hopen u hv
      · exact hp u x hold
  | freed v hsame hrec hsince hsend hopen =>
    rw [hsince, masksRight_congr hsame]
    refine iff_of_true (fun u x hx => ?_) ⟨fun u hu => absurd hu (hsend u), fun h => absurd h hopen⟩
    rcases update_eq_some hx with ⟨-, hnew⟩ | ⟨-, hold⟩
    · exact absurd hnew (by simp)
    · exact hp u x hold
  | askedRecv v r =>
    exact iff_of_true (masksRight_askedRecv h hp v) ⟨fun u hu => absurd hu (by simp), False.elim⟩
  | askedSend v r =>
    refine (masksRight_askedSend_iff h hp v).trans ⟨fun hnone => ⟨fun u hu => ?_, False.elim⟩, ?_⟩
    · obtain rfl : v = u := by simpa using hu
      exact hnone
    · exact fun hkeeps => hkeeps.1 v rfl

/-! ### Runs that are computed -/

instance (b : BitVec 16) (x : Asked) : Decidable (MaskRight b x) :=
  decidable_of_iff ((b &&& POLLIN ≠ 0 ↔ x.recv = true) ∧ (b &&& POLLOUT ≠ 0 ↔ x.send = true))
    ⟨fun h => ⟨h.1, h.2⟩, fun h => ⟨h.recv, h.send⟩⟩

instance (s : WasioPollfd) : Decidable (NextClean s) :=
  inferInstanceAs (Decidable (∀ v ∈ (freelistNext s.fl).2.1, _))

instance : DecidablePred Op.Opens
  | .listen _ _ _ | .accept _ _ => inferInstanceAs (Decidable (0 ≤ _))
  | .wrap _ => isTrue trivial
  | .recv _ _ _ | .send _ _ _ | .notifyRecv _ | .notifySend _ | .poll _ _ _ | .close _ _ =>
    isFalse id

instance (h : ℕ → Option Asked) :
    DecidablePred fun op : Op => ∀ v, op = .notifySend v → h v = none
  | .notifySend v => decidable_of_iff (h v = none) (by simp)
  | .listen _ _ _ | .accept _ _ | .wrap _ | .recv _ _ _ | .send _ _ _ | .notifyRecv _
  | .poll _ _ _ | .close _ _ => isTrue (by simp)

instance (p : Asking) (a : Op × Reply) : Decidable (KeepsMasks p a) :=
  inferInstanceAs (Decidable ((∀ v, a.1 = .notifySend v → p.1 v = none) ∧ _))

/-- A call that meets the condition `C`, with its reply and what is asked for
afterwards. -/
def ask (C : Asking → Op × Reply → Prop) [∀ p a, Decidable (C p a)] (p : Asking) (op : Op) :
    Option (Reply × Asking) :=
  (perform p.2 op).bind fun (r, t) =>
    if (∀ v ∈ op.vfd, v < p.2.capacity) ∧ C p (op, r) then some (r, since p.1 (op, r), t) else none

theorem steps_of_ask {C : Asking → Op × Reply → Prop} [∀ p a, Decidable (C p a)] {ops : List Op}
    {p q : Asking} {l : List (Op × Reply)} (h : Lts.answer (ask C) p ops = some (l, q)) :
    Lts.Steps (Lts.Guarded TrAsking C) p l q := by
  refine (Lts.steps_of_answer h).mono fun p a q hask => ?_
  obtain ⟨⟨r, t⟩, hper, hrest⟩ := Option.bind_eq_some_iff.mp hask
  dsimp only at hrest
  split_ifs at hrest with hcond
  obtain ⟨rfl, rfl⟩ := Prod.mk.inj (Option.some.inj hrest)
  exact ⟨⟨⟨hcond.1, hper⟩, rfl⟩, hcond.2⟩

end WasioHost

open WasioHost

/-- **Exactly the runs whose calls all keep the masks have the right masks** in
every state they reach. -/
theorem masksRight_iff_keeps (cap : ℕ) (hlt : cap < 2 ^ 32) (s₀ : WasioPollfd)
    (h : wasioInit cap true = (.ok, some s₀)) (l : List (Op × Reply)) (p : Asking) :
    Lts.Steps (Lts.Within TrAsking MasksRight) (fun _ => none, s₀) l p ↔
      Lts.Steps (Lts.Guarded TrAsking KeepsMasks) (fun _ => none, s₀) l p :=
  Lts.steps_within_iff_guarded (I := MaskInv cap) (P := MasksRight) (C := KeepsMasks)
    (fun _ _ _ hinv htr => hinv.step htr)
    (fun _ _ _ hinv hp htr => masksRight_iff_of_step hinv hp htr) (maskInv_init hlt h)
    fun _ _ hx => absurd hx (by simp)

/-- A read interest of a listener is registered, and no other. -/
theorem masksRight_iff_keeps_listen :
    ∃ s₀ l p, wasioInit 32 true = (.ok, some s₀) ∧
      Lts.Steps (Lts.Within TrAsking MasksRight) (fun _ => none, s₀) l p ∧
      p.1 0 = some ⟨true, false⟩ := by
  obtain ⟨s₀, hinit, ⟨l, p⟩, hp, hasked⟩ : ∃ s₀ ∈ (wasioInit 32 true).2,
      ∃ x ∈ Lts.answer (ask KeepsMasks) (fun _ => none, s₀)
          [.listen 8080 1000 ⟨3, 0⟩, .notifyRecv 0],
        x.2.1 0 = some ⟨true, false⟩ := by
    decide +kernel
  have hstart := wasioInit_eq_of_mem hinit
  exact ⟨s₀, l, p, hstart,
    (masksRight_iff_keeps 32 (by decide) s₀ hstart l p).mpr (steps_of_ask hp), hasked⟩

/-- **A write interest registers as a read interest**, and **a read interest
survives the close of its slot**. -/
theorem not_masksRight_notifySend_reopened :
    ∃ s₀, wasioInit 32 true = (.ok, some s₀) ∧
      (∃ l p, Lts.Steps TrAsking (fun _ => none, s₀) l p ∧ p.1 0 = some ⟨false, true⟩ ∧
        (p.2.vfds 0).events = POLLIN ∧ ¬MasksRight p) ∧
      ∃ l p, Lts.Steps TrAsking (fun _ => none, s₀) l p ∧ p.1 0 = some ⟨false, false⟩ ∧
        (p.2.vfds 0).events = POLLIN ∧ ¬MasksRight p := by
  obtain ⟨s₀, hinit, ⟨⟨l, p⟩, hp, hasked, hevents⟩, ⟨m, q⟩, hq, hasked', hevents'⟩ :
      ∃ s₀ ∈ (wasioInit 32 true).2,
        (∃ x ∈ Lts.answer (ask fun _ _ => True) (fun _ => none, s₀)
          [.listen 8080 1000 ⟨3, 0⟩, .notifySend 0],
          x.2.1 0 = some ⟨false, true⟩ ∧ (x.2.2.vfds 0).events = POLLIN) ∧
        ∃ x ∈ Lts.answer (ask fun _ _ => True) (fun _ => none, s₀)
          [.listen 8080 1000 ⟨3, 0⟩, .notifyRecv 0, .close 0 ⟨0, 0⟩, .listen 8080 1000 ⟨4, 0⟩],
          x.2.1 0 = some ⟨false, false⟩ ∧ (x.2.2.vfds 0).events = POLLIN := by
    decide +kernel
  refine ⟨s₀, wasioInit_eq_of_mem hinit,
    ⟨l, p, (steps_of_ask hp).of_guarded, hasked, hevents, fun h => ?_⟩,
    m, q, (steps_of_ask hq).of_guarded, hasked', hevents', fun h => ?_⟩
  · have hsend := (h 0 _ hasked).2.send
    rw [hevents] at hsend
    exact absurd hsend (by decide)
  · have hrecv := (h 0 _ hasked').2.recv
    rw [hevents'] at hrecv
    exact absurd hrecv (by decide)

end Waeio
