import Waeio.Freelist.Refine
import Waeio.Lib.Steps
import Waeio.WasioWasi.Basic

/-!
# Virtual descriptors over WASI

Which system descriptor a slot is bound to is a history of the calls
(`Waeio.WasioWasi.bindings`): the one wrapped, or the one `accept` returned, until
the slot is closed. `Waeio.WasioWasi.Faithful` says of a step what the binding
promises: the calls on the slot act on that descriptor, the poll array carries it
once the slot is marked ready, and no slot is handed out that is bound.

The table keeps the descriptor in one of its two arrays only, and in which one
depends on where the slot comes from (`Waeio.WasioWasi.Binding.inFds`,
`Waeio.WasioWasi.Binding.inVfds`). An accepted slot has it in the poll array, where
`wasio_recv` does not look and `wasio_mark_ready` writes over it; a wrapped slot has
it in `fds`, where `wasio_send` and `wasio_close` do not look. And with no free slot
`wasio_accept` takes the result of `wasio_wrap` for a success, as none of the result
codes is negative, and binds whatever slot its caller's variable names.

`Waeio.WasioWasi.Suits` is the condition on a call to stay clear of all this.
-/

namespace Waeio

namespace WasioWasi

open Freelist (Represents)

/-! ### Bindings -/

/-- What a slot is bound to. -/
structure Binding where
  /-- The descriptor wrapped, or returned by `accept`. -/
  fd : ℤ
  /-- The slot was bound by `wasio_accept`. -/
  accepted : Bool
  /-- `wasio_mark_ready` was called since. -/
  marked : Bool
  deriving DecidableEq, Repr

/-- A system descriptor is a non-negative `int`. -/
def Binding.IsDescriptor (b : Binding) : Prop := 0 ≤ b.fd ∧ b.fd < 2 ^ 31

/-- The descriptor an operation has for a slot. -/
def Op.newFd : Op → Option ℤ
  | .wrap fd => some fd
  | .accept _ _ ans => if 0 ≤ ans then some ans else none
  | _ => none

/-- The operation binds its slot by `accept`. -/
def Op.isAccept : Op → Bool
  | .accept _ _ _ => true
  | _ => false

/-- The operation returned `WASIO_OK` with the slot `v` for the descriptor `d`. -/
def Binds (a : Op × Reply) (v : ℕ) (d : ℤ) : Prop :=
  a.1.newFd = some d ∧ a.2.result = .ok ∧ a.2.vfd = some v

/-- **What each slot is bound to**, after one more call. -/
def bindings (h : ℕ → Option Binding) (a : Op × Reply) : ℕ → Option Binding :=
  match a.1 with
  | .markReady v => Function.update h v ((h v).map fun b => { b with marked := true })
  | .close v _ => if a.2.result = .ok then Function.update h v none else h
  | _ =>
    match a.1.newFd, a.2.result, a.2.vfd with
    | some d, .ok, some v => Function.update h v (some ⟨d, a.1.isAccept, false⟩)
    | _, _, _ => h

/-- The table, and what its slots are bound to. -/
abbrev Bound := (ℕ → Option Binding) × WasioPollfd

/-- A call, with the history beside the table. -/
abbrev TrBound : Bound → Op × Reply → Bound → Prop :=
  Lts.Observed (fun h _ a _ => bindings h a) Tr

/-- The system call an operation on a slot makes, if the slot stands for the
descriptor `d`. -/
def Op.sysCall (d : ℤ) : Op → Option SysCall
  | .recv _ len _ => some (.recv d len)
  | .send _ len _ => some (.send d len)
  | .close _ _ => some (.close d)
  | _ => none

/-- The poll array carries the descriptors of the bound slots marked ready. -/
def Carries (p : Bound) : Prop :=
  ∀ v b, p.1 v = some b → b.IsDescriptor → b.marked = true → (p.2.vfds v).fd = b.fd

/-- **One descriptor per virtual descriptor**: what a call on a bound slot acts on,
which slot a call binds, and what the poll array carries afterwards. -/
structure Faithful (p : Bound) (a : Op × Reply) (q : Bound) : Prop where
  acts : ∀ v, a.1.vfd = some v → ∀ b, p.1 v = some b → b.IsDescriptor →
    ∀ c, a.1.sysCall b.fd = some c → a.2.call = some c
  fresh : ∀ v d, Binds a v d → p.1 v = none
  carries : Carries q

/-- **The call suits the slot**: receive from and mark ready the wrapped slots; send
to and close the wrapped slots marked ready, and the accepted ones not marked ready;
and accept a connection only if there is a free slot, or none bound in the caller's
variable. -/
def Suits (p : Bound) (a : Op × Reply) : Prop :=
  match a.1 with
  | .recv v _ _ | .markReady v => ∀ b ∈ p.1 v, b.IsDescriptor → b.accepted = false
  | .send v _ _ | .close v _ => ∀ b ∈ p.1 v, b.IsDescriptor → b.accepted ≠ b.marked
  | .accept _ newConn ans =>
    0 ≤ ans → (freelistNext p.2.fl).1 = .ok ∨ p.1 newConn = none
  | .wrap _ | .poll _ _ _ => True

/-! ### Where the table keeps a descriptor -/

/-- What `fds` holds for a slot. -/
def Binding.inFds (b : Binding) : ℤ := if b.accepted then -1 else toInt b.fd

/-- What the poll array holds for a slot. -/
def Binding.inVfds (b : Binding) : ℤ :=
  if b.accepted then if b.marked then -1 else b.fd else if b.marked then toInt b.fd else -1

/-- What the two arrays hold for a slot, bound or not. -/
def Holds (o : Option Binding) (fd vfd : ℤ) : Prop :=
  fd = o.elim (-1) Binding.inFds ∧ vfd = o.elim (-1) Binding.inVfds

variable {cap : ℕ} {O : Finset ℕ} {p q : Bound} {s t : WasioPollfd} {a : Op × Reply}

@[simp] theorem toInt_neg_one : toInt (-1) = -1 := by decide

theorem toInt_toInt (n : ℤ) : toInt (toInt n) = toInt n := Int.bmod_bmod

theorem Binding.IsDescriptor.toInt_eq {b : Binding} (h : b.IsDescriptor) : toInt b.fd = b.fd := by
  obtain ⟨hnonneg, hlt⟩ := h
  exact Int.bmod_eq_of_le (by omega) (by omega)

theorem Binding.toInt_inFds (b : Binding) : toInt b.inFds = b.inFds := by
  rw [inFds]
  split_ifs
  · exact toInt_neg_one
  · exact toInt_toInt b.fd

/-- `fds` has the descriptor of a slot exactly if the slot was wrapped. -/
theorem Binding.IsDescriptor.inFds_eq_iff {b : Binding} (h : b.IsDescriptor) :
    b.inFds = b.fd ↔ b.accepted = false := by
  rw [inFds, h.toInt_eq]
  obtain ⟨hnonneg, -⟩ := h
  cases b.accepted
  · simp
  · simpa using fun heq : -1 = b.fd => absurd heq (by omega)

/-- The poll array has the descriptor of a slot exactly if the slot was accepted, or
marked ready, and not both. -/
theorem Binding.IsDescriptor.inVfds_eq_iff {b : Binding} (h : b.IsDescriptor) :
    b.inVfds = b.fd ↔ b.accepted ≠ b.marked := by
  rw [inVfds, h.toInt_eq]
  obtain ⟨hnonneg, -⟩ := h
  have hne : -1 ≠ b.fd := by omega
  cases b.accepted <;> cases b.marked <;> simp [hne]

/-! ### The invariant -/

/-- **The slots bound are in use, and the arrays hold what they are to.** -/
structure BindInv (cap : ℕ) (p : Bound) : Prop where
  capacity_eq : p.2.capacity = cap
  rep : ∃ O, Represents cap O p.2.fl ∧ ∀ v, (p.1 v).isSome → v ∈ O
  holds : ∀ v, Holds (p.1 v) (p.2.fds v) (p.2.vfds v).fd

theorem bindInv_init (hlt : cap < 2 ^ 32) (h : wasioInit cap true = (.ok, some s)) :
    BindInv cap (fun _ => none, s) := by
  rw [wasioInit] at h
  split at h
  · next fl hnew =>
    obtain rfl := Option.some.inj (Prod.mk.inj h).2
    exact ⟨rfl, ⟨∅, Freelist.represents_new hlt hnew, by simp⟩, fun _ => ⟨rfl, rfl⟩⟩
  · exact absurd h (by simp)

/-- What the slots hold after one was changed. -/
theorem holds_update {h : ℕ → Option Binding} {fds : ℕ → ℤ} {vfds : ℕ → Pollfd}
    (hold : ∀ v, Holds (h v) (fds v) (vfds v).fd) {i : ℕ} {o : Option Binding} {fd vfd : ℤ}
    (hnew : Holds o fd vfd) (v : ℕ) :
    Holds (Function.update h i o v) (Function.update fds i fd v) (setFd vfds i vfd v).fd := by
  rcases eq_or_ne v i with rfl | hne
  · simpa [setFd] using hnew
  · simpa [setFd, hne] using hold v

/-- What a slot holds after it was marked ready. -/
theorem holds_marked {o : Option Binding} {fd vfd : ℤ} (h : Holds o fd vfd) :
    Holds (o.map fun b => { b with marked := true }) fd (toInt fd) := by
  obtain ⟨rfl, -⟩ := h
  rcases o with _ | b
  · exact ⟨rfl, toInt_neg_one⟩
  · refine ⟨rfl, ?_⟩
    show toInt b.inFds = _
    rw [b.toInt_inFds]
    simp [Binding.inFds, Binding.inVfds]

@[simp] theorem setFd_setFd (vfds : ℕ → Pollfd) (i : ℕ) (x y : ℤ) :
    setFd (setFd vfds i x) i y = setFd vfds i y := by
  simp [setFd]

/-- The slots bound after one was bound are in use, if that one is. -/
theorem isSome_update {h : ℕ → Option Binding} (hO : ∀ v, (h v).isSome → v ∈ O) {i : ℕ}
    {o : Option Binding} (hi : o.isSome → i ∈ O) (v : ℕ) :
    (Function.update h i o v).isSome → v ∈ O := by
  rcases eq_or_ne v i with rfl | hne
  · simpa using hi
  · simpa [hne] using hO v

/-- `wasio_wrap` binds the slot the freelist hands out, or finds none. -/
theorem wrap_cases (h : Represents cap O s.fl) {fd : ℤ}
    {r : WasioResult × Option ℕ × WasioPollfd} (hw : wasioWrap s fd = some r) :
    (∃ v fl, r = (.ok, some v,
        { s with
          fl := fl
          vfds := setFd s.vfds v (-1)
          fds := Function.update s.fds v (toInt fd)
          length := Uint32.succ s.length }) ∧
      (freelistNext s.fl).1 = .ok ∧ v < s.capacity ∧ v ∉ O ∧ Represents cap (insert v O) fl) ∨
    (r = (.efull, none, s) ∧ (freelistNext s.fl).1 ≠ .ok ∧ ∀ v < cap, v ∈ O) := by
  rw [wasioWrap] at hw
  rcases Freelist.freelistNext_result s.fl with hok | hfull
  · obtain ⟨v, hv, hleast, -, hrep⟩ := h.next_ok (Prod.ext hok rfl)
    have hnext : freelistNext s.fl = (.ok, some v, (freelistNext s.fl).2.2) :=
      Prod.ext hok (Prod.ext hv rfl)
    rw [hnext] at hw
    dsimp only at hw
    split_ifs at hw with hlt
    obtain rfl := Option.some.inj hw
    exact Or.inl ⟨v, _, rfl, hok, hlt, hleast.1, hrep⟩
  · obtain ⟨hall, hnone, hfl⟩ := h.next_full (Prod.ext hfull rfl)
    rw [show freelistNext s.fl = (.full, none, s.fl) from
      Prod.ext hfull (Prod.ext hnone hfl)] at hw
    obtain rfl := Option.some.inj hw
    exact Or.inr ⟨rfl, by simp [hfull], hall⟩

/-- `wasio_accept` keeps the invariant: the connection goes into the slot that was reserved for
it, or into that of the caller's variable. -/
theorem BindInv.accept {hist : ℕ → Option Binding} {t : WasioPollfd} {vfd newConn : ℕ} {ans : ℤ}
    {r : Reply} (h : BindInv cap (hist, s))
    (hper : perform s (.accept vfd newConn ans) = some (r, t))
    (hfresh : ∀ v d, Binds (.accept vfd newConn ans, r) v d → hist v = none) :
    BindInv cap (bindings hist (.accept vfd newConn ans, r), t) := by
  obtain ⟨O, hrep, hO⟩ := h.rep
  have hcap := h.capacity_eq
  have hholds := h.holds
  dsimp only at hrep hO hcap hholds
  obtain ⟨x, hw, hacc⟩ := Option.bind_eq_some_iff.mp hper
  have hbound : Holds (some ⟨ans, true, false⟩) (-1) ans := ⟨rfl, rfl⟩
  rcases wrap_cases hrep hw with ⟨v, fl, rfl, -, hlt, hv, hrep'⟩ | ⟨rfl, -, hall⟩
  · simp only [Option.getD_some, code, lt_irrefl, if_false, if_pos hlt] at hacc
    split_ifs at hacc with hans <;> obtain ⟨rfl, rfl⟩ := Prod.mk.inj (Option.some.inj hacc)
    · refine ⟨hcap, ⟨_, hrep', ?_⟩, ?_⟩
      · simpa [bindings, Op.newFd, hans] using
          isSome_update (fun u hu => Finset.mem_insert_of_mem (hO u hu))
            fun _ => Finset.mem_insert_self ..
      · simpa [bindings, Op.newFd, hans, Op.isAccept] using holds_update hholds hbound
    · have hnone : hist v = none := Option.not_isSome_iff_eq_none.mp fun hsome => hv (hO v hsome)
      refine ⟨hcap, ⟨_, hrep', fun u hu => Finset.mem_insert_of_mem (hO u ?_)⟩, ?_⟩
      · simpa [bindings, Op.newFd, hans] using hu
      · have hupd := holds_update hholds (i := v) (o := none) ⟨rfl, rfl⟩
        rw [Function.update_eq_self_iff.mpr hnone.symm] at hupd
        simpa [bindings, Op.newFd, hans] using hupd
  · simp only [Option.getD_none, code] at hacc
    rw [if_neg (by decide)] at hacc
    split_ifs at hacc with hans hlt <;>
      obtain ⟨rfl, rfl⟩ := Prod.mk.inj (Option.some.inj hacc)
    · -- the slot of the caller's variable is in use, but not bound
      have hnone : hist newConn = none := hfresh newConn ans ⟨if_pos hans, rfl, rfl⟩
      refine ⟨hcap, ⟨O, hrep, ?_⟩, ?_⟩
      · simpa [bindings, Op.newFd, hans] using
          isSome_update hO fun _ => hall newConn (hcap ▸ hlt)
      · have hfds : s.fds newConn = -1 := by simpa [hnone, Holds] using (hholds newConn).1
        have hself : Function.update s.fds newConn (-1) = s.fds :=
          Function.update_eq_self_iff.mpr hfds.symm
        have hupd := holds_update hholds (i := newConn) hbound
        rw [hself] at hupd
        simpa [bindings, Op.newFd, hans, Op.isAccept] using hupd
    · refine ⟨hcap, ⟨O, hrep, fun u hu => hO u ?_⟩, ?_⟩
      · simpa [bindings, Op.newFd, hans] using hu
      · simpa [bindings, Op.newFd, hans] using hholds

/-- **A call keeps the invariant**, unless it binds a slot that is bound. -/
theorem BindInv.step (h : BindInv cap p) (htr : TrBound p a q)
    (hfresh : ∀ v d, Binds a v d → p.1 v = none) : BindInv cap q := by
  obtain ⟨hist, s⟩ := p
  obtain ⟨hist', t⟩ := q
  obtain ⟨op, r⟩ := a
  obtain ⟨⟨hvfd, hper⟩, rfl⟩ : Tr s (op, r) t ∧ hist' = bindings hist (op, r) := htr
  obtain ⟨O, hrep, hO⟩ := h.rep
  have hcap := h.capacity_eq
  have hholds := h.holds
  dsimp only at hrep hO hcap hholds
  cases op with
  | wrap fd =>
    obtain ⟨x, hw, hpair⟩ := Option.map_eq_some_iff.mp hper
    rcases wrap_cases hrep hw with ⟨v, fl, rfl, -, -, -, hrep'⟩ | ⟨rfl, -, -⟩ <;>
      obtain ⟨rfl, rfl⟩ := Prod.mk.inj hpair
    · exact ⟨hcap, ⟨_, hrep', isSome_update (fun u hu => Finset.mem_insert_of_mem (hO u hu))
        fun _ => Finset.mem_insert_self ..⟩, holds_update hholds ⟨rfl, rfl⟩⟩
    · exact h
  | accept vfd newConn ans => exact h.accept hper hfresh
  | recv vfd len ans =>
    simp only [perform, wasioRecv, Option.some.injEq] at hper
    split_ifs at hper <;> obtain ⟨rfl, rfl⟩ := Prod.mk.inj hper <;> exact h
  | send vfd len ans =>
    simp only [perform, wasioSend, Option.some.injEq] at hper
    split_ifs at hper <;> obtain ⟨rfl, rfl⟩ := Prod.mk.inj hper <;> exact h
  | markReady vfd =>
    obtain ⟨rfl, rfl⟩ := Prod.mk.inj (Option.some.inj hper)
    -- a slot that is marked is bound as it was
    refine ⟨hcap, ⟨O, hrep, isSome_update hO ?_⟩, ?_⟩
    · simpa using hO vfd
    · have hupd := holds_update hholds (i := vfd) (holds_marked (hholds vfd))
      rwa [Function.update_eq_self] at hupd
  | poll timeout revents ans =>
    simp only [perform, wasioPoll, Option.some.injEq] at hper
    split_ifs at hper <;> obtain ⟨rfl, rfl⟩ := Prod.mk.inj hper <;>
      exact ⟨hcap, ⟨O, hrep, hO⟩, hholds⟩
  | close vfd ans =>
    simp only [perform, wasioClose] at hper
    split_ifs at hper with hfail
    · obtain ⟨rfl, rfl⟩ := Prod.mk.inj (Option.some.inj hper)
      exact h
    · have hlt : vfd < s.fl.size := by
        rw [hrep.size_eq, ← hcap]
        exact hvfd vfd rfl
      have hrec := Freelist.freelistReclaim_of_lt hlt
      rw [hrec] at hper
      obtain ⟨rfl, rfl⟩ := Prod.mk.inj (Option.some.inj hper)
      -- the entry goes back, and its binding is forgotten
      refine ⟨hcap, ⟨_, (hrep.reclaim_ok hrec).2.2, fun u hu => ?_⟩,
        holds_update hholds ⟨rfl, rfl⟩⟩
      rcases eq_or_ne u vfd with rfl | hne
      · simp [bindings] at hu
      · exact Finset.mem_erase.mpr ⟨hne, hO u (by simpa [bindings, hne] using hu)⟩

/-! ### What a step promises -/

/-- What an operation reads for its slot: `wasio_recv` and `wasio_accept` look in
`fds`, the others in the poll array. -/
def Op.reads (s : WasioPollfd) (v : ℕ) : Op → ℤ
  | .recv _ _ _ => toInt (s.fds v)
  | _ => (s.vfds v).fd

/-- **The system call of an operation** is made on what it reads for its slot. -/
theorem call_eq_sysCall (htr : Tr s a t) {v : ℕ} (hv : a.1.vfd = some v) {d : ℤ} {c : SysCall}
    (hc : a.1.sysCall d = some c) : a.2.call = a.1.sysCall (a.1.reads s v) := by
  obtain ⟨op, r⟩ := a
  obtain ⟨-, hper⟩ := htr
  cases op with
  | wrap | accept | markReady | poll => exact absurd hc (by simp [Op.sysCall])
  | recv vfd len ans =>
    obtain rfl := Option.some.inj hv
    simp only [perform, wasioRecv, Option.some.injEq] at hper
    split_ifs at hper <;> obtain ⟨rfl, -⟩ := Prod.mk.inj hper <;> rfl
  | send vfd len ans =>
    obtain rfl := Option.some.inj hv
    simp only [perform, wasioSend, Option.some.injEq] at hper
    split_ifs at hper <;> obtain ⟨rfl, -⟩ := Prod.mk.inj hper <;> rfl
  | close vfd ans =>
    obtain rfl := Option.some.inj hv
    simp only [perform, wasioClose] at hper
    split_ifs at hper
    · obtain ⟨rfl, -⟩ := Prod.mk.inj (Option.some.inj hper)
      rfl
    · split at hper
      · obtain ⟨rfl, -⟩ := Prod.mk.inj (Option.some.inj hper)
        rfl
      · exact absurd hper (by simp)

/-- The arrays have the descriptor where the operation looks for it. -/
def Op.Finds (b : Binding) : Op → Prop
  | .recv _ _ _ => b.accepted = false
  | .send _ _ _ | .close _ _ => b.accepted ≠ b.marked
  | _ => True

/-- A call on a bound slot acts on its descriptor exactly if it finds it. -/
theorem acts_iff_finds (h : BindInv cap p) (htr : Tr p.2 a t) {v : ℕ} {b : Binding}
    (hv : a.1.vfd = some v) (hb : p.1 v = some b) (hd : b.IsDescriptor) :
    (∀ c, a.1.sysCall b.fd = some c → a.2.call = some c) ↔ a.1.Finds b := by
  have hcall : ∀ d c, a.1.sysCall d = some c → a.2.call = a.1.sysCall (a.1.reads p.2 v) :=
    fun d c hc => call_eq_sysCall htr hv hc
  obtain ⟨hfds, hvfds⟩ : Holds (some b) _ _ := hb ▸ h.holds v
  obtain ⟨op, r⟩ := a
  cases op with
  | wrap | accept | markReady | poll => simp [Op.sysCall, Op.Finds]
  | recv vfd len ans =>
    rw [Op.Finds, ← hd.inFds_eq_iff]
    have hread := hcall b.fd _ rfl
    simp only [Op.sysCall, Op.reads, hfds, Option.elim_some, b.toInt_inFds] at hread
    simp [Op.sysCall, hread]
  | send vfd len ans =>
    rw [Op.Finds, ← hd.inVfds_eq_iff]
    have hread := hcall b.fd _ rfl
    simp only [Op.sysCall, Op.reads, hvfds, Option.elim_some] at hread
    simp [Op.sysCall, hread]
  | close vfd ans =>
    rw [Op.Finds, ← hd.inVfds_eq_iff]
    have hread := hcall b.fd _ rfl
    simp only [Op.sysCall, Op.reads, hvfds, Option.elim_some] at hread
    simp [Op.sysCall, hread]

/-- **A call binds no slot that is bound**, exactly if there is a free slot for it, or
none bound in the caller's variable. -/
theorem fresh_iff (h : BindInv cap p) (htr : Tr p.2 a t) :
    (∀ v d, Binds a v d → p.1 v = none) ↔
      ∀ vfd newConn ans, a.1 = .accept vfd newConn ans → 0 ≤ ans →
        (freelistNext p.2.fl).1 = .ok ∨ p.1 newConn = none := by
  obtain ⟨O, hrep, hO⟩ := h.rep
  have hfree : ∀ v, v ∉ O → p.1 v = none := fun v hv =>
    Option.not_isSome_iff_eq_none.mp fun hsome => hv (hO v hsome)
  obtain ⟨op, r⟩ := a
  obtain ⟨-, hper⟩ := htr
  cases op with
  | recv | send | markReady | poll | close => simp [Binds, Op.newFd]
  | wrap fd =>
    obtain ⟨x, hw, hpair⟩ := Option.map_eq_some_iff.mp hper
    rcases wrap_cases hrep hw with ⟨v, fl, rfl, -, -, hv, -⟩ | ⟨rfl, -, -⟩ <;>
      obtain ⟨rfl, -⟩ := Prod.mk.inj hpair
    · simpa [Binds, Op.newFd] using hfree v hv
    · simp [Binds]
  | accept vfd newConn ans =>
    obtain ⟨x, hw, hacc⟩ := Option.bind_eq_some_iff.mp hper
    rcases wrap_cases hrep hw with ⟨v, fl, rfl, hok, hlt, hv, -⟩ | ⟨rfl, hfull, -⟩
    · simp only [Option.getD_some, code, lt_irrefl, if_false, if_pos hlt] at hacc
      split_ifs at hacc with hans <;> obtain ⟨rfl, -⟩ := Prod.mk.inj (Option.some.inj hacc)
      · simpa [Binds, Op.newFd, hans, hok] using hfree v hv
      · simp [Binds, Op.newFd, hans]
    · simp only [Option.getD_none, code] at hacc
      rw [if_neg (by decide)] at hacc
      split_ifs at hacc with hans hlt <;> obtain ⟨rfl, -⟩ := Prod.mk.inj (Option.some.inj hacc) <;>
        simp [Binds, Op.newFd, hans, hfull]

/-- The poll array carries the descriptors of the slots marked ready exactly if none
of them was accepted. -/
theorem carries_iff (h : BindInv cap p) :
    Carries p ↔ ∀ v b, p.1 v = some b → b.IsDescriptor → b.marked = true → b.accepted = false := by
  refine forall₂_congr fun v b => forall₃_congr fun hb hd hm => ?_
  obtain ⟨-, hvfds⟩ : Holds (some b) _ _ := hb ▸ h.holds v
  rw [hvfds, Option.elim_some, hd.inVfds_eq_iff, hm]
  simp

/-- A slot marked ready after another was bound or given up was marked before. -/
theorem of_update_marked {h : ℕ → Option Binding} {i v : ℕ} {o : Option Binding} {b : Binding}
    (hb : Function.update h i o v = some b) (hm : b.marked = true)
    (ho : ∀ b' ∈ o, b'.marked = false) : h v = some b := by
  rcases eq_or_ne v i with rfl | hne
  · rw [Function.update_self] at hb
    exact absurd (ho b hb) (by simp [hm])
  · rwa [Function.update_of_ne hne] at hb

/-- A slot marked ready after a call was marked before, or is marked by it. -/
theorem bindings_marked {h : ℕ → Option Binding} {v : ℕ} {b : Binding}
    (hb : bindings h a v = some b) (hm : b.marked = true) :
    h v = some b ∨ a.1 = .markReady v ∧ ∃ b', h v = some b' ∧ b = { b' with marked := true } := by
  obtain ⟨h', hh'⟩ : ∃ h', h' = bindings h a := ⟨_, rfl⟩
  rw [← hh'] at hb
  rw [bindings] at hh'
  split at hh'
  · next vfd hop =>
    subst hh'
    rcases eq_or_ne v vfd with rfl | hne
    · rw [Function.update_self] at hb
      obtain ⟨b', hb', rfl⟩ := Option.map_eq_some_iff.mp hb
      exact Or.inr ⟨hop, b', hb', rfl⟩
    · exact Or.inl (by rwa [Function.update_of_ne hne] at hb)
  · split_ifs at hh' <;> subst hh'
    · exact Or.inl (of_update_marked hb hm (by simp))
    · exact Or.inl hb
  · split at hh' <;> subst hh'
    · exact Or.inl (of_update_marked hb hm (by simp))
    · exact Or.inl hb

/-- A call leaves the poll array right exactly if it marks no accepted slot ready. -/
theorem carries_step_iff (h : BindInv cap p) (hc : Carries p) (htr : TrBound p a q)
    (hq : BindInv cap q) :
    Carries q ↔ ∀ v, a.1 = .markReady v → ∀ b, p.1 v = some b → b.IsDescriptor →
      b.accepted = false := by
  rw [carries_iff h] at hc
  rw [carries_iff hq, htr.2]
  constructor
  · intro hcarries v hv b hb hd
    refine hcarries v { b with marked := true } ?_ hd rfl
    simp [bindings, hv, hb]
  · intro hmark v b hb hd hm
    rcases bindings_marked hb hm with hb | ⟨hv, b', hb', rfl⟩
    · exact hc v b hb hd hm
    · exact hmark v hv b' hb' hd

/-- **A call does what the bindings promise exactly if it suits the slot.** -/
theorem faithful_iff_suits (h : BindInv cap p) (hc : Carries p) (htr : TrBound p a q) :
    Faithful p a q ↔ Suits p a := by
  have hfresh := fresh_iff h htr.1
  have hacts : (∀ v, a.1.vfd = some v → ∀ b, p.1 v = some b → b.IsDescriptor →
      ∀ c, a.1.sysCall b.fd = some c → a.2.call = some c) ↔
      ∀ v, a.1.vfd = some v → ∀ b, p.1 v = some b → b.IsDescriptor → a.1.Finds b :=
    forall₂_congr fun v hv => forall₃_congr fun b hb hd => acts_iff_finds h htr.1 hv hb hd
  have hall : Faithful p a q ↔
      (∀ v, a.1.vfd = some v → ∀ b, p.1 v = some b → b.IsDescriptor → a.1.Finds b) ∧
      (∀ vfd newConn ans, a.1 = .accept vfd newConn ans → 0 ≤ ans →
        (freelistNext p.2.fl).1 = .ok ∨ p.1 newConn = none) ∧
      ∀ v, a.1 = .markReady v → ∀ b, p.1 v = some b → b.IsDescriptor → b.accepted = false := by
    constructor
    · rintro ⟨h₁, h₂, h₃⟩
      exact ⟨hacts.mp h₁, hfresh.mp h₂, (carries_step_iff h hc htr (h.step htr h₂)).mp h₃⟩
    · rintro ⟨h₁, h₂, h₃⟩
      have h₂ := hfresh.mpr h₂
      exact ⟨hacts.mpr h₁, h₂, (carries_step_iff h hc htr (h.step htr h₂)).mpr h₃⟩
  rw [hall]
  obtain ⟨op, r⟩ := a
  cases op <;> simp [Op.vfd, Op.Finds, Suits]

/-! ### Runs that are computed -/

instance (b : Binding) : Decidable b.IsDescriptor := inferInstanceAs (Decidable (_ ∧ _))

instance (p : Bound) : DecidablePred (Suits p)
  | (.recv _ _ _, _) | (.markReady _, _) | (.send _ _ _, _) | (.close _ _, _) =>
    inferInstanceAs (Decidable (∀ b ∈ p.1 _, _))
  | (.accept _ _ _, _) => inferInstanceAs (Decidable (_ → _ ∨ _))
  | (.wrap _, _) | (.poll _ _ _, _) => isTrue trivial

/-- A call that meets the condition `C`, with its reply and what is bound
afterwards. -/
def call (C : Bound → Op × Reply → Prop) [∀ p a, Decidable (C p a)] (p : Bound) (op : Op) :
    Option (Reply × Bound) :=
  (perform p.2 op).bind fun (r, t) =>
    if (∀ v ∈ op.vfd, v < p.2.capacity) ∧ C p (op, r) then some (r, bindings p.1 (op, r), t)
    else none

theorem tr_of_call {C : Bound → Op × Reply → Prop} [∀ p a, Decidable (C p a)] {op : Op}
    {p q : Bound} {r : Reply} (h : call C p op = some (r, q)) :
    TrBound p (op, r) q ∧ C p (op, r) := by
  obtain ⟨⟨r', t⟩, hper, hrest⟩ := Option.bind_eq_some_iff.mp h
  dsimp only at hrest
  split_ifs at hrest with hcond
  obtain ⟨rfl, rfl⟩ := Prod.mk.inj (Option.some.inj hrest)
  exact ⟨⟨⟨hcond.1, hper⟩, rfl⟩, hcond.2⟩

theorem steps_of_call {C : Bound → Op × Reply → Prop} [∀ p a, Decidable (C p a)] {ops : List Op}
    {p q : Bound} {l : List (Op × Reply)} (h : Lts.answer (call C) p ops = some (l, q)) :
    Lts.Steps (Lts.Guarded TrBound C) p l q :=
  (Lts.steps_of_answer h).mono fun _ _ _ => tr_of_call

/-- The table of a successful `wasio_init`. -/
theorem wasioInit_eq_of_mem (h : s ∈ (wasioInit cap true).2) :
    wasioInit cap true = (.ok, some s) := by
  rw [wasioInit] at h ⊢
  split at h
  · exact congrArg (Prod.mk WasioResult.ok) h
  · exact absurd h (by simp)

end WasioWasi

open WasioWasi

/-- **Exactly the runs whose calls all suit their slots keep one descriptor per
virtual descriptor.** -/
theorem wasioWasi_faithful_iff_suits (cap : ℕ) (hlt : cap < 2 ^ 32) (s₀ : WasioWasi.WasioPollfd)
    (h : WasioWasi.wasioInit cap true = (.ok, some s₀)) (l : List (Op × Reply)) (p : Bound) :
    Lts.Steps (Lts.Upheld TrBound Faithful) (fun _ => none, s₀) l p ↔
      Lts.Steps (Lts.Guarded TrBound Suits) (fun _ => none, s₀) l p :=
  Lts.steps_upheld_iff_guarded (I := fun p => BindInv cap p ∧ Carries p) (F := Faithful)
    (C := Suits)
    (fun _ (_ : Op × Reply) _ hinv htr hF => ⟨hinv.1.step htr hF.fresh, hF.carries⟩)
    (fun _ (_ : Op × Reply) _ hinv htr => faithful_iff_suits hinv.1 hinv.2 htr)
    ⟨bindInv_init hlt h, fun _ _ hb => absurd hb (by simp)⟩

/-- A wrapped descriptor is received from, marked ready, sent to and closed. -/
theorem wasioWasi_faithful_iff_suits_wrap :
    ∃ s₀ l p, WasioWasi.wasioInit 32 true = (.ok, some s₀) ∧
      Lts.Steps (Lts.Upheld TrBound Faithful) (fun _ => none, s₀) l p ∧
      l.map (fun a => a.2.call) =
        [none, some (.recv 3 512), none, some (.send 3 7), some (.close 3)] := by
  obtain ⟨s₀, hinit, ⟨l, p⟩, hp, hcalls⟩ : ∃ s₀ ∈ (WasioWasi.wasioInit 32 true).2,
      ∃ x ∈ Lts.answer (call Suits) (fun _ => none, s₀)
        [.wrap 3, .recv 0 512 7, .markReady 0, .send 0 7 7, .close 0 0],
        x.1.map (fun a => a.2.call) =
          [none, some (.recv 3 512), none, some (.send 3 7), some (.close 3)] := by
    decide +kernel
  have hstart := wasioInit_eq_of_mem hinit
  exact ⟨s₀, l, p, hstart,
    (wasioWasi_faithful_iff_suits 32 (by decide) s₀ hstart l p).mpr (steps_of_call hp), hcalls⟩

/-- **Three calls that miss the descriptor**: `wasio_send` on a slot wrapped and not
marked ready, `wasio_recv` on an accepted slot, and `wasio_mark_ready` on an accepted
slot. -/
theorem not_faithful_send_recv_markReady :
    ∃ s₀, WasioWasi.wasioInit 32 true = (.ok, some s₀) ∧
      (∃ l p r q, Lts.Steps TrBound (fun _ => none, s₀) l p ∧ TrBound p (.send 0 7 7, r) q ∧
        p.1 0 = some ⟨3, false, false⟩ ∧ r.call = some (.send (-1) 7) ∧
        ¬Faithful p (.send 0 7 7, r) q) ∧
      ∃ l p, Lts.Steps TrBound (fun _ => none, s₀) l p ∧ p.1 1 = some ⟨4, true, false⟩ ∧
        (∃ r q, TrBound p (.recv 1 512 7, r) q ∧ r.call = some (.recv (-1) 512) ∧
          ¬Faithful p (.recv 1 512 7, r) q) ∧
        ∃ r q, TrBound p (.markReady 1, r) q ∧ (q.2.vfds 1).fd = -1 ∧
          ¬Faithful p (.markReady 1, r) q := by
  obtain ⟨s₀, hinit, ⟨⟨l, p⟩, hp, ⟨r, q⟩, hsend, hb, hr⟩, ⟨m, u⟩, hu, hb',
      ⟨⟨r', q'⟩, hrecv, hr'⟩, ⟨r'', q''⟩, hmark, hcarried⟩ :
      ∃ s₀ ∈ (WasioWasi.wasioInit 32 true).2,
        (∃ x ∈ Lts.answer (call fun _ _ => True) (fun _ => none, s₀) [.wrap 3],
          ∃ y ∈ call (fun _ _ => True) x.2 (.send 0 7 7),
            x.2.1 0 = some ⟨3, false, false⟩ ∧ y.1.call = some (.send (-1) 7)) ∧
        ∃ x ∈ Lts.answer (call fun _ _ => True) (fun _ => none, s₀) [.wrap 3, .accept 0 9 4],
          x.2.1 1 = some ⟨4, true, false⟩ ∧
          (∃ y ∈ call (fun _ _ => True) x.2 (.recv 1 512 7), y.1.call = some (.recv (-1) 512)) ∧
          ∃ y ∈ call (fun _ _ => True) x.2 (.markReady 1), (y.2.2.vfds 1).fd = -1 := by
    decide +kernel
  refine ⟨s₀, wasioInit_eq_of_mem hinit,
    ⟨l, p, r, q, (steps_of_call hp).of_guarded, (tr_of_call hsend).1, hb, hr, fun h => ?_⟩,
    m, u, (steps_of_call hu).of_guarded, hb',
    ⟨r', q', (tr_of_call hrecv).1, hr', fun h => ?_⟩,
    r'', q'', (tr_of_call hmark).1, hcarried, fun h => ?_⟩
  · have hcall := h.acts 0 rfl _ hb (by decide) _ rfl
    exact absurd (hr.symm.trans hcall) (by decide)
  · have hcall := h.acts 1 rfl _ hb' (by decide) _ rfl
    exact absurd (hr'.symm.trans hcall) (by decide)
  · have hq : q''.1 1 = some ⟨4, true, true⟩ := by
      rw [(tr_of_call hmark).1.2]
      dsimp only [bindings] at hb' ⊢
      rw [Function.update_self, hb']
      rfl
    exact absurd (hcarried.symm.trans (h.carries 1 _ hq (by decide) rfl)) (by decide)

end Waeio
