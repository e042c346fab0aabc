import Waeio.WasioHost.Table

/-!
# Virtual descriptors stand for one host descriptor

Between the operation that returns a virtual descriptor and the `wasio_close`
that gives it up, the slot stays bound to the host descriptor it was opened for
(`Waeio.WasioHost.Bound`): the other operations leave the binding alone, and
those that bind pick a free slot. So every host call made on behalf of the slot
is made on that descriptor, whichever of the two arrays the operation reads.
-/

namespace Waeio

namespace WasioHost

/-- The host call an operation makes on behalf of its virtual descriptor, if that
stands for the host descriptor `d`. -/
def Op.hostCall (d : ℤ) : Op → Option HostCall
  | .accept _ _ => some (.accept d)
  | .recv _ len _ => some (.recv d len)
  | .send _ len _ => some (.send d len)
  | .close _ _ => some (.close d)
  | _ => none

/-- The slot `v` is bound to the host descriptor `d`, in a table that is in
order. -/
def Bound (cap v : ℕ) (d : ℤ) (s : WasioPollfd) : Prop :=
  (∃ O, TableInv cap O s) ∧ s.fds v = d ∧ d ≠ -1

variable {cap v : ℕ} {d : ℤ} {s t : WasioPollfd}

/-- The operation that returns a virtual descriptor binds it. -/
theorem bound_of_binds {O : Finset ℕ} (h : TableInv cap O s) (hcap : cap % 32 = 0)
    {a : Op × Reply} (htr : Tr s a t) (hbind : Binds a v d) : Bound cap v d t := by
  refine ⟨h.step hcap htr, ?_⟩
  obtain ⟨hnew, -, hvfd⟩ := hbind
  rcases h.step_cases hcap htr with ⟨-, -, hnone, -⟩ | ⟨v', d', fl, hbind', hd, -, -, -, rfl, -⟩ |
    ⟨v', fl, -, -, -, -, hnone⟩
  · rw [hnone] at hvfd
    exact absurd hvfd (by simp)
  · obtain rfl := Option.some.inj (hvfd.symm.trans hbind'.2.2)
    obtain rfl := Option.some.inj (hnew.symm.trans hbind'.1)
    refine ⟨?_, by omega⟩
    simp [bindSlot]
  · rw [hnone] at hvfd
    exact absurd hvfd (by simp)

/-- **A step keeps a binding**, unless it is the close that gives it up. -/
theorem Bound.step (h : Bound cap v d s) (hcap : cap % 32 = 0) {a : Op × Reply} (htr : Tr s a t)
    (hopen : ¬Unbinds a v) : Bound cap v d t := by
  obtain ⟨⟨O, hO⟩, hfd, hd⟩ := h
  have hmem : v ∈ O := (hO.bound_iff v).mp (by rwa [hfd])
  refine ⟨hO.step hcap htr, ?_, hd⟩
  rcases hO.step_cases hcap htr with ⟨hq, -⟩ | ⟨v', d', fl, -, -, hfree, -, -, rfl, -⟩ |
    ⟨v', fl, hun, -, -, rfl, -⟩
  · rw [hq.fds_eq, hfd]
  · have hne : v ≠ v' := fun he => hfree.1 (he ▸ hmem)
    simpa [bindSlot, hne] using hfd
  · have hne : v ≠ v' := fun he => hopen (he ▸ hun)
    simpa [unbindSlot, hne] using hfd

/-- Nothing is handed out that is bound. -/
theorem Bound.not_binds (h : Bound cap v d s) (hcap : cap % 32 = 0) {a : Op × Reply}
    (htr : Tr s a t) (d' : ℤ) : ¬Binds a v d' := by
  obtain ⟨⟨O, hO⟩, hfd, hd⟩ := h
  have hmem : v ∈ O := (hO.bound_iff v).mp (by rwa [hfd])
  rintro ⟨-, -, hvfd⟩
  rcases hO.step_cases hcap htr with ⟨-, -, hnone, -⟩ | ⟨v', d', fl, hbind, -, hfree, -, -, -, -⟩ |
    ⟨v', fl, -, -, -, -, hnone⟩
  · rw [hnone] at hvfd
    exact absurd hvfd (by simp)
  · obtain rfl := Option.some.inj (hvfd.symm.trans hbind.2.2)
    exact hfree.1 hmem
  · rw [hnone] at hvfd
    exact absurd hvfd (by simp)

/-- **The host call of an operation** is made on the descriptor of the slot it
names. -/
theorem call_eq_hostCall {O : Finset ℕ} (h : TableInv cap O s) {a : Op × Reply} (htr : Tr s a t)
    (hv : a.1.vfd = some v) : a.2.call = a.1.hostCall (s.fds v) := by
  obtain ⟨op, r⟩ := a
  obtain ⟨-, hper⟩ := htr
  cases op with
  | listen | wrap | poll => exact absurd hv (by simp [Op.vfd])
  | accept vfd host =>
    obtain rfl := Option.some.inj hv
    simp only [perform, wasioAccept, Option.some.injEq] at hper
    split at hper
    · obtain ⟨rfl, -⟩ := Prod.mk.inj hper
      rfl
    · split at hper <;> obtain ⟨rfl, -⟩ := Prod.mk.inj hper <;> rfl
  | recv vfd len host =>
    obtain rfl := Option.some.inj hv
    simp only [perform, wasioRecv, Option.some.injEq] at hper
    split_ifs at hper <;> obtain ⟨rfl, -⟩ := Prod.mk.inj hper <;> rfl
  | send vfd len host =>
    obtain rfl := Option.some.inj hv
    simp only [perform, wasioSend, Option.some.injEq] at hper
    split_ifs at hper <;> obtain ⟨rfl, -⟩ := Prod.mk.inj hper <;> rfl
  | notifyRecv vfd =>
    obtain ⟨rfl, -⟩ := Prod.mk.inj (Option.some.inj hper)
    rfl
  | notifySend vfd =>
    obtain ⟨rfl, -⟩ := Prod.mk.inj (Option.some.inj hper)
    rfl
  | close vfd host =>
    -- the one operation that reads the poll array
    obtain rfl := Option.some.inj hv
    have hsync := h.sync vfd
    simp only [perform, wasioClose] at hper
    split_ifs at hper
    · obtain ⟨rfl, -⟩ := Prod.mk.inj (Option.some.inj hper)
      simp [Op.hostCall, hsync]
    · split at hper
      · obtain ⟨rfl, -⟩ := Prod.mk.inj (Option.some.inj hper)
        simp [Op.hostCall, hsync]
      · exact absurd hper (by simp)

end WasioHost

open WasioHost

/-- **Faithful virtual descriptors**: let an operation of a run return `v` for the
host descriptor `d`, and let no `wasio_close(v)` succeed since. Then an operation
on `v` makes its host call on `d`, and no operation returns `v`. -/
theorem wasioHost_binding_faithful (cap : ℕ) (hcap : cap % 32 = 0) (hlt : cap < 2 ^ 32)
    (l₁ l₂ : List (Op × Reply)) (a b : Op × Reply) (s t u w : WasioPollfd) (v : ℕ) (d : ℤ)
    (h₁ : WasioHost.Run cap l₁ s) (ha : Tr s a t) (hbind : Binds a v d)
    (h₂ : Lts.Steps Tr t l₂ u) (hopen : ∀ c ∈ l₂, ¬Unbinds c v) (hb : Tr u b w) :
    (b.1.vfd = some v → b.2.call = b.1.hostCall d) ∧ ∀ d', ¬Binds b v d' := by
  obtain ⟨O, hO⟩ := h₁.tableInv hcap hlt
  have hbound : Bound cap v d u := by
    refine (h₂.guarded_of_forall hopen).invariant ?_ (bound_of_binds hO hcap ha hbind)
    rintro s c t hs ⟨htr, hc⟩
    exact hs.step hcap htr hc
  refine ⟨fun hv => ?_, hbound.not_binds hcap hb⟩
  obtain ⟨⟨O', hO'⟩, hfd, -⟩ := hbound
  rw [call_eq_hostCall hO' hb hv, hfd]

/-- A socket is opened on the descriptor 3 and accepts two connections, of which the first is
closed before the second has its slot. Then it is received from on the descriptor 3. -/
theorem wasioHost_binding_faithful_connections :
    ∃ a l b s t u w, Tr s a t ∧ Lts.Steps Tr t l u ∧ Tr u b w ∧ Binds a 0 3 ∧
      l.map (fun c => c.2.vfd) = [some 1, none, none, some 1] ∧
      b.2.call = some (.recv 3 512) := by
  obtain ⟨s₀, hinit, hadm, p, hp, q, hq, hadm', x, hx, hbind, hvfds⟩ : ∃ s₀,
      wasioInit 32 true = (.ok, some s₀) ∧ Admissible s₀ (.listen 8080 1000 ⟨3, 0⟩) ∧
      ∃ p ∈ perform s₀ (.listen 8080 1000 ⟨3, 0⟩),
      ∃ q ∈ performAll p.2 [.accept 0 ⟨5, 0⟩, .notifyRecv 1, .close 1 ⟨0, 0⟩, .accept 0 ⟨7, 0⟩],
        Admissible q.2 (.recv 0 512 ⟨7, 0⟩) ∧ ∃ x ∈ perform q.2 (.recv 0 512 ⟨7, 0⟩),
          (p.1.result = .ok ∧ p.1.vfd = some 0) ∧
            q.1.map (fun c => c.2.vfd) = [some 1, none, none, some 1] := by
    refine ⟨_, rfl, ?_⟩
    decide +kernel
  have htr : Tr s₀ (.listen 8080 1000 ⟨3, 0⟩, p.1) p.2 := ⟨hadm, hp⟩
  have hb : Tr q.2 (.recv 0 512 ⟨7, 0⟩, x.1) x.2 := ⟨hadm', hx⟩
  have hopen : ∀ c ∈ q.1, ¬Unbinds c 0 := by
    rintro c hc ⟨⟨host, hclose⟩, -⟩
    have hmem := List.mem_map_of_mem (f := Prod.fst) hc
    rw [map_fst_of_performAll hq, hclose] at hmem
    simp at hmem
  have hfaithful := wasioHost_binding_faithful 32 (by decide) (by decide) [] q.1 _ _ s₀ p.2 q.2 _
    0 3 ⟨s₀, hinit, .nil _⟩ htr ⟨rfl, hbind⟩ (steps_of_performAll hq) hopen hb
  exact ⟨_, q.1, _, s₀, p.2, q.2, _, htr, steps_of_performAll hq, hb, ⟨rfl, hbind⟩, hvfds,
    hfaithful.1 rfl⟩

end Waeio
