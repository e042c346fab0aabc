import Mathlib.Data.List.Induction
import Waeio.HostPoll.Basic
import Waeio.Lib.Steps

/-!
# What the dense poll array holds

The first `length` entries of the array are the descriptors that `wasio_listen` and
`wasio_accept` returned, one for each call that succeeded, in the order of the calls
(`Waeio.hostPoll_entries`). That a descriptor was closed since is not seen there:
`wasio_close` is given the table and does not use it, and it is for the client to
take the entry out, as `httpserver_wasio_fiber.c` does after each of its closes.
-/

namespace Waeio

namespace HostPoll

/-- The descriptors in the entries in use. -/
def WasioPollfd.entries (wfd : WasioPollfd) : List ℤ :=
  (List.range wfd.length).map fun i => (wfd.fds i).fd

/-- The descriptor that a successful `wasio_listen` or `wasio_accept` returned. -/
def openedFd (a : Op × Reply) : Option ℤ :=
  match a.1, a.2.result with
  | .listen _ _ _, .ok | .accept _ _, .ok => a.2.fd
  | _, _ => none

/-- **The descriptors opened**, in order. -/
def openings (l : List (Op × Reply)) : List ℤ := l.filterMap openedFd

/-- The operation closes the descriptor `d`. -/
def Closes (a : Op × Reply) (d : ℤ) : Prop :=
  match a.1 with
  | .close vfd _ => vfd = d ∧ a.2.result = .ok
  | _ => False

instance (a : Op × Reply) : DecidablePred (Closes a) := fun d =>
  match a with
  | (.close vfd _, r) => inferInstanceAs (Decidable (vfd = d ∧ r.result = .ok))
  | (.listen _ _ _, _) | (.poll _ _ _, _) | (.accept _ _, _) | (.recv _ _ _, _)
  | (.send _ _ _, _) => isFalse id

/-- **The descriptors that are open**, those opened and not closed since. -/
def openFds (l : List (Op × Reply)) : List ℤ :=
  l.foldl (fun fds a => (fds.filter fun d => ¬Closes a d) ++ (openedFd a).toList) []

/-- A run from `wasio_init`. -/
def Run (cap : ℕ) (l : List (Op × Reply)) (s : WasioPollfd) : Prop :=
  ∃ fds s₀, wasioInit cap (some fds) = (.ok, some s₀) ∧ Lts.Steps Tr s₀ l s

/-- The operation appends an entry, if the host lets it. -/
def Op.Appends : Op → Prop
  | .listen _ _ _ | .accept _ _ => True
  | _ => False

variable {cap : ℕ} {s t : WasioPollfd} {a : Op × Reply} {l : List (Op × Reply)}

/-! ### One operation -/

/-- The entries after one was appended. -/
theorem entries_update (s : WasioPollfd) (fd : ℤ) :
    WasioPollfd.entries
        { s with fds := Function.update s.fds s.length (opened fd), length := s.length + 1 } =
      s.entries ++ [fd] := by
  rw [WasioPollfd.entries, List.range_succ, List.map_append]
  congr 1
  · refine List.map_congr_left fun i hi => ?_
    dsimp only
    rw [Function.update_of_ne (Nat.ne_of_lt (List.mem_range.mp hi))]
  · simp [opened]

/-- The answer to a poll changes no entry. -/
theorem entries_wasioPoll (s : WasioPollfd) (timeout : ℤ) (revents : ℕ → BitVec 16)
    (host : HostAnswer) : (wasioPoll s timeout revents host).2.entries = s.entries ∧
      (wasioPoll s timeout revents host).2.length = s.length ∧
      (wasioPoll s timeout revents host).2.capacity = s.capacity := by
  rw [wasioPoll]
  split_ifs
  · exact ⟨rfl, rfl, rfl⟩
  · refine ⟨List.map_congr_left fun i hi => ?_, rfl, rfl⟩
    have hlt : i < s.length := List.mem_range.mp hi
    dsimp only
    rw [if_pos hlt]

/-- The table has the capacity `cap`, and is within it. -/
structure Sized (cap : ℕ) (s : WasioPollfd) : Prop where
  capacity_eq : s.capacity = cap
  lt : cap < 2 ^ 32
  length_le : s.length ≤ cap

/-- **What an operation does**: it appends what it opened. -/
theorem Sized.step (h : Sized cap s) (htr : Tr s a t) :
    Sized cap t ∧ t.entries = s.entries ++ (openedFd a).toList := by
  obtain ⟨op, r⟩ := a
  have hcap := h.capacity_eq
  have hlt := h.lt
  cases op with
  | listen port backlog host =>
    simp only [Tr, perform] at htr
    rcases Nat.lt_or_ge s.length s.capacity with hroom | hfull
    · by_cases hneg : host.ret < 0
      · rw [wasioListen_of_neg hroom port backlog hneg] at htr
        obtain ⟨rfl, rfl⟩ := Prod.mk.inj (Option.some.inj htr)
        exact ⟨h, by simp [openedFd, translateError_ne_ok]⟩
      · rw [wasioListen_of_nonneg hroom (by omega) port backlog hneg] at htr
        obtain ⟨rfl, rfl⟩ := Prod.mk.inj (Option.some.inj htr)
        exact ⟨⟨hcap, hlt, hcap ▸ hroom⟩, entries_update s host.ret⟩
    · rw [wasioListen, if_neg (by omega)] at htr
      exact absurd htr (by simp)
  | accept vfd host =>
    simp only [Tr, perform] at htr
    rcases Nat.lt_or_ge s.length s.capacity with hroom | hfull
    · by_cases hneg : host.ret < 0
      · rw [wasioAccept_of_neg hroom vfd hneg] at htr
        obtain ⟨rfl, rfl⟩ := Prod.mk.inj (Option.some.inj htr)
        exact ⟨h, by simp [openedFd, translateError_ne_ok]⟩
      · rw [wasioAccept_of_nonneg hroom (by omega) vfd hneg] at htr
        obtain ⟨rfl, rfl⟩ := Prod.mk.inj (Option.some.inj htr)
        exact ⟨⟨hcap, hlt, hcap ▸ hroom⟩, entries_update s host.ret⟩
    · rw [wasioAccept, if_neg (by omega)] at htr
      exact absurd htr (by simp)
  | poll timeout revents host =>
    have ht : (wasioPoll s timeout revents host).2 = t := congrArg Prod.snd (Option.some.inj htr)
    obtain ⟨hentries, hlen, hcapacity⟩ := entries_wasioPoll s timeout revents host
    rw [ht] at hentries hlen hcapacity
    exact ⟨⟨hcapacity.trans hcap, hlt, hlen ▸ h.length_le⟩, by simpa [openedFd] using hentries⟩
  | recv | send | close =>
    obtain ⟨-, rfl⟩ := Prod.mk.inj (Option.some.inj htr)
    exact ⟨h, by simp [openedFd]⟩

/-- **When an operation fails an assertion**: when it would append to a full table. -/
theorem perform_eq_none_iff (h : s.capacity < 2 ^ 32) (op : Op) :
    perform s op = none ↔ op.Appends ∧ s.capacity ≤ s.length := by
  cases op with
  | listen port backlog host =>
    rcases Nat.lt_or_ge s.length s.capacity with hroom | hfull
    · by_cases hneg : host.ret < 0
      · simp [perform, wasioListen_of_neg hroom port backlog hneg, hroom]
      · simp [perform, wasioListen_of_nonneg hroom h port backlog hneg, hroom]
    · rw [perform, wasioListen, if_neg (by omega)]
      simp [Op.Appends, hfull]
  | accept vfd host =>
    rcases Nat.lt_or_ge s.length s.capacity with hroom | hfull
    · by_cases hneg : host.ret < 0
      · simp [perform, wasioAccept_of_neg hroom vfd hneg, hroom]
      · simp [perform, wasioAccept_of_nonneg hroom h vfd hneg, hroom]
    · rw [perform, wasioAccept, if_neg (by omega)]
      simp [Op.Appends, hfull]
  | poll | recv | send | close => simp [perform, Op.Appends]

/-! ### Whole runs -/

/-- The entries after a run are those before it, and what the run opened. -/
theorem entries_steps (h : Sized cap s) (hl : Lts.Steps Tr s l t) :
    Sized cap t ∧ t.entries = s.entries ++ openings l := by
  induction hl with
  | nil s => exact ⟨h, by simp [openings]⟩
  | @cons s u t a l hs _ ih =>
    obtain ⟨hu, hentries⟩ := h.step hs
    obtain ⟨ht, hrest⟩ := ih hu
    refine ⟨ht, ?_⟩
    rw [hrest, hentries, List.append_assoc, openings, openings, List.filterMap_cons]
    cases openedFd a <;> rfl

theorem Run.entries (hlt : cap < 2 ^ 32) (h : Run cap l s) :
    Sized cap s ∧ s.entries = openings l := by
  obtain ⟨fds, s₀, hinit, hl⟩ := h
  obtain rfl := Option.some.inj (Prod.mk.inj hinit).2
  obtain ⟨hs, hentries⟩ := entries_steps ⟨rfl, hlt, Nat.zero_le _⟩ hl
  exact ⟨hs, hentries⟩

/-- The descriptors that are open were opened, in the same order. -/
theorem openFds_sublist (l : List (Op × Reply)) : (openFds l).Sublist (openings l) := by
  induction l using List.reverseRecOn with
  | nil => exact List.Sublist.refl _
  | append_singleton l a ih =>
    rw [openFds, List.foldl_append, openings, List.filterMap_append]
    refine List.Sublist.append (List.filter_sublist.trans ih) ?_
    rw [List.filterMap_cons]
    cases openedFd a <;> exact List.Sublist.refl _

/-- Where nothing was closed, the descriptors that are open are those opened. -/
theorem openFds_eq_openings (h : ∀ a ∈ l, ∀ d, ¬Closes a d) : openFds l = openings l := by
  induction l using List.reverseRecOn with
  | nil => rfl
  | append_singleton l a ih =>
    rw [openFds, List.foldl_append, openings, List.filterMap_append]
    have hkept : (openFds l).filter (fun d => ¬Closes a d) = openFds l :=
      List.filter_eq_self.mpr fun d _ => by simpa using h a (by simp) d
    rw [List.foldl_cons, List.foldl_nil, ← openFds, hkept, ih fun b hb => h b (by simp [hb])]
    rw [List.filterMap_cons]
    cases openedFd a <;> rfl

end HostPoll

open HostPoll

/-- **The poll array holds what was opened**: its entries in use are the descriptors
that the successful `wasio_listen` and `wasio_accept` of the run returned, one for each
call and in their order, so all descriptors that are open are among them, and they are
no others while nothing was closed. The length is within the capacity, and an assertion
fails exactly when there is to be one more entry than the capacity. -/
theorem hostPoll_entries (cap : ℕ) (hlt : cap < 2 ^ 32) (l : List (Op × Reply)) (s : WasioPollfd)
    (h : HostPoll.Run cap l s) :
    s.entries = openings l ∧ (openFds l).Sublist s.entries ∧
      ((∀ a ∈ l, ∀ d, ¬Closes a d) → s.entries = openFds l) ∧
      s.capacity = cap ∧ s.length ≤ cap ∧
      ∀ op, perform s op = none ↔ op.Appends ∧ (openings l).length = cap := by
  obtain ⟨hs, hentries⟩ := h.entries hlt
  refine ⟨hentries, hentries ▸ openFds_sublist l, fun hclosed => ?_, hs.capacity_eq, hs.length_le,
    fun op => ?_⟩
  · rw [hentries, openFds_eq_openings hclosed]
  · have hlen : s.length = (openings l).length := by
      rw [← hentries, WasioPollfd.entries, List.length_map, List.length_range]
    have hle := hs.length_le
    rw [perform_eq_none_iff (hs.capacity_eq ▸ hlt), hs.capacity_eq, hlen]
    exact and_congr_right fun _ => by omega

/-- A listener and a connection. -/
theorem hostPoll_entries_two :
    ∃ l s, HostPoll.Run 2 l s ∧ openings l = [3, 5] ∧ s.entries = [3, 5] := by
  obtain ⟨⟨l, s⟩, hl, hopen⟩ : ∃ x ∈ Lts.answer perform
      { capacity := 2, length := 0, fds := fun _ => ⟨0, 0, 0⟩ }
      [.listen 8080 1000 ⟨3, 0⟩, .accept 3 ⟨5, 0⟩], openings x.1 = [3, 5] :=
    ⟨_, rfl, by decide⟩
  have hrun : HostPoll.Run 2 l s := ⟨_, _, rfl, Lts.steps_of_answer hl⟩
  exact ⟨l, s, hrun, hopen, (hostPoll_entries 2 (by decide) l s hrun).1.trans hopen⟩

/-- **An entry outlives its descriptor**: the connection 5 is closed and its entry stays,
so with one descriptor open the table of capacity 2 is full, and the next `wasio_accept`
fails its assertion. -/
theorem not_entries_eq_openFds :
    ∃ l s, HostPoll.Run 2 l s ∧ openFds l = [3] ∧ s.entries = [3, 5] ∧
      ∀ host, perform s (.accept 3 host) = none := by
  obtain ⟨⟨l, s⟩, hl, hopen, hentries, hlen, hcap⟩ : ∃ x ∈ Lts.answer perform
      { capacity := 2, length := 0, fds := fun _ => ⟨0, 0, 0⟩ }
      [.listen 8080 1000 ⟨3, 0⟩, .accept 3 ⟨5, 0⟩, .close 5 ⟨0, 0⟩],
      openFds x.1 = [3] ∧ x.2.entries = [3, 5] ∧ x.2.length = 2 ∧ x.2.capacity = 2 :=
    ⟨_, rfl, by decide⟩
  refine ⟨l, s, ⟨_, _, rfl, Lts.steps_of_answer hl⟩, hopen, hentries, fun host => ?_⟩
  have hfull : s.capacity ≤ s.length := Nat.le_of_eq (hcap.trans hlen.symm)
  have hlt : s.capacity < 2 ^ 32 := lt_of_eq_of_lt hcap (by decide)
  exact (perform_eq_none_iff hlt _).mpr ⟨trivial, hfull⟩

end Waeio
