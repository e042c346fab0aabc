import Waeio.Bespoke.Compaction
import Waeio.Bespoke.Isolation

/-!
# The bounds of the poll array

The array has room for `MAX_CONNECTIONS` entries. The accept loop is the one place where it
grows, and it does not ask how many entries are in use: with a full array, the next
connection is written behind it. Everywhere else the program keeps to the array
(`Waeio.Bespoke.InBounds`): the sweep and the compaction write entries in use, of which there
are always some, since the listener has the first entry and is never closed, and each of
which asks for `POLLIN`, since `events` is written when an entry comes into use and is not
moved.

So a run stays in bounds exactly when no connection is accepted while the array is full
(`Waeio.bespoke_inBounds_iff`). The peers decide how many connect, and there are runs with
one too many (`Waeio.not_bespoke_inBounds`).
-/

namespace Waeio

namespace Bespoke

open FiberServer (MAX_CONNECTIONS)
open Http (Call Answer Parser Tm)

variable {phr : Parser} {s t : Program} {a : Label} {i : ℕ}

/-! ### What is claimed of a step -/

/-- The sweep ends in this step, with a compaction. -/
def Compacts (s : Program) : Prop :=
  s.compressArray = true ∧ ∃ i, s.pc = .sweep i ∧
    (i < s.currentSize → (s.table.fds i).revents ≠ 0 ∧ (s.table.fds i).revents &&& POLLIN = 0)

/-- **The entries of `fds` a step touches**: those the program writes to, and in the
compaction those it reads as well. -/
inductive Touches (s : Program) : Label → ℕ → Prop
  /-- The listener. -/
  | listen {c : Call} {a : Answer} : s.pc = .listen → 0 ≤ a.ret → Touches s (.call c a) 0
  /-- A new connection. -/
  | accept {i : ℕ} {c : Call} {a : Answer} : s.pc = .accept i → 0 ≤ a.ret →
      Touches s (.call c a) s.table.nfds
  /-- A connection that is closed. -/
  | close {i : ℕ} {c : Call} {a : Answer} : s.pc = .close i → Touches s (.call c a) i
  /-- The compaction, in one of its turns. -/
  | compact {l : List (List ℕ)} {x : Table × Compact.Cells.Point} {ks : List ℕ} {k : ℕ} :
      Compacts s → slots.Turns isHole s.table l x → ks ∈ l → k ∈ ks → Touches s .tau k

/-- **The step stays in bounds.** -/
structure InBounds (s : Program) (a : Label) (t : Program) : Prop where
  /-- Before `host_poll`, there are entries, and no more than there is room for. -/
  poll : t.pc = .poll → 1 ≤ t.table.nfds ∧ t.table.nfds ≤ MAX_CONNECTIONS
  /-- All that is touched is in the array. -/
  touches : ∀ k, Touches s a k → k < MAX_CONNECTIONS
  /-- Once there is a listener, the entries in use ask for `POLLIN`. -/
  events : 0 ≤ t.listenSd → ∀ k < t.table.nfds, (t.table.fds k).events = POLLIN

/-- **No connection is accepted while the array is full.** -/
def HasRoom (s : Program) : Label → Prop
  | .call (.accept _) a => 0 ≤ a.ret → s.table.nfds < MAX_CONNECTIONS
  | _ => True

/-! ### The invariant -/

/-- **The array while the program serves**: the first entry is the listener. -/
structure TableOk (sd : ℤ) (t : Table) : Prop where
  pos : 0 < t.nfds
  le : t.nfds ≤ MAX_CONNECTIONS
  listener : (t.fds 0).fd = sd
  events : ∀ k < t.nfds, (t.fds k).events = POLLIN

/-- The entry `i` is a connection the sweep has come to. -/
structure AtConnection (i : ℕ) (s : Program) : Prop where
  size_le : s.currentSize ≤ s.table.nfds
  lt_size : i < s.currentSize
  ne_listener : (s.table.fds i).fd ≠ s.listenSd

/-- What holds where the program is. -/
def PcOk (s : Program) : Prop :=
  match s.pc with
  | .listen => False
  | .sweep _ | .accept _ => s.currentSize ≤ s.table.nfds
  | .recv i | .send i _ | .close i => AtConnection i s
  | _ => True

/-- **The program serves.** -/
structure Serving (s : Program) : Prop where
  listens : 0 ≤ s.listenSd
  table : TableOk s.listenSd s.table
  point : PcOk s

/-- **The invariant**: before there is a listener, and from there on. -/
def Inv (s : Program) : Prop :=
  (s.pc = .listen ∧ s.listenSd < 0 ∧ s.table.nfds = 1) ∨
    (s.pc = .exited ∧ s.listenSd < 0) ∨ Serving s

theorem inv_start (reqbuf resbuf : ℕ → UInt8) : Inv (.start reqbuf resbuf) :=
  .inl ⟨rfl, Int.negSucc_lt_zero 0, rfl⟩

/-- A change of the other variables. -/
theorem Serving.of_eq (h : Serving s) (hsd : t.listenSd = s.listenSd) (ht : t.table = s.table)
    (hp : PcOk t) : Serving t :=
  ⟨by rw [hsd]; exact h.listens, by rw [hsd, ht]; exact h.table, hp⟩

/-! ### The steps without a call -/

/-- The listener stays where it is, since it is not `-1`, and so does every `events`. -/
theorem TableOk.compact {sd : ℤ} {u : Table} (h : TableOk sd u) (hsd : 0 ≤ sd) :
    TableOk sd (compact u) := by
  have hthin := thins_compact (lt_of_le_of_lt h.le (by decide : MAX_CONNECTIONS < 2 ^ 32))
  have hlisten : (!isHole (u.fds 0).fd) = true := by
    have hne : sd ≠ -1 := by omega
    simp [isHole, h.listener, hne]
  obtain ⟨hpos, hfirst⟩ := Compact.head_of_row_eq_filter hthin.row_eq h.pos hlisten
  have hle : (Bespoke.compact u).nfds ≤ u.nfds := hthin.size_eq.trans_le (Nat.count_le _)
  refine ⟨hpos, hle.trans h.le, hfirst.trans h.listener, fun k hk => ?_⟩
  rw [events_compact]
  exact h.events k (lt_of_lt_of_le hk hle)

theorem serving_loopEnd (hsd : 0 ≤ s.listenSd) (ht : TableOk s.listenSd s.table) :
    Serving (loopEnd s) := by
  rw [loopEnd]
  split_ifs
  · exact ⟨hsd, ht, trivial⟩
  · exact ⟨hsd, ht, trivial⟩

theorem serving_sweepEnd (hsd : 0 ≤ s.listenSd) (ht : TableOk s.listenSd s.table) :
    Serving (sweepEnd s) := by
  rw [sweepEnd]
  split_ifs
  · exact serving_loopEnd hsd (ht.compact hsd)
  · exact serving_loopEnd hsd ht

theorem serving_connectionEnd (hsd : 0 ≤ s.listenSd) (ht : TableOk s.listenSd s.table)
    (hi : AtConnection i s) : Serving (connectionEnd i s) := by
  rw [connectionEnd]
  split_ifs
  · exact ⟨hsd, ht, hi.size_le, hi.lt_size, hi.ne_listener⟩
  · exact ⟨hsd, ht, hi.size_le⟩

theorem serving_tauStep (h : Serving s) (hstep : tauStep s = some t) : Serving t := by
  rw [tauStep] at hstep
  split at hstep
  · rename_i i hpc
    have hsize : s.currentSize ≤ s.table.nfds := by
      have hp := h.point
      rwa [PcOk, hpc] at hp
    dsimp only at hstep
    split_ifs at hstep with hlt hzero hin hlisten <;> obtain rfl := Option.some.inj hstep
    · exact h.of_eq rfl rfl hsize
    · exact serving_sweepEnd h.listens h.table
    · exact h.of_eq rfl rfl hsize
    · exact h.of_eq rfl rfl ⟨hsize, hlt, hlisten⟩
    · exact serving_sweepEnd h.listens h.table
  · split_ifs at hstep <;> obtain rfl := Option.some.inj hstep
    · exact h.of_eq rfl rfl trivial
    · exact h.of_eq rfl rfl trivial
    · exact h.of_eq rfl rfl trivial
  · cases hstep

/-! ### The steps with a call -/

/-- The listener gets the first entry. -/
theorem inv_listened (ans : Answer) (hn : s.table.nfds = 1) :
    Inv (listened s ans) := by
  rw [listened]
  split_ifs with hneg
  · exact .inr (.inl ⟨rfl, hneg⟩)
  · refine .inr (.inr ⟨Int.not_lt.mp hneg, ⟨?_, ?_, by simp, fun k hk => ?_⟩, trivial⟩)
    · exact hn.symm ▸ Nat.one_pos
    · exact hn.symm ▸ (by decide : 1 ≤ MAX_CONNECTIONS)
    · obtain rfl : k = 0 := by
        dsimp only at hk
        omega
      simp

theorem serving_polled (ans : Answer) (h : Serving s) : Serving (polled s ans) := by
  have htable : TableOk s.listenSd
      { s.table with
        fds := fun k =>
          if k < s.table.nfds then { s.table.fds k with revents := ans.revents k }
          else s.table.fds k } := by
    refine ⟨h.table.pos, h.table.le, ?_, fun k hk => ?_⟩
    · dsimp only
      rw [if_pos h.table.pos]
      exact h.table.listener
    · dsimp only at hk ⊢
      rw [if_pos hk]
      exact h.table.events k hk
  rw [polled]
  dsimp only
  split_ifs
  · exact ⟨h.listens, htable, trivial⟩
  · exact ⟨h.listens, htable, le_rfl⟩

/-- **A new connection** is the first entry behind those in use, where there is room for it. -/
theorem serving_accepted (ans : Answer) (h : Serving s) (hsize : s.currentSize ≤ s.table.nfds)
    (hroom : 0 ≤ ans.ret → s.table.nfds < MAX_CONNECTIONS) : Serving (accepted i s ans) := by
  rw [accepted]
  split_ifs with hneg hlt
  · exact h.of_eq rfl rfl hsize
  · have hsucc : Uint32.succ s.table.nfds = s.table.nfds + 1 :=
      Uint32.succ_of_lt (lt_of_le_of_lt hlt (by decide))
    have hpos := h.table.pos
    refine ⟨h.listens, ⟨?_, ?_, ?_, fun k hk => ?_⟩, ?_⟩
    · dsimp only
      omega
    · dsimp only
      omega
    · rw [← h.table.listener]
      exact congrArg Pollfd.fd (Function.update_of_ne (by omega) _ _)
    · dsimp only at hk ⊢
      rcases eq_or_ne k s.table.nfds with rfl | hne
      · rw [Function.update_self]
      · rw [Function.update_of_ne hne]
        exact h.table.events k (by omega)
    · change s.currentSize ≤ Uint32.succ s.table.nfds
      omega
  · exact absurd (hroom (Int.not_lt.mp hneg)) hlt

theorem serving_respond (now : Tm) (hsd : 0 ≤ s.listenSd) (ht : TableOk s.listenSd s.table)
    (hi : AtConnection i s) : Serving (respond phr now i s) := by
  rw [respond]
  split
  · exact ⟨hsd, ht, trivial⟩
  · dsimp only
    split_ifs
    · exact serving_connectionEnd hsd ht ⟨hi.size_le, hi.lt_size, hi.ne_listener⟩
    · exact ⟨hsd, ht, hi.size_le, hi.lt_size, hi.ne_listener⟩

theorem serving_received (ans : Answer) (hsd : 0 ≤ s.listenSd) (ht : TableOk s.listenSd s.table)
    (hi : AtConnection i s) : Serving (received phr i s ans) := by
  rw [received]
  split_ifs
  · exact serving_connectionEnd hsd ht ⟨hi.size_le, hi.lt_size, hi.ne_listener⟩
  · exact serving_connectionEnd hsd ht ⟨hi.size_le, hi.lt_size, hi.ne_listener⟩
  · exact serving_respond _ hsd ht ⟨hi.size_le, hi.lt_size, hi.ne_listener⟩

/-- **A connection that is closed** is not the listener, so the first entry stays. -/
theorem serving_closed (h : Serving s) (hi : AtConnection i s) : Serving (closed i s) := by
  have hne : 0 ≠ i := by
    rintro rfl
    exact hi.ne_listener h.table.listener
  refine ⟨h.listens, ⟨h.table.pos, h.table.le, ?_, fun k hk => ?_⟩, hi.size_le⟩
  · refine Eq.trans ?_ h.table.listener
    exact congrArg Pollfd.fd (Function.update_of_ne hne _ _)
  · dsimp only [closed] at hk ⊢
    rcases eq_or_ne k i with rfl | hki
    · rw [Function.update_self]
      exact h.table.events k hk
    · rw [Function.update_of_ne hki]
      exact h.table.events k hk

/-- **A step keeps the invariant**, if there is room for what it accepts. -/
theorem inv_step (h : Inv s) (hstep : Step phr s a t) (hroom : HasRoom s a) : Inv t := by
  cases a with
  | tau =>
    rcases h with ⟨hpc, -, -⟩ | ⟨hpc, -⟩ | h
    · rw [Step, step, tauStep, hpc] at hstep
      cases hstep
    · rw [Step, step, tauStep, hpc] at hstep
      cases hstep
    · exact .inr (.inr (serving_tauStep h hstep))
  | call c ans =>
    obtain ⟨hc, ht⟩ := Option.ite_none_right_eq_some.mp hstep
    obtain rfl := Option.some.inj ht
    rcases h with ⟨hpc, -, hn⟩ | ⟨hpc, -⟩ | h
    · rw [answered, hpc]
      exact inv_listened ans hn
    · rw [Program.call, hpc] at hc
      cases hc
    · have hp := h.point
      rw [PcOk] at hp
      rw [Program.call] at hc
      rw [answered]
      cases hpc : s.pc with
      | listen =>
        rw [hpc] at hp
        exact absurd hp id
      | poll => exact .inr (.inr (serving_polled ans h))
      | accept i =>
        rw [hpc] at hp hc
        obtain rfl := Option.some.inj hc
        exact .inr (.inr (serving_accepted ans h hp hroom))
      | recv i =>
        rw [hpc] at hp
        exact .inr (.inr (serving_received ans h.listens h.table hp))
      | send i rc =>
        rw [hpc] at hp
        dsimp only [sent]
        split_ifs
        · exact .inr (.inr (serving_connectionEnd h.listens h.table
            ⟨hp.size_le, hp.lt_size, hp.ne_listener⟩))
        · exact .inr (.inr (h.of_eq rfl rfl ⟨hp.size_le, hp.lt_size, hp.ne_listener⟩))
      | close i =>
        rw [hpc] at hp
        exact .inr (.inr (serving_closed h hp))
      | closeLast i => exact .inr (.inr (h.of_eq rfl rfl trivial))
      | _ =>
        rw [hpc] at hc
        cases hc

/-! ### The steps that stay in bounds -/

theorem Inv.serving (h : Inv s) (hlisten : s.pc ≠ .listen) (hexited : s.pc ≠ .exited) :
    Serving s := by
  rcases h with ⟨hpc, -⟩ | ⟨hpc, -⟩ | h
  · exact absurd hpc hlisten
  · exact absurd hpc hexited
  · exact h

/-- What the program is about to call at the listener. -/
theorem call_eq_accept {fd : ℤ} (h : s.call = some (.accept fd)) : ∃ i, s.pc = .accept i := by
  rw [Program.call] at h
  cases hpc : s.pc with
  | accept i => exact ⟨i, rfl⟩
  | _ =>
    rw [hpc] at h
    exact absurd h (by simp)

/-- What a step touches are entries in use, but for the entry of a new connection. -/
theorem lt_of_touches (h : Inv s) (hstep : Step phr s a t) (hroom : HasRoom s a) {k : ℕ}
    (hk : Touches s a k) : k < MAX_CONNECTIONS := by
  cases hk with
  | listen => decide
  | accept hpc hret =>
    obtain ⟨hc, -⟩ := Option.ite_none_right_eq_some.mp hstep
    rw [Program.call, hpc] at hc
    obtain rfl := Option.some.inj hc
    exact hroom hret
  | close hpc =>
    have hserving := h.serving (by simp [hpc]) (by simp [hpc])
    have hi : AtConnection k s := by
      have hp := hserving.point
      rwa [PcOk, hpc] at hp
    exact lt_of_lt_of_le hi.lt_size (hi.size_le.trans hserving.table.le)
  | compact hcompacts hturns hks hk =>
    obtain ⟨-, i, hpc, -⟩ := hcompacts
    have hle := (h.serving (by simp [hpc]) (by simp [hpc])).table.le
    have hthin := thins_compact (lt_of_le_of_lt hle (by decide : MAX_CONNECTIONS < 2 ^ 32))
    exact lt_of_lt_of_le (hthin.touches _ _ hturns _ hks k hk) hle

/-- **A step stays in bounds exactly when there is room for what it accepts.** -/
theorem inBounds_iff (h : Inv s) (hstep : Step phr s a t) : InBounds s a t ↔ HasRoom s a := by
  constructor
  · intro hin
    cases a with
    | tau => trivial
    | call c ans =>
      cases c with
      | accept fd =>
        intro hret
        obtain ⟨hc, -⟩ := Option.ite_none_right_eq_some.mp hstep
        obtain ⟨i, hpc⟩ := call_eq_accept hc
        exact hin.touches _ (.accept hpc hret)
      | _ => trivial
  · intro hroom
    have ht := inv_step h hstep hroom
    refine ⟨fun hpc => ?_, fun k hk => lt_of_touches h hstep hroom hk, fun hsd => ?_⟩
    · have hserving := ht.serving (by simp [hpc]) (by simp [hpc])
      exact ⟨hserving.table.pos, hserving.table.le⟩
    · rcases ht with ⟨-, hneg, -⟩ | ⟨-, hneg⟩ | hserving
      · exact absurd hsd (Int.not_le.mpr hneg)
      · exact absurd hsd (Int.not_le.mpr hneg)
      · exact hserving.table.events

/-! ### As many connections as the array has entries -/

/-- The host returns `ret`; from `host_poll`, with all entries reported. -/
def incoming (ret : ℤ) : Answer := plainAnswer ret 0 fun _ => POLLIN

/-- The program with the listener and `n` connections, in the accept loop. -/
structure Filling (n : ℕ) (s : Program) : Prop where
  pc : s.pc = .accept 0
  nfds : s.table.nfds = n + 1

/-- **The accept loop goes on** while connections come in. -/
theorem runs_filling : ∀ n < MAX_CONNECTIONS, ∃ l s, Runs rootParser l s ∧ Filling n s := by
  intro n
  induction n with
  | zero =>
    intro _
    obtain ⟨s, hs, hpc, hn⟩ : ∃ s ∈ Lts.exec (step rootParser) (.start (fun _ => 0) fun _ => 0)
        [.call (.listen 8080 1000) (incoming 3), .call (.poll [(3, POLLIN)] timeout) (incoming 1),
          .tau], s.pc = .accept 0 ∧ s.table.nfds = 1 := by decide +kernel
    exact ⟨_, s, runs_of_exec hs, hpc, hn⟩
  | succ n ih =>
    intro hn
    obtain ⟨l, s, hrun, hpc, hnfds⟩ := ih (Nat.lt_of_succ_lt hn)
    have hcall : s.call = some (.accept s.listenSd) := by rw [Program.call, hpc]
    have hlt : s.table.nfds < MAX_CONNECTIONS := by omega
    refine ⟨_, _, hrun.snoc (step_call hcall (incoming (n + 4))), ?_⟩
    have hret : ¬(incoming (n + 4)).ret < 0 := by
      change ¬(n + 4 : ℤ) < 0
      omega
    rw [answered, hpc]
    dsimp only [accepted]
    rw [if_neg hret, if_pos hlt]
    refine ⟨rfl, ?_⟩
    dsimp only
    rw [hnfds, Uint32.succ_of_lt (lt_trans (Nat.succ_lt_succ hn) (by decide))]

end Bespoke

/-! ### The bounds -/

/-- **The bespoke server stays in bounds** in a run exactly when it accepts no connection while
its array is full. -/
theorem bespoke_inBounds_iff (phr : Http.Parser) (reqbuf resbuf : ℕ → UInt8)
    (l : List Bespoke.Label) (s : Bespoke.Program) :
    Lts.Steps (Lts.Upheld (Bespoke.Step phr) Bespoke.InBounds) (.start reqbuf resbuf) l s ↔
      Lts.Steps (Lts.Guarded (Bespoke.Step phr) Bespoke.HasRoom) (.start reqbuf resbuf) l s :=
  Lts.steps_upheld_iff_guarded (I := Bespoke.Inv) (F := Bespoke.InBounds) (C := Bespoke.HasRoom)
    (fun _ _ _ h hstep hin => Bespoke.inv_step h hstep ((Bespoke.inBounds_iff h hstep).mp hin))
    (fun _ _ _ h hstep => Bespoke.inBounds_iff h hstep) (Bespoke.inv_start reqbuf resbuf)

/-- **Not in all runs**: one connection more than there is room for is written behind the
array. -/
theorem not_bespoke_inBounds : ¬ ∀ phr l s a t, Bespoke.Runs phr l s → Bespoke.Step phr s a t →
    Bespoke.InBounds s a t := by
  intro h
  obtain ⟨l, s, hrun, hpc, hnfds⟩ := Bespoke.runs_filling 1023 (by decide)
  have hcall : s.call = some (.accept s.listenSd) := by rw [Bespoke.Program.call, hpc]
  have hin := h _ l s _ _ hrun (Bespoke.step_call hcall (Bespoke.incoming 1028))
  have hlt := hin.touches _ (.accept hpc (by decide))
  rw [hnfds] at hlt
  exact absurd hlt (lt_irrefl _)

end Waeio
