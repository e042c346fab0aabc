import Mathlib.Algebra.Order.Group.Nat
import Mathlib.Data.Finset.Card
import Waeio.Scheduler.Orderly

/-!
# The connection count

`ctl.nconns` is to be the number of fibers that were created and have not completed
(`Waeio.Scheduler.State.live`): then it stays below `ctl.max_conns`, and
`waeio_accept` suspends exactly while all places are taken
(`Waeio.Scheduler.Accounted`).

The counter goes up in `waeio_main`, for the listener, and down in
`handle_request`, for every completion. The case `ASYNC` of `handle_request` makes
a fiber and does not count it. And in the poll phase what counts as a completion
is decided by a status that `fiber_resume` has not set.

So a step keeps the count right exactly if it is balanced
(`Waeio.Scheduler.Balanced`): a fiber has returned if and only if
`handle_request` takes something off the counter or makes a fiber.
`Waeio.accounted_iff_balanced` lifts this to runs.
-/

namespace Waeio

namespace Scheduler

/-- The number of fibers that were created and have not completed. -/
def State.live (s : State) : ℕ := (Finset.range s.allocated \ s.returned).card

/-- **The connections are accounted for**: the counter is the number of live
fibers and within its bound, and `waeio_accept`, once resumed, suspends exactly if
all places are taken. -/
structure Accounted (s : State) : Prop where
  count_eq : s.nconns = s.live
  le_max : s.nconns ≤ s.maxConns
  suspends_iff : ∀ vfd residue,
    (Frame.resumed (.accept vfd)).mayStop s.full (.yields (.acceptFull vfd) residue) = true ↔
      s.live = s.maxConns

/-- `handle_request` takes something off the counter, or makes a fiber. -/
def Uncounted (status : FiberStatus) (payload : Cmd) : Prop :=
  status = .ok ∨ (status = .yield ∧ payload.tag = some .async)

instance (status : FiberStatus) (payload : Cmd) : Decidable (Uncounted status payload) :=
  inferInstanceAs (Decidable (_ ∨ _))

/-- **The step is balanced**: where a fiber stops, it has returned if and only if
`handle_request` takes something off the counter or makes a fiber. -/
def Balanced (s : State) : Act → Prop
  | .stop o =>
    match s.pc with
    | .running _ site status _ _ => o.Returns ↔ Uncounted (statusAfter site status o) o.payload
    | _ => True
  | _ => True

instance (s : State) : DecidablePred (Balanced s)
  | .stop o =>
    match h : s.pc with
    | .running _ site status _ _ =>
      decidable_of_iff (o.Returns ↔ Uncounted (statusAfter site status o) o.payload)
        (by simp [Balanced, h])
    | .ready _ _ | .events _ _ _ | .leaving | .done | .stray => isTrue (by simp [Balanced, h])
  | .pop | .visit _ | .io _ | .poll _ _ | .round _ | .exit _ => isTrue trivial

variable {s t : State} {f : ℕ} {a : Act}

/-! ### Counting live fibers -/

/-- A right count within the bound is all there is to show. -/
theorem accounted_of_count (h : s.nconns = s.live) (hle : s.live ≤ s.maxConns) : Accounted s where
  count_eq := h
  le_max := h ▸ hle
  suspends_iff vfd residue := by
    simp only [Frame.mayStop, State.full, decide_true, Bool.and_true, beq_iff_eq, h]

theorem Accounted.congr (h : Accounted s) (hlive : t.live = s.live) (hn : t.nconns = s.nconns)
    (hmax : t.maxConns = s.maxConns) : Accounted t := by
  have hle := h.le_max
  rw [h.count_eq] at hle
  exact accounted_of_count (by rw [hn, hlive, h.count_eq]) (by rwa [hlive, hmax])

theorem live_pos (h : s.Live f) : 0 < s.live :=
  Finset.card_pos.mpr ⟨f, Finset.mem_sdiff.mpr ⟨Finset.mem_range.mpr h.1, h.2⟩⟩

/-- A live fiber that returns is one less. -/
theorem live_recordStop (h : s.Live f) (o : Outcome) :
    (recordStop s f o).live + (if o.Returns then 1 else 0) = s.live := by
  cases o with
  | yields | fails => exact Nat.add_zero _
  | returns memory =>
    have hmem : f ∈ Finset.range s.allocated \ s.returned :=
      Finset.mem_sdiff.mpr ⟨Finset.mem_range.mpr h.1, h.2⟩
    have herase : Finset.range s.allocated \ insert f s.returned =
        (Finset.range s.allocated \ s.returned).erase f := by
      rw [Finset.sdiff_insert]
    show (Finset.range s.allocated \ insert f s.returned).card + 1 = s.live
    rw [herase, Finset.card_erase_add_one hmem]
    rfl

/-- A fiber that is made is one more. -/
theorem live_spawn (h : ∀ f ∈ s.returned, f < s.allocated) (vfd : BitVec 32) :
    (spawn s vfd).live = s.live + 1 := by
  have hfresh : s.allocated ∉ s.returned := fun hmem => Nat.lt_irrefl _ (h _ hmem)
  have hinsert : Finset.range (s.allocated + 1) \ s.returned =
      insert s.allocated (Finset.range s.allocated \ s.returned) := by
    rw [Finset.range_add_one, Finset.insert_sdiff_of_notMem _ hfresh]
  show (Finset.range (s.allocated + 1) \ s.returned).card = s.live + 1
  rw [hinsert, Finset.card_insert_of_notMem (by simp)]
  rfl

theorem recordStop_nconns (s : State) (f : ℕ) (o : Outcome) :
    (recordStop s f o).nconns = s.nconns := by
  cases o <;> rfl

theorem recordStop_maxConns (s : State) (f : ℕ) (o : Outcome) :
    (recordStop s f o).maxConns = s.maxConns := by
  cases o <;> rfl

/-- **What a request does to the count**: it is off by one for a completion, and by
one for a fiber that is made. -/
theorem handled_count (h : ∀ f ∈ s.returned, f < s.allocated) {payload : Cmd}
    {status : FiberStatus} {answer : Bool} (hh : Handled s f payload status t answer) :
    t.maxConns = s.maxConns ∧
      ((Uncounted status payload ∧
          ((t.nconns = Uint32.pred s.nconns ∧ t.live = s.live) ∨
            (t.nconns = s.nconns ∧ t.live = s.live + 1))) ∨
        (¬Uncounted status payload ∧ t.nconns = s.nconns ∧ t.live = s.live)) := by
  cases hh with
  | completed => exact ⟨rfl, Or.inl ⟨Or.inl rfl, Or.inl ⟨rfl, rfl⟩⟩⟩
  | spawned htag =>
    exact ⟨rfl, Or.inl ⟨Or.inr ⟨rfl, htag⟩, Or.inr ⟨rfl, live_spawn h payload.arg⟩⟩⟩
  | noStatus => exact ⟨rfl, Or.inr ⟨by simp [Uncounted], rfl, rfl⟩⟩
  | noTag htag | suspended htag | quit htag =>
    exact ⟨rfl, Or.inr ⟨by simp [Uncounted, htag], rfl, rfl⟩⟩
  | registered b hreg =>
    refine ⟨rfl, Or.inr ⟨?_, rfl, rfl⟩⟩
    rcases hreg with ⟨htag | htag, -⟩ | ⟨htag, -⟩ <;> simp [Uncounted, htag]

/-! ### A step keeps the count right exactly if it is balanced -/

/-- The step that stops a fiber. -/
theorem accounted_stop_iff (ho : Orderly s) (hlive : s.Live f) (h : Accounted s) {o : Outcome}
    {status : FiberStatus} {answer : Bool} {pc : Pc}
    (hh : Handled (recordStop s f o) f o.payload status t answer) :
    Accounted { t with pc := pc } ↔ (o.Returns ↔ Uncounted status o.payload) := by
  have hret : ∀ g ∈ (recordStop s f o).returned, g < (recordStop s f o).allocated :=
    (ho.recordStop hlive.1 o).returned_lt
  have hrecord := live_recordStop hlive o
  have hpos := live_pos hlive
  have hcount := h.count_eq
  have hle := h.le_max
  obtain ⟨hmax, hcases⟩ := handled_count hret hh
  rw [recordStop_maxConns] at hmax
  rw [recordStop_nconns, hcount, Uint32.pred_of_pos hpos] at hcases
  have hiff : t.nconns = t.live ↔ (o.Returns ↔ Uncounted status o.payload) := by
    by_cases hr : o.Returns
    · rw [if_pos hr] at hrecord
      rcases hcases with ⟨hu, ⟨hn, hl⟩ | ⟨hn, hl⟩⟩ | ⟨hu, hn, hl⟩
      · exact iff_of_true (by omega) (iff_of_true hr hu)
      · exact iff_of_true (by omega) (iff_of_true hr hu)
      · exact iff_of_false (by omega) fun hcon => hu (hcon.mp hr)
    · rw [if_neg hr] at hrecord
      rcases hcases with ⟨hu, ⟨hn, hl⟩ | ⟨hn, hl⟩⟩ | ⟨hu, hn, hl⟩
      · exact iff_of_false (by omega) fun hcon => hr (hcon.mpr hu)
      · exact iff_of_false (by omega) fun hcon => hr (hcon.mpr hu)
      · exact iff_of_true (by omega) (iff_of_false hr hu)
  constructor
  · intro ht
    exact hiff.mp ht.count_eq
  · intro hbal
    have heq := hiff.mpr hbal
    refine accounted_of_count heq ?_
    -- no step with the count right makes it larger
    show t.live ≤ t.maxConns
    rcases hcases with ⟨hu, ⟨hn, hl⟩ | ⟨hn, hl⟩⟩ | ⟨hu, hn, hl⟩ <;> omega

/-- **From a state with the count right, a step keeps it right exactly if it is
balanced.** -/
theorem accounted_iff_of_step (ho : Orderly s) (hrun : RunningLive s) (h : Accounted s)
    (htr : Tr s a t) : Accounted t ↔ Balanced s a := by
  cases htr.stepped with
  | stop hpc hmay hh =>
    rw [accounted_stop_iff ho (hrun _ _ _ _ _ hpc) h hh, Balanced, hpc]
  | _ => exact iff_of_true (h.congr rfl rfl rfl) trivial

theorem accounted_start {e : Start} (h : waeioMain e = some s) : Accounted s := by
  obtain ⟨-, -, -, -, -, -, -, -, rfl⟩ := waeioMain_cases h
  exact accounted_of_count rfl (show 1 ≤ MAX_CONNECTIONS by decide)

end Scheduler

open Scheduler

/-- **Exactly the runs whose steps are balanced keep the connections accounted
for** in every state they reach. -/
theorem accounted_iff_balanced (e : Scheduler.Start) (s₀ s : Scheduler.State) (l : List Act)
    (h : waeioMain e = some s₀) :
    Lts.Steps (Lts.Within Scheduler.Tr Accounted) s₀ l s ↔
      Lts.Steps (Lts.Guarded Scheduler.Tr Balanced) s₀ l s := by
  refine Lts.steps_within_iff_guarded (I := fun s => Orderly s ∧ RunningLive s) ?_ ?_ ?_
    (accounted_start h)
  · rintro s a t ⟨ho, hrun⟩ htr
    exact ⟨ho.step htr, hrun.step htr⟩
  · rintro s a t ⟨ho, hrun⟩ hs htr
    exact accounted_iff_of_step ho hrun hs htr
  · exact ⟨orderly_start h, runningLive_start h⟩

/-- A listener that returns at once is counted off. -/
theorem accounted_iff_balanced_returns :
    ∃ s₀ s, waeioMain .clean = some s₀ ∧
      Lts.Steps (Lts.Within Scheduler.Tr Accounted) s₀ [.pop, .stop (.returns ⟨none, 0, 0⟩)] s := by
  obtain ⟨s, hs, -⟩ :
      ∃ s ∈ afterIf Balanced [.pop, .stop (.returns ⟨none, 0, 0⟩)], s.nconns = 0 := by
    decide +kernel
  obtain ⟨s₀, hstart, hsteps⟩ := guarded_of_afterIf hs
  exact ⟨s₀, s, hstart, (accounted_iff_balanced .clean s₀ s _ hstart).mpr hsteps⟩

/-- **The first connection is not counted**: two fibers are live after it, and the
counter is at one. -/
theorem not_accounted_firstConnection :
    ∃ s, Scheduler.Run .clean firstConnection s ∧ s.nconns = 1 ∧ s.live = 2 ∧ ¬Accounted s := by
  obtain ⟨s, hs, hn, hlive⟩ : ∃ s ∈ after firstConnection, s.nconns = 1 ∧ s.live = 2 := by
    decide +kernel
  refine ⟨s, run_of_after hs, hn, hlive, fun h => ?_⟩
  have hcount := h.count_eq
  omega

end Waeio
