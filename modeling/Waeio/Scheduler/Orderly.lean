import Waeio.Scheduler.Cases

/-!
# What holds in every run of the scheduler

`Waeio.Scheduler.Orderly` holds in every state of every run, whatever the fibers
and the host do: the table of virtual descriptors is in order, no two slots belong
to one fiber, and only fibers that were allocated are referred to.

It holds at the start (`Waeio.Scheduler.orderly_start`) and is kept by every step
(`Waeio.Scheduler.Orderly.step`).
-/

namespace Waeio

namespace Scheduler

open WasioHost (TableInv Quiet)

/-- The closures in the two queues. -/
def State.queues (s : State) : List Closure := s.frontq.nodes ++ s.rearq.nodes

/-- **What holds in every run.** -/
structure Orderly (s : State) : Prop where
  table : ∃ O, TableInv MAX_CONNECTIONS O s.wfd
  pollin_eq : s.wfd.pollin = POLLIN
  pollout_eq : s.wfd.pollout = POLLIN
  fibers_lt : ∀ v f, s.fibers v = some f → f < s.allocated
  fibers_inj : ∀ u v f, s.fibers u = some f → s.fibers v = some f → u = v
  queued_lt : ∀ clo ∈ s.queues, clo.fiber < s.allocated
  returned_lt : ∀ f ∈ s.returned, f < s.allocated
  running_lt : ∀ f site status keepGoing frame,
    s.pc = .running f site status keepGoing frame → f < s.allocated

theorem max_connections_mod : MAX_CONNECTIONS % 32 = 0 := rfl

theorem max_connections_lt : MAX_CONNECTIONS < 2 ^ 32 := by decide

variable {s t : State} {f : ℕ} {a : Act}

/-- The table of fibers after one of its entries was written. -/
theorem eq_some_of_update {fibers : ℕ → Option ℕ} {u v f g : ℕ}
    (h : Function.update fibers v (some f) u = some g) :
    (u = v ∧ f = g) ∨ (u ≠ v ∧ fibers u = some g) := by
  rcases eq_or_ne u v with rfl | hne
  · rw [Function.update_self] at h
    exact Or.inl ⟨rfl, Option.some.inj h⟩
  · rw [Function.update_of_ne hne] at h
    exact Or.inr ⟨hne, h⟩

/-! ### The start -/

/-- What `waeio_main` has set up when it enters its loop. -/
theorem waeioMain_cases {e : Start} (h : waeioMain e = some s) :
    ∃ wfd₀ wfd r v, wasioInit MAX_CONNECTIONS true = (.ok, some wfd₀) ∧
      WasioHost.Tr wfd₀ (.listen 8080 1000 e.host, r) wfd ∧ r.vfd = some v ∧ r.result = .ok ∧
      s =
        { nconns := 1
          maxConns := MAX_CONNECTIONS
          frontq := ⟨[⟨mainfiber, e.address⟩], e.frontHead⟩
          rearq := ⟨[], e.rearHead⟩
          wfd := wfd
          fibers := Function.update (fun _ => none) v (some mainfiber)
          allocated := 1
          returned := ∅
          released := []
          pending := fun _ => none
          servsock := v
          pc := .ready e.status true } := by
  rw [waeioMain] at h
  split at h
  case h_2 => exact absurd h (by simp)
  case h_1 wfd₀ hinit =>
    split at h
    case h_2 => exact absurd h (by simp)
    case h_1 call v count wfd hlisten =>
      refine ⟨wfd₀, wfd, ⟨call, .ok, some v, count⟩, v, hinit, ⟨?_, ?_⟩, rfl, rfl, ?_⟩
      · exact ⟨by simp [WasioHost.Op.vfd], by simp, by simp⟩
      · rw [WasioHost.perform, hlisten]
      · exact (Option.some.inj h).symm

theorem orderly_start {e : Start} (h : waeioMain e = some s) : Orderly s := by
  obtain ⟨wfd₀, wfd, r, v, hinit, htr, -, -, rfl⟩ := waeioMain_cases h
  have htable := WasioHost.tableInv_init max_connections_lt hinit
  have hstatics := htable.statics_eq max_connections_mod htr
  obtain ⟨-, hin, hout⟩ := WasioHost.statics_init hinit
  refine ⟨htable.step max_connections_mod htr, hstatics.1.trans hin, hstatics.2.trans hout,
    ?_, ?_, ?_, by simp, by simp⟩
  · intro u f hf
    dsimp only at hf
    rcases eq_some_of_update hf with ⟨-, rfl⟩ | ⟨-, hnone⟩
    · exact Nat.one_pos
    · exact absurd hnone (by simp)
  · intro u w f hu hw
    dsimp only at hu hw
    rcases eq_some_of_update hu with ⟨rfl, -⟩ | ⟨-, hnone⟩
    · rcases eq_some_of_update hw with ⟨rfl, -⟩ | ⟨-, hnone⟩
      · rfl
      · exact absurd hnone (by simp)
    · exact absurd hnone (by simp)
  · intro clo hclo
    obtain rfl : clo = ⟨mainfiber, e.address⟩ := by simpa [State.queues] using hclo
    exact Nat.one_pos

/-! ### The steps -/

theorem Orderly.pushRear (h : Orderly s) (hf : f < s.allocated) (arg : ℤ) :
    Orderly (pushRear s f arg) where
  table := h.table
  pollin_eq := h.pollin_eq
  pollout_eq := h.pollout_eq
  fibers_lt := h.fibers_lt
  fibers_inj := h.fibers_inj
  queued_lt clo hclo := by
    rcases List.mem_append.mp hclo with hclo | hclo
    · exact h.queued_lt clo (List.mem_append_left _ hclo)
    · rcases List.mem_cons.mp hclo with rfl | hclo
      · exact hf
      · exact h.queued_lt clo (List.mem_append_right _ hclo)
  returned_lt := h.returned_lt
  running_lt := h.running_lt

/-- A fiber that is made is in no slot and in no queue yet. -/
theorem Orderly.spawn (h : Orderly s) (vfd : BitVec 32) : Orderly (spawn s vfd) := by
  have hfresh : ∀ w, s.fibers w ≠ some s.allocated :=
    fun w hw => absurd (h.fibers_lt w _ hw) (Nat.lt_irrefl _)
  refine ⟨h.table, h.pollin_eq, h.pollout_eq, ?_, ?_, ?_, ?_, ?_⟩
  · intro v f hf
    rcases eq_some_of_update hf with ⟨-, rfl⟩ | ⟨-, hf⟩
    · exact Nat.lt_succ_self _
    · exact Nat.lt_succ_of_lt (h.fibers_lt v f hf)
  · intro u v f hu hv
    rcases eq_some_of_update hu with ⟨rfl, rfl⟩ | ⟨-, hu⟩ <;>
      rcases eq_some_of_update hv with ⟨rfl, hf⟩ | ⟨-, hv⟩
    · rfl
    · exact absurd hv (hfresh v)
    · exact absurd (hf ▸ hu) (hfresh u)
    · exact h.fibers_inj u v f hu hv
  · intro clo hclo
    rcases List.mem_append.mp hclo with hclo | hclo
    · exact Nat.lt_succ_of_lt (h.queued_lt clo (List.mem_append_left _ hclo))
    · rcases List.mem_cons.mp hclo with rfl | hclo
      · exact Nat.lt_succ_self _
      · exact Nat.lt_succ_of_lt (h.queued_lt clo (List.mem_append_right _ hclo))
  · exact fun f hf => Nat.lt_succ_of_lt (h.returned_lt f hf)
  · exact fun f site status keepGoing frame hpc =>
      Nat.lt_succ_of_lt (h.running_lt f site status keepGoing frame hpc)

theorem Orderly.notify (h : Orderly s) (v : ℕ) (b : BitVec 16) : Orderly (notify s v b) := by
  obtain ⟨O, hO⟩ := h.table
  exact ⟨⟨O, hO.quiet (hO.quiet_notify v b)⟩, h.pollin_eq, h.pollout_eq, h.fibers_lt, h.fibers_inj,
    h.queued_lt, h.returned_lt, h.running_lt⟩

theorem Orderly.recordStop (h : Orderly s) (hf : f < s.allocated) (o : Outcome) :
    Orderly (recordStop s f o) := by
  cases o with
  | yields call residue =>
    exact ⟨h.table, h.pollin_eq, h.pollout_eq, h.fibers_lt, h.fibers_inj, h.queued_lt,
      h.returned_lt, h.running_lt⟩
  | returns memory =>
    refine ⟨h.table, h.pollin_eq, h.pollout_eq, h.fibers_lt, h.fibers_inj, h.queued_lt, ?_,
      h.running_lt⟩
    intro g hg
    rcases Finset.mem_insert.mp hg with rfl | hg
    · exact hf
    · exact h.returned_lt g hg
  | fails memory => exact h

theorem Orderly.handled (h : Orderly s) (hf : f < s.allocated) {payload : Cmd}
    {status : FiberStatus} {answer : Bool} (hh : Handled s f payload status t answer) :
    Orderly t := by
  cases hh with
  | completed =>
    exact ⟨h.table, h.pollin_eq, h.pollout_eq, h.fibers_lt, h.fibers_inj, h.queued_lt,
      h.returned_lt, h.running_lt⟩
  | noStatus | noTag | quit => exact h
  | spawned => exact (h.spawn _).pushRear (Nat.lt_succ_of_lt hf) 0
  | suspended => exact h.pushRear hf 0
  | registered b => exact h.notify _ b

/-- Where the program is matters only for the fiber it is in. -/
theorem Orderly.setPc (h : Orderly s) {pc : Pc}
    (hpc : ∀ f site status keepGoing frame,
      pc = .running f site status keepGoing frame → f < s.allocated) :
    Orderly { s with pc := pc } :=
  ⟨h.table, h.pollin_eq, h.pollout_eq, h.fibers_lt, h.fibers_inj, h.queued_lt, h.returned_lt, hpc⟩

/-- The table may be replaced by one in order. -/
theorem Orderly.setWfd (h : Orderly s) {op : WasioHost.Op × WasioHost.Reply}
    {wfd : WasioPollfd} (htr : WasioHost.Tr s.wfd op wfd) : Orderly { s with wfd := wfd } := by
  obtain ⟨O, hO⟩ := h.table
  have hstatics := hO.statics_eq max_connections_mod htr
  exact ⟨hO.step max_connections_mod htr, hstatics.1.trans h.pollin_eq,
    hstatics.2.trans h.pollout_eq, h.fibers_lt, h.fibers_inj, h.queued_lt, h.returned_lt,
    h.running_lt⟩

theorem Orderly.popFront (h : Orderly s) {clo : Closure} {nodes : List Closure}
    (hnodes : s.frontq.nodes = clo :: nodes) :
    Orderly { s with frontq := ⟨nodes, s.frontq.tail⟩ } := by
  refine ⟨h.table, h.pollin_eq, h.pollout_eq, h.fibers_lt, h.fibers_inj, ?_, h.returned_lt,
    h.running_lt⟩
  intro c hc
  refine h.queued_lt c ?_
  rw [State.queues, hnodes]
  exact List.mem_cons_of_mem _ hc

/-- No fiber runs after `handle_request`. -/
theorem fiber_pcAfter (site : Site) (status : FiberStatus) (keepGoing answer : Bool) :
    (pcAfter site status keepGoing answer).fiber = none := by
  cases site with
  | queue => rfl
  | event v => cases answer <;> rfl

theorem ne_running_pcAfter {site : Site} {status : FiberStatus} {keepGoing answer : Bool} {f : ℕ}
    {site' : Site} {status' : FiberStatus} {keepGoing' : Bool} {frame : Frame} :
    pcAfter site status keepGoing answer ≠ .running f site' status' keepGoing' frame := by
  intro hpc
  have hnone := fiber_pcAfter site status keepGoing answer
  rw [hpc] at hnone
  exact absurd hnone (by simp [Pc.fiber])

/-- **Every step keeps the scheduler orderly.** -/
theorem Orderly.step (h : Orderly s) (htr : Tr s a t) : Orderly t := by
  cases htr.stepped with
  | pop frame hpc hnodes hlive =>
    refine (h.popFront hnodes).setPc ?_
    rintro f site status keepGoing frame ⟨⟩
    exact hlive.1
  | popDead hpc hnodes => exact (h.popFront hnodes).setPc (by simp)
  | popWild => exact h.setPc (by simp)
  | visit frame hpc hnext hf hlive =>
    refine h.setPc ?_
    rintro f site status keepGoing frame ⟨⟩
    exact hlive.1
  | visitStray => exact h.setPc (by simp)
  | io frame' hpc hop =>
    refine (h.setWfd hop).setPc ?_
    rintro f site status keepGoing frame ⟨⟩
    exact h.running_lt _ _ _ _ _ hpc
  | stop hpc hmay hh =>
    have hf := h.running_lt _ _ _ _ _ hpc
    rw [← recordStop_allocated] at hf
    refine ((h.recordStop (h.running_lt _ _ _ _ _ hpc) _).handled hf hh).setPc ?_
    exact fun f site status keepGoing frame hpc' => absurd hpc' ne_running_pcAfter
  | poll hpc hend =>
    obtain ⟨O, hO⟩ := h.table
    refine ⟨⟨O, hO.quiet (WasioHost.quiet_revents _ _)⟩, h.pollin_eq, h.pollout_eq, h.fibers_lt,
      h.fibers_inj, ?_, h.returned_lt, ?_⟩
    · intro clo hclo
      exact h.queued_lt clo ((List.perm_append_comm ..).subset hclo)
    · intro f site status keepGoing frame hpc'
      dsimp only at hpc'
      split_ifs at hpc'
  | round hpc hnext =>
    refine h.setPc ?_
    intro f site status keepGoing frame hpc'
    split_ifs at hpc'
  | exit hpc hop =>
    have ht := h.setWfd hop
    exact ⟨ht.table, ht.pollin_eq, ht.pollout_eq, ht.fibers_lt, ht.fibers_inj, ht.queued_lt,
      ht.returned_lt, by simp⟩

/-- **Every state of every run is orderly.** -/
theorem Run.orderly {e : Start} {l : List Act} (h : Run e l s) : Orderly s := by
  obtain ⟨s₀, hstart, hsteps⟩ := h
  exact hsteps.invariant (fun _ _ _ h => h.step) (orderly_start hstart)

/-! ### The running fiber is live -/

/-- The fiber the program is in is live. -/
def RunningLive (s : State) : Prop :=
  ∀ f site status keepGoing frame, s.pc = .running f site status keepGoing frame → s.Live f

theorem runningLive_start {e : Start} (h : waeioMain e = some s) : RunningLive s := by
  obtain ⟨-, -, -, -, -, -, -, -, rfl⟩ := waeioMain_cases h
  exact fun f site status keepGoing frame hpc => absurd hpc (by simp)

theorem RunningLive.step (h : RunningLive s) (htr : Tr s a t) : RunningLive t := by
  intro f site status keepGoing frame hpc'
  cases htr.stepped with
  | pop frame' hpc hnodes hlive | visit frame' hpc hnext hf hlive =>
    cases hpc'
    exact hlive
  | io frame' hpc hop =>
    cases hpc'
    exact h _ _ _ _ _ hpc
  | stop hpc hmay hh => exact absurd hpc' ne_running_pcAfter
  | popDead | popWild | visitStray | exit => exact absurd hpc' (by simp)
  | poll hpc hend | round hpc hnext =>
    dsimp only at hpc'
    split_ifs at hpc'

end Scheduler

end Waeio
