import Mathlib.Data.List.Count
import Waeio.Scheduler.Orderly

/-!
# Every fiber is in one place

Between two resumptions every live fiber is to be in exactly one place
(`Waeio.Scheduler.Placed`): in one node of the two queues, or waiting at one slot
of the table, the one it has asked for, where its interest is registered and
whose entry of `fibers` is this fiber. It is never both in a queue and resumable
through an event: one of an interest that is registered, or one the host has
reported and the loop has still to visit, for the loop asks after no interest
(`Waeio.Scheduler.Resumable`).

What the scheduler does for that is little. It registers an interest for the slot
the command names, if at all (see `Waeio.registersWait_iff`), and takes none back:
the interest outlives the wait, and even the binding of the slot. And it enqueues
a fiber that has asked for another one, or for a pause, whether an interest of
that fiber is still registered or not. So a listener that has once waited for a
connection is enqueued and waiting as soon as it asks for a fiber to serve it.

The host, for its part, reports a hang-up or an error whether it is asked or not.

`Waeio.Scheduler.Undisturbed` says of every step that it stays clear of this. The
invariant is that the fiber that runs is in no queue, and the others are in their
places.
-/

namespace Waeio

namespace Scheduler

/-! ### Places -/

/-- An interest is registered at the slot `v`. -/
def Interest (wfd : WasioPollfd) (v : ℕ) : Prop :=
  (wfd.vfds v).fd ≠ -1 ∧ (wfd.vfds v).events ≠ 0

instance (wfd : WasioPollfd) (v : ℕ) : Decidable (Interest wfd v) :=
  inferInstanceAs (Decidable (_ ∧ _))

/-- The fiber `f` waits at the slot `v`: its interest is registered there. -/
def Waits (s : State) (v f : ℕ) : Prop := Interest s.wfd v ∧ s.fibers v = some f

instance (s : State) (v f : ℕ) : Decidable (Waits s v f) := inferInstanceAs (Decidable (_ ∧ _))

/-- The slot from which on the loop of the poll phase has still to look for
events. -/
def Pc.visitsFrom : Pc → Option ℕ
  | .events i _ _ => some i
  | .running _ (.event v) _ _ _ => some (v + 1)
  | _ => none

/-- The host has reported an event on the slot `v`, and the loop has still to visit
it. -/
def Reported (s : State) (v : ℕ) : Prop :=
  v < s.wfd.capacity ∧ (s.wfd.vfds v).revents ≠ 0 ∧ ∃ i ∈ s.pc.visitsFrom, i ≤ v

instance (s : State) (v : ℕ) : Decidable (Reported s v) :=
  inferInstanceAs (Decidable (_ ∧ _ ∧ ∃ i ∈ s.pc.visitsFrom, _))

/-- The slot `v` resumes its fiber if it is open: an interest is registered, or an
event was reported that is still to be visited. -/
def Armed (s : State) (v : ℕ) : Prop := (s.wfd.vfds v).events ≠ 0 ∨ Reported s v

instance (s : State) (v : ℕ) : Decidable (Armed s v) := inferInstanceAs (Decidable (_ ∨ _))

/-- **The fiber `f` is resumable through an event** at the slot `v`. -/
def Resumable (s : State) (v f : ℕ) : Prop :=
  ((s.wfd.vfds v).fd ≠ -1 ∧ Armed s v) ∧ s.fibers v = some f

instance (s : State) (v f : ℕ) : Decidable (Resumable s v f) :=
  inferInstanceAs (Decidable (_ ∧ _))

/-- The number of nodes of the two queues the fiber is in. -/
def State.queued (s : State) (f : ℕ) : ℕ := (s.queues.map Closure.fiber).count f

/-- The fiber has asked for the slot `v`. -/
def AsksFor (s : State) (f v : ℕ) : Prop :=
  ∃ call vfd, s.pending f = some call ∧ call.waitsFor = some vfd ∧ vfd.toNat = v

/-- **The fiber is in exactly one place**: in one node of the queues and resumable
through no event, or in none and waiting at one slot, the one it has asked for, and
resumable through the events of no other. -/
def Placed (s : State) (f : ℕ) : Prop :=
  (s.queued f = 1 ∧ ∀ v, ¬Resumable s v f) ∨
    (s.queued f = 0 ∧ ∃ v, AsksFor s f v ∧ Waits s v f ∧ ∀ u, Resumable s u f → u = v)

/-- The program is between two resumptions. -/
def Pc.BetweenResumes : Pc → Prop
  | .ready _ _ | .events _ _ _ => True
  | _ => False

/-- **Every live fiber is in exactly one place** between two resumptions. -/
def AllPlaced (s : State) : Prop := s.pc.BetweenResumes → ∀ f, s.Live f → Placed s f

/-! ### Steps that disturb no fiber -/

/-- The operation opens or closes the slot `v`, if the host agrees. -/
def Touches (wfd : WasioPollfd) (v : ℕ) : WasioHost.Op → Prop
  | .close u host => u = v ∧ host.ret = 0
  | .accept _ host => 0 ≤ host.ret ∧ wfd.fds v = -1 ∧ ∀ u < v, wfd.fds u ≠ -1
  | _ => False

instance (wfd : WasioPollfd) (v : ℕ) : DecidablePred (Touches wfd v)
  | .close _ _ => inferInstanceAs (Decidable (_ ∧ _))
  | .accept _ _ => inferInstanceAs (Decidable (_ ∧ _ ∧ ∀ u < v, _))
  | .listen _ _ _ | .wrap _ | .recv _ _ _ | .send _ _ _ | .notifyRecv _ | .notifySend _
  | .poll _ _ _ => isFalse id

/-- The fiber `f` is resumable through no event. -/
def WaitsNowhere (s : State) (f : ℕ) : Prop := ∀ v < s.wfd.capacity, ¬Resumable s v f

instance (s : State) (f : ℕ) : Decidable (WaitsNowhere s f) :=
  inferInstanceAs (Decidable (∀ v < s.wfd.capacity, _))

/-- The request of the call, made by the fiber `f`, disturbs no fiber: it is
enqueued only if it is resumable through no event, a fiber is made only for a slot
whose events resume none, and a wait is for the open slot of the fiber, which the
word of the command that the call does not set names as well. -/
def Call.Undisturbing (s : State) (f : ℕ) (residue : BitVec 32) : Call → Prop
  | .async _ vfd =>
    ((s.wfd.vfds vfd.toNat).fd ≠ -1 → ¬Armed s vfd.toNat) ∧ WaitsNowhere s f
  | .acceptFull _ => WaitsNowhere s f
  | .accept vfd | .recv vfd _ | .send vfd _ =>
    residue = vfd ∧ s.fibers vfd.toNat = some f ∧ s.wfd.fds vfd.toNat ≠ -1
  | .cancelAll => False

instance (s : State) (f : ℕ) (residue : BitVec 32) : DecidablePred (Call.Undisturbing s f residue)
  | .async _ _ => inferInstanceAs (Decidable (_ ∧ _))
  | .acceptFull _ => inferInstanceAs (Decidable (WaitsNowhere s f))
  | .accept _ | .recv _ _ | .send _ _ => inferInstanceAs (Decidable (_ ∧ _ ∧ _))
  | .cancelAll => isFalse id

/-- **The step disturbs no fiber**: the host reports an event on a slot of a live
fiber only where an interest is registered; the running fiber opens and closes no
slot that carries an interest of another live fiber, or an event for it that is
still to be visited; in the poll phase `status` holds the status of the fiber that
stops; and its request disturbs no fiber. -/
def Undisturbed (s : State) : Act → Prop
  | .poll revents host => 0 ≤ host.ret → ∀ v < s.wfd.capacity, ∀ f ∈ s.fibers v, s.Live f →
      (s.wfd.vfds v).fd ≠ -1 → revents v ≠ 0 → (s.wfd.vfds v).events ≠ 0
  | .io op => ∀ v < s.wfd.capacity, ∀ f ∈ s.fibers v, s.Live f → s.pc.fiber ≠ some f →
      Touches s.wfd v op → ¬Armed s v
  | .stop (.yields call residue) =>
    (∀ status ∈ s.pc.pollStatus, status = .yield) ∧
      ∀ f ∈ s.pc.fiber, call.Undisturbing s f residue
  | .stop o => ∀ status ∈ s.pc.pollStatus, status = o.status
  | _ => True

instance (s : State) : DecidablePred (Undisturbed s)
  | .poll revents host => inferInstanceAs (Decidable (0 ≤ host.ret → ∀ v < s.wfd.capacity,
      ∀ f ∈ s.fibers v, s.Live f → (s.wfd.vfds v).fd ≠ -1 → revents v ≠ 0 →
        (s.wfd.vfds v).events ≠ 0))
  | .io op => inferInstanceAs (Decidable (∀ v < s.wfd.capacity, ∀ f ∈ s.fibers v, s.Live f →
      s.pc.fiber ≠ some f → Touches s.wfd v op → ¬Armed s v))
  | .stop (.yields call residue) =>
    inferInstanceAs (Decidable ((∀ status ∈ s.pc.pollStatus, status = .yield) ∧
      ∀ f ∈ s.pc.fiber, call.Undisturbing s f residue))
  | .stop (.returns _) | .stop (.fails _) =>
    inferInstanceAs (Decidable (∀ status ∈ s.pc.pollStatus, _))
  | .pop | .visit _ | .round _ | .exit _ => isTrue trivial

variable {s t : State} {f g v : ℕ} {a : Act}

/-! ### The invariant -/

/-- **The fiber that runs is in no queue, and the others are in their places.** -/
structure InPlaces (s : State) : Prop where
  placed : s.pc ≠ .done → ∀ f, s.Live f → s.pc.fiber ≠ some f → Placed s f
  running : ∀ f, s.pc.fiber = some f → s.queued f = 0

/-- A fiber that waits at a slot is resumable through its events. -/
theorem Waits.resumable (h : Waits s v f) : Resumable s v f := ⟨⟨h.1.1, Or.inl h.1.2⟩, h.2⟩

/-- **The place is kept** where the fiber goes on waiting, and becomes resumable
through no further event. -/
theorem Placed.congr (h : Placed s f) (hq : t.queued f = s.queued f)
    (hp : t.pending f = s.pending f) (hw : ∀ v, Waits s v f → Waits t v f)
    (hr : ∀ v, Resumable t v f → Resumable s v f) : Placed t f := by
  rcases h with ⟨hone, hno⟩ | ⟨hzero, v, ⟨call, vfd, hcall, hasks⟩, hwaits, honly⟩
  · exact Or.inl ⟨hq.trans hone, fun v hv => hno v (hr v hv)⟩
  · exact Or.inr ⟨hq.trans hzero, v, ⟨call, vfd, hp.trans hcall, hasks⟩, hw v hwaits,
      fun u hu => honly u (hr u hu)⟩

/-- The loop looks for events in no slot where it did not look before. -/
def LooksLess (t s : State) : Prop :=
  ∀ i ∈ t.pc.visitsFrom, ∃ j ∈ s.pc.visitsFrom, j ≤ i

/-- Where the slots and their fibers are the same, a fiber is resumable through no
event the loop would not have visited before. -/
theorem Resumable.of_looksLess (h : Resumable t v f) (hlook : LooksLess t s)
    (hwfd : t.wfd = s.wfd) (hfib : t.fibers = s.fibers) : Resumable s v f := by
  obtain ⟨⟨hfd, harmed⟩, hf⟩ := h
  rw [hwfd] at hfd
  refine ⟨⟨hfd, harmed.imp (fun hevents => hwfd ▸ hevents) ?_⟩, hfib ▸ hf⟩
  rintro ⟨hlt, hrev, i, hi, hle⟩
  obtain ⟨j, hj, hji⟩ := hlook i hi
  rw [hwfd] at hlt hrev
  exact ⟨hlt, hrev, j, hj, hji.trans hle⟩

/-- A step that looks for fewer events and leaves the table, the queues and the
calls alone leaves the fiber in its place. -/
theorem Placed.of_looksLess (h : Placed s f) (hlook : LooksLess t s) (hwfd : t.wfd = s.wfd)
    (hfib : t.fibers = s.fibers) (hq : t.queued f = s.queued f)
    (hp : t.pending f = s.pending f) : Placed t f := by
  refine h.congr hq hp (fun v hv => ?_) fun v hv => hv.of_looksLess hlook hwfd hfib
  rwa [Waits, hwfd, hfib]

/-- A fiber in a queue is in one node, and resumable through no event. -/
theorem Placed.of_queued (h : Placed s f) (hq : s.queued f ≠ 0) :
    s.queued f = 1 ∧ ∀ v, ¬Resumable s v f :=
  h.resolve_right fun hzero => hq hzero.1

/-- A fiber that is resumable through an event is in no queue. -/
theorem Placed.queued_eq_zero (h : Placed s f) (hr : Resumable s v f) : s.queued f = 0 := by
  rcases h with ⟨-, hno⟩ | ⟨hzero, -⟩
  · exact absurd hr (hno v)
  · exact hzero

/-- An open slot is below the capacity. -/
theorem lt_capacity_of_fd (ho : Orderly s) (h : (s.wfd.vfds v).fd ≠ -1) :
    v < s.wfd.capacity := by
  obtain ⟨O, hO⟩ := ho.table
  rw [hO.sync] at h
  rw [hO.capacity_eq]
  exact hO.out_lt v ((hO.bound_iff v).mp h)

/-- Beyond the capacity there is no slot to be resumed from. -/
theorem not_resumable_of_waitsNowhere (ho : Orderly s) (h : WaitsNowhere s f) (v : ℕ) :
    ¬Resumable s v f :=
  fun hr => h v (lt_capacity_of_fd ho hr.1.1) hr

/-! ### Counting nodes -/

theorem queued_pushRear (s : State) (f g : ℕ) (arg : ℤ) :
    (pushRear s f arg).queued g = s.queued g + if f = g then 1 else 0 := by
  simp only [State.queued, State.queues, pushRear, queuePush, List.map_append, List.map_cons,
    List.count_append, List.count_cons, beq_iff_eq]
  omega

theorem queued_spawn (s : State) (vfd : BitVec 32) (g : ℕ) :
    (spawn s vfd).queued g = s.queued g + if s.allocated = g then 1 else 0 :=
  queued_pushRear _ _ _ _

theorem queued_popFront {clo : Closure} {nodes : List Closure}
    (hnodes : s.frontq.nodes = clo :: nodes) (g : ℕ) :
    s.queued g = ({ s with frontq := ⟨nodes, s.frontq.tail⟩ } : State).queued g +
      if clo.fiber = g then 1 else 0 := by
  simp only [State.queued, State.queues, hnodes, List.map_append, List.map_cons,
    List.count_append, List.count_cons, beq_iff_eq]
  omega

/-- A fiber that was never made is in no queue. -/
theorem queued_allocated (ho : Orderly s) : s.queued s.allocated = 0 := by
  refine List.count_eq_zero.mpr fun hmem => ?_
  obtain ⟨clo, hclo, heq⟩ := List.mem_map.mp hmem
  have hlt := ho.queued_lt clo hclo
  omega

/-! ### Fibers that stop -/

/-- A slot whose events resume no fiber resumes none, whoever it is given to. -/
theorem resumable_spawn_iff {vfd : BitVec 32}
    (h : (s.wfd.vfds vfd.toNat).fd ≠ -1 → ¬Armed s vfd.toNat) :
    Resumable (spawn s vfd) v g ↔ Resumable s v g := by
  rcases eq_or_ne v vfd.toNat with rfl | hne
  · exact iff_of_false (fun hr => h hr.1.1 hr.1.2) fun hr => h hr.1.1 hr.1.2
  · have hold : (spawn s vfd).fibers v = s.fibers v := Function.update_of_ne hne ..
    rw [Resumable, Resumable, hold]
    rfl

/-- The fiber that stops is enqueued. -/
theorem placed_pushRear (hothers : ∀ g, s.Live g → g ≠ f → Placed s g) (hzero : s.queued f = 0)
    (hno : ∀ v, ¬Resumable s v f) (hg : s.Live g) (arg : ℤ) : Placed (pushRear s f arg) g := by
  rcases eq_or_ne g f with rfl | hne
  · refine Or.inl ⟨?_, hno⟩
    rw [queued_pushRear, hzero, if_pos rfl]
  · refine (hothers g hg hne).congr ?_ rfl (fun v => id) fun v => id
    rw [queued_pushRear, if_neg hne.symm, Nat.add_zero]

/-- A fiber is made and enqueued. -/
theorem placed_spawn (ho : Orderly s) (hothers : ∀ g, s.Live g → g ≠ f → Placed s g)
    {vfd : BitVec 32} (hslot : (s.wfd.vfds vfd.toNat).fd ≠ -1 → ¬Armed s vfd.toNat)
    (hg : (spawn s vfd).Live g) (hne : g ≠ f) : Placed (spawn s vfd) g := by
  rcases eq_or_ne g s.allocated with rfl | hchild
  · refine Or.inl ⟨?_, fun v hr => ?_⟩
    · rw [queued_spawn, queued_allocated ho, if_pos rfl]
    · have hlt := ho.fibers_lt v _ ((resumable_spawn_iff hslot).mp hr).2
      omega
  · have hlive : s.Live g := by
      have hlt : g < s.allocated + 1 := hg.1
      exact ⟨by omega, hg.2⟩
    refine (hothers g hlive hne).congr ?_ rfl (fun v hw => ?_) fun v =>
      (resumable_spawn_iff hslot).mp
    · rw [queued_spawn, if_neg hchild.symm, Nat.add_zero]
    · -- the slot a fiber waits at is given to no other
      exact ⟨hw.1, ((resumable_spawn_iff hslot).mpr hw.resumable).2⟩

/-- The fiber that stops waits for its own slot. -/
theorem placed_notify (ho : Orderly s) (hothers : ∀ g, s.Live g → g ≠ f → Placed s g)
    (hzero : s.queued f = 0) (hasks : AsksFor s f v) (hf : s.fibers v = some f)
    (hopen : s.wfd.fds v ≠ -1) (hg : s.Live g) : Placed (notify s v POLLIN) g := by
  have hself : Waits (notify s v POLLIN) v f := by
    refine ⟨?_, hf⟩
    rw [Interest, notify_self]
    refine ⟨hopen, fun hzero => ?_⟩
    exact absurd (BitVec.or_eq_zero_iff.mp hzero).2 (by decide)
  rcases eq_or_ne g f with rfl | hne
  · exact Or.inr ⟨hzero, v, hasks, hself, fun u hu => ho.fibers_inj u v g hu.2 hf⟩
  · have hother : ∀ u, s.fibers u = some g →
        (notify s v POLLIN).wfd.vfds u = s.wfd.vfds u := by
      intro u hu
      refine notify_of_ne s ?_ _
      rintro rfl
      exact hne (Option.some.inj (hu.symm.trans hf))
    refine (hothers g hg hne).congr rfl rfl (fun u hu => ?_) fun u hu => ?_
    · rw [Waits, Interest, hother u hu.2]
      exact hu
    · rw [Resumable, Armed, Reported, hother u hu.2] at hu
      exact hu

/-- **The request of a call that disturbs no fiber** puts the fiber that made it in
its place. -/
theorem placed_served (ho : Orderly s) (hothers : ∀ g, s.Live g → g ≠ f → Placed s g)
    (hzero : s.queued f = 0) (hlt : f < s.allocated) {call : Call} {residue : BitVec 32}
    {answer : Bool}
    (hpending : s.pending f = some call) (hun : call.Undisturbing s f residue)
    (hserved : call.Served s f residue t answer) (hg : t.Live g) : Placed t g := by
  cases call with
  | async proc vfd =>
    obtain ⟨-, rfl, -⟩ := hserved
    obtain ⟨hslot, hno⟩ := hun
    refine placed_pushRear (fun g hg hne => placed_spawn ho hothers hslot hg hne) ?_ ?_ hg 0
    · rw [queued_spawn, hzero, if_neg (by omega)]
    · exact fun v hr =>
        not_resumable_of_waitsNowhere ho hno v ((resumable_spawn_iff hslot).mp hr)
  | acceptFull vfd =>
    obtain ⟨rfl, -⟩ := hserved
    exact placed_pushRear hothers hzero (not_resumable_of_waitsNowhere ho hun) hg 0
  | cancelAll => exact hun.elim
  | accept vfd | recv vfd =>
    obtain ⟨-, rfl, -⟩ := hserved
    obtain ⟨rfl, hf, hopen⟩ := hun
    rw [ho.pollin_eq]
    exact placed_notify ho hothers hzero ⟨_, _, hpending, rfl, rfl⟩ hf hopen hg
  | send vfd =>
    obtain ⟨-, rfl, -⟩ := hserved
    obtain ⟨rfl, hf, hopen⟩ := hun
    rw [ho.pollout_eq]
    exact placed_notify ho hothers hzero ⟨_, _, hpending, rfl, rfl⟩ hf hopen hg

/-- The step that stops a fiber. -/
theorem placed_stop (h : InPlaces s) (ho : Orderly s) (hlive : s.Live f) {site : Site}
    {status : FiberStatus} {keepGoing answer : Bool} {frame : Frame} {o : Outcome}
    (hpc : s.pc = .running f site status keepGoing frame) (hun : Undisturbed s (.stop o))
    (hh : Handled (recordStop s f o) f o.payload (statusAfter site status o) t answer)
    (hg : t.Live g) : Placed t g := by
  have hfiber : s.pc.fiber = some f := by rw [hpc]; rfl
  have hzero := h.running f hfiber
  have hothers : ∀ g, s.Live g → g ≠ f → Placed s g := by
    intro g hg hne
    refine h.placed (by simp [hpc]) g hg fun hcon => hne ?_
    exact (Option.some.inj (hfiber.symm.trans hcon)).symm
  cases o with
  | fails memory =>
    -- the scheduler aborts
    rw [statusAfter_eq hpc hun] at hh
    cases hh
  | returns memory =>
    rw [statusAfter_eq hpc hun] at hh
    cases hh with
    | completed =>
      have hne : g ≠ f := fun he => hg.2 (he ▸ Finset.mem_insert_self _ _)
      have hg' : s.Live g := ⟨hg.1, fun hmem => hg.2 (Finset.mem_insert_of_mem hmem)⟩
      exact (hothers g hg' hne).congr rfl rfl (fun v => id) fun v => id
  | yields call residue =>
    obtain ⟨hstatus, hun⟩ := hun
    have hserved := hh.served rfl (statusAfter_eq hpc hstatus)
    refine placed_served (s := recordStop s f (.yields call residue)) (ho.recordStop hlive.1 _) ?_
      hzero hlive.1 (Function.update_self ..) (hun f hfiber) hserved hg
    intro g hg hne
    exact (hothers g hg hne).congr rfl (Function.update_of_ne hne ..) (fun v => id) fun v => id

/-! ### A step that disturbs no fiber leaves all in place -/

/-- An operation of the running fiber leaves the slots of the others alone: one that
waits goes on waiting, and none becomes resumable. -/
theorem places_io (ho : Orderly s) {op : WasioHost.Op} {r : WasioHost.Reply} {wfd : WasioPollfd}
    (hop : WasioHost.Tr s.wfd (op, r) wfd) (hfib : OfFiber op) (hun : Undisturbed s (.io op))
    (hg : s.Live g) (hne : s.pc.fiber ≠ some g) {pc : Pc}
    (hlook : pc.visitsFrom = s.pc.visitsFrom) (v : ℕ) :
    (Waits s v g → Waits { s with wfd := wfd, pc := pc } v g) ∧
      (Resumable { s with wfd := wfd, pc := pc } v g → Resumable s v g) := by
  obtain ⟨O, hO⟩ := ho.table
  obtain ⟨P, hP⟩ := hO.step max_connections_mod hop
  obtain ⟨hevents, hrevents, hfd⟩ :=
    hO.slot_cases max_connections_mod hop (not_masks_of_ofFiber hfib) v
  -- an event that is pending afterwards was pending before
  have harmed : Armed { s with wfd := wfd, pc := pc } v → Armed s v := by
    rintro (hint | ⟨hlt, hrev, i, hi, hle⟩)
    · exact Or.inl fun hzero => hint (hevents.trans hzero)
    · refine Or.inr ⟨?_, hrevents hrev, i, hlook ▸ hi, hle⟩
      rw [hO.capacity_eq, ← hP.capacity_eq]
      exact hlt
  -- a slot that is opened or closed resumes no other fiber
  have hnone : s.fibers v = some g → v < MAX_CONNECTIONS → Touches s.wfd v op → ¬Armed s v :=
    fun hf hlt => hun v (hO.capacity_eq ▸ hlt) g hf hg hne
  have hkept : s.fibers v = some g → Armed s v → (wfd.vfds v).fd = (s.wfd.vfds v).fd := by
    intro hf ha
    rcases hfd with hfd | ⟨hlt, d, hnew, hd, hfree, hleast⟩ | ⟨hlt, ⟨host, hclose⟩, hok⟩
    · exact hfd
    · refine absurd ha (hnone hf hlt ?_)
      cases op with
      | accept u host =>
        obtain rfl := Option.some.inj hnew
        exact ⟨hd, hfree, hleast⟩
      | recv | send | close => exact absurd hnew (by simp [WasioHost.Op.newFd])
      | _ => exact hfib.elim
    · obtain rfl : op = .close v host := hclose
      exact absurd ha (hnone hf hlt ⟨rfl, WasioHost.ret_eq_zero_of_unbinds hop hok⟩)
  constructor
  · rintro ⟨⟨hopen, hint⟩, hf⟩
    refine ⟨⟨?_, fun hzero => hint (hevents.symm.trans hzero)⟩, hf⟩
    rwa [hkept hf (Or.inl hint)]
  · rintro ⟨⟨hopen, ha⟩, hf⟩
    refine ⟨⟨?_, harmed ha⟩, hf⟩
    rwa [hkept hf (harmed ha)] at hopen

/-- A step between two states in which no fiber runs, that leaves the live fibers where they
are. -/
theorem InPlaces.idle (h : InPlaces s) (hs : s.pc.fiber = none) (hdone : s.pc ≠ .done)
    (ht : t.pc.fiber = none) (hplace : ∀ g, t.Live g → s.Live g ∧ (Placed s g → Placed t g)) :
    InPlaces t where
  placed _ g hg _ := by
    obtain ⟨hlive, hkept⟩ := hplace g hg
    exact hkept (h.placed hdone g hlive (by rw [hs]; exact nofun))
  running g hg := by
    rw [ht] at hg
    exact absurd hg nofun

/-- Where the program looks for no events, it looks for none it did not look for. -/
theorem looksLess_of_none (h : t.pc.visitsFrom = none) : LooksLess t s := by
  intro i hi
  rw [h] at hi
  exact absurd hi (by simp)

theorem looksLess_of_eq (h : t.pc.visitsFrom = s.pc.visitsFrom) : LooksLess t s := by
  intro i hi
  rw [h] at hi
  exact ⟨i, hi, le_rfl⟩

/-- The slot visited next is one whose event is still to be visited. -/
theorem resumable_of_nextEvent {i : ℕ} {status : FiberStatus} {keepGoing : Bool}
    (hpc : s.pc = .events i status keepGoing) (hnext : nextEvent s.wfd i = some v)
    (hf : s.fibers v = some f) : i ≤ v ∧ Resumable s v f := by
  have hmem := List.mem_of_find?_eq_some hnext
  have hevent := List.find?_some hnext
  rw [List.mem_range'_1] at hmem
  rw [hasEvent, Bool.and_eq_true, bne_iff_ne, bne_iff_ne] at hevent
  refine ⟨hmem.1, ⟨hevent.1, Or.inr ⟨by omega, hevent.2, i, ?_, hmem.1⟩⟩, hf⟩
  rw [hpc]
  rfl

/-- After a fiber has stopped the loop goes on where it was. -/
theorem looksLess_pcAfter {site : Site} {status status' : FiberStatus} {keepGoing answer : Bool}
    {frame : Frame} (hs : s.pc = .running f site status keepGoing frame)
    (ht : t.pc = pcAfter site status' keepGoing answer) : LooksLess t s := by
  cases site with
  | queue => exact looksLess_of_none (by rw [ht]; rfl)
  | event v =>
    cases answer with
    | false => exact looksLess_of_none (by rw [ht]; rfl)
    | true => exact looksLess_of_eq (by rw [hs, ht]; rfl)

/-- **A step that disturbs no fiber leaves all fibers in place.** -/
theorem InPlaces.step (h : InPlaces s) (ho : Orderly s) (hrun : RunningLive s) (htr : Tr s a t)
    (hun : Undisturbed s a) : InPlaces t := by
  cases htr.stepped with
  | @pop status clo nodes frame hpc hnodes hlive =>
    -- the fiber popped was in one node, and now runs and is in none
    have hplaced := h.placed (by simp [hpc])
    have hcount := queued_popFront hnodes
    have hone := hcount clo.fiber
    rw [if_pos rfl] at hone
    constructor
    · intro _ g hg hne
      have hne' : clo.fiber ≠ g := fun he => hne (he ▸ rfl)
      refine (hplaced g hg (by simp [hpc, Pc.fiber])).of_looksLess (looksLess_of_none rfl) rfl rfl
        ?_ rfl
      have hg' := hcount g
      rw [if_neg hne'] at hg'
      exact hg'.symm
    · rintro g hg
      obtain rfl := Option.some.inj hg
      have hq := (hplaced clo.fiber hlive (by simp [hpc, Pc.fiber])).of_queued (by omega)
      show State.queued { s with frontq := ⟨nodes, s.frontq.tail⟩ } clo.fiber = 0
      omega
  | @popDead status clo nodes hpc hnodes hdead =>
    refine h.idle (by rw [hpc]; rfl) (by simp [hpc]) rfl fun g hg => ⟨hg, fun hp => ?_⟩
    refine hp.of_looksLess (looksLess_of_none rfl) rfl rfl ?_ rfl
    -- the node taken away was not that of a live fiber
    have hne : clo.fiber ≠ g := fun he => hdead (he ▸ hg)
    have hcount := queued_popFront hnodes g
    rw [if_neg hne] at hcount
    exact hcount.symm
  | popWild hpc =>
    exact h.idle (by rw [hpc]; rfl) (by simp [hpc]) rfl fun g hg =>
      ⟨hg, fun hp => hp.of_looksLess (looksLess_of_none rfl) rfl rfl rfl rfl⟩
  | @visit i v f status keepGoing address frame hpc hnext hf hlive =>
    have hplaced := h.placed (by simp [hpc])
    obtain ⟨hle, hres⟩ := resumable_of_nextEvent hpc hnext hf
    constructor
    · intro _ g hg _
      refine (hplaced g hg (by simp [hpc, Pc.fiber])).of_looksLess ?_ rfl rfl rfl rfl
      rintro j hj
      obtain rfl := Option.some.inj hj
      exact ⟨i, by rw [hpc]; rfl, by omega⟩
    · rintro g hg
      obtain rfl := Option.some.inj hg
      -- the fiber was resumable through the event, so it is in no queue
      exact (hplaced f hlive (by simp [hpc, Pc.fiber])).queued_eq_zero hres
  | visitStray hpc =>
    exact h.idle (by rw [hpc]; rfl) (by simp [hpc]) rfl fun g hg =>
      ⟨hg, fun hp => hp.of_looksLess (looksLess_of_none rfl) rfl rfl rfl rfl⟩
  | @io f site status keepGoing frame op r wfd frame' hpc hop hfib =>
    have hlook : (Pc.running f site status keepGoing frame').visitsFrom = s.pc.visitsFrom := by
      rw [hpc]
      cases site <;> rfl
    constructor
    · intro _ g hg hne
      have hne' : s.pc.fiber ≠ some g := by rwa [hpc]
      have hplaces := places_io ho hop hfib hun hg hne' hlook
      exact (h.placed (by simp [hpc]) g hg hne').congr rfl rfl (fun v => (hplaces v).1)
        fun v => (hplaces v).2
    · rintro g hg
      exact h.running g (by rw [hpc]; exact hg)
  | stop hpc hmay hh =>
    constructor
    · intro _ g hg _
      have hplaced := placed_stop h ho (hrun _ _ _ _ _ hpc) hpc hun hh hg
      have hpc' := hh.pc_eq.trans ((recordStop_pc ..).trans hpc)
      exact hplaced.of_looksLess (looksLess_pcAfter hpc' rfl) rfl rfl rfl rfl
    · intro g hg
      rw [fiber_pcAfter] at hg
      exact absurd hg (by simp)
  | @poll status keepGoing revents host hpc hend =>
    refine h.idle (by rw [hpc]; rfl) (by simp [hpc]) (by dsimp only; split_ifs <;> rfl)
      fun g hg => ⟨hg, fun hp => hp.congr ?_ rfl (fun v => id) ?_⟩
    · -- the queues change places, and a node counts the same in either
      simp only [State.queued, State.queues, List.map_append, List.count_append]
      omega
    · rintro v ⟨⟨hopen, harmed⟩, hf⟩
      refine ⟨⟨hopen, Or.inl ?_⟩, hf⟩
      rcases harmed with hevents | ⟨hlt, hrev, i, hi, -⟩
      · exact hevents
      · by_cases hneg : host.ret < 0
        · rw [if_pos hneg] at hi
          exact absurd hi (by simp [Pc.visitsFrom])
        · exact hun (not_lt.mp hneg) v hlt g hf hg hopen hrev
  | @round i status status' keepGoing hpc hnext =>
    refine h.idle (by rw [hpc]; rfl) (by simp [hpc]) (by dsimp only; split_ifs <;> rfl)
      fun g hg => ⟨hg, fun hp => hp.of_looksLess (looksLess_of_none ?_) rfl rfl rfl rfl⟩
    cases keepGoing <;> rfl
  | exit => exact ⟨fun hcon => absurd rfl hcon, fun g hg => absurd hg (by simp [Pc.fiber])⟩

/-- At the start no interest is registered, and the main fiber is in the queue. -/
theorem inPlaces_start {e : Start} (h : waeioMain e = some s) : InPlaces s := by
  obtain ⟨wfd₀, wfd, r, v, hinit, htr, -, -, rfl⟩ := waeioMain_cases h
  have htable := WasioHost.tableInv_init max_connections_lt hinit
  have hevents : ∀ u, (wfd.vfds u).events = 0 := by
    intro u
    -- the only operation so far is `wasio_listen`, which registers none
    have hkept := (htable.slot_cases max_connections_mod htr (by simp [WasioHost.Op.Masks]) u).1
    rw [hkept, (WasioHost.statics_init hinit).1 u]
  refine ⟨fun _ f hf _ => Or.inl ⟨?_, fun u hu => ?_⟩, fun f hf => absurd hf (by simp [Pc.fiber])⟩
  · obtain rfl : f = mainfiber := Nat.lt_one_iff.mp hf.1
    rfl
  · rcases hu.1.2 with hint | ⟨-, -, i, hi, -⟩
    · exact hint (hevents u)
    · exact absurd hi (by simp [Pc.visitsFrom])

end Scheduler

open Scheduler

/-- **Every live fiber is in exactly one place** between two resumptions, in a run
whose steps disturb no fiber. -/
theorem allPlaced_of_undisturbed (e : Scheduler.Start) (s₀ s : Scheduler.State) (l : List Act)
    (h : waeioMain e = some s₀)
    (hl : Lts.Steps (Lts.Guarded Scheduler.Tr Undisturbed) s₀ l s) : AllPlaced s := by
  have hinv : InPlaces s ∧ Orderly s ∧ RunningLive s := by
    refine hl.invariant (P := fun s => InPlaces s ∧ Orderly s ∧ RunningLive s) ?_
      ⟨inPlaces_start h, orderly_start h, runningLive_start h⟩
    rintro s a t ⟨hs, ho, hrun⟩ ⟨htr, hun⟩
    exact ⟨hs.step ho hrun htr hun, ho.step htr, hrun.step htr⟩
  intro hpc f hf
  refine hinv.1.placed ?_ f hf ?_
  · intro hdone
    rw [hdone] at hpc
    exact hpc
  · intro hfiber
    cases hp : s.pc <;> rw [hp] at hpc hfiber
    case running => exact hpc
    all_goals exact absurd hfiber (by simp [Pc.fiber])

namespace Scheduler

/-- The main fiber asks for another and waits for a connection, the other fiber
runs and returns; and a connection is accepted. -/
def asyncThenAccept : List Act :=
  [.pop, .stop (.yields (.async 7 1) 0), .poll (eventOn 0 0) ⟨0, 0⟩, .round .yield,
    .pop, .stop (.yields (.accept 0) 0), .pop, .stop (.returns ⟨none, 0, 0⟩),
    .poll (eventOn 0 0) ⟨0, 0⟩, .round .yield, .poll (eventOn 0 POLLIN) ⟨1, 0⟩, .visit 4096,
    .io (.accept 0 ⟨5, 0⟩), .stop (.yields (.accept 0) 0)]

end Scheduler

/-- The listener accepts a connection, and waits for the next. -/
theorem allPlaced_of_undisturbed_accept :
    ∃ s, Scheduler.Run .clean asyncThenAccept s ∧ AllPlaced s := by
  obtain ⟨s, hs, -⟩ :
      ∃ s ∈ afterIf Undisturbed asyncThenAccept, s.allocated = 2 ∧ s.queued mainfiber = 0 := by
    decide +kernel
  obtain ⟨s₀, hstart, hsteps⟩ := guarded_of_afterIf hs
  exact ⟨s, ⟨s₀, hstart, hsteps.of_guarded⟩,
    allPlaced_of_undisturbed .clean s₀ s _ hstart hsteps⟩

/-- **After the first connection the listener is in two places**: it is enqueued,
and the next event at its slot resumes it. -/
theorem not_allPlaced_firstConnection :
    ∃ s, Scheduler.Run .clean firstConnection s ∧ s.Live mainfiber ∧ s.queued mainfiber = 1 ∧
      Waits s 0 mainfiber ∧ ¬AllPlaced s := by
  obtain ⟨s, hs, hpc, hlive, hqueued, hwaits⟩ :
      ∃ s ∈ after firstConnection, s.pc = .events 1 .yield true ∧ s.Live mainfiber ∧
        s.queued mainfiber = 1 ∧ Waits s 0 mainfiber := by
    decide +kernel
  refine ⟨s, run_of_after hs, hlive, hqueued, hwaits, fun h => ?_⟩
  rcases h (by rw [hpc]; exact trivial) mainfiber hlive with ⟨-, hno⟩ | ⟨hzero, -⟩
  · exact hno 0 hwaits.resumable
  · omega

end Waeio
