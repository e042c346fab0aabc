import Waeio.FiberServer.CleanUp
import Waeio.Lib.Ledger

/-!
# No closed descriptor is named

A round may lose a connection: the entry is gone from the table, and its descriptor stays
open. Here is what it never does. No descriptor is closed twice, and what the program names
to the host – to poll it, to accept on it, to receive, send or close – is open
(`Waeio.fiberServer_usesOpen`). The one exception is the kill signal, on which a fiber
receives that is resumed by the clean-up for the first time.

The table does not show what is open, as it has lost some of it. So descriptors are told by
the order in which they were opened, which is that of the fibers, and `shut` has the numbers
of those that were closed (`Waeio.FiberServer.Settled`). Whoever is closed is out of use
(`Waeio.FiberServer.Gone`): before the clean-up its fiber was freed; in the clean-up, where a
fiber may yield once more, its entry is one of those the loop has gone past.
-/

namespace Waeio

namespace Http

/-- The descriptors that a step names to the host. -/
def Label.uses : Label → List ℤ
  | .call c _ => c.uses
  | .tau | .resume _ _ _ => []

end Http

namespace FiberServer

open HostPoll
open Http (Call Answer Label Site Pc Frame Parser)

variable {phr : Parser} {s t u : Program} {a : Label} {l : List Label} {created closed : List ℤ}
  {shut : List ℕ} {site : Site} {f g i k n : ℕ} {d : ℤ}

/-- After the run `l` the descriptor `d` is open: the host has returned it more often than it
was closed. -/
def IsOpen (l : List Label) (d : ℤ) : Prop := (closings l).count d < (descriptors l).count d

/-! ### Fibers out of use -/

/-- The first entry that the clean-up has to come to yet, when it is in the fiber of an
entry. -/
def Site.aheadFrom : Site → Option ℕ
  | .sweep _ => none
  | .kill i => some i

/-- The first entry that the clean-up has to come to yet. -/
def aheadFrom : Pc → Option ℕ
  | .kill i => some i
  | .resume site | .accept site _ | .recv site _ | .send site _ _ => Site.aheadFrom site
  | .closeKill i => some (i + 1)
  | _ => none

/-- The program has ended, or its clean-up has no entry with the fiber `f` ahead. -/
def Past (s : Program) (f : ℕ) : Prop :=
  s.pc = .exited ∨ s.pc = .aborted ∨
    ∃ i, aheadFrom s.pc = some i ∧ ∀ k, i ≤ k → k < s.srv.wfd.length → (s.srv.fibers k).fiber ≠ f

/-- **The fiber is out of use.** -/
def Gone (s : Program) (f : ℕ) : Prop := ¬Alive (s.frames f) ∨ Past s f

/-- The descriptor `d` has a number that is not closed, and its fiber is out of use. -/
def Closable (created : List ℤ) (shut : List ℕ) (s : Program) (d : ℤ) : Prop :=
  ∃ k, created[k]? = some d ∧ k ∉ shut ∧ Gone s (k + 1)

/-- **A descriptor is closed** only where it may be. -/
def Closing (created : List ℤ) (shut : List ℕ) (s : Program) : Prop :=
  match s.pc with
  | .closeDone _ d _ => Closable created shut s d
  | .closeKill i => Closable created shut s (s.srv.wfd.fds i).fd
  | _ => True

/-- **The descriptors with the numbers `shut` were closed**, each once. -/
structure Shut (created closed : List ℤ) (shut : List ℕ) : Prop where
  nodup : shut.Nodup
  lt : ∀ k ∈ shut, k < created.length
  closed_eq : closed = Ledger.numbered created shut

/-- The fibers of these descriptors are out of use. -/
structure Kept (created : List ℤ) (shut : List ℕ) (s : Program) : Prop where
  gone : ∀ k ∈ shut, Gone s (k + 1)
  closing : Closing created shut s

/-- **The invariant.** -/
def Settled (created closed : List ℤ) (s : Program) : Prop :=
  ∃ shut, Shut created closed shut ∧ Kept created shut s

theorem Shut.append (h : Shut created closed shut) (new : List ℤ) :
    Shut (created ++ new) closed shut where
  nodup := h.nodup
  lt k hk := by
    rw [List.length_append]
    exact Nat.lt_add_right _ (h.lt k hk)
  closed_eq := by rw [h.closed_eq, Ledger.numbered_append h.lt]

/-- One more descriptor is closed. -/
theorem Shut.close (h : Shut created closed shut) (hd : created[k]? = some d) (hk : k ∉ shut) :
    Shut created (closed ++ [d]) (shut ++ [k]) where
  nodup := List.nodup_append.mpr ⟨h.nodup, List.nodup_singleton k, fun j hj m hm heq =>
    hk (List.mem_singleton.mp hm ▸ heq ▸ hj)⟩
  lt j hj := by
    obtain ⟨hlt, -⟩ := List.getElem?_eq_some_iff.mp hd
    rcases List.mem_append.mp hj with hj | hj
    · exact h.lt j hj
    · exact List.mem_singleton.mp hj ▸ hlt
  closed_eq := by
    rw [h.closed_eq, Ledger.numbered, Ledger.numbered, List.filterMap_append,
      List.filterMap_cons_some hd, List.filterMap_nil]

/-- Away from the calls that close, all fibers out of use may be dead. -/
theorem Kept.of_dead (hdead : ∀ k ∈ shut, ¬Alive (t.frames (k + 1)))
    (hclosing : Closing created shut t) : Kept created shut t :=
  ⟨fun k hk => Or.inl (hdead k hk), hclosing⟩

/-- **While the program runs**, a fiber out of use is dead, or no entry of it is ahead of the
clean-up. -/
theorem Gone.of_running (h : Gone s f) (hrunning : s.pc ≠ .exited ∧ s.pc ≠ .aborted) :
    ¬Alive (s.frames f) ∨ ∃ i, aheadFrom s.pc = some i ∧
      ∀ k, i ≤ k → k < s.srv.wfd.length → (s.srv.fibers k).fiber ≠ f := by
  rcases h with hdead | hexited | haborted | hpast
  · exact Or.inl hdead
  · exact absurd hexited hrunning.1
  · exact absurd haborted hrunning.2
  · exact Or.inr hpast

/-- Before the clean-up a fiber out of use is dead. -/
theorem Gone.dead (h : Gone s f) (hpc : aheadFrom s.pc = none)
    (hrunning : s.pc ≠ .exited ∧ s.pc ≠ .aborted) : ¬Alive (s.frames f) := by
  rcases h.of_running hrunning with hdead | ⟨i, hi, -⟩
  · exact hdead
  · rw [hpc] at hi
    cases hi

theorem closing_nextRound (s : Program) : Closing created shut (nextRound s) := by
  rw [nextRound]
  split_ifs <;> exact trivial

theorem frames_nextRound (s : Program) : (nextRound s).frames = s.frames := by
  rw [nextRound]
  split_ifs <;> rfl

theorem frames_sweepEnd (s : Program) : (sweepEnd s).frames = s.frames := by
  rw [sweepEnd, frames_nextRound]
  split_ifs <;> rfl

/-! ### In a fiber

Whatever the fiber of an entry does until it calls the host or is back in `main`, it leaves
the table and the other fibers alone. -/

/-- The same table, and the same fibers but for `f`. -/
structure Like (f : ℕ) (s u : Program) : Prop where
  wfd_eq : u.srv.wfd = s.srv.wfd
  fibers_eq : u.srv.fibers = s.srv.fibers
  frames_eq : ∀ g ≠ f, u.frames g = s.frames g

/-- At a call of the host in the fiber `f`, or at the end. -/
def AtCall (site : Site) (f : ℕ) : Pc → Prop
  | .accept σ g | .recv σ g | .send σ g _ => σ = site ∧ g = f
  | .aborted => True
  | _ => False

/-- **Where the fiber gets to.** -/
def Reaches (site : Site) (f : ℕ) (s t : Program) : Prop :=
  (∃ status u, Like f s u ∧ t = back status u site) ∨ Like f s t ∧ AtCall site f t.pc

theorem Like.refl (s : Program) : Like f s s := ⟨rfl, rfl, fun _ _ => rfl⟩

theorem Like.setFrame (h : Like f s u) (frame : Frame) : Like f s (u.setFrame f frame) where
  wfd_eq := h.wfd_eq
  fibers_eq := h.fibers_eq
  frames_eq g hg := (Function.update_of_ne hg _ _).trans (h.frames_eq g hg)

theorem reaches_yields (h : Like f s u) (frame : Frame) :
    Reaches site f s (yields site f frame u) :=
  Or.inl ⟨.yield, u.setFrame f frame, h.setFrame frame, rfl⟩

theorem reaches_returns (h : Like f s u) : Reaches site f s (returns site f u) :=
  Or.inl ⟨.ok, u.setFrame f .finished, h.setFrame .finished, rfl⟩

theorem reaches_awaitSpace (h : Like f s u) : Reaches site f s (awaitSpace site f u) := by
  rw [awaitSpace]
  split_ifs
  · exact reaches_yields h _
  · exact Or.inr ⟨⟨h.wfd_eq, h.fibers_eq, h.frames_eq⟩, rfl, rfl⟩

theorem reaches_listenerLoop (h : Like f s u) : Reaches site f s (listenerLoop site f u) := by
  rw [listenerLoop]
  split_ifs
  · exact reaches_returns h
  · exact reaches_awaitSpace h

theorem reaches_acceptMore (h : Like f s u) : Reaches site f s (acceptMore site f u) := by
  rw [acceptMore]
  split_ifs
  · exact Or.inr ⟨⟨h.wfd_eq, h.fibers_eq, h.frames_eq⟩, rfl, rfl⟩
  · exact reaches_listenerLoop h

theorem reaches_enterListener (h : Like f s u) (frame : Frame) :
    Reaches site f s (enterListener site f frame u) := by
  unfold enterListener
  split
  · exact reaches_listenerLoop ⟨h.wfd_eq, h.fibers_eq, h.frames_eq⟩
  · split_ifs
    · exact reaches_returns h
    · exact reaches_awaitSpace h
  · split_ifs
    · exact reaches_returns h
    · exact reaches_acceptMore h

theorem reaches_receive (h : Like f s u) : Reaches site f s (receive site f u) :=
  Or.inr ⟨⟨h.wfd_eq, h.fibers_eq, h.frames_eq⟩, rfl, rfl⟩

theorem reaches_enterConnection (h : Like f s u) (frame : Frame) :
    Reaches site f s (enterConnection site f frame u) := by
  unfold enterConnection
  split
  · exact reaches_receive h
  · split_ifs
    · exact reaches_returns h
    · exact reaches_receive h

theorem reaches_received (a : Answer) : Reaches site f s (received phr s site f a) := by
  have hemit : ∀ call, Like f s { s with srv := s.srv.emit (.call call) } := fun call =>
    ⟨rfl, rfl, fun _ _ => rfl⟩
  rw [received]
  split
  · dsimp only
    split_ifs
    · rw [respond]
      dsimp only
      split
      · exact Or.inr ⟨⟨rfl, rfl, fun _ _ => rfl⟩, rfl, rfl⟩
      · exact reaches_returns ⟨rfl, rfl, fun _ _ => rfl⟩
    · exact Or.inr ⟨⟨rfl, rfl, fun _ _ => rfl⟩, trivial⟩
  · exact reaches_yields (hemit _) _
  · exact reaches_returns (hemit _)

theorem reaches_sent (rc : ℕ) (a : Answer) : Reaches site f s (sent s site f rc a) := by
  rw [sent]
  dsimp only
  split_ifs
  · exact reaches_returns ⟨rfl, rfl, fun _ _ => rfl⟩
  · exact reaches_receive ⟨rfl, rfl, fun _ _ => rfl⟩

/-- **The entry of a fiber**, while the program is in it or about to resume it. -/
structure AtEntry (created : List ℤ) (s : Program) (site : Site) (f : ℕ) : Prop where
  ok : EntryOk created s.frames site.index (s.srv.cell site.index)
  fiber_eq : (s.srv.fibers site.index).fiber = f
  pc : aheadFrom s.pc = Site.aheadFrom site
  running : s.pc ≠ .exited ∧ s.pc ≠ .aborted
  lt : ∀ i, site = .kill i → i < s.srv.wfd.length
  alone : ∀ i, site = .kill i → ∀ k, i < k → k < s.srv.wfd.length → (s.srv.fibers k).fiber ≠ f

theorem AtSite.atEntry (h : AtSite created s.frames s.srv.table n d site)
    (hfiber : (s.srv.fibers site.index).fiber = f) (hpc : aheadFrom s.pc = Site.aheadFrom site)
    (hrunning : s.pc ≠ .exited ∧ s.pc ≠ .aborted) : AtEntry created s site f := by
  refine ⟨h.entryOk, hfiber, hpc, hrunning, ?_, ?_⟩
  · rintro i rfl
    exact h.2.1
  · rintro i rfl k hik hk heq
    obtain ⟨hfrom, hi, -⟩ := h
    have hsame := hfrom.order.inj k i ⟨hik.le, hk⟩ ⟨le_rfl, hi⟩ (hfrom.noHole k hik.le hk)
      (hfrom.noHole i le_rfl hi) (heq.trans hfiber.symm)
    omega

/-- The fiber of an entry has a number, and its descriptor is that of the entry. -/
theorem AtEntry.number (h : AtEntry created s site f) :
    f - 1 + 1 = f ∧ created[f - 1]? = some (s.srv.wfd.fds site.index).fd ∧
      (s.srv.fibers site.index).fd = (s.srv.wfd.fds site.index).fd := by
  have hpos := h.ok.pos
  have hcreated := h.ok.created_eq
  have hfiber : (s.srv.cell site.index).closure.fiber = f := h.fiber_eq
  rw [hfiber] at hpos hcreated
  exact ⟨Nat.sub_add_cancel hpos, hcreated, h.ok.fd_eq⟩

/-- It is not out of use, so its descriptor was not closed. -/
theorem AtEntry.notMem (h : AtEntry created s site f) (hkept : Kept created shut s) :
    f - 1 ∉ shut := by
  intro hmem
  have hgone := hkept.gone _ hmem
  rw [h.number.1] at hgone
  rcases hgone.of_running h.running with hdead | ⟨i, hi, hne⟩
  · have halive := h.ok.alive
    rw [show (s.srv.cell site.index).closure.fiber = f from h.fiber_eq] at halive
    exact hdead halive
  · rw [h.pc] at hi
    cases site with
    | sweep j => cases hi
    | kill j =>
      obtain rfl := Option.some.inj hi
      exact hne _ le_rfl (h.lt _ rfl) h.fiber_eq

/-- **Another fiber** that is out of use stays so. -/
theorem Gone.like (h : Gone s g) (hentry : AtEntry created s site f) (hlike : Like f s u)
    (hg : g ≠ f) : ¬Alive (u.frames g) ∨ ∃ i, site = .kill i ∧
      ∀ k, i ≤ k → k < u.srv.wfd.length → (u.srv.fibers k).fiber ≠ g := by
  rcases h.of_running hentry.running with hdead | ⟨i, hi, hne⟩
  · exact Or.inl (by rwa [hlike.frames_eq g hg])
  · rw [hentry.pc] at hi
    cases site with
    | sweep j => cases hi
    | kill j =>
      obtain rfl := Option.some.inj hi
      refine Or.inr ⟨_, rfl, fun k hk hlt => ?_⟩
      rw [hlike.fibers_eq]
      exact hne k hk (hlike.wfd_eq ▸ hlt)

/-- **Whatever a fiber does**, it keeps the descriptors in order. -/
theorem Kept.reaches (h : Kept created shut s) (hentry : AtEntry created s site f)
    (hreach : Reaches site f s t) : Kept created shut t := by
  obtain ⟨hf, hcreated, hfd⟩ := hentry.number
  have hnot := hentry.notMem h
  have hother : ∀ k ∈ shut, k + 1 ≠ f := by
    rintro k hk rfl
    exact hnot hk
  rcases hreach with ⟨status, u, hlike, rfl⟩ | ⟨hlike, hpc⟩
  · have hgone := fun k hk => (h.gone k hk).like hentry hlike (hother k hk)
    cases site with
    | sweep i =>
      have hdead : ∀ k ∈ shut, ¬Alive (u.frames (k + 1)) := fun k hk =>
        (hgone k hk).resolve_right fun ⟨_, hsite, _⟩ => (by cases hsite)
      have hfiber : (u.srv.fibers i).fiber = f := hlike.fibers_eq ▸ hentry.fiber_eq
      have hclo : (u.srv.fibers i).fd = (s.srv.wfd.fds i).fd := by
        rw [hlike.fibers_eq]
        exact hfd
      -- where the fiber is done, it is freed, and its descriptor is closed next
      have hfreed : ∀ {v : Program}, v.frames = Function.update u.frames (u.srv.fibers i).fiber
          .freed → ∀ g, g = f ∨ ¬Alive (u.frames g) → ¬Alive (v.frames g) := by
        rintro v hv g hg
        rw [hv, hfiber]
        rcases eq_or_ne g f with rfl | hne
        · rw [Function.update_self]
          exact fun halive => halive.2 rfl
        · rw [Function.update_of_ne hne]
          exact hg.resolve_left hne
      have hdone : ∀ {v : Program} {failed : Bool},
          v.frames = Function.update u.frames (u.srv.fibers i).fiber .freed →
          v.pc = .closeDone i (u.srv.fibers i).fd failed → Kept created shut v := by
        intro v failed hv hpc
        refine .of_dead (fun k hk => hfreed hv _ (Or.inr (hdead k hk))) ?_
        rw [Closing, hpc]
        refine ⟨f - 1, hclo ▸ hcreated, hnot, Or.inl ?_⟩
        rw [hf]
        exact hfreed hv f (Or.inl rfl)
      cases status with
      | ok => exact hdone rfl rfl
      | error | other => exact hdone rfl rfl
      | yield => exact .of_dead hdead trivial
    | kill i =>
      have hlater : ∀ {g}, (∀ k, i + 1 ≤ k → k < u.srv.wfd.length → (u.srv.fibers k).fiber ≠ g) →
          Gone (back status u (.kill i)) g := fun hne => Or.inr (Or.inr (Or.inr ⟨i + 1, rfl, hne⟩))
      refine ⟨fun k hk => ?_, f - 1, ?_, hnot, ?_⟩
      · rcases hgone k hk with hdead | ⟨j, hj, hne⟩
        · exact Or.inl hdead
        · obtain rfl := Site.kill.inj hj
          exact hlater fun m hm => hne m (by omega)
      · change created[f - 1]? = some (u.srv.wfd.fds i).fd
        rw [hlike.wfd_eq]
        exact hcreated
      · rw [hf]
        refine hlater fun m hm hlt => ?_
        rw [hlike.fibers_eq]
        exact hentry.alone i rfl m hm (hlike.wfd_eq ▸ hlt)
  · have hstays : t.pc = .aborted ∨ aheadFrom t.pc = Site.aheadFrom site := by
      cases hp : t.pc <;> rw [hp, AtCall] at hpc
      case accept | recv | send => exact Or.inr (by rw [← hpc.1]; rfl)
      case aborted => exact Or.inl rfl
      all_goals exact hpc.elim
    refine ⟨fun k hk => ?_, ?_⟩
    · rcases (h.gone k hk).like hentry hlike (hother k hk) with hdead | ⟨i, rfl, hne⟩
      · exact Or.inl hdead
      · rcases hstays with haborted | hahead
        · exact Or.inr (Or.inr (Or.inl haborted))
        · exact Or.inr (Or.inr (Or.inr ⟨i, hahead, hne⟩))
    · rw [Closing]
      cases hp : t.pc <;> rw [hp, AtCall] at hpc <;> first | exact trivial | exact hpc.elim

/-! ### The steps -/

/-- In the fiber of an entry. -/
theorem InFiber.atEntry (h : InFiber created s.frames s.srv.table n s.srv.fd site f)
    (hpc : s.pc = .accept site f ∨ s.pc = .recv site f ∨ ∃ rc, s.pc = .send site f rc) :
    AtEntry created s site f := by
  refine h.atSite.atEntry h.fiber_eq ?_ ?_ <;> rcases hpc with hpc | hpc | ⟨rc, hpc⟩ <;> rw [hpc]
  all_goals first | rfl | exact ⟨by rintro ⟨⟩, by rintro ⟨⟩⟩

/-- **The listener accepts a connection**, or not. -/
theorem Kept.accepted (h : Kept created shut s) (hshut : Shut created closed shut)
    (hpc : s.pc = .accept site f) (hinv : Inv created s) (a : Answer) (vfd : ℤ) :
    Kept (addDescriptor created (.call (.accept vfd) a)) shut (accepted s site f a) := by
  rw [Inv, hpc] at hinv
  obtain ⟨hfiber, rfl, rfl, hlt⟩ := hinv
  have hentry := hfiber.atEntry (Or.inl hpc)
  obtain ⟨hsweep, hn, -, -⟩ := hfiber.atSite
  have hcap : s.srv.wfd.capacity = MAX_CONNECTIONS := hsweep.capacity_eq
  have hlt' : s.srv.wfd.length < s.srv.wfd.capacity := hlt.trans_eq hcap.symm
  have hcaplt : s.srv.wfd.capacity < 2 ^ 32 := hcap ▸ MAX_CONNECTIONS_lt
  by_cases hneg : a.ret < 0
  · rw [addDescriptor_of_none (a := .call (.accept vfd) a) (if_neg (not_le.mpr hneg)),
      FiberServer.accepted, wasioAccept_of_neg hlt' _ hneg]
    have hlike : Like listenerFiber s { s with srv := s.srv.emit (.call (.accept s.srv.fd)) } :=
      ⟨rfl, rfl, fun _ _ => rfl⟩
    have hyields : Kept created shut (yields (.sweep 0) listenerFiber .again
        { s with srv := s.srv.emit (.call (.accept s.srv.fd)) }) :=
      h.reaches hentry (reaches_yields hlike _)
    have hreturns : Kept created shut (returns (.sweep 0) listenerFiber
        { s with srv := { s.srv.emit (.call (.accept s.srv.fd)) with endServer := true } }) :=
      h.reaches hentry (reaches_returns ⟨rfl, rfl, fun _ _ => rfl⟩)
    rw [translateError]
    split_ifs
    · exact hyields
    · exact hreturns
  · have hnonneg : 0 ≤ a.ret := not_lt.mp hneg
    have hpred : Uint32.pred (s.srv.wfd.length + 1) = s.srv.wfd.length :=
      Uint32.pred_of_pos (Nat.succ_pos _)
    have hcreated : created ≠ [] := by
      rintro rfl
      exact absurd (hsweep.entryOk hn).created_eq (by simp)
    have hsweep' := hsweep.accepted hlt hnonneg hcreated
    have hlen : created.length = s.srv.allocated := hsweep.created_eq
    rw [addDescriptor_of_some (a := .call (.accept vfd) a) (if_pos hnonneg),
      FiberServer.accepted, wasioAccept_of_nonneg hlt' hcaplt _ hneg]
    dsimp only
    rw [hpred]
    -- the entry of the listener is another one
    have hne : (0 : ℕ) ≠ s.srv.wfd.length := by
      have hle : s.pollfdSize ≤ s.srv.wfd.length + 0 := hsweep.le
      omega
    -- the program with the new entry, still in the call
    let u : Program := { s.setFrame (s.srv.allocated + 1) .fresh with
      srv := (s.srv.accepted a.ret).emit (.call (.accept s.srv.fd)), newFd := a.ret }
    have hdead : ∀ k ∈ shut, ¬Alive (u.frames (k + 1)) := by
      intro k hk
      have hklt := hshut.lt k hk
      have hsame : u.frames (k + 1) = s.frames (k + 1) := Function.update_of_ne (by omega) _ _
      rw [hsame]
      exact (h.gone k hk).dead (by rw [hpc]; rfl) hentry.running
    have hkept : Kept (created ++ [a.ret]) shut u := by
      refine .of_dead hdead ?_
      rw [Closing, show u.pc = s.pc from rfl, hpc]
      exact trivial
    have hentry' : AtEntry (created ++ [a.ret]) u (.sweep 0) listenerFiber := by
      refine ⟨hsweep'.entryOk hn, ?_, hentry.pc, hentry.running, by rintro _ ⟨⟩, by rintro _ ⟨⟩⟩
      exact (congrArg FiberClosure.fiber (Function.update_of_ne hne _ _)).trans hfiber.fiber_eq
    split_ifs
    · exact hkept.reaches hentry' (reaches_acceptMore (u := u) (.refl u))
    · exact hkept.reaches hentry' (Or.inr ⟨⟨rfl, rfl, fun _ _ => rfl⟩, trivial⟩)

/-- A step of `main` that neither calls the host nor resumes a fiber. -/
theorem Kept.tauStep (h : Kept created shut s) (hstep : tauStep s = some t) :
    Kept created shut t := by
  rw [FiberServer.tauStep] at hstep
  split at hstep
  · rename_i i hpc
    have hdead : ∀ k ∈ shut, ¬Alive (s.frames (k + 1)) := fun k hk =>
      (h.gone k hk).dead (by rw [hpc]; rfl) (by simp [hpc])
    have hend : ∀ u : Program, u.frames = s.frames → Kept created shut (sweepEnd u) := by
      intro u hu
      refine .of_dead (fun k hk => ?_) (closing_nextRound _)
      rw [frames_sweepEnd, hu]
      exact hdead k hk
    dsimp only at hstep
    split_ifs at hstep <;> obtain rfl := Option.some.inj hstep
    · exact .of_dead hdead trivial
    · -- the fiber of an entry that hangs up is freed
      refine .of_dead (fun k hk halive => ?_) trivial
      rcases eq_or_ne (k + 1) (s.srv.fibers i).fiber with heq | hne
      · exact halive.2 (by rw [heq]; exact Function.update_self _ _ _)
      · refine hdead k hk ?_
        rwa [show ({ s.setFrame (s.srv.fibers i).fiber .freed with
          srv := hangUp i s.srv, pc := .sweep (i + 1) } : Program).frames (k + 1) =
            s.frames (k + 1) from Function.update_of_ne hne _ _] at halive
    · exact hend _ rfl
    · exact .of_dead hdead trivial
    · exact .of_dead hdead trivial
    · exact hend _ rfl
  · rename_i i hpc
    have hgone : ∀ k ∈ shut, ¬Alive (s.frames (k + 1)) ∨
        ∀ m, i ≤ m → m < s.srv.wfd.length → (s.srv.fibers m).fiber ≠ k + 1 := by
      intro k hk
      rcases (h.gone k hk).of_running (by simp [hpc]) with hdead | ⟨j, hj, hne⟩
      · exact Or.inl hdead
      · rw [hpc] at hj
        obtain rfl := Option.some.inj hj
        exact Or.inr hne
    split_ifs at hstep <;> obtain rfl := Option.some.inj hstep
    · refine ⟨fun k hk => (hgone k hk).imp_right fun hne => ?_, trivial⟩
      exact Or.inr (Or.inr ⟨i + 1, rfl, fun m hm => hne m (by omega)⟩)
    · refine ⟨fun k hk => (hgone k hk).imp_right fun hne => ?_, trivial⟩
      exact Or.inr (Or.inr ⟨i, rfl, hne⟩)
    · exact ⟨fun k hk => (hgone k hk).imp_right fun _ => Or.inl rfl, trivial⟩
  · cases hstep

/-- `fiber_resume`. -/
theorem Kept.resumeStep (h : Kept created shut s) (hinv : Inv created s) {resumed : Bool}
    (hstep : resumeStep s f d resumed = some t) : Kept created shut t := by
  rw [FiberServer.resumeStep] at hstep
  split at hstep
  swap
  · cases hstep
  rename_i site hpc
  rw [Inv, hpc] at hinv
  obtain ⟨hsite, hq⟩ := hinv
  rw [Option.ite_none_right_eq_some] at hstep
  obtain ⟨⟨rfl, -⟩, hstep⟩ := hstep
  dsimp only at hstep
  have hentry := hsite.atEntry rfl (by rw [hpc]; rfl) (by simp [hpc])
  have hlike : Like (s.srv.fibers site.index).fiber s
      { s with srv := s.srv.emit (.resume (s.srv.fibers site.index).fiber d) } :=
    ⟨rfl, rfl, fun _ _ => rfl⟩
  have hlive : Program.Live
      { s with srv := s.srv.emit (.resume (s.srv.fibers site.index).fiber d) }
      (s.srv.fibers site.index).fiber := hsite.live hq
  rw [if_pos hlive] at hstep
  refine h.reaches hentry ?_
  cases resumed with
  | true =>
    rw [if_pos rfl] at hstep
    obtain rfl := Option.some.inj hstep
    split_ifs with hlisten
    · exact reaches_enterListener (hlike.setFrame _) _
    · exact reaches_enterConnection (hlike.setFrame _) _
  | false =>
    rw [if_neg Bool.false_ne_true] at hstep
    obtain rfl := Option.some.inj hstep
    exact Or.inl ⟨.error, _, hlike.setFrame _, rfl⟩

/-- The answer to `wasio_poll` leaves the fibers alone. -/
theorem Kept.polled (h : Kept created shut s) (hpc : s.pc = .poll) (a : Answer) :
    Kept created shut (polled s a) := by
  have hdead : ∀ k ∈ shut, ¬Alive (s.frames (k + 1)) := fun k hk =>
    (h.gone k hk).dead (by rw [hpc]; rfl) (by simp [hpc])
  have hround : ∀ u : Program, u.frames = s.frames → Kept created shut (nextRound u) := by
    intro u hu
    refine .of_dead (fun k hk => ?_) (closing_nextRound u)
    rw [frames_nextRound, hu]
    exact hdead k hk
  rw [FiberServer.polled]
  split
  · dsimp only
    split_ifs
    · exact hround _ rfl
    · exact .of_dead hdead trivial
  · exact hround _ rfl

/-- **The fiber of an entry is done for**, and its descriptor closed. -/
theorem Settled.closedDone {failed : Bool} (hshut : Shut created closed shut)
    (h : Kept created shut s) (hpc : s.pc = .closeDone i d failed) (a : Answer) :
    Settled created (closed ++ [d]) (closedDone s i d failed a) := by
  have hclosing := h.closing
  rw [Closing, hpc] at hclosing
  obtain ⟨k, hd, hk, hgone⟩ := hclosing
  have hdead : ∀ {g}, Gone s g → ¬Alive (s.frames g) := fun hg =>
    hg.dead (by rw [hpc]; rfl) (by simp [hpc])
  have hall : ∀ j ∈ shut ++ [k], ¬Alive (s.frames (j + 1)) := by
    intro j hj
    rcases List.mem_append.mp hj with hj | hj
    · exact hdead (h.gone j hj)
    · exact List.mem_singleton.mp hj ▸ hdead hgone
  refine ⟨shut ++ [k], hshut.close hd hk, ?_⟩
  rw [FiberServer.closedDone]
  dsimp only
  split_ifs <;> exact .of_dead hall trivial

/-- **The clean-up closes a descriptor.** -/
theorem Settled.closedKill (hshut : Shut created closed shut) (h : Kept created shut s)
    (hpc : s.pc = .closeKill i) (hi : i < s.srv.wfd.length) (a : Answer) :
    Settled created (closed ++ [(s.srv.wfd.fds i).fd]) (closedKill s i a) := by
  have hclosing := h.closing
  rw [Closing, hpc] at hclosing
  obtain ⟨k, hd, hk, hgone⟩ := hclosing
  have hlen : (FiberServer.closedKill s i a).srv.wfd.length = s.srv.wfd.length - 1 :=
    Uint32.pred_of_pos (Nat.zero_lt_of_lt hi)
  have hstays : ∀ {g}, Gone s g → Gone (FiberServer.closedKill s i a) g := by
    intro g hg
    rcases hg.of_running (by simp [hpc]) with hdead | ⟨j, hj, hne⟩
    · exact Or.inl hdead
    · rw [hpc] at hj
      obtain rfl := Option.some.inj hj
      refine Or.inr (Or.inr (Or.inr ⟨i + 1, rfl, fun m hm hlt => hne m hm ?_⟩))
      omega
  refine ⟨shut ++ [k], hshut.close hd hk, fun j hj => ?_, trivial⟩
  rcases List.mem_append.mp hj with hj | hj
  · exact hstays (h.gone j hj)
  · exact List.mem_singleton.mp hj ▸ hstays hgone

/-- **Every step keeps the descriptors in order.** -/
theorem Settled.step (h : Settled created closed s) (hinv : Inv created s)
    (hstep : Step phr s a t) :
    Settled (addDescriptor created a) (closed ++ closings [a]) t := by
  obtain ⟨shut, hshut, hkept⟩ := h
  rw [Step] at hstep
  have hquiet : closings [a] = [] → Kept (addDescriptor created a) shut t →
      Settled (addDescriptor created a) (closed ++ closings [a]) t := by
    intro hnone ht
    rw [hnone, List.append_nil]
    exact ⟨shut, hshut.append _, ht⟩
  cases a with
  | tau =>
    refine hquiet rfl ?_
    rw [addDescriptor_of_none rfl]
    exact hkept.tauStep hstep
  | resume f d resumed =>
    refine hquiet rfl ?_
    rw [addDescriptor_of_none rfl]
    exact hkept.resumeStep hinv hstep
  | call c b =>
    obtain ⟨hc, ht⟩ := Option.ite_none_right_eq_some.mp hstep
    obtain rfl := Option.some.inj ht
    rw [answered] at hquiet ⊢
    cases hpc : s.pc <;> rw [Program.call, hpc] at hc <;> rw [hpc] at hquiet <;>
      dsimp only at hc hquiet ⊢
    case sweep | resume | kill | exited | aborted | stray => cases hc
    all_goals obtain rfl := Option.some.inj hc
    case accept site f => exact hquiet rfl (hkept.accepted hshut hpc hinv b _)
    case listen =>
      refine hquiet rfl ?_
      rw [Inv, hpc] at hinv
      obtain ⟨-, -, rfl, -⟩ := hinv
      refine ⟨fun k hk => absurd (hshut.lt k hk) (Nat.not_lt_zero k), ?_⟩
      rw [listened]
      split
      · exact closing_nextRound _
      · exact trivial
      · exact trivial
    case poll =>
      refine hquiet rfl ?_
      rw [addDescriptor_of_none rfl]
      exact hkept.polled hpc b
    all_goals rw [addDescriptor_of_none rfl] at hquiet ⊢
    all_goals rw [Inv, hpc] at hinv
    case recv site f =>
      exact hquiet rfl (hkept.reaches (hinv.atEntry (Or.inr (Or.inl hpc))) (reaches_received b))
    case send site f rc =>
      exact hquiet rfl
        (hkept.reaches (hinv.atEntry (Or.inr (Or.inr ⟨rc, hpc⟩))) (reaches_sent rc b))
    case closeDone i d failed => exact Settled.closedDone hshut hkept hpc b
    case closeKill i => exact Settled.closedKill hshut hkept hpc hinv.2.1 b

/-! ### Runs -/

theorem Runs.settled (h : Runs phr l s) : Settled (descriptors l) (closings l) s := by
  have hstart : Settled [] [] .start :=
    ⟨[], ⟨List.nodup_nil, by simp, rfl⟩, by simp, trivial⟩
  have hboth := Lts.Steps.invariant_labels
    (P := fun l s => Inv (descriptors l) s ∧ Settled (descriptors l) (closings l) s)
    (fun l s a t hinv hstep => by
      have hsnoc : descriptors (l ++ [a]) = addDescriptor (descriptors l) a :=
        List.foldl_concat _ _ _ _
      rw [closings_snoc, hsnoc]
      exact ⟨hinv.1.step hstep, hinv.2.step hinv.1 hstep⟩) h (m := []) ⟨inv_start, hstart⟩
  exact hboth.2

/-- **What the program names to the host** has a number that was not closed, or is the kill
signal. -/
theorem Kept.uses (h : Kept created shut s) (hinv : Inv created s) {c : Call}
    (hc : s.call = some c) :
    ∀ d ∈ c.uses, d = FIBER_KILL_SIGNAL ∨ ∃ k, created[k]? = some d ∧ k ∉ shut := by
  have hfiber : ∀ {site f}, (s.pc = .accept site f ∨ s.pc = .recv site f ∨
      ∃ rc, s.pc = .send site f rc) →
      InFiber created s.frames s.srv.table s.pollfdSize s.srv.fd site f →
      s.srv.fd = FIBER_KILL_SIGNAL ∨ ∃ k, created[k]? = some s.srv.fd ∧ k ∉ shut := by
    intro site f hpc hin
    have hentry := hin.atEntry hpc
    cases site with
    | sweep i =>
      have hfd : s.srv.fd = (s.srv.wfd.fds i).fd := hin.atSite.2.2.1
      rw [hfd]
      exact Or.inr ⟨f - 1, hentry.number.2.1, hentry.notMem h⟩
    | kill i => exact Or.inl hin.atSite.2.2
  rw [Program.call] at hc
  split at hc <;> rename_i hpc <;> cases hc <;> rw [Inv, hpc] at hinv
  · exact fun d hd => absurd hd List.not_mem_nil
  · obtain ⟨hfrom, -⟩ := hinv
    intro d hd
    obtain ⟨e, he, rfl⟩ := List.mem_map.mp hd
    obtain ⟨k, hk, rfl⟩ := List.mem_map.mp he
    have hok := hfrom.order.ok k ⟨Nat.zero_le k, List.mem_range.mp hk⟩
      (hfrom.noHole k (Nat.zero_le k) (List.mem_range.mp hk))
    refine Or.inr ⟨_, hok.created_eq, fun hmem => ?_⟩
    have hdead := (h.gone _ hmem).dead (by rw [hpc]; rfl) (by simp [hpc])
    rw [Nat.sub_add_cancel hok.pos] at hdead
    exact hdead hok.alive
  · exact List.forall_mem_singleton.mpr (hfiber (Or.inl hpc) hinv.1)
  · exact List.forall_mem_singleton.mpr (hfiber (Or.inr (Or.inl hpc)) hinv)
  · exact List.forall_mem_singleton.mpr (hfiber (Or.inr (Or.inr ⟨_, hpc⟩)) hinv)
  · have hclosing := h.closing
    rw [Closing, hpc] at hclosing
    obtain ⟨k, hd, hk, -⟩ := hclosing
    exact List.forall_mem_singleton.mpr (Or.inr ⟨k, hd, hk⟩)
  · have hclosing := h.closing
    rw [Closing, hpc] at hclosing
    obtain ⟨k, hd, hk, -⟩ := hclosing
    exact List.forall_mem_singleton.mpr (Or.inr ⟨k, hd, hk⟩)

/-- A client closes its connection, after which its descriptor is about to be closed. -/
def hungUpClient : List Label :=
  oneClient ++
    [.resume 2 5 true, .call (.recv 5 Http.BUFFER_SIZE) (plainAnswer 0 0 fun _ => 0)]

end FiberServer

open FiberServer

/-- **The server names no closed descriptor.** In every run each descriptor it names to the
host – to poll it, to accept on it, to receive, send or close – is open at that time, or is
the kill signal, which the host never opens; and what it has closed was opened, each as often
at least. -/
theorem fiberServer_usesOpen (phr : Http.Parser) (l : List Http.Label) (s : FiberServer.Program)
    (h : FiberServer.Runs phr l s) :
    (∀ l₁ a l₂, l = l₁ ++ a :: l₂ → ∀ d ∈ a.uses, d = FIBER_KILL_SIGNAL ∨ IsOpen l₁ d) ∧
      (closings l).Subperm (descriptors l) := by
  constructor
  · rintro l₁ a l₂ rfl d hd
    obtain ⟨u, u', hu, hstep, -⟩ := Lts.Steps.split_cons h
    obtain ⟨shut, hshut, hkept⟩ := Runs.settled hu
    cases a with
    | tau | resume => cases hd
    | call c b =>
      obtain ⟨hc, -⟩ := Option.ite_none_right_eq_some.mp hstep
      refine (hkept.uses (Runs.inv hu) hc d hd).imp_right fun ⟨k, hk, hnot⟩ => ?_
      rw [FiberServer.IsOpen, hshut.closed_eq]
      exact Ledger.count_lt_of_notMem hshut.nodup hshut.lt hnot hk
  · obtain ⟨shut, hshut, -⟩ := Runs.settled h
    rw [hshut.closed_eq]
    exact Ledger.numbered_subperm hshut.nodup hshut.lt

/-- The descriptor of a client is open until it is closed. -/
theorem fiberServer_usesOpen_oneClient :
    ∃ s, FiberServer.Runs (fun _ => ⟨-1, none, 0, 1⟩)
        (hungUpClient ++ [.call (.close 5) (plainAnswer 0 0 fun _ => 0)]) s ∧
      IsOpen hungUpClient 5 ∧ ¬IsOpen (hungUpClient ++
        [.call (.close 5) (plainAnswer 0 0 fun _ => 0)]) 5 := by
  obtain ⟨s, hs, -⟩ : ∃ s ∈ Lts.exec (FiberServer.step fun _ => ⟨-1, none, 0, 1⟩) .start
      (hungUpClient ++ [.call (.close 5) (plainAnswer 0 0 fun _ => 0)]), s.pc = .sweep 2 := by
    decide +kernel
  have hrun := runs_of_exec hs
  refine ⟨s, hrun, ?_, by rw [FiberServer.IsOpen]; decide +kernel⟩
  have hopen := (fiberServer_usesOpen _ _ s hrun).1 hungUpClient _ [] rfl 5 List.mem_cons_self
  exact hopen.resolve_left (by decide)

end Waeio
