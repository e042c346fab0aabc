import Waeio.FiberServer.Invariant

/-!
# The clean-up

When the request loop has ended, `main` goes through the table once more, resumes the fiber
of each entry with the kill signal, closes its descriptor, and decrements `wfd.length` – the
very bound of the loop. So the loop comes to a stop half-way
(`Waeio.FiberServer.Cleaning.exited`): of `n` entries it has then taken care of the first
`(n + 1) / 2`, and `n / 2` are left.

The clean-up always ends (`Waeio.FiberServer.cleaning_decreases`): a fiber that is resumed
with `end_server` set makes at most one receive and one send, and yields or returns.
-/

namespace Waeio

namespace FiberServer

open HostPoll
open Http (Call Answer Label Site Pc Frame Parser)

/-- The fibers that are resumed with the kill signal, in order. -/
def signalled (l : List Label) : List ℕ :=
  l.filterMap fun
    | .resume f fd _ => if fd = FIBER_KILL_SIGNAL then some f else none
    | _ => none

/-- The descriptors that are closed, in order. -/
def closings (l : List Label) : List ℤ :=
  l.filterMap fun
    | .call (.close fd) _ => some fd
    | _ => none

/-- **The clean-up of `s` has reached every connection** when it ends in `t` after the steps
`l`: each of the fibers in the table was resumed once with the kill signal, each of the
descriptors closed once, and the table is empty. -/
structure CleanedUp (s : Program) (l : List Label) (t : Program) : Prop where
  killed : ∀ i < s.srv.wfd.length, (signalled l).count (s.srv.fibers i).fiber = 1
  closed : ∀ i < s.srv.wfd.length, (closings l).count (s.srv.wfd.fds i).fd = 1
  empty : t.srv.wfd.length = 0

/-- **The clean-up is complete**: it comes to an end, whatever the host and the fiber library
do, and when it has ended it has reached every connection. -/
def CleansUp (phr : Parser) (s : Program) : Prop :=
  ∃ bound, ∀ l t, Lts.Steps (Step phr) s l t → l.length ≤ bound ∧
    ((∀ a u, ¬ Step phr t a u) → t.pc = .exited ∧ CleanedUp s l t)

/-! ### How far it has come -/

/-- The clean-up of `s₀` after the labels `l`, with `k` fibers resumed and `c` descriptors
closed. -/
structure Cleaning (s₀ : Program) (l : List Label) (k c : ℕ) (t : Program) : Prop where
  fds : t.srv.wfd.fds = s₀.srv.wfd.fds
  fibers : t.srv.fibers = s₀.srv.fibers
  length : t.srv.wfd.length + c = s₀.srv.wfd.length
  ends : t.srv.endServer = true
  killed : signalled l = (List.range k).map fun j => (s₀.srv.fibers j).fiber
  closed : closings l = (List.range c).map fun j => (s₀.srv.wfd.fds j).fd

/-- **The clean-up, by the point it is at.** -/
def CleanUp (s₀ : Program) (l : List Label) (t : Program) : Prop :=
  match t.pc with
  | .kill i => Cleaning s₀ l i i t ∧ 2 * i ≤ s₀.srv.wfd.length + 1
  | .resume (.kill i) =>
    Cleaning s₀ l i i t ∧ 2 * i < s₀.srv.wfd.length ∧ t.srv.fd = FIBER_KILL_SIGNAL
  | .recv (.kill i) _ | .send (.kill i) _ _ | .closeKill i =>
    Cleaning s₀ l (i + 1) i t ∧ 2 * i < s₀.srv.wfd.length
  | .exited => ∃ i, Cleaning s₀ l i i t ∧ 2 * i ≤ s₀.srv.wfd.length + 1 ∧ s₀.srv.wfd.length ≤ 2 * i
  | _ => False

section Steps

variable {phr : Parser} {s₀ s t : Program} {l l₀ : List Label} {created : List ℤ} {i k c f : ℕ}
  {fd : ℤ} {a : Label} {site : Site} {x : Call}

theorem signalled_snoc (l : List Label) (a : Label) :
    signalled (l ++ [a]) = signalled l ++ signalled [a] := List.filterMap_append

theorem closings_snoc (l : List Label) (a : Label) :
    closings (l ++ [a]) = closings l ++ closings [a] := List.filterMap_append

/-- A step that neither resumes nor closes. -/
theorem Cleaning.quiet (h : Cleaning s₀ l k c s) (hk : signalled [a] = []) (hc : closings [a] = [])
    (hwfd : t.srv.wfd = s.srv.wfd) (hfibers : t.srv.fibers = s.srv.fibers)
    (hends : t.srv.endServer = true) : Cleaning s₀ (l ++ [a]) k c t where
  fds := by rw [hwfd, h.fds]
  fibers := by rw [hfibers, h.fibers]
  length := by rw [hwfd, h.length]
  ends := hends
  killed := by rw [signalled_snoc, hk, List.append_nil, h.killed]
  closed := by rw [closings_snoc, hc, List.append_nil, h.closed]

/-- The rest of the program does not matter. -/
theorem Cleaning.congr (h : Cleaning s₀ l k c s) (hwfd : t.srv.wfd = s.srv.wfd)
    (hfibers : t.srv.fibers = s.srv.fibers) (hends : t.srv.endServer = true) :
    Cleaning s₀ l k c t :=
  ⟨by rw [hwfd, h.fds], by rw [hfibers, h.fibers], by rw [hwfd, h.length], hends, h.killed,
    h.closed⟩

/-- The fiber of the next entry is resumed. -/
theorem Cleaning.resumed (h : Cleaning s₀ l k c s)
    (hk : signalled [a] = [(s.srv.fibers k).fiber]) (hc : closings [a] = [])
    (hwfd : t.srv.wfd = s.srv.wfd) (hfibers : t.srv.fibers = s.srv.fibers)
    (hends : t.srv.endServer = true) : Cleaning s₀ (l ++ [a]) (k + 1) c t where
  fds := by rw [hwfd, h.fds]
  fibers := by rw [hfibers, h.fibers]
  length := by rw [hwfd, h.length]
  ends := hends
  killed := by
    rw [signalled_snoc, hk, h.killed, h.fibers, List.range_succ, List.map_append]
    rfl
  closed := by rw [closings_snoc, hc, List.append_nil, h.closed]

/-- The descriptor of the next entry is closed. -/
theorem Cleaning.closing (h : Cleaning s₀ l k c s) (hc : c < s₀.srv.wfd.length)
    (b : Answer) : Cleaning s₀ (l ++ [.call (.close (s.srv.wfd.fds c).fd) b]) k (c + 1)
      (closedKill s c b) where
  fds := h.fds
  fibers := h.fibers
  length := by
    have hlen := h.length
    change Uint32.pred s.srv.wfd.length + (c + 1) = _
    rw [Uint32.pred_of_pos (by omega)]
    omega
  ends := h.ends
  killed := by rw [signalled_snoc, show signalled [.call _ b] = [] from rfl, List.append_nil,
    h.killed]
  closed := by
    rw [closings_snoc, h.closed, h.fds, List.range_succ, List.map_append]
    rfl

/-- How many steps are left, at most. -/
def remaining (n : ℕ) (t : Program) : ℕ :=
  match t.pc with
  | .kill i => 5 * (n - i) + 1
  | .resume (.kill i) => 5 * (n - i)
  | .recv (.kill i) _ => 5 * (n - i) - 1
  | .send (.kill i) _ _ => 5 * (n - i) - 2
  | .closeKill i => 5 * (n - i) - 3
  | _ => 0

/-- The clean-up goes on, with fewer steps left. -/
def Advances (s₀ : Program) (l : List Label) (s t : Program) : Prop :=
  CleanUp s₀ l t ∧ remaining s₀.srv.wfd.length t < remaining s₀.srv.wfd.length s

/-- **The loop of the clean-up**: there are no holes, so it comes to a fiber or to its end. -/
theorem cleanUp_tau (hpc : s.pc = .kill i) (h : CleanUp s₀ l s) (hinv : Inv created s)
    (hstep : tauStep s = some t) : Advances s₀ (l ++ [.tau]) s t := by
  unfold CleanUp at h
  unfold Inv at hinv
  unfold tauStep at hstep
  rw [hpc] at h hinv hstep
  obtain ⟨hc, hi⟩ := h
  have hlen := hc.length
  dsimp only at hstep
  split_ifs at hstep with hlt hfd
  · have hhole : (s.srv.cell i).isHole = false := hinv.1.noHole i le_rfl hlt
    rw [isHole_cell.mpr hfd] at hhole
    cases hhole
  · obtain rfl := Option.some.inj hstep
    refine ⟨⟨hc.quiet rfl rfl rfl rfl hc.ends, by omega, rfl⟩, ?_⟩
    simp only [remaining, hpc]
    omega
  · obtain rfl := Option.some.inj hstep
    refine ⟨⟨i, hc.quiet rfl rfl rfl rfl hc.ends, hi, by omega⟩, ?_⟩
    simp only [remaining, hpc]
    omega

/-- A fiber stops, and its descriptor is closed next. -/
theorem advances_back (h : Cleaning s₀ l (i + 1) i t) (hi : 2 * i < s₀.srv.wfd.length)
    (hs : 5 * (s₀.srv.wfd.length - i) - 2 ≤ remaining s₀.srv.wfd.length s)
    (status : Scheduler.FiberStatus) (f : ℕ) (frame : Frame) :
    Advances s₀ l s (back status (t.setFrame f frame) (.kill i)) := by
  refine ⟨⟨⟨h.fds, h.fibers, h.length, h.ends, h.killed, h.closed⟩, hi⟩, ?_⟩
  change 5 * (s₀.srv.wfd.length - i) - 3 < _
  omega

/-- The listener returns at once. -/
theorem enterListener_of_killed (hfd : s.srv.fd = FIBER_KILL_SIGNAL) (site : Site) (f : ℕ)
    (frame : Frame) :
    enterListener site f frame s = returns site f s ∨
      enterListener site f frame s = returns site f { s with newFd := -1 } := by
  cases frame <;> simp [enterListener, listenerLoop, hfd]

/-- **`fiber_resume`** of a fiber that is alive. -/
theorem resumeStep_cases {resumed : Bool} (hpc : s.pc = .resume site)
    (hlive : s.Live (s.srv.fibers site.index).fiber) (hstep : resumeStep s f fd resumed = some t) :
    f = (s.srv.fibers site.index).fiber ∧ fd = s.srv.fd ∧
      ∃ u : Program, u.srv = s.srv.emit (.resume f fd) ∧
        (t = back .error (u.setFrame f .finished) site ∨
          t = enterListener site f (s.frames f) (u.setFrame f .running) ∨
          t = enterConnection site f (s.frames f) (u.setFrame f .running)) := by
  rw [resumeStep] at hstep
  split at hstep
  swap
  · cases hstep
  rename_i site' hpc'
  obtain rfl : site' = site := Pc.resume.inj (hpc'.symm.trans hpc)
  obtain ⟨⟨hf, hfd⟩, hstep⟩ := Option.ite_none_right_eq_some.mp hstep
  have hlive' : Program.Live { s with srv := s.srv.emit (.resume f fd) } f := hf ▸ hlive
  dsimp only at hstep
  rw [if_pos hlive'] at hstep
  refine ⟨hf, hfd, { s with srv := s.srv.emit (.resume f fd) }, rfl, ?_⟩
  split_ifs at hstep with hresumed hlisten
  · exact Or.inr (Or.inl (Option.some.inj hstep).symm)
  · exact Or.inr (Or.inr (Option.some.inj hstep).symm)
  · exact Or.inl (Option.some.inj hstep).symm

/-- **`fiber_resume` in the clean-up**: the fiber there is alive, whatever it does. -/
theorem cleanUp_resume (hpc : s.pc = .resume (.kill i)) (h : CleanUp s₀ l s)
    (hinv : Inv created s) {resumed : Bool} (hstep : resumeStep s f fd resumed = some t) :
    Advances s₀ (l ++ [.resume f fd resumed]) s t := by
  unfold CleanUp at h
  unfold Inv at hinv
  rw [hpc] at h hinv
  obtain ⟨hc, hi, hkill⟩ := h
  obtain ⟨hf, hfd, u, hu, ht⟩ := resumeStep_cases hpc (hinv.1.live hinv.2) hstep
  have hsignal : signalled [.resume f fd resumed] = [(s.srv.fibers i).fiber] := by
    simp [signalled, hf, hfd, hkill, Site.index]
  have hresumed (v : Program) (hv : v.srv = u.srv) :
      Cleaning s₀ (l ++ [.resume f fd resumed]) (i + 1) i v := by
    have hsrv : v.srv = s.srv.emit (.resume f fd) := hv.trans hu
    refine hc.resumed hsignal rfl ?_ ?_ ?_ <;> rw [hsrv]
    · rfl
    · rfl
    · exact hc.ends
  have hs : 5 * (s₀.srv.wfd.length - i) - 2 ≤ remaining s₀.srv.wfd.length s := by
    simp only [remaining, hpc]
    omega
  have hkilled : (u.setFrame f .running).srv.fd = FIBER_KILL_SIGNAL :=
    (congrArg Server.fd hu).trans hkill
  rcases ht with rfl | rfl | rfl
  · exact advances_back (hresumed u rfl) hi hs _ _ _
  · rcases enterListener_of_killed hkilled (.kill i) f (s.frames f) with heq | heq <;>
      rw [heq] <;> exact advances_back (hresumed _ (by rfl)) hi hs _ _ _
  · have hreceive : Advances s₀ (l ++ [.resume f fd resumed]) s
        (receive (.kill i) f (u.setFrame f .running)) := by
      refine ⟨⟨hresumed (receive (.kill i) f (u.setFrame f .running)) rfl, hi⟩, ?_⟩
      simp only [remaining, receive, hpc]
      omega
    cases s.frames f with
    | fresh => exact hreceive
    | full | again | running | finished | freed =>
      simp only [enterConnection, hkilled, if_true]
      exact advances_back (hresumed (u.setFrame f .running) rfl) hi hs _ _ _

/-- A fiber that has received goes on to send, or returns. -/
theorem advances_respond (h : Cleaning s₀ l (i + 1) i t) (hi : 2 * i < s₀.srv.wfd.length)
    (hs : 5 * (s₀.srv.wfd.length - i) - 1 ≤ remaining s₀.srv.wfd.length s) (now : Http.Tm) :
    Advances s₀ l s (respond phr now (.kill i) f t) := by
  have hends (quit : Bool) : (t.srv.endServer || quit) = true := by rw [h.ends, Bool.true_or]
  rw [respond]
  obtain ⟨globals, quit, _ | rc⟩ := Http.answer phr now t.globals
  · have hc : Cleaning s₀ l (i + 1) i { t with
        globals := globals, srv := { t.srv with endServer := t.srv.endServer || quit } } :=
      h.congr rfl rfl (hends quit)
    exact advances_back hc hi (by omega) _ _ _
  · refine ⟨⟨h.congr rfl rfl (hends quit), hi⟩, ?_⟩
    change 5 * (s₀.srv.wfd.length - i) - 2 < _
    omega

/-- **A fiber that receives**: it goes on to send, or stops. -/
theorem cleanUp_recv (hpc : s.pc = .recv (.kill i) f) (h : CleanUp s₀ l s) (d : ℤ) (n : ℕ)
    (b : Answer) :
    Advances s₀ (l ++ [.call (.recv d n) b]) s (received phr s (.kill i) f b) := by
  unfold CleanUp at h
  rw [hpc] at h
  obtain ⟨hc, hi⟩ := h
  have hs : 5 * (s₀.srv.wfd.length - i) - 2 ≤ remaining s₀.srv.wfd.length s := by
    simp only [remaining, hpc]
    omega
  have hquiet (u : Program) (hwfd : u.srv.wfd = s.srv.wfd) (hfibers : u.srv.fibers = s.srv.fibers)
      (hends : u.srv.endServer = true) :
      Cleaning s₀ (l ++ [.call (.recv d n) b]) (i + 1) i u :=
    hc.quiet rfl rfl hwfd hfibers hends
  rw [received, wasioRecv]
  split_ifs with hzero hneg
  · exact advances_back (hquiet { s with srv := s.srv.emit _ } rfl rfl hc.ends) hi hs _ _ _
  · rw [translateError]
    split_ifs
    · exact advances_back (hquiet { s with srv := s.srv.emit _ } rfl rfl hc.ends) hi hs _ _ _
    · exact advances_back (hquiet { s with srv := s.srv.emit _ } rfl rfl hc.ends) hi hs _ _ _
  · have hpos : 0 < b.ret.toNat := by omega
    dsimp only
    rw [if_pos hpos]
    have hreceived := hquiet { s with
      srv := s.srv.emit (.call (.recv s.srv.fd Http.BUFFER_SIZE))
      globals := s.globals.received (b.received Http.BUFFER_SIZE)
      nbytes := b.ret.toNat } rfl rfl hc.ends
    refine advances_respond hreceived hi ?_ _
    simp only [remaining, hpc]
    omega

/-- **A fiber that sends** stops afterwards, for the server is to end. -/
theorem cleanUp_send {rc : ℕ} (hpc : s.pc = .send (.kill i) f rc) (h : CleanUp s₀ l s) (d : ℤ)
    (data : List UInt8) (b : Answer) :
    Advances s₀ (l ++ [.call (.send d data) b]) s (sent s (.kill i) f rc b) := by
  unfold CleanUp at h
  rw [hpc] at h
  obtain ⟨hc, hi⟩ := h
  have hends : s.srv.endServer = true := hc.ends
  have hs : 5 * (s₀.srv.wfd.length - i) - 2 ≤ remaining s₀.srv.wfd.length s := by
    simp only [remaining, hpc]
    omega
  rw [sent]
  dsimp only
  rw [if_pos (show (s.srv.emit _).endServer = true from hends)]
  have hsent : Cleaning s₀ (l ++ [.call (.send d data) b]) (i + 1) i { s with
      srv := s.srv.emit (.call (wasioSend s.srv.fd rc b.toHostAnswer).call)
      nbytes := (wasioSend s.srv.fd rc b.toHostAnswer).count.getD s.nbytes } :=
    hc.quiet rfl rfl rfl rfl hends
  exact advances_back hsent hi hs _ _ _

/-- **The close of the next descriptor.** -/
theorem cleanUp_close (hpc : s.pc = .closeKill i) (h : CleanUp s₀ l s) (b : Answer) :
    Advances s₀ (l ++ [.call (.close (s.srv.wfd.fds i).fd) b]) s (closedKill s i b) := by
  unfold CleanUp at h
  rw [hpc] at h
  obtain ⟨hc, hi⟩ := h
  refine ⟨⟨hc.closing (by omega) b, by omega⟩, ?_⟩
  simp only [remaining, closedKill, hpc]
  omega

/-- **Every step of the clean-up advances it.** -/
theorem CleanUp.step (h : CleanUp s₀ l s) (hinv : Inv created s) (hstep : Step phr s a t) :
    Advances s₀ (l ++ [a]) s t := by
  rw [Step] at hstep
  have hpoint := h
  unfold CleanUp at hpoint
  cases a with
  | tau =>
    have htau := hstep
    rw [FiberServer.step, tauStep] at htau
    split at htau
    · rename_i i hpc
      rw [hpc] at hpoint
      exact hpoint.elim
    · rename_i i hpc
      exact cleanUp_tau hpc h hinv hstep
    · cases htau
  | resume f fd resumed =>
    have hres := hstep
    rw [FiberServer.step, resumeStep] at hres
    split at hres
    swap
    · cases hres
    rename_i site hpc
    cases site with
    | sweep i =>
      rw [hpc] at hpoint
      exact hpoint.elim
    | kill i => exact cleanUp_resume hpc h hinv hstep
  | call x b =>
    obtain ⟨hx, ht⟩ := Option.ite_none_right_eq_some.mp hstep
    obtain rfl := Option.some.inj ht
    rw [answered]
    cases hpc : s.pc <;> rw [Program.call, hpc] at hx <;> rw [hpc] at hpoint <;>
      dsimp only at hx hpoint ⊢
    case resume | kill | exited => cases hx
    all_goals obtain rfl := Option.some.inj hx
    case recv site f =>
      cases site with
      | sweep i => exact hpoint.elim
      | kill i => exact cleanUp_recv hpc h _ _ b
    case send site f rc =>
      cases site with
      | sweep i => exact hpoint.elim
      | kill i => exact cleanUp_send hpc h _ _ b
    case closeKill i => exact cleanUp_close hpc h b

/-! ### Its beginning and its end -/

/-- The clean-up begins when the server is to end. -/
def EndsFirst (s : Program) : Prop := s.pc = .kill 0 → s.srv.endServer = true

theorem endsFirst_nextRound (s : Program) : EndsFirst (nextRound s) := by
  rw [EndsFirst, nextRound]
  split_ifs with hends
  · exact fun _ => hends
  · rintro ⟨⟩

theorem endsFirst_plain (s : Program) (h : Plain s.pc) : EndsFirst s := by
  intro hpc
  rw [hpc] at h
  exact h.elim

theorem endsFirst_back (status : Scheduler.FiberStatus) : EndsFirst (back status s site) :=
  lands_back endsFirst_plain status

theorem endsFirst_received (b : Answer) : EndsFirst (received phr s site f b) := by
  rw [received]
  split
  · dsimp only
    split_ifs
    · rw [respond]
      dsimp only
      split
      · rintro ⟨⟩
      · exact endsFirst_back _
    · rintro ⟨⟩
  · exact endsFirst_back _
  · exact endsFirst_back _

theorem EndsFirst.step (hstep : Step phr s a t) : EndsFirst t := by
  by_cases hrecv : ∃ site f, s.pc = .recv site f
  · obtain ⟨site, f, hpc⟩ := hrecv
    obtain ⟨b, -, rfl⟩ := step_of_recv hpc hstep
    exact endsFirst_received b
  · exact lands_step endsFirst_nextRound (fun _ _ _ => nofun) endsFirst_plain hstep
      fun site f hpc => hrecv ⟨site, f, hpc⟩

theorem Runs.endsFirst (h : Runs phr l s) : EndsFirst s :=
  h.invariant (fun _ _ _ _ hstep => EndsFirst.step hstep) nofun

/-- Nothing is cleaned up yet. -/
theorem cleanUp_start (h : Runs phr l s) (hpc : s.pc = .kill 0) : CleanUp s [] s := by
  rw [CleanUp, hpc]
  exact ⟨⟨rfl, rfl, rfl, h.endsFirst hpc, rfl, rfl⟩, by omega⟩

/-- **A clean-up that has ended** has stopped half-way. -/
theorem CleanUp.exited (h : CleanUp s₀ l s) (hpc : s.pc = .exited) :
    Cleaning s₀ l ((s₀.srv.wfd.length + 1) / 2) ((s₀.srv.wfd.length + 1) / 2) s := by
  rw [CleanUp, hpc] at h
  obtain ⟨i, hc, hle, hge⟩ := h
  have hi : i = (s₀.srv.wfd.length + 1) / 2 := by omega
  rwa [← hi]

/-- **A clean-up only stops at its end.** -/
theorem CleanUp.exited_of_stuck (h : CleanUp s₀ l s)
    (hstuck : ∀ a u, ¬ Step phr s a u) : s.pc = .exited := by
  have hcall (x : Call) (hx : s.call = some x) : False :=
    hstuck (.call x (plainAnswer 0 0 fun _ => 0)) _ (by rw [Step, FiberServer.step, if_pos hx])
  unfold CleanUp at h
  split at h
  · rename_i i hpc
    refine (Option.ne_none_iff_exists'.mp ?_).elim fun u hu => absurd hu (hstuck .tau u)
    rw [FiberServer.step, tauStep, hpc]
    dsimp only
    split_ifs <;> exact Option.some_ne_none _
  · rename_i i hpc
    refine (Option.ne_none_iff_exists'.mp ?_).elim fun u hu =>
      absurd hu (hstuck (.resume (s.srv.fibers i).fiber s.srv.fd false) u)
    rw [FiberServer.step, resumeStep, hpc]
    dsimp only [Site.index]
    split_ifs with hsame <;> first | exact Option.some_ne_none _ | exact (hsame ⟨rfl, rfl⟩).elim
  · rename_i hpc
    exact (hcall _ (by rw [Program.call, hpc])).elim
  · rename_i hpc
    exact (hcall _ (by rw [Program.call, hpc])).elim
  · rename_i hpc
    exact (hcall _ (by rw [Program.call, hpc])).elim
  · assumption
  · exact h.elim

/-- The clean-up, and the invariant of the program. -/
def CleansFrom (s₀ : Program) (l : List Label) (s : Program) : Prop :=
  CleanUp s₀ l s ∧ ∃ created, Inv created s

theorem CleansFrom.step (h : CleansFrom s₀ l s) (hstep : Step phr s a t) :
    CleansFrom s₀ (l ++ [a]) t ∧
      remaining s₀.srv.wfd.length t < remaining s₀.srv.wfd.length s := by
  obtain ⟨hclean, created, hinv⟩ := h
  obtain ⟨hnext, hlt⟩ := hclean.step hinv hstep
  exact ⟨⟨hnext, _, hinv.step hstep⟩, hlt⟩

theorem CleansFrom.steps (h : CleansFrom s₀ [] s₀) (hl : Lts.Steps (Step phr) s₀ l s) :
    CleansFrom s₀ l s :=
  hl.invariant_labels (P := CleansFrom s₀) (fun _ _ _ _ hfrom hstep => (hfrom.step hstep).1) h

/-- The measure, for all the labels there may have been. -/
theorem cleansFrom_decreases (hs : ∃ l, CleansFrom s₀ l s) (hstep : Step phr s a t) :
    (∃ l, CleansFrom s₀ l t) ∧ remaining s₀.srv.wfd.length t < remaining s₀.srv.wfd.length s := by
  obtain ⟨l, hl⟩ := hs
  obtain ⟨hnext, hlt⟩ := hl.step hstep
  exact ⟨⟨_, hnext⟩, hlt⟩

end Steps

/-- **Half of the entries are left**, and none only where there was at most one. -/
theorem cleanedUp_iff {s₀ s : Program} {l : List Label}
    (h : Cleaning s₀ l ((s₀.srv.wfd.length + 1) / 2) ((s₀.srv.wfd.length + 1) / 2) s) :
    CleanedUp s₀ l s ↔ s₀.srv.wfd.length ≤ 1 := by
  have hlen := h.length
  constructor
  · intro hclean
    have hempty := hclean.empty
    omega
  · intro hle
    have hone : ∀ i < s₀.srv.wfd.length, i = 0 ∧ s₀.srv.wfd.length = 1 := by omega
    refine ⟨fun i hi => ?_, fun i hi => ?_, by omega⟩
    · obtain ⟨rfl, hone⟩ := hone i hi
      rw [h.killed, hone]
      simp
    · obtain ⟨rfl, hone⟩ := hone i hi
      rw [h.closed, hone]
      simp

/-! ### Two entries -/

/-- A clean-up that leaves an entry behind. -/
theorem not_cleansUp {phr : Parser} {s t : Program} {l : List Label}
    (hl : Lts.Steps (Step phr) s l t) (hpc : t.pc = .exited) (hlen : t.srv.wfd.length ≠ 0) :
    ¬ CleansUp phr s := by
  rintro ⟨bound, hall⟩
  have hstuck : ∀ a u, ¬ Step phr t a u := fun a u hstep => by
    rw [Step, step_of_ended (Or.inl hpc)] at hstep
    cases hstep
  exact hlen ((hall l t hl).2 hstuck).2.empty

/-- The server listens, and nothing happens until the poll times out. -/
def nobody : List Label :=
  [.call (.listen 8080 2048) (plainAnswer 4 0 fun _ => 0),
    .call (.poll [(4, POLLIN)] timeout) (plainAnswer 0 0 fun _ => 0)]

/-- One client connects, and nothing happens until the poll times out. -/
def oneSilentClient : List Label :=
  [.call (.listen 8080 2048) (plainAnswer 4 0 fun _ => 0),
    .call (.poll [(4, POLLIN)] timeout) (plainAnswer 1 0 fun _ => POLLIN),
    .tau, .resume 1 4 true,
    .call (.accept 4) (plainAnswer 5 0 fun _ => 0),
    .call (.accept 4) (plainAnswer (-1) HOST_EAGAIN fun _ => 0),
    .tau,
    .call (.poll [(4, POLLIN), (5, POLLIN)] timeout) (plainAnswer 0 0 fun _ => 0)]

/-- The clean-up after that: the listener is killed, and its descriptor closed. -/
def listenerKilled : List Label :=
  [.tau, .resume 1 FIBER_KILL_SIGNAL true, .call (.close 4) (plainAnswer 0 0 fun _ => 0), .tau]

/-- **The clean-up is not always complete**: it leaves a client that has connected, with its
fiber and its descriptor. -/
theorem not_fiberServer_cleansUp :
    ∃ s, FiberServer.Runs (fun _ => ⟨-1, none, 0, 1⟩) oneSilentClient s ∧ s.pc = .kill 0 ∧
      s.srv.wfd.length = 2 ∧ ¬ CleansUp (fun _ => ⟨-1, none, 0, 1⟩) s := by
  obtain ⟨s, hs, hpc, hlen, t, ht, hend, hleft⟩ :
      ∃ s ∈ Lts.exec (step fun _ => ⟨-1, none, 0, 1⟩) .start oneSilentClient,
        s.pc = .kill 0 ∧ s.srv.wfd.length = 2 ∧
          ∃ t ∈ Lts.exec (step fun _ => ⟨-1, none, 0, 1⟩) s listenerKilled,
            t.pc = .exited ∧ t.srv.wfd.length = 1 := by
    decide +kernel
  refine ⟨s, runs_of_exec hs, hpc, hlen, not_cleansUp (Lts.exec_eq_some_iff.mp ht) hend ?_⟩
  rw [hleft]
  exact one_ne_zero

end FiberServer

open FiberServer Http

/-- **When the clean-up is complete**: in every run, when the request loop has left at most
one entry. -/
theorem fiberServer_cleansUp_iff (phr : Parser) (l : List Label) (s : Program)
    (h : FiberServer.Runs phr l s) (hpc : s.pc = .kill 0) :
    CleansUp phr s ↔ s.srv.wfd.length ≤ 1 := by
  have hfrom : CleansFrom s [] s := ⟨cleanUp_start h hpc, _, h.inv⟩
  have hend {m : List Label} {t : Program} (hm : Lts.Steps (FiberServer.Step phr) s m t)
      (hstuck : ∀ a u, ¬ FiberServer.Step phr t a u) :
      t.pc = .exited ∧ (CleanedUp s m t ↔ s.srv.wfd.length ≤ 1) := by
    have hclean := (hfrom.steps hm).1
    have hexited := hclean.exited_of_stuck hstuck
    exact ⟨hexited, cleanedUp_iff (hclean.exited hexited)⟩
  have hdecreases : ∀ u a v, (∃ m, CleansFrom s m u) → FiberServer.Step phr u a v →
      (∃ m, CleansFrom s m v) ∧ remaining s.srv.wfd.length v < remaining s.srv.wfd.length u :=
    fun _ _ _ => cleansFrom_decreases
  constructor
  · rintro ⟨bound, hall⟩
    obtain ⟨m, t, hm, hstuck⟩ := Lts.exists_steps_stuck hdecreases ⟨[], hfrom⟩
    exact (hend hm hstuck).2.mp ((hall m t hm).2 hstuck).2
  · intro hle
    refine ⟨remaining s.srv.wfd.length s, fun m t hm => ⟨?_, fun hstuck => ?_⟩⟩
    · have hlen := hm.length_le hdecreases ⟨[], hfrom⟩
      omega
    · obtain ⟨hexited, hiff⟩ := hend hm hstuck
      exact ⟨hexited, hiff.mpr hle⟩

/-- Where there is only the listener. -/
theorem fiberServer_cleansUp_iff_nobody :
    ∃ s, FiberServer.Runs (fun _ => ⟨-1, none, 0, 1⟩) nobody s ∧ s.pc = .kill 0 ∧
      CleansUp (fun _ => ⟨-1, none, 0, 1⟩) s := by
  obtain ⟨s, hs, hpc, hlen⟩ :
      ∃ s ∈ Lts.exec (FiberServer.step fun _ => ⟨-1, none, 0, 1⟩) .start nobody,
        s.pc = .kill 0 ∧ s.srv.wfd.length = 1 := by
    decide +kernel
  exact ⟨s, runs_of_exec hs, hpc,
    (fiberServer_cleansUp_iff _ _ s (runs_of_exec hs) hpc).mpr hlen.le⟩

end Waeio
