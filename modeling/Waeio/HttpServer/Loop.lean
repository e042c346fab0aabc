import Waeio.HttpServer.Main

/-!
# The variables of `main`, and the listener

What the loop of `main` may rely on of the fibers: the table `fibers` has the listener and
nobody else, the closures in the queues are those of their fibers
(`Waeio.HttpServer.Main.Tabled`), and the listener goes on for as long as it is not told to
stop (`Waeio.HttpServer.Main.Listens`). A fiber that is resumed, or goes on with an answer of
the host, keeps both, and so does the end of a connection.
-/

namespace Waeio

namespace HttpServer

open FiberServer (FIBER_KILL_SIGNAL FiberClosure)
open Http (Answer)

/-! ### The code of the listener -/

/-- The listener can be resumed, and has not returned. -/
def Frame.Waiting : Frame → Prop
  | .fresh .listener | .space _ | .listening _ => True
  | _ => False

/-- The listener is in `w_accept`. -/
def Frame.Accepting : Frame → Prop
  | .running (.accept _ _) => True
  | _ => False

theorem Frame.Waiting.suspended {frame : Frame} (h : frame.Waiting) :
    frame.Suspended := by
  cases frame with
  | fresh | space | listening => trivial
  | _ => exact h.elim

variable {env : Env} {s t : Server} {f : ℕ} {fd arg : ℤ} {maxAccept : ℕ} {a : Answer}

/-- The listener goes on. -/
def Frame.Listens (frame : Frame) : Prop := frame.Waiting ∨ frame.Accepting

theorem listens_acceptMore : ((acceptMore f fd maxAccept s).frames f).Listens := by
  rw [acceptMore]
  split_ifs
  · exact Or.inr (by simp [Frame.Accepting])
  · exact Or.inl (by simp [Frame.Waiting])

theorem listens_listenerLoop : ((listenerLoop f fd s).frames f).Listens := by
  rw [listenerLoop]
  split_ifs
  · exact Or.inl (by simp [Frame.Waiting])
  · exact listens_acceptMore

theorem listens_resume (h : (s.frames f).Waiting) (harg : arg ≠ FIBER_KILL_SIGNAL) :
    ((resume env f arg s).frames f).Listens := by
  rw [resume]
  cases hframe : s.frames f with
  | fresh entry =>
    cases entry with
    | listener => exact listens_listenerLoop
    | handleConnection =>
      rw [hframe] at h
      exact h.elim
  | space fd | listening fd =>
    dsimp only
    rw [if_neg harg]
    exact listens_listenerLoop
  | _ =>
    rw [hframe] at h
    exact h.elim

theorem listens_answered (hs : InOrder s) (h : (s.frames f).Accepting)
    (hans : answered env f s a = some t) : (t.frames f).Listens := by
  rw [answered] at hans
  split at hans
  · rcases hs.accepted_cases hans with rfl | ⟨v, fl, u, -, -, rfl⟩
    · exact Or.inl (by simp [Frame.Waiting])
    · exact listens_acceptMore
  · next hframe =>
    rw [hframe] at h
    exact h.elim
  · next hframe =>
    rw [hframe] at h
    exact h.elim
  · cases hans

/-- A piece of the code of a fiber leaves the variables of `main` as they are. -/
theorem Goes.same {d : ℤ} (h : Goes f d s t) :
    t.wfd = s.wfd ∧ t.fibers = s.fibers ∧ t.frontq = s.frontq ∧ t.rearq = s.rearq ∧
      t.allocated = s.allocated ∧ t.descriptor = s.descriptor ∧
      ∀ g ≠ f, t.frames g = s.frames g := by
  cases h with
  | moves => exact ⟨rfl, rfl, rfl, rfl, rfl, rfl, fun g hg => s.frames_setFrame_of_ne hg _⟩
  | makes =>
    exact ⟨rfl, rfl, rfl, rfl, rfl, rfl, fun g hg => Server.frames_setFrame_of_ne _ hg _⟩

namespace Main

variable {env : Env} {s t : Server} {f : ℕ} {a : Answer}

/-! ### What holds in the loop -/

/-- **The variables of `main` in its loop**: the table has the listener only, and the
closures in the queues are those of their fibers. -/
structure Tabled (s : Server) : Prop where
  inOrder : InOrder s
  fiber_eq : ∀ v, (s.fibers v).fiber = if v = 0 then lfiber else 0
  fd_zero : (s.fibers 0).fd = 0
  descriptor_eq : s.descriptor lfiber = 0
  queued : ∀ clo ∈ s.frontq ++ s.rearq, clo.fiber ≤ s.allocated ∧ clo.fd = s.descriptor clo.fiber

/-- **The listener has not returned**, and runs only if it is the fiber `cur` that does. -/
def Listens (s : Server) (cur : Option ℕ) : Prop :=
  (s.frames lfiber).Waiting ∨ cur = some lfiber ∧ (s.frames lfiber).Accepting

theorem Listens.ne_freed {cur : Option ℕ} (h : Listens s cur) : s.frames lfiber ≠ .freed := by
  intro hfreed
  rw [Listens, hfreed] at h
  rcases h with h | ⟨-, h⟩ <;> exact h.elim

theorem Listens.waiting (h : Listens s none) : (s.frames lfiber).Waiting :=
  h.resolve_right fun h => absurd h.1 nofun

/-- A fiber other than the listener leaves it where it is. -/
theorem Listens.of_ne {cur : Option ℕ} (h : Listens s cur) (hcur : cur ≠ some lfiber)
    (hframe : t.frames lfiber = s.frames lfiber) (cur' : Option ℕ) : Listens t cur' :=
  Or.inl (hframe ▸ h.resolve_right fun h => hcur h.1)

/-- Only the fields that the invariant speaks of matter. -/
theorem Tabled.congr (h : Tabled s) (hin : InOrder t) (hfibers : t.fibers = s.fibers)
    (hdesc : t.descriptor = s.descriptor) (halloc : t.allocated = s.allocated)
    (hqueues : ∀ clo ∈ t.frontq ++ t.rearq, clo ∈ s.frontq ++ s.rearq ∨
      clo.fiber ≤ s.allocated ∧ clo.fd = s.descriptor clo.fiber) : Tabled t where
  inOrder := hin
  fiber_eq := by
    rw [hfibers]
    exact h.fiber_eq
  fd_zero := by
    rw [hfibers]
    exact h.fd_zero
  descriptor_eq := by
    rw [hdesc]
    exact h.descriptor_eq
  queued clo hclo := by
    rw [halloc, hdesc]
    exact (hqueues clo hclo).elim (h.queued clo) id

theorem Tabled.goes (h : Tabled s) (hf : s.frames f ≠ .freed)
    (hgo : Goes f (s.descriptor f) s t) : Tabled t := by
  obtain ⟨-, hfibers, hfront, hrear, halloc, hdesc, -⟩ := hgo.same
  refine h.congr (h.inOrder.goes hf hgo) hfibers hdesc halloc fun clo hclo => Or.inl ?_
  rwa [hfront, hrear] at hclo

theorem Tabled.connects {u : Server} (h : Tabled s) (hlisten : s.frames lfiber ≠ .freed)
    (hu : Connects s u) : Tabled u := by
  obtain ⟨v, hrear, hdesc⟩ := hu.rearq_eq
  have hkeep : ∀ g ≤ s.allocated, u.descriptor g = s.descriptor g := by
    intro g hg
    have hne : g ≠ u.allocated := by
      rw [hu.allocated_eq]
      omega
    rw [hdesc, Function.update_of_ne hne]
  refine ⟨hu.inOrder, ?_, ?_, ?_, fun clo hclo => ?_⟩
  · rw [hu.fibers_eq]
    exact h.fiber_eq
  · rw [hu.fibers_eq]
    exact h.fd_zero
  · rw [hkeep lfiber (h.inOrder.zero_lt hlisten).2]
    exact h.descriptor_eq
  · rw [hu.frontq_eq, hrear, ← List.append_assoc] at hclo
    rcases List.mem_append.mp hclo with hclo | hclo
    · obtain ⟨hle, hfd⟩ := h.queued clo hclo
      refine ⟨?_, by rw [hfd, hkeep _ hle]⟩
      rw [hu.allocated_eq]
      omega
    · obtain rfl := List.mem_singleton.mp hclo
      exact ⟨le_refl _, by rw [hdesc, Function.update_self]⟩

/-- **A fiber that goes on with the answer of the host** leaves `main` its variables, and
the listener does not return. -/
theorem Tabled.answered (h : Tabled s) (hlisten : Listens s (some f))
    (hans : answered env f s a = some t) :
    Tabled t ∧ Listens t (some f) ∧ s.allocated ≤ t.allocated ∧
      ∀ g ≤ s.allocated, t.descriptor g = s.descriptor g := by
  obtain ⟨hf, u, hu, hgo⟩ := h.inOrder.answered_goes hans
  obtain ⟨-, -, -, -, halloc, hdesc, hothers⟩ := hgo.same
  -- the state after a connection was accepted or not
  obtain ⟨htab, hframe, hle, hkeep⟩ : Tabled u ∧ (∀ g, s.frames g ≠ .freed →
      u.frames g = s.frames g) ∧ s.allocated ≤ u.allocated ∧
      ∀ g ≤ s.allocated, u.descriptor g = s.descriptor g := by
    rcases hu with rfl | hu
    · exact ⟨h, fun _ _ => rfl, le_refl _, fun _ _ => rfl⟩
    · obtain ⟨v, -, hd⟩ := hu.rearq_eq
      refine ⟨h.connects hlisten.ne_freed hu, fun g hg => hu.frames_of_alive h.inOrder hg,
        by rw [hu.allocated_eq]; omega, fun g hg => ?_⟩
      rw [hd, Function.update_of_ne (by rw [hu.allocated_eq]; omega)]
  refine ⟨htab.goes (by rwa [hframe f hf]) hgo, ?_, hle.trans_eq halloc.symm, fun g hg => ?_⟩
  · rcases eq_or_ne f lfiber with rfl | hne
    · rcases hlisten with hwait | ⟨-, hacc⟩
      · -- a fiber that waits is not at a call of the host
        rw [HttpServer.answered] at hans
        split at hans
        case h_4 => cases hans
        all_goals
          next hrun =>
          rw [hrun] at hwait
          exact hwait.elim
      · exact (listens_answered h.inOrder hacc hans).imp_right fun hacc => ⟨rfl, hacc⟩
    · refine hlisten.of_ne (fun heq => hne (Option.some.inj heq)) ?_ _
      rw [hothers lfiber hne.symm, hframe lfiber hlisten.ne_freed]
  · rw [hdesc, hkeep g hg]

/-- **A fiber that is resumed** with something other than the kill signal leaves `main` its
variables, and the listener does not return. -/
theorem Tabled.resume (env : Env) {arg : ℤ} (h : Tabled s) (hlisten : Listens s none)
    (hsus : (s.frames f).Suspended) (harg : arg ≠ FIBER_KILL_SIGNAL)
    (hfresh : (s.frames f).Fresh → arg = s.descriptor f) :
    Tabled (resume env f arg s) ∧ Listens (resume env f arg s) (some f) ∧
      (resume env f arg s).allocated = s.allocated ∧
      (resume env f arg s).descriptor = s.descriptor := by
  have hgo := goes_resume env hsus (fun e he => h.inOrder.fd_eq f e he) hfresh
  obtain ⟨-, -, -, -, halloc, hdesc, hothers⟩ := hgo.same
  refine ⟨h.goes hsus.ne_freed hgo, ?_, halloc, hdesc⟩
  rcases eq_or_ne f lfiber with rfl | hne
  · exact (listens_resume hlisten.waiting harg).imp_right fun hacc => ⟨rfl, hacc⟩
  · exact hlisten.of_ne nofun (hothers lfiber hne.symm) _

/-- **A connection that is closed** leaves `main` its variables, and is not the
listener. -/
theorem Tabled.handleDone {clo : FiberClosure} {host : HostAnswer} (h : Tabled s)
    (hlisten : Listens s none) (hclo : clo.fd = s.descriptor clo.fiber)
    (hfin : s.frames clo.fiber = .finished) (hdone : handleDone clo s host = some t) :
    Tabled t ∧ Listens t none := by
  have hne : clo.fiber ≠ lfiber := by
    intro heq
    have hwait := hlisten.waiting
    rw [← heq, hfin] at hwait
    exact hwait
  have hin := h.inOrder.handleDone hclo (by simp [hfin]) hdone
  have hfd : clo.fd.toNat ≠ 0 := by
    intro hzero
    have hnonneg := h.inOrder.nonneg (f := clo.fiber) (by simp [hfin])
    refine hne (h.inOrder.inj _ _ (by simp [hfin]) hlisten.ne_freed ?_)
    rw [h.descriptor_eq]
    omega
  rw [HttpServer.handleDone] at hdone
  split at hdone
  case h_2 => cases hdone
  next wfd hclose =>
    obtain rfl := Option.some.inj hdone
    refine ⟨⟨hin, fun v => ?_, ?_, h.descriptor_eq, h.queued⟩,
      hlisten.of_ne (by rintro ⟨⟩) (s.frames_setFrame_of_ne hne.symm _) _⟩
    · dsimp only
      rcases eq_or_ne v clo.fd.toNat with rfl | hv
      · rw [Function.update_self]
        exact h.fiber_eq _
      · rw [Function.update_of_ne hv]
        exact h.fiber_eq v
    · dsimp only
      rw [Function.update_of_ne hfd.symm]
      exact h.fd_zero

end Main

end HttpServer

end Waeio
