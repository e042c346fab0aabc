import Waeio.HttpServer.Census

/-!
# A connection that waits is not resumed

The closure of a connection is pushed to a queue once, by `w_accept`, before its fiber was
resumed for the first time; and it is not put into the table `fibers`. When the fiber yields
from `w_recv` or `w_send`, `handle_request` registers an interest with the backend, but the
closure is in no place any more from which `main` would resume its fiber. So where
`wasio_recv` or `wasio_send` has answered `WASIO_EAGAIN` once to a connection, its fiber stays
in that call for the rest of the run, whatever the host reports on its slot
(`Waeio.httpServer_waits`).

What carries this is `Waeio.HttpServer.Main.Queued`: the closures that are still to be resumed
from the queues (`Waeio.HttpServer.Main.pending`) are the listener's, or those of fibers that
are fresh, each once.
-/

namespace Waeio

namespace HttpServer

open FiberServer (FIBER_KILL_SIGNAL FiberClosure)
open Http (Answer)

/-- The fiber of a connection waits in `w_recv` or `w_send`. -/
def Frame.Blocked : Frame → Prop
  | .receiving _ _ | .sending _ _ _ => True
  | _ => False

instance : DecidablePred Frame.Blocked
  | .receiving _ _ | .sending _ _ _ => isTrue trivial
  | .fresh _ | .space _ | .listening _ | .quitting | .running _ | .finished | .freed =>
    isFalse id

namespace Main

/-! ### What is still to be resumed -/

/-- The closures in the queues that are resumed after the call `site`. -/
def rest : Site → Server → List FiberClosure
  | .queue i, s => s.frontq.drop (i + 1) ++ s.rearq
  | .event _, s | .kill _, s => s.rearq

/-- **The closures in the queues** that `main` has not resumed yet. -/
def pending (p : Program) : List FiberClosure :=
  match p.pc with
  | .front i => p.srv.frontq.drop i ++ p.srv.rearq
  | .running site _ | .closing site _ => rest site p.srv
  | .poll | .scan _ | .swap | .kill _ | .exited | .aborted | .stray => p.srv.rearq

/-- **The closures of fresh fibers**, each once, and those of the listener. -/
structure Entries (s : Server) (L : List FiberClosure) : Prop where
  fresh : ∀ clo ∈ L, clo.fiber = lfiber ∨ s.frames clo.fiber = .fresh .handleConnection
  once : L.Pairwise fun clo clo' => clo.fiber = clo'.fiber → clo.fiber = lfiber

/-- **What holds in the loop**: the closures that are pending are of this kind, and a
connection that runs does not ask to be put back into the queue. -/
structure Queued (p : Program) : Prop where
  entries : Entries p.srv (pending p)
  tag_ne : ∀ site clo, p.pc = .running site clo → clo.fiber ≠ lfiber → p.srv.cmd.tag ≠ .yield

variable {env : Env} {p q : Program} {act : Act} {clo : FiberClosure} {site : Site} {s t u : Server}
  {f : ℕ} {L L' : List FiberClosure}

/-- Fewer entries, and the fibers of those that are left where they were. -/
theorem Entries.mono (h : Entries s L) (hsub : L'.Sublist L)
    (hframes : ∀ clo ∈ L', clo.fiber ≠ lfiber → t.frames clo.fiber = s.frames clo.fiber) :
    Entries t L' where
  fresh clo hclo := by
    rcases h.fresh clo (hsub.subset hclo) with heq | hfresh
    · exact Or.inl heq
    · by_cases heq : clo.fiber = lfiber
      · exact Or.inl heq
      · exact Or.inr ((hframes clo hclo heq).trans hfresh)
  once := h.once.sublist hsub

/-- One more entry, of the listener or of a fresh fiber that has none. -/
theorem Entries.push (h : Entries s L)
    (hclo : clo.fiber = lfiber ∨ s.frames clo.fiber = .fresh .handleConnection)
    (hne : ∀ clo' ∈ L, clo'.fiber = clo.fiber → clo'.fiber = lfiber) :
    Entries s (L ++ [clo]) where
  fresh clo' hclo' := by
    rcases List.mem_append.mp hclo' with hmem | hmem
    · exact h.fresh clo' hmem
    · obtain rfl := List.mem_singleton.mp hmem
      exact hclo
  once := by
    refine List.pairwise_append.mpr
      ⟨h.once, List.pairwise_singleton _ _, fun clo' hmem _ hlast => ?_⟩
    obtain rfl := List.mem_singleton.mp hlast
    exact hne clo' hmem

/-- A fiber that is not fresh has no entry. -/
theorem Entries.ne (h : Entries s L) (hf : f ≠ lfiber)
    (hfresh : s.frames f ≠ .fresh .handleConnection) : ∀ clo ∈ L, clo.fiber ≠ f := by
  rintro clo hclo rfl
  rcases h.fresh clo hclo with heq | heq
  · exact hf heq
  · exact hfresh heq

/-- The closures in the new queue are pending wherever `main` is. -/
theorem rearq_sublist_pending (p : Program) : p.srv.rearq.Sublist (pending p) := by
  have hrest : ∀ site, p.srv.rearq.Sublist (rest site p.srv) := fun site => by
    cases site with
    | queue => exact List.sublist_append_right _ _
    | event | kill => exact List.Sublist.refl _
  unfold pending
  split
  · exact List.sublist_append_right _ _
  · exact hrest _
  · exact hrest _
  all_goals exact List.Sublist.refl _

theorem pending_after (hsite : site.InLoop) : pending ⟨s, after site⟩ = rest site s := by
  cases site with
  | kill => exact hsite.elim
  | queue | event => rfl

/-- `handle_request` puts back the fibers that have asked for it. -/
theorem handleYield_queues {b : Bool} (hreq : handleYield clo s = some (b, t)) :
    t.frames = s.frames ∧ t.frontq = s.frontq ∧
      (t.rearq = s.rearq ∨ s.cmd.tag = .yield ∧ t.rearq = s.rearq ++ [clo]) := by
  rw [handleYield] at hreq
  split at hreq
  case h_1 htag =>
    obtain ⟨rearq, hpush, heq⟩ := Option.map_eq_some_iff.mp hreq
    obtain ⟨-, rfl⟩ := Prod.mk.inj heq
    rw [fqPush, Option.ite_none_right_eq_some] at hpush
    exact ⟨rfl, rfl, Or.inr ⟨htag, (Option.some.inj hpush.2).symm⟩⟩
  case h_5 => cases hreq
  all_goals
    obtain ⟨-, rfl⟩ := Prod.mk.inj (Option.some.inj hreq)
    exact ⟨rfl, rfl, Or.inl rfl⟩

/-- It frees the fibers that have returned. -/
theorem handleDone_queues {host : HostAnswer} (hdone : handleDone clo s host = some t) :
    t.frames = (s.setFrame clo.fiber .freed).frames ∧ t.frontq = s.frontq ∧ t.rearq = s.rearq := by
  rw [handleDone] at hdone
  split at hdone
  case h_2 => cases hdone
  obtain rfl := Option.some.inj hdone
  exact ⟨rfl, rfl, rfl⟩

/-- `main` leaves the fibers where they are. -/
theorem frames_back (hsite : site.InLoop) : (back site clo s).srv.frames = s.frames := by
  by_cases hsus : (s.frames clo.fiber).Suspended
  · rcases back_of_suspended hsite hsus with ⟨t, hreq, hback⟩ | ⟨-, hback⟩ | hback <;> rw [hback]
    · exact (handleYield_queues hreq).1
    · cases site <;> rfl
  · by_cases hfreed : s.frames clo.fiber = .freed
    · cases site with
      | kill => exact hsite.elim
      | queue | event =>
        simp only [back, hfreed]
        split
        · next hreq => exact (handleYield_queues hreq).1
        · next hreq => exact (handleYield_queues hreq).1
        · rfl
    · rcases back_of_not_suspended hsite hfreed hsus with hback | ⟨-, hback⟩ <;> rw [hback]

/-- **When a fiber has run a piece of its code**, only the listener is put back into the
queue. -/
theorem queued_back (clo : FiberClosure) (hf : s.frames clo.fiber ≠ .freed)
    (h : Entries s (rest site s))
    (htag : clo.fiber ≠ lfiber → s.cmd.tag ≠ .yield) (hsite : site.InLoop)
    (hloop : (back site clo s).pc.InLoop) : Queued (back site clo s) := by
  by_cases hsus : (s.frames clo.fiber).Suspended
  · rcases back_of_suspended hsite hsus with ⟨t, hreq, hback⟩ | ⟨-, hback⟩ | hback <;> rw [hback]
    · obtain ⟨hframes, hfront, hrear⟩ := handleYield_queues hreq
      refine ⟨?_, by cases site <;> rintro _ _ ⟨⟩⟩
      rw [pending_after hsite]
      have hsame : Entries t (rest site s) := h.mono (.refl _) fun _ _ _ => by rw [hframes]
      rcases hrear with hrear | ⟨hyield, hrear⟩
      · have hrest : rest site t = rest site s := by cases site <;> simp only [rest, hfront, hrear]
        rwa [hrest]
      · have hlisten : clo.fiber = lfiber := by
          by_contra hne
          exact htag hne hyield
        have hrest : rest site t = rest site s ++ [clo] := by
          cases site <;> simp only [rest, hfront, hrear, List.append_assoc]
        rw [hrest]
        exact hsame.push (Or.inl hlisten) fun clo' _ heq => heq.trans hlisten
    · rw [hback] at hloop
      cases site <;> exact hloop.elim
    · rw [hback] at hloop
      exact hloop.elim
  · rcases back_of_not_suspended hsite hf hsus with hback | ⟨-, hback⟩ <;> rw [hback]
    · refine ⟨h, ?_⟩
      rintro _ _ ⟨⟩
      exact htag
    · exact ⟨h, fun _ _ hpc => (by cases hpc)⟩

/-! ### The steps -/

theorem rest_congr (hfront : t.frontq = s.frontq) (hrear : t.rearq = s.rearq) (site : Site) :
    rest site t = rest site s := by
  cases site <;> simp only [rest, hfront, hrear]

/-- A connection that is resumed for the first time asks to receive. -/
theorem tag_resume_fresh {arg : ℤ} (hframe : s.frames f = .fresh .handleConnection) :
    (resume env f arg s).cmd.tag = .recv := by
  simp only [resume, hframe]
  rfl

/-- A fiber that runs a piece of its code leaves the entries of the others. -/
theorem Entries.piece (h : Entries s L) (hpiece : Piece f s t)
    (hne : f ≠ lfiber → ∀ clo ∈ L, clo.fiber ≠ f) : Entries t L := by
  obtain ⟨-, -, -, -, -, -, hothers⟩ := hpiece.same
  refine h.mono (.refl _) fun clo hclo hlisten => hothers _ fun heq => ?_
  exact hne (heq ▸ hlisten) clo hclo heq

/-- **A fiber that goes on with the answer of the host** leaves the entries of the others, and
those of the connections it has accepted are new. -/
theorem Entries.answered {a : Answer} (hin : InOrder s)
    (hle : ∀ clo ∈ s.frontq ++ s.rearq, clo.fiber ≤ s.allocated) (h : Entries s (rest site s))
    (hlisten : s.frames lfiber ≠ .freed) (hne : f ≠ lfiber → ∀ clo ∈ rest site s, clo.fiber ≠ f)
    (hans : answered env f s a = some t) : Entries t (rest site t) := by
  obtain ⟨hf, u, hu, hgo⟩ := hin.answered_goes hans
  obtain ⟨-, -, hfront, hrear, -, -, hothers⟩ := hgo.same
  have hrest : ∀ clo ∈ rest site s, clo.fiber ≤ s.allocated := fun clo hclo => by
    refine hle clo ?_
    cases site with
    | queue i =>
      exact (List.mem_append.mp hclo).elim
        (fun h => List.mem_append_left _ (List.mem_of_mem_drop h)) (List.mem_append_right _)
    | event | kill => exact List.mem_append_right _ hclo
  rw [rest_congr hfront hrear]
  have hkeep : ∀ clo ∈ rest site u, clo.fiber ≠ lfiber → clo.fiber ≠ f →
      t.frames clo.fiber = u.frames clo.fiber := fun clo _ _ hclo => hothers _ hclo
  rcases hu with rfl | hu
  · exact h.mono (.refl _) fun clo hclo hl => hkeep clo hclo hl fun heq =>
      hne (heq ▸ hl) clo hclo heq
  · obtain ⟨v, hrear', -⟩ := hu.rearq_eq
    have halloc := hu.allocated_eq
    have hrestu : rest site u = rest site s ++ [⟨u.allocated, v⟩] := by
      cases site <;> simp only [rest, hu.frontq_eq, hrear', List.append_assoc]
    have hfresh : u.frames u.allocated = .fresh .handleConnection := by
      rw [hu.frames_eq, s.frames_setFrame_self]
    have hentries : Entries u (rest site s) := h.mono (.refl _) fun clo hclo hl => by
      refine hu.frames_of_alive hin ?_
      rcases h.fresh clo hclo with heq | heq
      · exact absurd heq hl
      · rw [heq]
        rintro ⟨⟩
    have hpush : Entries u (rest site u) := by
      rw [hrestu]
      refine hentries.push (Or.inr hfresh) fun clo hclo heq => ?_
      have hle' := hrest clo hclo
      dsimp only at heq
      omega
    refine hpush.mono (.refl _) fun clo hclo hl => hkeep clo hclo hl ?_
    rintro rfl
    rw [hrestu] at hclo
    rcases List.mem_append.mp hclo with hmem | hmem
    · exact hne hl clo hmem rfl
    · obtain rfl := List.mem_singleton.mp hmem
      have := (hin.zero_lt hf).2
      dsimp only at this
      omega

/-- **Every step in the loop keeps the invariant.** -/
theorem Queued.loopStep (hl : Looping p) (hk : Kept p) (h : Queued p) (hstep : LoopStep env p q)
    (hq : q.pc.InLoop) : Queued q := by
  cases hstep with
  | goes hcur hwfd hpc =>
    rename_i wfd pc
    have hentries : Entries { p.srv with wfd := wfd } p.srv.rearq :=
      h.entries.mono (rearq_sublist_pending p) fun _ _ _ => rfl
    cases pc with
    | poll | scan | swap => exact ⟨hentries, fun _ _ hrun => (by cases hrun)⟩
    | _ => exact hpc.elim
  | swaps hpc =>
    refine ⟨?_, fun _ _ hrun => (by cases hrun)⟩
    have hold := h.entries
    rw [pending, hpc] at hold
    have hpending : pending ⟨p.srv.swap, .front 0⟩ = p.srv.rearq := List.append_nil _
    rw [hpending]
    exact hold.mono (.refl _) fun _ _ _ => rfl
  | @queued i clo hpc hclo hsus =>
    obtain ⟨hlt, hget⟩ := List.getElem?_eq_some_iff.mp hclo
    have hpending : pending p = clo :: rest (.queue i) p.srv := by
      rw [pending, hpc]
      dsimp only
      rw [List.drop_eq_getElem_cons hlt, hget]
      rfl
    obtain ⟨hfresh, honce⟩ := h.entries
    rw [hpending] at hfresh honce
    have hrest : Entries p.srv (rest (.queue i) p.srv) :=
      ⟨fun clo' hclo' => hfresh clo' (List.mem_cons_of_mem _ hclo'), honce.of_cons⟩
    have hpiece := piece_resume env clo.fd hsus
    obtain ⟨-, -, hfront, hrear, -⟩ := hpiece.same
    refine queued_back clo hpiece.ne_freed ?_ (fun hne => ?_) trivial hq
    · rw [rest_congr hfront hrear]
      refine hrest.piece hpiece fun hne clo' hclo' heq => ?_
      exact hne (List.rel_of_pairwise_cons honce hclo' heq.symm)
    · rw [tag_resume_fresh ((hfresh clo List.mem_cons_self).resolve_left hne)]
      rintro ⟨⟩
  | heard hpc =>
    have hwait : (p.srv.frames lfiber).Waiting := by
      have hlisten := hl.listens
      rw [hpc] at hlisten
      exact hlisten.waiting
    have hpiece : Piece lfiber (clear 0 p.srv) (resume env lfiber 0 (clear 0 p.srv)) :=
      piece_resume env 0 hwait.suspended
    obtain ⟨-, -, hfront, hrear, -⟩ := hpiece.same
    have hrest : Entries (clear 0 p.srv) (rest (.event 0) (clear 0 p.srv)) :=
      h.entries.mono (rearq_sublist_pending p) fun _ _ _ => rfl
    refine queued_back ⟨lfiber, 0⟩ hpiece.ne_freed ?_ (fun hne => absurd rfl hne) trivial hq
    rw [rest_congr hfront hrear]
    exact hrest.piece hpiece fun hne => absurd rfl hne
  | @answered site clo a t hpc hsite hans =>
    have hcur : Listens p.srv (some clo.fiber) := by
      have hlistens := hl.listens
      rwa [hpc] at hlistens
    obtain ⟨u, hcensus, hcmd, hframe, hf, hpiece⟩ :=
      hk.census.answered hl.tabled.inOrder hcur.ne_freed hans
    have hentries : Entries p.srv (rest site p.srv) := by
      have hold := h.entries
      rwa [pending, hpc] at hold
    have hrunning : p.srv.frames clo.fiber ≠ .fresh .handleConnection := by
      intro hfresh
      simp [HttpServer.answered, hfresh] at hans
    refine queued_back clo hpiece.ne_freed ?_ (fun hne hyield => ?_) hsite hq
    · exact hentries.answered hl.tabled.inOrder (fun clo hclo => (hl.tabled.queued clo hclo).1)
        hcur.ne_freed (fun hne => hentries.ne hne hrunning) hans
    · rcases hpiece.tag_cases with heq | ⟨-, hconn⟩
      · exact h.tag_ne site clo hpc hne (hcmd ▸ heq.symm.trans hyield)
      · exact hconn hyield (hpiece.ofConnection (hcensus.ofConnection _ hne))
  | @closed site clo host t hpc hsite hdone =>
    obtain ⟨-, hfin⟩ := hl.closing site clo hpc
    have hentries : Entries p.srv (rest site p.srv) := by
      have hold := h.entries
      rwa [pending, hpc] at hold
    obtain ⟨hframes, hfront, hrear⟩ := handleDone_queues hdone
    refine ⟨?_, by cases site <;> rintro _ _ ⟨⟩⟩
    rw [pending_after hsite, rest_congr hfront hrear]
    refine hentries.mono (.refl _) fun clo' hclo' hlisten => ?_
    rw [hframes]
    refine p.srv.frames_setFrame_of_ne ?_ _
    intro heq
    exact hentries.ne (heq ▸ hlisten) (by simp [hfin]) clo' hclo' heq
  | fails hpc =>
    obtain ⟨s, pc⟩ := q
    cases pc with
    | aborted | stray => exact hq.elim
    | _ => exact hpc.elim

/-! ### The fibers that wait -/

/-- **A fiber of a connection that waits** stays where it is in every step in the loop. -/
theorem LoopStep.frames_eq (hl : Looping p) (h : Queued p) (hstep : LoopStep env p q)
    (hf : f ≠ lfiber) (hblocked : (p.srv.frames f).Blocked) :
    q.srv.frames f = p.srv.frames f := by
  have hfresh : p.srv.frames f ≠ .fresh .handleConnection := fun heq => by
    rw [heq] at hblocked
    exact hblocked
  cases hstep with
  | goes | swaps => rfl
  | @queued i clo hpc hclo hsus =>
    have hmem : clo ∈ pending p := by
      rw [pending, hpc]
      obtain ⟨hlt, rfl⟩ := List.getElem?_eq_some_iff.mp hclo
      dsimp only
      rw [List.drop_eq_getElem_cons hlt]
      exact List.mem_append_left _ List.mem_cons_self
    have hne := h.entries.ne hf hfresh clo hmem
    obtain ⟨-, -, -, -, -, -, hothers⟩ := (piece_resume env clo.fd hsus).same
    have hsite : (Site.queue i).InLoop := trivial
    rw [frames_back hsite, hothers f hne.symm]
  | heard hpc =>
    have hwait : (p.srv.frames lfiber).Waiting := by
      have hlisten := hl.listens
      rw [hpc] at hlisten
      exact hlisten.waiting
    have hpiece : Piece lfiber (clear 0 p.srv) (resume env lfiber 0 (clear 0 p.srv)) :=
      piece_resume env 0 hwait.suspended
    obtain ⟨-, -, -, -, -, -, hothers⟩ := hpiece.same
    have hsite : (Site.event 0).InLoop := trivial
    rw [frames_back hsite, hothers f hf]
    rfl
  | @answered site clo a t hpc hsite hans =>
    have hne : f ≠ clo.fiber := by
      rintro rfl
      rw [HttpServer.answered] at hans
      split at hans
      case h_4 => cases hans
      all_goals
        next hframe =>
        rw [hframe] at hblocked
        exact hblocked
    obtain ⟨-, u, hu, hgo⟩ := hl.tabled.inOrder.answered_goes hans
    obtain ⟨-, -, -, -, -, -, hothers⟩ := hgo.same
    rw [frames_back hsite, hothers f hne]
    rcases hu with rfl | hu
    · rfl
    · refine hu.frames_of_alive hl.tabled.inOrder fun hfreed => ?_
      rw [hfreed] at hblocked
      exact hblocked
  | @closed site clo host t hpc hsite hdone =>
    obtain ⟨-, hfin⟩ := hl.closing site clo hpc
    obtain ⟨hframes, -, -⟩ := handleDone_queues hdone
    have hne : f ≠ clo.fiber := by
      rintro rfl
      rw [hfin] at hblocked
      exact hblocked
    change t.frames f = _
    rw [hframes, p.srv.frames_setFrame_of_ne hne]
  | fails _ hframes => rw [hframes]

/-- Behind the loop only the listener is resumed. -/
theorem Ends.frames_eq (hp : ¬p.pc.InLoop) (h : Ends p) (htr : Tr env p act q) (hf : f ≠ lfiber) :
    q.srv.frames f = p.srv.frames f := by
  obtain ⟨s, pc⟩ := p
  cases pc with
  | front | poll | scan | swap => exact absurd trivial hp
  | running | closing => exact absurd h hp
  | exited => exact h.elim
  | aborted | stray =>
    cases act <;> simp [Tr, HttpServer.Main.step, tauStep, target, answerStep] at htr
  | kill i =>
    obtain ⟨-, -, hothers, hzero⟩ := h
    cases act with
    | answer a => simp [Tr, HttpServer.Main.step, answerStep] at htr
    | tau =>
      simp only [Tr, HttpServer.Main.step, tauStep] at htr
      split_ifs at htr <;> obtain rfl := Option.some.inj htr <;> rfl
    | resume resumed =>
      obtain ⟨⟨site, clo, arg, u⟩, htarget, rfl⟩ := Option.map_eq_some_iff.mp htr
      obtain ⟨⟨-, hfd⟩, heq⟩ := Option.ite_none_right_eq_some.mp htarget
      cases heq
      obtain rfl : i = 0 := by
        by_contra hne
        exact hfd (hothers i hne)
      obtain ⟨hclo, hwait, hfresh⟩ := hzero rfl
      change (fiberResume env resumed (.kill 0) (s.fibers 0) FIBER_KILL_SIGNAL s).srv.frames f = _
      rw [hclo, fiberResume]
      split_ifs
      · rw [resume_kill hwait hfresh, back, s.frames_setFrame_self]
        change ((s.setFrame lfiber .finished).setFrame (s.fibers 0).fiber .freed).frames f = _
        rw [hclo, Server.frames_setFrame_of_ne _ hf, Server.frames_setFrame_of_ne _ hf]
      · rfl
      · rfl

/-- **The invariants** of the whole program, with what is queued. -/
def Settled (n : Noting) : Prop :=
  Inv n ∧ Counted n.2 ∧ (n.2.pc.InLoop → Queued n.2)

theorem Settled.step {n m : Noting} (h : Settled n) (htr : TrNoting env n act m) : Settled m := by
  obtain ⟨hinv, hcounted, hqueued⟩ := h
  refine ⟨hinv.step htr, hcounted.step hinv htr, fun hloop => ?_⟩
  have hp := inLoop_of_step htr.1 hloop
  exact (hqueued hp).loopStep (hinv hp).1 (hcounted.1 hp) ((hinv hp).1.loopStep hp htr.1) hloop

theorem settled_start {host : HostAnswer} (hstart : serverMain host = some s) :
    Settled (.init, start s) := by
  obtain ⟨-, -, -, -, -, -, -, hfront, hrear, -⟩ := serverMain_cases hstart
  have hpending : pending (start s) = [⟨lfiber, 0⟩] := by
    change s.frontq.drop 0 ++ s.rearq = _
    rw [hfront, hrear]
    rfl
  refine ⟨inv_start hstart, counted_start hstart, fun _ => ⟨?_, fun _ _ hrun => (by cases hrun)⟩⟩
  rw [hpending]
  refine ⟨fun clo hclo => Or.inl ?_, List.pairwise_singleton _ _⟩
  rw [List.mem_singleton.mp hclo]

end Main

end HttpServer

open HttpServer (serverMain Env Server lfiber)
open HttpServer.Main

/-- **A connection that waits once waits for the rest of the run**: in every state that is
reached, the fiber of a connection that is in the `fiber_yield` of `w_recv` or `w_send` is at
that point, with the same variables, in every later state, whatever the parser, the stacks and
the answers of the host are. -/
theorem httpServer_waits (env : Env) (host : HostAnswer) (s₀ : Server)
    (h : serverMain host = some s₀) (l : List Act) (p : Program)
    (hl : Lts.Steps (Tr env) (start s₀) l p) (f : ℕ) (hf : f ≠ lfiber)
    (hblocked : (p.srv.frames f).Blocked) (l' : List Act) (q : Program)
    (hl' : Lts.Steps (Tr env) p l' q) : q.srv.frames f = p.srv.frames f := by
  obtain ⟨x, hx⟩ := hl.observed note .init
  have hsettled : Settled (x, p) :=
    hx.invariant (fun _ _ _ hn htr => hn.step htr) (settled_start h)
  obtain ⟨y, hy⟩ := hl'.observed note x
  refine (hy.invariant (P := fun n => Settled n ∧ n.2.srv.frames f = p.srv.frames f)
    (fun n act m hn htr => ?_) ⟨hsettled, rfl⟩).2
  refine ⟨hn.1.step htr, ?_⟩
  obtain ⟨⟨hinv, hcounted, hqueued⟩, heq⟩ := hn
  by_cases hp : n.2.pc.InLoop
  · have hloop := (hinv hp).1
    rw [(hloop.loopStep hp htr.1).frames_eq hloop (hqueued hp) hf (by rwa [heq]), heq]
  · rw [hcounted.2.frames_eq hp htr.1 hf, heq]

/-- The fiber of a connection finds no data, and waits; in the next round another client
connects. -/
theorem httpServer_waits_round :
    ∃ s₀ l p l' q, serverMain ⟨3, 0⟩ = some s₀ ∧ Lts.Steps (Tr silent) (start s₀) l p ∧
      Lts.Steps (Tr silent) p l' q ∧ (p.srv.frames 2).Blocked ∧ q.srv.clients = 2 ∧
      q.srv.frames 2 = p.srv.frames 2 := by
  obtain ⟨s₀, hstart, p, hp, hblocked, q, hq, hclients⟩ : ∃ s₀ ∈ serverMain ⟨3, 0⟩,
      ∃ p ∈ Lts.exec (step silent) (start s₀)
        [.resume true, .answer (answerWith 5 0 fun _ => 0), wouldBlock, .tau,
          .answer (answerWith 0 0 fun _ => 0), .tau, .resume true, wouldBlock],
        (p.srv.frames 2).Blocked ∧ ∃ q ∈ Lts.exec (step silent) p
          [.tau, .answer (eventOn 0), .resume true, .answer (answerWith 6 0 fun _ => 0),
            wouldBlock], q.srv.clients = 2 := by
    decide +kernel
  have hl := Lts.exec_eq_some_iff.mp hp
  have hl' := Lts.exec_eq_some_iff.mp hq
  exact ⟨s₀, _, p, _, q, hstart, hl, hl', hblocked, hclients,
    httpServer_waits silent ⟨3, 0⟩ s₀ hstart _ p hl 2 (by decide) hblocked _ q hl'⟩

end Waeio
