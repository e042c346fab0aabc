import Waeio.FiberServer.Isolation
import Waeio.Http.Reading

/-!
# What a client reads from its connection

The server takes what a receive hands over for a request, and answers it with one send. Seen
from the client, the connection is a stream of bytes, from which it reads one response after
the other (`Waeio.Http.readReply`). What it is to read is, for each receive on its
descriptor, the reply to the bytes received (`Waeio.FiberServer.repliesTo`).

`Waeio.FiberServer.Conversing` is the invariant: what was sent on the descriptor says the
replies to what was received, in order, where the last one may still be due, if the program
is about to send it. So the replies do not depend on the other clients, none is lost, and
none comes twice.

`wasio_send` tells how many bytes the host has taken, and the server does not look at it. A
client therefore reads its replies exactly if the host takes all of each
(`Waeio.fiberServer_converses`).
-/

namespace Waeio

namespace FiberServer

open HostPoll (wasioRecv)
open Http (Answer Label Site Pc Parser Reply Globals BUFFER_SIZE contents verdict readReply)
open Messages (Says Reads taken)

variable {phr : Parser} {s t : Program} {d : ℤ} {l : List Label} {a : Label} {due : List Reply}

/-! ### The conversation on a descriptor -/

/-- **The reply to the bytes of a request**, if there is to be one. -/
def replyTo (phr : Parser) (now : Http.Tm) (data : List UInt8) : Option Reply :=
  let g := Globals.init.received data
  let r := phr (contents g.reqbuf BUFFER_SIZE)
  if r.numHeaders = 0 then none else some ((verdict g.reqbuf r).reply now)

/-- The reply that a step makes due on the descriptor. -/
def replyAfter (phr : Parser) (d : ℤ) : Label → Option Reply
  | .call (.recv e n) a => if e = d ∧ 0 < a.ret then replyTo phr a.now (a.received n) else none
  | _ => none

/-- **The replies to what was received on a descriptor.** -/
def repliesTo (phr : Parser) (d : ℤ) (l : List Label) : List Reply :=
  l.filterMap (replyAfter phr d)

/-- The bytes that are sent on the descriptor in a step, and how many of them the host takes. -/
def sendOn (d : ℤ) : Label → Option (List UInt8 × ℕ)
  | .call (.send e b) a => if e = d then some (b, a.ret.toNat) else none
  | _ => none

/-- **What was sent on a descriptor.** -/
def sentOn (d : ℤ) (l : List Label) : List (List UInt8 × ℕ) := l.filterMap (sendOn d)

theorem repliesTo_snoc (phr : Parser) (d : ℤ) (l : List Label) (a : Label) :
    repliesTo phr d (l ++ [a]) = repliesTo phr d l ++ (replyAfter phr d a).toList := by
  rw [repliesTo, repliesTo, List.filterMap_append, List.filterMap_cons]
  cases replyAfter phr d a <;> rfl

theorem sentOn_snoc (d : ℤ) (l : List Label) (a : Label) :
    sentOn d (l ++ [a]) = sentOn d l ++ (sendOn d a).toList := by
  rw [sentOn, sentOn, List.filterMap_append, List.filterMap_cons]
  cases sendOn d a <;> rfl

/-- **The reply that is due** on the descriptor, if there is one: the program is about to send
the bytes that say it. -/
def Due (d : ℤ) (s : Program) (due : List Reply) : Prop :=
  (due = [] ∧ ∀ b, s.call ≠ some (.send d b)) ∨
    ∃ reply b, due = [reply] ∧ s.call = some (.send d b) ∧ Says readReply b reply

/-- **The invariant**: what was sent says the replies, but for the one that is due. -/
def Conversing (phr : Parser) (d : ℤ) (l : List Label) (s : Program) : Prop :=
  ∃ replies due, repliesTo phr d l = replies ++ due ∧
    List.Forall₂ (fun p => Says readReply p.1) (sentOn d l) replies ∧ Due d s due

theorem Due.eq_nil (h : Due d s due) (hcall : ∀ b, s.call ≠ some (.send d b)) : due = [] := by
  rcases h with ⟨hnil, -⟩ | ⟨reply, b, -, hsend, -⟩
  · exact hnil
  · exact absurd hsend (hcall b)

/-! ### Where the program does not send -/

theorem call_ne_send_of_plain (h : Plain s.pc) (b : List UInt8) : s.call ≠ some (.send d b) := by
  intro hcall
  obtain ⟨site, f, rc, hpc, -⟩ := call_eq_send hcall
  rw [hpc] at h
  exact h

/-- **Only a receive leads to a send.** -/
theorem Step.call_ne_send (hstep : Step phr s a t) (hrecv : ∀ site f, s.pc ≠ .recv site f)
    (b : List UInt8) : t.call ≠ some (.send d b) := by
  refine lands_step (P := fun t => t.call ≠ some (.send d b)) (fun s => ?_) (fun site f s => ?_)
    (fun s hplain => call_ne_send_of_plain hplain b) hstep hrecv
  · rw [nextRound]
    split_ifs <;> rintro ⟨⟩
  · rintro ⟨⟩

theorem due_nil_back (status : Scheduler.FiberStatus) (site : Site) :
    Due d (back status s site) [] :=
  Or.inl ⟨rfl, lands_back (P := fun t => ∀ b, t.call ≠ some (.send d b))
    (fun _ hplain => call_ne_send_of_plain hplain) status⟩

/-! ### A receive -/

/-- **The response says the reply**, where there is one, and there is none where there is no
reply. -/
theorem answer_reply (phr : Parser) {now : Http.Tm} (hnow : now.Proper) (data : List UInt8) :
    Option.Rel
      (fun rc reply => Says readReply
        (contents (Http.answer phr now (Globals.init.received data)).1.resbuf rc) reply)
      (Http.answer phr now (Globals.init.received data)).2.2 (replyTo phr now data) := by
  have hroom : 2200 < BUFFER_SIZE := by decide
  have hsize : BUFFER_SIZE < 2 ^ 32 := by decide
  rw [Http.answer, replyTo]
  dsimp only
  split_ifs with hheaders hfail
  · exact .none
  · -- a response fits
    rw [Http.Verdict.response_fst hnow hroom] at hfail
    omega
  · exact .some (Http.Verdict.response_text hnow hsize hroom _ _)

/-- **After a receive**, the reply to the bytes received is due. -/
theorem due_received (h : s.globals = .init) {a : Answer} (hnow : a.now.Proper) (site : Site)
    (f : ℕ) :
    Due d (received phr s site f a)
      (replyAfter phr d (.call (.recv s.srv.fd BUFFER_SIZE) a)).toList := by
  rw [received, wasioRecv, replyAfter]
  by_cases hpos : 0 < a.ret
  swap
  · have hidle : ¬(s.srv.fd = d ∧ 0 < a.ret) := fun hd => hpos hd.2
    rw [if_neg hidle]
    split_ifs with hzero hneg
    · exact due_nil_back _ _
    · cases translateError a.errno <;> exact due_nil_back _ _
    · omega
  have hcount : 0 < a.ret.toNat := by omega
  rw [if_neg (by omega), if_neg (by omega)]
  dsimp only
  rw [if_pos hcount, respond, h]
  dsimp only
  have htext := answer_reply phr hnow (a.received BUFFER_SIZE)
  cases hanswer : Http.answer phr a.now (Globals.init.received (a.received BUFFER_SIZE)) with
  | mk globals rest =>
    obtain ⟨quit, rc⟩ := rest
    rw [hanswer] at htext
    cases hreply : replyTo phr a.now (a.received BUFFER_SIZE) with
    | none =>
      rw [hreply] at htext
      cases htext
      rw [ite_self]
      exact due_nil_back _ _
    | some reply =>
      rw [hreply] at htext
      cases htext with
      | some htext =>
        by_cases hd : s.srv.fd = d
        · rw [if_pos ⟨hd, hpos⟩]
          refine Or.inr ⟨reply, _, rfl, ?_, htext⟩
          rw [Program.call, ← hd]
          rfl
        · -- it is due on another descriptor
          rw [if_neg fun h => hd h.1]
          refine Or.inl ⟨rfl, fun b hcall => hd ?_⟩
          exact (Http.Call.send.inj (Option.some.inj hcall)).1

/-! ### The steps -/

/-- A program that is about to send does so. -/
theorem Step.eq_send {b : List UInt8} (hcall : s.call = some (.send d b))
    (hstep : Step phr s a t) : ∃ c, a = .call (.send d b) c := by
  obtain ⟨site, f, rc, hpc, -⟩ := call_eq_send hcall
  cases a with
  | tau =>
    rw [Step, FiberServer.step, tauStep, hpc] at hstep
    cases hstep
  | resume g fd resumed =>
    rw [Step, FiberServer.step, resumeStep, hpc] at hstep
    cases hstep
  | call c' b' =>
    obtain ⟨hc, -⟩ := Option.ite_none_right_eq_some.mp hstep
    exact ⟨b', by rw [Option.some.inj (hcall.symm.trans hc)]⟩

/-- The step of a program that neither receives nor sends on the descriptor. -/
theorem Step.silent (hstep : Step phr s a t) (hrecv : ∀ site f, s.pc ≠ .recv site f)
    (hsend : ∀ b, s.call ≠ some (.send d b)) : replyAfter phr d a = none ∧ sendOn d a = none := by
  cases a with
  | tau | resume => exact ⟨rfl, rfl⟩
  | call c b =>
    obtain ⟨hc, -⟩ := Option.ite_none_right_eq_some.mp hstep
    cases c with
    | listen | poll | accept | close => exact ⟨rfl, rfl⟩
    | recv e n =>
      exfalso
      cases hpc : s.pc with
      | recv site f => exact hrecv site f hpc
      | _ =>
        rw [Program.call, hpc] at hc
        cases hc
    | send e data =>
      refine ⟨rfl, if_neg ?_⟩
      rintro rfl
      exact hsend data hc

/-- **Every step keeps the conversation going.** -/
theorem Conversing.step {last : Option Label} (h : Conversing phr d l s)
    (hans : Answering phr last s) (hstep : Step phr s a t)
    (hnow : ∀ c b, a = .call c b → b.now.Proper) : Conversing phr d (l ++ [a]) t := by
  obtain ⟨replies, due, heq, hsaid, hdue⟩ := h
  by_cases hrecv : ∃ site f, s.pc = .recv site f
  · obtain ⟨site, f, hpc⟩ := hrecv
    obtain ⟨b, rfl, rfl⟩ := step_of_recv hpc hstep
    rw [Answering, hpc] at hans
    have hnil : due = [] := hdue.eq_nil fun c hcall => by
      rw [Program.call, hpc] at hcall
      cases hcall
    rw [hnil, List.append_nil] at heq
    refine ⟨replies, _, ?_, ?_, due_received hans (hnow _ _ rfl) site f⟩
    · rw [repliesTo_snoc, heq]
    · rw [sentOn_snoc]
      exact (List.append_nil _).symm ▸ hsaid
  · have hother : ∀ site f, s.pc ≠ .recv site f := fun site f hpc => hrecv ⟨site, f, hpc⟩
    have hquiet : Due d t [] := Or.inl ⟨rfl, hstep.call_ne_send hother⟩
    rcases hdue with ⟨rfl, hsend⟩ | ⟨reply, b, rfl, hsend, htext⟩
    · obtain ⟨hreply, hsent⟩ := hstep.silent hother hsend
      rw [List.append_nil] at heq
      refine ⟨replies, [], ?_, ?_, hquiet⟩
      · rw [repliesTo_snoc, heq, hreply]
        rfl
      · rw [sentOn_snoc, hsent]
        exact (List.append_nil _).symm ▸ hsaid
    · -- the reply that was due is sent
      obtain ⟨c, rfl⟩ := hstep.eq_send hsend
      refine ⟨replies ++ [reply], [], ?_, ?_, hquiet⟩
      · rw [repliesTo_snoc, heq]
        rfl
      · rw [sentOn_snoc, sendOn, if_pos rfl]
        exact List.rel_append hsaid (.cons htext .nil)

/-- Where the last step was no receive on the descriptor, nothing is due on it. -/
theorem Answering.due_nil {last : Option Label} (h : Answering phr last s)
    (hlast : ∀ n a, last ≠ some (.call (.recv d n) a)) : Due d s [] := by
  refine Or.inl ⟨rfl, fun b hcall => ?_⟩
  obtain ⟨site, f, rc, hpc, rfl, -⟩ := call_eq_send hcall
  rw [Answering, hpc] at h
  obtain ⟨a, quit, heq, -⟩ := h
  exact hlast _ _ heq

/-- **The conversation in a part of a run** that starts where nothing is due. -/
theorem Runs.conversing {l₁ l₂ : List Label} (h : Runs phr (l₁ ++ l₂) s)
    (hstart : ∀ n a, l₁.getLast? ≠ some (.call (.recv d n) a))
    (hnow : ∀ c a, Label.call c a ∈ l₂ → a.now.Proper) : Conversing phr d l₂ s := by
  obtain ⟨u, hu, hrest⟩ := Lts.Steps.split h
  have hans : Answering phr l₁.getLast? u := Runs.answering hu
  have hempty : Conversing phr d [] u := ⟨[], [], rfl, .nil, hans.due_nil hstart⟩
  have hguarded := hrest.guarded_of_forall (C := fun a => ∀ c b, a = .call c b → b.now.Proper)
    (by rintro _ ha c b rfl; exact hnow c b ha)
  have hend := hguarded.invariant_labels (m := [])
    (P := fun l s => (∃ last, Answering phr last s) ∧ Conversing phr d l s)
    (fun l s a t hinv hstep => by
      obtain ⟨⟨last, hlast⟩, hconv⟩ := hinv
      exact ⟨⟨some a, hlast.step hstep.1⟩, hconv.step hlast hstep.1 hstep.2⟩)
    ⟨⟨_, hans⟩, hempty⟩
  exact hend.2

end FiberServer

open FiberServer Http

/-- **What a client reads from its connection.** In a part of a run that starts where nothing
is due on a descriptor, and in which the fields of the clock have as many digits as are printed
of them, each send on it says the reply to one receive, in order; at most one reply is due, and
the program is then about to send it; and a client reads from its connection exactly the replies
that were sent, exactly if the host took all bytes of each. -/
theorem fiberServer_converses (phr : Parser) (l₁ l₂ : List Label) (s : Program)
    (h : FiberServer.Runs phr (l₁ ++ l₂) s) (d : ℤ)
    (hstart : ∀ n a, l₁.getLast? ≠ some (.call (.recv d n) a))
    (hnow : ∀ c a, Label.call c a ∈ l₂ → a.now.Proper) :
    ∃ replies due, repliesTo phr d l₂ = replies ++ due ∧
      List.Forall₂ (fun p => Messages.Says readReply p.1) (sentOn d l₂) replies ∧
      ((∀ rest, Messages.Reads readReply (Messages.taken (sentOn d l₂) ++ rest) replies rest) ↔
        ∀ p ∈ sentOn d l₂, p.1.length ≤ p.2) ∧ Due d s due := by
  obtain ⟨replies, due, heq, hsaid, hdue⟩ := h.conversing hstart hnow
  exact ⟨replies, due, heq, hsaid, Messages.reads_taken_iff exact_readReply hsaid, hdue⟩

/-- The client that asks the server to quit reads one reply. -/
theorem fiberServer_converses_oneRequest :
    ∃ b s, FiberServer.Runs quitParser
        (oneRequest ++ [.call (.send 5 b) (plainAnswer b.length 0 fun _ => 0)]) s ∧
      ∃ reply, repliesTo quitParser 5
          (oneRequest ++ [.call (.send 5 b) (plainAnswer b.length 0 fun _ => 0)]) = [reply] ∧
        ∀ rest, Messages.Reads readReply (b ++ rest) [reply] rest := by
  obtain ⟨s, hs, hpc, hfd⟩ : ∃ s ∈ Lts.exec (FiberServer.step quitParser) .start oneRequest,
      s.pc = .send (.sweep 1) 2 112 ∧ s.srv.fd = 5 := by
    decide +kernel
  have hcall : s.call = some (.send 5 (contents s.globals.resbuf 112)) := by
    rw [Program.call, hpc, hfd]
  generalize contents s.globals.resbuf 112 = b at hcall
  have hrun : FiberServer.Runs quitParser ([] ++ (oneRequest ++
      [.call (.send 5 b) (plainAnswer b.length 0 fun _ => 0)])) _ :=
    Lts.Steps.snoc (runs_of_exec hs) (if_pos hcall)
  have hnow : ∀ c a, Label.call c a ∈ oneRequest ++
      [.call (.send 5 b) (plainAnswer b.length 0 fun _ => 0)] → a.now.Proper := by
    intro c a ha
    have hclock : a.now = ⟨0, 1, 0, 100, 0, 0, 0⟩ ∨ a.now = ⟨4, 1, 0, 70, 0, 0, 0⟩ := by
      simp only [oneRequest, oneClient, List.cons_append, List.nil_append, List.mem_cons,
        List.not_mem_nil, reduceCtorEq, false_or, or_false, Label.call.injEq] at ha
      rcases ha with ⟨-, rfl⟩ | ⟨-, rfl⟩ | ⟨-, rfl⟩ | ⟨-, rfl⟩ | ⟨-, rfl⟩ | ⟨-, rfl⟩ | ⟨-, rfl⟩
      all_goals first | exact Or.inl rfl | exact Or.inr rfl
    rcases hclock with h | h <;> rw [h] <;>
      exact ⟨by decide, by decide, by decide, by decide, by decide, by decide⟩
  obtain ⟨replies, due, heq, hsaid, hreads, -⟩ :=
    fiberServer_converses quitParser [] _ _ hrun 5 (by rintro n a ⟨⟩) hnow
  have hsent : sentOn 5 (oneRequest ++
      [.call (.send 5 b) (plainAnswer b.length 0 fun _ => 0)]) = [(b, b.length)] := by
    rw [sentOn_snoc]
    rfl
  have hone : (repliesTo quitParser 5 (oneRequest ++
      [.call (.send 5 b) (plainAnswer b.length 0 fun _ => 0)])).length = 1 := by
    have hfirst : (repliesTo quitParser 5 oneRequest).length = 1 := by decide +kernel
    rw [repliesTo_snoc, List.length_append, hfirst]
    rfl
  rw [heq, List.length_append] at hone
  have hlen := hsaid.length_eq
  rw [hsent, List.length_singleton] at hlen
  obtain rfl : due = [] := List.length_eq_zero_iff.mp (by omega)
  obtain ⟨reply, rfl⟩ := List.length_eq_one_iff.mp hlen.symm
  refine ⟨b, _, hrun, reply, heq.trans (List.append_nil _), fun rest => ?_⟩
  rw [hsent] at hreads
  have hread := hreads.mpr (List.forall_mem_singleton.mpr le_rfl) rest
  rwa [Messages.taken, List.flatMap_singleton, List.take_length] at hread

end Waeio
