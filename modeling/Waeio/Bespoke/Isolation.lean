import Waeio.Bespoke.Basic

/-!
# Whose bytes the bespoke server answers

The parser is given all 4096 bytes of the buffer, of which a receive writes the first 2048
at most. What is behind them is what was there before: bytes of an earlier request, of this
client or of another, or what was on the stack when the server started. So a response is a
function of the bytes received where the parser does not come to different verdicts over
what may follow them (`Waeio.Bespoke.Determined`), and where it does it is not: `Responds`
cannot hold of all runs then, whatever the function
(`Waeio.Bespoke.determined_of_responds`).

A receive that holds all of a request, or shows that it is none, is of the first kind
(`Waeio.Bespoke.determined_of_complete`), if the parser reads from left to right.
-/

namespace Waeio

namespace Bespoke

open Http (Call Answer Parser Verdict Tm contents)

/-! ### What is claimed of a run -/

/-- **The responses in a run are a function of the bytes received**: right before each send
there is a receive on the same descriptor that has succeeded, and what is sent is what the
function has for the bytes of that receive, and the clock. -/
def Responds (respond : List UInt8 → Tm → List UInt8) (l : List Label) : Prop :=
  ∀ l₁ d data a' l₂, l = l₁ ++ .call (.send d data) a' :: l₂ →
    ∃ l₀ a, l₁ = l₀ ++ [.call (.recv d RECV_SIZE) a] ∧ 0 < a.ret ∧
      data = respond (a.received RECV_SIZE) a.now

/-- What the receives of a run that succeed return is in `S`. -/
def Receives (S : List UInt8 → Prop) (l : List Label) : Prop :=
  ∀ d n a, .call (.recv d n) a ∈ l → 0 < a.ret → S (a.received RECV_SIZE)

/-- **The verdict is determined by the bytes received**: the parser does not come to two
verdicts over what may be behind them in the buffer. -/
def Determined (phr : Parser) (b : List UInt8) : Prop :=
  ∀ x y v w, classify phr (Http.write x 0 b) = some v → classify phr (Http.write y 0 b) = some w →
    v = w

/-- What is sent where this is the verdict. -/
def sentFor (v : Verdict) (now : Tm) : List UInt8 :=
  contents (v.response (fun _ => 0) BUFFER_SIZE now).2
    (v.response (fun _ => 0) BUFFER_SIZE now).1.toNat

variable {phr : Parser} {s t : Program} {i rc : ℕ}

/-! ### How the program gets to a send -/

theorem loopEnd_ne_send : (loopEnd s).pc ≠ .send i rc := by
  rw [loopEnd]
  split_ifs <;> simp

theorem sweepEnd_ne_send : (sweepEnd s).pc ≠ .send i rc := loopEnd_ne_send

theorem connectionEnd_ne_send {j : ℕ} : (connectionEnd j s).pc ≠ .send i rc := by
  rw [connectionEnd]
  split_ifs <;> simp

theorem tauStep_ne_send (h : tauStep s = some t) : t.pc ≠ .send i rc := by
  rw [tauStep] at h
  split at h
  · dsimp only at h
    split_ifs at h <;> obtain rfl := Option.some.inj h
    · simp
    · exact sweepEnd_ne_send
    · simp
    · simp
    · exact sweepEnd_ne_send
  · split_ifs at h <;> obtain rfl := Option.some.inj h <;> simp
  · exact absurd h nofun

/-- The answers of the host but for those to a receive. -/
theorem answered_ne_send {a : Answer} (hrecv : ∀ j, s.pc ≠ .recv j) (hcall : s.call ≠ none) :
    (answered phr s a).pc ≠ .send i rc := by
  rw [answered]
  cases hpc : s.pc with
  | listen =>
    dsimp only
    rw [listened]
    split_ifs <;> simp
  | poll =>
    dsimp only
    rw [polled]
    dsimp only
    split_ifs <;> simp
  | accept j =>
    dsimp only
    rw [accepted]
    split_ifs <;> simp
  | recv j => exact absurd hpc (hrecv j)
  | send j n =>
    dsimp only
    rw [sent]
    split_ifs
    · exact connectionEnd_ne_send
    · simp
  | close j => simp [closed]
  | closeLast j => simp
  | _ => exact absurd (by rw [Program.call, hpc]) hcall

/-- A receive that succeeds leads to a send by the verdict on the buffer. -/
theorem respond_eq_send {now : Tm} {j : ℕ} (h : (respond phr now j s).pc = .send i rc) :
    i = j ∧ (respond phr now j s).table = s.table ∧ ∃ v, classify phr s.reqbuf = some v ∧
      contents (respond phr now j s).resbuf rc = sentFor v now := by
  rw [respond] at h ⊢
  cases hv : classify phr s.reqbuf with
  | none =>
    rw [hv] at h
    exact absurd h (by simp)
  | some v =>
    rw [hv] at h
    dsimp only at h ⊢
    split_ifs at h ⊢
    · exact absurd h connectionEnd_ne_send
    · obtain ⟨rfl, rfl⟩ := Pc.send.inj h
      exact ⟨rfl, rfl, v, rfl, (v.contents_response (by decide) _ _ now).2⟩

/-- **Only a receive that succeeds leads to a send.** -/
theorem send_of_step {a : Label} (h : Step phr s a t) (hpc : t.pc = .send i rc) :
    ∃ ans, a = .call (.recv (t.table.fds i).fd RECV_SIZE) ans ∧ 0 < ans.ret ∧
      ∃ v, classify phr (Http.write s.reqbuf 0 (ans.received RECV_SIZE)) = some v ∧
        contents t.resbuf rc = sentFor v ans.now := by
  cases a with
  | tau => exact absurd hpc (tauStep_ne_send h)
  | call c ans =>
    obtain ⟨hc, ht⟩ := Option.ite_none_right_eq_some.mp h
    obtain rfl := Option.some.inj ht
    by_cases hrecv : ∃ j, s.pc = .recv j
    · obtain ⟨j, hs⟩ := hrecv
      rw [Program.call, hs] at hc
      rw [answered, hs] at hpc ⊢
      dsimp only at hpc ⊢
      obtain rfl := Option.some.inj hc
      rw [received] at hpc ⊢
      split_ifs at hpc ⊢ with hneg hzero
      · exact absurd hpc connectionEnd_ne_send
      · exact absurd hpc connectionEnd_ne_send
      · obtain ⟨rfl, htable, v, hv, hsent⟩ := respond_eq_send hpc
        exact ⟨ans, by rw [htable], by omega, v, hv, hsent⟩
    · refine absurd hpc (answered_ne_send (fun j hs => hrecv ⟨j, hs⟩) ?_)
      rw [hc]
      exact nofun

/-- What the program is about to call. -/
theorem call_eq_send {d : ℤ} {data : List UInt8} (h : s.call = some (.send d data)) :
    ∃ i rc, s.pc = .send i rc ∧ d = (s.table.fds i).fd ∧ data = contents s.resbuf rc := by
  cases hpc : s.pc with
  | send i rc =>
    rw [Program.call, hpc] at h
    obtain ⟨rfl, rfl⟩ := Http.Call.send.inj (Option.some.inj h)
    exact ⟨_, _, rfl, rfl, rfl⟩
  | _ =>
    rw [Program.call, hpc] at h
    exact absurd h (by simp)

/-- **Before a send in a run**, the same descriptor was received from, and the verdict is
that on the bytes received and some bytes behind them. -/
theorem Runs.before_send {l l₁ l₂ : List Label} {d : ℤ} {data : List UInt8} {a' : Answer}
    (h : Runs phr l s) (hl : l = l₁ ++ .call (.send d data) a' :: l₂) :
    ∃ l₀ a, l₁ = l₀ ++ [.call (.recv d RECV_SIZE) a] ∧ 0 < a.ret ∧
      ∃ x v, classify phr (Http.write x 0 (a.received RECV_SIZE)) = some v ∧
        data = sentFor v a.now := by
  subst hl
  obtain ⟨reqbuf, resbuf, h⟩ := h
  obtain ⟨u, hu, hrest⟩ := h.split
  cases hrest with
  | cons hstep _ =>
    obtain ⟨hcall, -⟩ := Option.ite_none_right_eq_some.mp hstep
    obtain ⟨i, rc, hpc, rfl, rfl⟩ := call_eq_send hcall
    -- the step before led to the send, and there was one
    rcases List.eq_nil_or_concat' l₁ with rfl | ⟨l₀, b, rfl⟩
    · cases hu
      exact absurd hpc (by simp [Program.start])
    · obtain ⟨w, -, hlast⟩ := hu.split
      cases hlast with
      | cons hlast hnil =>
        cases hnil
        obtain ⟨a, rfl, hret, v, hv, hsent⟩ := send_of_step hlast hpc
        exact ⟨l₀, a, rfl, hret, _, v, hv, hsent⟩

/-! ### Where the verdict is determined -/

/-- The response to bytes that determine it. -/
noncomputable def responseTo (phr : Parser) (b : List UInt8) (now : Tm) : List UInt8 := by
  classical
  exact if h : ∃ v x, classify phr (Http.write x 0 b) = some v then sentFor h.choose now else []

theorem responseTo_eq {b : List UInt8} {x : ℕ → UInt8} {v : Verdict} (hb : Determined phr b)
    (hv : classify phr (Http.write x 0 b) = some v) (now : Tm) :
    responseTo phr b now = sentFor v now := by
  have h : ∃ v x, classify phr (Http.write x 0 b) = some v := ⟨v, x, hv⟩
  rw [responseTo, dif_pos h]
  obtain ⟨y, hy⟩ := h.choose_spec
  rw [hb y x _ _ hy hv]

/-- What a receive that succeeds returns is not empty, and no more than it asked for. -/
theorem received_length {a : Answer} (h : 0 < a.ret) :
    a.received RECV_SIZE ≠ [] ∧ (a.received RECV_SIZE).length ≤ RECV_SIZE := by
  have hlen : (a.received RECV_SIZE).length = min a.ret.toNat RECV_SIZE := by
    simp [Answer.received, contents]
  constructor
  · intro hnil
    have hpos : 0 < RECV_SIZE := by decide
    rw [hnil, List.length_nil] at hlen
    omega
  · omega

/-- **Where all verdicts are determined**, responses are a function of the bytes. -/
theorem responds_of_determined {S : List UInt8 → Prop}
    (hS : ∀ b, S b → b ≠ [] → b.length ≤ RECV_SIZE → Determined phr b) {l : List Label}
    (h : Runs phr l s) (hl : Receives S l) : Responds (responseTo phr) l := by
  intro l₁ d data a' l₂ heq
  obtain ⟨l₀, a, rfl, hret, x, v, hv, rfl⟩ := h.before_send heq
  have hmem : .call (.recv d RECV_SIZE) a ∈ l := by simp [heq]
  obtain ⟨hne, hle⟩ := received_length hret
  have hdet := hS _ (hl _ _ _ hmem hret) hne hle
  exact ⟨l₀, a, rfl, hret, (responseTo_eq hdet hv a.now).symm⟩

/-! ### Where a verdict is not determined -/

/-- 1 January 1970. -/
def epoch : Tm := ⟨4, 1, 0, 70, 0, 0, 0⟩

/-- An answer that writes nothing but the events of `host_poll`. -/
def plainAnswer (ret errno : ℤ) (revents : ℕ → BitVec 16) : Answer :=
  { ret := ret, errno := errno, revents := revents, data := fun _ => 0, now := epoch }

/-- The host hands over the bytes `b`. -/
def arrival (b : List UInt8) : Answer :=
  { ret := b.length, errno := 0, revents := fun _ => 0, data := fun k => b.getD k 0, now := epoch }

theorem received_arrival {b : List UInt8} (h : b.length ≤ RECV_SIZE) :
    (arrival b).received RECV_SIZE = b := by
  have hlen : min (b.length : ℤ).toNat RECV_SIZE = b.length := by omega
  rw [Answer.received, arrival, hlen, contents]
  refine List.ext_getElem (by simp) fun k hk hk' => ?_
  simp [List.getElem?_eq_getElem hk']

/-- The server starts, and a client connects and is about to be received from. -/
def opening : List Label :=
  [.call (.listen 8080 1000) (plainAnswer 3 0 fun _ => 0),
    .call (.poll [(3, POLLIN)] timeout) (plainAnswer 1 0 fun _ => POLLIN), .tau,
    .call (.accept 3) (plainAnswer 5 0 fun _ => 0),
    .call (.accept 3) (plainAnswer (-1) HOST_EWOULDBLOCK fun _ => 0), .tau,
    .call (.poll [(3, POLLIN), (5, POLLIN)] timeout)
      (plainAnswer 1 0 fun k => if k = 1 then POLLIN else 0), .tau, .tau]

theorem exec_opening (phr : Parser) (x y : ℕ → UInt8) :
    ∃ s ∈ Lts.exec (step phr) (.start x y) opening, s.pc = .recv 1 ∧ s.reqbuf = x := by
  simp [opening, Lts.exec, step, Program.call, Program.start, answered, listened, plainAnswer,
    polled, pollArg, tauStep, accepted, sweepEnd, loopEnd, Function.update, POLLIN,
    FiberServer.MAX_CONNECTIONS, Uint32.succ, Option.bind, List.range, List.range.loop]

/-- The length of each response, at the epoch. -/
theorem response_epoch (v : Verdict) : (v.response (fun _ => 0) BUFFER_SIZE epoch).1 =
    match v with
    | .ok => 2158
    | .quit => 112
    | .notFound => 108
    | .badRequest => 110
    | .tooLarge => 116
    | .failure => 132 := by
  cases v with
  | ok =>
    -- the text is long, so its length is taken as known
    have hsum : ((Http.pieces "200 OK" (some Http.responseBody) 2054 epoch).map fun text =>
        (Http.bytes text).length).sum = 2158 := by
      have hhead : (((Http.pieces "200 OK" none 2054 epoch).dropLast).map fun text =>
          (Http.bytes text).length).sum = 104 := by
        decide +kernel
      have hsplit : Http.pieces "200 OK" (some Http.responseBody) 2054 epoch =
          (Http.pieces "200 OK" none 2054 epoch).dropLast ++
            [Http.percentS (some Http.responseBody)] := rfl
      rw [hsplit, List.map_append, List.sum_append, hhead, List.map_singleton, List.sum_singleton,
        Http.noNul_responseBody.percentS, Http.length_responseBody]
    simp only [Verdict.response, Http.responseOk, Http.length_responseBody]
    rw [Http.makeResponse_fst _ _ _ _ _ _ hsum (by decide), if_neg (by decide)]
    rfl
  | quit => decide +kernel
  | notFound => decide +kernel
  | badRequest => decide +kernel
  | tooLarge => decide +kernel
  | failure => decide +kernel

/-- What is sent tells which verdict it was. -/
theorem sentFor_injective {v w : Verdict} (h : sentFor v epoch = sentFor w epoch) : v = w := by
  have hlen : ∀ v, (sentFor v epoch).length =
      (v.response (fun _ => 0) BUFFER_SIZE epoch).1.toNat := by simp [sentFor, contents]
  have heq := congrArg List.length h
  rw [hlen, hlen, response_epoch, response_epoch] at heq
  cases v <;> cases w <;> first | rfl | exact absurd heq (by decide)

/-- At the epoch every response fits, so a verdict leads to a send. -/
theorem respond_epoch {j : ℕ} {v : Verdict} (hv : classify phr s.reqbuf = some v) :
    ∃ resbuf rc, respond phr epoch j s =
        { s with
          resbuf := resbuf
          closeConn := s.closeConn || v = Verdict.quit
          endServer := s.endServer || v = Verdict.quit
          pc := .send j rc } ∧
      contents resbuf rc = sentFor v epoch := by
  obtain ⟨hlen, hsent⟩ := v.contents_response
    (by decide : BUFFER_SIZE < 2 ^ 32) s.resbuf (fun _ => 0) epoch
  have hfits : (v.response s.resbuf BUFFER_SIZE epoch).1 ≠ -1 := by
    rw [hlen, response_epoch]
    cases v <;> decide
  refine ⟨_, _, ?_, hsent⟩
  rw [respond, hv]
  dsimp only
  rw [if_neg hfits]

/-- A client sends `b` on `d`, and is answered by the verdict `v`. -/
def exchange (d : ℤ) (b : List UInt8) (v : Verdict) : List Label :=
  [.call (.recv d RECV_SIZE) (arrival b),
    .call (.send d (sentFor v epoch)) (plainAnswer 0 0 fun _ => 0)]

/-- **An exchange**, as part of a run. -/
theorem Runs.exchange {l : List Label} (h : Runs phr l s) (hpc : s.pc = .recv i) {b : List UInt8}
    (hb : b ≠ []) (hlen : b.length ≤ RECV_SIZE) {v : Verdict}
    (hv : classify phr (Http.write s.reqbuf 0 b) = some v) :
    ∃ resbuf, Runs phr (l ++ exchange (s.table.fds i).fd b v)
      { s with
        reqbuf := Http.write s.reqbuf 0 b
        resbuf := resbuf
        closeConn := s.closeConn || v = Verdict.quit
        endServer := s.endServer || v = Verdict.quit } := by
  obtain ⟨resbuf, rc, hrespond, hsent⟩ := respond_epoch
    (s := { s with reqbuf := Http.write s.reqbuf 0 b }) (j := i) hv
  have hrecv : s.call = some (.recv (s.table.fds i).fd RECV_SIZE) := by
    rw [Program.call, hpc]
  -- the receive leads to the response
  have hanswered : answered phr s (arrival b) =
      respond phr epoch i { s with reqbuf := Http.write s.reqbuf 0 b } := by
    have hpos : 0 < b.length := List.length_pos_iff.mpr hb
    have hret : ¬ (arrival b).ret < 0 ∧ ¬ (arrival b).ret = 0 := by
      simp only [arrival]
      omega
    rw [answered, hpc]
    dsimp only
    rw [received, if_neg hret.1, if_neg hret.2, received_arrival hlen]
    rfl
  have hrun := h.snoc (step_call hrecv (arrival b))
  rw [hanswered, hrespond] at hrun
  refine ⟨resbuf, ?_⟩
  have hrun' := hrun.snoc (step_call (c := .send (s.table.fds i).fd (sentFor v epoch))
    (by rw [Program.call, ← hsent]) (plainAnswer 0 0 fun _ => 0))
  rw [List.append_assoc] at hrun'
  obtain ⟨listenSd, table, currentSize, endServer, compressArray, closeConn, reqbuf, old, pc⟩ := s
  obtain rfl : pc = .recv i := hpc
  exact hrun'

/-- What the function has for the bytes of an exchange. -/
theorem Responds.of_exchange {f : List UInt8 → Tm → List UInt8} {l : List Label} {d : ℤ}
    {b : List UInt8} {v : Verdict} (h : Responds f (l ++ exchange d b v))
    (hlen : b.length ≤ RECV_SIZE) : sentFor v epoch = f b epoch := by
  obtain ⟨l₀, a, hl₀, -, hdata⟩ := h (l ++ [.call (.recv d RECV_SIZE) (arrival b)]) d
    (sentFor v epoch) (plainAnswer 0 0 fun _ => 0) [] (by simp [exchange])
  obtain ⟨-, rfl⟩ := Label.call.inj (List.head_eq_of_cons_eq (List.append_inj_right' hl₀ rfl))
  rwa [received_arrival hlen] at hdata

/-- **Where responses are a function of the bytes**, each verdict is determined. -/
theorem determined_of_responds {S : List UInt8 → Prop} {f : List UInt8 → Tm → List UInt8}
    (h : ∀ l s, Runs phr l s → Receives S l → Responds f l) {b : List UInt8} (hS : S b)
    (hb : b ≠ []) (hlen : b.length ≤ RECV_SIZE) : Determined phr b := by
  -- whatever is behind the bytes, what is sent is what the function has for them
  have hsent : ∀ {x v}, classify phr (Http.write x 0 b) = some v → sentFor v epoch = f b epoch := by
    intro x v hv
    obtain ⟨s, hs, hpc, hbuf⟩ := exec_opening phr x fun _ => 0
    rw [← hbuf] at hv
    obtain ⟨resbuf, hrun⟩ := (runs_of_exec hs).exchange hpc hb hlen hv
    have hreceives : Receives S (opening ++ exchange (s.table.fds 1).fd b v) := by
      intro d n a ha hpos
      obtain rfl : a = arrival b := by
        simp [exchange, opening] at ha
        exact ha.2
      rwa [received_arrival hlen]
    exact (h _ _ hrun hreceives).of_exchange hlen
  exact fun x y v w hv hw => sentFor_injective ((hsent hv).trans (hsent hw).symm)

/-! ### Requests that are complete -/

/-- **A parser that reads from left to right**: once it has come to a result, more bytes do not
change it, and the path of a request lies within it. -/
structure LeftToRight (phr : Parser) : Prop where
  /-- A result other than `-2` is final. -/
  append : ∀ b c, (phr b).rc ≠ -2 → phr (b ++ c) = phr b
  /-- The path is among the bytes of the request. -/
  path_le : ∀ b i, (phr b).path = some i → i + (phr b).pathLen ≤ b.length

/-- The bytes received, and those behind them. -/
theorem contents_write (x : ℕ → UInt8) {b : List UInt8} {n : ℕ} (h : b.length ≤ n) :
    ∃ c, contents (Http.write x 0 b) n = b ++ c := by
  refine ⟨(contents (Http.write x 0 b) n).drop b.length, ?_⟩
  conv_lhs => rw [← List.take_append_drop b.length (contents (Http.write x 0 b) n)]
  congr 1
  refine List.ext_getElem (by simp [contents, h]) fun k hk hk' => ?_
  simp [contents, Http.write, hk']

/-- The verdict looks at the path of the request only. -/
theorem verdict_write (x y : ℕ → UInt8) {b : List UInt8} {r : Http.ParseResult}
    (h : ∀ i, r.path = some i → i + r.pathLen ≤ b.length) :
    Http.verdict (Http.write x 0 b) r = Http.verdict (Http.write y 0 b) r := by
  have hstarts : ∀ text, r.pathLen = (Http.bytes text).length →
      Http.startsWith (Http.write x 0 b) r.path text =
        Http.startsWith (Http.write y 0 b) r.path text := by
    intro text hlen
    cases hp : r.path with
    | none => rfl
    | some i =>
      have hle := h i hp
      have heq : ((List.range (Http.bytes text).length).map fun k => Http.write x 0 b (i + k)) =
          (List.range (Http.bytes text).length).map fun k => Http.write y 0 b (i + k) := by
        refine List.map_congr_left fun k hk => Http.write_congr b (Or.inl ⟨Nat.zero_le _, ?_⟩)
        have := List.mem_range.mp hk
        omega
      simp only [Http.startsWith, heq]
  have hroot : (r.pathLen = 1 ∧ Http.startsWith (Http.write x 0 b) r.path "/") ↔
      (r.pathLen = 1 ∧ Http.startsWith (Http.write y 0 b) r.path "/") :=
    and_congr_right fun hlen => by rw [hstarts "/" hlen]
  have hquit : (r.pathLen = (Http.bytes "/quit").length ∧
        Http.startsWith (Http.write x 0 b) r.path "/quit") ↔
      (r.pathLen = (Http.bytes "/quit").length ∧
        Http.startsWith (Http.write y 0 b) r.path "/quit") :=
    and_congr_right fun hlen => by rw [hstarts "/quit" hlen]
  simp only [Http.verdict, hroot, hquit]

/-- **A receive that holds all of a request**, or what cannot become one, determines the
verdict. -/
theorem determined_of_complete (h : LeftToRight phr) {b : List UInt8}
    (hlen : b.length ≤ BUFFER_SIZE) (hb : (phr b).rc ≠ -2) : Determined phr b := by
  have hclassify : ∀ x, classify phr (Http.write x 0 b) =
      if (phr b).rc ≤ 0 ∧ (phr b).rc ≠ -1 ∧ (phr b).rc ≠ -2 then none
      else some (Http.verdict (Http.write x 0 b) (phr b)) := by
    intro x
    obtain ⟨c, hc⟩ := contents_write x hlen
    rw [classify, hc, h.append b c hb]
  intro x y v w hv hw
  rw [hclassify, verdict_write x y (h.path_le b), ← hclassify] at hv
  exact Option.some.inj (hv.symm.trans hw)

/-! ### A client that sends part of a request -/

/-- A complete request. -/
def rootRequest : List UInt8 := Http.bytes "GET / HTTP/1.1\r\nHost: a\r\n\r\n"

/-- The first five bytes of it. -/
def rootPrefix : List UInt8 := Http.bytes "GET /"

/-- The parser, on buffers that begin with `rootRequest` and on such as begin with no request. -/
def rootParser : Parser := fun b =>
  if b.take 27 = rootRequest then ⟨27, some 4, 1, 1⟩ else ⟨-1, none, 0, 0⟩

/-- Two clients connect, and `host_poll` reports `revents`. -/
def twoClients (revents : ℕ → BitVec 16) : List Label :=
  [.call (.listen 8080 1000) (plainAnswer 3 0 fun _ => 0),
    .call (.poll [(3, POLLIN)] timeout) (plainAnswer 1 0 fun _ => POLLIN), .tau,
    .call (.accept 3) (plainAnswer 5 0 fun _ => 0),
    .call (.accept 3) (plainAnswer 6 0 fun _ => 0),
    .call (.accept 3) (plainAnswer (-1) HOST_EWOULDBLOCK fun _ => 0), .tau,
    .call (.poll [(3, POLLIN), (5, POLLIN), (6, POLLIN)] timeout) (plainAnswer 1 0 revents), .tau,
    .tau]

/-- The second client sends the beginning of a request, and nothing was received before. -/
theorem runs_alone : ∃ l s, Runs rootParser (l ++ exchange 6 rootPrefix .badRequest) s := by
  obtain ⟨s, hs, hpc, hfd, hv⟩ : ∃ s ∈ Lts.exec (step rootParser)
      (.start (fun _ => 0) fun _ => 0)
      (twoClients (fun k => if k = 2 then POLLIN else 0) ++ [.tau]),
      s.pc = .recv 2 ∧ (s.table.fds 2).fd = 6 ∧
        classify rootParser (Http.write s.reqbuf 0 rootPrefix) = some .badRequest := by
    decide +kernel
  obtain ⟨resbuf, hrun⟩ := (runs_of_exec hs).exchange hpc (by decide) (by decide) hv
  rw [hfd] at hrun
  exact ⟨_, _, hrun⟩

/-- The second client sends the same, after the first has sent a request. -/
theorem runs_behind : ∃ l s, Runs rootParser (l ++ exchange 6 rootPrefix .ok) s := by
  obtain ⟨s, hs, hpc, ⟨hfd, hrevents, hsize, hlisten, hconn⟩, hv, hv'⟩ :
      ∃ s ∈ Lts.exec (step rootParser) (.start (fun _ => 0) fun _ => 0)
        (twoClients fun k => if k = 0 then 0 else POLLIN),
      s.pc = .recv 1 ∧ ((s.table.fds 2).fd = 6 ∧ (s.table.fds 2).revents = POLLIN ∧
          s.currentSize = 3 ∧ s.listenSd = 3 ∧ s.closeConn = false) ∧
        classify rootParser (Http.write s.reqbuf 0 rootRequest) = some .ok ∧
        classify rootParser (Http.write (Http.write s.reqbuf 0 rootRequest) 0 rootPrefix) =
          some .ok := by
    decide +kernel
  obtain ⟨resbuf, hrun⟩ := (runs_of_exec hs).exchange hpc (by decide) (by decide) hv
  -- nothing more from the first client, and on to the second
  have hagain := hrun.snoc (t := { s with
      reqbuf := Http.write s.reqbuf 0 rootRequest, resbuf := resbuf, pc := .sweep 2 })
    (a := .call (.recv (s.table.fds 1).fd RECV_SIZE) (plainAnswer (-1) HOST_EAGAIN fun _ => 0))
    (by simp [Step, step, Program.call, answered, hpc, received, plainAnswer, connectionEnd, hconn])
  have hnext := hagain.snoc (a := .tau) (t := { s with
      reqbuf := Http.write s.reqbuf 0 rootRequest, resbuf := resbuf, pc := .recv 2 })
    (by simp [Step, step, tauStep, hsize, hrevents, hfd, hlisten, hconn, POLLIN])
  obtain ⟨resbuf', hrun'⟩ := hnext.exchange rfl (by decide) (by decide) hv'
  rw [hfd] at hrun'
  exact ⟨_, _, hrun'⟩

end Bespoke

/-! ### Whose bytes are answered -/

/-- **The bespoke server answers a client from that client's bytes**, in all runs whose
receives return byte strings from `S`, exactly when each of them, that a receive may return,
determines the verdict. -/
theorem bespoke_isolated_iff (phr : Http.Parser) (S : List UInt8 → Prop) :
    (∃ respond, ∀ l s, Bespoke.Runs phr l s → Bespoke.Receives S l → Bespoke.Responds respond l) ↔
      ∀ b, S b → b ≠ [] → b.length ≤ Bespoke.RECV_SIZE → Bespoke.Determined phr b := by
  constructor
  · rintro ⟨respond, h⟩ b hS hb hlen
    exact Bespoke.determined_of_responds h hS hb hlen
  · intro hS
    exact ⟨Bespoke.responseTo phr, fun l s h hl => Bespoke.responds_of_determined hS h hl⟩

/-- **Not in all runs**: the same five bytes are a bad request of a client that is alone, and
those of the page behind the request of another. -/
theorem not_bespoke_isolated : ¬ ∃ respond, ∀ l s, Bespoke.Runs Bespoke.rootParser l s →
    Bespoke.Responds respond l := by
  rintro ⟨respond, h⟩
  -- the function has one response for the five bytes
  have hsent : ∀ {l s v}, Bespoke.Runs Bespoke.rootParser
      (l ++ Bespoke.exchange 6 Bespoke.rootPrefix v) s →
        Bespoke.sentFor v Bespoke.epoch = respond Bespoke.rootPrefix Bespoke.epoch := by
    intro l s v hrun
    exact (h _ _ hrun).of_exchange (by decide)
  obtain ⟨_, _, halone⟩ := Bespoke.runs_alone
  obtain ⟨_, _, hbehind⟩ := Bespoke.runs_behind
  exact absurd (Bespoke.sentFor_injective ((hsent halone).trans (hsent hbehind).symm)) (by decide)

end Waeio
