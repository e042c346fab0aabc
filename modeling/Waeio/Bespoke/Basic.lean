import Waeio.Http.Serving

/-!
# The bespoke server

`examples/httpserver/httpserver_bespoke.c`: one loop over `host_poll`, without fibers. All
of its variables are those of `main`, on its stack. The two buffers are not initialised
there and not cleared between two requests, so a run starts with any bytes in them.

One step for each call of the host; the sweep and the clean-up take a step of their own for
each entry that calls for none. The array `fds` has `MAX_CONNECTIONS` entries. A program
that writes behind it is at the point `overrun`, and takes no step: what comes after is not
for C to say.
-/

namespace Waeio

namespace Bespoke

open FiberServer (MAX_CONNECTIONS)
open Http (Call Answer Parser Verdict Tm contents)

/-- `buffer_size` -/
def BUFFER_SIZE : ℕ := 4096

/-- The length `host_recv` is given. -/
def RECV_SIZE : ℕ := 2048

/-- The time `host_poll` waits. -/
def timeout : ℤ := 3 * 60 * 1000

/-! ### The state -/

/-- **The poll array**, and how much of it is in use. -/
structure Table where
  /-- `fds` -/
  fds : ℕ → Pollfd
  /-- `nfds`, a `uint32_t`. -/
  nfds : ℕ

/-- **Where the program is.** -/
inductive Pc
  /-- Before `host_listen`. -/
  | listen : Pc
  /-- Before `host_poll`. -/
  | poll : Pc
  /-- In the sweep, before the entry `i`. -/
  | sweep (i : ℕ) : Pc
  /-- At the listener, which is the entry `i`, before `host_accept`. -/
  | accept (i : ℕ) : Pc
  /-- At the connection of the entry `i`, before `host_recv`. -/
  | recv (i : ℕ) : Pc
  /-- At the connection of the entry `i`, before `host_send` of `rc` bytes. -/
  | send (i rc : ℕ) : Pc
  /-- At the connection of the entry `i`, before `host_close`. -/
  | close (i : ℕ) : Pc
  /-- In the clean-up, before the entry `i`. -/
  | cleanUp (i : ℕ) : Pc
  /-- In the clean-up, before `host_close` of the entry `i`. -/
  | closeLast (i : ℕ) : Pc
  /-- The program has ended. -/
  | exited : Pc
  /-- An assertion has failed. -/
  | aborted : Pc
  /-- The program has written behind the array. -/
  | overrun : Pc
  deriving DecidableEq, Repr

/-- **The state of the program**: the variables of `main`, and where it is. -/
structure Program where
  /-- `listen_sd` -/
  listenSd : ℤ
  /-- `fds` and `nfds` -/
  table : Table
  /-- `current_size` -/
  currentSize : ℕ
  /-- `end_server` -/
  endServer : Bool
  /-- `compress_array` -/
  compressArray : Bool
  /-- `close_conn` -/
  closeConn : Bool
  /-- `reqbuf` -/
  reqbuf : ℕ → UInt8
  /-- `resbuf` -/
  resbuf : ℕ → UInt8
  /-- Where the program is. -/
  pc : Pc

/-- The program at the call of `host_listen`, with what happens to be in the buffers. -/
def Program.start (reqbuf resbuf : ℕ → UInt8) : Program where
  listenSd := -1
  table := { fds := fun _ => { fd := 0, events := 0, revents := 0 }, nfds := 1 }
  currentSize := 0
  endServer := false
  compressArray := false
  closeConn := false
  reqbuf := reqbuf
  resbuf := resbuf
  pc := .listen

/-! ### The compaction -/

/-- The inner loop of the compaction from `j` on, with `k` entries to go. -/
def moveDown : (k j : ℕ) → (ℕ → Pollfd) → ℕ → Pollfd
  | 0, _, fds => fds
  | k + 1, j, fds =>
    moveDown k (j + 1) (Function.update fds j { fds j with fd := (fds (j + 1)).fd })

/-- The compaction from the entry `i` on, with `fuel` rounds to go. -/
def compactFrom : (fuel i : ℕ) → Table → Table
  | 0, _, t => t
  | fuel + 1, i, t =>
    if i < t.nfds then
      if (t.fds i).fd = -1 then
        compactFrom fuel (Uint32.succ (Uint32.pred i))
          { fds := moveDown (Uint32.pred t.nfds - i) i t.fds, nfds := Uint32.pred t.nfds }
      else compactFrom fuel (Uint32.succ i) t
    else t

/-- The compaction. Each round takes one more entry or closes one hole, so there
are `nfds` rounds. -/
def compact (t : Table) : Table := compactFrom t.nfds 0 t

/-! ### The request loop -/

/-- The end of the request loop. -/
def loopEnd (s : Program) : Program :=
  if s.endServer then { s with pc := .cleanUp 0 } else { s with pc := .poll }

/-- The end of the sweep: the compaction, if there is to be one. -/
def sweepEnd (s : Program) : Program :=
  loopEnd
    (if s.compressArray then { s with compressArray := false, table := compact s.table } else s)

/-- The end of the loop over the requests of the connection at the entry `i`. -/
def connectionEnd (i : ℕ) (s : Program) : Program :=
  if s.closeConn then { s with pc := .close i } else { s with pc := .sweep (i + 1) }

/-- **What becomes of the request in the buffer.** The parser is given all of the buffer,
and there is no verdict where its result is none that it should return. -/
def classify (phr : Parser) (reqbuf : ℕ → UInt8) : Option Verdict :=
  let r := phr (contents reqbuf BUFFER_SIZE)
  if r.rc ≤ 0 ∧ r.rc ≠ -1 ∧ r.rc ≠ -2 then none else some (Http.verdict reqbuf r)

/-- From a receive that succeeded on: the response, and how many bytes of it to send. -/
def respond (phr : Parser) (now : Tm) (i : ℕ) (s : Program) : Program :=
  match classify phr s.reqbuf with
  | none => { s with pc := .aborted }
  | some v =>
    let (rc, resbuf) := v.response s.resbuf BUFFER_SIZE now
    let s :=
      { s with
        resbuf := resbuf
        closeConn := s.closeConn || v = Verdict.quit
        endServer := s.endServer || v = Verdict.quit }
    if rc = -1 then connectionEnd i { s with closeConn := true }
    else { s with pc := .send i rc.toNat }

/-! ### The steps -/

/-- A step without a call of the host. -/
def tauStep (s : Program) : Option Program :=
  match s.pc with
  | .sweep i =>
    if i < s.currentSize then
      let entry := s.table.fds i
      if entry.revents = 0 then some { s with pc := .sweep (i + 1) }
      else if entry.revents &&& POLLIN = 0 then some (sweepEnd { s with endServer := true })
      else if entry.fd = s.listenSd then some { s with pc := .accept i }
      else some { s with closeConn := false, pc := .recv i }
    else some (sweepEnd s)
  | .cleanUp i =>
    if i < s.table.nfds then
      if 0 ≤ (s.table.fds i).fd then some { s with pc := .closeLast i }
      else some { s with pc := .cleanUp (i + 1) }
    else some { s with pc := .exited }
  | _ => none

/-- The answer to `host_listen`. -/
def listened (s : Program) (a : Answer) : Program :=
  if a.ret < 0 then { s with listenSd := a.ret, pc := .exited }
  else
    { s with
      listenSd := a.ret
      table := { s.table with
        fds := Function.update s.table.fds 0 { s.table.fds 0 with fd := a.ret, events := POLLIN } }
      pc := .poll }

/-- The answer to `host_poll`. -/
def polled (s : Program) (a : Answer) : Program :=
  let fds : ℕ → Pollfd := fun k =>
    if k < s.table.nfds then { s.table.fds k with revents := a.revents k } else s.table.fds k
  let s := { s with table := { s.table with fds := fds } }
  if a.ret ≤ 0 then { s with pc := .cleanUp 0 }
  else { s with currentSize := s.table.nfds, pc := .sweep 0 }

/-- The answer to `host_accept`. The loop goes on while `new_sd` is not `-1`, which it is
not where it is not negative. -/
def accepted (i : ℕ) (s : Program) (a : Answer) : Program :=
  if a.ret < 0 then
    { s with endServer := s.endServer || a.errno ≠ HOST_EWOULDBLOCK, pc := .sweep (i + 1) }
  else if s.table.nfds < MAX_CONNECTIONS then
    { s with
      table :=
        { fds := Function.update s.table.fds s.table.nfds
            { s.table.fds s.table.nfds with fd := a.ret, events := POLLIN }
          nfds := Uint32.succ s.table.nfds }
      pc := .accept i }
  else { s with pc := .overrun }

/-- The answer to `host_recv`. -/
def received (phr : Parser) (i : ℕ) (s : Program) (a : Answer) : Program :=
  if a.ret < 0 then
    connectionEnd i { s with closeConn := s.closeConn || a.errno ≠ HOST_EAGAIN }
  else if a.ret = 0 then connectionEnd i { s with closeConn := true }
  else respond phr a.now i { s with reqbuf := Http.write s.reqbuf 0 (a.received RECV_SIZE) }

/-- The answer to `host_send`. -/
def sent (i : ℕ) (s : Program) (a : Answer) : Program :=
  if a.ret < 0 then connectionEnd i { s with closeConn := true } else { s with pc := .recv i }

/-- The answer to the `host_close` of the sweep. -/
def closed (i : ℕ) (s : Program) : Program :=
  { s with
    table := { s.table with fds := Function.update s.table.fds i { s.table.fds i with fd := -1 } }
    compressArray := true
    pc := .sweep (i + 1) }

/-- What the host is told of the array. -/
def pollArg (t : Table) : List (ℤ × BitVec 16) :=
  (List.range t.nfds).map fun i => ((t.fds i).fd, (t.fds i).events)

/-- **The call of the host the program is at.** -/
def Program.call (s : Program) : Option Call :=
  match s.pc with
  | .listen => some (.listen 8080 1000)
  | .poll => some (.poll (pollArg s.table) timeout)
  | .accept _ => some (.accept s.listenSd)
  | .recv i => some (.recv (s.table.fds i).fd RECV_SIZE)
  | .send i rc => some (.send (s.table.fds i).fd (contents s.resbuf rc))
  | .close i | .closeLast i => some (.close (s.table.fds i).fd)
  | _ => none

/-- **What the program does with the answer.** -/
def answered (phr : Parser) (s : Program) (a : Answer) : Program :=
  match s.pc with
  | .listen => listened s a
  | .poll => polled s a
  | .accept i => accepted i s a
  | .recv i => received phr i s a
  | .send i _ => sent i s a
  | .close i => closed i s
  | .closeLast i => { s with pc := .cleanUp (i + 1) }
  | _ => s

/-- What happens in a step. -/
inductive Label
  /-- The program goes on. -/
  | tau : Label
  /-- A call of the host, and its answer. -/
  | call (c : Call) (a : Answer) : Label

/-- **One step of the program.** -/
def step (phr : Parser) (s : Program) : Label → Option Program
  | .tau => tauStep s
  | .call c a => if s.call = some c then some (answered phr s a) else none

/-- A step as a transition. -/
def Step (phr : Parser) (s : Program) (a : Label) (t : Program) : Prop := step phr s a = some t

/-- The program goes on with the answer to its call. -/
theorem step_call {phr : Parser} {s : Program} {c : Call} (h : s.call = some c) (a : Answer) :
    Step phr s (.call c a) (answered phr s a) :=
  if_pos h

/-- **A run of the program**, from its first call of the host on, with some bytes in the
buffers. -/
def Runs (phr : Parser) (l : List Label) (s : Program) : Prop :=
  ∃ reqbuf resbuf, Lts.Steps (Step phr) (.start reqbuf resbuf) l s

theorem runs_of_exec {phr : Parser} {reqbuf resbuf : ℕ → UInt8} {l : List Label} {s : Program}
    (h : s ∈ Lts.exec (step phr) (.start reqbuf resbuf) l) : Runs phr l s :=
  ⟨reqbuf, resbuf, Lts.exec_eq_some_iff.mp h⟩

/-- A run goes on. -/
theorem Runs.snoc {phr : Parser} {l : List Label} {s t : Program} {a : Label} (h : Runs phr l s)
    (hstep : Step phr s a t) : Runs phr (l ++ [a]) t := by
  obtain ⟨reqbuf, resbuf, h⟩ := h
  exact ⟨reqbuf, resbuf, h.snoc hstep⟩

end Bespoke

end Waeio
