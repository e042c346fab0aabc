import Mathlib.Data.List.Basic
import Waeio.HostDriver.Frame

/-!
# Opening a descriptor

The three bindings that open a descriptor, `host_listen`, `host_connect` and `host_accept`,
with a log of the system calls they make
(`Waeio.HostDriver.Logged`). Forgetting the log gives back the bindings of
`Waeio.HostDriver.Basic` (`Waeio.HostDriver.Opening.traced_outcome`), and what the calls of a
log leave open is read off it (`Waeio.HostDriver.Sys.left`).

Opening is *all or nothing* (`Waeio.HostDriver.Traced.AllOrNothing`) when the binding returns
a descriptor in use and non-blocking after calls that have all succeeded, and otherwise a
negative value, the `errno` of the first call that failed, and nothing left open. No binding
ever closes what it has opened, and so this holds of two kinds of calls only: those where all
goes well, and those where the very call that would have opened the descriptor fails – which
`host_connect` answers with an `i64` and at the wrong address, and `host_listen` with the
`errno` of the call after it.
-/

namespace Waeio

namespace HostDriver

open Bytes (Memory)

/-! ### What the host knows of a descriptor -/

/-- A system call about a descriptor. -/
inductive Call
  | socket
  | setsockopt (fd : BitVec 32)
  | bind (fd : BitVec 32) (addr : SockaddrIn)
  | listen (fd backlog : BitVec 32)
  | accept (fd : BitVec 32)
  | connect (fd : BitVec 32) (addr : SockaddrIn)
  | getfl (fd : BitVec 32)
  | setfl (fd flags : BitVec 32)
  | close (fd : BitVec 32)
  deriving DecidableEq, Repr

/-- What the system answers. -/
def Sys.answer (sys : Sys) : Call → SysRet
  | .socket => sys.socket
  | .setsockopt fd => sys.setsockopt fd
  | .bind fd addr => sys.bind fd addr
  | .listen fd backlog => sys.listen fd backlog
  | .accept fd => sys.accept fd
  | .connect fd addr => sys.connect fd addr
  | .getfl fd => sys.getfl fd
  | .setfl fd flags => sys.setfl fd flags
  | .close fd => sys.close fd

/-- **The call succeeds.** -/
def Sys.Succeeds (sys : Sys) (c : Call) : Prop :=
  match c with
  | .setsockopt fd => (sys.setsockopt fd).ret = 0
  | .getfl fd => (sys.getfl fd).ret ≠ -1
  | .setfl fd flags => (sys.setfl fd flags).ret = 0
  | c => ¬ (sys.answer c).Failed

instance (sys : Sys) : DecidablePred sys.Succeeds
  | .setsockopt _ => inferInstanceAs (Decidable (_ = _))
  | .getfl _ => inferInstanceAs (Decidable (_ ≠ _))
  | .setfl _ _ => inferInstanceAs (Decidable (_ = _))
  | .socket | .bind _ _ | .listen _ _ | .accept _ | .connect _ _ | .close _ =>
    inferInstanceAs (Decidable (¬ _))

/-- What a descriptor is good for. -/
inductive Use
  | fresh
  | listening
  | connected
  | accepted
  deriving DecidableEq, Repr

/-- A descriptor that is open. -/
structure Desc where
  /-- What it is good for. -/
  use : Use
  /-- `O_NONBLOCK` is set. -/
  nonblocking : Bool
  deriving DecidableEq, Repr

/-- The open descriptors, among those a binding has opened. -/
abbrev Descriptors := BitVec 32 → Option Desc

/-- **What a call does to them**: nothing, where it fails. -/
def Sys.effect (sys : Sys) (c : Call) (ds : Descriptors) : Descriptors :=
  if sys.Succeeds c then
    match c with
    | .socket => Function.update ds sys.socket.ret (some ⟨.fresh, false⟩)
    | .accept fd => Function.update ds (sys.accept fd).ret (some ⟨.accepted, false⟩)
    | .listen fd _ => Function.update ds fd ((ds fd).map fun d => { d with use := .listening })
    | .connect fd _ => Function.update ds fd ((ds fd).map fun d => { d with use := .connected })
    | .setfl fd flags =>
      Function.update ds fd
        ((ds fd).map fun d => { d with nonblocking := flags &&& O_NONBLOCK ≠ 0 })
    | .close fd => Function.update ds fd none
    | .setsockopt _ | .bind _ _ | .getfl _ => ds
  else ds

/-- What a log leaves open, its last call first. -/
def Sys.left (sys : Sys) : List Call → Descriptors
  | [] => fun _ => none
  | c :: calls => sys.effect c (sys.left calls)

/-- A call that fails changes nothing. -/
theorem Sys.effect_of_not_succeeds {sys : Sys} {c : Call} (h : ¬ sys.Succeeds c)
    (ds : Descriptors) : sys.effect c ds = ds := if_neg h

theorem Sys.left_cons_of_not_succeeds {sys : Sys} {c : Call} (h : ¬ sys.Succeeds c)
    (calls : List Call) : sys.left (c :: calls) = sys.left calls :=
  Sys.effect_of_not_succeeds h _

/-! ### The bindings, with a log -/

/-- What a binding has done so far, with the system calls it has made, the last one first. -/
structure Logged where
  /-- What it has done. -/
  state : State
  /-- The system calls. -/
  calls : List Call

/-- A binding has ended, with the system calls it has made, the last one first. -/
structure Traced where
  /-- How it ended. -/
  outcome : Outcome
  /-- The system calls. -/
  calls : List Call

/-- A system call is made. -/
def Logged.call (sys : Sys) (c : Call) (s : Logged) : Logged :=
  ⟨s.state.called (sys.answer c), c :: s.calls⟩

/-- Memory is read. -/
def Logged.touch (r : Bytes.Range) (s : Logged) : Logged := { s with state := s.state.touch r }

/-- The rest makes no system call. -/
def Logged.stop (s : Logged) (k : State → Outcome) : Traced := ⟨k s.state, s.calls⟩

/-- `setNonblocking`, with a log. -/
def setNonblockingTraced (sys : Sys) (caller : Caller) (name : String) (offset : BitVec 32)
    (fd : BitVec 32) (s : Logged) : Traced :=
  let flags := (sys.getfl fd).ret
  let s := s.call sys (.getfl fd)
  if flags = -1 then s.stop fun s => writeErrno caller name offset s (result1 (.i32 fd))
  else
    let set := (sys.setfl fd (flags ||| O_NONBLOCK)).ret
    let s := s.call sys (.setfl fd (flags ||| O_NONBLOCK))
    if set ≠ 0 then s.stop fun s => writeErrno caller name offset s (result1 (.i32 fd))
    else s.stop (result1 (.i32 fd))

/-- `host_connect`, with a log. -/
def hostConnectTraced (sys : Sys) (caller : Caller) (args : Fin 4 → BitVec 32) (s : Logged) :
    Traced :=
  let addrOffset := (args 0).toInt
  let addrLen := (args 1).toInt
  let port := args 2
  match caller.exported with
  | .missing => s.stop fun s => ⟨.trap "[host_connect] cannot load memory", s⟩
  | .other => s.stop fun s => ⟨.abort, s⟩
  | .memory =>
    let sockfd := sys.socket
    let s := s.call sys .socket
    if sockfd.Failed then
      s.stop fun s =>
        writeErrno caller "host_connect" (args 2) s (result1 (.i64 (sockfd.ret.signExtend 64)))
    else
      let s := s.touch ⟨addrOffset + addrLen, 1⟩
      if s.state.memory (addrOffset + addrLen) = 0 then
        let addr := sys.inetAddr fun k => s.state.memory (addrOffset + k)
        let s := s.touch ⟨addrOffset, addr.2⟩
        let ans := sys.connect sockfd.ret ⟨addr.1, htons (port.setWidth 16)⟩
        let s := s.call sys (.connect sockfd.ret ⟨addr.1, htons (port.setWidth 16)⟩)
        if ans.Failed then
          s.stop fun s =>
            writeErrno caller "host_connect" (args 3) s (result1 (.i64 (ans.ret.signExtend 64)))
        else setNonblockingTraced sys caller "host_connect" (args 3) sockfd.ret s
      else s.stop fun s => ⟨.abort, s⟩

/-- `host_accept`, with a log. -/
def hostAcceptTraced (sys : Sys) (caller : Caller) (args : Fin 2 → BitVec 32) (s : Logged) :
    Traced :=
  let sockfd := args 0
  let ans := sys.accept sockfd
  let s := s.call sys (.accept sockfd)
  if ans.Failed then
    s.stop fun s => writeErrno caller "host_accept" (args 1) s (result1 (.i32 ans.ret))
  else setNonblockingTraced sys caller "host_accept" (args 1) ans.ret s

/-- `host_listen`, with a log. -/
def hostListenTraced (sys : Sys) (caller : Caller) (args : Fin 3 → BitVec 32) (s : Logged) :
    Traced :=
  let port := args 0
  let backlog := args 1
  let sockfd := sys.socket
  let s := s.call sys .socket
  let opt := sys.setsockopt sockfd.ret
  let s := s.call sys (.setsockopt sockfd.ret)
  if opt.ret ≠ 0 then
    s.stop fun s => writeErrno caller "host_listen" (args 2) s (result1 (.i32 sockfd.ret))
  else if sockfd.Failed then
    s.stop fun s => writeErrno caller "host_listen" (args 2) s (result1 (.i32 sockfd.ret))
  else
    let ans := sys.bind sockfd.ret ⟨INADDR_ANY, htons (port.setWidth 16)⟩
    let s := s.call sys (.bind sockfd.ret ⟨INADDR_ANY, htons (port.setWidth 16)⟩)
    if ans.Failed then
      s.stop fun s => writeErrno caller "host_listen" (args 2) s (result1 (.i32 ans.ret))
    else
      let ans := sys.listen sockfd.ret backlog
      let s := s.call sys (.listen sockfd.ret backlog)
      if ans.Failed then
        s.stop fun s => writeErrno caller "host_listen" (args 2) s (result1 (.i32 ans.ret))
      else setNonblockingTraced sys caller "host_listen" (args 2) sockfd.ret s

/-- **A call of a binding that opens a descriptor.** -/
inductive Opening
  | listen (args : Fin 3 → BitVec 32)
  | connect (args : Fin 4 → BitVec 32)
  | accept (args : Fin 2 → BitVec 32)

/-- As a call of one of the bindings. -/
def Opening.invocation : Opening → Invocation
  | .listen args => .listen args
  | .connect args => .connect args
  | .accept args => .accept args

/-- What the call does, with a log. -/
def Opening.execTraced (sys : Sys) (caller : Caller) : Opening → Logged → Traced
  | .listen args => hostListenTraced sys caller args
  | .connect args => hostConnectTraced sys caller args
  | .accept args => hostAcceptTraced sys caller args

/-- What the call does from its beginning on, with a log. -/
def Opening.traced (sys : Sys) (caller : Caller) (errno : BitVec 32) (o : Opening) : Traced :=
  o.execTraced sys caller ⟨caller.start errno, []⟩

/-- What a descriptor is opened for. -/
def Opening.use : Opening → Use
  | .listen _ => .listening
  | .connect _ => .connected
  | .accept _ => .accepted

/-! ### Forgetting the log -/

section Forget

variable {sys : Sys} {caller : Caller}

theorem setNonblockingTraced_outcome (name : String) (offset fd : BitVec 32) (s : Logged) :
    (setNonblockingTraced sys caller name offset fd s).outcome =
      setNonblocking sys caller name offset fd s.state := by
  unfold setNonblockingTraced setNonblocking
  dsimp only [Logged.stop, Logged.call, Sys.answer]
  split_ifs <;> rfl

theorem hostAcceptTraced_outcome (args : Fin 2 → BitVec 32) (s : Logged) :
    (hostAcceptTraced sys caller args s).outcome = hostAccept sys caller args s.state := by
  unfold hostAcceptTraced hostAccept
  dsimp only
  split_ifs
  · rfl
  · exact setNonblockingTraced_outcome _ _ _ _

theorem hostListenTraced_outcome (args : Fin 3 → BitVec 32) (s : Logged) :
    (hostListenTraced sys caller args s).outcome = hostListen sys caller args s.state := by
  unfold hostListenTraced hostListen
  dsimp only
  split_ifs
  · rfl
  · rfl
  · rfl
  · rfl
  · exact setNonblockingTraced_outcome _ _ _ _

theorem hostConnectTraced_outcome (args : Fin 4 → BitVec 32) (s : Logged) :
    (hostConnectTraced sys caller args s).outcome = hostConnect sys caller args s.state := by
  unfold hostConnectTraced hostConnect loadMemory
  cases caller.exported with
  | missing => rfl
  | other => rfl
  | memory =>
    dsimp only [Logged.call, Logged.touch, Sys.answer]
    split_ifs
    · rfl
    · rfl
    · exact setNonblockingTraced_outcome _ _ _ _
    · rfl

end Forget

/-- **The log is nothing but a log.** -/
theorem Opening.traced_outcome (sys : Sys) (caller : Caller) (errno : BitVec 32) (o : Opening) :
    (o.traced sys caller errno).outcome = o.invocation.run sys caller errno := by
  cases o with
  | listen args => exact hostListenTraced_outcome args _
  | connect args => exact hostConnectTraced_outcome args _
  | accept args => exact hostAcceptTraced_outcome args _

/-- `O_NONBLOCK` is among the flags it is added to. -/
theorem or_O_NONBLOCK_and (flags : BitVec 32) : (flags ||| O_NONBLOCK) &&& O_NONBLOCK ≠ 0 := by
  have h : (flags ||| O_NONBLOCK) &&& O_NONBLOCK = O_NONBLOCK := by
    ext i hi
    simp only [BitVec.getElem_and, BitVec.getElem_or]
    cases O_NONBLOCK[i] <;> simp
  rw [h]
  decide

/-! ### All or nothing -/

/-- **All or nothing**: the binding returns a non-negative value exactly when its calls have
all succeeded, and the value is then a descriptor in use and non-blocking; otherwise the
`errno` of the first of its calls that failed is where the guest looks for it, and nothing is
left open. -/
def Traced.AllOrNothing (sys : Sys) (t : Traced) (use : Use) (last : BitVec 32) : Prop :=
  ∃ w, t.outcome.ending = .returned (.i32 w) ∧
    (0 ≤ w.toInt ↔ ∀ c ∈ t.calls, sys.Succeeds c) ∧
    ((∀ c ∈ t.calls, sys.Succeeds c) → sys.left t.calls w = some ⟨use, true⟩) ∧
    ∀ c, t.calls.reverse.find? (fun c => ¬ sys.Succeeds c) = some c →
      Bytes.Holds t.outcome.state.memory last.toNat
        (Bytes.littleEndian 4 (sys.answer c).errno) ∧
      ∀ fd, sys.left t.calls fd = none

/-- All the calls of the binding go well. -/
def Opening.Succeeds (sys : Sys) (caller : Caller) : Opening → Prop
  | .listen args =>
    ¬ sys.socket.Failed ∧ (sys.setsockopt sys.socket.ret).ret = 0 ∧
      ¬ (sys.bind sys.socket.ret ⟨INADDR_ANY, htons ((args 0).setWidth 16)⟩).Failed ∧
      ¬ (sys.listen sys.socket.ret (args 1)).Failed ∧ sys.nonblockErrno sys.socket.ret = none
  | .connect args =>
    let addr := sys.inetAddr fun k => caller.memory ((args 0).toInt + k)
    caller.exported = .memory ∧ caller.memory ((args 0).toInt + (args 1).toInt) = 0 ∧
      ¬ sys.socket.Failed ∧
      ¬ (sys.connect sys.socket.ret ⟨addr.1, htons ((args 2).setWidth 16)⟩).Failed ∧
      sys.nonblockErrno sys.socket.ret = none
  | .accept args =>
    ¬ (sys.accept (args 0)).Failed ∧ sys.nonblockErrno (sys.accept (args 0)).ret = none

/-- **The condition under which opening is all or nothing**: all goes well, or the call that
opens the descriptor fails, and the binding tells so – `host_listen` where the call after it
leaves the same `errno`, `host_connect` never. -/
def Opening.Clean (sys : Sys) (caller : Caller) (o : Opening) : Prop :=
  o.Succeeds sys caller ∨ caller.exported = .memory ∧
    match o with
    | .listen _ => sys.socket.Failed ∧ (sys.setsockopt sys.socket.ret).errno = sys.socket.errno
    | .connect _ => False
    | .accept args => (sys.accept (args 0)).Failed

section AllOrNothing

variable {sys : Sys} {caller : Caller} {use : Use} {last w fd : BitVec 32} {name : String}
  {s : Logged}

/-- **Where all the calls went well**, the value has to be the descriptor. -/
theorem allOrNothing_of_succeeds (hs : ∀ c ∈ s.calls, sys.Succeeds c) (hw : 0 ≤ w.toInt)
    (hleft : sys.left s.calls w = some ⟨use, true⟩) :
    (s.stop (result1 (.i32 w))).AllOrNothing sys use last := by
  have hfind : s.calls.reverse.find? (fun c => ¬ sys.Succeeds c) = none := by
    simpa using hs
  refine ⟨w, rfl, iff_of_true hw hs, fun _ => hleft, fun c hc => ?_⟩
  rw [show (s.stop (result1 (.i32 w))).calls = s.calls from rfl, hfind] at hc
  cases hc

/-- **Where a call failed**, and no other before it. -/
theorem find?_eq_of_fail {c : Call} (calls : List Call) {before : List Call} (hc : ¬ sys.Succeeds c)
    (hb : ∀ c ∈ before, sys.Succeeds c) :
    (calls ++ c :: before).reverse.find? (fun c => ¬ sys.Succeeds c) = some c := by
  have hfind : before.reverse.find? (fun c => ¬ sys.Succeeds c) = none := by simpa using hb
  rw [List.reverse_append, List.reverse_cons, List.append_assoc, List.find?_append, hfind]
  simp [hc]

/-- **A failure that is returned**, with an `errno` written. -/
theorem allOrNothing_writeErrno_iff {c : Call} (calls before : List Call)
    (hcalls : s.calls = calls ++ c :: before) (hc : ¬ sys.Succeeds c)
    (hb : ∀ c ∈ before, sys.Succeeds c) :
    (s.stop fun s => writeErrno caller name last s (result1 (.i32 w))).AllOrNothing sys use last ↔
      caller.exported = .memory ∧ w.toInt < 0 ∧ s.state.errno = (sys.answer c).errno ∧
        ∀ fd, sys.left s.calls fd = none := by
  have hfind := find?_eq_of_fail calls hc hb
  rw [← hcalls] at hfind
  have hnot : ¬ ∀ c ∈ s.calls, sys.Succeeds c := fun h =>
    hc (h c (by simp [hcalls]))
  cases he : caller.exported with
  | missing => simp [Traced.AllOrNothing, Logged.stop, writeErrno, loadMemory, he]
  | other => simp [Traced.AllOrNothing, Logged.stop, writeErrno, loadMemory, he]
  | memory =>
    have hstop : s.stop (fun s => writeErrno caller name last s (result1 (.i32 w))) =
        ⟨result1 (.i32 w) (memoryWriteU32 last s.state.errno s.state), s.calls⟩ := by
      simp only [Logged.stop, writeErrno, loadMemory, he]
    rw [hstop]
    have hheld : Bytes.Holds (memoryWriteU32 last s.state.errno s.state).memory last.toNat
        (Bytes.littleEndian 4 s.state.errno) := Bytes.holds_write _ _ _
    constructor
    · rintro ⟨w', heq, hw, -, hfail⟩
      cases heq
      obtain ⟨hholds, hleft⟩ := hfail c hfind
      have hbytes := hheld.unique hholds (by simp)
      refine ⟨rfl, ?_, (Bytes.littleEndian_inj (by omega)).mp hbytes, hleft⟩
      exact lt_of_not_ge fun hge => hnot (hw.mp hge)
    · rintro ⟨-, hw, herrno, hleft⟩
      refine ⟨w, rfl, iff_of_false (not_le.mpr hw) hnot, fun h => absurd h hnot, ?_⟩
      intro c' hc'
      rw [hfind] at hc'
      cases hc'
      rw [← herrno]
      exact ⟨hheld, hleft⟩

/-- A binding that returns something else, or does not return. -/
theorem not_allOrNothing {t : Traced} (h : ∀ w, t.outcome.ending ≠ .returned (.i32 w)) :
    ¬ t.AllOrNothing sys use last := fun ⟨w, hw, _⟩ => h w hw

/-- `WRITE_ERRNO` before an `i64`. -/
theorem not_allOrNothing_writeErrno_i64 {offset : BitVec 32} {v : BitVec 64} :
    ¬ (s.stop fun s => writeErrno caller name offset s (result1 (.i64 v))).AllOrNothing sys use
      last := by
  refine not_allOrNothing fun w => ?_
  cases he : caller.exported <;> simp [Logged.stop, writeErrno, loadMemory, he, result1]

/-- A descriptor that was opened is not negative. -/
theorem writeErrno_nonneg_not {c : Call} (calls : List Call) {before : List Call}
    (hcalls : s.calls = calls ++ c :: before) (hc : ¬ sys.Succeeds c)
    (hb : ∀ c ∈ before, sys.Succeeds c) (hw : ¬ w.toInt < 0) :
    ¬ (s.stop fun s => writeErrno caller name last s (result1 (.i32 w))).AllOrNothing sys use
      last := by
  rw [allOrNothing_writeErrno_iff calls _ hcalls hc hb]
  exact fun h => hw h.2.1

/-- Nor is a failure one that leaves a descriptor behind. -/
theorem writeErrno_left_not {c : Call} (calls : List Call) {before : List Call} (fd : BitVec 32)
    (hcalls : s.calls = calls ++ c :: before) (hc : ¬ sys.Succeeds c)
    (hb : ∀ c ∈ before, sys.Succeeds c) (hleft : sys.left s.calls fd ≠ none) :
    ¬ (s.stop fun s => writeErrno caller name last s (result1 (.i32 w))).AllOrNothing sys use
      last := by
  rw [allOrNothing_writeErrno_iff calls _ hcalls hc hb]
  exact fun h => hleft (h.2.2.2 fd)

/-- **The end of the bindings**: a descriptor that cannot be made non-blocking is returned
all the same. -/
theorem allOrNothing_setNonblocking_iff (hs : ∀ c ∈ s.calls, sys.Succeeds c)
    (hfd : ¬ fd.toInt < 0) (hleft : sys.left s.calls fd = some ⟨use, false⟩) :
    (setNonblockingTraced sys caller name last fd s).AllOrNothing sys use last ↔
      sys.nonblockErrno fd = none := by
  unfold setNonblockingTraced Sys.nonblockErrno
  dsimp only
  split_ifs with hget hset
  · have hc : ¬ sys.Succeeds (.getfl fd) := not_not_intro hget
    exact iff_of_false (writeErrno_nonneg_not [] rfl hc hs hfd) (by simp)
  · have hb : ∀ c ∈ .getfl fd :: s.calls, sys.Succeeds c := by
      rintro c (_ | ⟨_, h⟩)
      · exact hget
      · exact hs c h
    exact iff_of_false (writeErrno_nonneg_not [] rfl hset hb hfd) (by simp)
  · refine iff_of_true (allOrNothing_of_succeeds ?_ (not_lt.mp hfd) ?_) rfl
    · rintro c (_ | ⟨_, _ | ⟨_, h⟩⟩)
      · exact not_not.mp hset
      · exact hget
      · exact hs c h
    · have hset' : sys.Succeeds (.setfl fd ((sys.getfl fd).ret ||| O_NONBLOCK)) := not_not.mp hset
      have hgetfl : sys.left (.getfl fd :: s.calls) fd = some ⟨use, false⟩ := by
        rw [Sys.left, Sys.effect, if_pos (show sys.Succeeds (.getfl fd) from hget)]
        exact hleft
      change sys.effect (.setfl fd _) (sys.left (.getfl fd :: s.calls)) fd = _
      rw [Sys.effect, if_pos hset']
      simp only [Function.update_self, hgetfl, Option.map_some, ne_eq,
        or_O_NONBLOCK_and _, not_false_eq_true, decide_true]

end AllOrNothing

/-! ### The three bindings -/

section Bindings

variable (sys : Sys) (caller : Caller) (errno : BitVec 32)

theorem accept_allOrNothing_iff (args : Fin 2 → BitVec 32) :
    ((Opening.accept args).traced sys caller errno).AllOrNothing sys .accepted (args 1) ↔
      (Opening.accept args).Clean sys caller := by
  simp only [Opening.traced, Opening.execTraced, hostAcceptTraced, Opening.Clean, Opening.Succeeds]
  by_cases hacc : (sys.accept (args 0)).Failed
  · have hc : ¬ sys.Succeeds (.accept (args 0)) := not_not_intro hacc
    rw [if_pos hacc, allOrNothing_writeErrno_iff [] [] rfl hc (by simp)]
    constructor
    · exact fun h => Or.inr ⟨h.1, hacc⟩
    · rintro (h | ⟨hm, -⟩)
      · exact absurd hacc h.1
      · exact ⟨hm, hacc, rfl, fun _ => congrFun (Sys.left_cons_of_not_succeeds hc []) _⟩
  · have hs : sys.Succeeds (.accept (args 0)) := hacc
    rw [if_neg hacc, allOrNothing_setNonblocking_iff (by simpa [Logged.call] using hs) hacc]
    · simp [hacc]
    · simp [Logged.call, Sys.left, Sys.effect, hs]

/-- `setsockopt` opens nothing. -/
theorem left_setsockopt (fd : BitVec 32) (calls : List Call) :
    sys.left (.setsockopt fd :: calls) = sys.left calls := by
  rw [Sys.left, Sys.effect]
  split_ifs <;> rfl

/-- Nor does `bind`. -/
theorem left_bind (fd : BitVec 32) (addr : SockaddrIn) (calls : List Call) :
    sys.left (.bind fd addr :: calls) = sys.left calls := by
  rw [Sys.left, Sys.effect]
  split_ifs <;> rfl

/-- The descriptor that `socket` opens. -/
theorem left_socket (h : ¬ sys.socket.Failed) :
    sys.left [.socket] = Function.update (fun _ => none) sys.socket.ret (some ⟨.fresh, false⟩) :=
  if_pos (show sys.Succeeds .socket from h)

theorem listen_allOrNothing_iff (args : Fin 3 → BitVec 32) :
    ((Opening.listen args).traced sys caller errno).AllOrNothing sys .listening (args 2) ↔
      (Opening.listen args).Clean sys caller := by
  simp only [Opening.traced, Opening.execTraced, hostListenTraced, Opening.Clean,
    Opening.Succeeds]
  by_cases hfd : sys.socket.Failed
  · -- whatever `setsockopt` answers, it is the descriptor that is returned
    have hc : ¬ sys.Succeeds .socket := not_not_intro hfd
    have hleft (fd : BitVec 32) : sys.left [.setsockopt sys.socket.ret, .socket] fd = none := by
      rw [left_setsockopt, Sys.left_cons_of_not_succeeds hc]
      rfl
    simp only [hfd, if_true, ite_self, not_true_eq_false, false_and, false_or, true_and]
    rw [allOrNothing_writeErrno_iff [_] [] rfl hc (by simp)]
    constructor
    · exact fun h => ⟨h.1, h.2.2.1⟩
    · exact fun h => ⟨h.1, hfd, h.2, hleft⟩
  have hsocket : sys.Succeeds .socket := hfd
  simp only [hfd, if_false, not_false_eq_true, true_and, false_and, and_false, or_false]
  by_cases hopt : (sys.setsockopt sys.socket.ret).ret = 0
  swap
  · simp only [hopt, ne_eq, not_false_eq_true, if_true, false_and, iff_false]
    exact writeErrno_nonneg_not [] rfl hopt (by simpa [Logged.call] using hsocket) hfd
  have hsetsockopt : sys.Succeeds (.setsockopt sys.socket.ret) := hopt
  have hopened : sys.left [.setsockopt sys.socket.ret, .socket] sys.socket.ret =
      some ⟨.fresh, false⟩ := by
    rw [left_setsockopt, left_socket _ hfd, Function.update_self]
  simp only [hopt, ne_eq, not_true_eq_false, if_false, true_and]
  set addr : SockaddrIn := ⟨INADDR_ANY, htons ((args 0).setWidth 16)⟩
  by_cases hbind : (sys.bind sys.socket.ret addr).Failed
  · have hc : ¬ sys.Succeeds (.bind sys.socket.ret addr) := not_not_intro hbind
    simp only [hbind, if_true, not_true_eq_false, false_and, iff_false]
    refine writeErrno_left_not [] sys.socket.ret rfl hc
      (by simpa [Logged.call] using ⟨hsetsockopt, hsocket⟩) ?_
    simp only [Logged.call, left_bind, hopened, ne_eq, reduceCtorEq, not_false_eq_true]
  have hbound : sys.Succeeds (.bind sys.socket.ret addr) := hbind
  simp only [hbind, if_false, not_false_eq_true, true_and]
  by_cases hlisten : (sys.listen sys.socket.ret (args 1)).Failed
  · have hc : ¬ sys.Succeeds (.listen sys.socket.ret (args 1)) := not_not_intro hlisten
    simp only [hlisten, if_true, not_true_eq_false, false_and, iff_false]
    refine writeErrno_left_not [] sys.socket.ret rfl hc
      (by simpa [Logged.call] using ⟨hbound, hsetsockopt, hsocket⟩) ?_
    simp only [Logged.call, Sys.left_cons_of_not_succeeds hc, left_bind, hopened, ne_eq,
      reduceCtorEq, not_false_eq_true]
  · have hlistens : sys.Succeeds (.listen sys.socket.ret (args 1)) := hlisten
    simp only [hlisten, if_false, not_false_eq_true, true_and]
    refine allOrNothing_setNonblocking_iff
      (by simpa [Logged.call] using ⟨hlistens, hbound, hsetsockopt, hsocket⟩) hfd ?_
    change sys.effect (.listen _ _) (sys.left [.bind _ _, .setsockopt _, .socket]) _ = _
    rw [Sys.effect, if_pos hlistens]
    simp only [left_bind, hopened, Function.update_self, Option.map_some]

theorem connect_allOrNothing_iff (args : Fin 4 → BitVec 32) :
    ((Opening.connect args).traced sys caller errno).AllOrNothing sys .connected (args 3) ↔
      (Opening.connect args).Clean sys caller := by
  simp only [Opening.traced, Opening.execTraced, hostConnectTraced, Opening.Clean,
    Opening.Succeeds, and_false, or_false]
  rcases he : caller.exported with _ | _ | _
  · simpa using not_allOrNothing (by simp [Logged.stop])
  · simpa using not_allOrNothing (by simp [Logged.stop])
  let addr : SockaddrIn := ⟨(sys.inetAddr fun k => caller.memory ((args 0).toInt + k)).1,
    htons ((args 2).setWidth 16)⟩
  change Traced.AllOrNothing sys (if sys.socket.Failed then _
    else if caller.memory ((args 0).toInt + (args 1).toInt) = 0 then
      if (sys.connect sys.socket.ret addr).Failed then _ else _
    else _) _ _ ↔ _ ∧ _ ∧ _ ∧ ¬ (sys.connect sys.socket.ret addr).Failed ∧ _
  by_cases hfd : sys.socket.Failed
  · simpa [hfd] using not_allOrNothing_writeErrno_i64
  have hsocket : sys.Succeeds .socket := hfd
  by_cases hnul : caller.memory ((args 0).toInt + (args 1).toInt) = 0
  swap
  · rw [if_neg hfd, if_neg hnul]
    exact iff_of_false (not_allOrNothing (by simp [Logged.stop])) fun h => hnul h.2.1
  rw [if_neg hfd, if_pos hnul]
  by_cases hans : (sys.connect sys.socket.ret addr).Failed
  · rw [if_pos hans]
    exact iff_of_false not_allOrNothing_writeErrno_i64 fun h => h.2.2.2.1 hans
  · have hconnects : sys.Succeeds (.connect sys.socket.ret addr) := hans
    rw [if_neg hans, allOrNothing_setNonblocking_iff
      (by simpa [Logged.call, Logged.touch] using ⟨hconnects, hsocket⟩) hfd]
    · simp [hfd, hnul, hans]
    · change sys.effect (.connect _ addr) (sys.left [.socket]) _ = _
      rw [Sys.effect, if_pos hconnects]
      simp only [left_socket _ hfd, Function.update_self, Option.map_some]

end Bindings

/-! ### A port that is taken -/

/-- A host with one socket to give, on which the calls named here fail: `bind` with
`EADDRINUSE`, or making it non-blocking with `EINVAL`. -/
def oneSocket (bind setfl : Bool) : Sys where
  socket := ⟨5, 0⟩
  setsockopt _ := ⟨0, 0⟩
  bind _ _ := if bind then ⟨0, 0⟩ else ⟨-1, 98⟩
  listen _ _ := ⟨0, 0⟩
  accept _ := ⟨-1, 11⟩
  connect _ _ := ⟨-1, 111⟩
  getfl _ := ⟨2, 0⟩
  setfl _ _ := if setfl then ⟨0, 0⟩ else ⟨-1, 22⟩
  recv _ _ := ⟨⟨-1, 9⟩, []⟩
  send _ _ := ⟨⟨-1, 9⟩, 0⟩
  close _ := ⟨0, 0⟩
  poll _ _ := ⟨⟨0, 0⟩, 0, []⟩
  inetAddr _ := (-1, 1)

/-- Listening on port 8080, with `errno` at 2048. -/
def listenOn8080 : Opening := .listen ![8080, 16, 2048]

/-- **Opening is not all or nothing**: where port 8080 is taken, `host_listen` answers `-1`
and leaves the socket open; and where the socket cannot be made non-blocking it answers with
the socket, which blocks. -/
theorem not_opening_allOrNothing :
    (¬ (listenOn8080.traced (oneSocket false true) onePage 0).AllOrNothing (oneSocket false true)
        listenOn8080.use listenOn8080.invocation.last ∧
      (listenOn8080.invocation.run (oneSocket false true) onePage 0).ending =
        .returned (.i32 (-1)) ∧
      (oneSocket false true).left (listenOn8080.traced (oneSocket false true) onePage 0).calls 5 =
        some ⟨.fresh, false⟩) ∧
    ¬ (listenOn8080.traced (oneSocket true false) onePage 0).AllOrNothing (oneSocket true false)
        listenOn8080.use listenOn8080.invocation.last ∧
      (listenOn8080.invocation.run (oneSocket true false) onePage 0).ending = .returned (.i32 5) ∧
      (oneSocket true false).left (listenOn8080.traced (oneSocket true false) onePage 0).calls 5 =
        some ⟨.listening, false⟩ := by
  refine ⟨⟨fun h => ?_, by decide, by decide⟩, fun h => ?_, by decide, by decide⟩
  · rcases (listen_allOrNothing_iff _ _ _ _).mp h with ⟨-, -, h, -⟩ | ⟨-, h, -⟩
    · exact absurd h (by decide)
    · exact absurd h (by decide)
  · rcases (listen_allOrNothing_iff _ _ _ _).mp h with ⟨-, -, -, -, h⟩ | ⟨-, h, -⟩
    · exact absurd h (by decide)
    · exact absurd h (by decide)

end HostDriver

/-! ### Every binding that opens a descriptor -/

/-- **When opening is all or nothing**: for whatever the system calls answer, when they all
succeed, or when the one that opens the descriptor fails and the binding says so. The cell
for `errno` and the address are taken to lie in the memory of the guest. -/
theorem hostOpening_allOrNothing_iff (sys : HostDriver.Sys) (caller : HostDriver.Caller)
    (errno : BitVec 32) (o : HostDriver.Opening) :
    (o.traced sys caller errno).AllOrNothing sys o.use o.invocation.last ↔
      o.Clean sys caller := by
  cases o with
  | listen args => exact HostDriver.listen_allOrNothing_iff sys caller errno args
  | connect args => exact HostDriver.connect_allOrNothing_iff sys caller errno args
  | accept args => exact HostDriver.accept_allOrNothing_iff sys caller errno args

end Waeio
