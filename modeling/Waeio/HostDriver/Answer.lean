import Waeio.Host
import Waeio.HostDriver.Frame
import Waeio.Lib.Numbers

/-!
# What comes through a binding

A guest makes a host call (`Waeio.HostCall`), and the binding that is linked to it is invoked
with the arguments as they are passed and with the addresses of what the guest shares with the
host: its variable `host_errno`, its poll array, and the buffer of the call
(`Waeio.HostDriver.Layout`).

The binding then hands through the answer of one system call
(`Waeio.HostDriver.Sys.passed`): its value is returned, its `errno` is in `host_errno` if the
value is negative, and outside of `host_errno` the memory is what the system call has left
(`Waeio.HostDriver.delivers`). Two bytes a time, that is how the guest sees the `revents` of
its poll array (`Waeio.HostDriver.pollfdAt_writeRevents`).

Which system call it is does not go without saying for `host_listen`: where `setsockopt`
fails, the descriptor comes through, with the `errno` of that failure.
-/

namespace Waeio

namespace HostDriver

open Bytes (Memory Range)

/-! ### The guest -/

/-- **Where the guest has what it shares with the host.** -/
structure Layout where
  /-- The size of its linear memory. -/
  size : ℕ
  /-- `&host_errno` -/
  hostErrno : BitVec 32
  /-- The poll array. -/
  vfds : BitVec 32
  /-- The number of entries of the poll array. -/
  capacity : ℕ

/-- The addresses of the poll array. -/
def Layout.array (lay : Layout) : Range := ⟨lay.vfds.toNat, pollfdSize * lay.capacity⟩

/-- The guest as the caller of a binding. -/
def Layout.caller (lay : Layout) (memory : Memory) : Caller :=
  { exported := .memory, size := lay.size, memory := memory }

/-- **The guest's objects** are in its memory, and apart. -/
structure Layout.Proper (lay : Layout) : Prop where
  capacity_lt : lay.capacity < 2 ^ 32
  errno_inside : (cell lay.hostErrno).Inside lay.size
  array_inside : lay.array.Inside lay.size
  apart : ∀ a ∈ cell lay.hostErrno, a ∉ lay.array

/-- A buffer of the guest: in its memory, and apart from what it shares with the host. -/
structure Layout.Buffer (lay : Layout) (r : Range) : Prop where
  inside : r.Inside lay.size
  apart_errno : ∀ a ∈ cell lay.hostErrno, a ∉ r
  apart_array : ∀ a ∈ lay.array, a ∉ r

/-- The value of `host_errno`. -/
def Layout.errnoAt (lay : Layout) (mem : Memory) : ℤ :=
  (Bytes.load (w := 32) 4 mem lay.hostErrno.toNat).toInt

/-- The `struct pollfd` at an address. -/
def pollfdAt (mem : Memory) (a : ℤ) : Pollfd :=
  { fd := (Bytes.load (w := 32) 4 mem a).toInt
    events := Bytes.load 2 mem (a + 4)
    revents := Bytes.load 2 mem (a + reventsOffset) }

/-- The entry of the poll array at an index. -/
def Layout.entry (lay : Layout) (mem : Memory) (k : ℕ) : Pollfd :=
  pollfdAt mem (lay.vfds.toNat + pollfdSize * k)

/-! ### The calls -/

/-- A signed argument, as it is passed. -/
def int32 (z : ℤ) : BitVec 32 := BitVec.ofInt 32 z

/-- An unsigned argument, as it is passed. -/
def uint32 (n : ℕ) : BitVec 32 := BitVec.ofNat 32 n

/-- **The binding that is linked to a host call**, with its arguments; `buf` is the buffer. -/
def invocation (lay : Layout) (buf : BitVec 32) : HostCall → Invocation
  | .listen port backlog => .listen ![int32 port, int32 backlog, lay.hostErrno]
  | .accept fd => .accept ![int32 fd, lay.hostErrno]
  | .recv fd len => .recv ![int32 fd, buf, uint32 len, lay.hostErrno]
  | .send fd len => .send ![int32 fd, buf, uint32 len, lay.hostErrno]
  | .close fd => .close ![int32 fd, lay.hostErrno]
  | .poll len timeout => .poll ![lay.vfds, uint32 len, int32 timeout, lay.hostErrno]

/-- What comes through `host_listen`. -/
def Sys.listened (sys : Sys) (port backlog : BitVec 32) : SysRet :=
  let sockfd := sys.socket
  let opt := sys.setsockopt sockfd.ret
  let bound := sys.bind sockfd.ret ⟨INADDR_ANY, htons (port.setWidth 16)⟩
  let listening := sys.listen sockfd.ret backlog
  if opt.ret ≠ 0 ∨ sockfd.Failed then ⟨sockfd.ret, opt.errno⟩
  else if bound.Failed then bound
  else if listening.Failed then listening
  else ⟨sockfd.ret, listening.errno⟩

/-- **The answer that comes through** to a host call. -/
def Sys.passed (sys : Sys) : HostCall → SysRet
  | .listen port backlog => sys.listened (int32 port) (int32 backlog)
  | .accept fd => sys.accept (int32 fd)
  | .recv fd len => (sys.recv (int32 fd) (uint32 len).toNat).toSysRet
  | .send fd len => (sys.send (int32 fd) (uint32 len).toNat).toSysRet
  | .close fd => sys.close (int32 fd)
  | .poll len timeout => (sys.poll (uint32 len).toNat (int32 timeout)).toSysRet

/-- The bytes `recv` puts into a buffer of this length. -/
def Sys.received (sys : Sys) (fd : ℤ) (len : ℕ) : List (BitVec 8) :=
  (sys.recv (int32 fd) (uint32 len).toNat).data.take (uint32 len).toNat

/-- The `revents` that `poll` writes. -/
def Sys.reported (sys : Sys) (len : ℕ) (timeout : ℤ) : List (BitVec 16) :=
  let ans := sys.poll (uint32 len).toNat (int32 timeout)
  ans.revents.take (min ans.read (uint32 len).toNat)

/-- The memory as the system call leaves it. -/
def Sys.written (sys : Sys) (lay : Layout) (buf : BitVec 32) (mem : Memory) : HostCall → Memory
  | .recv fd len => Bytes.write mem buf.toNat (sys.received fd len)
  | .poll len timeout => writeRevents lay.vfds.toNat (sys.reported len timeout) mem
  | .listen _ _ | .accept _ | .send _ _ | .close _ => mem

/-- The stretch of memory that the system call is handed. -/
def handed (lay : Layout) (buf : BitVec 32) : HostCall → Range
  | .recv _ len | .send _ len => ⟨buf.toNat, (uint32 len).toNat⟩
  | .poll len _ => ⟨lay.vfds.toNat, pollfdSize * (uint32 len).toNat⟩
  | .listen _ _ | .accept _ | .close _ => ⟨0, 0⟩

/-! ### What a binding hands through -/

/-- **The binding hands an answer through**: it returns the value, with `errno` where the
guest has asked for it if the value is negative, and has else left `mem` as it is; nothing was
touched outside of the linear memory. -/
structure Outcome.Delivers (out : Outcome) (caller : Caller) (mem : Memory) (last : BitVec 32)
    (ans : SysRet) : Prop where
  returned : out.ending = .returned (.i32 ans.ret)
  frame : ∀ a, a ∉ cell last → out.state.memory a = mem a
  errno : ans.Failed → Bytes.Holds out.state.memory last.toNat (Bytes.littleEndian 4 ans.errno)
  within : out.state.Within caller

section Delivers

variable {caller : Caller} {name : String} {s : State} {last w e : BitVec 32} {mem : Memory}
  {sys : Sys} {lay : Layout} {buf : BitVec 32}

theorem delivers_result1 (hw : ¬w.toInt < 0) (hs : s.memory = mem) (hwithin : s.Within caller) :
    (result1 (.i32 w) s).Delivers caller mem last ⟨w, e⟩ :=
  ⟨rfl, fun a _ => congrFun hs a, fun hf => absurd hf hw, hwithin⟩

/-- A binding that has written `errno`, as a failure or not. -/
theorem delivers_writeErrno (hm : caller.exported = .memory)
    (hlast : (cell last).Inside caller.size) (hs : s.memory = mem) (hwithin : s.Within caller)
    (he : w.toInt < 0 → e = s.errno) :
    (writeErrno caller name last s (result1 (.i32 w))).Delivers caller mem last ⟨w, e⟩ := by
  rw [writeErrno, loadMemory, hm]
  refine ⟨rfl, fun a ha => ?_, fun hf => ?_, within_memoryWriteU32.mpr ⟨hlast, hwithin⟩⟩
  · rw [← hs]
    exact memoryWriteU32_of_notMem ha
  · rw [he hf]
    exact Bytes.holds_write _ _ _

/-- The end of the bindings that hand the answer of one call through. -/
theorem delivers_report {ans : SysRet} (hm : caller.exported = .memory)
    (hlast : (cell last).Inside caller.size) (hs : s.memory = mem) (hwithin : s.Within caller)
    (he : s.errno = ans.errno) :
    (if ans.Failed then writeErrno caller name last s (result1 (.i32 ans.ret))
      else result1 (.i32 ans.ret) s).Delivers caller mem last ans := by
  split_ifs with hf
  · exact delivers_writeErrno hm hlast hs hwithin fun _ => he.symm
  · exact delivers_result1 hf hs hwithin

/-- The end of the bindings that open a descriptor. -/
theorem delivers_setNonblocking (hm : caller.exported = .memory)
    (hlast : (cell last).Inside caller.size) (hs : s.memory = mem) (hwithin : s.Within caller)
    (hw : ¬w.toInt < 0) :
    (setNonblocking sys caller name last w s).Delivers caller mem last ⟨w, e⟩ := by
  rcases setNonblocking_eq sys caller name last w s with ⟨errno, -, heq⟩ | ⟨errno, -, heq⟩ <;>
    rw [heq]
  · exact delivers_writeErrno hm hlast hs hwithin fun hneg => absurd hneg hw
  · exact delivers_result1 hw hs hwithin

theorem within_nil (ht : s.touched = []) : s.Within caller := by
  intro r hr
  rw [ht] at hr
  exact absurd hr List.not_mem_nil

theorem within_singleton {r : Range} (ht : s.touched = [r]) (hr : r.Inside caller.size) :
    s.Within caller := by
  intro r' hr'
  rw [ht] at hr'
  rw [List.mem_singleton.mp hr']
  exact hr

/-- A stretch inside another one. -/
theorem inside_of_le {start : ℤ} {m n size : ℕ} (h : (Range.mk start n).Inside size)
    (hle : m ≤ n) : (Range.mk start m).Inside size := by
  intro a ha
  refine h a ⟨ha.1, lt_of_lt_of_le ha.2 ?_⟩
  dsimp only
  omega

theorem delivers_listen (hlay : (cell lay.hostErrno).Inside lay.size) (errno : BitVec 32)
    (args : Fin 3 → BitVec 32) (hlast : args 2 = lay.hostErrno) :
    ((Invocation.listen args).run sys (lay.caller mem) errno).Delivers (lay.caller mem) mem
      lay.hostErrno (sys.listened (args 0) (args 1)) := by
  simp only [Invocation.run, Invocation.exec, hostListen, Sys.listened, hlast]
  by_cases hopt : (sys.setsockopt sys.socket.ret).ret ≠ 0
  · rw [if_pos hopt, if_pos (Or.inl hopt)]
    exact delivers_writeErrno rfl hlay rfl (within_nil rfl) fun _ => rfl
  rw [if_neg hopt]
  by_cases hfd : sys.socket.Failed
  · rw [if_pos hfd, if_pos (Or.inr hfd)]
    exact delivers_writeErrno rfl hlay rfl (within_nil rfl) fun _ => rfl
  rw [if_neg hfd, if_neg (not_or.mpr ⟨hopt, hfd⟩)]
  split_ifs
  · exact delivers_writeErrno rfl hlay rfl (within_nil rfl) fun _ => rfl
  · exact delivers_writeErrno rfl hlay rfl (within_nil rfl) fun _ => rfl
  · exact delivers_setNonblocking rfl hlay rfl (within_nil rfl) hfd

/-- **What comes through**: each binding of the table hands the answer through, whatever the
system calls answer. -/
theorem delivers (hlay : (cell lay.hostErrno).Inside lay.size) (errno : BitVec 32) (c : HostCall)
    (hc : (handed lay buf c).Inside lay.size) :
    ((invocation lay buf c).run sys (lay.caller mem) errno).Delivers (lay.caller mem)
      (sys.written lay buf mem c) lay.hostErrno (sys.passed c) := by
  cases c with
  | listen port backlog => exact delivers_listen hlay errno _ rfl
  | accept fd =>
    simp only [invocation, Invocation.run, Invocation.exec, hostAccept, Sys.passed]
    split_ifs with hf
    · exact delivers_writeErrno rfl hlay rfl (within_nil rfl) fun _ => rfl
    · exact delivers_setNonblocking rfl hlay rfl (within_nil rfl) hf
  | recv fd len =>
    refine delivers_report rfl hlay rfl (within_singleton rfl (inside_of_le hc ?_)) rfl
    exact List.length_take_le _ _
  | send fd len =>
    refine delivers_report rfl hlay rfl (within_singleton rfl (inside_of_le hc ?_)) rfl
    exact Nat.min_le_right _ _
  | close fd => exact delivers_report rfl hlay rfl (within_nil rfl) rfl
  | poll len timeout =>
    refine delivers_report rfl hlay rfl (within_singleton rfl (inside_of_le hc ?_)) rfl
    exact Nat.mul_le_mul_left _ (Nat.min_le_right _ _)

/-- **A system call writes what it is asked for**, and nothing else. -/
theorem written_of_not_data {c : HostCall} {a : ℤ} (h : ¬(invocation lay buf c).Data a) :
    sys.written lay buf mem c a = mem a := by
  cases c with
  | listen | accept | send | close => rfl
  | recv fd len =>
    refine Bytes.write_of_notMem fun ⟨hfirst, hlast⟩ => h ⟨hfirst, lt_of_lt_of_le hlast ?_⟩
    have hlen := List.length_take_le (uint32 len).toNat
      (sys.recv (int32 fd) (uint32 len).toNat).data
    simp only [Sys.received, Matrix.cons_val]
    omega
  | poll len timeout =>
    refine writeRevents_of_notMem _ _ _ fun k hk hmem => h ⟨k, ?_, hmem⟩
    simp only [Sys.reported, List.length_take] at hk
    simp only [Matrix.cons_val]
    omega

end Delivers

/-! ### The poll array -/

section Entries

variable {mem mem' : Memory} {start : ℤ}

/-- An entry without its `revents`. -/
theorem pollfdAt_congr_request (h : ∀ a ∈ Range.mk start reventsOffset, mem' a = mem a) :
    pollfdAt mem' start = { pollfdAt mem start with
      revents := Bytes.load 2 mem' (start + reventsOffset) } := by
  have hsub : ∀ (i : ℤ) (n : ℕ), 0 ≤ i → i + n ≤ reventsOffset →
      ∀ a ∈ Range.mk (start + i) n, mem' a = mem a := by
    rintro i n hi hle a ⟨hfirst, hlast⟩
    dsimp only at hfirst hlast
    exact h a ⟨by dsimp only; omega, by dsimp only; omega⟩
  have hfd := hsub 0 4 (by decide) (by decide)
  rw [Int.add_zero] at hfd
  rw [pollfdAt, pollfdAt, Bytes.load_congr hfd, Bytes.load_congr (hsub 4 2 (by decide) (by decide))]

/-- The eight bytes of an entry are all there is to it. -/
theorem pollfdAt_congr (h : ∀ a ∈ Range.mk start pollfdSize, mem' a = mem a) :
    pollfdAt mem' start = pollfdAt mem start := by
  rw [@pollfdAt_congr_request mem, @Bytes.load_congr _ _ mem]
  · rfl
  · rintro a ⟨hfirst, hlast⟩
    simp only [reventsOffset] at hfirst hlast
    exact h a ⟨by dsimp only; omega, by simp only [pollfdSize]; omega⟩
  · rintro a ⟨hfirst, hlast⟩
    simp only [reventsOffset] at hfirst hlast
    exact h a ⟨by dsimp only; omega, by simp only [pollfdSize]; omega⟩

/-- The `revents` of an entry, where `poll` has reported any. -/
theorem load_writeRevents (revents : List (BitVec 16)) : ∀ (start : ℤ) (mem : Memory) (k : ℕ),
    Bytes.load 2 (writeRevents start revents mem) (start + pollfdSize * k + reventsOffset) =
      revents.getD k (Bytes.load 2 mem (start + pollfdSize * k + reventsOffset)) := by
  induction revents with
  | nil => exact fun _ _ _ => rfl
  | cons r rest ih =>
    intro start mem k
    rw [writeRevents]
    cases k with
    | zero =>
      -- the entries behind are written later
      have hrest : Bytes.load (w := 16) 2 (writeRevents (start + pollfdSize) rest
          (Bytes.write mem (start + reventsOffset) (Bytes.littleEndian 2 r)))
          (start + reventsOffset) = Bytes.load 2
          (Bytes.write mem (start + reventsOffset) (Bytes.littleEndian 2 r))
          (start + reventsOffset) := by
        refine Bytes.load_congr fun a ha => writeRevents_of_notMem rest _ _ fun j _ hj => ?_
        obtain ⟨-, hlast⟩ := ha
        obtain ⟨hfirst, -⟩ := hj
        simp only [pollfdSize, reventsOffset] at hfirst hlast
        omega
      have hzero : start + pollfdSize * ((0 : ℕ) : ℤ) + reventsOffset = start + reventsOffset := by
        omega
      rw [hzero, hrest, (Bytes.holds_write _ _ _).load_eq (by decide), List.getD_cons_zero]
    | succ k =>
      have hsucc : start + pollfdSize * ((k + 1 : ℕ) : ℤ) + reventsOffset =
          start + pollfdSize + pollfdSize * (k : ℤ) + reventsOffset := by
        simp only [pollfdSize]
        omega
      have hfirst : Bytes.load (w := 16) 2
          (Bytes.write mem (start + reventsOffset) (Bytes.littleEndian 2 r))
          (start + pollfdSize + pollfdSize * k + reventsOffset) =
          Bytes.load 2 mem (start + pollfdSize + pollfdSize * k + reventsOffset) := by
        refine Bytes.load_congr fun a ha => Bytes.write_of_notMem fun hmem => ?_
        obtain ⟨hfirst, -⟩ := ha
        obtain ⟨-, hlast⟩ := hmem
        simp only [pollfdSize, reventsOffset, Bytes.length_littleEndian] at hfirst hlast
        omega
      rw [hsucc, ih, hfirst, List.getD_cons_succ]

/-- **An entry of the poll array after `poll`**: its descriptor and the events asked for are as
they were, and its `revents` is what was reported of it. -/
theorem pollfdAt_writeRevents (start : ℤ) (revents : List (BitVec 16)) (mem : Memory) (k : ℕ) :
    pollfdAt (writeRevents start revents mem) (start + pollfdSize * k) =
      { pollfdAt mem (start + pollfdSize * k) with
        revents := revents.getD k (pollfdAt mem (start + pollfdSize * k)).revents } := by
  rw [@pollfdAt_congr_request mem, load_writeRevents]
  · rfl
  · refine fun a ha => writeRevents_of_notMem revents _ _ fun j _ hj => ?_
    obtain ⟨hfirst, hlast⟩ := ha
    obtain ⟨hfirst', hlast'⟩ := hj
    simp only [pollfdSize, reventsOffset] at hfirst hlast hfirst' hlast'
    omega

end Entries

end HostDriver

end Waeio
