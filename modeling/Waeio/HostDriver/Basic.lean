import Mathlib.Algebra.GroupWithZero.Nat
import Mathlib.Data.Fin.VecNotation
import Waeio.Lib.Bytes

/-!
# The bindings of the host driver

`src/host/driver/socket.c` and `src/host/driver/poll.c`: the functions the driver
exports to a guest, which hand the arguments to a system call and, where a call fails,
write `errno` into the linear memory of the guest, with the macros of
`inc/host/wasmtime_utils.h`.

A pointer of the driver is a raw one. The memory here is therefore indexed by the
integers, counted from the base of the linear memory, and no access to it is checked; a
binding only keeps a list of the stretches it, or the system call it makes, has touched.
The system calls are parameters (`Waeio.HostDriver.Sys`): what each answers depends on
its arguments in any way, and so do the bytes of its buffer that it touches, within the
length it is given.
-/

namespace Waeio

namespace HostDriver

open Bytes (Memory Range)

/-! ### The system calls -/

/-- What a system call returns, and the `errno` after it. -/
structure SysRet where
  /-- The return value, an `int`. -/
  ret : BitVec 32
  /-- `errno` -/
  errno : BitVec 32
  deriving DecidableEq, Repr

/-- The return value is negative. -/
def SysRet.Failed (r : SysRet) : Prop := r.ret.toInt < 0

instance (r : SysRet) : Decidable r.Failed := inferInstanceAs (Decidable (_ < _))

/-- What `recv` answers. -/
structure RecvRet extends SysRet where
  /-- The bytes it puts into the buffer, as far as there is room. -/
  data : List (BitVec 8)

/-- What `send` answers. -/
structure SendRet extends SysRet where
  /-- The number of bytes it reads, if the buffer has that many. -/
  read : ℕ

/-- What `poll` answers. -/
structure PollRet extends SysRet where
  /-- The number of entries it reads, if the array has that many. -/
  read : ℕ
  /-- The `revents` it writes into the first of the entries it has read. -/
  revents : List (BitVec 16)

/-- `struct sockaddr_in`: the address and the port. -/
structure SockaddrIn where
  /-- `sin_addr.s_addr` -/
  addr : BitVec 32
  /-- `sin_port`, in network order. -/
  port : BitVec 16
  deriving DecidableEq, Repr

/-- **The system calls**, and the functions of the C library that read memory. -/
structure Sys where
  /-- `socket(AF_INET, SOCK_STREAM, 0)` -/
  socket : SysRet
  /-- `setsockopt(fd, SOL_SOCKET, SO_REUSEADDR, &opt, sizeof(opt))`, with `opt = 1` -/
  setsockopt : BitVec 32 → SysRet
  /-- `bind(fd, addr, sizeof(addr))` -/
  bind : BitVec 32 → SockaddrIn → SysRet
  /-- `listen(fd, backlog)` -/
  listen : BitVec 32 → BitVec 32 → SysRet
  /-- `accept(fd, NULL, 0)` -/
  accept : BitVec 32 → SysRet
  /-- `connect(fd, addr, sizeof(addr))` -/
  connect : BitVec 32 → SockaddrIn → SysRet
  /-- `fcntl(fd, F_GETFL, 0)` -/
  getfl : BitVec 32 → SysRet
  /-- `fcntl(fd, F_SETFL, flags)` -/
  setfl : BitVec 32 → BitVec 32 → SysRet
  /-- `recv(fd, buf, len, 0)` -/
  recv : BitVec 32 → ℕ → RecvRet
  /-- `send(fd, buf, len, 0)` -/
  send : BitVec 32 → ℕ → SendRet
  /-- `close(fd)` -/
  close : BitVec 32 → SysRet
  /-- `poll(fds, len, timeout)` -/
  poll : ℕ → BitVec 32 → PollRet
  /-- `inet_addr(cp)`, of the bytes there are from `cp` on: the address, and how many of
  the bytes it reads. -/
  inetAddr : (ℕ → BitVec 8) → BitVec 32 × ℕ

/-- `O_NONBLOCK` -/
def O_NONBLOCK : BitVec 32 := 0x800#32

/-- `INADDR_ANY` -/
def INADDR_ANY : BitVec 32 := 0

/-- `htons`, on a little-endian host. -/
def htons (port : BitVec 16) : BitVec 16 := port.extractLsb' 0 8 ++ port.extractLsb' 8 8

/-! ### The caller -/

/-- What the guest exports under the name `memory`. -/
inductive Exported
  /-- Nothing. -/
  | missing
  /-- Something that is not a memory. -/
  | other
  /-- Its linear memory. -/
  | memory
  deriving DecidableEq, Repr

/-- **The caller** of a binding. -/
structure Caller where
  /-- What it exports as `memory`. -/
  exported : Exported
  /-- The size of its linear memory. -/
  size : ℕ
  /-- What is in memory when the binding is called. -/
  memory : Memory

/-- A value of the guest, by its kind. -/
inductive Val
  | i32 (v : BitVec 32)
  | i64 (v : BitVec 64)
  deriving DecidableEq, Repr

/-- How a binding ends. -/
inductive Ending
  /-- In a trap, with a message. -/
  | trap (message : String)
  /-- In an assertion that fails, which takes the host down. -/
  | abort
  /-- With a result. -/
  | returned (v : Val)
  deriving DecidableEq, Repr

/-- What a binding has done so far. -/
structure State where
  /-- Memory. -/
  memory : Memory
  /-- The stretches of memory that were read or written. -/
  touched : List Range
  /-- `errno` -/
  errno : BitVec 32

/-- A binding has ended. -/
structure Outcome where
  /-- How it ended. -/
  ending : Ending
  /-- What it had done. -/
  state : State

/-- Nothing is done yet. -/
def Caller.start (caller : Caller) (errno : BitVec 32) : State :=
  { memory := caller.memory, touched := [], errno := errno }

/-- A system call was made. -/
def State.called (s : State) (r : SysRet) : State := { s with errno := r.errno }

/-- A stretch of memory was touched. -/
def State.touch (s : State) (r : Range) : State := { s with touched := r :: s.touched }

/-- Bytes were written. -/
def State.write (s : State) (start : ℤ) (bs : List (BitVec 8)) : State :=
  { s.touch ⟨start, bs.length⟩ with memory := Bytes.write s.memory start bs }

@[simp] theorem Caller.memory_start (caller : Caller) (errno : BitVec 32) :
    (caller.start errno).memory = caller.memory := rfl

@[simp] theorem Caller.touched_start (caller : Caller) (errno : BitVec 32) :
    (caller.start errno).touched = [] := rfl

@[simp] theorem State.memory_called (s : State) (r : SysRet) : (s.called r).memory = s.memory := rfl

@[simp] theorem State.touched_called (s : State) (r : SysRet) :
    (s.called r).touched = s.touched := rfl

@[simp] theorem State.memory_touch (s : State) (r : Range) : (s.touch r).memory = s.memory := rfl

@[simp] theorem State.touched_touch (s : State) (r : Range) :
    (s.touch r).touched = r :: s.touched := rfl

/-! ### The macros -/

/-- `result1` -/
def result1 (v : Val) (s : State) : Outcome := ⟨.returned v, s⟩

/-- `LOAD_MEMORY`, and what comes after it. -/
def loadMemory (caller : Caller) (name : String) (s : State) (k : State → Outcome) : Outcome :=
  match caller.exported with
  | .missing => ⟨.trap ("[" ++ name ++ "] cannot load memory"), s⟩
  | .other => ⟨.abort, s⟩
  | .memory => k s

/-- `memory_write_u32`, at an offset from the base. -/
def memoryWriteU32 (offset : BitVec 32) (v : BitVec 32) (s : State) : State :=
  s.write offset.toNat (Bytes.littleEndian 4 v)

/-- `WRITE_ERRNO`, with the argument the macro picks, and what comes after it. -/
def writeErrno (caller : Caller) (name : String) (offset : BitVec 32) (s : State)
    (k : State → Outcome) : Outcome :=
  loadMemory caller name s fun s => k (memoryWriteU32 offset s.errno s)

/-- The end of the bindings that open a descriptor, where it is made non-blocking. -/
def setNonblocking (sys : Sys) (caller : Caller) (name : String) (offset : BitVec 32)
    (fd : BitVec 32) (s : State) : Outcome :=
  let flags := sys.getfl fd
  let s := s.called flags
  if flags.ret = -1 then writeErrno caller name offset s (result1 (.i32 fd))
  else
    let set := sys.setfl fd (flags.ret ||| O_NONBLOCK)
    let s := s.called set
    if set.ret ≠ 0 then writeErrno caller name offset s (result1 (.i32 fd))
    else result1 (.i32 fd) s

/-! ### The numbers of the arguments

A numeral stands for an argument of a function where the function has any. -/

scoped instance neZero_two : NeZero 2 := ⟨by decide⟩

scoped instance neZero_three : NeZero 3 := ⟨by decide⟩

scoped instance neZero_four : NeZero 4 := ⟨by decide⟩

/-! ### The module `host_socket` -/

/-- `host_connect` -/
def hostConnect (sys : Sys) (caller : Caller) (args : Fin 4 → BitVec 32) (s : State) : Outcome :=
  let addrOffset := (args 0).toInt
  let addrLen := (args 1).toInt
  let port := args 2
  loadMemory caller "host_connect" s fun s =>
    let sockfd := sys.socket
    let s := s.called sockfd
    if sockfd.Failed then
      -- the macro picks the port
      writeErrno caller "host_connect" (args 2) s (result1 (.i64 (sockfd.ret.signExtend 64)))
    else
      let s := s.touch ⟨addrOffset + addrLen, 1⟩
      if s.memory (addrOffset + addrLen) = 0 then
        let addr := sys.inetAddr fun k => s.memory (addrOffset + k)
        let s := s.touch ⟨addrOffset, addr.2⟩
        let ans := sys.connect sockfd.ret ⟨addr.1, htons (port.setWidth 16)⟩
        let s := s.called ans
        if ans.Failed then
          writeErrno caller "host_connect" (args 3) s (result1 (.i64 (ans.ret.signExtend 64)))
        else setNonblocking sys caller "host_connect" (args 3) sockfd.ret s
      else ⟨.abort, s⟩

/-- `host_accept` -/
def hostAccept (sys : Sys) (caller : Caller) (args : Fin 2 → BitVec 32) (s : State) : Outcome :=
  let sockfd := args 0
  let ans := sys.accept sockfd
  let s := s.called ans
  if ans.Failed then writeErrno caller "host_accept" (args 1) s (result1 (.i32 ans.ret))
  else setNonblocking sys caller "host_accept" (args 1) ans.ret s

/-- `host_listen` -/
def hostListen (sys : Sys) (caller : Caller) (args : Fin 3 → BitVec 32) (s : State) : Outcome :=
  let port := args 0
  let backlog := args 1
  let sockfd := sys.socket
  let s := s.called sockfd
  let opt := sys.setsockopt sockfd.ret
  let s := s.called opt
  if opt.ret ≠ 0 then writeErrno caller "host_listen" (args 2) s (result1 (.i32 sockfd.ret))
  else if sockfd.Failed then
    writeErrno caller "host_listen" (args 2) s (result1 (.i32 sockfd.ret))
  else
    let ans := sys.bind sockfd.ret ⟨INADDR_ANY, htons (port.setWidth 16)⟩
    let s := s.called ans
    if ans.Failed then writeErrno caller "host_listen" (args 2) s (result1 (.i32 ans.ret))
    else
      let ans := sys.listen sockfd.ret backlog
      let s := s.called ans
      if ans.Failed then writeErrno caller "host_listen" (args 2) s (result1 (.i32 ans.ret))
      else setNonblocking sys caller "host_listen" (args 2) sockfd.ret s

/-- `host_recv` -/
def hostRecv (sys : Sys) (caller : Caller) (args : Fin 4 → BitVec 32) (s : State) : Outcome :=
  let sockfd := args 0
  let boffset := (args 1).toNat
  let blen := (args 2).toNat
  loadMemory caller "host_recv" s fun s =>
    let ans := sys.recv sockfd blen
    let s := (s.write boffset (ans.data.take blen)).called ans.toSysRet
    if ans.Failed then writeErrno caller "host_recv" (args 3) s (result1 (.i32 ans.ret))
    else result1 (.i32 ans.ret) s

/-- `host_send` -/
def hostSend (sys : Sys) (caller : Caller) (args : Fin 4 → BitVec 32) (s : State) : Outcome :=
  let sockfd := args 0
  let boffset := (args 1).toNat
  let blen := (args 2).toNat
  loadMemory caller "host_send" s fun s =>
    let ans := sys.send sockfd blen
    let s := (s.touch ⟨boffset, min ans.read blen⟩).called ans.toSysRet
    if ans.Failed then writeErrno caller "host_send" (args 3) s (result1 (.i32 ans.ret))
    else result1 (.i32 ans.ret) s

/-- `host_close` -/
def hostClose (sys : Sys) (caller : Caller) (args : Fin 2 → BitVec 32) (s : State) : Outcome :=
  let sockfd := args 0
  let ans := sys.close sockfd
  let s := s.called ans
  if ans.Failed then writeErrno caller "host_close" (args 1) s (result1 (.i32 ans.ret))
  else result1 (.i32 ans.ret) s

/-! ### The module `host_poll` -/

/-- The size of a `struct pollfd`. -/
def pollfdSize : ℕ := 8

/-- The offset of `revents` in a `struct pollfd`. -/
def reventsOffset : ℕ := 6

/-- The `revents` fields of the entries from `start` on are written. -/
def writeRevents : (start : ℤ) → List (BitVec 16) → Memory → Memory
  | _, [], mem => mem
  | start, revents :: rest, mem =>
    writeRevents (start + pollfdSize) rest
      (Bytes.write mem (start + reventsOffset) (Bytes.littleEndian 2 revents))

/-- `poll` has read `read` of the entries from `start` on, and then written the first of
their `revents`. -/
def State.polled (s : State) (start : ℤ) (read : ℕ) (revents : List (BitVec 16)) : State :=
  { s.touch ⟨start, pollfdSize * read⟩ with
    memory := writeRevents start (revents.take read) s.memory }

/-- `host_poll` -/
def hostPoll (sys : Sys) (caller : Caller) (args : Fin 4 → BitVec 32) (s : State) : Outcome :=
  let soffset := (args 0).toNat
  let slen := (args 1).toNat
  let timeout := args 2
  loadMemory caller "host_poll" s fun s =>
    let ans := sys.poll slen timeout
    let s := (s.polled soffset (min ans.read slen) ans.revents).called ans.toSysRet
    if ans.Failed then writeErrno caller "host_poll" (args 3) s (result1 (.i32 ans.ret))
    else result1 (.i32 ans.ret) s

/-! ### A call of a binding -/

/-- **A call of one of the bindings**, with the arguments the guest passes. -/
inductive Invocation
  | listen (args : Fin 3 → BitVec 32)
  | connect (args : Fin 4 → BitVec 32)
  | accept (args : Fin 2 → BitVec 32)
  | recv (args : Fin 4 → BitVec 32)
  | send (args : Fin 4 → BitVec 32)
  | close (args : Fin 2 → BitVec 32)
  | poll (args : Fin 4 → BitVec 32)

/-- What the call does, from a state on. -/
def Invocation.exec (sys : Sys) (caller : Caller) : Invocation → State → Outcome
  | .listen args => hostListen sys caller args
  | .connect args => hostConnect sys caller args
  | .accept args => hostAccept sys caller args
  | .recv args => hostRecv sys caller args
  | .send args => hostSend sys caller args
  | .close args => hostClose sys caller args
  | .poll args => hostPoll sys caller args

/-- What the call does, with the value of `errno` before it. -/
def Invocation.run (sys : Sys) (caller : Caller) (errno : BitVec 32) (i : Invocation) : Outcome :=
  i.exec sys caller (caller.start errno)

end HostDriver

end Waeio
