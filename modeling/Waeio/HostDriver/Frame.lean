import Waeio.HostDriver.Basic

/-!
# What a binding touches

A binding is *right* (`Waeio.HostDriver.Outcome.Right`) when it traps, or returns an `i32`
and has touched nothing outside of the linear memory and changed nothing in it but the data
the guest asked for and, when it reports a failure, the four bytes at its last argument,
which then hold `errno`.

No binding compares an address with the size of the memory, so none is right for every
guest. When each one is right is `Waeio.HostDriver.Invocation.Meets`: the stretches it is
about to touch are inside, and the steps that go wrong are not taken. Of these there are
three:

* `host_connect` hands `WRITE_ERRNO` the index of the port when `socket` fails, and
  answers with an `i64` when `socket` or `connect` does;
* a descriptor that cannot be made non-blocking is returned as a success, with `errno`
  written all the same;
* `host_listen` returns the descriptor, and not the answer of `setsockopt`, when that
  call fails.
-/

namespace Waeio

namespace HostDriver

open Bytes (Memory Range)

/-! ### What the guest asks for -/

/-- The four bytes at an address the guest passes. -/
def cell (offset : BitVec 32) : Range := ⟨offset.toNat, 4⟩

/-- The last argument. -/
def Invocation.last : Invocation → BitVec 32
  | .listen args => args 2
  | .connect args | .recv args | .send args | .poll args => args 3
  | .accept args | .close args => args 1

/-- **The bytes the guest asks to be written**: the buffer of `host_recv`, and the
`revents` fields of `host_poll`. -/
def Invocation.Data : Invocation → ℤ → Prop
  | .recv args, a => a ∈ Range.mk (args 1).toNat (args 2).toNat
  | .poll args, a =>
    ∃ k < (args 1).toNat, a ∈ Range.mk ((args 0).toNat + pollfdSize * k + reventsOffset) 2
  | _, _ => False

/-- Everything touched lies inside the linear memory. -/
def State.Within (s : State) (caller : Caller) : Prop := ∀ r ∈ s.touched, r.Inside caller.size

/-- Only these bytes of the linear memory have changed. -/
def State.ChangesOnly (s : State) (caller : Caller) (D : ℤ → Prop) : Prop :=
  ∀ a : ℤ, 0 ≤ a → a < caller.size → s.memory a ≠ caller.memory a → D a

/-- **The binding is right.** -/
def Outcome.Right (out : Outcome) (caller : Caller) (data : ℤ → Prop) (last : BitVec 32) : Prop :=
  match out.ending with
  | .trap _ => True
  | .abort => False
  | .returned v => ∃ w, v = .i32 w ∧ out.state.Within caller ∧
      out.state.ChangesOnly caller (fun a => data a ∨ w.toInt < 0 ∧ a ∈ cell last) ∧
      (w.toInt < 0 →
        Bytes.Holds out.state.memory last.toNat (Bytes.littleEndian 4 out.state.errno))

/-! ### When it is -/

/-- `errno` can be written there, or there is no memory to write to and the binding traps. -/
def Caller.Writable (caller : Caller) (offset : BitVec 32) : Prop :=
  caller.exported = .missing ∨ caller.exported = .memory ∧ (cell offset).Inside caller.size

/-- Writing this `errno` there changes nothing. -/
def Caller.Keeps (caller : Caller) (offset errno : BitVec 32) : Prop :=
  caller.exported = .missing ∨ caller.exported = .memory ∧ (cell offset).Inside caller.size ∧
    Bytes.Holds caller.memory offset.toNat (Bytes.littleEndian 4 errno)

/-- The `errno` with which a descriptor cannot be made non-blocking. -/
def Sys.nonblockErrno (sys : Sys) (fd : BitVec 32) : Option (BitVec 32) :=
  let flags := sys.getfl fd
  if flags.ret = -1 then some flags.errno
  else
    let set := sys.setfl fd (flags.ret ||| O_NONBLOCK)
    if set.ret ≠ 0 then some set.errno else none

/-- The descriptor can be made non-blocking, or writing the `errno` changes nothing. -/
def Sys.Nonblocks (sys : Sys) (caller : Caller) (offset fd : BitVec 32) : Prop :=
  ∀ errno, sys.nonblockErrno fd = some errno → caller.Keeps offset errno

/-- The answer of a call that leaves its `errno` at `offset` when it fails, and has touched
`r` before. -/
def Caller.Serves (caller : Caller) (r : Range) (ans : SysRet) (offset : BitVec 32) : Prop :=
  caller.exported = .missing ∨ caller.exported = .memory ∧ r.Inside caller.size ∧
    (ans.Failed → (cell offset).Inside caller.size)

/-- **The condition under which a binding is right.** -/
def Invocation.Meets (sys : Sys) (caller : Caller) : Invocation → Prop
  | .listen args =>
    let sockfd := sys.socket
    let opt := sys.setsockopt sockfd.ret
    if opt.ret ≠ 0 then
      if sockfd.Failed then caller.Writable (args 2) else caller.Keeps (args 2) opt.errno
    else if sockfd.Failed ∨
        (sys.bind sockfd.ret ⟨INADDR_ANY, htons ((args 0).setWidth 16)⟩).Failed ∨
        (sys.listen sockfd.ret (args 1)).Failed then caller.Writable (args 2)
    else sys.Nonblocks caller (args 2) sockfd.ret
  | .connect args =>
    let addrOffset := (args 0).toInt
    let addrEnd := (args 0).toInt + (args 1).toInt
    let addr := sys.inetAddr fun k => caller.memory (addrOffset + k)
    caller.exported = .missing ∨ caller.exported = .memory ∧ ¬ sys.socket.Failed ∧
      (Range.mk addrEnd 1).Inside caller.size ∧ caller.memory addrEnd = 0 ∧
      (Range.mk addrOffset addr.2).Inside caller.size ∧
      ¬ (sys.connect sys.socket.ret ⟨addr.1, htons ((args 2).setWidth 16)⟩).Failed ∧
      sys.Nonblocks caller (args 3) sys.socket.ret
  | .accept args =>
    let ans := sys.accept (args 0)
    if ans.Failed then caller.Writable (args 1) else sys.Nonblocks caller (args 1) ans.ret
  | .recv args =>
    let ans := sys.recv (args 0) (args 2).toNat
    caller.Serves ⟨(args 1).toNat, (ans.data.take (args 2).toNat).length⟩ ans.toSysRet (args 3)
  | .send args =>
    let ans := sys.send (args 0) (args 2).toNat
    caller.Serves ⟨(args 1).toNat, min ans.read (args 2).toNat⟩ ans.toSysRet (args 3)
  | .close args => (sys.close (args 0)).Failed → caller.Writable (args 1)
  | .poll args =>
    let ans := sys.poll (args 1).toNat (args 2)
    caller.Serves ⟨(args 0).toNat, pollfdSize * min ans.read (args 1).toNat⟩ ans.toSysRet (args 3)

/-! ### The results -/

section Results

variable {caller : Caller} {data : ℤ → Prop} {name : String} {s : State} {last w : BitVec 32}

/-- **Loading memory**: where it is missing the binding traps, and where something else is
exported the host goes down. -/
theorem right_loadMemory {k : State → Outcome} {P : Prop}
    (h : caller.exported = .memory → ((k s).Right caller data last ↔ P)) :
    (loadMemory caller name s k).Right caller data last ↔
      caller.exported = .missing ∨ caller.exported = .memory ∧ P := by
  rw [loadMemory]
  rcases he : caller.exported with _ | _ | _
  · simp [Outcome.Right]
  · simp [Outcome.Right]
  · simp [h he]

theorem right_result1 : (result1 (.i32 w) s).Right caller data last ↔
    s.Within caller ∧ s.ChangesOnly caller (fun a => data a ∨ w.toInt < 0 ∧ a ∈ cell last) ∧
      (w.toInt < 0 → Bytes.Holds s.memory last.toNat (Bytes.littleEndian 4 s.errno)) := by
  simp [Outcome.Right, result1]

theorem not_right_i64 {v : BitVec 64} : ¬ (result1 (.i64 v) s).Right caller data last := by
  simp [Outcome.Right, result1]

theorem not_right_writeErrno_i64 {v : BitVec 64} {offset : BitVec 32}
    (h : caller.exported = .memory) :
    ¬ (writeErrno caller name offset s (result1 (.i64 v))).Right caller data last := by
  rw [writeErrno, loadMemory, h]
  exact not_right_i64

/-- **A success that wrote no `errno`.** -/
theorem right_result1_of_nonneg (hw : ¬ w.toInt < 0) : (result1 (.i32 w) s).Right caller data last ↔
    s.Within caller ∧ s.ChangesOnly caller data := by
  simp [right_result1, hw]

theorem within_memoryWriteU32 {v : BitVec 32} :
    (memoryWriteU32 last v s).Within caller ↔ (cell last).Inside caller.size ∧ s.Within caller := by
  simp [State.Within, memoryWriteU32, State.write, State.touch, cell]

theorem memoryWriteU32_of_notMem {v : BitVec 32} {a : ℤ} (h : a ∉ cell last) :
    (memoryWriteU32 last v s).memory a = s.memory a :=
  Bytes.write_of_notMem (by simpa [cell] using h)

/-- **A failure that wrote `errno`**: the bytes it may change are the ones the guest asked
for, and the four where `errno` now is. -/
theorem right_writeErrno_of_neg (hw : w.toInt < 0)
    (hs : s.ChangesOnly caller (fun a => data a ∨ a ∈ cell last)) :
    (writeErrno caller name last s (result1 (.i32 w))).Right caller data last ↔
      caller.exported = .missing ∨ caller.exported = .memory ∧
        (cell last).Inside caller.size ∧ s.Within caller := by
  refine right_loadMemory fun _ => ?_
  have hchanges : (memoryWriteU32 last s.errno s).ChangesOnly caller
      (fun a => data a ∨ a ∈ cell last) := by
    intro a hle hlt hne
    by_cases hc : a ∈ cell last
    · exact Or.inr hc
    · rw [memoryWriteU32_of_notMem hc] at hne
      exact hs a hle hlt hne
  have hholds : Bytes.Holds (memoryWriteU32 last s.errno s).memory last.toNat
      (Bytes.littleEndian 4 s.errno) := Bytes.holds_write _ _ _
  simp only [right_result1, hw, true_and, forall_const, within_memoryWriteU32]
  constructor
  · rintro ⟨h, -, -⟩
    exact h
  · intro h
    exact ⟨h, hchanges, hholds⟩

/-- **A success that wrote `errno`** is right only where it was there already. -/
theorem right_writeErrno_of_nonneg (hw : ¬ w.toInt < 0) (hs : s.memory = caller.memory)
    (hdata : ∀ a, ¬ data a) :
    (writeErrno caller name last s (result1 (.i32 w))).Right caller data last ↔
      caller.exported = .missing ∨ caller.exported = .memory ∧ (cell last).Inside caller.size ∧
        s.Within caller ∧ Bytes.Holds caller.memory last.toNat (Bytes.littleEndian 4 s.errno) := by
  refine right_loadMemory fun _ => ?_
  simp only [right_result1_of_nonneg hw, within_memoryWriteU32, and_assoc]
  refine and_congr_right fun hin => and_congr_right fun _ => ?_
  rw [← Bytes.write_eq_self_iff, Bytes.length_littleEndian]
  constructor
  · intro h a ha
    by_contra hne
    refine hdata a (h a (hin a ha).1 (hin a ha).2 ?_)
    simpa [memoryWriteU32, State.write, hs] using hne
  · intro h a _ _ hne
    by_cases hc : a ∈ cell last
    · refine absurd (h a hc) ?_
      simpa [memoryWriteU32, State.write, hs] using hne
    · rw [memoryWriteU32_of_notMem hc, hs] at hne
      exact absurd rfl hne

/-- Nothing has changed yet. -/
theorem changesOnly_of_eq {D : ℤ → Prop} (h : s.memory = caller.memory) :
    s.ChangesOnly caller D := fun a _ _ hne => absurd (congrFun h a) hne

/-- What making a descriptor non-blocking comes to, by whether it can be. -/
theorem setNonblocking_eq (sys : Sys) (caller : Caller) (name : String) (last fd : BitVec 32)
    (s : State) :
    (∃ errno, sys.nonblockErrno fd = some errno ∧
      setNonblocking sys caller name last fd s =
        writeErrno caller name last { s with errno := errno } (result1 (.i32 fd))) ∨
    ∃ errno, sys.nonblockErrno fd = none ∧
      setNonblocking sys caller name last fd s = result1 (.i32 fd) { s with errno := errno } := by
  unfold setNonblocking Sys.nonblockErrno
  dsimp only
  split_ifs with hflags hset
  · exact Or.inl ⟨_, rfl, rfl⟩
  · exact Or.inl ⟨_, rfl, rfl⟩
  · exact Or.inr ⟨_, rfl, rfl⟩

/-- **The end of the bindings that open a descriptor.** -/
theorem right_setNonblocking {sys : Sys} {fd : BitVec 32} (hfd : ¬ fd.toInt < 0)
    (hs : s.memory = caller.memory) (hdata : ∀ a, ¬ data a)
    (hw : caller.exported = .memory ∨ s.Within caller) :
    (setNonblocking sys caller name last fd s).Right caller data last ↔
      s.Within caller ∧ sys.Nonblocks caller last fd := by
  rcases setNonblocking_eq sys caller name last fd s with ⟨errno, hn, he⟩ | ⟨errno, hn, he⟩
  · have hmissing : caller.exported = .missing → s.Within caller := by
      intro hm
      rcases hw with h | h
      · rw [hm] at h
        cases h
      · exact h
    have hs' : ({ s with errno := errno } : State).memory = caller.memory := hs
    rw [he, right_writeErrno_of_nonneg hfd hs' hdata]
    simp only [Sys.Nonblocks, hn, Option.some.injEq, forall_eq', Caller.Keeps]
    constructor
    · rintro (hm | ⟨he, hin, hwithin, hholds⟩)
      · exact ⟨hmissing hm, Or.inl hm⟩
      · exact ⟨hwithin, Or.inr ⟨he, hin, hholds⟩⟩
    · rintro ⟨hwithin, hm | ⟨he, hin, hholds⟩⟩
      · exact Or.inl hm
      · exact Or.inr ⟨he, hin, hwithin, hholds⟩
  · rw [he, right_result1_of_nonneg hfd]
    simp only [Sys.Nonblocks, hn, reduceCtorEq, false_imp_iff, implies_true, and_true]
    exact and_iff_left (changesOnly_of_eq hs)

/-- **The end of the bindings that load memory first**, and report the failure of their one
call. -/
theorem right_report {ans : SysRet} {r : Range} (hm : caller.exported = .memory)
    (ht : s.touched = [r]) (hs : s.ChangesOnly caller data) :
    (if ans.Failed then writeErrno caller name last s (result1 (.i32 ans.ret))
      else result1 (.i32 ans.ret) s).Right caller data last ↔
      r.Inside caller.size ∧ (ans.Failed → (cell last).Inside caller.size) := by
  have hwithin : s.Within caller ↔ r.Inside caller.size := by simp [State.Within, ht]
  split_ifs with hf
  · rw [right_writeErrno_of_neg hf fun a hle hlt hne => Or.inl (hs a hle hlt hne), hwithin, hm]
    simp [hf, and_comm]
  · rw [right_result1_of_nonneg hf, hwithin]
    simp [hf, hs]

/-- The failures of the bindings that load memory only to report one. -/
theorem right_fail (hw : w.toInt < 0) (ht : s.touched = []) (hs : s.memory = caller.memory) :
    (writeErrno caller name last s (result1 (.i32 w))).Right caller data last ↔
      caller.Writable last := by
  rw [right_writeErrno_of_neg hw (changesOnly_of_eq hs)]
  simp [State.Within, ht, Caller.Writable]

end Results

/-! ### The bindings -/

section Bindings

variable (sys : Sys) (caller : Caller) (errno : BitVec 32)

theorem close_right_iff (args : Fin 2 → BitVec 32) :
    ((Invocation.close args).run sys caller errno).Right caller (Invocation.close args).Data
      (args 1) ↔ (Invocation.close args).Meets sys caller := by
  simp only [Invocation.run, Invocation.exec, hostClose, Invocation.Meets]
  split_ifs with hf
  · rw [right_fail hf rfl rfl]
    simp [hf]
  · rw [right_result1_of_nonneg hf]
    simp [hf, State.Within, State.ChangesOnly]

theorem accept_right_iff (args : Fin 2 → BitVec 32) :
    ((Invocation.accept args).run sys caller errno).Right caller (Invocation.accept args).Data
      (args 1) ↔ (Invocation.accept args).Meets sys caller := by
  have hdata : ∀ a, ¬ (Invocation.accept args).Data a := fun _ => id
  have hwithin : ((caller.start errno).called (sys.accept (args 0))).Within caller := by
    simp [State.Within]
  simp only [Invocation.run, Invocation.exec, hostAccept, Invocation.Meets]
  split_ifs with hf
  · exact right_fail hf rfl rfl
  · rw [right_setNonblocking hf rfl hdata (Or.inr hwithin)]
    exact and_iff_right hwithin

theorem listen_right_iff (args : Fin 3 → BitVec 32) :
    ((Invocation.listen args).run sys caller errno).Right caller (Invocation.listen args).Data
      (args 2) ↔ (Invocation.listen args).Meets sys caller := by
  have hdata : ∀ a, ¬ (Invocation.listen args).Data a := fun _ => id
  have hwithin : ∀ r₁ r₂ r₃ r₄ : SysRet, (((((caller.start errno).called r₁).called r₂).called
      r₃).called r₄).Within caller := by
    simp [State.Within]
  simp only [Invocation.run, Invocation.exec, hostListen, Invocation.Meets]
  by_cases hopt : (sys.setsockopt sys.socket.ret).ret ≠ 0
  · rw [if_pos hopt, if_pos hopt]
    split_ifs with hfd
    · exact right_fail hfd rfl rfl
    · rw [right_writeErrno_of_nonneg hfd rfl hdata]
      simp [Caller.Keeps, State.Within, State.called]
  · rw [if_neg hopt, if_neg hopt]
    -- the three calls that may fail, one after the other
    by_cases hfd : sys.socket.Failed
    · rw [if_pos hfd, if_pos (Or.inl hfd)]
      exact right_fail hfd rfl rfl
    · rw [if_neg hfd]
      by_cases hbind :
          (sys.bind sys.socket.ret ⟨INADDR_ANY, htons ((args 0).setWidth 16)⟩).Failed
      · rw [if_pos hbind, if_pos (Or.inr (Or.inl hbind))]
        exact right_fail hbind rfl rfl
      · rw [if_neg hbind]
        by_cases hlisten : (sys.listen sys.socket.ret (args 1)).Failed
        · rw [if_pos hlisten, if_pos (Or.inr (Or.inr hlisten))]
          exact right_fail hlisten rfl rfl
        · rw [if_neg hlisten, if_neg (by simp [hfd, hbind, hlisten]),
            right_setNonblocking hfd rfl hdata (Or.inr (hwithin _ _ _ _))]
          exact and_iff_right (hwithin _ _ _ _)

theorem recv_right_iff (args : Fin 4 → BitVec 32) :
    ((Invocation.recv args).run sys caller errno).Right caller (Invocation.recv args).Data
      (args 3) ↔ (Invocation.recv args).Meets sys caller := by
  refine right_loadMemory fun hm => right_report hm rfl fun a _ _ hne => ?_
  by_contra hnot
  refine hne (Bytes.write_of_notMem fun hmem => hnot ?_)
  refine ⟨hmem.1, lt_of_lt_of_le hmem.2 ?_⟩
  have hlen := List.length_take_le (args 2).toNat (sys.recv (args 0) (args 2).toNat).data
  dsimp only
  omega

theorem send_right_iff (args : Fin 4 → BitVec 32) :
    ((Invocation.send args).run sys caller errno).Right caller (Invocation.send args).Data
      (args 3) ↔ (Invocation.send args).Meets sys caller :=
  right_loadMemory fun hm => right_report hm rfl (changesOnly_of_eq rfl)

/-- **`poll` writes `revents` fields only.** -/
theorem writeRevents_of_notMem {a : ℤ} (revents : List (BitVec 16)) :
    ∀ (start : ℤ) (mem : Memory),
      (∀ k < revents.length, a ∉ Range.mk (start + pollfdSize * k + reventsOffset) 2) →
        writeRevents start revents mem a = mem a := by
  induction revents with
  | nil => exact fun _ _ _ => rfl
  | cons r rest ih =>
    intro start mem h
    rw [writeRevents, ih]
    · refine Bytes.write_of_notMem ?_
      simpa using h 0 (Nat.succ_pos _)
    · intro k hk
      have hsucc := h (k + 1) (Nat.succ_lt_succ hk)
      push_cast at hsucc
      rwa [Int.mul_add, Int.mul_one, Int.add_comm ((pollfdSize : ℤ) * k), ← Int.add_assoc] at hsucc

theorem poll_right_iff (args : Fin 4 → BitVec 32) :
    ((Invocation.poll args).run sys caller errno).Right caller (Invocation.poll args).Data
      (args 3) ↔ (Invocation.poll args).Meets sys caller := by
  refine right_loadMemory fun hm => right_report hm rfl fun a _ _ hne => ?_
  by_contra hnot
  refine hne (writeRevents_of_notMem _ _ _ fun k hk hmem => hnot ⟨k, ?_, hmem⟩)
  rw [List.length_take] at hk
  omega

theorem connect_right_iff (args : Fin 4 → BitVec 32) :
    ((Invocation.connect args).run sys caller errno).Right caller (Invocation.connect args).Data
      (args 3) ↔ (Invocation.connect args).Meets sys caller := by
  have hdata : ∀ a, ¬ (Invocation.connect args).Data a := fun _ => id
  refine right_loadMemory fun hm => ?_
  simp only [State.memory_touch, State.memory_called, Caller.memory_start]
  by_cases hfd : sys.socket.Failed
  · rw [if_pos hfd]
    exact iff_of_false (not_right_writeErrno_i64 hm) fun h => h.1 hfd
  rw [if_neg hfd]
  by_cases hnul : caller.memory ((args 0).toInt + (args 1).toInt) = 0
  swap
  · simp only [hnul, ↓reduceIte]
    exact iff_of_false id fun h => h.2.2.1
  by_cases hans : (sys.connect sys.socket.ret
      ⟨(sys.inetAddr fun k => caller.memory ((args 0).toInt + k)).1,
        htons ((args 2).setWidth 16)⟩).Failed
  · simp only [hnul, hans, ↓reduceIte]
    exact iff_of_false (not_right_writeErrno_i64 hm) fun h => h.2.2.2.2.1 trivial
  · simp only [hnul, hans, ↓reduceIte]
    rw [right_setNonblocking hfd rfl hdata (Or.inl hm)]
    simp only [State.Within, State.touched_called, State.touched_touch, Caller.touched_start,
      List.forall_mem_cons, List.not_mem_nil, false_imp_iff, implies_true, and_true]
    tauto

end Bindings

/-! ### A host that has run out of descriptors -/

/-- A host with no descriptor to give and none open: `EMFILE` where one is asked for, and
`EBADF` where one is used. -/
def exhausted : Sys where
  socket := ⟨-1, 24⟩
  setsockopt _ := ⟨-1, 9⟩
  bind _ _ := ⟨-1, 9⟩
  listen _ _ := ⟨-1, 9⟩
  accept _ := ⟨-1, 9⟩
  connect _ _ := ⟨-1, 9⟩
  getfl _ := ⟨-1, 9⟩
  setfl _ _ := ⟨-1, 9⟩
  recv _ _ := ⟨⟨-1, 9⟩, []⟩
  send _ _ := ⟨⟨-1, 9⟩, 0⟩
  close _ := ⟨-1, 9⟩
  poll _ _ := ⟨⟨0, 0⟩, 0, []⟩
  inetAddr _ := (-1, 1)

/-- A guest with one page of memory, empty. -/
def onePage : Caller := { exported := .memory, size := 65536, memory := fun _ => 0 }

/-- **Not every call is right**: with one page of memory, closing a descriptor that is not
open with `errno` at 70000 writes behind the memory; and where there is no descriptor left,
connecting to port 8080 writes `errno` at 8080, and answers with an `i64`. -/
theorem not_binding_right :
    (¬ ((Invocation.close ![3, 70000]).run exhausted onePage 0).Right onePage
        (Invocation.close ![3, 70000]).Data 70000 ∧
      ((Invocation.close ![3, 70000]).run exhausted onePage 0).state.memory 70000 = 9) ∧
    ¬ ((Invocation.connect ![1024, 9, 8080, 2048]).run exhausted onePage 0).Right onePage
        (Invocation.connect ![1024, 9, 8080, 2048]).Data 2048 ∧
      ((Invocation.connect ![1024, 9, 8080, 2048]).run exhausted onePage 0).state.memory 8080 = 24 ∧
      ((Invocation.connect ![1024, 9, 8080, 2048]).run exhausted onePage 0).ending =
        .returned (.i64 (-1)) := by
  refine ⟨⟨fun h => ?_, by decide⟩, fun h => ?_, by decide, by decide⟩
  · rcases (close_right_iff _ _ _ _).mp h (by decide) with h | ⟨-, h⟩
    · exact absurd h (by decide)
    · exact absurd h (by decide)
  · rcases (connect_right_iff _ _ _ _).mp h with h | ⟨-, h, -⟩
    · exact absurd h (by decide)
    · exact absurd h (by decide)

end HostDriver

/-! ### Every binding -/

/-- **Which calls of the host's bindings are right**: those that meet the condition, whatever
the system calls answer and whatever the size of the linear memory. -/
theorem hostBinding_right_iff (sys : HostDriver.Sys) (caller : HostDriver.Caller)
    (errno : BitVec 32) (i : HostDriver.Invocation) :
    (i.run sys caller errno).Right caller i.Data i.last ↔ i.Meets sys caller := by
  cases i with
  | listen args => exact HostDriver.listen_right_iff sys caller errno args
  | connect args => exact HostDriver.connect_right_iff sys caller errno args
  | accept args => exact HostDriver.accept_right_iff sys caller errno args
  | recv args => exact HostDriver.recv_right_iff sys caller errno args
  | send args => exact HostDriver.send_right_iff sys caller errno args
  | close args => exact HostDriver.close_right_iff sys caller errno args
  | poll args => exact HostDriver.poll_right_iff sys caller errno args

end Waeio
