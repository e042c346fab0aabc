import Mathlib.Algebra.Group.Int.Defs
import Mathlib.Algebra.Group.Nat.Defs
import Mathlib.Data.List.Basic

/-!
# Computations in 32 bits, with their operations

The arithmetic of C is not that of the integers: a result of an unsigned type is reduced
modulo `2 ^ 32`, one of a signed type has to be representable, a word is shifted by less
than its width, and an array is accessed below its length. A computation `Arith32.Comp`
has a value, computed as the machine does, and the list of such operations it has made, each
with the exact number it is about.

An operation is in range (`Arith32.Op.InRange`) if the machine does there what the integers
do. That a computation *yields* a value says that it has this value and that all its
operations are in range (`Arith32.Comp.Yields`). There is one rule for each way to build a
computation, so a proof that one yields the value of a function on the naturals goes along
its definition.
-/

namespace Arith32

/-! ### Computations -/

/-- **An operation**, with the exact number it is about. -/
inductive Op
  /-- A value of type `uint32_t`. -/
  | unsigned (v : ℤ) : Op
  /-- A value of type `int32_t`. -/
  | signed (v : ℤ) : Op
  /-- A shift of a word by so many bits. -/
  | shift (k : ℕ) : Op
  /-- An access to an element of an array, and how many it has. -/
  | access (i len : ℕ) : Op
  deriving DecidableEq, Repr

/-- **The operation is in range.** -/
def Op.InRange : Op → Prop
  | .unsigned v => 0 ≤ v ∧ v < 2 ^ 32
  | .signed v => -2 ^ 31 ≤ v ∧ v < 2 ^ 31
  | .shift k => k < 32
  | .access i len => i < len

/-- **A computation**: its value, and the operations it has made. -/
structure Comp (α : Type) where
  val : α
  log : List Op

namespace Comp

variable {α β : Type}

instance : Monad Comp where
  pure a := ⟨a, []⟩
  bind x f := ⟨(f x.val).val, x.log ++ (f x.val).log⟩

/-- **The computation yields `a`**, and stays in range. -/
structure Yields (x : Comp α) (a : α) : Prop where
  val_eq : x.val = a
  inRange : ∀ op ∈ x.log, op.InRange

theorem yields_pure (a : α) : (pure a : Comp α).Yields a := ⟨rfl, nofun⟩

theorem Yields.bind {x : Comp α} {f : α → Comp β} {a : α} {b : β} (hx : x.Yields a)
    (hf : (f a).Yields b) : (x >>= f).Yields b := by
  obtain rfl := hx.val_eq
  refine ⟨hf.val_eq, fun op hop => ?_⟩
  rcases List.mem_append.mp hop with hop | hop
  · exact hx.inRange op hop
  · exact hf.inRange op hop

end Comp

/-! ### The operations -/

/-- A value of type `uint32_t` that is `v` before it is reduced. -/
def uint32 (v : ℤ) : Comp ℕ := ⟨(v % 2 ^ 32).toNat, [.unsigned v]⟩

/-- A value of type `int32_t` that should be `v`. -/
def int32 (v : ℤ) : Comp ℤ := ⟨v.bmod (2 ^ 32), [.signed v]⟩

/-- A shift by `k`. -/
def shift (k : ℕ) : Comp Unit := ⟨(), [.shift k]⟩

/-- An access to the element `i` of an array of `len` elements. -/
def access (i len : ℕ) : Comp Unit := ⟨(), [.access i len]⟩

theorem uint32_yields {v : ℤ} {n : ℕ} (hv : v = n) (hn : n < 2 ^ 32) : (uint32 v).Yields n := by
  refine ⟨?_, fun op hop => ?_⟩
  · change (v % 2 ^ 32).toNat = n
    omega
  · obtain rfl := List.mem_singleton.mp hop
    change 0 ≤ v ∧ v < 2 ^ 32
    omega

theorem int32_yields {v : ℤ} (hlow : -2 ^ 31 ≤ v) (hhigh : v < 2 ^ 31) : (int32 v).Yields v := by
  refine ⟨?_, fun op hop => ?_⟩
  · exact Int.bmod_eq_of_le (by omega) (by omega)
  · obtain rfl := List.mem_singleton.mp hop
    exact ⟨hlow, hhigh⟩

theorem shift_yields {k : ℕ} (hk : k < 32) : (shift k).Yields () := by
  refine ⟨rfl, fun op hop => ?_⟩
  obtain rfl := List.mem_singleton.mp hop
  exact hk

theorem access_yields {i len : ℕ} (hi : i < len) : (access i len).Yields () := by
  refine ⟨rfl, fun op hop => ?_⟩
  obtain rfl := List.mem_singleton.mp hop
  exact hi

end Arith32
