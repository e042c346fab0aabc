import Mathlib.Data.Finset.Card
import Mathlib.Data.Finset.Range
import Mathlib.Order.Bounds.Basic
import Waeio.Lib.Steps

/-!
# Least-first allocation of naturals

What an allocator of small numbers is for, independently of how it stores
anything: it keeps the set `O` of the numbers that are out, hands out the least
number that is not, and takes numbers back. `LeastFirst.Step` is the system, its
states the finite sets `O`, its labels the calls with their answers.

The set can be read off the labels alone (`LeastFirst.outstanding`), so that an
implementation which refines the allocator is refined together with the set its
client computes from what it was told.
-/

namespace LeastFirst

/-- The calls of an allocator. -/
inductive Call
  /-- Ask for a number. -/
  | take : Call
  /-- Give the number `e` back. -/
  | give (e : ℕ) : Call
  deriving DecidableEq

/-- The answers of an allocator. -/
inductive Answer
  /-- The number `e` is handed out. -/
  | got (e : ℕ) : Answer
  /-- There is nothing to hand out. -/
  | full : Answer
  /-- The number is taken back. -/
  | done : Answer
  /-- The number is not one the allocator manages. -/
  | refused : Answer
  deriving DecidableEq

/-- **The least-first allocator** of the numbers below `n`: what each call may
answer when the numbers in `O` are out, and which are out afterwards. -/
inductive Step (n : ℕ) : Finset ℕ → Call × Answer → Finset ℕ → Prop
  /-- The least number that is not out goes out. -/
  | got {O : Finset ℕ} {e : ℕ} : IsLeast {m | m ∉ O} e → Step n O (.take, .got e) (insert e O)
  /-- Nothing goes out, all the numbers below `n` being out. -/
  | full {O : Finset ℕ} : (∀ m < n, m ∈ O) → Step n O (.take, .full) O
  /-- A number below `n` comes back. -/
  | done {O : Finset ℕ} {e : ℕ} : e < n → Step n O (.give e, .done) (O.erase e)
  /-- A number from `n` on is refused. -/
  | refused {O : Finset ℕ} {e : ℕ} : n ≤ e → Step n O (.give e, .refused) O

/-! ### The numbers that are out, read off the labels -/

/-- What one call and its answer do to the set of the numbers that are out. -/
def record (O : Finset ℕ) : Call × Answer → Finset ℕ
  | (_, .got e) => insert e O
  | (.give e, .done) => O.erase e
  | _ => O

/-- **The numbers that are out** after a list of calls: those handed out and not
since taken back. -/
def outstanding (l : List (Call × Answer)) : Finset ℕ := l.foldl record ∅

@[simp] theorem outstanding_nil : outstanding [] = ∅ := rfl

@[simp] theorem outstanding_append_singleton (l : List (Call × Answer)) (a : Call × Answer) :
    outstanding (l ++ [a]) = record (outstanding l) a := by
  simp [outstanding]

/-- A run of the allocator ends with the set its labels say is out. -/
theorem steps_eq_outstanding {n : ℕ} {l : List (Call × Answer)} {O : Finset ℕ}
    (h : Lts.Steps (Step n) ∅ l O) : O = outstanding l := by
  refine h.invariant_foldl (h := record) (P := fun O' O => O = O') ?_ rfl
  rintro O O' a P rfl hstep
  cases hstep <;> rfl

/-! ### What the answers depend on -/

theorem Step.take_cases {n : ℕ} {O P : Finset ℕ} {a : Answer} (h : Step n O (.take, a) P) :
    (∃ e, a = .got e ∧ IsLeast {m | m ∉ O} e) ∨ a = .full ∧ ∀ m < n, m ∈ O := by
  cases h with
  | got hleast => exact Or.inl ⟨_, rfl, hleast⟩
  | full hall => exact Or.inr ⟨rfl, hall⟩

theorem Step.give_cases {n e : ℕ} {O P : Finset ℕ} {a : Answer} (h : Step n O (.give e, a) P) :
    a = .done ∧ e < n ∨ a = .refused ∧ n ≤ e := by
  cases h with
  | done hlt => exact Or.inl ⟨rfl, hlt⟩
  | refused hge => exact Or.inr ⟨rfl, hge⟩

/-- **The answers depend on the numbers below `n` alone**, if none from there on goes out. -/
theorem Step.answer_eq {n : ℕ} {O O' P P' : Finset ℕ} {c : Call} {a a' : Answer}
    (h : Step n O (c, a) P) (h' : Step n O' (c, a') P') (hagree : ∀ e < n, e ∈ O ↔ e ∈ O')
    (hlt : ∀ e, a = .got e → e < n) (hlt' : ∀ e, a' = .got e → e < n) : a = a' := by
  cases c with
  | take =>
    rcases h.take_cases with ⟨e, rfl, hleast⟩ | ⟨rfl, hall⟩ <;>
      rcases h'.take_cases with ⟨e', rfl, hleast'⟩ | ⟨rfl, hall'⟩
    · -- each could have handed out the number of the other
      have hle : e' ≤ e := hleast'.2 (mt (hagree e (hlt e rfl)).mpr hleast.1)
      have hge : e ≤ e' := hleast.2 (mt (hagree e' (hlt' e' rfl)).mp hleast'.1)
      rw [le_antisymm hge hle]
    · exact absurd ((hagree e (hlt e rfl)).mpr (hall' e (hlt e rfl))) hleast.1
    · exact absurd ((hagree e' (hlt' e' rfl)).mp (hall e' (hlt' e' rfl))) hleast'.1
    · rfl
  | give e =>
    rcases h.give_cases with ⟨rfl, hlow⟩ | ⟨rfl, hhigh⟩ <;>
      rcases h'.give_cases with ⟨rfl, hlow'⟩ | ⟨rfl, hhigh'⟩
    · rfl
    · exact absurd hlow (Nat.not_lt.mpr hhigh')
    · exact absurd hlow' (Nat.not_lt.mpr hhigh)
    · rfl

/-! ### Bounds -/

/-- Where the numbers below `k` are out and no others, `k` is the next one. -/
theorem eq_of_isLeast_range {k e : ℕ} (h : IsLeast {m | m ∉ Finset.range k} e) : e = k := by
  have hmem : k ∈ {m | m ∉ Finset.range k} := by simp
  have hle : e ≤ k := h.2 hmem
  have hge : k ≤ e := by simpa using h.1
  exact le_antisymm hle hge

/-- A set of numbers below `n` with `n` elements leaves none of them out. -/
theorem mem_of_card_eq {O : Finset ℕ} {n m : ℕ} (hsub : ∀ m ∈ O, m < n) (hcard : O.card = n)
    (hm : m < n) : m ∈ O := by
  have hle : O ⊆ Finset.range n := fun x hx => Finset.mem_range.mpr (hsub x hx)
  have heq : O = Finset.range n := Finset.eq_of_subset_of_card_le hle (by simp [hcard])
  rw [heq]
  exact Finset.mem_range.mpr hm

theorem card_le_of_forall_lt {O : Finset ℕ} {n : ℕ} (hsub : ∀ m ∈ O, m < n) : O.card ≤ n := by
  have hle : O ⊆ Finset.range n := fun x hx => Finset.mem_range.mpr (hsub x hx)
  simpa using Finset.card_le_card hle

end LeastFirst
