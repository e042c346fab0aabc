import Mathlib.Data.List.Nodup
import Waeio.Lib.Steps

/-!
# First in, first out – with a stack

A container is used by a sequence of operations, each the push or the pop of an item
(`Fifo.Op`). It serves *first in, first out* if the items popped are the first of those
pushed, in the same order: `Fifo.InOrder`.

A stack does so only as long as it has no choice. Where no item is pushed while it is
still there, a sequence of operations of a stack, or of what simulates one, is in order
exactly if every pop finds the item it returns alone (`Fifo.prefix_iff_guarded`). The reason
is the first pop that does not: it returns the last item pushed, and an earlier one is still
there.
-/

namespace Fifo

/-- An operation, with its item. -/
inductive Op (ι : Type*)
  | push (x : ι) : Op ι
  | pop (x : ι) : Op ι
  deriving DecidableEq, Repr

variable {ι : Type*} {x : ι} {s t : List ι} {l : List (Op ι)}

/-- The items pushed, in order. -/
def pushed : List (Op ι) → List ι
  | [] => []
  | .push x :: l => x :: pushed l
  | .pop _ :: l => pushed l

/-- The items popped, in order. -/
def popped : List (Op ι) → List ι
  | [] => []
  | .push _ :: l => popped l
  | .pop x :: l => x :: popped l

/-- **First in, first out.** -/
def InOrder (l : List (Op ι)) : Prop := popped l <+: pushed l

/-- **The operations of a stack**, whose top is the head of the list. -/
def StackTr (s : List ι) : Op ι → List ι → Prop
  | .push x, t => x ∉ s ∧ t = x :: s
  | .pop x, t => s = x :: t

/-- A pop finds its item alone. -/
def Alone (s : List ι) : Op ι → Prop
  | .push _ => True
  | .pop _ => s.length = 1

/-- The top of a stack is at its bottom only if there is nothing else. -/
theorem head?_reverse_cons_iff (h : (x :: s).Nodup) :
    (x :: s).reverse.head? = some x ↔ s = [] := by
  rw [List.head?_reverse]
  constructor
  · intro hlast
    cases s with
    | nil => rfl
    | cons y s =>
      rw [List.getLast?_cons_cons] at hlast
      exact absurd (List.mem_of_getLast? hlast) (List.nodup_cons.mp h).1
  · rintro rfl
    rfl

section Simulates

variable {σ : Type*} {Tr : σ → Op ι → σ → Prop} {R : σ → List ι → Prop} {C : σ → Op ι → Prop}

/-- **A system that is a stack is first in, first out exactly where every pop finds its item
alone**, when it starts with the items of `s`, which were pushed in the reverse order. -/
theorem prefix_iff_guarded (sim : Lts.Simulation R Tr StackTr)
    (hC : ∀ u s a v, R u s → Tr u a v → (C u a ↔ Alone s a)) {u v : σ} (h : Lts.Steps Tr u l v)
    (hR : R u s) (hs : s.Nodup) :
    popped l <+: s.reverse ++ pushed l ↔ Lts.Steps (Lts.Guarded Tr C) u l v := by
  constructor
  · intro hpre
    induction h generalizing s with
    | nil u => exact .nil u
    | @cons u w v a l htr _ ih =>
      obtain ⟨t, hstack, hRt⟩ := sim _ _ _ _ hR htr
      cases a with
      | push x =>
        obtain ⟨hx, rfl⟩ := hstack
        rw [popped, pushed, List.append_cons, ← List.reverse_cons] at hpre
        exact .cons ⟨htr, (hC _ _ _ _ hR htr).mpr trivial⟩
          (ih hRt (List.nodup_cons.mpr ⟨hx, hs⟩) hpre)
      | pop x =>
        obtain rfl := hstack
        rw [popped, pushed] at hpre
        obtain ⟨r, hr⟩ := hpre
        -- the item popped is the one pushed first
        have hhead : (x :: t).reverse.head? = some x := by
          have hfirst := congrArg List.head? hr
          rw [List.cons_append, List.head?_cons, List.head?_append_of_ne_nil _ (by simp)] at hfirst
          exact hfirst.symm
        obtain rfl := (head?_reverse_cons_iff hs).mp hhead
        exact .cons ⟨htr, (hC _ _ _ _ hR htr).mpr rfl⟩
          (ih hRt List.nodup_nil ⟨r, (List.cons.inj hr).2⟩)
  · intro hguarded
    clear h
    induction hguarded generalizing s with
    | nil u => exact List.nil_prefix
    | @cons u w v a l hstep _ ih =>
      obtain ⟨htr, hc⟩ := hstep
      obtain ⟨t, hstack, hRt⟩ := sim _ _ _ _ hR htr
      have halone := (hC _ _ _ _ hR htr).mp hc
      cases a with
      | push x =>
        obtain ⟨hx, rfl⟩ := hstack
        rw [popped, pushed, List.append_cons, ← List.reverse_cons]
        exact ih hRt (List.nodup_cons.mpr ⟨hx, hs⟩)
      | pop x =>
        obtain rfl := hstack
        obtain rfl : t = [] := List.length_eq_zero_iff.mp (Nat.succ_inj.mp halone)
        exact List.cons_prefix_cons.mpr ⟨rfl, ih hRt List.nodup_nil⟩

/-- The same from an empty stack. -/
theorem inOrder_iff_guarded (sim : Lts.Simulation R Tr StackTr)
    (hC : ∀ u s a v, R u s → Tr u a v → (C u a ↔ Alone s a)) {u v : σ} (h : Lts.Steps Tr u l v)
    (hR : R u []) : InOrder l ↔ Lts.Steps (Lts.Guarded Tr C) u l v :=
  prefix_iff_guarded sim hC h hR List.nodup_nil

end Simulates

end Fifo
