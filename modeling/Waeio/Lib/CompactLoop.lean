import Waeio.Lib.Compact
import Waeio.Lib.Steps

/-!
# The compaction turn by turn

`Compact.loop` says what the loop of `Waeio.Lib.Compact` leaves, and is given the number of
its rounds. Here the loop is run as C runs it,

```
for (i = 0; i < n; i++)
  if (hole(a[i])) {
    for (j = i; j < n-1; j++) a[j] = a[j+1];
    i--; n--;
  }
```

with a step for each turn of either loop and no bound on their number. The label of a step
is the list of the indices it touches. `Compact.thins` says that the run ends
whatever is in the array, with what `Compact.Cells.compact` computes, and that it has touched
none but the cells in use. The run is a function of where it starts, so there is one run to
follow, and every other is a part of it.

The array is any state with cells that can be copied and a number of them
(`Compact.Cells`): a program that moves one field of a record, or two arrays side by side,
says what its cells are.
-/

namespace Compact

variable {σ α : Type*}

/-- **A state with cells**, of which a number is in use. -/
structure Cells (σ α : Type*) where
  /-- `a[i]` -/
  get : σ → ℕ → α
  /-- `n` -/
  size : σ → ℕ
  /-- `a[j] = a[k]` -/
  copy : (j k : ℕ) → σ → σ
  /-- `n--` -/
  shrink : σ → σ
  get_copy : ∀ j k s, get (copy j k s) = Function.update (get s) j (get s k)
  size_copy : ∀ j k s, size (copy j k s) = size s
  get_shrink : ∀ s, get (shrink s) = get s
  size_shrink : ∀ s, size (shrink s) = Uint32.pred (size s)

namespace Cells

variable (C : Cells σ α) (hole : α → Bool) {s t : σ}

/-! ### The loops with the number of their turns -/

/-- The inner loop from `j` on, with `k` cells to go. -/
def moveDown : (k j : ℕ) → σ → σ
  | 0, _, s => s
  | k + 1, j, s => moveDown k (j + 1) (C.copy j (j + 1) s)

/-- The loop from the cell `i` on, with `fuel` rounds to go. -/
def compactFrom : (fuel i : ℕ) → σ → σ
  | 0, _, s => s
  | fuel + 1, i, s =>
    if i < C.size s then
      if hole (C.get s i) then
        compactFrom fuel (Uint32.succ (Uint32.pred i))
          (C.shrink (C.moveDown (Uint32.pred (C.size s) - i) i s))
      else compactFrom fuel (Uint32.succ i) s
    else s

/-- **What the loop computes**. Each round takes one more cell or closes one hole. -/
def compact (s : σ) : σ := C.compactFrom hole (C.size s) 0 s

@[simp] theorem size_moveDown (k j : ℕ) (s : σ) : C.size (C.moveDown k j s) = C.size s := by
  induction k generalizing j s with
  | zero => rfl
  | succ k ih => rw [moveDown, ih, C.size_copy]

/-- The inner loop copies the `k` cells after `j` down by one. -/
theorem get_moveDown (k j : ℕ) (s : σ) :
    C.get (C.moveDown k j s) =
      fun m => if j ≤ m ∧ m < j + k then C.get s (m + 1) else C.get s m := by
  induction k generalizing j s with
  | zero =>
    funext m
    rw [moveDown, if_neg (by omega)]
  | succ k ih =>
    rw [moveDown, ih, C.get_copy]
    funext m
    -- the cell `j` has been copied, and those after it are still in place
    rcases Nat.lt_trichotomy m j with hlt | rfl | hgt
    · rw [if_neg (by omega), if_neg (by omega), Function.update_of_ne (by omega)]
    · rw [if_neg (by omega), if_pos (by omega), Function.update_self]
    · rw [Function.update_of_ne (by omega), Function.update_of_ne (by omega)]
      exact if_congr (by omega) rfl rfl

/-- **The loop is that of `Compact.loop`** on the cells. -/
theorem compactFrom_eq (fuel i : ℕ) (s : σ) :
    (C.get (C.compactFrom hole fuel i s), C.size (C.compactFrom hole fuel i s)) =
      loop hole fuel i (C.get s, C.size s) := by
  induction fuel generalizing i s with
  | zero => rfl
  | succ fuel ih =>
    rw [compactFrom, loop]
    split_ifs with hlt hhole
    · rw [ih, C.get_shrink, C.size_shrink, size_moveDown, get_moveDown]
      have hpos : 0 < C.size s := by omega
      congr 2
      funext m
      rw [shiftDown, Uint32.pred_of_pos hpos]
      exact if_congr (by omega) rfl rfl
    · exact ih _ _
    · rfl

/-- What neither a copy nor the counter touches, the loop leaves alone. -/
theorem compactFrom_keeps {P : σ → Prop} (hcopy : ∀ j k s, P s → P (C.copy j k s))
    (hshrink : ∀ s, P s → P (C.shrink s)) (fuel i : ℕ) (h : P s) :
    P (C.compactFrom hole fuel i s) := by
  have hmoved : ∀ (k j : ℕ) (s : σ), P s → P (C.moveDown k j s) := by
    intro k
    induction k with
    | zero => exact fun _ _ h => h
    | succ k ih => exact fun j s h => ih (j + 1) _ (hcopy j (j + 1) s h)
  induction fuel generalizing i s with
  | zero => exact h
  | succ fuel ih =>
    rw [compactFrom]
    split_ifs
    · exact ih _ (hshrink _ (hmoved _ _ _ h))
    · exact ih _ h
    · exact h

/-- The loop leaves the cells that are no holes. -/
theorem row_compact (h : C.size s < 2 ^ 32) :
    row (C.get (C.compact hole s)) (C.size (C.compact hole s)) =
      (row (C.get s) (C.size s)).filter fun x => !hole x := by
  have hpair := C.compactFrom_eq hole (C.size s) 0 s
  rw [Prod.ext_iff] at hpair
  have hrow := row_loop hole (C.get s) (C.size s) h
  rwa [← hpair.1, ← hpair.2] at hrow

/-! ### The turns -/

/-- Where the loop is. -/
inductive Point
  /-- Before the test of the outer loop. -/
  | outer (i : ℕ) : Point
  /-- Before the test of the inner loop, at the hole `i`. -/
  | inner (i j : ℕ) : Point
  deriving DecidableEq, Repr

/-- **One turn**: the indices it touches, and what it leaves. The loop has ended where the
test of the outer loop fails. -/
def turn : σ × Point → Option (List ℕ × σ × Point)
  | (s, .outer i) =>
    if i < C.size s then
      if hole (C.get s i) then some ([i], s, .inner i i)
      else some ([i], s, .outer (Uint32.succ i))
    else none
  | (s, .inner i j) =>
    if j < Uint32.pred (C.size s) then
      some ([j, Uint32.succ j], C.copy j (Uint32.succ j) s, .inner i (Uint32.succ j))
    else some ([], C.shrink s, .outer (Uint32.succ (Uint32.pred i)))

/-- A turn as a transition. -/
def Turn (x : σ × Point) (ks : List ℕ) (y : σ × Point) : Prop := C.turn hole x = some (ks, y)

/-- **The turns from the beginning on**. -/
def Turns (s : σ) (l : List (List ℕ)) (x : σ × Point) : Prop :=
  Lts.Steps (C.Turn hole) (s, .outer 0) l x

/-- A turn is a function of where it starts. -/
theorem turn_unique {x y z : σ × Point} {ks ms : List ℕ} (h : C.Turn hole x ks y)
    (h' : C.Turn hole x ms z) : ks = ms ∧ y = z :=
  Prod.mk.inj (Option.some.inj (h.symm.trans h'))

/-- The turns touch cells below `n` only. -/
abbrev Below (n : ℕ) (l : List (List ℕ)) : Prop := ∀ k ∈ l.flatten, k < n

@[simp] theorem below_cons {n : ℕ} {ks : List ℕ} {l : List (List ℕ)} :
    Below n (ks :: l) ↔ (∀ k ∈ ks, k < n) ∧ Below n l := by
  simp only [Below, List.flatten_cons, List.mem_append, or_imp, forall_and]

/-- **The turns of the inner loop**, up to its last test. -/
theorem turns_moveDown (k j i : ℕ) (s : σ) (hk : j + k + 1 = C.size s) (hn : C.size s < 2 ^ 32) :
    ∃ l, Lts.Steps (C.Turn hole) (s, .inner i j) l (C.moveDown k j s, .inner i (j + k)) ∧
      l.length = k ∧ Below (C.size s) l := by
  induction k generalizing j s with
  | zero => exact ⟨[], .nil _, rfl, by simp [Below]⟩
  | succ k ih =>
    have hsucc : Uint32.succ j = j + 1 := Uint32.succ_of_lt (by omega)
    have hcopy : C.size (C.copy j (j + 1) s) = C.size s := C.size_copy _ _ s
    obtain ⟨l, hl, hlen, hbelow⟩ := ih (j + 1) (C.copy j (j + 1) s) (by omega) (by omega)
    rw [hcopy] at hbelow
    have hstep : C.Turn hole (s, .inner i j) [j, j + 1] (C.copy j (j + 1) s, .inner i (j + 1)) := by
      rw [Turn, turn, if_pos (by rw [Uint32.pred_of_pos (by omega)]; omega), hsucc]
    refine ⟨[j, j + 1] :: l, ?_, by rw [List.length_cons, hlen], ?_⟩
    · rw [show j + (k + 1) = j + 1 + k by omega]
      exact .cons hstep hl
    · refine below_cons.mpr ⟨?_, hbelow⟩
      simp only [List.mem_cons, List.not_mem_nil, or_false, forall_eq_or_imp, forall_eq]
      omega

/-- **The turns of a round that closes a hole**: those of the inner loop, and two more. -/
theorem turns_hole {i k : ℕ} (hsize : C.size s = i + k + 1) (hn : C.size s < 2 ^ 32)
    (hhole : hole (C.get s i) = true) :
    ∃ l, Lts.Steps (C.Turn hole) (s, .outer i) l (C.shrink (C.moveDown k i s), .outer i) ∧
      l.length = k + 2 ∧ Below (C.size s) l := by
  obtain ⟨l, hl, hlen, hbelow⟩ := C.turns_moveDown hole k i i s hsize.symm hn
  have hfirst : C.Turn hole (s, .outer i) [i] (s, .inner i i) := by
    rw [Turn, turn, if_pos (by omega), if_pos hhole]
  have hlast : C.Turn hole (C.moveDown k i s, .inner i (i + k)) []
      (C.shrink (C.moveDown k i s), .outer i) := by
    rw [Turn, turn, size_moveDown, Uint32.pred_of_pos (by omega), if_neg (by omega),
      succ_pred (by omega)]
  refine ⟨[i] :: (l ++ [[]]), .cons hfirst (hl.append (.single hlast)), by simp [hlen], ?_⟩
  refine below_cons.mpr ⟨by rw [List.forall_mem_singleton]; omega, fun c hc => hbelow c ?_⟩
  simpa using hc

/-- What such a round leaves to the others. -/
theorem compactFrom_hole {i k : ℕ} (fuel : ℕ) (hsize : C.size s = i + k + 1)
    (hn : C.size s < 2 ^ 32) (hhole : hole (C.get s i) = true) :
    C.compactFrom hole (fuel + 1) i s =
      C.compactFrom hole fuel i (C.shrink (C.moveDown k i s)) := by
  rw [compactFrom, if_pos (by omega), if_pos hhole, succ_pred (by omega),
    Uint32.pred_of_pos (by omega), hsize, Nat.add_sub_cancel, Nat.add_sub_cancel_left]

/-- **The turns of the whole loop**, up to its last test. The cells still to be looked at
bound the number of rounds, and the cells in use the turns of each. -/
theorem turns_compactFrom (fuel i : ℕ) (s : σ) (hi : i ≤ C.size s) (hfuel : C.size s ≤ i + fuel)
    (hn : C.size s < 2 ^ 32) :
    ∃ l m, Lts.Steps (C.Turn hole) (s, .outer i) l (C.compactFrom hole fuel i s, .outer m) ∧
      C.size (C.compactFrom hole fuel i s) ≤ m ∧
      l.length ≤ (C.size s - i) * (C.size s + 1) ∧ Below (C.size s) l := by
  induction fuel generalizing i s with
  | zero => exact ⟨[], i, .nil _, by rw [compactFrom]; omega, by simp, by simp [Below]⟩
  | succ fuel ih =>
    by_cases hlt : i < C.size s
    · obtain ⟨k, hk⟩ : ∃ k, C.size s = i + k + 1 := ⟨C.size s - i - 1, by omega⟩
      by_cases hhole : hole (C.get s i) = true
      · -- a hole: one cell less is in use, and the index stays
        have hsize : C.size (C.shrink (C.moveDown k i s)) = i + k := by
          rw [C.size_shrink, size_moveDown, Uint32.pred_of_pos (by omega), hk, Nat.add_sub_cancel]
        obtain ⟨l, hl, hlen, hbelow⟩ := C.turns_hole hole hk hn hhole
        obtain ⟨l', m, hl', hm, hlen', hbelow'⟩ :=
          ih i (C.shrink (C.moveDown k i s)) (by omega) (by omega) (by omega)
        rw [hsize] at hlen' hbelow'
        rw [C.compactFrom_hole hole fuel hk hn hhole]
        refine ⟨l ++ l', m, hl.append hl', hm, ?_, fun c hc => ?_⟩
        · calc (l ++ l').length = k + 2 + l'.length := by rw [List.length_append, hlen]
            _ ≤ k + 2 + (i + k - i) * (i + k + 1) := Nat.add_le_add_left hlen' _
            _ ≤ (C.size s - i) * (C.size s + 1) := by
              rw [hk, Nat.add_sub_cancel_left, show i + k + 1 - i = k + 1 by omega, Nat.succ_mul]
              have hmono : k * (i + k + 1) ≤ k * (i + k + 1 + 1) := Nat.mul_le_mul_left k (by omega)
              omega
        · rw [List.flatten_append, List.mem_append] at hc
          rcases hc with hc | hc
          · exact hbelow c hc
          · have hlt' := hbelow' c hc
            omega
      · -- no hole: the round takes one turn
        have hsucc : Uint32.succ i = i + 1 := Uint32.succ_of_lt (by omega)
        obtain ⟨l, m, hl, hm, hlen, hbelow⟩ := ih (i + 1) s (by omega) (by omega) hn
        have hstep : C.Turn hole (s, .outer i) [i] (s, .outer (i + 1)) := by
          rw [Turn, turn, if_pos hlt, if_neg hhole, hsucc]
        rw [compactFrom, if_pos hlt, if_neg hhole, hsucc]
        refine ⟨[i] :: l, m, .cons hstep hl, hm, ?_, below_cons.mpr ⟨?_, hbelow⟩⟩
        · rw [List.length_cons, show C.size s - i = C.size s - (i + 1) + 1 by omega, Nat.succ_mul]
          omega
        · rwa [List.forall_mem_singleton]
    · rw [compactFrom, if_neg hlt]
      exact ⟨[], i, .nil _, not_lt.mp hlt, by simp, by simp [Below]⟩

/-! ### The loop -/

/-- **The loop thins the array**, from `s` to `t`. -/
structure Thins (s t : σ) : Prop where
  /-- The loop ends: its turns are bounded in number. -/
  terminates : ∃ b, ∀ l x, C.Turns hole s l x → l.length ≤ b
  /-- It touches the cells in use, and no others. -/
  touches : ∀ l x, C.Turns hole s l x → ∀ ks ∈ l, ∀ k ∈ ks, k < C.size s
  /-- Where it can take no further turn it has come to `t`. -/
  ends : ∀ l x, C.Turns hole s l x → C.turn hole x = none → x.1 = t
  /-- What is left are the cells that are no holes, in their order. -/
  row_eq : row (C.get t) (C.size t) = (row (C.get s) (C.size s)).filter fun x => !hole x
  /-- They are counted. -/
  size_eq : C.size t = Nat.count (fun k => ¬hole (C.get s k)) (C.size s)

theorem thins (h : C.size s < 2 ^ 32) : C.Thins hole s (C.compact hole s) := by
  obtain ⟨l, m, hl, hm, -, hbelow⟩ :=
    C.turns_compactFrom hole (C.size s) 0 s (Nat.zero_le _) (by omega) h
  have hstuck : C.turn hole (C.compactFrom hole (C.size s) 0 s, .outer m) = none := by
    rw [turn, if_neg (by omega)]
  have hdet : ∀ x ks ms y z, C.Turn hole x ks y → C.Turn hole x ms z → ks = ms ∧ y = z :=
    fun _ _ _ _ _ => C.turn_unique hole
  have hrest : ∀ l' x, C.Turns hole s l' x → ∃ r, l = l' ++ r ∧
      Lts.Steps (C.Turn hole) x r (C.compactFrom hole (C.size s) 0 s, .outer m) := fun l' x hl' =>
    hl'.rest_of_stuck hdet hl fun ks y hy => by rw [Turn, hstuck] at hy; cases hy
  refine ⟨⟨l.length, fun l' x hl' => ?_⟩, fun l' x hl' ks hks k hk => ?_, fun l' x hl' hx => ?_,
    C.row_compact hole h, ?_⟩
  · obtain ⟨r, rfl, -⟩ := hrest l' x hl'
    rw [List.length_append]
    exact Nat.le_add_right _ _
  · obtain ⟨r, rfl, -⟩ := hrest l' x hl'
    exact hbelow k (List.mem_flatten_of_mem (List.mem_append_left r hks) hk)
  · obtain ⟨r, -, hr⟩ := hrest l' x hl'
    obtain ⟨-, heq⟩ := hr.eq_of_stuck fun ks y hy => by rw [Turn, hx] at hy; cases hy
    exact (congrArg Prod.fst heq).symm
  · rw [← length_row (C.get (C.compact hole s)) (C.size _), C.row_compact hole h,
      length_filter_row]
    simp

end Cells

end Compact
