import Mathlib.Data.List.Range
import Mathlib.Data.Nat.Count
import Mathlib.Logic.Function.Basic
import Waeio.Lib.Uint32

/-!
# Compaction in place

An array is a function on the naturals together with the number `n` of its cells
in use; `Compact.row a n` is the list of these. Some cells are *holes*. The loop

```
for (i = 0; i < n; i++)
  if (hole(a[i])) {
    for (j = i; j < n-1; j++) a[j] = a[j+1];
    i--; n--;
  }
```

closes the holes by moving the later cells down, one hole at a time. It leaves the
cells that are no holes, in their order (`Compact.row_loop`). It looks only at the
first `n` cells, so a caller that has lowered `n` already loses the cells beyond,
and none but holes only if these are the last cells (`Compact.final_of_count`).
-/

namespace Compact

variable {α β : Type*} {a b : ℕ → α} {i n : ℕ}

/-! ### Rows -/

/-- The first `n` cells. -/
def row (a : ℕ → α) (n : ℕ) : List α := (List.range n).map a

@[simp] theorem length_row (a : ℕ → α) (n : ℕ) : (row a n).length = n := by simp [row]

theorem getElem?_row (h : i < n) : (row a n)[i]? = some (a i) := by simp [row, h]

theorem row_succ (a : ℕ → α) (n : ℕ) : row a (n + 1) = row a n ++ [a n] := by
  simp [row, List.range_succ]

theorem mem_row {x : α} : x ∈ row a n ↔ ∃ k < n, a k = x := by simp [row]

/-- How many of the cells have a property. -/
theorem length_filter_row (p : α → Bool) (a : ℕ → α) (n : ℕ) :
    ((row a n).filter p).length = Nat.count (fun k => p (a k) = true) n := by
  induction n with
  | zero => rfl
  | succ n ih =>
    rw [row_succ, List.filter_append, List.length_append, ih, Nat.count_succ]
    split_ifs with hp <;> simp [hp]

/-- A row depends on its cells only. -/
theorem row_congr (h : ∀ k < n, a k = b k) : row a n = row b n :=
  List.map_congr_left fun k hk => h k (List.mem_range.mp hk)

/-- A cell that is overwritten: what was in it has gone, and there is something else. -/
theorem row_update_perm (h : i < n) (x : α) :
    (row (Function.update a i x) n ++ [a i]).Perm (row a n ++ [x]) := by
  induction n with
  | zero => exact absurd h (Nat.not_lt_zero i)
  | succ n ih =>
    rw [row_succ, row_succ, List.append_assoc, List.append_assoc]
    rcases Nat.lt_succ_iff_lt_or_eq.mp h with hlt | rfl
    · rw [Function.update_of_ne (Nat.ne_of_gt hlt)]
      calc row (Function.update a i x) n ++ ([a n] ++ [a i])
          |>.Perm (row (Function.update a i x) n ++ ([a i] ++ [a n])) :=
            List.perm_append_comm.append_left _
        _ = row (Function.update a i x) n ++ [a i] ++ [a n] := (List.append_assoc _ _ _).symm
        _ |>.Perm (row a n ++ [x] ++ [a n]) := (ih hlt).append_right _
        _ = row a n ++ ([x] ++ [a n]) := List.append_assoc _ _ _
        _ |>.Perm (row a n ++ ([a n] ++ [x])) := List.perm_append_comm.append_left _
    · have hbefore : row (Function.update a i x) i = row a i :=
        row_congr fun k hk => Function.update_of_ne (Nat.ne_of_lt hk) _ _
      rw [hbefore, Function.update_self]
      exact List.perm_append_comm.append_left _

/-- A list is the row of its entries. -/
theorem row_eq_of_getElem? {l : List α} (hn : n = l.length) (h : ∀ k < n, l[k]? = some (a k)) :
    row a n = l := by
  subst hn
  refine List.ext_getElem? fun k => ?_
  rcases Nat.lt_or_ge k l.length with hk | hk
  · rw [getElem?_row hk, h k hk]
  · rw [List.getElem?_eq_none (by simpa using hk), List.getElem?_eq_none hk]

/-- A first cell that stays is the first of what is left. -/
theorem head_of_row_eq_filter {p : α → Bool} {m : ℕ} (h : row b m = (row a n).filter p)
    (hn : 0 < n) (hp : p (a 0) = true) : 0 < m ∧ b 0 = a 0 := by
  obtain ⟨k, rfl⟩ : ∃ k, n = k + 1 := ⟨n - 1, by omega⟩
  rw [row, row, List.range_succ_eq_map, List.map_cons, List.filter_cons_of_pos hp] at h
  cases m with
  | zero => cases h
  | succ m =>
    rw [List.range_succ_eq_map, List.map_cons] at h
    exact ⟨Nat.succ_pos m, (List.cons.inj h).1⟩

/-- There are not more cells left. -/
theorem le_of_row_eq_filter {p : α → Bool} {m : ℕ} (h : row b m = (row a n).filter p) : m ≤ n := by
  have hlen := List.length_filter_le p (row a n)
  rwa [← h, length_row, length_row] at hlen

/-- A cell that is left was one that stays. -/
theorem exists_of_row_eq_filter {p : α → Bool} {m k : ℕ} (h : row b m = (row a n).filter p)
    (hk : k < m) : ∃ j < n, p (a j) = true ∧ b k = a j := by
  have hmem : b k ∈ (row a n).filter p := h ▸ mem_row.mpr ⟨k, hk, rfl⟩
  obtain ⟨hmem, hp⟩ := List.mem_filter.mp hmem
  obtain ⟨j, hj, heq⟩ := mem_row.mp hmem
  exact ⟨j, hj, by rwa [heq], heq.symm⟩

/-- What tells the cells that stay from each other tells those that are left. -/
theorem inj_of_row_eq_filter (key : α → β) {p : α → Bool} {m : ℕ}
    (h : row b m = (row a n).filter p)
    (hinj : ∀ j < n, ∀ k < n, p (a j) = true → p (a k) = true → key (a j) = key (a k) → j = k)
    {j k : ℕ} (hj : j < m) (hk : k < m) (heq : key (b j) = key (b k)) : j = k := by
  have hnodup : ((row b m).map key).Nodup := by
    rw [h, row, List.filter_map, List.map_map]
    refine List.Nodup.map_on (fun j hj k hk heq => ?_) (List.nodup_range.filter _)
    obtain ⟨hj, hpj⟩ := List.mem_filter.mp hj
    obtain ⟨hk, hpk⟩ := List.mem_filter.mp hk
    exact hinj j (List.mem_range.mp hj) k (List.mem_range.mp hk) hpj hpk heq
  have hat : ∀ i < m, ((row b m).map key)[i]? = some (key (b i)) := by
    intro i hi
    rw [List.getElem?_map, getElem?_row hi]
    rfl
  refine (List.getElem?_inj ?_ hnodup).mp ?_
  · rwa [List.length_map, length_row]
  · rw [hat j hj, hat k hk, heq]

/-- The cells that are no holes, where these are entries of the list `l`, are a
sublist of it. -/
theorem filter_row_sublist {p : α → Bool} {l : List α}
    (h : ∀ k < n, p (a k) = true → l[k]? = some (a k)) : ((row a n).filter p).Sublist l := by
  have htake : ((row a n).filter p).Sublist (l.take n) := by
    induction n with
    | zero => exact List.nil_sublist _
    | succ n ih =>
      rw [row_succ, List.filter_append, List.take_add_one]
      refine (ih fun k hk => h k (Nat.lt_succ_of_lt hk)).append ?_
      by_cases hp : p (a n) = true
      · rw [List.filter_cons_of_pos hp, h n (Nat.lt_succ_self n) hp]
        exact List.Sublist.refl _
      · rw [List.filter_cons_of_neg hp]
        exact List.nil_sublist _
  exact htake.trans (List.take_sublist n l)

/-! ### The inner loop -/

/-- The cells from `i` on, below `n`, move down by one. -/
def shiftDown (i n : ℕ) (a : ℕ → α) : ℕ → α :=
  fun k => if i ≤ k ∧ k + 1 < n then a (k + 1) else a k

theorem row_shiftDown (h : i < n) : row (shiftDown i n a) (n - 1) = (row a n).eraseIdx i := by
  refine row_eq_of_getElem? (by simp [List.length_eraseIdx, h]) fun k hk => ?_
  rw [List.getElem?_eraseIdx]
  split_ifs with hlt
  · rw [getElem?_row (by omega), shiftDown, if_neg (by omega)]
  · rw [getElem?_row (by omega), shiftDown, if_pos (by omega)]

/-! ### The loop -/

/-- The loop from the cell `i` on, with `fuel` rounds to go. A round that has
closed a hole steps back before it steps on. -/
def loop (hole : α → Bool) : (fuel i : ℕ) → (ℕ → α) × ℕ → (ℕ → α) × ℕ
  | 0, _, s => s
  | fuel + 1, i, s =>
    if i < s.2 then
      if hole (s.1 i) then
        loop hole fuel (Uint32.succ (Uint32.pred i)) (shiftDown i s.2 s.1, Uint32.pred s.2)
      else loop hole fuel (Uint32.succ i) s
    else s

/-- Stepping back and on again comes back to the same cell, at `0` as well. -/
theorem succ_pred (h : i < 2 ^ 32) : Uint32.succ (Uint32.pred i) = i := by
  rcases Nat.eq_zero_or_pos i with rfl | hpos
  · rw [Uint32.pred_zero, Uint32.succ, if_pos (by omega)]
  · rw [Uint32.pred_of_pos hpos, Uint32.succ_of_lt (by omega)]
    omega

/-- The list `l` without the holes, where the first `i` entries are left as they
are. -/
def thinFrom (p : α → Bool) (i : ℕ) (l : List α) : List α := l.take i ++ (l.drop i).filter p

theorem thinFrom_of_ge {p : α → Bool} {l : List α} (h : l.length ≤ i) : thinFrom p i l = l := by
  rw [thinFrom, List.take_of_length_le h, List.drop_eq_nil_of_le h, List.filter_nil,
    List.append_nil]

/-- An entry that stays may be counted among the first. -/
theorem thinFrom_succ {p : α → Bool} {l : List α} (h : i < l.length) (hp : p l[i] = true) :
    thinFrom p (i + 1) l = thinFrom p i l := by
  rw [thinFrom, thinFrom, List.drop_eq_getElem_cons h, List.filter_cons_of_pos hp,
    ← List.take_append_getElem h, List.append_assoc, List.singleton_append]

/-- An entry that goes may be erased at once. -/
theorem thinFrom_eraseIdx {p : α → Bool} {l : List α} (h : i < l.length) (hp : ¬p l[i] = true) :
    thinFrom p i (l.eraseIdx i) = thinFrom p i l := by
  have hlen : (l.take i).length = i := List.length_take_of_le h.le
  rw [thinFrom, thinFrom, List.drop_eq_getElem_cons h, List.filter_cons_of_neg hp,
    List.eraseIdx_eq_take_drop_succ, List.take_left' hlen, List.drop_left' hlen]

/-- Each round takes one more cell, or closes one hole. -/
theorem row_loop_from (hole : α → Bool) (fuel i : ℕ) (s : (ℕ → α) × ℕ) (hn : s.2 < 2 ^ 32)
    (hfuel : s.2 ≤ i + fuel) :
    row (loop hole fuel i s).1 (loop hole fuel i s).2 =
      thinFrom (fun x => !hole x) i (row s.1 s.2) := by
  induction fuel generalizing i s with
  | zero =>
    rw [loop]
    exact (thinFrom_of_ge (by rw [length_row]; omega)).symm
  | succ fuel ih =>
    rw [loop]
    split_ifs with hlt hhole
    · -- a hole: its row is one shorter, and the index stays
      rw [succ_pred (by omega), Uint32.pred_of_pos (by omega),
        ih i (shiftDown i s.2 s.1, s.2 - 1) (by dsimp only; omega) (by dsimp only; omega),
        row_shiftDown hlt]
      exact thinFrom_eraseIdx (by rwa [length_row]) (by simp [row, hhole])
    · rw [Uint32.succ_of_lt (by omega), ih (i + 1) s hn (by omega)]
      exact thinFrom_succ (by rwa [length_row]) (by simp [row, hhole])
    · exact (thinFrom_of_ge (by rw [length_row]; omega)).symm

/-- **The loop leaves the cells that are no holes**, in their order. -/
theorem row_loop (hole : α → Bool) (a : ℕ → α) (n : ℕ) (hn : n < 2 ^ 32) :
    row (loop hole n 0 (a, n)).1 (loop hole n 0 (a, n)).2 = (row a n).filter fun x => !hole x :=
  row_loop_from hole n 0 (a, n) hn (by dsimp only; omega)

/-! ### Final segments -/

section Final

variable {P : ℕ → Prop} [DecidablePred P] {m : ℕ}

/-- The length of a final segment. -/
theorem count_of_final (hm : m ≤ n) (h : ∀ k < n, P k ↔ m ≤ k) : m + Nat.count P n = n := by
  obtain ⟨c, rfl⟩ := Nat.exists_eq_add_of_le hm
  have hbefore : Nat.count P m = 0 :=
    Nat.count_iff_forall_not.mpr fun k hk hP => absurd ((h k (by omega)).mp hP) (by omega)
  have hafter : Nat.count (fun k => P (m + k)) c = c :=
    Nat.count_iff_forall.mpr fun k hk => (h (m + k) (by omega)).mpr (by omega)
  rw [Nat.count_add, hbefore, hafter, Nat.zero_add]

/-- What is counted up to the length of a final segment, and does not occur before
it, fills it. -/
theorem final_of_count (hm : m + Nat.count P n = n) (h : ∀ k < m, ¬P k) :
    ∀ k < n, P k ↔ m ≤ k := by
  obtain ⟨c, rfl⟩ := Nat.exists_eq_add_of_le (show m ≤ n by omega)
  have hafter : Nat.count (fun k => P (m + k)) c = c := by
    rw [Nat.count_add, Nat.count_iff_forall_not.mpr h] at hm
    omega
  intro k hk
  refine ⟨fun hP => Nat.le_of_not_lt fun hlt => h k hlt hP, fun hmk => ?_⟩
  obtain ⟨j, rfl⟩ := Nat.exists_eq_add_of_le hmk
  exact Nat.count_iff_forall.mp hafter j (by omega)

/-- What remains of a row without a final segment. -/
theorem map_filter_range_of_final (a : ℕ → α) (hm : m ≤ n) (h : ∀ k < n, P k ↔ m ≤ k) :
    ((List.range n).filter fun k => ¬P k).map a = row a m := by
  obtain ⟨c, rfl⟩ := Nat.exists_eq_add_of_le hm
  have hbefore : ((List.range m).filter fun k => ¬P k) = List.range m := by
    refine List.filter_eq_self.mpr fun k hk => ?_
    have hlt := List.mem_range.mp hk
    simpa [h k (by omega)] using hlt
  have hafter : (((List.range c).map fun k => m + k).filter fun k => ¬P k) = [] := by
    refine List.filter_eq_nil_iff.mpr fun k hk => ?_
    obtain ⟨j, hj, rfl⟩ := List.mem_map.mp hk
    have hlt := List.mem_range.mp hj
    simp [h (m + j) (by omega)]
  rw [List.range_add, List.filter_append, hbefore, hafter, List.append_nil, row]

end Final

end Compact
