import Mathlib.Data.Fintype.EquivFin
import Mathlib.Data.List.Nodup
import Mathlib.Logic.Function.Basic

/-!
# Singly linked lists in a heap

A heap is a partial function from addresses to nodes, the address `0` being the
null pointer. `LinkedList.Chain h p l` says that following the pointer `p` through
the heap `h` one finds the nodes `l`, given by their addresses and their values,
and then the null pointer.

A chain that ends in the null pointer cannot meet itself
(`LinkedList.Chain.nodup_addrs`): what follows a node is determined by its address
(`LinkedList.Chain.unique`), so a node met twice would be followed by lists of two
lengths. What a push and a pop do to a chain, and that a write elsewhere leaves it
alone, are `LinkedList.Chain.alloc`, `LinkedList.Chain.free` and
`LinkedList.Chain.frame`.

`LinkedList.Exact` is for what no chain can say, that the heap has no node besides. Such a heap
has room for one more.
-/

namespace LinkedList

variable {α : Type*}

/-- A node: the pointer to the next one, and a value. -/
structure Node (α : Type*) where
  /-- The next node; `0` is the null pointer. -/
  next : ℕ
  /-- The value. -/
  val : α
  deriving DecidableEq, Repr

/-- The nodes that are allocated, by address. -/
abbrev Heap (α : Type*) := ℕ → Option (Node α)

/-- **The nodes one finds from a pointer on**, up to the null pointer: their
addresses and values. -/
def Chain (h : Heap α) : ℕ → List (ℕ × α) → Prop
  | p, [] => p = 0
  | p, x :: l => p = x.1 ∧ p ≠ 0 ∧ ∃ next, h p = some ⟨next, x.2⟩ ∧ Chain h next l

/-- The addresses of the nodes. -/
def addrs (l : List (ℕ × α)) : List ℕ := l.map Prod.fst

/-- The values of the nodes. -/
def vals (l : List (ℕ × α)) : List α := l.map Prod.snd

@[simp] theorem addrs_nil : addrs ([] : List (ℕ × α)) = [] := rfl

@[simp] theorem addrs_cons (x : ℕ × α) (l : List (ℕ × α)) : addrs (x :: l) = x.1 :: addrs l := rfl

@[simp] theorem vals_nil : vals ([] : List (ℕ × α)) = [] := rfl

@[simp] theorem vals_cons (x : ℕ × α) (l : List (ℕ × α)) : vals (x :: l) = x.2 :: vals l := rfl

variable {h : Heap α} {p a : ℕ} {l : List (ℕ × α)}

/-- The chain of a pointer has no node exactly if the pointer is null. -/
theorem Chain.eq_zero_iff (hc : Chain h p l) : p = 0 ↔ l = [] := by
  cases l with
  | nil => exact iff_of_true hc rfl
  | cons x l => exact iff_of_false hc.2.1 (by simp)

/-- The nodes of a chain are allocated, and not at the null pointer. -/
theorem Chain.allocated (hc : Chain h p l) (ha : a ∈ addrs l) : h a ≠ none ∧ a ≠ 0 := by
  induction l generalizing p with
  | nil => exact absurd ha (by simp)
  | cons x l ih =>
    obtain ⟨rfl, hne, next, hnode, hrest⟩ := hc
    rcases List.mem_cons.mp ha with rfl | ha
    · exact ⟨by simp [hnode], hne⟩
    · exact ih hrest ha

/-- A fresh address is not in the chain. -/
theorem Chain.not_mem_of_fresh (hc : Chain h p l) (ha : h a = none) : a ∉ addrs l :=
  fun hmem => (hc.allocated hmem).1 ha

/-- **A pointer has one chain.** -/
theorem Chain.unique {l' : List (ℕ × α)} (hc : Chain h p l) (hc' : Chain h p l') : l = l' := by
  induction l generalizing p l' with
  | nil => exact (hc'.eq_zero_iff.mp hc).symm
  | cons x l ih =>
    cases l' with
    | nil => exact absurd hc' hc.2.1
    | cons y l' =>
      obtain ⟨hx, -, next, hnode, hrest⟩ := hc
      obtain ⟨hy, -, next', hnode', hrest'⟩ := hc'
      obtain ⟨rfl, hval⟩ := Node.mk.inj (Option.some.inj (hnode.symm.trans hnode'))
      rw [ih hrest hrest', Prod.ext (hx.symm.trans hy) hval]

/-- From each of its nodes on, a chain goes on. -/
theorem Chain.exists_suffix (hc : Chain h p l) (ha : a ∈ addrs l) :
    ∃ l', Chain h a l' ∧ l'.length ≤ l.length := by
  induction l generalizing p with
  | nil => exact absurd ha (by simp)
  | cons x l ih =>
    rcases List.mem_cons.mp ha with rfl | ha
    · exact ⟨x :: l, hc.1 ▸ hc, Nat.le_refl _⟩
    · obtain ⟨-, -, next, -, hrest⟩ := hc
      obtain ⟨l', hl', hlen⟩ := ih hrest ha
      exact ⟨l', hl', Nat.le_succ_of_le hlen⟩

/-- **A chain does not meet itself.** -/
theorem Chain.nodup_addrs (hc : Chain h p l) : (addrs l).Nodup := by
  induction l generalizing p with
  | nil => exact List.nodup_nil
  | cons x l ih =>
    obtain ⟨rfl, -, next, -, hrest⟩ := id hc
    refine List.nodup_cons.mpr ⟨fun hmem => ?_, ih hrest⟩
    -- the chain from the first node on would be no longer than its own rest
    obtain ⟨l', hl', hlen⟩ := hrest.exists_suffix hmem
    rw [hl'.unique hc] at hlen
    exact absurd hlen (Nat.not_succ_le_self _)

/-! ### Allocating and freeing a node -/

/-- What is written to other addresses leaves a chain alone. -/
theorem Chain.frame (hc : Chain h p l) (ha : a ∉ addrs l) (c : Option (Node α)) :
    Chain (Function.update h a c) p l := by
  induction l generalizing p with
  | nil => exact hc
  | cons x l ih =>
    obtain ⟨rfl, hne, next, hnode, hrest⟩ := hc
    rw [addrs_cons, List.mem_cons, not_or] at ha
    refine ⟨rfl, hne, next, ?_, ih hrest ha.2⟩
    rwa [Function.update_of_ne (Ne.symm ha.1)]

/-- **A new node in front of a chain.** -/
theorem Chain.alloc (hc : Chain h p l) (ha : h a = none) (hne : a ≠ 0) (x : α) :
    Chain (Function.update h a (some ⟨p, x⟩)) a ((a, x) :: l) :=
  ⟨rfl, hne, p, Function.update_self .., hc.frame (hc.not_mem_of_fresh ha) _⟩

/-- **The first node of a chain taken out.** -/
theorem Chain.free {x : ℕ × α} (hc : Chain h p (x :: l)) :
    ∃ next, h p = some ⟨next, x.2⟩ ∧ Chain (Function.update h p none) next l := by
  obtain ⟨hnot, -⟩ := List.nodup_cons.mp hc.nodup_addrs
  obtain ⟨rfl, -, next, hnode, hrest⟩ := hc
  exact ⟨next, hnode, hrest.frame hnot none⟩

/-! ### No node besides -/

/-- **The nodes of the heap are those at the addresses `l`.** -/
def Exact (h : Heap α) (l : List ℕ) : Prop := ∀ a, h a ≠ none ↔ a ∈ l

variable {l : List ℕ}

/-- There is always room for a node. -/
theorem Exact.exists_fresh (he : Exact h l) : ∃ a, a ≠ 0 ∧ h a = none := by
  obtain ⟨a, ha⟩ := Infinite.exists_notMem_finset (0 :: l).toFinset
  rw [List.mem_toFinset, List.mem_cons, not_or] at ha
  refine ⟨a, ha.1, ?_⟩
  by_contra hne
  exact ha.2 ((he a).mp hne)

/-- A node is added. -/
theorem Exact.alloc (he : Exact h l) (a : ℕ) (n : Node α) :
    Exact (Function.update h a (some n)) (a :: l) := by
  intro b
  rw [List.mem_cons]
  rcases eq_or_ne b a with rfl | hne
  · rw [Function.update_self]
    exact iff_of_true (Option.some_ne_none n) (Or.inl rfl)
  · rw [Function.update_of_ne hne, he b]
    exact ⟨Or.inr, fun hb => hb.resolve_left hne⟩

/-- A node is taken out. -/
theorem Exact.free (he : Exact h (a :: l)) (ha : a ∉ l) : Exact (Function.update h a none) l := by
  intro b
  rcases eq_or_ne b a with rfl | hne
  · rw [Function.update_self]
    exact iff_of_false (fun hnone => hnone rfl) ha
  · rw [Function.update_of_ne hne, he b, List.mem_cons]
    exact ⟨fun hb => hb.resolve_left hne, Or.inr⟩

theorem Exact.perm {l' : List ℕ} (he : Exact h l) (hl : l.Perm l') : Exact h l' :=
  fun a => (he a).trans hl.mem_iff

end LinkedList
