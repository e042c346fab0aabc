import Mathlib.Data.List.Induction
import Mathlib.Data.List.Perm.Subperm
import Waeio.Lib.Steps

/-!
# Ledgers

A program opens things and closes them: descriptors, blocks of memory. What it has to close
yet can be read off its state, what it has opened and closed off the labels of its run, and
the two accounts have to agree. `Ledger.Book` says how they are read off, and
`Ledger.Book.Balances` that a step keeps them even: what is held after it and what it closes
is what was held before it and what it opens.

Then a whole run is even (`Ledger.Book.balance`). If it starts with nothing held, what it holds
is open, that is, was opened more often than it was closed (`Ledger.Book.isOpen_of_mem`); and
if it ends with nothing held, it has closed what it has opened, each as often.

Nothing here asks for two things that are open to be different: the account of each is kept
by its number of times.

Where the state does not show what is held, things can be told by the order in which they
were opened. If no number is closed twice, what has a number that is not closed is open
(`Ledger.count_lt_of_notMem`).
-/

namespace Ledger

open Lts (Steps)

variable {σ α δ : Type*} {Tr : σ → α → σ → Prop} {I : σ → Prop} {s t : σ} {a : α} {l : List α}
  {d : δ}

/-- **How a ledger is kept** of a system with states `σ` and labels `α`. -/
structure Book (σ α δ : Type*) where
  /-- What is held in a state. -/
  held : σ → List δ
  /-- What a step opens. -/
  opens : α → List δ
  /-- What a step closes. -/
  closes : α → List δ

namespace Book

variable (b : Book σ α δ)

/-- What the steps of a run have opened. -/
def opened (l : List α) : List δ := l.flatMap b.opens

/-- What the steps of a run have closed. -/
def closed (l : List α) : List δ := l.flatMap b.closes

/-- **A step keeps the ledger even.** -/
def Balances (s : σ) (a : α) (t : σ) : Prop :=
  (b.held t ++ b.closes a).Perm (b.held s ++ b.opens a)

/-- After the run `l` the thing `d` is open: it was opened more often than it was closed. -/
def IsOpen [DecidableEq δ] (l : List α) (d : δ) : Prop :=
  (b.closed l).count d < (b.opened l).count d

instance [DecidableEq δ] (l : List α) : DecidablePred (b.IsOpen l) := fun d =>
  inferInstanceAs (Decidable ((b.closed l).count d < (b.opened l).count d))

variable {b}

/-! ### Steps -/

/-- A step that neither opens nor closes, and holds on to the same. -/
theorem Balances.of_eq (hheld : b.held t = b.held s) (ho : b.opens a = []) (hc : b.closes a = []) :
    b.Balances s a t := by
  rw [Balances, hheld, ho, hc]

/-- A step that opens one thing, and holds it. -/
theorem Balances.of_open (hheld : (b.held t).Perm (b.held s ++ [d])) (ho : b.opens a = [d])
    (hc : b.closes a = []) : b.Balances s a t := by
  rw [Balances, ho, hc, List.append_nil]
  exact hheld

/-- A step that closes one thing, which it held. -/
theorem Balances.of_close (hheld : (b.held t ++ [d]).Perm (b.held s)) (ho : b.opens a = [])
    (hc : b.closes a = [d]) : b.Balances s a t := by
  rw [Balances, ho, hc, List.append_nil]
  exact hheld

/-! ### Runs -/

theorem perm_append_swap (x y z : List δ) : (x ++ y ++ z).Perm (x ++ z ++ y) := by
  rw [List.append_assoc, List.append_assoc]
  exact List.perm_append_comm.append_left x

/-- **A run keeps the ledger even**, if its steps do. -/
theorem balance (hstep : ∀ s a t, I s → Tr s a t → I t ∧ b.Balances s a t) (h : Steps Tr s l t)
    (h0 : I s) : (b.held t ++ b.closed l).Perm (b.held s ++ b.opened l) := by
  induction h with
  | nil s => exact List.Perm.refl _
  | @cons s u t a l hs _ ih =>
    obtain ⟨hu, heven⟩ := hstep s a u h0 hs
    calc b.held t ++ (b.closes a ++ b.closed l)
        = b.held t ++ b.closes a ++ b.closed l := (List.append_assoc _ _ _).symm
      _ |>.Perm (b.held t ++ b.closed l ++ b.closes a) := perm_append_swap _ _ _
      _ |>.Perm (b.held u ++ b.opened l ++ b.closes a) := (ih hu).append_right _
      _ |>.Perm (b.held u ++ b.closes a ++ b.opened l) := perm_append_swap _ _ _
      _ |>.Perm (b.held s ++ b.opens a ++ b.opened l) := heven.append_right _
      _ = b.held s ++ (b.opens a ++ b.opened l) := List.append_assoc _ _ _

/-- **What is held is open.** -/
theorem isOpen_of_mem [DecidableEq δ] (heven : (b.held t ++ b.closed l).Perm (b.opened l))
    (hd : d ∈ b.held t) : b.IsOpen l d := by
  have hcount := heven.count_eq d
  rw [List.count_append] at hcount
  have hpos := List.count_pos_iff.mpr hd
  rw [IsOpen]
  omega

end Book

/-! ### Things by number -/

variable {opened : List δ} {shut : List ℕ}

/-- The things that have the numbers `shut`, in the order of these. -/
def numbered (opened : List δ) (shut : List ℕ) : List δ := shut.filterMap fun k => opened[k]?

theorem numbered_append (hlt : ∀ k ∈ shut, k < opened.length) (new : List δ) :
    numbered (opened ++ new) shut = numbered opened shut :=
  List.filterMap_congr fun k hk => List.getElem?_append_left (hlt k hk)

theorem numbered_range (opened : List δ) : numbered opened (List.range opened.length) = opened := by
  induction opened using List.reverseRecOn with
  | nil => rfl
  | append_singleton l d ih =>
    have hlt : ∀ k ∈ List.range l.length, k < l.length := fun k => List.mem_range.mp
    rw [List.length_append, List.length_singleton, List.range_succ, numbered,
      List.filterMap_append]
    change numbered (l ++ [d]) (List.range l.length) ++ numbered (l ++ [d]) [l.length] = l ++ [d]
    rw [numbered_append hlt, ih]
    simp [numbered]

/-- **Nothing is closed more often than it was opened**, where no number is closed twice. -/
theorem numbered_subperm (hnodup : shut.Nodup) (hlt : ∀ k ∈ shut, k < opened.length) :
    (numbered opened shut).Subperm opened := by
  have hsub : shut.Subperm (List.range opened.length) :=
    List.subperm_of_subset hnodup fun k hk => List.mem_range.mpr (hlt k hk)
  obtain ⟨l, hperm, hsublist⟩ := hsub
  have hall := hsublist.filterMap fun k => opened[k]?
  change (numbered opened l).Sublist (numbered opened (List.range opened.length)) at hall
  rw [numbered_range] at hall
  exact ⟨numbered opened l, hperm.filterMap _, hall⟩

/-- **What has a number that is not closed is open.** -/
theorem count_lt_of_notMem [DecidableEq δ] (hnodup : shut.Nodup)
    (hlt : ∀ k ∈ shut, k < opened.length) {k : ℕ} (hk : k ∉ shut) (hd : opened[k]? = some d) :
    (numbered opened shut).count d < opened.count d := by
  obtain ⟨hklt, -⟩ := List.getElem?_eq_some_iff.mp hd
  have hsub := numbered_subperm (List.nodup_cons.mpr ⟨hk, hnodup⟩)
    (List.forall_mem_cons.mpr ⟨hklt, hlt⟩)
  have hcons : numbered opened (k :: shut) = d :: numbered opened shut :=
    List.filterMap_cons_some hd
  rw [hcons] at hsub
  have hcount := hsub.count_le d
  rw [List.count_cons_self] at hcount
  omega

end Ledger
