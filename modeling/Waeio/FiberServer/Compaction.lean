import Waeio.FiberServer.Basic
import Waeio.Lib.CompactLoop

/-!
# The compaction of the table

The table is read as one row of entries, a descriptor with its fiber each
(`Waeio.FiberServer.Server.entries`). The compaction moves two arrays, and only the
descriptor of a poll entry; on the row, it is the loop of `Compact`, so it leaves
the entries that are no holes (`Waeio.FiberServer.entries_compact`).
-/

namespace Waeio

namespace FiberServer

/-- An entry of the table: a descriptor, and what `fibers` holds for it. -/
structure Entry where
  fd : ℤ
  closure : FiberClosure
  deriving DecidableEq, Repr

/-- The entry has been taken away. -/
def Entry.isHole (e : Entry) : Bool := e.fd = -1

/-- The entry at the index `i`. -/
def Server.cell (s : Server) (i : ℕ) : Entry := ⟨(s.wfd.fds i).fd, s.fibers i⟩

/-- **The entries in use.** -/
def Server.entries (s : Server) : List Entry := Compact.row s.cell s.wfd.length

@[simp] theorem length_entries (s : Server) : s.entries.length = s.wfd.length :=
  Compact.length_row _ _

theorem isHole_cell {s : Server} {i : ℕ} :
    (s.cell i).isHole = true ↔ (s.wfd.fds i).fd = -1 :=
  decide_eq_true_iff

/-- The parts of the state that no loop over the table touches. -/
structure Framed (s t : Server) : Prop where
  capacity_eq : t.wfd.capacity = s.wfd.capacity
  allocated_eq : t.allocated = s.allocated

variable {s t u : Server}

theorem Framed.refl (s : Server) : Framed s s := ⟨rfl, rfl⟩

theorem Framed.trans (h : Framed s t) (h' : Framed t u) : Framed s u :=
  ⟨h'.capacity_eq.trans h.capacity_eq, h'.allocated_eq.trans h.allocated_eq⟩

/-! ### The loops -/

/-- The entry `k` is copied to `j`. -/
theorem cell_copy (j k : ℕ) (s : Server) :
    Server.cell
      { s with
        wfd := { s.wfd with
          fds := Function.update s.wfd.fds j { s.wfd.fds j with fd := (s.wfd.fds k).fd } }
        fibers := Function.update s.fibers j (s.fibers k) } =
      Function.update s.cell j (s.cell k) := by
  funext m
  rcases eq_or_ne m j with rfl | hne
  · simp [Server.cell]
  · simp [Server.cell, hne]

/-- **The table as an array of entries.** -/
def slots : Compact.Cells Server Entry where
  get := Server.cell
  size s := s.wfd.length
  copy j k s :=
    { s with
      wfd := { s.wfd with
        fds := Function.update s.wfd.fds j { s.wfd.fds j with fd := (s.wfd.fds k).fd } }
      fibers := Function.update s.fibers j (s.fibers k) }
  shrink := Server.shorten
  get_copy := cell_copy
  size_copy _ _ _ := rfl
  get_shrink _ := rfl
  size_shrink _ := rfl

theorem moveDown_eq (k j : ℕ) (s : Server) : moveDown k j s = slots.moveDown k j s := by
  induction k generalizing j s with
  | zero => rfl
  | succ k ih => exact ih (j + 1) _

/-- **The compaction is the loop of `Compact`** on the row of entries. -/
theorem compactFrom_eq (fuel i : ℕ) (s : Server) :
    compactFrom fuel i s = slots.compactFrom Entry.isHole fuel i s := by
  induction fuel generalizing i s with
  | zero => rfl
  | succ fuel ih =>
    rw [compactFrom, Compact.Cells.compactFrom, moveDown_eq, ih, ih]
    exact if_congr Iff.rfl (if_congr isHole_cell.symm rfl rfl) rfl

theorem compact_eq (s : Server) : compact s = slots.compact Entry.isHole s :=
  compactFrom_eq _ _ _

theorem framed_compact (s : Server) : Framed s (compact s) := by
  rw [compact_eq]
  exact slots.compactFrom_keeps _ (fun _ _ _ h => ⟨h.capacity_eq, h.allocated_eq⟩)
    (fun _ h => ⟨h.capacity_eq, h.allocated_eq⟩) _ _ (.refl s)

/-- **The compaction leaves the entries that are no holes.** -/
theorem entries_compact (h : s.wfd.length < 2 ^ 32) :
    (compact s).entries = s.entries.filter fun e => !e.isHole := by
  rw [compact_eq]
  exact slots.row_compact _ h

end FiberServer

end Waeio
