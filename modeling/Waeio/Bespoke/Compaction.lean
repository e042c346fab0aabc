import Waeio.Bespoke.Basic
import Waeio.Lib.CompactLoop

/-!
# The compaction of the poll array

The compaction of `httpserver_bespoke.c` is the loop of `Compact` on the descriptors of the
array (`Waeio.Bespoke.compact_eq`). It moves these alone: the `events` and the `revents` of
an entry stay where they are (`Waeio.Bespoke.events_compact`).
-/

namespace Waeio

namespace Bespoke

/-- The descriptor of an entry that was closed. -/
def isHole (fd : ℤ) : Bool := fd = -1

/-- **The poll array as an array of descriptors.** -/
def slots : Compact.Cells Table ℤ where
  get t i := (t.fds i).fd
  size := Table.nfds
  copy j k t := { t with fds := Function.update t.fds j { t.fds j with fd := (t.fds k).fd } }
  shrink t := { t with nfds := Uint32.pred t.nfds }
  get_copy j k t := by
    funext m
    rcases eq_or_ne m j with rfl | hne
    · simp
    · simp [hne]
  size_copy _ _ _ := rfl
  get_shrink _ := rfl
  size_shrink _ := rfl

theorem moveDown_eq (k j : ℕ) (t : Table) :
    { t with fds := moveDown k j t.fds } = slots.moveDown k j t := by
  induction k generalizing j t with
  | zero => rfl
  | succ k ih => exact ih (j + 1) (slots.copy j (j + 1) t)

/-- **The compaction is the loop of `Compact`**. -/
theorem compactFrom_eq (fuel i : ℕ) (t : Table) :
    compactFrom fuel i t = slots.compactFrom isHole fuel i t := by
  induction fuel generalizing i t with
  | zero => rfl
  | succ fuel ih =>
    rw [compactFrom, Compact.Cells.compactFrom, ← moveDown_eq, ih, ih]
    exact if_congr Iff.rfl (if_congr decide_eq_true_iff.symm rfl rfl) rfl

theorem compact_eq (t : Table) : compact t = slots.compact isHole t := compactFrom_eq _ _ _

/-- **The compaction does what it is for.** -/
theorem thins_compact {t : Table} (h : t.nfds < 2 ^ 32) : slots.Thins isHole t (compact t) := by
  rw [compact_eq]
  exact slots.thins isHole h

/-- It leaves the `events` of each entry where they are. -/
theorem events_compact (t : Table) (k : ℕ) : ((compact t).fds k).events = (t.fds k).events := by
  rw [compact_eq]
  refine slots.compactFrom_keeps (P := fun u => (u.fds k).events = (t.fds k).events) isHole
    (fun j m u h => ?_) (fun _ h => h) _ _ rfl
  rw [← h]
  rcases eq_or_ne k j with rfl | hne
  · simp [slots]
  · simp [slots, hne]

end Bespoke

end Waeio
