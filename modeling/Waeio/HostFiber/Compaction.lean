import Waeio.Bespoke.Compaction
import Waeio.FiberServer.Compaction
import Waeio.HostFiber.Basic

/-!
# The compaction of the two arrays

The compaction of `httpserver_fiber.c` is the loop of `Compact` on the entries of the table,
a descriptor of `fds` with what `fibers` holds for it. So a descriptor that stays does so
with its fiber, and nothing else about the loop differs from that of
`httpserver_bespoke.c`. `Waeio.compactions_thin` says of both that they end, what they
leave, and that they keep to the entries in use.
-/

namespace Waeio

open FiberServer (MAX_CONNECTIONS Entry)

namespace HostFiber

/-- The entry at the index `i`. -/
def Server.cell (s : Server) (i : ℕ) : Entry := ⟨(s.fds i).fd, s.fibers i⟩

/-- **The two arrays as one array of entries.** -/
def slots : Compact.Cells Server Entry where
  get := Server.cell
  size := Server.nfds
  copy j k s :=
    { s with
      fds := Function.update s.fds j { s.fds j with fd := (s.fds k).fd }
      fibers := Function.update s.fibers j (s.fibers k) }
  shrink := Server.shorten
  get_copy j k s := by
    funext m
    rcases eq_or_ne m j with rfl | hne
    · simp [Server.cell]
    · simp [Server.cell, hne]
  size_copy _ _ _ := rfl
  get_shrink _ := rfl
  size_shrink _ := rfl

theorem moveDown_eq (k j : ℕ) (s : Server) : moveDown k j s = slots.moveDown k j s := by
  induction k generalizing j s with
  | zero => rfl
  | succ k ih => exact ih (j + 1) _

/-- **The compaction is the loop of `Compact`** on the entries. -/
theorem compactFrom_eq (fuel i : ℕ) (s : Server) :
    compactFrom fuel i s = slots.compactFrom Entry.isHole fuel i s := by
  induction fuel generalizing i s with
  | zero => rfl
  | succ fuel ih =>
    rw [compactFrom, Compact.Cells.compactFrom, moveDown_eq, ih, ih]
    exact if_congr Iff.rfl (if_congr decide_eq_true_iff.symm rfl rfl) rfl

/-- **The compaction does what it is for.** -/
theorem thins_compact {s : Server} (h : s.nfds < 2 ^ 32) :
    slots.Thins Entry.isHole s (compact s) := by
  rw [show compact s = slots.compact Entry.isHole s from compactFrom_eq _ _ _]
  exact slots.thins Entry.isHole h

end HostFiber

/-- **Both compactions end**, and leave the entries whose descriptor is not `-1`, in their
order and counted by `nfds`. Neither touches an entry beyond those in use. -/
theorem compactions_thin :
    (∀ t : Bespoke.Table, t.nfds ≤ MAX_CONNECTIONS →
      Bespoke.slots.Thins Bespoke.isHole t (Bespoke.compact t)) ∧
    ∀ s : HostFiber.Server, s.nfds ≤ MAX_CONNECTIONS →
      HostFiber.slots.Thins Entry.isHole s (HostFiber.compact s) :=
  ⟨fun _ h => Bespoke.thins_compact (lt_of_le_of_lt h (by decide)),
    fun _ h => HostFiber.thins_compact (lt_of_le_of_lt h (by decide))⟩

namespace HostFiber

/-- Four entries, with holes at either end. -/
def holesAtEnds : Server :=
  { Program.start.srv with
    fds := fun i => ⟨if i = 1 then 7 else if i = 2 then 5 else -1, POLLIN, 0⟩
    fibers := fun i => ⟨i, i⟩
    nfds := 4 }

end HostFiber

theorem compactions_thin_holesAtEnds :
    Bespoke.slots.Thins Bespoke.isHole ⟨HostFiber.holesAtEnds.fds, 4⟩
        (Bespoke.compact ⟨HostFiber.holesAtEnds.fds, 4⟩) ∧
      HostFiber.slots.Thins Entry.isHole HostFiber.holesAtEnds
        (HostFiber.compact HostFiber.holesAtEnds) ∧
      Compact.row (HostFiber.compact HostFiber.holesAtEnds).cell 2 = [⟨7, ⟨1, 1⟩⟩, ⟨5, ⟨2, 2⟩⟩] :=
  ⟨compactions_thin.1 _ (by decide), compactions_thin.2 _ (by decide), by decide⟩

end Waeio
