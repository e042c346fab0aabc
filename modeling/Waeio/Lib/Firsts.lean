import Mathlib.Data.List.Nodup
import Mathlib.Logic.Function.Basic

/-!
# The first item of each key

A list of items with keys is gone through once, and an item is kept if no item before it
has the same key. `Firsts.firsts` is what is kept, given the keys that count as seen at the
start: the keys that occur and were not seen, each with one item.

A loop that keeps the keys seen in an array of flags, indexed by the key, updates the
flags as a function as long as the key is in range (`Firsts.getD_set`).
-/

namespace Firsts

variable {α κ : Type*} [DecidableEq κ] {key : α → κ} {seen : κ → Bool} {l : List α} {a : α}

/-- **The first item of each key** that is not `seen`. -/
def firsts (key : α → κ) : (seen : κ → Bool) → List α → List α
  | _, [] => []
  | seen, a :: l =>
    if seen (key a) then firsts key seen l
    else a :: firsts key (Function.update seen (key a) true) l

theorem mem_of_mem_firsts (h : a ∈ firsts key seen l) : a ∈ l ∧ seen (key a) = false := by
  induction l generalizing seen with
  | nil => exact absurd h List.not_mem_nil
  | cons b l ih =>
    rw [firsts] at h
    split_ifs at h with hb
    · exact (ih h).imp_left (List.mem_cons_of_mem b)
    · rcases List.mem_cons.mp h with rfl | h
      · exact ⟨List.mem_cons_self, Bool.eq_false_iff.mpr hb⟩
      · obtain ⟨hmem, hseen⟩ := ih h
        refine ⟨List.mem_cons_of_mem b hmem, ?_⟩
        rcases eq_or_ne (key a) (key b) with heq | hne
        · rw [heq, Function.update_self] at hseen
          exact absurd hseen nofun
        · rwa [Function.update_of_ne hne] at hseen

/-- Each key that is not seen has an item that is kept. -/
theorem exists_mem_firsts (h : a ∈ l) (hseen : seen (key a) = false) :
    ∃ b ∈ firsts key seen l, key b = key a := by
  induction l generalizing seen with
  | nil => exact absurd h List.not_mem_nil
  | cons b l ih =>
    rw [firsts]
    split_ifs with hb
    · rcases List.mem_cons.mp h with rfl | h
      · exact absurd hb (Bool.eq_false_iff.mp hseen)
      · exact ih h hseen
    · -- the item `b` is kept, for its own key; any other key is as unseen as before
      rcases eq_or_ne (key a) (key b) with heq | hne
      · exact ⟨b, List.mem_cons_self, heq.symm⟩
      · have ha : a ∈ l := (List.mem_cons.mp h).resolve_left fun heq => hne (by rw [heq])
        obtain ⟨c, hc, heq⟩ := ih ha ((Function.update_of_ne hne true seen).trans hseen)
        exact ⟨c, List.mem_cons_of_mem b hc, heq⟩

/-- **No key has two** that are kept. -/
theorem nodup_firsts (key : α → κ) (seen : κ → Bool) (l : List α) :
    ((firsts key seen l).map key).Nodup := by
  induction l generalizing seen with
  | nil => exact List.nodup_nil
  | cons b l ih =>
    rw [firsts]
    split_ifs with hb
    · exact ih seen
    · -- what is kept after `b` does not have its key, which counts as seen
      refine List.nodup_cons.mpr ⟨fun h => ?_, ih _⟩
      obtain ⟨c, hc, heq⟩ := List.mem_map.mp h
      have hseen := (mem_of_mem_firsts hc).2
      rw [heq, Function.update_self] at hseen
      exact absurd hseen nofun

/-- In a list without two items of one key, an item is the only one of its key. -/
theorem filter_key_eq (h : (l.map key).Nodup) (ha : a ∈ l) :
    l.filter (fun b => key b = key a) = [a] := by
  induction l with
  | nil => exact absurd ha List.not_mem_nil
  | cons b l ih =>
    obtain ⟨hb, hl⟩ := List.nodup_cons.mp h
    rcases List.mem_cons.mp ha with rfl | ha
    · have hnone : l.filter (fun c => key c = key a) = [] := by
        refine List.filter_eq_nil_iff.mpr fun c hc heq => hb ?_
        rw [← of_decide_eq_true heq]
        exact List.mem_map_of_mem hc
      rw [List.filter_cons_of_pos (by simp), hnone]
    · have hne : key b ≠ key a := fun heq => hb (heq ▸ List.mem_map_of_mem ha)
      rw [List.filter_cons_of_neg (by simpa using hne), ih hl ha]

/-- A flag that is set in an array of flags. -/
theorem getD_set {flags : List Bool} {n : ℕ} (h : n < flags.length) :
    (fun i => (flags.set n true).getD i false) =
      Function.update (fun i => flags.getD i false) n true := by
  funext i
  rcases eq_or_ne i n with rfl | hne
  · rw [Function.update_self, List.getD_eq_getElem?_getD, List.getElem?_set_self h]
    rfl
  · rw [Function.update_of_ne hne, List.getD_eq_getElem?_getD, List.getElem?_set_ne hne.symm,
      List.getD_eq_getElem?_getD]

end Firsts
