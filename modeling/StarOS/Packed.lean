/-
Unordered tables packed into the front of an array.

The entries are the first cells; a new one is written behind them, and one is removed by moving the
last one into its cell.

* `Packed.entries` — the entries;
* `Packed.push`, `Packed.swapRemove` — the cells after an entry was added, and removed;
* `Packed.entries_push`, `Packed.entries_swapRemove` — the entries afterwards, the latter up to
  their order.
-/

import Mathlib.Data.List.Perm.Basic
import Mathlib.Data.Nat.Notation

set_option autoImplicit false

namespace Packed

universe u

variable {α : Type u}

/-- The entries of a table: its first `count` cells. -/
def entries (cells : List α) (count : ℕ) : List α := cells.take count

/-- The cells after an entry was written behind the others. -/
def push (cells : List α) (count : ℕ) (a : α) : List α := cells.set count a

/-- The cells after the last entry was moved to the cell `i`. -/
def swapRemove (cells : List α) (count i : ℕ) : List α :=
  match cells[count - 1]? with
  | some a => cells.set i a
  | none => cells

theorem length_push (cells : List α) (count : ℕ) (a : α) :
    (push cells count a).length = cells.length := List.length_set

theorem length_swapRemove (cells : List α) (count i : ℕ) :
    (swapRemove cells count i).length = cells.length := by
  rw [swapRemove]
  split
  · exact List.length_set
  · rfl

theorem length_entries {cells : List α} {count : ℕ} (h : count ≤ cells.length) :
    (entries cells count).length = count := List.length_take_of_le h

/-- The entries after one was added. -/
theorem entries_push {cells : List α} {count : ℕ} (h : count < cells.length) (a : α) :
    entries (push cells count a) (count + 1) = entries cells count ++ [a] := by
  have hlt : count < (cells.set count a).length := by rwa [List.length_set]
  rw [entries, push, ← List.take_append_getElem hlt, List.getElem_set_self,
    List.take_set_of_le (Nat.le_refl count), entries]

/-- The entries after one was removed, up to their order. -/
theorem entries_swapRemove {cells : List α} {count i : ℕ} (hi : i < count)
    (hcount : count ≤ cells.length) :
    (entries (swapRemove cells count i) (count - 1)).Perm ((entries cells count).eraseIdx i) := by
  have hlast : count - 1 < cells.length := by omega
  have hsplit : entries cells count = entries cells (count - 1) ++ [cells[count - 1]] := by
    have h := List.take_append_getElem hlast
    rw [show count - 1 + 1 = count by omega] at h
    exact h.symm
  have hlength : (entries cells (count - 1)).length = count - 1 := length_entries (by omega)
  rw [swapRemove, List.getElem?_eq_getElem hlast]
  dsimp only
  rw [entries, List.take_set, hsplit]
  by_cases hlt : i < count - 1
  · have hlt' : i < (entries cells (count - 1)).length := by rwa [hlength]
    rw [List.eraseIdx_append_of_lt_length hlt']
    exact (List.set_perm_cons_eraseIdx hlt' _).trans (List.perm_append_singleton _ _).symm
  · have heq : i = (entries cells (count - 1)).length := by omega
    have hset : (cells.take (count - 1)).set i cells[count - 1] = entries cells (count - 1) :=
      List.set_eq_of_length_le (heq ▸ Nat.le_refl _)
    rw [hset, heq, List.eraseIdx_append_of_length_le (Nat.le_refl _), Nat.sub_self]
    exact List.Perm.of_eq (List.append_nil _).symm

end Packed
