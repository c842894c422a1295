/-
Insertion sort by swaps of neighbours.

Each element in turn sinks as long as the key of its left neighbour is greater.  Elements with equal
keys do not pass each other, so that the sort is stable: it orders by the key, and by the order
before where the keys are equal.

* `SwapSort.swapCells`, `SwapSort.sink`, `SwapSort.sort` — the swap and the two loops; the key of an
  element that has none is a panic;
* `SwapSort.Before` — the order afterwards;
* `SwapSort.sink_eq` — an element sinks to its place in an ordered list;
* `SwapSort.sort_eq` — the sort is a permutation into that order.
-/

import StarOS.Shifts
import Mathlib.Data.List.Pairwise
import Mathlib.Order.Lattice

set_option autoImplicit false

namespace SwapSort

open Shifts

universe u v

variable {α : Type u} {κ : Type v} [LinearOrder κ]

/-- `cells.swap(i, j)`. -/
def swapCells (cells : List α) (i j : ℕ) : Option (List α) :=
  cells[i]?.bind fun a => cells[j]?.bind fun b =>
    (setCell cells i b).bind fun cells => setCell cells j a

/-- The inner loop: the element at an index sinks. -/
def sink (key : α → Option κ) : ℕ → List α → Option (List α)
  | 0, cells => some cells
  | j + 1, cells =>
      (cells[j]?.bind key).bind fun a =>
        (cells[j + 1]?.bind key).bind fun b =>
          if b < a then (swapCells cells j (j + 1)).bind (sink key j) else some cells

/-- The outer loop, over the first `count` elements. -/
def sort (key : α → Option κ) (cells : List α) (count : ℕ) : Option (List α) :=
  (List.range' 1 (count - 1)).foldlM (fun cells i => sink key i cells) cells

/-- By key, and by the order before where the keys are equal. -/
def Before (k : α → κ) (lt : α → α → Prop) (a b : α) : Prop := k a < k b ∨ (k a = k b ∧ lt a b)

theorem swapCells_next (front back : List α) (a b : α) :
    swapCells (front ++ a :: b :: back) front.length (front.length + 1) =
      some (front ++ b :: a :: back) := by
  have hfirst : (front ++ a :: b :: back)[front.length]? = some a := by simp
  have hsecond : (front ++ a :: b :: back)[front.length + 1]? = some b := by simp
  have hset := setCell_mid (front ++ [b]) back b a
  rw [List.append_assoc, List.append_assoc, List.length_append, List.length_singleton] at hset
  rw [swapCells, hfirst, hsecond, Option.bind_some, Option.bind_some, setCell_mid, Option.bind_some]
  exact hset

variable {key : α → Option κ} {k : α → κ} {lt : α → α → Prop}

/-- An element behind an ordered list sinks to its place. -/
theorem sink_eq {front : List α} (back : List α) {x : α}
    (hkey : ∀ a ∈ front ++ [x], key a = some (k a)) (hfront : front.Pairwise (Before k lt))
    (hx : ∀ a ∈ front, lt a x) :
    ∃ front', sink key front.length (front ++ x :: back) = some (front' ++ back) ∧
      front'.Perm (front ++ [x]) ∧ front'.Pairwise (Before k lt) := by
  -- the last element of the list is the first one that is compared
  induction front using List.reverseRecOn generalizing back with
  | nil => exact ⟨[x], rfl, List.Perm.refl _, List.pairwise_singleton _ _⟩
  | append_singleton front m ih =>
      obtain ⟨hinit, -, hm⟩ := List.pairwise_append.1 hfront
      have hkeym : key m = some (k m) := hkey m (by simp)
      have hkeyx : key x = some (k x) := hkey x (by simp)
      have hgetm : (front ++ [m] ++ x :: back)[front.length]? = some m := by simp
      have hgetx : (front ++ [m] ++ x :: back)[front.length + 1]? = some x := by simp
      have hstep : sink key (front ++ [m]).length (front ++ [m] ++ x :: back) =
          if k x < k m then sink key front.length (front ++ x :: m :: back)
          else some (front ++ [m] ++ x :: back) := by
        rw [List.length_append, List.length_singleton, sink, hgetm, hgetx, Option.bind_some,
          Option.bind_some, hkeym, hkeyx, Option.bind_some, Option.bind_some, List.append_assoc,
          List.singleton_append, swapCells_next, Option.bind_some]
      by_cases hlt : k x < k m
      · obtain ⟨front', hsink, hperm, hsorted⟩ := ih (m :: back)
          (fun a ha => hkey a (by simp only [List.mem_append, List.mem_singleton] at ha ⊢; tauto))
          hinit (fun a ha => hx a (List.mem_append_left _ ha))
        refine ⟨front' ++ [m], ?_, ?_, ?_⟩
        · rw [hstep, if_pos hlt, hsink, List.append_assoc, List.singleton_append]
        · calc (front' ++ [m]).Perm (front ++ [x] ++ [m]) := hperm.append_right [m]
            _ = front ++ ([x] ++ [m]) := List.append_assoc _ _ _
            List.Perm _ (front ++ ([m] ++ [x])) := List.perm_append_comm.append_left front
            _ = front ++ [m] ++ [x] := (List.append_assoc _ _ _).symm
        · refine List.pairwise_append.2 ⟨hsorted, List.pairwise_singleton _ _, ?_⟩
          intro a ha b hb
          rw [List.mem_singleton.1 hb]
          rcases List.mem_append.1 (hperm.mem_iff.1 ha) with ha | ha
          · exact hm a ha m (List.mem_singleton_self m)
          · rw [List.mem_singleton.1 ha]
            exact Or.inl hlt
      · refine ⟨front ++ [m] ++ [x], ?_, List.Perm.refl _, ?_⟩
        · rw [hstep, if_neg hlt, List.append_assoc (front ++ [m]), List.singleton_append]
        · refine List.pairwise_append.2 ⟨hfront, List.pairwise_singleton _ _, ?_⟩
          intro a ha b hb
          rw [List.mem_singleton.1 hb]
          have hle : k a ≤ k x := by
            rcases List.mem_append.1 ha with hmem | hmem
            · rcases hm a hmem m (List.mem_singleton_self m) with h | ⟨h, -⟩
              · exact h.le.trans (not_lt.1 hlt)
              · exact h.le.trans (not_lt.1 hlt)
            · rw [List.mem_singleton.1 hmem]
              exact not_lt.1 hlt
          rcases hle.lt_or_eq with h | h
          · exact Or.inl h
          · exact Or.inr ⟨h, hx a ha⟩

/-- **The sort.**  It permutes the elements into the order by key that is stable. -/
theorem sort_eq {cells : List α} (back : List α) (hkey : ∀ a ∈ cells, key a = some (k a))
    (hcells : cells.Pairwise lt) :
    ∃ cells', sort key (cells ++ back) cells.length = some (cells' ++ back) ∧
      cells'.Perm cells ∧ cells'.Pairwise (Before k lt) := by
  induction cells using List.reverseRecOn generalizing back with
  | nil => exact ⟨[], rfl, List.Perm.refl _, List.Pairwise.nil⟩
  | append_singleton cells x ih =>
      obtain ⟨hinit, -, hx⟩ := List.pairwise_append.1 hcells
      obtain ⟨sorted, hsort, hperm, hsorted⟩ :=
        ih (x :: back) (fun a ha => hkey a (List.mem_append_left _ ha)) hinit
      obtain ⟨cells', hsink, hperm', hsorted'⟩ := sink_eq back (x := x)
        (fun a ha => hkey a ((hperm.append_right [x]).mem_iff.1 ha)) hsorted
        (fun a ha => hx a (hperm.mem_iff.1 ha) x (List.mem_singleton_self x))
      refine ⟨cells', ?_, hperm'.trans (hperm.append_right [x]), hsorted'⟩
      rw [hperm.length_eq] at hsink
      cases cells with
      | nil =>
          rw [List.nil_perm.1 hperm.symm] at hsink
          simpa [sort, sink] using hsink
      | cons c cells =>
          have hrange : List.range' 1 ((c :: cells ++ [x]).length - 1) =
              List.range' 1 ((c :: cells).length - 1) ++ [(c :: cells).length] := by
            rw [List.length_append, List.length_singleton, Nat.add_sub_cancel, List.length_cons,
              Nat.add_sub_cancel, List.range'_concat, Nat.one_mul, Nat.add_comm 1]
          rw [sort] at hsort ⊢
          rw [hrange, List.foldlM_append, List.append_assoc, List.singleton_append, hsort,
            Option.bind_eq_bind, Option.bind_some, List.foldlM_cons, hsink]
          rfl

end SwapSort
