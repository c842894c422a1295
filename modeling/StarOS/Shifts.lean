/-
Moving cells of an array up and down, one after the other.

An array is a list whose length no operation changes, and reading or writing outside it has no
result.  The loops that make room for a cell, and that close a gap, overwrite each cell with its
neighbour; the lemmas say what they leave in terms of the parts of the array, so that the cells
before and behind the moved ones are seen to stay.

* `Shifts.setCell`, `Shifts.copyCell` — a checked write, and a checked copy;
* `Shifts.shiftRight`, `Shifts.shiftLeft`, `Shifts.fill` — the loops;
* `Shifts.load`, `Shifts.getElem?_load`, `Shifts.exists_load_iff` — cells from elsewhere, what is in
  the cells afterwards, and when they are loaded;
* `Shifts.insert_eq` — moving cells up by one and writing to the first of them inserts a cell;
* `Shifts.remove_eq` — moving cells down and filling up behind them removes the cells before them;
* `Shifts.filter_eq_take`, `Shifts.filter_not_eq_drop` — in an ordered list a test that holds of no
  element behind one of which it fails cuts the list in two.
-/

import Mathlib.Data.List.Basic
import Mathlib.Data.List.Induction
import Mathlib.Data.Nat.Notation

set_option autoImplicit false

namespace Shifts

universe u

variable {α : Type u}

/-- `cells[i] = a`. -/
def setCell (cells : List α) (i : ℕ) (a : α) : Option (List α) :=
  if i < cells.length then some (cells.set i a) else none

/-- `cells[dst] = cells[src]`. -/
def copyCell (cells : List α) (dst src : ℕ) : Option (List α) :=
  cells[src]?.bind fun a => setCell cells dst a

/-- `for i in (pos..count).rev() { cells[i + 1] = cells[i] }`. -/
def shiftRight (cells : List α) (pos count : ℕ) : Option (List α) :=
  (List.range' pos (count - pos)).reverse.foldlM (fun cells i => copyCell cells (i + 1) i) cells

/-- `for i in pos..stop { cells[i] = cells[i + step] }`. -/
def shiftLeft (cells : List α) (pos stop step : ℕ) : Option (List α) :=
  (List.range' pos (stop - pos)).foldlM (fun cells i => copyCell cells i (i + step)) cells

/-- `for i in pos..stop { cells[i] = a }`. -/
def fill (cells : List α) (pos stop : ℕ) (a : α) : Option (List α) :=
  (List.range' pos (stop - pos)).foldlM (fun cells i => setCell cells i a) cells

/-- `for i in 0..n { cells[pos + i] = src(i) }`, where reading the source may fail, too. -/
def load (src : ℕ → Option α) (pos : ℕ) : ℕ → List α → Option (List α)
  | 0, cells => some cells
  | n + 1, cells =>
      (load src pos n cells).bind fun cells => (src n).bind fun a => setCell cells (pos + n) a

/-! ### Single cells -/

theorem setCell_mid (front back : List α) (x a : α) :
    setCell (front ++ x :: back) front.length a = some (front ++ a :: back) := by
  simp [setCell]

/-- What is in the cells after a checked write. -/
theorem getElem?_setCell {cells cells' : List α} {i : ℕ} {a : α}
    (h : setCell cells i a = some cells') (j : ℕ) :
    cells'[j]? = if j = i then some a else cells[j]? := by
  obtain ⟨hlt, hset⟩ := Option.ite_none_right_eq_some.1 h
  rw [← Option.some.inj hset, List.getElem?_set]
  by_cases hij : j = i
  · rw [if_pos hij.symm, if_pos (hij ▸ hlt), if_pos hij]
  · rw [if_neg (Ne.symm hij), if_neg hij]

/-- What is in the cells after some were loaded. -/
theorem getElem?_load {src : ℕ → Option α} {pos n : ℕ} {cells cells' : List α}
    (h : load src pos n cells = some cells') (j : ℕ) :
    cells'[j]? = if pos ≤ j ∧ j < pos + n then src (j - pos) else cells[j]? := by
  induction n generalizing cells' with
  | zero =>
      rw [← Option.some.inj h, if_neg (by omega)]
  | succ n ih =>
      obtain ⟨mid, hmid, hrest⟩ := Option.bind_eq_some_iff.1 h
      obtain ⟨a, ha, hset⟩ := Option.bind_eq_some_iff.1 hrest
      rw [getElem?_setCell hset j]
      by_cases hj : j = pos + n
      · rw [if_pos hj, if_pos (by omega), hj, Nat.add_sub_cancel_left, ha]
      · rw [if_neg hj, ih hmid]
        exact if_congr (by omega) rfl rfl

theorem length_setCell {cells cells' : List α} {i : ℕ} {a : α}
    (h : setCell cells i a = some cells') : cells'.length = cells.length := by
  obtain ⟨-, hset⟩ := Option.ite_none_right_eq_some.1 h
  rw [← Option.some.inj hset, List.length_set]

theorem length_load {src : ℕ → Option α} {pos n : ℕ} {cells cells' : List α}
    (h : load src pos n cells = some cells') : cells'.length = cells.length := by
  induction n generalizing cells' with
  | zero => rw [Option.some.inj h]
  | succ n ih =>
      obtain ⟨mid, hmid, hrest⟩ := Option.bind_eq_some_iff.1 h
      obtain ⟨a, -, hset⟩ := Option.bind_eq_some_iff.1 hrest
      rw [length_setCell hset, ih hmid]

/-- Cells are loaded if they are there and have places. -/
theorem exists_load_iff (src : ℕ → Option α) (pos n : ℕ) (cells : List α) :
    (∃ cells', load src pos n cells = some cells') ↔
      ∀ i < n, (src i).isSome = true ∧ pos + i < cells.length := by
  induction n with
  | zero => exact iff_of_true ⟨cells, rfl⟩ fun i hi => absurd hi (Nat.not_lt_zero i)
  | succ n ih =>
      constructor
      · rintro ⟨cells', h⟩ i hi
        obtain ⟨mid, hmid, hrest⟩ := Option.bind_eq_some_iff.1 h
        obtain ⟨a, ha, hset⟩ := Option.bind_eq_some_iff.1 hrest
        obtain hlt | rfl := Nat.lt_succ_iff_lt_or_eq.1 hi
        · exact ih.1 ⟨mid, hmid⟩ i hlt
        · obtain ⟨hlt, -⟩ := Option.ite_none_right_eq_some.1 hset
          rw [length_load hmid] at hlt
          exact ⟨by rw [ha]; rfl, hlt⟩
      · intro hall
        obtain ⟨mid, hmid⟩ := ih.2 fun i hi => hall i (Nat.lt_succ_of_lt hi)
        obtain ⟨hsrc, hlt⟩ := hall n (Nat.lt_succ_self n)
        obtain ⟨a, ha⟩ := Option.isSome_iff_exists.1 hsrc
        rw [← length_load hmid] at hlt
        exact ⟨_, by rw [load, hmid, Option.bind_some, ha, Option.bind_some, setCell, if_pos hlt]⟩

/-- Copying between two cells of which the second is behind the first. -/
theorem copyCell_down (front gone back : List α) (x a : α) :
    copyCell (front ++ x :: (gone ++ a :: back)) front.length (front.length + (gone.length + 1)) =
      some (front ++ a :: (gone ++ a :: back)) := by
  have hsrc : (front ++ x :: (gone ++ a :: back))[front.length + (gone.length + 1)]? = some a := by
    rw [List.getElem?_append_right (Nat.le_add_right _ _), Nat.add_sub_cancel_left,
      List.getElem?_cons_succ, List.getElem?_append_right (Nat.le_refl _), Nat.sub_self,
      List.getElem?_cons_zero]
  rw [copyCell, hsrc, Option.bind_some, setCell_mid]

/-- Copying a cell to the next one. -/
theorem copyCell_up (front back : List α) (x a : α) :
    copyCell (front ++ a :: x :: back) (front.length + 1) front.length =
      some (front ++ a :: a :: back) := by
  have hset := setCell_mid (front ++ [a]) back x a
  rw [List.append_assoc, List.append_assoc, List.length_append, List.length_singleton] at hset
  have hsrc : (front ++ a :: x :: back)[front.length]? = some a := by simp
  rw [copyCell, hsrc, Option.bind_some]
  exact hset

/-! ### Loops -/

/-- After moving cells up by one, each is behind its old place, and the first place is left over. -/
theorem shiftRight_eq (front mid back : List α) (x : α) :
    ∃ a, shiftRight (front ++ (mid ++ x :: back)) front.length (front.length + mid.length) =
      some (front ++ a :: (mid ++ back)) := by
  -- the last cell is moved first, and is then part of what is behind the others
  induction mid using List.reverseRecOn generalizing x back with
  | nil => exact ⟨x, by simp [shiftRight]⟩
  | append_singleton mid m ih =>
      obtain ⟨a, ha⟩ := ih (m :: back) m
      refine ⟨a, ?_⟩
      have hcopy := copyCell_up (front ++ mid) back x m
      rw [List.append_assoc, List.append_assoc, List.length_append] at hcopy
      have hrange : List.range' front.length (mid.length + 1) =
          List.range' front.length mid.length ++ [front.length + mid.length] := by
        rw [List.range'_concat, Nat.one_mul]
      rw [shiftRight, Nat.add_sub_cancel_left] at ha ⊢
      rw [List.length_append, List.length_singleton, hrange, List.reverse_append,
        List.reverse_singleton, List.singleton_append, List.foldlM_cons, List.append_assoc,
        List.singleton_append, hcopy, Option.bind_eq_bind, Option.bind_some, ha, List.append_assoc,
        List.singleton_append]

/-- After moving cells down, they are in front of as many left-over cells as they jumped over. -/
theorem shiftLeft_eq (front keep back : List α) {gone : List α} (hgone : gone ≠ []) :
    ∃ rest : List α, rest.length = gone.length ∧
      shiftLeft (front ++ (gone ++ (keep ++ back))) front.length (front.length + keep.length)
        gone.length = some (front ++ (keep ++ (rest ++ back))) := by
  induction keep generalizing front gone with
  | nil => exact ⟨gone, rfl, by simp [shiftLeft]⟩
  | cons m keep ih =>
      obtain ⟨g, gone, rfl⟩ := List.exists_cons_of_ne_nil hgone
      have hne : gone ++ [m] ≠ [] := by simp
      obtain ⟨rest, hrest, hloop⟩ := ih (front ++ [m]) hne
      rw [List.length_append, List.length_singleton] at hrest hloop
      refine ⟨rest, by rw [hrest, List.length_cons], ?_⟩
      have hcopy := copyCell_down front gone (keep ++ back) g m
      rw [shiftLeft, Nat.add_sub_cancel_left] at hloop ⊢
      simp only [List.length_cons, List.cons_append]
      rw [List.range'_succ, List.foldlM_cons, hcopy, Option.bind_eq_bind, Option.bind_some]
      simpa [List.length_append] using hloop

theorem fill_eq (front old back : List α) (a : α) :
    fill (front ++ (old ++ back)) front.length (front.length + old.length) a =
      some (front ++ (List.replicate old.length a ++ back)) := by
  induction old generalizing front with
  | nil => simp [fill]
  | cons x old ih =>
      have hloop := ih (front ++ [a])
      rw [fill, Nat.add_sub_cancel_left] at hloop ⊢
      rw [List.length_cons, List.range'_succ, List.foldlM_cons, List.cons_append,
        setCell_mid, Option.bind_eq_bind, Option.bind_some]
      simpa [List.replicate_succ] using hloop

/-- **Insertion.**  Moving the cells from a place on up by one, and writing to the place. -/
theorem insert_eq (front mid back : List α) (x a : α) :
    ((shiftRight (front ++ (mid ++ x :: back)) front.length (front.length + mid.length)).bind
      fun cells => setCell cells front.length a) = some (front ++ a :: (mid ++ back)) := by
  obtain ⟨c, hc⟩ := shiftRight_eq front mid back x
  rw [hc, Option.bind_some, setCell_mid]

/-- **Removal.**  Moving cells down over others, and filling up behind them. -/
theorem remove_eq (front keep back : List α) {gone : List α} (hgone : gone ≠ []) (a : α) :
    ((shiftLeft (front ++ (gone ++ (keep ++ back))) front.length (front.length + keep.length)
      gone.length).bind fun cells =>
        fill cells (front.length + keep.length) (front.length + keep.length + gone.length) a) =
      some (front ++ (keep ++ (List.replicate gone.length a ++ back))) := by
  obtain ⟨rest, hrest, hshift⟩ := shiftLeft_eq front keep back hgone
  have hfill := fill_eq (front ++ keep) rest back a
  rw [hshift, Option.bind_some]
  simpa [hrest] using hfill

/-- Filling one cell is writing to it. -/
theorem fill_one (cells : List α) (pos : ℕ) (a : α) :
    fill cells pos (pos + 1) a = setCell cells pos a := by
  simp [fill]

/-! ### Ordered lists -/

section Cut

variable {p : α → Bool} {l : List α}

/-- Where a test fails from some element on, the elements that pass are the first ones. -/
theorem filter_eq_take (h : l.Pairwise fun a b => p b = true → p a = true) :
    l.filter p = l.take (l.findIdx fun a => !p a) := by
  induction l with
  | nil => rfl
  | cons a l ih =>
      obtain ⟨ha, hl⟩ := List.pairwise_cons.1 h
      cases hp : p a with
      | true => simp [List.findIdx_cons, hp, ih hl]
      | false =>
          have hnone : l.filter p = [] := by
            rw [List.filter_eq_nil_iff]
            intro b hb hpb
            rw [ha b hb hpb] at hp
            cases hp
          simp [List.findIdx_cons, hp, hnone]

theorem filter_not_eq_drop (h : l.Pairwise fun a b => p b = true → p a = true) :
    (l.filter fun a => !p a) = l.drop (l.findIdx fun a => !p a) := by
  induction l with
  | nil => rfl
  | cons a l ih =>
      obtain ⟨ha, hl⟩ := List.pairwise_cons.1 h
      cases hp : p a with
      | true => simp [List.findIdx_cons, hp, ih hl]
      | false =>
          have hall : (l.filter fun a => !p a) = l := by
            rw [List.filter_eq_self]
            intro b hb
            cases hpb : p b with
            | false => rfl
            | true =>
                rw [ha b hb hpb] at hp
                cases hp
          simp [List.findIdx_cons, hp, hall]

/-- Tests that agree on a list fail at the same place. -/
theorem findIdx_congr {q : α → Bool} (h : ∀ a ∈ l, p a = q a) : l.findIdx p = l.findIdx q := by
  induction l with
  | nil => rfl
  | cons a l ih =>
      have htail := ih fun b hb => h b (List.mem_cons_of_mem a hb)
      simp [List.findIdx_cons, h a List.mem_cons_self, htail]

end Cut

end Shifts
