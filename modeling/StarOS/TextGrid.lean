/-
Text laid out in the rows of a grid.

A text is written into a grid of `n` columns from its first row on.  A line break ends the row, and
so does the `n`-th element of a row, at once: a line of exactly `n` elements is followed by an empty
row.  The rows are those of the paragraphs between the line breaks, each broken after every `n`
elements; a cursor that walks over the text visits the places of these rows, one after the other.

* `TextGrid.rows`, `TextGrid.cell` — the rows, and what stands in a place of the grid;
* `TextGrid.places` — the walk of the cursor;
* `TextGrid.filterMap_places` — the walk visits each place of the grid once, with what stands there;
* `TextGrid.foldl_places` — changes made along the walk.
-/

import Mathlib.Logic.Basic
import Mathlib.Data.Nat.Notation
import Mathlib.Tactic.Cases

set_option autoImplicit false

namespace TextGrid

universe u v

variable {α : Type u} {n : ℕ}

/-- A paragraph, broken after every `n` elements. -/
def wrap (n : ℕ) (l : List α) : List (List α) :=
  (List.range (l.length / n + 1)).map fun i => (l.drop (i * n)).take n

section Grid

variable [DecidableEq α]

/-- The rows of a text whose paragraphs end at `nl`. -/
def rows (nl : α) (n : ℕ) (l : List α) : List (List α) := (l.splitOn nl).flatMap (wrap n)

/-- What stands in column `c` of row `r`. -/
def cell (nl : α) (n : ℕ) (l : List α) (r c : ℕ) : Option α :=
  (rows nl n l)[r]?.bind fun row => row[c]?

/-- The places that a cursor visits from column `c` of row `r` on, with what is written there. -/
def places (nl : α) (n : ℕ) : ℕ → ℕ → List α → List ((ℕ × ℕ) × α)
  | _, _, [] => []
  | r, c, x :: l =>
      if x = nl then places nl n (r + 1) 0 l
      else ((r, c), x) :: if c + 1 < n then places nl n r (c + 1) l else places nl n (r + 1) 0 l

end Grid

/-! ### Rows -/

section Rows

theorem wrap_of_lt {l : List α} (h : l.length < n) : wrap n l = [l] := by
  have hzero : l.length / n = 0 := Nat.div_eq_of_lt h
  simp [wrap, hzero, List.take_of_length_le (Nat.le_of_lt h)]

/-- A full row is broken off. -/
theorem wrap_append {p : List α} (hn : 0 < n) (hp : p.length = n) (l : List α) :
    wrap n (p ++ l) = p :: wrap n l := by
  have hlen : (p ++ l).length / n = l.length / n + 1 := by
    rw [List.length_append, hp, Nat.add_comm, Nat.add_div_right _ hn]
  rw [wrap, wrap, hlen, List.range_succ_eq_map, List.map_cons, List.map_map]
  have hhead : ((p ++ l).drop (0 * n)).take n = p := by simp [← hp]
  rw [hhead]
  refine congrArg (List.cons p) (List.map_congr_left fun i _ => ?_)
  · have hdrop : (p ++ l).drop ((i + 1) * n) = l.drop (i * n) := by
      rw [Nat.succ_mul, Nat.add_comm, ← hp, ← List.drop_drop, List.drop_left]
    exact congrArg (List.take n) hdrop

variable [DecidableEq α] {nl : α}

theorem splitOn_append {p : List α} (hp : nl ∉ p) (l : List α) :
    (p ++ l).splitOn nl = (l.splitOn nl).modifyHead (p ++ ·) := by
  induction p with
  | nil =>
      rw [List.nil_append]
      cases l.splitOn nl with
      | nil => rfl
      | cons q qs => rfl
  | cons x p ih =>
      rw [List.mem_cons, not_or] at hp
      have hx : ¬(x == nl) = true := by simpa using Ne.symm hp.1
      rw [List.cons_append, List.splitOn_cons_eq_if_modifyHead, if_neg hx, ih hp.2,
        List.modifyHead_modifyHead]
      rfl

/-- A part of a row is a row of its own. -/
theorem rows_of_lt {p : List α} (hp : nl ∉ p) (hlt : p.length < n) : rows nl n p = [p] := by
  have hsplit : p.splitOn nl = [p] := by
    have happ := splitOn_append hp ([] : List α)
    simpa using happ
  simp [rows, hsplit, wrap_of_lt hlt]

theorem rows_newline {p : List α} (hp : nl ∉ p) (hlt : p.length < n) (l : List α) :
    rows nl n (p ++ nl :: l) = p :: rows nl n l := by
  rw [rows, splitOn_append hp, List.splitOn_cons_eq_if_modifyHead, if_pos (beq_self_eq_true nl),
    List.modifyHead_cons, List.append_nil, List.flatMap_cons, wrap_of_lt hlt, List.singleton_append,
    rows]

theorem rows_full {p : List α} (hn : 0 < n) (hp : nl ∉ p) (hlen : p.length = n) (l : List α) :
    rows nl n (p ++ l) = p :: rows nl n l := by
  rw [rows, splitOn_append hp, rows]
  cases hsplit : l.splitOn nl with
  | nil => exact absurd hsplit (List.splitOn_ne_nil _ _)
  | cons q qs =>
      rw [List.modifyHead_cons, List.flatMap_cons, List.flatMap_cons, wrap_append hn hlen,
        List.cons_append]

/-- A part of a row begins the first row. -/
theorem rows_append {p : List α} (hp : nl ∉ p) (hle : p.length ≤ n) (l : List α) :
    ∃ q qs, rows nl n (p ++ l) = (p ++ q) :: qs := by
  rw [rows, splitOn_append hp]
  cases hsplit : l.splitOn nl with
  | nil => exact absurd hsplit (List.splitOn_ne_nil _ _)
  | cons q qs =>
      rw [List.modifyHead_cons, List.flatMap_cons, wrap, List.range_succ_eq_map, List.map_cons,
        List.cons_append, Nat.zero_mul, List.drop_zero, List.take_append, List.take_of_length_le hle]
      exact ⟨_, _, rfl⟩

end Rows

/-! ### The walk of the cursor -/

section Walk

variable [DecidableEq α] {nl : α} {p : List α}

/-- The cursor never goes back to an earlier row. -/
theorem le_of_mem_places {r c : ℕ} {l : List α} {q : (ℕ × ℕ) × α}
    (hq : q ∈ places nl n r c l) : r ≤ q.1.1 := by
  induction l generalizing r c with
  | nil => cases hq
  | cons x l ih =>
      rw [places] at hq
      split at hq
      · exact Nat.le_of_succ_le (ih hq)
      · rcases List.mem_cons.1 hq with rfl | hq
        · exact Nat.le_refl _
        · split at hq
          · exact ih hq
          · exact Nat.le_of_succ_le (ih hq)

/-- What the walk writes in one place. -/
def writtenAt (R C : ℕ) (q : (ℕ × ℕ) × α) : Option α := if q.1 = (R, C) then some q.2 else none

/-- Behind a row that has ended, the walk goes on in the next one. -/
theorem filterMap_next_row {row l m : List α} (hrows : rows nl n m = row :: rows nl n l) {r : ℕ}
    (R C : ℕ)
    (hnext : (places nl n (r + 1) 0 l).filterMap (writtenAt R C) =
      if r + 1 ≤ R then (cell nl n l (R - (r + 1)) C).toList else []) :
    (places nl n (r + 1) 0 l).filterMap (writtenAt R C) =
      if r ≤ R ∧ (R = r → row.length ≤ C) then (cell nl n m (R - r) C).toList else [] := by
  rw [hnext]
  by_cases hlt : r + 1 ≤ R
  · have hsplit : R - r = R - (r + 1) + 1 := by omega
    rw [if_pos hlt, if_pos ⟨by omega, by omega⟩, cell, cell, hrows, hsplit, List.getElem?_cons_succ]
  · rw [if_neg hlt]
    split
    · next h =>
        have hR : R = r := by omega
        have hnone : row[C]? = none := List.getElem?_eq_none (h.2 hR)
        rw [cell, hrows, hR, Nat.sub_self, List.getElem?_cons_zero, Option.bind_some, hnone,
          Option.toList_none]
    · rfl

/-- From behind the part `p` of a row on, the walk visits each place once: nothing is written in the
places before, and behind them what stands there in the grid. -/
theorem filterMap_places (hn : 0 < n) (hp : nl ∉ p) (hlt : p.length < n) (r R C : ℕ) (l : List α) :
    (places nl n r p.length l).filterMap (writtenAt R C) =
      if r ≤ R ∧ (R = r → p.length ≤ C) then (cell nl n (p ++ l) (R - r) C).toList else [] := by
  induction l generalizing r p with
  | nil =>
      have hcell : r ≤ R ∧ (R = r → p.length ≤ C) → cell nl n p (R - r) C = none := by
        rintro ⟨hr, hC⟩
        rw [cell, rows_of_lt hp hlt]
        rcases Nat.eq_or_lt_of_le hr with rfl | hr
        · simpa using hC rfl
        · have hpos : R - r = R - r - 1 + 1 := by omega
          rw [hpos]
          rfl
      split
      · next h => simp [places, hcell h]
      · rfl
  | cons x l ih =>
      have hnext := ih (p := []) List.not_mem_nil hn (r + 1)
      simp only [List.length_nil, List.nil_append, Nat.zero_le, implies_true, and_true] at hnext
      rw [places]
      split
      · next hx =>
          -- the line break ends the row
          subst hx
          exact filterMap_next_row (rows_newline hp hlt l) R C hnext
      · next hx =>
          have hpx : nl ∉ p ++ [x] := by simp [hp, Ne.symm hx]
          have happ : p ++ x :: l = (p ++ [x]) ++ l := by simp
          have htail : (if p.length + 1 < n then places nl n r (p.length + 1) l
                else places nl n (r + 1) 0 l).filterMap (writtenAt R C) =
              if r ≤ R ∧ (R = r → p.length + 1 ≤ C) then (cell nl n (p ++ x :: l) (R - r) C).toList
              else [] := by
            split
            · next hroom =>
                have hrest := ih hpx (by simpa using hroom) r
                rw [List.length_append, List.length_singleton] at hrest
                rw [happ]
                exact hrest
            · next hroom =>
                -- the row is full
                have hlen : (p ++ [x]).length = n := by simp; omega
                have hrest := filterMap_next_row (rows_full hn hpx hlen l) R C hnext
                rw [List.length_append, List.length_singleton] at hrest
                rw [happ]
                exact hrest
          by_cases hhere : R = r ∧ C = p.length
          · obtain ⟨rfl, rfl⟩ := hhere
            have hwritten : writtenAt R p.length ((R, p.length), x) = some x := if_pos rfl
            obtain ⟨q, qs, hrows⟩ := rows_append hpx (n := n) (by simp; omega) l
            have hcell : cell nl n (p ++ x :: l) (R - R) p.length = some x := by
              rw [happ, cell, hrows, Nat.sub_self, List.getElem?_cons_zero, Option.bind_some]
              simp
            rw [List.filterMap_cons_some hwritten, htail, hcell, if_neg (by omega),
              if_pos ⟨Nat.le_refl _, fun _ => Nat.le_refl _⟩, Option.toList_some]
          · have hwritten : writtenAt R C ((r, p.length), x) = none := by
              refine if_neg fun h => hhere ?_
              rw [Prod.mk.injEq] at h
              exact ⟨h.1.symm, h.2.symm⟩
            rw [List.filterMap_cons_none hwritten, htail]
            refine if_congr ?_ rfl rfl
            omega

/-- **Changes along the walk.**  What is changed only where the walk writes in one place is changed
by what stands there in the grid. -/
theorem foldl_places {β : Type v} (hn : 0 < n) (g : α → β → β) (R C : ℕ) (l : List α) (a : β) :
    (places nl n 0 0 l).foldl (fun a q => if q.1 = (R, C) then g q.2 a else a) a =
      (cell nl n l R C).elim a fun x => g x a := by
  have hwalk := filterMap_places hn (List.not_mem_nil : nl ∉ []) hn 0 R C l
  simp only [List.length_nil, List.nil_append, Nat.zero_le, implies_true, and_self, if_true,
    Nat.sub_zero] at hwalk
  have hfold : (places nl n 0 0 l).foldl (fun a q => if q.1 = (R, C) then g q.2 a else a) a =
      ((places nl n 0 0 l).filterMap (writtenAt R C)).foldl (fun a x => g x a) a := by
    rw [List.foldl_filterMap]
    refine congrArg (fun f => List.foldl f a (places nl n 0 0 l)) (funext fun a => funext fun q => ?_)
    rw [writtenAt]
    split <;> rfl
  rw [hfold, hwalk]
  cases cell nl n l R C <;> rfl

end Walk

end TextGrid
