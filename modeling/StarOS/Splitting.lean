/-
Splitting lists at a doubled element.

A list is split wherever the element `c` stands twice in a row, from the left and without overlaps,
as text is split at a separator of two characters.  Joining the parts again gives the list, and a
list that was joined from parts is split into them, if none of them has two `c` in a row or ends in
one.

* `Splitting.splitDouble` — the parts;
* `Splitting.NoDouble` — no two `c` stand in a row;
* `Splitting.intercalate_splitDouble`, `Splitting.splitDouble_append` — joining and splitting;
* `Splitting.noDouble_intercalate` — parts joined by single `c`;
* `Splitting.length_splitOn` — the number of parts between single elements.
-/

import Mathlib.Data.List.Chain
import Mathlib.Data.Nat.Notation
import Mathlib.Tactic.Cases

set_option autoImplicit false

namespace Splitting

universe u

variable {α : Type u} {c : α}

/-! ### Lists without a doubled element -/

/-- No two `c` stand in a row. -/
def NoDouble (c : α) (l : List α) : Prop := l.IsChain fun x y => ¬ (x = c ∧ y = c)

/-- A list without `c`, in front of one. -/
theorem noDouble_append {p m : List α} (hp : c ∉ p) (hm : NoDouble c (c :: m)) :
    NoDouble c (p ++ c :: m) := by
  induction p with
  | nil => exact hm
  | cons x p ih =>
      rw [List.mem_cons, not_or] at hp
      refine List.isChain_cons.2 ⟨fun y _ hxy => hp.1 hxy.1.symm, ih hp.2⟩

/-- Joining nonempty parts without `c`. -/
theorem noDouble_cons_intercalate {ps : List (List α)} (hne : ps ≠ [])
    (h : ∀ p ∈ ps, p ≠ [] ∧ c ∉ p) : NoDouble c (c :: ([c].intercalate ps ++ [c])) := by
  -- a nonempty part begins with another element
  have hcons : ∀ p m, p ≠ [] ∧ c ∉ p → NoDouble c (c :: m) → NoDouble c (c :: (p ++ c :: m)) := by
    rintro (_ | ⟨x, p⟩) m ⟨hne, hp⟩ hm
    · exact absurd rfl hne
    · have hx : x ≠ c := fun hx => hp (hx ▸ List.mem_cons_self)
      exact List.isChain_cons_cons.2 ⟨fun hcx => hx hcx.2, noDouble_append hp hm⟩
  induction ps with
  | nil => exact absurd rfl hne
  | cons p ps ih =>
      have hp := h p List.mem_cons_self
      cases ps with
      | nil =>
          rw [List.intercalate_singleton]
          exact hcons p [] hp (.singleton c)
      | cons q ps =>
          have hrest := ih (List.cons_ne_nil q ps) fun r hr => h r (List.mem_cons_of_mem p hr)
          rw [List.intercalate_cons_cons, List.append_assoc, List.append_assoc]
          exact hcons p _ hp hrest

theorem noDouble_intercalate {ps : List (List α)} (h : ∀ p ∈ ps, p ≠ [] ∧ c ∉ p) :
    NoDouble c ([c].intercalate ps ++ [c]) := by
  cases ps with
  | nil => exact .singleton c
  | cons p ps => exact (noDouble_cons_intercalate (List.cons_ne_nil p ps) h).tail

/-! ### Splitting at a doubled element -/

variable [DecidableEq α]

/-- The parts of a list between two `c` in a row. -/
def splitDouble (c : α) : List α → List (List α)
  | [] => [[]]
  | [x] => [[x]]
  | x :: y :: l =>
      if x = c ∧ y = c then [] :: splitDouble c l else (splitDouble c (y :: l)).modifyHead (x :: ·)

theorem splitDouble_ne_nil (l : List α) : splitDouble c l ≠ [] := by
  induction l using splitDouble.induct c with
  | case1 => exact List.cons_ne_nil _ _
  | case2 x => exact List.cons_ne_nil _ _
  | case3 x y l h _ =>
      rw [splitDouble, if_pos h]
      exact List.cons_ne_nil _ _
  | case4 x y l h ih =>
      rw [splitDouble, if_neg h]
      intro hnil
      cases hparts : splitDouble c (y :: l) with
      | nil => exact ih hparts
      | cons p ps =>
          rw [hparts] at hnil
          exact List.cons_ne_nil _ _ hnil

/-- Joining the parts. -/
theorem intercalate_splitDouble (l : List α) : [c, c].intercalate (splitDouble c l) = l := by
  induction l using splitDouble.induct c with
  | case1 => rfl
  | case2 x => rfl
  | case3 x y l h ih =>
      obtain ⟨rfl, rfl⟩ := h
      rw [splitDouble, if_pos ⟨rfl, rfl⟩]
      cases hparts : splitDouble y l with
      | nil => exact absurd hparts (splitDouble_ne_nil l)
      | cons p ps => rw [List.intercalate_cons_cons, ← hparts, ih]; rfl
  | case4 x y l h ih =>
      rw [splitDouble, if_neg h]
      cases hparts : splitDouble c (y :: l) with
      | nil => exact absurd hparts (splitDouble_ne_nil _)
      | cons p ps =>
          rw [hparts] at ih
          cases ps with
          | nil =>
              rw [List.intercalate_singleton] at ih
              rw [List.modifyHead_cons, List.intercalate_singleton, ih]
          | cons q ps =>
              rw [List.intercalate_cons_cons] at ih
              rw [List.modifyHead_cons, List.intercalate_cons_cons, ← ih]
              rfl

/-- A list without two `c` in a row is its only part. -/
theorem splitDouble_of_noDouble {l : List α} (h : NoDouble c l) : splitDouble c l = [l] := by
  induction l using splitDouble.induct c with
  | case1 => rfl
  | case2 x => rfl
  | case3 x y l hdouble _ => exact absurd hdouble (List.isChain_cons_cons.1 h).1
  | case4 x y l hdouble ih =>
      rw [splitDouble, if_neg hdouble, ih (List.isChain_cons_cons.1 h).2]
      rfl

/-- Two `c` behind a list that has none in a row and does not end in one. -/
theorem splitDouble_append {l : List α} (h : NoDouble c (l ++ [c])) (m : List α) :
    splitDouble c (l ++ c :: c :: m) = l :: splitDouble c m := by
  induction l with
  | nil => exact if_pos ⟨rfl, rfl⟩
  | cons x l ih =>
      cases l with
      | nil =>
          have hx : x ≠ c := fun hx => (List.isChain_cons_cons.1 h).1 ⟨hx, rfl⟩
          change splitDouble c (x :: c :: c :: m) = _
          rw [splitDouble, if_neg fun h => hx h.1, splitDouble, if_pos ⟨rfl, rfl⟩]
          rfl
      | cons y l =>
          have hxy := List.isChain_cons_cons.1 h
          have hrest := ih hxy.2
          change splitDouble c (x :: y :: (l ++ c :: c :: m)) = _
          rw [splitDouble, if_neg hxy.1]
          change (splitDouble c (y :: l ++ c :: c :: m)).modifyHead (x :: ·) = _
          rw [hrest]
          rfl

/-- The first part is one that the list begins with. -/
theorem prefix_of_splitDouble {l p : List α} {ps : List (List α)}
    (h : splitDouble c l = p :: ps) : p <+: l := by
  have hjoin := intercalate_splitDouble (c := c) l
  rw [h] at hjoin
  cases ps with
  | nil =>
      rw [List.intercalate_singleton] at hjoin
      exact ⟨[], by rw [hjoin, List.append_nil]⟩
  | cons q ps =>
      rw [List.intercalate_cons_cons, List.append_assoc] at hjoin
      exact ⟨_, hjoin⟩

/-- No part has two `c` in a row. -/
theorem noDouble_of_mem_splitDouble {l p : List α} (hp : p ∈ splitDouble c l) : NoDouble c p := by
  induction l using splitDouble.induct c generalizing p with
  | case1 =>
      rw [List.mem_singleton.1 hp]
      exact .nil
  | case2 x =>
      rw [List.mem_singleton.1 hp]
      exact .singleton x
  | case3 x y l h ih =>
      rw [splitDouble, if_pos h] at hp
      rcases List.mem_cons.1 hp with rfl | hp
      · exact .nil
      · exact ih hp
  | case4 x y l h ih =>
      rw [splitDouble, if_neg h] at hp
      cases hparts : splitDouble c (y :: l) with
      | nil => exact absurd hparts (splitDouble_ne_nil _)
      | cons q qs =>
          rw [hparts, List.modifyHead_cons] at hp
          rcases List.mem_cons.1 hp with rfl | hp
          · have hq : NoDouble c q := ih (by rw [hparts]; exact List.mem_cons_self)
            obtain ⟨rest, hrest⟩ := prefix_of_splitDouble hparts
            cases q with
            | nil => exact .singleton x
            | cons z q =>
                obtain rfl : z = y := (List.cons.inj hrest).1
                exact List.isChain_cons_cons.2 ⟨h, hq⟩
          · exact ih (by rw [hparts]; exact List.mem_cons_of_mem q hp)

/-! ### Splitting at single elements -/

/-- The number of parts. -/
theorem length_splitOn (l : List α) : (l.splitOn c).length = l.count c + 1 := by
  induction l with
  | nil => rfl
  | cons x l ih =>
      rw [List.splitOn_cons_eq_if_modifyHead, List.count_cons]
      split
      · rw [List.length_cons, ih]
      · rw [List.length_modifyHead, ih, Nat.add_zero]

end Splitting
