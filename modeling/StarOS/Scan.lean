/-
Searching lists for words, and searching every front of a list that arrives an element at a time.

* `Scan.windows` — the parts of a list of a given length, from the first one on;
* `Scan.mem_windows` — a word is among the parts of its length exactly if it is contained;
* `Scan.find` — the place of the first part that is a word, with `Scan.find_eq_none` and
  `Scan.find_spec`;
* `Scan.find_concat` — a word that is completed by the last element is found at the end;
* `Scan.first` — the first result of a parser that is run again whenever an element arrives;
* `Scan.first_eq_some` — the front that gives it, if the parser finds what is in a part of its input
  also in the whole.
-/

import Mathlib.Data.List.Infix

set_option autoImplicit false

namespace Scan

universe u v

variable {α : Type u} {β : Type v}

/-! ### Words -/

/-- The parts of a list of length `n`, from the first one on. -/
def windows (n : ℕ) (l : List α) : List (List α) :=
  (List.range (l.length + 1 - n)).map fun i => (l.drop i).take n

theorem take_drop_isInfix (i n : ℕ) (l : List α) : (l.drop i).take n <:+: l :=
  ⟨l.take i, (l.drop i).drop n, by
    rw [List.append_assoc, List.take_append_drop, List.take_append_drop]⟩

/-- A word is among the parts of its length exactly if it is contained. -/
theorem mem_windows {w l : List α} : w ∈ windows w.length l ↔ w <:+: l := by
  rw [windows, List.mem_map]
  constructor
  · rintro ⟨i, -, hi⟩
    rw [← hi]
    exact take_drop_isInfix i _ l
  · rintro ⟨front, back, rfl⟩
    refine ⟨front.length, List.mem_range.2 ?_, ?_⟩
    · simp only [List.length_append]
      omega
    · rw [List.append_assoc, List.drop_left, List.take_left]

section Find

variable [DecidableEq α] {w l : List α} {a : α} {i : ℕ}

/-- The place of the first part that is a word. -/
def find (l w : List α) : Option ℕ := (windows w.length l).findIdx? fun v => v = w

theorem find_eq_none : find l w = none ↔ ¬ w <:+: l := by
  rw [find, List.findIdx?_eq_none_iff, ← mem_windows]
  constructor
  · intro h hw
    exact of_decide_eq_false (h w hw) rfl
  · intro h v hv
    refine decide_eq_false ?_
    rintro rfl
    exact h hv

/-- What is at the place that is found. -/
theorem find_spec (h : find l w = some i) :
    i + w.length ≤ l.length ∧ (l.drop i).take w.length = w := by
  obtain ⟨hlt, hat, -⟩ := List.findIdx?_eq_some_iff_getElem.1 h
  have hi : i < l.length + 1 - w.length := by
    rwa [windows, List.length_map, List.length_range] at hlt
  have hw := of_decide_eq_true hat
  simp only [windows, List.getElem_map, List.getElem_range] at hw
  exact ⟨by omega, hw⟩

/-- A word that is completed by the last element is found at the end. -/
theorem find_concat (hfree : ¬ w <:+: l) (h : find (l ++ [a]) w = some i) :
    (l ++ [a]).drop (i + w.length) = [] := by
  obtain ⟨hle, hat⟩ := find_spec h
  rw [List.length_append, List.length_singleton] at hle
  rw [List.drop_eq_nil_iff, List.length_append, List.length_singleton]
  by_contra hlt
  refine hfree ?_
  have hi : i ≤ l.length := by omega
  rw [List.drop_append_of_le_length hi, List.take_append_of_le_length
    (by rw [List.length_drop]; omega)] at hat
  rw [← hat]
  exact take_drop_isInfix i _ l

end Find

/-! ### Elements that arrive one at a time -/

/-- The first result of a parser that is run again whenever an element arrives. -/
def first (p : List α → Option β) : List α → List α → Option β
  | _, [] => none
  | seen, a :: rest =>
      match p (seen ++ [a]) with
      | some b => some b
      | none => first p (seen ++ [a]) rest

/-- The first result is that of the shortest front that has one. -/
theorem first_eq_some {p : List α → Option β} (hmono : ∀ l a, p (l ++ [a]) = none → p l = none)
    {seen rest : List α} {b : β} (hseen : p seen = none) :
    first p seen rest = some b ↔ ∃ front a back, rest = front ++ a :: back ∧
      p (seen ++ front) = none ∧ p (seen ++ front ++ [a]) = some b := by
  induction rest generalizing seen with
  | nil =>
      refine ⟨fun h => (by cases h), fun ⟨front, a, back, h, _⟩ => ?_⟩
      exact absurd h.symm (List.append_ne_nil_of_right_ne_nil _ (List.cons_ne_nil _ _))
  | cons x rest ih =>
      rw [first]
      cases hx : p (seen ++ [x]) with
      | some c =>
          dsimp only
          constructor
          · intro h
            refine ⟨[], x, rest, rfl, ?_, ?_⟩
            · rwa [List.append_nil]
            · rw [List.append_nil, hx, h]
          · rintro ⟨front, a, back, heq, hnone, hsome⟩
            cases front with
            | nil =>
                obtain ⟨rfl, rfl⟩ := List.cons.inj heq
                rw [List.append_nil, hx] at hsome
                exact hsome
            | cons y front =>
                obtain ⟨rfl, rfl⟩ := List.cons.inj heq
                -- What the front has, everything behind it would have.
                have hback : ∀ l, p (seen ++ x :: l) = none → p (seen ++ [x]) = none := by
                  intro l
                  induction l using List.reverseRecOn with
                  | nil => exact fun h => h
                  | append_singleton l a ih =>
                      intro h
                      refine ih (hmono _ a ?_)
                      rwa [List.append_assoc]
                rw [hback front hnone] at hx
                cases hx
      | none =>
          dsimp only
          rw [ih hx]
          constructor
          · rintro ⟨front, a, back, rfl, hnone, hsome⟩
            refine ⟨x :: front, a, back, rfl, ?_, ?_⟩
            · rwa [List.append_assoc] at hnone
            · rwa [List.append_assoc seen [x] front] at hsome
          · rintro ⟨front, a, back, heq, hnone, hsome⟩
            cases front with
            | nil =>
                obtain ⟨rfl, rfl⟩ := List.cons.inj heq
                rw [List.append_nil, hx] at hsome
                cases hsome
            | cons y front =>
                obtain ⟨rfl, rfl⟩ := List.cons.inj heq
                refine ⟨front, a, back, rfl, ?_, ?_⟩
                · rwa [List.append_assoc]
                · rwa [List.append_assoc seen [x] front]

end Scan
