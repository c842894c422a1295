/-
Tables of slots that are searched from the first one on.

* `Slots.first` — the first slot that passes a test;
* `Slots.first_eq_some`, `Slots.first_eq_none` — what is found, and when nothing is;
* `Slots.first_of_unique` — the only slot that passes is found;
* `Slots.exists_unused` — a table is too small for the values that its slots determine.
-/

import Mathlib.Data.Fintype.Card
import Mathlib.Data.Fintype.Basic
import Mathlib.Data.List.FinRange

set_option autoImplicit false

namespace Slots

variable {n m : ℕ} {p : Fin n → Bool} {i : Fin n}

/-- The first slot that passes the test. -/
def first (p : Fin n → Bool) : Option (Fin n) := (List.finRange n).find? p

theorem first_eq_some (h : first p = some i) : p i = true := List.find?_some h

/-- The slot that is found passes, and none before it does. -/
theorem first_eq_some_iff : first p = some i ↔ p i = true ∧ ∀ j < i, p j = false := by
  rw [first, List.find?_eq_some_iff_getElem]
  refine and_congr_right fun _ => ⟨?_, fun h => ?_⟩
  · rintro ⟨k, hk, hki, hbefore⟩ j hj
    rw [List.getElem_finRange] at hki
    have hval : k = i.val := congrArg Fin.val hki
    have hjk := hbefore j.val (by rw [hval]; exact hj)
    rw [List.getElem_finRange] at hjk
    rwa [Bool.not_eq_true'] at hjk
  · refine ⟨i.val, by rw [List.length_finRange]; exact i.isLt, ?_, fun j hj => ?_⟩
    · rw [List.getElem_finRange]
      rfl
    · rw [List.getElem_finRange, Bool.not_eq_true']
      exact h ⟨j, Nat.lt_trans hj i.isLt⟩ hj

theorem first_eq_none : first p = none ↔ ∀ i, p i = false := by
  rw [first, List.find?_eq_none]
  constructor
  · intro h i
    exact Bool.eq_false_iff.2 (h i (List.mem_finRange i))
  · intro h i _
    rw [h i]
    exact Bool.false_ne_true

theorem exists_first (h : p i = true) : ∃ j, first p = some j := by
  cases hf : first p with
  | some j => exact ⟨j, rfl⟩
  | none =>
      rw [first_eq_none.1 hf i] at h
      cases h

/-- The only slot that passes the test is found. -/
theorem first_of_unique (h : p i = true) (hall : ∀ j, p j = true → j = i) :
    first p = some i := by
  obtain ⟨j, hj⟩ := exists_first h
  rw [hj, hall j (first_eq_some hj)]

/-- More values than slots cannot all be in use, if a slot determines the value that it uses. -/
theorem exists_unused {used : Fin m → Prop} {slot : Fin m → Fin n → Prop}
    (hslot : ∀ k, used k → ∃ i, slot k i) (hinj : ∀ k l i, slot k i → slot l i → k = l)
    (hlt : n < m) : ∃ k, ¬ used k := by
  by_contra hall
  have hused : ∀ k, used k := fun k => not_not.1 fun hk => hall ⟨k, hk⟩
  choose f hf using fun k => hslot k (hused k)
  have hle := Fintype.card_le_of_injective f fun k l hkl => hinj k l (f k) (hf k) (hkl ▸ hf l)
  rw [Fintype.card_fin, Fintype.card_fin] at hle
  omega

end Slots
