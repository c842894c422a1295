/-
Counting the indices at which a test holds, while the test changes at one index.

* `Counting.card_filter_lt`, `Counting.card_filter_pos` — an index at which the test fails is left
  out, and one at which it holds is counted;
* `Counting.card_filter_succ`, `Counting.card_filter_add` — the count before and after a change.
-/

import Mathlib.Data.Fintype.Card
import Mathlib.Data.Fintype.Basic

set_option autoImplicit false

namespace Counting

variable {ι : Type} [Fintype ι] {p q : ι → Bool} {c : ι}

/-- An index at which the test fails is not counted. -/
theorem card_filter_lt (hp : p c = false) :
    (Finset.univ.filter fun j => p j = true).card < Fintype.card ι := by
  refine Finset.card_lt_univ_of_notMem (x := c) ?_
  simp [hp]

/-- An index at which the test holds is counted. -/
theorem card_filter_pos (hp : p c = true) :
    0 < (Finset.univ.filter fun j => p j = true).card := by
  refine Finset.card_pos.2 ⟨c, ?_⟩
  simp [hp]

variable [DecidableEq ι]

/-- One more index satisfies a test. -/
theorem card_filter_succ (hsame : ∀ j, j ≠ c → q j = p j) (hp : p c = false)
    (hq : q c = true) :
    (Finset.univ.filter fun j => q j = true).card =
      (Finset.univ.filter fun j => p j = true).card + 1 := by
  have hinsert : (Finset.univ.filter fun j => q j = true) =
      insert c (Finset.univ.filter fun j => p j = true) := by
    ext j
    rw [Finset.mem_insert, Finset.mem_filter, Finset.mem_filter]
    by_cases hj : j = c
    · subst hj
      simp [hq]
    · simp [hj, hsame j hj]
  rw [hinsert, Finset.card_insert_of_notMem]
  simp [hp]

/-- A test that changes at one index only. -/
theorem card_filter_add (hsame : ∀ j, j ≠ c → q j = p j) :
    (Finset.univ.filter fun j => q j = true).card + (p c).toNat =
      (Finset.univ.filter fun j => p j = true).card + (q c).toNat := by
  by_cases hc : q c = p c
  · have heq : q = p := by
      funext j
      by_cases hj : j = c
      · rw [hj, hc]
      · exact hsame j hj
    rw [heq]
  · cases hp : p c with
    | false =>
        have hq : q c = true := eq_true_of_ne_false (hp ▸ hc)
        rw [hq]
        exact card_filter_succ hsame hp hq
    | true =>
        have hq : q c = false := eq_false_of_ne_true (hp ▸ hc)
        rw [hq]
        exact (card_filter_succ (fun j hj => (hsame j hj).symm) hq hp).symm

end Counting
