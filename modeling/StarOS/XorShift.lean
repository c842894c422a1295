/-
Xorshift: a word xored with itself, shifted.

Xoring a word with itself shifted by at least one place can be undone: from the end at which the
shift fills in zeros, each bit of the result gives one more bit of the word.  So these maps, and what
is composed of them, permute the words.

* `XorShift.left`, `XorShift.right` — the two maps;
* `XorShift.left_bijective`, `XorShift.right_bijective` — both are permutations.
-/

import Mathlib.Data.BitVec
import Mathlib.Data.FinEnum

set_option autoImplicit false

namespace XorShift

variable {w k : ℕ}

/-- `x ^ (x << k)`. -/
def left (k : ℕ) (x : BitVec w) : BitVec w := x ^^^ (x <<< k)

/-- `x ^ (x >> k)`. -/
def right (k : ℕ) (x : BitVec w) : BitVec w := x ^^^ (x >>> k)

theorem left_injective (hk : 0 < k) : Function.Injective (left k : BitVec w → BitVec w) := by
  intro x y h
  have hbits : ∀ n i, i < n → i < w → x.getLsbD i = y.getLsbD i := by
    intro n
    induction n with
    | zero => intro i hi; omega
    | succ n ih =>
        -- from the low end: the shifted word has only lower bits of the word at place `i`
        intro i hi hw
        have hbit : (left k x).getLsbD i = (left k y).getLsbD i := by rw [h]
        simp only [left, BitVec.getLsbD_xor, BitVec.getLsbD_shiftLeft] at hbit
        by_cases hik : i < k
        · simpa [hik] using hbit
        · rw [ih (i - k) (by omega) (by omega)] at hbit
          exact Bool.xor_left_inj.1 hbit
  exact BitVec.eq_of_getLsbD_eq fun i hi => hbits (i + 1) i (Nat.lt_succ_self i) hi

theorem right_injective (hk : 0 < k) : Function.Injective (right k : BitVec w → BitVec w) := by
  intro x y h
  have hbits : ∀ n i, w ≤ i + n → x.getLsbD i = y.getLsbD i := by
    intro n
    induction n with
    | zero =>
        intro i hi
        rw [BitVec.getLsbD_of_ge x i hi, BitVec.getLsbD_of_ge y i hi]
    | succ n ih =>
        -- from the high end
        intro i hi
        have hbit : (right k x).getLsbD i = (right k y).getLsbD i := by rw [h]
        simp only [right, BitVec.getLsbD_xor, BitVec.getLsbD_ushiftRight] at hbit
        rw [ih (k + i) (by omega)] at hbit
        exact Bool.xor_left_inj.1 hbit
  exact BitVec.eq_of_getLsbD_eq fun i _ => hbits w i (Nat.le_add_left w i)

theorem left_bijective (hk : 0 < k) : Function.Bijective (left k : BitVec w → BitVec w) :=
  Finite.injective_iff_bijective.1 (left_injective hk)

theorem right_bijective (hk : 0 < k) : Function.Bijective (right k : BitVec w → BitVec w) :=
  Finite.injective_iff_bijective.1 (right_injective hk)

end XorShift
