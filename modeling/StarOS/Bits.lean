/-
Sequences of bits in an array of words, the low bits of a word first.

* `Bits.bitAt` — bit `n`;
* `Bits.bitAt_append_zeros`, `Bits.bitAt_push`, `Bits.bitAt_modify` — the bits after zeros or a word
  were written behind the others, and after bits of a word were set.
-/

import Mathlib.Data.Nat.Notation

set_option autoImplicit false

namespace Bits

variable {w : ℕ}

/-- Bit `n`; behind the last word all are zero. -/
def bitAt (words : List (BitVec w)) (n : ℕ) : Bool := (words.getD (n / w) 0#w).getLsbD (n % w)

theorem bitAt_nil (n : ℕ) : bitAt ([] : List (BitVec w)) n = false := BitVec.getLsbD_zero

theorem bitAt_eq {words : List (BitVec w)} {k : ℕ} {b : BitVec w} (h : words[k]? = some b) {i : ℕ}
    (hi : i < w) : bitAt words (w * k + i) = b.getLsbD i := by
  have hdiv : (w * k + i) / w = k := by
    rw [Nat.mul_add_div (by omega), Nat.div_eq_of_lt hi, Nat.add_zero]
  rw [bitAt, hdiv, Nat.mul_add_mod, Nat.mod_eq_of_lt hi, List.getD_eq_getElem?_getD, h]
  rfl

theorem bitAt_append_zeros (words : List (BitVec w)) (m n : ℕ) :
    bitAt (words ++ List.replicate m 0#w) n = bitAt words n := by
  rw [bitAt, bitAt, List.getD_eq_getElem?_getD, List.getD_eq_getElem?_getD, List.getElem?_append]
  split
  · rfl
  · rename_i hle
    rw [List.getElem?_eq_none (Nat.le_of_not_lt hle), List.getElem?_replicate]
    split <;> rfl

theorem bitAt_push (words : List (BitVec w)) (b : BitVec w) (n : ℕ) :
    bitAt (words ++ [b]) n =
      (bitAt words n || (decide (n / w = words.length) && b.getLsbD (n % w))) := by
  rw [bitAt, bitAt, List.getD_eq_getElem?_getD, List.getD_eq_getElem?_getD, List.getElem?_append]
  rcases Nat.lt_trichotomy (n / w) words.length with hlt | heq | hgt
  · rw [if_pos hlt, decide_eq_false (Nat.ne_of_lt hlt), Bool.false_and, Bool.or_false]
  · rw [if_neg (by omega), heq, List.getElem?_eq_none (Nat.le_refl _), Nat.sub_self,
      decide_eq_true rfl, Bool.true_and]
    change _ = (BitVec.getLsbD 0#w _ || _)
    rw [BitVec.getLsbD_zero, Bool.false_or]
    rfl
  · have hlen : [b].length ≤ n / w - words.length := by
      rw [List.length_singleton]
      omega
    rw [if_neg (by omega), decide_eq_false (Nat.ne_of_gt hgt), Bool.false_and, Bool.or_false,
      List.getElem?_eq_none hlen, List.getElem?_eq_none (Nat.le_of_lt hgt)]

theorem bitAt_modify (words : List (BitVec w)) {k : ℕ} (hk : k < words.length) (c : BitVec w)
    (n : ℕ) :
    bitAt (words.modify k fun b => b ||| c) n =
      (bitAt words n || (decide (n / w = k) && c.getLsbD (n % w))) := by
  rw [bitAt, bitAt, List.getD_eq_getElem?_getD, List.getD_eq_getElem?_getD, List.getElem?_modify]
  by_cases heq : k = n / w
  · subst heq
    rw [decide_eq_true rfl, Bool.true_and, List.getElem?_eq_getElem hk]
    change BitVec.getLsbD ((fun a => if n / w = n / w then a ||| c else a) _) _ = _
    dsimp only
    rw [if_pos rfl, BitVec.getLsbD_or]
    rfl
  · rw [decide_eq_false fun h => heq h.symm, Bool.false_and, Bool.or_false]
    cases words[n / w]? with
    | none => rfl
    | some b => exact congrArg (BitVec.getLsbD · _) (if_neg heq)

end Bits
