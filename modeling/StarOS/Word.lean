/-
Machine words: the bit scans and the single-bit updates the kernel's bitmaps are made of.

`usize` and `u64` are 64 bits wide on the kernel's target (`aarch64-unknown-none`), and arithmetic
wraps in the release profile (`overflow-checks = false`); both are `BitVec 64` here.

* `StarOS.firstIndex` — the first index below a bound at which a test holds;
* `StarOS.trailingOnes`, `StarOS.trailingZeros`, `StarOS.nextPowerOfTwo` — the integer methods of
  the same names;
* `StarOS.setBit`, `StarOS.clearBit` — `w | (1 << i)` and `w & !(1 << i)`, with the bits they leave;
* `StarOS.eq_two_pow_of_and_sub_one`, `StarOS.toNat_and_not_mask` — the test for a power of two, and
  rounding down with a mask;
* `StarOS.or_eq_add` — an or as a sum.
-/

import Mathlib.Data.BitVec
import Mathlib.Data.Nat.Log

set_option autoImplicit false

namespace StarOS

/-- A `usize` (or `u64`) of the 64-bit target. -/
abbrev Usize := BitVec 64

/-- There are registers `x0` to `x30`. -/
instance neZero_thirtyOne : NeZero 31 := ⟨by decide⟩

/-! ### Bit scans -/

/-- The first index below `n` at which `p` holds, and `n` if there is none. -/
def firstIndex (p : ℕ → Bool) (n : ℕ) : ℕ := (List.range n).findIdx p

/-- The test holds at the index found. -/
theorem firstIndex_spec {p : ℕ → Bool} {n : ℕ} (h : firstIndex p n < n) :
    p (firstIndex p n) = true := by
  have hlt : (List.range n).findIdx p < (List.range n).length := by simpa [firstIndex] using h
  simpa [firstIndex] using List.findIdx_getElem (w := hlt)

/-- The test fails below the index found. -/
theorem firstIndex_min {p : ℕ → Bool} {n i : ℕ} (h : i < firstIndex p n) : p i = false := by
  have hlt : i < (List.range n).findIdx p := h
  simpa using List.not_of_lt_findIdx hlt

/-- The index found is the least one at which the test holds. -/
theorem firstIndex_le_of {p : ℕ → Bool} {n i : ℕ} (hp : p i = true) : firstIndex p n ≤ i := by
  by_contra h
  have := firstIndex_min (p := p) (n := n) (not_le.1 h)
  rw [hp] at this
  exact absurd this (by decide)

/-- `usize::trailing_ones`. -/
def trailingOnes (w : Usize) : ℕ := firstIndex (fun i => !w.getLsbD i) 64

/-- `u64::trailing_zeros`. -/
def trailingZeros (w : Usize) : ℕ := firstIndex (fun i => w.getLsbD i) 64

/-- `usize::next_power_of_two`: the least power of two that is not below `n`. -/
def nextPowerOfTwo (n : ℕ) : ℕ := 2 ^ Nat.clog 2 n

/-! ### Single bits -/

/-- `w | (1 << i)`. -/
def setBit (w : Usize) (i : ℕ) : Usize := w ||| (1#64 <<< i)

/-- `w & !(1 << i)`. -/
def clearBit (w : Usize) (i : ℕ) : Usize := w &&& ~~~(1#64 <<< i)

/-- The test `w & (1 << i) != 0`. -/
def testBit (w : Usize) (i : ℕ) : Bool := (w &&& (1#64 <<< i)) != 0#64

theorem getLsbD_one_shiftLeft {i : ℕ} (hi : i < 64) (j : ℕ) :
    (1#64 <<< i).getLsbD j = decide (j = i) := by
  rw [BitVec.getLsbD_shiftLeft]
  by_cases hj : j = i
  · subst hj; simp [hi]
  · by_cases hlt : j < i
    · simp [hlt, hj]
    · have h0 : j - i ≠ 0 := by omega
      simp [hj, hlt, BitVec.getLsbD_one, h0]

theorem setBit_getLsbD {w : Usize} {i : ℕ} (hi : i < 64) (j : ℕ) :
    (setBit w i).getLsbD j = (w.getLsbD j || decide (j = i)) := by
  rw [setBit, BitVec.getLsbD_or, getLsbD_one_shiftLeft hi]

theorem clearBit_getLsbD {w : Usize} {i : ℕ} (hi : i < 64) (j : ℕ) :
    (clearBit w i).getLsbD j = (w.getLsbD j && !decide (j = i)) := by
  rw [clearBit, BitVec.getLsbD_and, BitVec.getLsbD_not, getLsbD_one_shiftLeft hi]
  by_cases hj : j < 64
  · simp [hj]
  · have hw : w.getLsbD j = false := BitVec.getLsbD_of_ge _ _ (not_lt.1 hj)
    simp [hw]

theorem testBit_eq {w : Usize} {i : ℕ} (hi : i < 64) : testBit w i = w.getLsbD i := by
  have hbit : ∀ j, (w &&& (1#64 <<< i)).getLsbD j = (w.getLsbD j && decide (j = i)) := by
    intro j
    rw [BitVec.getLsbD_and, getLsbD_one_shiftLeft hi]
  cases hw : w.getLsbD i with
  | true =>
      have hne : w &&& (1#64 <<< i) ≠ 0#64 := by
        intro h0
        have := hbit i
        rw [h0, hw] at this
        simp at this
      simp [testBit, hne]
  | false =>
      have h0 : w &&& (1#64 <<< i) = 0#64 := by
        refine BitVec.eq_of_getLsbD_eq fun j _ => ?_
        rw [hbit]
        by_cases hj : j = i
        · simp [hj, hw]
        · simp [hj]
      simp [testBit, h0]

/-! ### What the scans find -/

/-- Below the count of trailing ones every bit is set. -/
theorem getLsbD_of_lt_trailingOnes {w : Usize} {i : ℕ} (h : i < trailingOnes w) :
    w.getLsbD i = true := by
  simpa using firstIndex_min h

/-- The bit that ends the trailing ones is clear. -/
theorem getLsbD_trailingOnes {w : Usize} (h : trailingOnes w < 64) :
    w.getLsbD (trailingOnes w) = false := by
  have hb := firstIndex_spec (p := fun i => !w.getLsbD i) h
  simpa [trailingOnes] using hb

/-- A word with no clear bit is all ones. -/
theorem eq_allOnes_iff {w : Usize} :
    w = BitVec.allOnes 64 ↔ ∀ i < 64, w.getLsbD i = true := by
  constructor
  · rintro rfl i hi
    rw [BitVec.getLsbD_allOnes, decide_eq_true hi]
  · intro h
    refine BitVec.eq_of_getLsbD_eq fun i hi => ?_
    rw [h i hi, BitVec.getLsbD_allOnes, decide_eq_true hi]

theorem trailingOnes_lt_iff {w : Usize} : trailingOnes w < 64 ↔ w ≠ BitVec.allOnes 64 := by
  constructor
  · intro h he
    have := getLsbD_trailingOnes h
    rw [eq_allOnes_iff.1 he _ h] at this
    exact absurd this (by decide)
  · intro h
    by_contra hge
    refine h (eq_allOnes_iff.2 fun i hi => getLsbD_of_lt_trailingOnes ?_)
    omega

/-- Below the count of trailing zeros every bit is clear. -/
theorem getLsbD_of_lt_trailingZeros {w : Usize} {i : ℕ} (h : i < trailingZeros w) :
    w.getLsbD i = false := firstIndex_min h

/-- The bit that ends the trailing zeros is set. -/
theorem getLsbD_trailingZeros {w : Usize} (h : trailingZeros w < 64) :
    w.getLsbD (trailingZeros w) = true := firstIndex_spec h

theorem trailingZeros_lt {w : Usize} (h : w ≠ 0#64) : trailingZeros w < 64 := by
  by_contra hge
  refine h (BitVec.eq_of_getLsbD_eq fun i hi => ?_)
  rw [getLsbD_of_lt_trailingZeros (w := w) (by omega)]
  simp

theorem trailingZeros_two_pow {k : ℕ} (hk : k < 64) :
    trailingZeros (BitVec.ofNat 64 (2 ^ k)) = k := by
  have hbit : ∀ i, (BitVec.ofNat 64 (2 ^ k)).getLsbD i = (decide (i < 64) && decide (k = i)) := by
    intro i
    rw [BitVec.getLsbD_ofNat, Nat.testBit_two_pow]
  have hself : (BitVec.ofNat 64 (2 ^ k)).getLsbD k = true := by
    rw [hbit, decide_eq_true hk, decide_eq_true rfl, Bool.and_self]
  have hle : trailingZeros (BitVec.ofNat 64 (2 ^ k)) ≤ k := firstIndex_le_of hself
  have hset := getLsbD_trailingZeros (lt_of_le_of_lt hle hk)
  rw [hbit, Bool.and_eq_true, decide_eq_true_eq, decide_eq_true_eq] at hset
  exact hset.2.symm

/-! ### Rounding up to a power of two -/

theorem le_nextPowerOfTwo (n : ℕ) : n ≤ nextPowerOfTwo n := Nat.le_pow_clog (by decide) n

theorem clog_le_of_le {n k : ℕ} (h : n ≤ 2 ^ k) : Nat.clog 2 n ≤ k := Nat.clog_le_of_le_pow h

theorem le_clog_of_le {n k : ℕ} (h : 2 ^ k ≤ n) : k ≤ Nat.clog 2 n := by
  rw [← Nat.clog_pow 2 k (by decide)]
  exact Nat.clog_mono_right 2 h

/-! ### Powers of two as masks -/

/-- `w & (w - 1) == 0` tests for a power of two. -/
theorem eq_two_pow_of_and_sub_one {w : Usize} (h0 : w ≠ 0#64) (h : w &&& (w - 1#64) = 0#64) :
    ∃ k < 64, w.toNat = 2 ^ k := by
  have hne : w.toNat ≠ 0 := fun hz => h0 (BitVec.eq_of_toNat_eq hz)
  have hpred : (w - 1#64).toNat = w.toNat - 1 := by
    rw [BitVec.toNat_sub]
    have := w.isLt
    simp only [BitVec.toNat_ofNat]
    omega
  have hand : w.toNat &&& (w.toNat - 1) = 0 := by
    rw [← hpred, ← BitVec.toNat_and, h]
    rfl
  obtain ⟨k, hk⟩ := Nat.ne_zero_and_sub_one_eq_zero_iff_isPowerOfTwo.1 ⟨hne, hand⟩
  refine ⟨k, ?_, hk⟩
  have hlt := w.isLt
  rw [hk] at hlt
  exact (Nat.pow_lt_pow_iff_right (by decide)).1 hlt

/-- Masking with `!(2^k - 1)` rounds down to a multiple of `2^k`. -/
theorem toNat_and_not_mask (x : Usize) {w : Usize} {k : ℕ} (hw : w.toNat = 2 ^ k) :
    (x &&& ~~~(w - 1#64)).toNat = x.toNat / 2 ^ k * 2 ^ k := by
  have hk : k < 64 := by
    have hlt := w.isLt
    rw [hw] at hlt
    exact (Nat.pow_lt_pow_iff_right (by decide)).1 hlt
  have hmask : (w - 1#64).toNat = 2 ^ k - 1 := by
    have hpos := Nat.two_pow_pos k
    have hlt := w.isLt
    rw [BitVec.toNat_sub]
    simp only [BitVec.toNat_ofNat]
    omega
  have hbits : x &&& ~~~(w - 1#64) = (x >>> k) <<< k := by
    refine BitVec.eq_of_getLsbD_eq fun i hi => ?_
    have hbit : (w - 1#64).getLsbD i = decide (i < k) := by
      rw [BitVec.getLsbD, hmask, Nat.testBit_two_pow_sub_one]
    rw [BitVec.getLsbD_and, BitVec.getLsbD_not, hbit, BitVec.getLsbD_shiftLeft,
      BitVec.getLsbD_ushiftRight]
    by_cases hik : i < k
    · simp [hik]
    · have hsub : k + (i - k) = i := by omega
      simp [hik, hi, hsub]
  have hle : x.toNat / 2 ^ k * 2 ^ k ≤ x.toNat := Nat.div_mul_le_self _ _
  have hlt := x.isLt
  rw [hbits, BitVec.toNat_shiftLeft, BitVec.toNat_ushiftRight, Nat.shiftRight_eq_div_pow,
    Nat.shiftLeft_eq, Nat.mod_eq_of_lt (by omega)]

/-- An or of numbers without a common bit is their sum. -/
theorem or_eq_add {a b i : ℕ} (ha : 2 ^ i ∣ a) (hb : b < 2 ^ i) : a ||| b = a + b := by
  obtain ⟨k, rfl⟩ := ha
  exact (Nat.two_pow_add_eq_or_of_lt hb k).symm

end StarOS
