/-
`invntt` after `ntt` (`crypto/kyber/ntt.rs`).

No sum of `ntt` wraps for coefficients in `[0, q)`.  As long as none of `invntt` does either, the
two transforms together multiply every coefficient by `2 ^ 16`: the constant 1441 that `invntt`
scales with is `n⁻¹ * 2 ^ 32`, and not `n⁻¹ * 2 ^ 16` as its comment says.

* `StarOS.NttNoWrap` — no sum of `ntt` leaves the range of an `i16`, with `StarOS.nttNoWrap`;
* `StarOS.invntt_ntt` — what the two transforms do together;
* `StarOS.invntt_ntt_iff` — when they are inverse to each other.
-/

import StarOS.KyberNtt

set_option autoImplicit false

namespace StarOS

open Polynomial

/-! ### The forward transform -/

/-- The sums and differences that a layer of `ntt` stores are in the range of an `i16`; the first
block takes entry `k` of the table. -/
def NttLayerFits (len k : ℕ) (p : Poly) : Prop :=
  ∀ b < 128 / len, ∀ o < len,
    let t := montgomeryReduce ((zetas.getD (k + b) 0#16).signExtend 32 *
      (p.coef (len * (2 * b + 1) + o)).signExtend 32)
    FitsI16 (p.val (len * (2 * b) + o) + t.toInt) ∧ FitsI16 (p.val (len * (2 * b) + o) - t.toInt)

/-- No addition and no subtraction of the layers of `ntt` from `2 ^ m` down overflows. -/
def NttNoWrap : ℕ → ℕ × Poly → Prop
  | 0, _ => True
  | m + 1, s =>
      NttLayerFits (2 ^ (m + 1)) s.1 s.2 ∧ NttNoWrap m (layer nttPair zetas (2 ^ (m + 1)) s)

theorem nttLayerFits {len B : ℕ} (hlen : len * B = 128) (hB : 2 * B ≤ 128) {p : Poly} {M : ℤ}
    (hp : p.Bounded M) (hM : M + 2373 ≤ 28000) : NttLayerFits len B p := by
  have hpos : 0 < len := Nat.pos_of_ne_zero fun hzero => by rw [hzero] at hlen; omega
  intro b hb o _
  dsimp only
  rw [← hlen, Nat.mul_div_cancel_left _ hpos] at hb
  have hzeta := zetas_abs (B + b) (by omega)
  have hprod : |((zetas.getD (B + b) 0#16).signExtend 32 *
      (p.coef (len * (2 * b + 1) + o)).signExtend 32).toInt| ≤ 1659 * 28000 := by
    rw [toInt_mul_widen]
    exact abs_mul_le hzeta ((hp _).trans (by omega))
  have habs := montgomeryReduce_abs (hprod.trans (by decide))
  have hx := hp (len * (2 * b) + o)
  generalize montgomeryReduce _ = t at habs ⊢
  have ht : |t.toInt| ≤ 2373 := by omega
  rw [abs_le] at hx ht
  rw [FitsI16, FitsI16]
  omega

/-- No sum of `ntt` wraps as long as the coefficients are small. -/
theorem nttNoWrap {m B : ℕ} (hm : 2 ^ m * B = 128) {p : Poly} {M : ℤ} (hp : p.Bounded M)
    (hM : M + 2373 * m ≤ 28000) : NttNoWrap m (B, p) := by
  induction m generalizing B p M with
  | zero => trivial
  | succ m ih =>
      have hsize : 2 ^ m * (2 * B) = 128 := by rw [← hm, pow_succ, mul_assoc]
      have hB : 2 * B ≤ 128 := Nat.le_of_dvd (by decide) (Dvd.intro_left _ hsize)
      push_cast at hM
      obtain ⟨q, hq, -, hbound⟩ := nttLayer_spec hm hB hp (by omega)
      refine ⟨nttLayerFits hm hB hp (by omega), ?_⟩
      rw [hq]
      exact ih hsize hbound (by omega)

/-! ### Both transforms -/

/-- The two transforms together multiply with the Montgomery factor. -/
theorem invntt_ntt_zq {p : Poly} {M : ℤ} (hp : p.Bounded M) (hM : M ≤ 11389)
    (hwrap : NoWrap (ntt p)) : ∀ i < 256, (invntt (ntt p)).zq i = montR * p.zq i := by
  have hforward : Ntt.Represents root 2 128 1 (ntt p).zq (Ntt.block p.zq 256 0) :=
    (ntt_spec hp hM).1
  have hback : Ntt.Represents root 2 128 montR (ntt p).zq (Ntt.block (invntt (ntt p)).zq 256 0) :=
    fromNtt_spec hwrap
  -- both polynomials have the same residues, up to the factor
  refine Ntt.eq_mul_of_dvd (by decide : 0 < 256) ?_
  rw [ringModulus_dvd_iff]
  exact fun n hn => hback.dvd_sub_mul hforward hn

/-- **The two transforms together multiply every coefficient by 2285, if no sum of `invntt` wraps.**
-/
theorem invntt_ntt {p : Poly} (hp : p.Reduced) (hwrap : NoWrap (ntt p)) :
    ∀ i < 256, (invntt (ntt p)).val i ≡ 2285 * p.val i [ZMOD 3329] := by
  intro i hi
  have hzq := invntt_ntt_zq hp.bounded (by decide) hwrap i hi
  refine (ZMod.intCast_eq_intCast_iff _ _ 3329).1 ?_
  rw [Int.cast_mul]
  exact hzq

/-- `invntt` takes `ntt` back without a wrap. -/
def Inverts (p : Poly) : Prop :=
  NttNoWrap 7 (1, p) ∧ NoWrap (ntt p) ∧ ∀ i < 256, (invntt (ntt p)).val i ≡ p.val i [ZMOD 3329]

/-- What is the same after a multiplication by 2285 is zero. -/
theorem eq_zero_of_inverts {p : Poly} (hp : p.Reduced) (h : Inverts p) :
    ∀ i < 256, p.val i = 0 := by
  obtain ⟨-, hwrap, hinv⟩ := h
  intro i hi
  have hscaled := (invntt_ntt hp hwrap i hi).symm.trans (hinv i hi)
  have hdvd : (3329 : ℤ) ∣ 2284 * p.val i := by
    have hdiff := hscaled.symm.dvd
    rwa [show 2285 * p.val i - p.val i = 2284 * p.val i by ring] at hdiff
  -- 2284 and 3329 have no common divisor
  have hrange := hp i hi
  omega

/-- The polynomial of zeros. -/
theorem eq_comb_zero {p : Poly} (h : ∀ i < 256, p.val i = 0) : p = Poly.comb 256 0#16 0 := by
  refine Poly.ext_coef fun i hi => ?_
  rw [coef_comb _ _ _ hi, ite_self]
  exact BitVec.eq_of_toInt_eq (h i hi)

theorem inverts_zero : Inverts (Poly.comb 256 0#16 0) := by
  have hval : ∀ i < 256, (Poly.comb 256 0#16 0).val i = 0 := fun i hi => by
    rw [Poly.val, coef_comb _ _ _ hi, ite_self]
    rfl
  have hreduced : (Poly.comb 256 0#16 0).Reduced := fun i hi => by
    rw [hval i hi]
    decide
  have hwrap : NoWrap (ntt (Poly.comb 256 0#16 0)) := by
    have hntt : ntt (Poly.comb 256 0#16 0) = Poly.comb 2 0#16 0 := toNtt_comb (by decide) _
    rw [hntt]
    exact noWrap_comb (by decide)
  refine ⟨nttNoWrap rfl hreduced.bounded (by decide), hwrap, fun i hi => ?_⟩
  have hscaled := invntt_ntt hreduced hwrap i hi
  rw [hval i hi, mul_zero] at hscaled
  rwa [hval i hi]

/-- **The two transforms are inverse to each other, without a wrap, on no polynomial with
coefficients in `[0, q)` but zero.** -/
theorem invntt_ntt_iff (p : Poly) (hp : p.Reduced) : Inverts p ↔ ∀ i < 256, p.val i = 0 := by
  refine ⟨eq_zero_of_inverts hp, fun hzero => ?_⟩
  rw [eq_comb_zero hzero]
  exact inverts_zero

/-- Zero is transformed to zero and back. -/
theorem invntt_ntt_zero : Inverts (Poly.comb 256 0#16 0) :=
  (invntt_ntt_iff (Poly.comb 256 0#16 0)
    (fun i hi => by rw [Poly.val, coef_comb _ _ _ hi, ite_self]; decide)).2
    fun i hi => by rw [Poly.val, coef_comb _ _ _ hi, ite_self]; rfl

/-- One becomes 2285. -/
theorem invntt_ntt_one : ¬∀ p : Poly, p.Reduced → Inverts p := by
  intro hall
  have hval : ∀ i < 256, (Poly.comb 256 1#16 0).val i = if i % 256 = 0 then 1 else 0 := by
    intro i hi
    rw [Poly.val, coef_comb _ _ _ hi]
    split <;> rfl
  have hreduced : (Poly.comb 256 1#16 0).Reduced := fun i hi => by
    rw [hval i hi]
    split <;> decide
  have hzero := eq_zero_of_inverts hreduced (hall _ hreduced) 0 (by decide)
  rw [hval 0 (by decide), if_pos rfl] at hzero
  exact absurd hzero (by decide)

end StarOS
