/-
Number-theoretic transforms by layers, over an arbitrary commutative ring.

A transform of `2 ^ k * L` coefficients follows a binary tree of roots: node `1` carries the root
of `X ^ (2 ^ k * L)`, and the children `2 * n` and `2 * n + 1` of a node carry the two square roots
of what the node carries.  At the level of the nodes `B, …, 2 * B - 1` the coefficients are `B`
blocks, and the block of node `n` stands for a polynomial modulo `X ^ L - γ n`.  A layer of the
forward transform goes one level down, and a layer of the inverse transform one level up, with a
factor of two.

* `Ntt.RootTree`, `Ntt.modulus` — the tree of roots, and the modulus of a node;
* `Ntt.RootTree.dvd_root_iff` — what all the leaves divide, the root divides;
* `Ntt.block`, `Ntt.Represents` — blocks of coefficients, and what they stand for;
* `Ntt.IsForward`, `Ntt.IsInverse` — one layer, with `Ntt.Represents.forward` and
  `Ntt.Represents.inverse`;
* `Ntt.dvd_block_iff` — a multiple of the root modulus of low degree vanishes;
* `Ntt.negacyclic` — the product modulo `X ^ N + 1`, with `Ntt.dvd_mul_sub_negacyclic`.
-/

import Mathlib.Algebra.Polynomial.Div
import Mathlib.Algebra.Ring.GeomSum
import Mathlib.RingTheory.Coprime.Basic
import Mathlib.Tactic.Ring
import Mathlib.Tactic.LinearCombination

set_option autoImplicit false

namespace Ntt

open Polynomial Finset

variable {R : Type*} [CommRing R]

/-! ### The tree of roots -/

/-- The inner nodes are `1, …, N - 1`.  The children of a node are the square roots of the node, and
they can be told apart. -/
structure RootTree (γ : ℕ → R) (N : ℕ) : Prop where
  sq : ∀ n, 0 < n → n < N → γ (2 * n) ^ 2 = γ n
  neg : ∀ n, 0 < n → n < N → γ (2 * n + 1) = -γ (2 * n)
  unit : ∀ n, 0 < n → n < N → IsUnit (2 * γ (2 * n))

/-- The modulus of node `n` at the level whose blocks have length `L`. -/
noncomputable def modulus (γ : ℕ → R) (L n : ℕ) : R[X] := X ^ L - C (γ n)

variable {γ : ℕ → R} {N L B n : ℕ}

theorem RootTree.modulus_double (h : RootTree γ N) (L : ℕ) (hn : 0 < n) (hN : n < N) :
    modulus γ (2 * L) n = modulus γ L (2 * n) * modulus γ L (2 * n + 1) := by
  have hsq : (C (γ (2 * n)) : R[X]) ^ 2 = C (γ n) := by
    rw [← C_pow, h.sq n hn hN]
  rw [modulus, modulus, modulus, h.neg n hn hN, C_neg, ← hsq]
  ring

/-- The moduli of the two children are coprime. -/
theorem RootTree.coprime (h : RootTree γ N) (L : ℕ) (hn : 0 < n) (hN : n < N) :
    IsCoprime (modulus γ L (2 * n)) (modulus γ L (2 * n + 1)) := by
  obtain ⟨u, hu⟩ := h.unit n hn hN
  have hinv : (C (↑u⁻¹ : R) : R[X]) * (2 * C (γ (2 * n))) = 1 := by
    have htwo : (2 : R[X]) = C 2 := (map_ofNat C 2).symm
    rw [htwo, ← C_mul, ← C_mul, ← hu, Units.inv_mul, C_1]
  refine ⟨-C (↑u⁻¹ : R), C (↑u⁻¹ : R), ?_⟩
  rw [modulus, modulus, h.neg n hn hN, C_neg]
  linear_combination hinv

theorem RootTree.dvd_double_iff (h : RootTree γ N) (hn : 0 < n) (hN : n < N) (D : R[X]) :
    modulus γ (2 * L) n ∣ D ↔ modulus γ L (2 * n) ∣ D ∧ modulus γ L (2 * n + 1) ∣ D := by
  rw [h.modulus_double L hn hN]
  constructor
  · intro hD
    exact ⟨(Dvd.intro _ rfl).trans hD, (Dvd.intro_left _ rfl).trans hD⟩
  · rintro ⟨heven, hodd⟩
    exact (h.coprime L hn hN).mul_dvd heven hodd

/-- All moduli of a level divide `D`. -/
def DvdLevel (γ : ℕ → R) (L B : ℕ) (D : R[X]) : Prop := ∀ b < B, modulus γ L (B + b) ∣ D

/-- The nodes of a level come in pairs, the children of the nodes above. -/
theorem forall_double {Q : ℕ → Prop} :
    (∀ b < 2 * B, Q b) ↔ ∀ b < B, Q (2 * b) ∧ Q (2 * b + 1) := by
  constructor
  · intro h b hb
    exact ⟨h (2 * b) (by omega), h (2 * b + 1) (by omega)⟩
  · intro h b hb
    obtain ⟨heven, hodd⟩ := h (b / 2) (by omega)
    rcases Nat.mod_two_eq_zero_or_one b with hb' | hb'
    · rwa [show 2 * (b / 2) = b by omega] at heven
    · rwa [show 2 * (b / 2) + 1 = b by omega] at hodd

theorem RootTree.dvdLevel_double (h : RootTree γ N) (hB : 2 * B ≤ N) (D : R[X]) :
    DvdLevel γ (2 * L) B D ↔ DvdLevel γ L (2 * B) D := by
  rw [DvdLevel, DvdLevel, forall_double]
  refine forall₂_congr fun b hb => ?_
  rw [← Nat.add_assoc, ← Nat.mul_add]
  exact h.dvd_double_iff (by omega) (by omega) D

/-- What the moduli of all nodes of a level divide, the modulus of the root divides. -/
theorem RootTree.dvd_root_iff (h : RootTree γ N) (k : ℕ) (hk : 2 ^ k ≤ N) (L : ℕ) (D : R[X]) :
    modulus γ (2 ^ k * L) 1 ∣ D ↔ DvdLevel γ L (2 ^ k) D := by
  induction k generalizing L with
  | zero =>
      rw [DvdLevel, pow_zero, one_mul]
      constructor
      · intro hD b hb
        rwa [Nat.lt_one_iff.1 hb]
      · intro hD
        exact hD 0 Nat.one_pos
  | succ k ih =>
      have hpow : 2 ^ (k + 1) = 2 * 2 ^ k := Nat.pow_succ'
      rw [hpow] at hk ⊢
      rw [← h.dvdLevel_double hk, ← ih (by omega) (2 * L)]
      rw [show 2 * 2 ^ k * L = 2 ^ k * (2 * L) by ring]

/-! ### Blocks of coefficients -/

/-- Block `b` of the coefficients `f`, cut into blocks of length `L`, as a polynomial. -/
noncomputable def block (f : ℕ → R) (L b : ℕ) : R[X] := ∑ i ∈ range L, C (f (L * b + i)) * X ^ i

theorem block_double (f : ℕ → R) (L b : ℕ) :
    block f (2 * L) b = block f L (2 * b) + X ^ L * block f L (2 * b + 1) := by
  rw [block, two_mul, sum_range_add, block, block, mul_sum]
  refine congrArg₂ (· + ·) (sum_congr rfl fun i _ => ?_) (sum_congr rfl fun i _ => ?_)
  · rw [show (L + L) * b + i = L * (2 * b) + i by ring]
  · rw [show (L + L) * b + (L + i) = L * (2 * b + 1) + i by ring]
    ring

theorem block_two (f : ℕ → R) (b : ℕ) :
    block f 2 b = C (f (2 * b)) + C (f (2 * b + 1)) * X := by
  rw [block, sum_range_succ, sum_range_one, pow_zero, mul_one, pow_one, Nat.add_zero]

/-- Where two functions differ from a combination of two others, so do their blocks. -/
theorem block_eq_add {f g h : ℕ → R} {c : R} {a b d : ℕ}
    (hf : ∀ i < L, f (L * a + i) = g (L * b + i) + c * h (L * d + i)) :
    block f L a = block g L b + C c * block h L d := by
  rw [block, block, block, mul_sum, ← sum_add_distrib]
  refine sum_congr rfl fun i hi => ?_
  rw [hf i (mem_range.1 hi), C_add, C_mul]
  ring

/-- The blocks of `f` at a level stand for `P`, up to a factor `s`. -/
def Represents (γ : ℕ → R) (L B : ℕ) (s : R) (f : ℕ → R) (P : R[X]) : Prop :=
  ∀ b < B, modulus γ L (B + b) ∣ P - C s * block f L b

/-- A factor of the coefficients can be taken to the factor in front. -/
theorem Represents.scale {s c : R} {f g : ℕ → R} {P : R[X]} (hfg : ∀ i < L * B, g i = c * f i)
    (h : Represents γ L B s g P) : Represents γ L B (s * c) f P := by
  intro b hb
  have hblock : block g L b = C c * block f L b := by
    rw [block, block, mul_sum]
    refine sum_congr rfl fun i hi => ?_
    have hlt : L * b + i < L * B := by
      calc L * b + i < L * b + L := Nat.add_lt_add_left (mem_range.1 hi) _
        _ = L * (b + 1) := (Nat.mul_succ L b).symm
        _ ≤ L * B := Nat.mul_le_mul_left L hb
    rw [hfg _ hlt, C_mul, mul_assoc]
  have hdvd := h b hb
  rwa [hblock, ← mul_assoc, ← C_mul] at hdvd

/-- What the same blocks stand for with and without a factor differs by the factor. -/
theorem Represents.dvd_sub_mul {s : R} {f : ℕ → R} {P Q : R[X]} (hP : Represents γ L B s f P)
    (hQ : Represents γ L B 1 f Q) {b : ℕ} (hb : b < B) : modulus γ L (B + b) ∣ P - C s * Q := by
  have hfactor := (hQ b hb).mul_left (C s)
  have hdiff := dvd_sub (hP b hb) hfactor
  rw [C_1] at hdiff
  convert hdiff using 1
  ring

/-- `g` is the result of one layer of the forward transform: from blocks of length `2 * L` to blocks
of length `L`. -/
structure IsForward (γ : ℕ → R) (L B : ℕ) (f g : ℕ → R) : Prop where
  low : ∀ b < B, ∀ i < L, g (L * (2 * b) + i) =
    f (L * (2 * b) + i) + γ (2 * (B + b)) * f (L * (2 * b + 1) + i)
  high : ∀ b < B, ∀ i < L, g (L * (2 * b + 1) + i) =
    f (L * (2 * b) + i) + -γ (2 * (B + b)) * f (L * (2 * b + 1) + i)

/-- `g` is the result of one layer of the inverse transform: from blocks of length `L` to blocks of
length `2 * L`. -/
structure IsInverse (γ : ℕ → R) (L B : ℕ) (f g : ℕ → R) : Prop where
  low : ∀ b < B, ∀ i < L, g (L * (2 * b) + i) =
    f (L * (2 * b) + i) + 1 * f (L * (2 * b + 1) + i)
  high : ∀ b < B, ∀ i < L, γ (2 * (B + b)) * g (L * (2 * b + 1) + i) =
    f (L * (2 * b) + i) + -1 * f (L * (2 * b + 1) + i)

theorem Represents.forward (h : RootTree γ N) (hB : 2 * B ≤ N) {s : R} {f g : ℕ → R} {P : R[X]}
    (hP : Represents γ (2 * L) B s f P) (hfg : IsForward γ L B f g) :
    Represents γ L (2 * B) s g P := by
  refine forall_double.2 fun b hb => ?_
  rw [← Nat.add_assoc, ← Nat.mul_add]
  -- both children divide what the parent divides
  obtain ⟨heven, hodd⟩ := (h.dvd_double_iff (by omega) (by omega) _).1 (hP b hb)
  rw [block_double] at heven hodd
  have hroot : γ (2 * (B + b) + 1) = -γ (2 * (B + b)) := h.neg _ (by omega) (by omega)
  constructor
  · rw [block_eq_add (hfg.low b hb)]
    refine (dvd_add heven (Dvd.intro (C s * block f L (2 * b + 1)) rfl)).trans (dvd_of_eq ?_)
    rw [modulus]
    ring
  · rw [block_eq_add (hfg.high b hb)]
    refine (dvd_add hodd (Dvd.intro (C s * block f L (2 * b + 1)) rfl)).trans (dvd_of_eq ?_)
    rw [modulus, hroot]
    ring

/-- Read backwards, a layer of the inverse transform goes down one level. -/
theorem Represents.inverse (h : RootTree γ N) (hB : 2 * B ≤ N) {s : R} {f g : ℕ → R} {P : R[X]}
    (hP : Represents γ (2 * L) B s g P) (hfg : IsInverse γ L B f g) :
    Represents γ L (2 * B) (2 * s) f P := by
  refine forall_double.2 fun b hb => ?_
  rw [← Nat.add_assoc, ← Nat.mul_add]
  obtain ⟨heven, hodd⟩ := (h.dvd_double_iff (by omega) (by omega) _).1 (hP b hb)
  rw [block_double] at heven hodd
  have hroot : γ (2 * (B + b) + 1) = -γ (2 * (B + b)) := h.neg _ (by omega) (by omega)
  have hlow : block g L (2 * b) = block f L (2 * b) + block f L (2 * b + 1) := by
    rw [block_eq_add (hfg.low b hb), C_1, one_mul]
  have hhigh : C (γ (2 * (B + b))) * block g L (2 * b + 1) =
      block f L (2 * b) - block f L (2 * b + 1) := by
    rw [block, mul_sum, block, block, ← sum_sub_distrib]
    refine sum_congr rfl fun i hi => ?_
    rw [← mul_assoc, ← C_mul, hfg.high b hb i (mem_range.1 hi), C_add, C_mul, C_neg, C_1]
    ring
  have htwo : (C (2 * s) : R[X]) = 2 * C s := by
    rw [C_mul, map_ofNat]
  constructor
  · refine (dvd_add heven (Dvd.intro (C s * block g L (2 * b + 1)) rfl)).trans (dvd_of_eq ?_)
    rw [modulus, htwo, hlow]
    linear_combination -C s * hhigh
  · refine (dvd_add hodd (Dvd.intro (C s * block g L (2 * b + 1)) rfl)).trans (dvd_of_eq ?_)
    rw [modulus, htwo, hlow, hroot, C_neg]
    linear_combination C s * hhigh

/-! ### Coefficients -/

theorem block_zero (f : ℕ → R) (N : ℕ) : block f N 0 = ∑ i ∈ range N, C (f i) * X ^ i := by
  rw [block]
  refine sum_congr rfl fun i _ => ?_
  rw [Nat.mul_zero, Nat.zero_add]

theorem coeff_block (f : ℕ → R) (N i : ℕ) :
    (block f N 0).coeff i = if i < N then f i else 0 := by
  rw [block_zero, finsetSum_coeff]
  simp [coeff_C_mul, coeff_X_pow]

theorem degree_block_lt (f : ℕ → R) (N : ℕ) : (block f N 0).degree < N := by
  rw [degree_lt_iff_coeff_zero]
  intro i hi
  rw [coeff_block, if_neg (Nat.not_lt.2 hi)]

/-- The modulus of the negacyclic product. -/
noncomputable def ringModulus (R : Type*) [CommRing R] (N : ℕ) : R[X] := X ^ N + 1

theorem modulus_one (hγ : γ 1 = -1) (N : ℕ) : modulus γ N 1 = ringModulus R N := by
  rw [modulus, ringModulus, hγ, C_neg, C_1, sub_neg_eq_add]

/-- A multiple of `X ^ N + 1` of degree less than `N` vanishes. -/
theorem dvd_block_iff [Nontrivial R] (hN : 0 < N) (f : ℕ → R) :
    ringModulus R N ∣ block f N 0 ↔ ∀ i < N, f i = 0 := by
  rw [ringModulus]
  constructor
  · intro hdvd i hi
    have hmonic : (X ^ N + C 1 : R[X]).Monic := monic_X_pow_add_C 1 hN.ne'
    have hdegree : (block f N 0).degree < (X ^ N + C 1 : R[X]).degree := by
      rw [degree_X_pow_add_C hN]
      exact degree_block_lt f N
    have hzero : block f N 0 = 0 := by
      by_contra hne
      exact hmonic.not_dvd_of_degree_lt hne hdegree hdvd
    have hcoeff := coeff_block f N i
    rw [hzero, coeff_zero, if_pos hi] at hcoeff
    exact hcoeff.symm
  · intro hzero
    have hblock : block f N 0 = 0 := by
      rw [block_zero]
      refine sum_eq_zero fun i hi => ?_
      rw [hzero i (mem_range.1 hi), C_0, zero_mul]
    rw [hblock]
    exact dvd_zero _

/-- Two polynomials of degree less than `N` that differ by a factor modulo `X ^ N + 1` do so in
every coefficient. -/
theorem eq_mul_of_dvd [Nontrivial R] (hN : 0 < N) {f g : ℕ → R} {s : R}
    (h : ringModulus R N ∣ block f N 0 - C s * block g N 0) : ∀ i < N, f i = s * g i := by
  have hblock : block (fun i => f i + -s * g i) N 0 = block f N 0 + C (-s) * block g N 0 :=
    block_eq_add fun _ _ => rfl
  rw [sub_eq_add_neg, ← neg_mul, ← C_neg, ← hblock, dvd_block_iff hN] at h
  intro i hi
  have hzero := h i hi
  rwa [neg_mul, ← sub_eq_add_neg, sub_eq_zero] at hzero

/-! ### The negacyclic product -/

/-- The product of the first `N` coefficients of `f` and `g` modulo `X ^ N + 1`. -/
def negacyclic (N : ℕ) (f g : ℕ → R) (i : ℕ) : R :=
  ∑ j ∈ range N, f j * if j ≤ i then g (i - j) else -g (N + i - j)

/-- Multiplication by `X` modulo `X ^ N + 1`. -/
theorem dvd_X_mul_block {f g : ℕ → R} (hzero : g 0 = -f N)
    (hsucc : ∀ i < N, g (i + 1) = f i) :
    ringModulus R (N + 1) ∣ X * block f (N + 1) 0 - block g (N + 1) 0 := by
  rw [ringModulus]
  have hg : block g (N + 1) 0 = X * (∑ i ∈ range N, C (f i) * X ^ i) - C (f N) := by
    rw [block_zero, sum_range_succ', hzero, C_neg, pow_zero, mul_one, mul_sum, ← sub_eq_add_neg]
    refine congrArg (· - _) (sum_congr rfl fun i hi => ?_)
    rw [hsucc i (mem_range.1 hi)]
    ring
  rw [block_zero, sum_range_succ, hg]
  exact ⟨C (f N), by ring⟩

/-- Multiplication by `X ^ j` modulo `X ^ N + 1`. -/
theorem dvd_X_pow_mul_block (f : ℕ → R) {j : ℕ} (hj : j < N) :
    ringModulus R N ∣ X ^ j * block f N 0 -
      block (fun i => if j ≤ i then f (i - j) else -f (N + i - j)) N 0 := by
  induction j with
  | zero =>
      rw [pow_zero, one_mul]
      exact (sub_self (block f N 0)).symm ▸ dvd_zero _
  | succ j ih =>
      obtain ⟨M, rfl⟩ := Nat.exists_eq_succ_of_ne_zero (Nat.ne_of_gt (Nat.zero_lt_of_lt hj))
      have hrest := (ih (by omega)).mul_left X
      have hstep : ringModulus R (M + 1) ∣
          X * block (fun i => if j ≤ i then f (i - j) else -f (M + 1 + i - j)) (M + 1) 0 -
            block (fun i => if j + 1 ≤ i then f (i - (j + 1)) else -f (M + 1 + i - (j + 1)))
              (M + 1) 0 := by
        refine dvd_X_mul_block ?_ fun i hi => ?_
        · rw [if_neg (by omega), if_pos (by omega), show M + 1 + 0 - (j + 1) = M - j by omega]
        · simp only [Nat.add_le_add_iff_right, Nat.add_sub_add_right,
            show M + 1 + (i + 1) - (j + 1) = M + 1 + i - j by omega]
      refine (dvd_add hrest hstep).trans (dvd_of_eq ?_)
      ring

theorem dvd_mul_sub_negacyclic (f g : ℕ → R) (N : ℕ) :
    ringModulus R N ∣ block f N 0 * block g N 0 - block (negacyclic N f g) N 0 := by
  have hproduct : block (negacyclic N f g) N 0 = ∑ j ∈ range N,
      C (f j) * block (fun i => if j ≤ i then g (i - j) else -g (N + i - j)) N 0 := by
    rw [block_zero]
    simp only [block_zero, negacyclic, map_sum, sum_mul, mul_sum]
    rw [sum_comm]
    refine sum_congr rfl fun j _ => sum_congr rfl fun i _ => ?_
    rw [C_mul, mul_assoc]
  rw [hproduct, block_zero f, sum_mul, ← sum_sub_distrib]
  refine dvd_sum fun j hj => ?_
  rw [mul_assoc, ← mul_sub]
  exact (dvd_X_pow_mul_block g (mem_range.1 hj)).mul_left _

/-- Homomorphisms preserve the negacyclic product. -/
theorem map_negacyclic {S : Type*} [CommRing S] (φ : R →+* S) (N : ℕ) (f g : ℕ → R) (i : ℕ) :
    φ (negacyclic N f g i) = negacyclic N (fun j => φ (f j)) (fun j => φ (g j)) i := by
  rw [negacyclic, map_sum, negacyclic]
  refine sum_congr rfl fun j _ => ?_
  rw [map_mul]
  split
  · rfl
  · rw [map_neg]

/-- A product vanishes modulo `X ^ N + 1` if its negacyclic coefficients do. -/
theorem dvd_mul_iff [Nontrivial R] (hN : 0 < N) (f g : ℕ → R) :
    ringModulus R N ∣ block f N 0 * block g N 0 ↔ ∀ i < N, negacyclic N f g i = 0 := by
  rw [dvd_iff_dvd_of_dvd_sub (dvd_mul_sub_negacyclic f g N), dvd_block_iff hN]

/-- A polynomial of degree less than `N` is a product modulo `X ^ N + 1` if its coefficients are the
negacyclic ones. -/
theorem dvd_block_sub_mul_iff [Nontrivial R] (hN : 0 < N) (f g h : ℕ → R) :
    ringModulus R N ∣ block h N 0 - block f N 0 * block g N 0 ↔
      ∀ i < N, h i = negacyclic N f g i := by
  have hproduct := dvd_mul_sub_negacyclic f g N
  have hcoeff : block h N 0 - block (negacyclic N f g) N 0 =
      block (fun i => h i - negacyclic N f g i) N 0 := by
    rw [block_zero, block_zero, block_zero, ← sum_sub_distrib]
    refine sum_congr rfl fun i _ => ?_
    rw [C_sub, sub_mul]
  have hsub : ringModulus R N ∣ (block h N 0 - block f N 0 * block g N 0) -
      (block h N 0 - block (negacyclic N f g) N 0) := by
    refine (dvd_neg.2 hproduct).trans (dvd_of_eq ?_)
    ring
  rw [dvd_iff_dvd_of_dvd_sub hsub, hcoeff, dvd_block_iff hN]
  exact forall₂_congr fun i _ => sub_eq_zero

/-! ### Odd coefficients -/

/-- The coefficients of odd index. -/
def oddPart (f : ℕ → R) (i : ℕ) : R := if i % 2 = 1 then f i else 0

theorem two_mul_block_oddPart (f : ℕ → R) {L b : ℕ} (heven : L * b % 2 = 0) :
    2 * block (oddPart f) L b = block f L b - (block f L b).comp (-X) := by
  rw [block, block, mul_sum, Polynomial.sum_comp, ← sum_sub_distrib]
  refine sum_congr rfl fun i _ => ?_
  rw [mul_comp, C_comp, X_pow_comp, oddPart]
  rcases Nat.mod_two_eq_zero_or_one i with hi | hi
  · rw [if_neg (by omega), C_0, Even.neg_pow (Nat.even_iff.2 hi)]
    ring
  · rw [if_pos (by omega), Odd.neg_pow (Nat.odd_iff.2 hi)]
    ring

/-- If blocks have even length, their odd coefficients stand for the odd part of what they stand
for. -/
theorem Represents.oddPart (h2 : IsUnit (2 : R)) (hL : Even L) {s : R} {f g : ℕ → R}
    (h : Represents γ L B s g (block f N 0)) :
    Represents γ L B s (oddPart g) (block (oddPart f) N 0) := by
  intro b hb
  have hmodulus : (modulus γ L (B + b)).comp (-X) = modulus γ L (B + b) := by
    rw [modulus, sub_comp, C_comp, X_pow_comp, hL.neg_pow]
  have hreflect : modulus γ L (B + b) ∣ (block f N 0 - C s * block g L b).comp (-X) := by
    obtain ⟨k, hk⟩ := h b hb
    refine ⟨k.comp (-X), ?_⟩
    rw [hk, mul_comp, hmodulus]
  have htwo : IsUnit (2 : R[X]) := by
    rw [← map_ofNat C 2]
    exact isUnit_C.2 h2
  have hf := two_mul_block_oddPart (L := N) (b := 0) f rfl
  have hg := two_mul_block_oddPart (L := L) (b := b) g
    (Nat.even_iff.1 (hL.mul_right b))
  refine (htwo.dvd_mul_left).1 ((dvd_sub (h b hb) hreflect).trans (dvd_of_eq ?_))
  rw [sub_comp, mul_comp, C_comp]
  linear_combination -hf + C s * hg

/-! ### Residues modulo a quadratic factor -/

/-- `P` is `a + b * X` modulo `X ^ 2 - r`. -/
def Residue (r a b : R) (P : R[X]) : Prop := X ^ 2 - C r ∣ P - (C a + C b * X)

variable {r a b c d : R} {P Q : R[X]}

theorem Represents.residue {s : R} {f : ℕ → R} (h : Represents γ 2 B s f P) {n : ℕ} (hn : n < B) :
    Residue (γ (B + n)) (s * f (2 * n)) (s * f (2 * n + 1)) P := by
  have hdvd := h n hn
  rwa [block_two, mul_add, ← mul_assoc, ← C_mul, ← C_mul] at hdvd

theorem Residue.add (hP : Residue r a b P) (hQ : Residue r c d Q) :
    Residue r (a + c) (b + d) (P + Q) := by
  refine (dvd_add hP hQ).trans (dvd_of_eq ?_)
  rw [C_add, C_add]
  ring

theorem Residue.sub (hP : Residue r a b P) (hQ : Residue r c d Q) :
    Residue r (a - c) (b - d) (P - Q) := by
  refine (dvd_sub hP hQ).trans (dvd_of_eq ?_)
  rw [C_sub, C_sub]
  ring

theorem Residue.mul (hP : Residue r a b P) (hQ : Residue r c d Q) :
    Residue r (a * c + r * (b * d)) (a * d + b * c) (P * Q) := by
  have hsq : X ^ 2 - C r ∣ C (b * d) * (X ^ 2 - C r) := Dvd.intro_left _ rfl
  refine (dvd_add (dvd_add (hP.mul_right Q) (hQ.mul_left (C a + C b * X))) hsq).trans
    (dvd_of_eq ?_)
  simp only [C_add, C_mul]
  ring

/-- A polynomial with a constant residue is divisible if the constant is, and a unit in the constant
does not matter. -/
theorem Residue.dvd_iff {u : R} (hu : IsUnit u) (hP : Residue r (u * a) 0 P) :
    X ^ 2 - C r ∣ P ↔ X ^ 2 - C r ∣ C a := by
  rw [Residue, C_0, zero_mul, add_zero] at hP
  rw [dvd_iff_dvd_of_dvd_sub hP, C_mul]
  exact (isUnit_C.2 hu).dvd_mul_left

/-- Residues are unique. -/
theorem Residue.unique [Nontrivial R] (hP : Residue r a b P) (hP' : Residue r c d P) :
    a = c ∧ b = d := by
  have hdvd : X ^ 2 - C r ∣ C (c - a) + C (d - b) * X := by
    refine (dvd_sub hP hP').trans (dvd_of_eq ?_)
    rw [C_sub, C_sub]
    ring
  have hmonic : (X ^ 2 - C r : R[X]).Monic := monic_X_pow_sub_C r two_ne_zero
  have hdegree : (C (c - a) + C (d - b) * X : R[X]).degree < (X ^ 2 - C r : R[X]).degree := by
    rw [degree_X_pow_sub_C Nat.two_pos, add_comm]
    exact degree_linear_lt
  have hzero : C (c - a) + C (d - b) * X = 0 := by
    by_contra hne
    exact hmonic.not_dvd_of_degree_lt hne hdegree hdvd
  have hconst := congrArg (fun p : R[X] => p.coeff 0) hzero
  have hlinear := congrArg (fun p : R[X] => p.coeff 1) hzero
  simp only [coeff_add, coeff_C_mul, coeff_X_zero, coeff_X_one, coeff_C_zero, coeff_zero,
    mul_zero, add_zero, mul_one, coeff_C_succ, zero_add] at hconst hlinear
  exact ⟨(sub_eq_zero.1 hconst).symm, (sub_eq_zero.1 hlinear).symm⟩

end Ntt
