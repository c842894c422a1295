/-
The number-theoretic transform of Kyber and the product that it is used for
(`crypto/kyber/ntt.rs`, with the tables of `params.rs` and the calls of `poly.rs`).

`to_ntt` is right for all coefficients that occur, and `from_ntt` inverts it up to the factor `R`
that `pointwise_mul` takes out again, unless one of its sums wraps.  But `basemul` multiplies modulo
`X² - 1` and `X² + 1` in turn, where the residue rings are those of `X² - γ` for the 128 roots `γ`
of `-1`.  So the product is right exactly if the odd coefficients play no part in it: if the product
of the odd parts of the two factors vanishes.

* `StarOS.zetas`, `StarOS.zetasInv` — the tables, with `StarOS.root` and `StarOS.root_tree`;
* `StarOS.ntt`, `StarOS.invntt`, `StarOS.basemul`, and `StarOS.Poly.toNtt` and the other calls;
* `StarOS.layer_spec` — what one layer of either transform does;
* `StarOS.ntt_spec`, `StarOS.fromNtt_spec`, `StarOS.pointwiseMul_spec` — the three stages in `ℤ_q`;
* `StarOS.NoWrap` — no sum of `from_ntt` leaves the range of an `i16`;
* `StarOS.nttMul_iff` — when the product is right;
* `StarOS.nttMul_wrong` — `X · X`, and `1 · 2`.
-/

import StarOS.KyberReduce
import StarOS.Ntt
import Mathlib.Data.Int.ModEq
import Mathlib.Tactic.IntervalCases

set_option autoImplicit false

namespace StarOS

open Polynomial

/-! ### Parameters -/

/-- `ZETAS`. -/
def zetas : List (BitVec 16) := [
  -1044, -758, -359, -1517, 1493, 1422, 287, 202,
  -171, 622, 1577, 182, 962, -1202, -1474, 1468,
  573, -1325, 264, 383, -829, 1458, -1602, -130,
  -681, 1017, 732, 608, -1542, 411, -205, -1571,
  1223, 652, -552, 1015, -1293, 1491, -282, -1544,
  516, -8, -320, -666, -1618, -1162, 126, 1469,
  -853, -90, -271, 830, 107, -1421, -247, -951,
  -398, 961, -1508, -725, 448, -1065, 677, -1275,
  -1103, 430, 555, 843, -1251, 871, 1550, 105,
  422, 587, 177, -235, -291, -460, 1574, 1653,
  -246, 778, 1159, -147, -777, 1483, -602, 1119,
  -1590, 644, -872, 349, 418, 329, -156, -75,
  817, 1097, 603, 610, 1322, -1285, -1465, 384,
  -1215, -136, 1218, -1335, -874, 220, -1187, -1659,
  -1185, -1530, -1278, 794, -1510, -854, -870, 478,
  -108, -308, 996, 991, 958, -1460, 1522, 1628]

/-- `ZETAS_INV`. -/
def zetasInv : List (BitVec 16) := [
  1701, 1807, 1460, 2371, 2338, 2333, 308, 108,
  2851, 870, 854, 1510, 2535, 1278, 1530, 1185,
  1659, 1187, -220, 874, 1335, -1218, 136, 1215,
  -384, 1465, 1285, -1322, -610, -603, -1097, -817,
  75, 156, -329, -418, -349, 872, -644, 1590,
  -1119, 602, -1483, 777, 147, -1159, -778, 246,
  -1653, -1574, 460, 291, 235, -177, -587, -422,
  -105, -1550, -871, 1251, -843, -555, -430, 1103,
  1275, -677, 1065, -448, 725, 1508, -961, 398,
  951, 247, 1421, -107, -830, 271, 90, 853,
  -1469, -126, 1162, 1618, 666, 320, 8, -516,
  1544, 282, -1491, 1293, -1015, 552, -652, -1223,
  1571, 205, -411, 1542, -608, -732, -1017, 681,
  130, 1602, -1458, 829, -383, -264, 1325, -573,
  -1468, 1474, 1202, -962, -182, -1577, -622, 171,
  -202, -287, -1422, -1493, 1517, 359, 758, 1044]

/-! ### Polynomials and loops -/

/-- `Poly`: its 256 coefficients. -/
abbrev Poly := Vector (BitVec 16) 256

namespace Poly

/-- `coeffs[i]`. -/
def coef (p : Poly) (i : ℕ) : BitVec 16 := p[i]?.getD 0#16

/-- The value of `coeffs[i]`. -/
def val (p : Poly) (i : ℕ) : ℤ := (p.coef i).toInt

/-- The residue of `coeffs[i]`. -/
def zq (p : Poly) (i : ℕ) : Zq := (p.val i : Zq)

/-- `coeffs[i] = x`. -/
def put (p : Poly) (i : ℕ) (x : BitVec 16) : Poly := p.setIfInBounds i x

theorem coef_put (p : Poly) {i : ℕ} (hi : i < 256) (x : BitVec 16) (j : ℕ) :
    (p.put i x).coef j = if i = j then x else p.coef j := by
  rw [coef, put, Vector.getElem?_setIfInBounds]
  split
  · rfl
  · rfl

theorem coef_of_le (p : Poly) {i : ℕ} (hi : 256 ≤ i) : p.coef i = 0#16 := by
  rw [coef, Vector.getElem?_eq_none hi]
  rfl

theorem ext_coef {p q : Poly} (h : ∀ i < 256, p.coef i = q.coef i) : p = q := by
  refine Vector.ext fun i hi => ?_
  have hcoef := h i hi
  rwa [coef, coef, Vector.getElem?_eq_getElem hi, Vector.getElem?_eq_getElem hi] at hcoef

theorem coef_ofFn (f : Fin 256 → BitVec 16) {i : ℕ} (hi : i < 256) :
    Poly.coef (Vector.ofFn f) i = f ⟨i, hi⟩ := by
  rw [coef, Vector.getElem?_eq_getElem hi, Vector.getElem_ofFn]
  rfl

end Poly

/-- The body of the innermost loop of both transforms, at `j = start + o`: `f` on the pair
`(j, j + len)`. -/
def pairStep (f : BitVec 16 → BitVec 16 → BitVec 16 × BitVec 16) (len start : ℕ) (p : Poly)
    (o : ℕ) : Poly :=
  let r := f (p.coef (start + o)) (p.coef (start + o + len))
  (p.put (start + o) r.1).put (start + o + len) r.2

/-- The first `m` rounds of the innermost loop. -/
def pairLoop (f : BitVec 16 → BitVec 16 → BitVec 16 × BitVec 16) (len start m : ℕ) (p : Poly) :
    Poly := (List.range m).foldl (pairStep f len start) p

/-- The body of the loop over `start = 2 * len * b`: every block takes the next entry of the
table. -/
def blockStep (f : BitVec 16 → BitVec 16 → BitVec 16 → BitVec 16 × BitVec 16)
    (table : List (BitVec 16)) (len : ℕ) (s : ℕ × Poly) (b : ℕ) : ℕ × Poly :=
  (s.1 + 1, pairLoop (f (table.getD s.1 0#16)) len (2 * len * b) len s.2)

/-- The first `m` blocks. -/
def blockLoop (f : BitVec 16 → BitVec 16 → BitVec 16 → BitVec 16 × BitVec 16)
    (table : List (BitVec 16)) (len m : ℕ) (s : ℕ × Poly) : ℕ × Poly :=
  (List.range m).foldl (blockStep f table len) s

/-- One layer of a transform: `start` goes over the multiples of `2 * len` below 256. -/
def layer (f : BitVec 16 → BitVec 16 → BitVec 16 → BitVec 16 × BitVec 16)
    (table : List (BitVec 16)) (len : ℕ) (s : ℕ × Poly) : ℕ × Poly :=
  blockLoop f table len (128 / len) s

/-! ### The transforms -/

/-- The body of the loops of `ntt`. -/
def nttPair (zeta x y : BitVec 16) : BitVec 16 × BitVec 16 :=
  let t := montgomeryReduce (zeta.signExtend 32 * y.signExtend 32)
  -- sums of `i16`, which wrap where overflow is not checked
  (x + t, x - t)

/-- The loop of `ntt` over `len`, from `2 ^ m` down to `2`. -/
def nttLayers : ℕ → ℕ × Poly → ℕ × Poly
  | 0, s => s
  | m + 1, s => nttLayers m (layer nttPair zetas (2 ^ (m + 1)) s)

/-- `ntt`. -/
def ntt (p : Poly) : Poly := (nttLayers 7 (1, p)).2

/-- The body of the loops of `invntt`. -/
def invnttPair (zeta x y : BitVec 16) : BitVec 16 × BitVec 16 :=
  (x + y, montgomeryReduce (zeta.signExtend 32 * (x - y).signExtend 32))

/-- The loop of `invntt` over `len`, from `2` up to `2 ^ m`. -/
def invnttLayers : ℕ → ℕ × Poly → ℕ × Poly
  | 0, s => s
  | m + 1, s => layer invnttPair zetasInv (2 ^ (m + 1)) (invnttLayers m s)

/-- `invntt`. -/
def invntt (p : Poly) : Poly :=
  let s := invnttLayers 7 (0, p)
  Vector.ofFn fun i => montgomeryReduce ((s.2.coef i.val).signExtend 32 * 1441#32)

/-- `basemul`. -/
def basemul (a b : Poly) (zeta : BitVec 16) : Poly :=
  let mul (x y : BitVec 16) : BitVec 32 := x.signExtend 32 * y.signExtend 32
  -- of every four coefficients, the first pair takes `zeta` and the second `-zeta`
  Vector.ofFn fun i =>
    let j := i.val
    if j % 4 = 0 then
      montgomeryReduce (mul (a.coef (j + 1)) (b.coef (j + 1)) * zeta.signExtend 32 +
        mul (a.coef j) (b.coef j))
    else if j % 4 = 2 then
      montgomeryReduce (mul (a.coef (j + 1)) (b.coef (j + 1)) * (-zeta).signExtend 32 +
        mul (a.coef j) (b.coef j))
    else
      montgomeryReduce (mul (a.coef (j - 1)) (b.coef j) + mul (a.coef j) (b.coef (j - 1)))

namespace Poly

/-- `Poly::to_ntt`. -/
def toNtt (p : Poly) : Poly := ntt p

/-- `Poly::from_ntt`. -/
def fromNtt (p : Poly) : Poly := invntt p

/-- `Poly::pointwise_mul`; both operands are read before the result is written. -/
def pointwiseMul (p other : Poly) (zeta : BitVec 16) : Poly := basemul p other zeta

end Poly

/-- The product of two polynomials, as the callers compute it. -/
def nttMul (a b : Poly) : Poly := (a.toNtt.pointwiseMul b.toNtt 1#16).fromNtt

/-! ### What a layer does -/

section Loops

variable {f : BitVec 16 → BitVec 16 → BitVec 16 × BitVec 16} {len start m : ℕ}

/-- The pairs of the first `m` steps are done, and the other coefficients are as before. -/
structure PairsDone (f : BitVec 16 → BitVec 16 → BitVec 16 × BitVec 16) (len start m : ℕ)
    (p q : Poly) : Prop where
  low : ∀ o < m, q.coef (start + o) = (f (p.coef (start + o)) (p.coef (start + o + len))).1
  high : ∀ o < m, q.coef (start + o + len) = (f (p.coef (start + o)) (p.coef (start + o + len))).2
  rest : ∀ i, (∀ o < m, i ≠ start + o ∧ i ≠ start + o + len) → q.coef i = p.coef i

theorem pairLoop_spec (hm : m ≤ len) (hroom : start + 2 * len ≤ 256) (p : Poly) :
    PairsDone f len start m p (pairLoop f len start m p) := by
  induction m with
  | zero => exact ⟨fun o ho => by omega, fun o ho => by omega, fun i _ => rfl⟩
  | succ m ih =>
      obtain ⟨hlow, hhigh, hrest⟩ := ih (by omega)
      rw [pairLoop, List.range_succ, List.foldl_append]
      change PairsDone f len start (m + 1) p (pairStep f len start (pairLoop f len start m p) m)
      generalize pairLoop f len start m p = q at hlow hhigh hrest
      rw [pairStep]
      -- the pair of this step is not touched before
      have hx : q.coef (start + m) = p.coef (start + m) := hrest _ fun o ho => by omega
      have hy : q.coef (start + m + len) = p.coef (start + m + len) :=
        hrest _ fun o ho => by omega
      rw [hx, hy]
      constructor
      · intro o ho
        rw [Poly.coef_put _ (by omega), if_neg (by omega), Poly.coef_put _ (by omega)]
        split
        · rw [show o = m by omega]
        · exact hlow o (by omega)
      · intro o ho
        rw [Poly.coef_put _ (by omega)]
        split
        · rw [show o = m by omega]
        · rw [Poly.coef_put _ (by omega), if_neg (by omega)]
          exact hhigh o (by omega)
      · intro i hi
        have hlast := hi m (by omega)
        rw [Poly.coef_put _ (by omega), if_neg (by omega), Poly.coef_put _ (by omega),
          if_neg (by omega)]
        exact hrest i fun o ho => hi o (by omega)

end Loops

section Blocks

variable {f : BitVec 16 → BitVec 16 → BitVec 16 → BitVec 16 × BitVec 16}
  {table : List (BitVec 16)} {len m k : ℕ}

/-- The first `m` blocks are done, and the coefficients of the others are as before. -/
structure BlocksDone (f : BitVec 16 → BitVec 16 → BitVec 16 → BitVec 16 × BitVec 16)
    (table : List (BitVec 16)) (len m k : ℕ) (p q : Poly) : Prop where
  low : ∀ b < m, ∀ o < len, q.coef (len * (2 * b) + o) = (f (table.getD (k + b) 0#16)
    (p.coef (len * (2 * b) + o)) (p.coef (len * (2 * b + 1) + o))).1
  high : ∀ b < m, ∀ o < len, q.coef (len * (2 * b + 1) + o) = (f (table.getD (k + b) 0#16)
    (p.coef (len * (2 * b) + o)) (p.coef (len * (2 * b + 1) + o))).2
  rest : ∀ i, len * (2 * m) ≤ i → q.coef i = p.coef i

theorem blockLoop_spec (hroom : len * (2 * m) ≤ 256) (p : Poly) :
    (blockLoop f table len m (k, p)).1 = k + m ∧
      BlocksDone f table len m k p (blockLoop f table len m (k, p)).2 := by
  induction m with
  | zero => exact ⟨rfl, fun b hb => by omega, fun b hb => by omega, fun i _ => rfl⟩
  | succ m ih =>
      have hsize : len * (2 * (m + 1)) = len * (2 * m) + 2 * len := by ring
      obtain ⟨hcount, hlow, hhigh, hrest⟩ := ih (by omega)
      rw [blockLoop, List.range_succ, List.foldl_append]
      change (blockStep f table len (blockLoop f table len m (k, p)) m).1 = _ ∧
        BlocksDone f table len (m + 1) k p
          (blockStep f table len (blockLoop f table len m (k, p)) m).2
      rw [blockStep, hcount]
      generalize (blockLoop f table len m (k, p)).2 = q at hlow hhigh hrest
      refine ⟨rfl, ?_⟩
      have hstart : 2 * len * m = len * (2 * m) := by ring
      have hodd : len * (2 * m + 1) = len * (2 * m) + len := by ring
      obtain ⟨hlow', hhigh', hrest'⟩ : PairsDone (f (table.getD (k + m) 0#16)) len (2 * len * m)
          len q (pairLoop _ len (2 * len * m) len q) :=
        pairLoop_spec (le_refl _) (by omega) q
      rw [hstart] at hlow' hhigh' hrest' ⊢
      generalize pairLoop (f (table.getD (k + m) 0#16)) len (len * (2 * m)) len q = q' at *
      -- the blocks before are not touched again
      have hbefore : ∀ i < len * (2 * m), q'.coef i = q.coef i :=
        fun i hi => hrest' i fun o ho => by omega
      constructor
      · intro b hb o ho
        rcases Nat.lt_succ_iff_lt_or_eq.1 hb with hb | rfl
        · rw [hbefore _ (by nlinarith), hlow b hb o ho]
        · rw [hlow' o ho, hodd, hrest _ (by omega), hrest _ (by omega),
            show len * (2 * b) + o + len = len * (2 * b) + len + o by ring]
      · intro b hb o ho
        rcases Nat.lt_succ_iff_lt_or_eq.1 hb with hb | rfl
        · rw [hbefore _ (by nlinarith), hhigh b hb o ho]
        · have hval := hhigh' o ho
          rw [show len * (2 * b) + o + len = len * (2 * b) + len + o by ring] at hval
          rw [hodd, hval, hrest _ (by omega), hrest _ (by omega)]
      · intro i hi
        rw [hrest' i fun o ho => by omega]
        exact hrest i (by omega)

variable (f table k) in
/-- A layer does every pair once, with the table entry of its block, and advances the table by the
number of blocks. -/
theorem layer_spec {B : ℕ} (hlen : len * B = 128) (p : Poly) :
    (layer f table len (k, p)).1 = k + B ∧
      BlocksDone f table len B k p (layer f table len (k, p)).2 := by
  have hpos : 0 < len := Nat.pos_of_ne_zero fun h => by rw [h] at hlen; omega
  have hB : 128 / len = B := by rw [← hlen, Nat.mul_div_cancel_left _ hpos]
  rw [layer, hB]
  exact blockLoop_spec (by rw [← Nat.mul_assoc, Nat.mul_comm len, Nat.mul_assoc]; omega) p

end Blocks

/-! ### The tables -/

/-- The entry of `ZETAS` that `ntt` splits node `n` with, without its Montgomery factor. -/
def zeta (n : ℕ) : Zq := invMontR * ((zetas.getD n 0#16).toInt : Zq)

/-- The tree of the roots of `-1`. -/
def root (n : ℕ) : Zq :=
  if n = 1 then -1 else if n % 2 = 0 then zeta (n / 2) else -zeta (n / 2)

theorem root_even (n : ℕ) : root (2 * n) = zeta n := by
  rw [root, if_neg (by omega), if_pos (by omega), Nat.mul_div_cancel_left n Nat.two_pos]

theorem root_odd {n : ℕ} (_ : 0 < n) : root (2 * n + 1) = -zeta n := by
  rw [root, if_neg (by omega), if_neg (by omega), show (2 * n + 1) / 2 = n by omega]

theorem zeta_sq : ∀ n < 128, 0 < n → zeta n ^ 2 = root n := by decide +kernel

theorem zeta_ne_zero : ∀ n < 128, 0 < n → 2 * zeta n ≠ 0 := by decide +kernel

theorem root_tree : Ntt.RootTree root 128 where
  sq n hn hN := by rw [root_even, zeta_sq n hN hn]
  neg n hn _ := by rw [root_even, root_odd hn]
  unit n hn hN := by
    rw [root_even]
    exact (zeta_ne_zero n hN hn).isUnit

theorem zetas_abs : ∀ n < 128, |(zetas.getD n 0#16).toInt| ≤ 1659 := by decide +kernel

/-- The inverse table, read in the order of `invntt`, has the inverses of the forward table. -/
theorem zetasInv_mul : ∀ m < 7, ∀ b < 2 ^ (6 - m),
    zeta (2 ^ (6 - m) + b) *
      (invMontR * ((zetasInv.getD (128 - 2 ^ (7 - m) + b) 0#16).toInt : Zq)) = 1 := by
  decide +kernel

theorem zetasInv_abs : ∀ n < 128, |(zetasInv.getD n 0#16).toInt| ≤ 2851 := by decide +kernel

/-! ### The forward transform -/

/-- All coefficients are at most `M` in absolute value. -/
def Poly.Bounded (p : Poly) (M : ℤ) : Prop := ∀ i, |p.val i| ≤ M

theorem nttPair_spec {ζ x y : BitVec 16} {M : ℤ} (hζ : |ζ.toInt| ≤ 1659) (hx : |x.toInt| ≤ M)
    (hy : |y.toInt| ≤ M) (hM : M ≤ 28000) :
    (((nttPair ζ x y).1.toInt : Zq) = x.toInt + invMontR * (ζ.toInt : Zq) * y.toInt ∧
      ((nttPair ζ x y).2.toInt : Zq) = x.toInt + -(invMontR * (ζ.toInt : Zq)) * y.toInt) ∧
      |(nttPair ζ x y).1.toInt| ≤ M + 2373 ∧ |(nttPair ζ x y).2.toInt| ≤ M + 2373 := by
  rw [nttPair]
  have hprod : |(ζ.signExtend 32 * y.signExtend 32).toInt| ≤ 1659 * 28000 := by
    rw [toInt_mul_widen]
    exact abs_mul_le hζ (hy.trans hM)
  have hcast := montgomeryReduce_cast (hprod.trans (by decide))
  have habs := montgomeryReduce_abs (hprod.trans (by decide))
  rw [toInt_mul_widen] at hcast
  push_cast at hcast
  generalize montgomeryReduce (ζ.signExtend 32 * y.signExtend 32) = t at *
  have ht : |t.toInt| ≤ 2373 := by omega
  rw [abs_le] at hx ht
  have hadd : (x + t).toInt = x.toInt + t.toInt := toInt_add16 (by rw [FitsI16]; omega)
  have hsub : (x - t).toInt = x.toInt - t.toInt := toInt_sub16 (by rw [FitsI16]; omega)
  rw [hadd, hsub, abs_le, abs_le]
  refine ⟨⟨?_, ?_⟩, by omega, by omega⟩
  · push_cast
    rw [hcast]
    ring
  · push_cast
    rw [hcast]
    ring

/-- The coefficients of a polynomial come in the pairs of a layer. -/
theorem forall_pairs {len B : ℕ} (hlen : len * B = 128) {Q : ℕ → Prop}
    (h : ∀ b < B, ∀ o < len, Q (len * (2 * b) + o) ∧ Q (len * (2 * b + 1) + o)) :
    ∀ i < 256, Q i := by
  intro i hi
  have hpos : 0 < len := Nat.pos_of_ne_zero fun hzero => by rw [hzero] at hlen; omega
  have hsize : len * (2 * B) = 256 := by rw [Nat.mul_left_comm, hlen]
  have hdiv : i / len < 2 * B := Nat.div_lt_of_lt_mul (by omega)
  have hpair := h (i / len / 2) (by omega) (i % len) (Nat.mod_lt _ hpos)
  have hi : len * (i / len) + i % len = i := Nat.div_add_mod i len
  rcases Nat.mod_two_eq_zero_or_one (i / len) with heven | hodd
  · rw [show 2 * (i / len / 2) = i / len by omega, hi] at hpair
    exact hpair.1
  · rw [show 2 * (i / len / 2) + 1 = i / len by omega, hi] at hpair
    exact hpair.2

theorem nttLayer_spec {len B : ℕ} (hlen : len * B = 128) (hB : 2 * B ≤ 128) {p : Poly} {M : ℤ}
    (hp : p.Bounded M) (hM : M ≤ 28000) :
    ∃ q, layer nttPair zetas len (B, p) = (2 * B, q) ∧ Ntt.IsForward root len B p.zq q.zq ∧
      q.Bounded (M + 2373) := by
  obtain ⟨hcount, hlow, hhigh, -⟩ := layer_spec nttPair zetas B hlen p
  have hpair : ∀ b < B, ∀ i j, _ := fun b hb i j =>
    nttPair_spec (zetas_abs (B + b) (by omega)) (hp i) (hp j) hM
  refine ⟨_, Prod.ext (hcount.trans (Nat.two_mul B).symm) rfl, ⟨?_, ?_⟩, ?_⟩
  · intro b hb o ho
    rw [root_even, zeta, Poly.zq, Poly.val, hlow b hb o ho]
    exact (hpair b hb _ _).1.1
  · intro b hb o ho
    rw [root_even, zeta, Poly.zq, Poly.val, hhigh b hb o ho]
    exact (hpair b hb _ _).1.2
  · intro i
    by_cases hi : i < 256
    · revert i
      refine forall_pairs hlen fun b hb o ho => ?_
      rw [Poly.val, Poly.val, hlow b hb o ho, hhigh b hb o ho]
      exact (hpair b hb _ _).2
    · rw [Poly.val, Poly.coef_of_le _ (Nat.le_of_not_lt hi)]
      have hM0 : 0 ≤ M := (abs_nonneg _).trans (hp 0)
      change 0 ≤ M + 2373
      omega

/-- The layers from blocks of length `2 ^ (m + 1)` down to blocks of length two. -/
theorem nttLayers_spec {m B : ℕ} (hm : 2 ^ m * B = 128) {p : Poly} {M : ℤ} (hp : p.Bounded M)
    (hM : M + 2373 * m ≤ 28000) {s : Zq} {P : Zq[X]}
    (hP : Ntt.Represents root (2 ^ (m + 1)) B s p.zq P) :
    Ntt.Represents root 2 128 s (nttLayers m (B, p)).2.zq P ∧
      (nttLayers m (B, p)).2.Bounded (M + 2373 * m) := by
  -- a layer doubles the number of blocks and adds at most 2373 to a coefficient
  induction m generalizing B p M with
  | zero =>
      rw [pow_zero, one_mul] at hm
      subst hm
      refine ⟨hP, fun i => (hp i).trans ?_⟩
      simp
  | succ m ih =>
      have hsize : 2 ^ m * (2 * B) = 128 := by rw [← hm, pow_succ, mul_assoc]
      have hB : 2 * B ≤ 128 := Nat.le_of_dvd (by decide) (Dvd.intro_left _ hsize)
      push_cast at hM
      obtain ⟨q, hq, hforward, hbound⟩ := nttLayer_spec hm hB hp (by omega)
      rw [pow_succ'] at hP
      have hrest := ih hsize hbound (by omega) (hP.forward root_tree hB hforward)
      rw [nttLayers, hq]
      refine ⟨hrest.1, fun i => (hrest.2 i).trans ?_⟩
      push_cast
      omega

/-- Blocks of length 256 are the whole polynomial. -/
theorem represents_self (f : ℕ → Zq) : Ntt.Represents root 256 1 1 f (Ntt.block f 256 0) := by
  intro b hb
  rw [Nat.lt_one_iff.1 hb, C_1, one_mul, sub_self]
  exact dvd_zero _

/-- The forward transform splits a polynomial into its residues modulo the 128 quadratic factors. -/
theorem ntt_spec {p : Poly} {M : ℤ} (hp : p.Bounded M) (hM : M ≤ 11389) :
    Ntt.Represents root 2 128 1 p.toNtt.zq (Ntt.block p.zq 256 0) ∧
      p.toNtt.Bounded (M + 16611) :=
  nttLayers_spec (m := 7) rfl hp (by push_cast; omega) (represents_self p.zq)

/-! ### The inverse transform -/

/-- The sums and differences that a layer of `invntt` stores are in the range of an `i16`. -/
def LayerFits (len : ℕ) (p : Poly) : Prop :=
  ∀ b < 128 / len, ∀ o < len,
    FitsI16 (p.val (len * (2 * b) + o) + p.val (len * (2 * b + 1) + o)) ∧
      FitsI16 (p.val (len * (2 * b) + o) - p.val (len * (2 * b + 1) + o))

/-- No addition and no subtraction of `invntt` overflows. -/
def NoWrap (p : Poly) : Prop := ∀ m < 7, LayerFits (2 ^ (m + 1)) (invnttLayers m (0, p)).2

instance (len : ℕ) (p : Poly) : Decidable (LayerFits len p) :=
  inferInstanceAs (Decidable (∀ b < 128 / len, ∀ o < len, _))

instance (p : Poly) : Decidable (NoWrap p) := inferInstanceAs (Decidable (∀ m < 7, _))

theorem invnttPair_spec {ζ x y : BitVec 16} (hζ : |ζ.toInt| ≤ 2851)
    (hsum : FitsI16 (x.toInt + y.toInt)) (hdiff : FitsI16 (x.toInt - y.toInt)) :
    ((invnttPair ζ x y).1.toInt : Zq) = x.toInt + y.toInt ∧
      ((invnttPair ζ x y).2.toInt : Zq) = invMontR * (ζ.toInt : Zq) * (x.toInt - y.toInt) := by
  rw [invnttPair]
  have hprod : |(ζ.signExtend 32 * (x - y).signExtend 32).toInt| ≤ 2851 * 32768 := by
    rw [toInt_mul_widen]
    exact abs_mul_le hζ (toInt_abs_le _)
  have hcast := montgomeryReduce_cast (hprod.trans (by decide))
  rw [toInt_mul_widen, toInt_sub16 hdiff] at hcast
  rw [hcast, toInt_add16 hsum]
  push_cast
  exact ⟨rfl, by ring⟩

/-- Layer `m` of the inverse transform has `2 ^ (6 - m)` pairs of blocks of length `2 ^ (m + 1)`. -/
theorem invnttLayer_size {m : ℕ} (hm : m < 7) : 2 ^ (m + 1) * 2 ^ (6 - m) = 128 := by
  rw [← pow_add, show m + 1 + (6 - m) = 7 by omega]
  rfl

/-- The blocks of a layer are twice those of the next one. -/
theorem invnttLayer_blocks {m : ℕ} (hm : m < 7) :
    2 ^ (7 - m) = 2 * 2 ^ (6 - m) ∧ 2 ^ (7 - m) ≤ 128 := by
  constructor
  · rw [← pow_succ', show 6 - m + 1 = 7 - m by omega]
  · rw [show 128 = 2 ^ 7 from rfl]
    exact Nat.pow_le_pow_right Nat.two_pos (by omega)

/-- Layer `m` starts at the entry of the table that the layers before leave off at, and does every
pair once. -/
theorem invnttLayers_succ {m : ℕ} (hm : m < 7) (p : Poly)
    (hcount : (invnttLayers m (0, p)).1 = 128 - 2 ^ (7 - m)) :
    (invnttLayers (m + 1) (0, p)).1 = 128 - 2 ^ (6 - m) ∧
      BlocksDone invnttPair zetasInv (2 ^ (m + 1)) (2 ^ (6 - m)) (128 - 2 ^ (7 - m))
        (invnttLayers m (0, p)).2 (invnttLayers (m + 1) (0, p)).2 := by
  obtain ⟨hdouble, hle⟩ := invnttLayer_blocks hm
  have hlayer := layer_spec invnttPair zetasInv (128 - 2 ^ (7 - m)) (invnttLayer_size hm)
    (invnttLayers m (0, p)).2
  rw [← hcount] at hlayer ⊢
  refine ⟨hlayer.1.trans ?_, hlayer.2⟩
  omega

theorem invnttLayers_count {m : ℕ} (hm : m ≤ 7) (p : Poly) :
    (invnttLayers m (0, p)).1 = 128 - 2 ^ (7 - m) := by
  induction m with
  | zero => rfl
  | succ m ih =>
      rw [show 7 - (m + 1) = 6 - m by omega]
      exact (invnttLayers_succ (by omega) p (ih (by omega))).1

theorem invnttLayer_spec {m : ℕ} (hm : m < 7) {p : Poly}
    (hp : LayerFits (2 ^ (m + 1)) (invnttLayers m (0, p)).2) :
    Ntt.IsInverse root (2 ^ (m + 1)) (2 ^ (6 - m)) (invnttLayers m (0, p)).2.zq
      (invnttLayers (m + 1) (0, p)).2.zq := by
  obtain ⟨-, hlow, hhigh, -⟩ := invnttLayers_succ hm p (invnttLayers_count (by omega) p)
  obtain ⟨hdouble, hle⟩ := invnttLayer_blocks hm
  rw [LayerFits, ← invnttLayer_size hm, Nat.mul_div_cancel_left _ (Nat.two_pow_pos _)] at hp
  have hlt : ∀ b < 2 ^ (6 - m), 128 - 2 ^ (7 - m) + b < 128 := fun b hb => by omega
  constructor
  · intro b hb o ho
    obtain ⟨hsum, hdiff⟩ := hp b hb o ho
    have hpair := (invnttPair_spec (zetasInv_abs _ (hlt b hb)) hsum hdiff).1
    rw [one_mul, Poly.zq, Poly.val, hlow b hb o ho]
    exact hpair
  · intro b hb o ho
    obtain ⟨hsum, hdiff⟩ := hp b hb o ho
    have hpair := (invnttPair_spec (zetasInv_abs _ (hlt b hb)) hsum hdiff).2
    rw [root_even, Poly.zq, Poly.val, hhigh b hb o ho]
    -- the inverse table takes the root of the forward table out again
    calc zeta (2 ^ (6 - m) + b) * _
        = _ := congrArg (zeta (2 ^ (6 - m) + b) * ·) hpair
      _ = _ := by
          rw [← mul_assoc, zetasInv_mul m hm b hb]
          change _ = Poly.zq _ _ + -1 * Poly.zq _ _
          rw [one_mul, neg_one_mul, sub_eq_add_neg]
          rfl

/-- Going back through the first `m` layers. -/
theorem invnttLayers_spec {m : ℕ} (hm : m ≤ 7) {p : Poly} (hp : NoWrap p) {s : Zq} {P : Zq[X]}
    (hP : Ntt.Represents root (2 ^ (m + 1)) (2 ^ (7 - m)) s (invnttLayers m (0, p)).2.zq P) :
    Ntt.Represents root 2 128 (2 ^ m * s) p.zq P := by
  induction m generalizing s with
  | zero =>
      rw [pow_zero, one_mul]
      exact hP
  | succ m ih =>
      obtain ⟨hdouble, hle⟩ := invnttLayer_blocks (m := m) (by omega)
      rw [pow_succ' 2 (m + 1), show 7 - (m + 1) = 6 - m by omega] at hP
      have hdown := hP.inverse root_tree (hdouble ▸ hle)
        (invnttLayer_spec (by omega) (hp m (by omega)))
      rw [← hdouble] at hdown
      have hrest := ih (by omega) hdown
      rwa [← mul_assoc, ← pow_succ] at hrest

theorem fromNtt_zq (p : Poly) {i : ℕ} (hi : i < 256) :
    p.fromNtt.zq i = invMontR * 1441 * (invnttLayers 7 (0, p)).2.zq i := by
  rw [Poly.fromNtt, invntt, Poly.zq, Poly.val, Poly.coef_ofFn _ hi, Poly.zq, Poly.val]
  generalize (invnttLayers 7 (0, p)).2.coef i = x
  have hconst : (1441#32) = (1441#16).signExtend 32 := rfl
  have hprod : |(x.signExtend 32 * 1441#32).toInt| ≤ 32768 * 1441 := by
    rw [hconst, toInt_mul_widen]
    exact abs_mul_le (toInt_abs_le x) (le_of_eq rfl)
  rw [montgomeryReduce_cast (hprod.trans (by decide)), hconst, toInt_mul_widen]
  push_cast
  ring

/-- The inverse transform puts a polynomial together from its residues, up to the factor `R`. -/
theorem fromNtt_spec {p : Poly} (hp : NoWrap p) :
    Ntt.Represents root 2 128 montR p.zq (Ntt.block p.fromNtt.zq 256 0) := by
  have hscaled : Ntt.Represents root 256 1 (1 * (invMontR * 1441)) (invnttLayers 7 (0, p)).2.zq
      (Ntt.block p.fromNtt.zq 256 0) :=
    (represents_self p.fromNtt.zq).scale fun i hi => fromNtt_zq p hi
  have hdown := invnttLayers_spec (m := 7) (le_refl 7) hp hscaled
  rwa [show (2 ^ 7 * (1 * (invMontR * 1441)) : Zq) = montR by decide] at hdown

/-! ### The product in the transformed domain -/

/-- The sign that `basemul` multiplies with in block `n`, in place of `root (128 + n)`. -/
def sign (n : ℕ) : Zq := if n % 2 = 0 then 1 else -1

theorem montgomeryReduce_add {m n : BitVec 32} (hm : |m.toInt| ≤ 784000000)
    (hn : |n.toInt| ≤ 784000000) :
    ((montgomeryReduce (m + n)).toInt : Zq) = invMontR * ((m.toInt : Zq) + n.toInt) ∧
      65536 * |(montgomeryReduce (m + n)).toInt| ≤ |m.toInt| + |n.toInt| + 109084672 := by
  have hsum : (m + n).toInt = m.toInt + n.toInt := by
    rw [abs_le] at hm hn
    exact toInt_add32 (by rw [FitsI32]; omega)
  have htriangle : |(m + n).toInt| ≤ |m.toInt| + |n.toInt| := hsum ▸ abs_add_le m.toInt n.toInt
  have hle : |(m + n).toInt| ≤ 2013265920 := by omega
  have habs := montgomeryReduce_abs hle
  rw [montgomeryReduce_cast hle, hsum]
  push_cast
  exact ⟨rfl, by omega⟩

theorem toInt_mul_abs_le {x y : BitVec 16} (hx : |x.toInt| ≤ 28000) (hy : |y.toInt| ≤ 28000) :
    |(x.signExtend 32 * y.signExtend 32).toInt| ≤ 784000000 := by
  rw [toInt_mul_widen]
  exact abs_mul_le hx hy

/-- Multiplication with the argument `zeta`, which is `1` or `-1` in all calls. -/
theorem toInt_mul_sign {m : BitVec 32} (hm : |m.toInt| ≤ 784000000) :
    (m * (1#16).signExtend 32).toInt = m.toInt ∧
      (m * (-1#16).signExtend 32).toInt = -m.toInt := by
  have hone : ((1#16).signExtend 32).toInt = 1 := by decide
  have hneg : ((-1#16).signExtend 32).toInt = -1 := by decide
  rw [abs_le] at hm
  constructor
  · rw [toInt_mul32, hone, mul_one]
    rw [hone, FitsI32]
    omega
  · rw [toInt_mul32, hneg, mul_neg_one]
    rw [hneg, FitsI32]
    omega

/-- `basemul`, as it is called: the product modulo `X ^ 2 - 1` in the even blocks, and modulo
`X ^ 2 + 1` in the odd ones, divided by `R`. -/
theorem pointwiseMul_spec {a b : Poly} (ha : a.Bounded 28000) (hb : b.Bounded 28000) {n : ℕ}
    (hn : n < 128) :
    (a.pointwiseMul b 1#16).zq (2 * n) =
        invMontR * (sign n * (a.zq (2 * n + 1) * b.zq (2 * n + 1)) +
          a.zq (2 * n) * b.zq (2 * n)) ∧
      (a.pointwiseMul b 1#16).zq (2 * n + 1) =
        invMontR * (a.zq (2 * n) * b.zq (2 * n + 1) + a.zq (2 * n + 1) * b.zq (2 * n)) := by
  have hmul : ∀ i j, |((a.coef i).signExtend 32 * (b.coef j).signExtend 32).toInt| ≤ 784000000 :=
    fun i j => toInt_mul_abs_le (ha i) (hb j)
  constructor
  · rw [Poly.pointwiseMul, basemul, Poly.zq, Poly.val, Poly.coef_ofFn _ (by omega)]
    obtain ⟨hone, hneg⟩ := toInt_mul_sign (hmul (2 * n + 1) (2 * n + 1))
    rcases Nat.mod_two_eq_zero_or_one n with heven | hodd
    · dsimp only
      rw [if_pos (by omega), (montgomeryReduce_add (hone.symm ▸ hmul _ _) (hmul _ _)).1, hone,
        toInt_mul_widen, toInt_mul_widen, sign, if_pos heven, one_mul]
      push_cast
      rfl
    · dsimp only
      rw [if_neg (by omega), if_pos (by omega),
        (montgomeryReduce_add (hneg.symm ▸ (abs_neg _).trans_le (hmul _ _)) (hmul _ _)).1, hneg,
        toInt_mul_widen, toInt_mul_widen, sign, if_neg (by omega), neg_one_mul]
      push_cast
      rfl
  · rw [Poly.pointwiseMul, basemul, Poly.zq, Poly.val, Poly.coef_ofFn _ (by omega)]
    dsimp only
    rw [if_neg (by omega), if_neg (by omega), Nat.add_sub_cancel,
      (montgomeryReduce_add (hmul _ _) (hmul _ _)).1, toInt_mul_widen, toInt_mul_widen]
    push_cast
    rfl

/-! ### When the product is right -/

theorem sign_ne_root : ∀ n < 128, sign n - root (128 + n) ≠ 0 ∧ root (128 + n) ≠ 0 := by
  decide +kernel

/-- The polynomial of the residues of the coefficients. -/
noncomputable abbrev Poly.toPolynomial (p : Poly) : Zq[X] := Ntt.block p.zq 256 0

/-- The polynomial of the residues of the odd coefficients. -/
noncomputable abbrev Poly.oddPolynomial (p : Poly) : Zq[X] := Ntt.block (Ntt.oddPart p.zq) 256 0

theorem isUnit_two : IsUnit (2 : Zq) := (show (2 : Zq) ≠ 0 by decide).isUnit

/-- The residues of a polynomial are the coefficients of its transform. -/
theorem toNtt_residue {p : Poly} {M : ℤ} (hp : p.Bounded M) (hM : M ≤ 11389) {n : ℕ}
    (hn : n < 128) :
    Ntt.Residue (root (128 + n)) (p.toNtt.zq (2 * n)) (p.toNtt.zq (2 * n + 1)) p.toPolynomial ∧
      Ntt.Residue (root (128 + n)) 0 (p.toNtt.zq (2 * n + 1)) p.oddPolynomial := by
  obtain ⟨hrep, -⟩ := ntt_spec hp hM
  have hall := hrep.residue hn
  have hodd := (hrep.oddPart isUnit_two even_two).residue hn
  rw [Ntt.oddPart, Ntt.oddPart, if_neg (by omega), if_pos (by omega)] at hodd
  rw [one_mul, one_mul] at hall
  rw [mul_zero, one_mul] at hodd
  exact ⟨hall, hodd⟩

/-- The residues of a product are the products of the residues modulo `X ^ 2 - 1` and
`X ^ 2 + 1`. -/
theorem fromNtt_pointwiseMul_residue {a b : Poly} (ha : a.Bounded 28000) (hb : b.Bounded 28000)
    (hwrap : NoWrap (a.pointwiseMul b 1#16)) {n : ℕ} (hn : n < 128) :
    Ntt.Residue (root (128 + n))
      (a.zq (2 * n) * b.zq (2 * n) + sign n * (a.zq (2 * n + 1) * b.zq (2 * n + 1)))
      (a.zq (2 * n) * b.zq (2 * n + 1) + a.zq (2 * n + 1) * b.zq (2 * n))
      (a.pointwiseMul b 1#16).fromNtt.toPolynomial := by
  have hres := (fromNtt_spec hwrap).residue hn
  obtain ⟨heven, hodd⟩ := pointwiseMul_spec ha hb hn
  rwa [heven, hodd, montR_mul_invMontR, montR_mul_invMontR, add_comm (sign n * _)] at hres

/-- Modulo every quadratic factor, the error of the product is a multiple of the product of the odd
parts by a unit. -/
theorem nttMul_factor {a b : Poly} {M : ℤ} (ha : a.Bounded M) (hb : b.Bounded M) (hM : M ≤ 11389)
    (hwrap : NoWrap (a.toNtt.pointwiseMul b.toNtt 1#16)) {n : ℕ} (hn : n < 128) :
    Ntt.modulus root 2 (128 + n) ∣
        (nttMul a b).toPolynomial - a.toPolynomial * b.toPolynomial ↔
      Ntt.modulus root 2 (128 + n) ∣ a.oddPolynomial * b.oddPolynomial := by
  obtain ⟨hA, hOA⟩ := toNtt_residue ha hM hn
  obtain ⟨hB, hOB⟩ := toNtt_residue hb hM hn
  have hD := fromNtt_pointwiseMul_residue (fun i => ((ntt_spec ha hM).2 i).trans (by omega))
    (fun i => ((ntt_spec hb hM).2 i).trans (by omega)) hwrap hn
  obtain ⟨hsign, hroot⟩ := sign_ne_root n hn
  have herror := hD.sub (hA.mul hB)
  have hodd := hOA.mul hOB
  rw [add_sub_add_left_eq_sub, ← sub_mul, sub_self] at herror
  simp only [mul_zero, zero_mul, zero_add] at hodd
  rw [Ntt.modulus, nttMul, herror.dvd_iff hsign.isUnit, hodd.dvd_iff hroot.isUnit]

/-- What all the quadratic factors divide, `X ^ 256 + 1` divides. -/
theorem ringModulus_dvd_iff (D : Zq[X]) :
    Ntt.ringModulus Zq 256 ∣ D ↔ ∀ n < 128, Ntt.modulus root 2 (128 + n) ∣ D := by
  have hlevel := root_tree.dvd_root_iff 7 (by decide) 2 D
  rw [show 2 ^ 7 * 2 = 256 by norm_num, show 2 ^ 7 = 128 by norm_num] at hlevel
  rwa [Ntt.modulus_one rfl] at hlevel

/-- The product is right modulo `X ^ 256 + 1` if and only if the product of the odd parts
vanishes. -/
theorem nttMul_dvd {a b : Poly} {M : ℤ} (ha : a.Bounded M) (hb : b.Bounded M) (hM : M ≤ 11389)
    (hwrap : NoWrap (a.toNtt.pointwiseMul b.toNtt 1#16)) :
    Ntt.ringModulus Zq 256 ∣ (nttMul a b).toPolynomial - a.toPolynomial * b.toPolynomial ↔
      Ntt.ringModulus Zq 256 ∣ a.oddPolynomial * b.oddPolynomial := by
  rw [ringModulus_dvd_iff, ringModulus_dvd_iff]
  exact forall₂_congr fun n hn => nttMul_factor ha hb hM hwrap hn

/-- All coefficients are in `[0, q)`. -/
def Poly.Reduced (p : Poly) : Prop := ∀ i < 256, 0 ≤ p.val i ∧ p.val i < 3329

theorem Poly.Reduced.bounded {p : Poly} (h : p.Reduced) : p.Bounded 3328 := by
  intro i
  by_cases hi : i < 256
  · obtain ⟨hlow, hhigh⟩ := h i hi
    rw [abs_le]
    omega
  · rw [Poly.val, Poly.coef_of_le _ (Nat.le_of_not_lt hi)]
    decide

theorem negacyclic_cast (f g : ℕ → ℤ) (i : ℕ) :
    ((Ntt.negacyclic 256 f g i : ℤ) : Zq) =
      Ntt.negacyclic 256 (fun j => (f j : Zq)) (fun j => (g j : Zq)) i :=
  Ntt.map_negacyclic (Int.castRingHom Zq) 256 f g i

theorem oddPart_cast (f : ℕ → ℤ) :
    (fun j => ((Ntt.oddPart f j : ℤ) : Zq)) = Ntt.oddPart fun j => (f j : Zq) := by
  funext j
  rw [Ntt.oddPart, Ntt.oddPart]
  split
  · rfl
  · exact Int.cast_zero

/-- The product is the negacyclic one modulo `q` if and only if the product of the odd parts
vanishes, provided that no sum of `from_ntt` wraps. -/
theorem nttMul_iff (a b : Poly) (ha : a.Reduced) (hb : b.Reduced)
    (hwrap : NoWrap (a.toNtt.pointwiseMul b.toNtt 1#16)) :
    (∀ i < 256, (nttMul a b).val i ≡ Ntt.negacyclic 256 a.val b.val i [ZMOD 3329]) ↔
      ∀ i < 256,
        Ntt.negacyclic 256 (Ntt.oddPart a.val) (Ntt.oddPart b.val) i ≡ 0 [ZMOD 3329] := by
  have hdvd := nttMul_dvd ha.bounded hb.bounded (by decide) hwrap
  have hproduct := Ntt.dvd_block_sub_mul_iff (N := 256) (by decide) a.zq b.zq (nttMul a b).zq
  have hodd := Ntt.dvd_mul_iff (N := 256) (by decide) (Ntt.oddPart a.zq) (Ntt.oddPart b.zq)
  refine Iff.trans (forall₂_congr fun i _ => ?_) (hproduct.symm.trans (hdvd.trans (hodd.trans
    (forall₂_congr fun i _ => ?_))))
  · refine (ZMod.intCast_eq_intCast_iff _ _ 3329).symm.trans ?_
    rw [negacyclic_cast]
    rfl
  · refine Iff.trans ?_ (ZMod.intCast_eq_intCast_iff _ _ 3329)
    rw [negacyclic_cast, oddPart_cast, oddPart_cast, Int.cast_zero]
    rfl

/-! ### Two products that are wrong -/

/-- The polynomial with coefficient `c` at the indices that are `r` modulo `d`. -/
def Poly.comb (d : ℕ) (c : BitVec 16) (r : ℕ) : Poly :=
  Vector.ofFn fun i => if i.val % d = r then c else 0#16

theorem coef_comb (d : ℕ) (c : BitVec 16) (r : ℕ) {i : ℕ} (hi : i < 256) :
    (Poly.comb d c r).coef i = if i % d = r then c else 0#16 := Poly.coef_ofFn _ hi

theorem montgomeryReduce_zero (ζ : BitVec 16) :
    montgomeryReduce (ζ.signExtend 32 * (0#16).signExtend 32) = 0#16 := by
  rw [show (0#16).signExtend 32 = 0#32 from rfl, BitVec.mul_zero]
  rfl

/-- The indices of a pair are indices of coefficients. -/
theorem pair_lt {len B b o : ℕ} (hlen : len * B = 128) (hb : b < B) (ho : o < len) :
    len * (2 * b) + o < 256 ∧ len * (2 * b + 1) + o < 256 := by
  have hle : len * (2 * (b + 1)) ≤ len * (2 * B) := Nat.mul_le_mul_left len (by omega)
  have hsize : len * (2 * B) = 256 := by rw [Nat.mul_left_comm, hlen]
  have hlow : len * (2 * (b + 1)) = len * (2 * b) + 2 * len := by ring
  have hhigh : len * (2 * b + 1) = len * (2 * b) + len := by ring
  omega

/-- A pair in blocks of twice the length: the coefficient is in the first of the two. -/
theorem comb_double {len B b o r : ℕ} (hlen : len * B = 128) (hb : b < B) (ho : o < len)
    (hr : r < len) (c : BitVec 16) :
    (Poly.comb (2 * len) c r).coef (len * (2 * b) + o) = (if o = r then c else 0#16) ∧
      (Poly.comb (2 * len) c r).coef (len * (2 * b + 1) + o) = 0#16 := by
  obtain ⟨hlow, hhigh⟩ := pair_lt hlen hb ho
  have hfirst : len * (2 * b) + o = 2 * len * b + o := by ring
  have hsecond : len * (2 * b + 1) + o = 2 * len * b + (len + o) := by ring
  rw [coef_comb _ _ _ hlow, coef_comb _ _ _ hhigh, hfirst, hsecond, Nat.mul_add_mod,
    Nat.mul_add_mod, Nat.mod_eq_of_lt (by omega), Nat.mod_eq_of_lt (by omega)]
  exact ⟨rfl, if_neg (by omega)⟩

/-- A pair in blocks of the same length: the coefficient is in both. -/
theorem comb_same {len B b o r : ℕ} (hlen : len * B = 128) (hb : b < B) (ho : o < len)
    (c : BitVec 16) :
    (Poly.comb len c r).coef (len * (2 * b) + o) = (if o = r then c else 0#16) ∧
      (Poly.comb len c r).coef (len * (2 * b + 1) + o) = (if o = r then c else 0#16) := by
  obtain ⟨hlow, hhigh⟩ := pair_lt hlen hb ho
  rw [coef_comb _ _ _ hlow, coef_comb _ _ _ hhigh, Nat.mul_add_mod, Nat.mul_add_mod,
    Nat.mod_eq_of_lt ho]
  exact ⟨rfl, rfl⟩

/-- A layer of the forward transform, on one coefficient in every block. -/
theorem nttLayer_comb {len B r : ℕ} (hlen : len * B = 128) (hr : r < len) (c : BitVec 16) :
    layer nttPair zetas len (B, Poly.comb (2 * len) c r) = (2 * B, Poly.comb len c r) := by
  obtain ⟨hcount, hlow, hhigh, -⟩ :=
    layer_spec nttPair zetas B hlen (Poly.comb (2 * len) c r)
  refine Prod.ext (hcount.trans (Nat.two_mul B).symm) (Poly.ext_coef ?_)
  refine forall_pairs hlen fun b hb o ho => ?_
  obtain ⟨hbefore, hzero⟩ := comb_double hlen hb ho hr c
  obtain ⟨hfirst, hsecond⟩ := comb_same hlen hb ho c
  rw [hlow b hb o ho, hhigh b hb o ho, hbefore, hzero, hfirst, hsecond, nttPair,
    montgomeryReduce_zero]
  exact ⟨BitVec.add_zero _, BitVec.sub_zero _⟩

/-- The transform of a polynomial of degree at most one. -/
theorem nttLayers_comb {m B r : ℕ} (hm : 2 ^ m * B = 128) (hr : r < 2) (c : BitVec 16) :
    (nttLayers m (B, Poly.comb (2 ^ (m + 1)) c r)).2 = Poly.comb 2 c r := by
  induction m generalizing B with
  | zero => rfl
  | succ m ih =>
      have hlt : r < 2 ^ (m + 1) := by
        have hpos := Nat.two_pow_pos m
        rw [pow_succ]
        omega
      rw [nttLayers, pow_succ' 2 (m + 1), nttLayer_comb hm hlt]
      exact ih (by rw [← hm, pow_succ, mul_assoc])

theorem toNtt_comb {r : ℕ} (hr : r < 2) (c : BitVec 16) :
    (Poly.comb 256 c r).toNtt = Poly.comb 2 c r := nttLayers_comb (m := 7) rfl hr c

/-- The first `m` layers of the inverse transform, on the same constant in every block. -/
theorem invnttLayers_comb {m : ℕ} (hm : m ≤ 7) (c : BitVec 16) :
    (invnttLayers m (0, Poly.comb 2 c 0)).2 =
      Poly.comb (2 ^ (m + 1)) (BitVec.ofNat 16 (2 ^ m) * c) 0 := by
  induction m with
  | zero => rw [pow_zero, BitVec.one_mul]; rfl
  | succ m ih =>
      have hlen := invnttLayer_size (m := m) (by omega)
      obtain ⟨-, hlow, hhigh, -⟩ := invnttLayers_succ (by omega) (Poly.comb 2 c 0)
        (invnttLayers_count (m := m) (by omega) _)
      rw [ih (by omega)] at hlow hhigh
      refine Poly.ext_coef (forall_pairs hlen fun b hb o ho => ?_)
      obtain ⟨hfirst, hsecond⟩ := comb_same hlen hb ho (BitVec.ofNat 16 (2 ^ m) * c)
      obtain ⟨hafter, hzero⟩ := comb_double hlen hb ho (Nat.two_pow_pos _)
        (BitVec.ofNat 16 (2 ^ (m + 1)) * c)
      rw [pow_succ' 2 (m + 1), hlow b hb o ho, hhigh b hb o ho, hfirst, hsecond, hafter, hzero,
        invnttPair, BitVec.sub_self, montgomeryReduce_zero]
      refine ⟨?_, rfl⟩
      dsimp only
      split
      · rw [pow_succ 2 m, Nat.mul_two, BitVec.ofNat_add, BitVec.add_mul]
      · rfl

/-- The sums of a constant stay in range as long as 128 times the constant does. -/
theorem noWrap_comb {c : BitVec 16} (hc : |c.toInt| ≤ 255) : NoWrap (Poly.comb 2 c 0) := by
  rw [abs_le] at hc
  intro m hm b hb o ho
  have hvalue : (BitVec.ofNat 16 (2 ^ m) * c).toInt = 2 ^ m * c.toInt := by
    have hpow : (BitVec.ofNat 16 (2 ^ m)).toInt = 2 ^ m := by
      interval_cases m <;> rfl
    rw [BitVec.toInt_mul, hpow, bmod16_of_fits]
    rw [FitsI16]
    interval_cases m <;> omega
  have hfits : FitsI16 (2 ^ m * c.toInt + 2 ^ m * c.toInt) := by
    rw [FitsI16]
    interval_cases m <;> omega
  rw [← invnttLayer_size hm, Nat.mul_div_cancel_left _ (Nat.two_pow_pos _)] at hb
  obtain ⟨hfirst, hsecond⟩ := comb_same (invnttLayer_size hm) hb ho (BitVec.ofNat 16 (2 ^ m) * c)
  rw [invnttLayers_comb (by omega), Poly.val, Poly.val, hfirst, hsecond, sub_self]
  refine ⟨?_, by decide⟩
  split
  · rwa [hvalue]
  · decide

/-- `pointwise_mul` of two constants. -/
theorem pointwiseMul_comb (c d : BitVec 16) :
    (Poly.comb 2 c 0).pointwiseMul (Poly.comb 2 d 0) 1#16 =
      Poly.comb 2 (montgomeryReduce (c.signExtend 32 * d.signExtend 32)) 0 := by
  refine Poly.ext_coef fun i hi => ?_
  have hzero : (0#16).signExtend 32 = 0#32 := rfl
  rw [Poly.pointwiseMul, basemul, Poly.coef_ofFn _ hi, coef_comb _ _ _ hi]
  dsimp only
  rcases Nat.mod_two_eq_zero_or_one i with heven | hodd
  · have hlt : i + 1 < 256 := by omega
    rw [coef_comb _ _ _ hlt, coef_comb _ _ _ hlt, coef_comb _ _ _ hi, coef_comb _ _ _ hi,
      if_neg (show (i + 1) % 2 ≠ 0 by omega), if_pos heven, if_pos heven, if_pos heven, hzero]
    simp only [BitVec.zero_mul, BitVec.zero_add]
    split
    · rfl
    · rw [if_pos (by omega)]
  · have hlt : i - 1 < 256 := by omega
    have hne : ¬ i % 2 = 0 := by omega
    rw [if_neg (by omega), if_neg (by omega), coef_comb _ _ _ hlt, coef_comb _ _ _ hlt,
      coef_comb _ _ _ hi, coef_comb _ _ _ hi]
    simp only [if_neg hne, hzero, BitVec.mul_zero, BitVec.zero_mul]
    rfl

/-- `1 · 1` is computed without a wrap. -/
theorem nttMul_iff_one :
    (∀ i < 256, (nttMul (Poly.comb 256 1#16 0) (Poly.comb 256 1#16 0)).val i ≡
        Ntt.negacyclic 256 (Poly.comb 256 1#16 0).val (Poly.comb 256 1#16 0).val i [ZMOD 3329]) ↔
      ∀ i < 256, Ntt.negacyclic 256 (Ntt.oddPart (Poly.comb 256 1#16 0).val)
        (Ntt.oddPart (Poly.comb 256 1#16 0).val) i ≡ 0 [ZMOD 3329] := by
  have hreduced : (Poly.comb 256 1#16 0).Reduced := by
    intro i hi
    rw [Poly.val, coef_comb _ _ _ hi]
    split <;> decide
  refine nttMul_iff _ _ hreduced hreduced ?_
  rw [toNtt_comb (by decide), pointwiseMul_comb]
  exact noWrap_comb (by decide)

/-- Coefficient `i` after the first `m` layers of the inverse transform. -/
def invnttCoef (p : ℕ → BitVec 16) : ℕ → ℕ → BitVec 16
  | 0, i => p i
  | m + 1, i =>
      if i / 2 ^ (m + 1) % 2 = 0 then invnttCoef p m i + invnttCoef p m (i + 2 ^ (m + 1))
      else (invnttPair (zetasInv.getD (128 - 2 ^ (7 - m) + i / 2 ^ (m + 1) / 2) 0#16)
        (invnttCoef p m (i - 2 ^ (m + 1))) (invnttCoef p m i)).2

theorem invnttLayers_coef {m : ℕ} (hm : m ≤ 7) (p : Poly) :
    ∀ i < 256, (invnttLayers m (0, p)).2.coef i = invnttCoef p.coef m i := by
  induction m with
  | zero => exact fun i _ => rfl
  | succ m ih =>
      have hlen := invnttLayer_size (m := m) (by omega)
      obtain ⟨-, hlow, hhigh, -⟩ := invnttLayers_succ (by omega) p
        (invnttLayers_count (m := m) (by omega) _)
      have ih := ih (by omega)
      refine forall_pairs hlen fun b hb o ho => ?_
      obtain ⟨hltlow, hlthigh⟩ := pair_lt hlen hb ho
      have hdivlow : (2 ^ (m + 1) * (2 * b) + o) / 2 ^ (m + 1) = 2 * b := by
        rw [Nat.mul_add_div (Nat.two_pow_pos _), Nat.div_eq_of_lt ho, Nat.add_zero]
      have hdivhigh : (2 ^ (m + 1) * (2 * b + 1) + o) / 2 ^ (m + 1) = 2 * b + 1 := by
        rw [Nat.mul_add_div (Nat.two_pow_pos _), Nat.div_eq_of_lt ho, Nat.add_zero]
      have hnext : 2 ^ (m + 1) * (2 * b) + o + 2 ^ (m + 1) = 2 ^ (m + 1) * (2 * b + 1) + o := by
        ring
      rw [hlow b hb o ho, hhigh b hb o ho, invnttCoef, invnttCoef, hdivlow, hdivhigh,
        if_pos (by omega), if_neg (by omega), show (2 * b + 1) / 2 = b by omega,
        ih _ hltlow, ih _ hlthigh, ← hnext, Nat.add_sub_cancel]
      exact ⟨rfl, rfl⟩

theorem val_comb {r : ℕ} (hr : r < 256) (c : BitVec 16) :
    (Poly.comb 256 c r).val = fun i => if i = r then c.toInt else 0 := by
  funext i
  by_cases hi : i < 256
  · rw [Poly.val, coef_comb _ _ _ hi, Nat.mod_eq_of_lt hi]
    split <;> rfl
  · rw [Poly.val, Poly.coef_of_le _ (by omega), if_neg (by omega)]
    rfl

theorem nttMul_val (a b : Poly) {i : ℕ} (hi : i < 256) :
    (nttMul a b).val i =
      (montgomeryReduce ((invnttCoef (a.toNtt.pointwiseMul b.toNtt 1#16).coef 7 i).signExtend 32 *
        1441#32)).toInt := by
  rw [nttMul, Poly.fromNtt, invntt, Poly.val, Poly.coef_ofFn _ hi,
    invnttLayers_coef (le_refl 7) _ _ hi]

/-- `X · X` in the transformed domain. -/
theorem coef_pointwiseMul_X :
    ((Poly.comb 256 1#16 1).toNtt.pointwiseMul (Poly.comb 256 1#16 1).toNtt 1#16).coef =
      fun i => if 256 ≤ i then 0#16 else if i % 4 = 0 then 169#16 else
        if i % 4 = 2 then -169#16 else 0#16 := by
  rw [toNtt_comb (by decide)]
  funext i
  by_cases hi : i < 256
  · have hzero : (0#16).signExtend 32 = 0#32 := rfl
    rw [if_neg (by omega), Poly.pointwiseMul, basemul, Poly.coef_ofFn _ hi]
    dsimp only
    rcases Nat.mod_two_eq_zero_or_one i with heven | hodd
    · have hlt : i + 1 < 256 := by omega
      rw [coef_comb _ _ _ hlt, coef_comb _ _ _ hi, if_pos (show (i + 1) % 2 = 1 by omega),
        if_neg (show ¬ i % 2 = 1 by omega), hzero]
      split
      · rfl
      · rw [if_pos (by omega), if_pos (by omega)]
        rfl
    · have hlt : i - 1 < 256 := by omega
      rw [if_neg (by omega), if_neg (by omega), if_neg (by omega), if_neg (by omega),
        coef_comb _ _ _ hlt, coef_comb _ _ _ hi, if_neg (show ¬ (i - 1) % 2 = 1 by omega), hzero,
        BitVec.mul_zero, BitVec.zero_mul]
      rfl
  · rw [Poly.coef_of_le _ (by omega), if_pos (by omega)]

/-- Coefficient 2 of `X · X` is not 1, and the constant coefficient of `1 · 2` is not 2. -/
theorem nttMul_wrong :
    ¬ (nttMul (Poly.comb 256 1#16 1) (Poly.comb 256 1#16 1)).val 2 ≡
        Ntt.negacyclic 256 (Poly.comb 256 1#16 1).val (Poly.comb 256 1#16 1).val 2 [ZMOD 3329] ∧
      ¬ (nttMul (Poly.comb 256 1#16 0) (Poly.comb 256 2#16 0)).val 0 ≡
        Ntt.negacyclic 256 (Poly.comb 256 1#16 0).val (Poly.comb 256 2#16 0).val 0 [ZMOD 3329] := by
  constructor
  · rw [nttMul_val _ _ (by decide), coef_pointwiseMul_X, val_comb (by decide)]
    decide +kernel
  · rw [nttMul_val _ _ (by decide), toNtt_comb (by decide), toNtt_comb (by decide),
      pointwiseMul_comb, ← invnttLayers_coef (le_refl 7) _ _ (by decide),
      invnttLayers_comb (le_refl 7), val_comb (by decide), val_comb (by decide)]
    decide +kernel

end StarOS
