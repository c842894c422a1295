/-
The compression of Kyber ciphertexts (`compress` and `decompress` of `crypto/kyber/poly.rs`, and
`Ciphertext` of `encaps.rs`).

`compress` packs 4 and 5 bits only.  With the 10 bits that a ciphertext takes for `u` it writes
nothing, so that the ciphertext has the 128 bytes of `v`, and `from_bytes` slices past them.  With 5
bits it writes a byte too many.  With 4 bits the lengths are right, but a coefficient below -104 is
widened to a large unsigned number and comes back wrong.

* `StarOS.Poly.compress`, `StarOS.Poly.decompress` — the packing;
* `StarOS.Ciphertext.toBytes`, `StarOS.Ciphertext.fromBytes` — ciphertexts;
* `StarOS.Near` — a distance modulo 3329;
* `StarOS.length_compress` — how many bytes are written;
* `StarOS.Poly.decompress_compress` — packing is undone;
* `StarOS.compress_survives_iff` — which polynomials survive;
* `StarOS.kyber_ciphertext_never` — no ciphertext and no polynomial is encoded as it should be.
-/

import StarOS.BigEndian
import StarOS.Bits
import StarOS.KyberKem

set_option autoImplicit false

namespace StarOS

open Bits (bitAt)

namespace Poly

/-! ### Packing -/

/-- `(1u16 << d) - 1`. -/
def bitMask (d : ℕ) : BitVec 16 := 1#16 <<< d - 1#16

/-- The `d` bits of a coefficient.  The sum wraps, where overflow is not checked. -/
def compressCoef (d : ℕ) (x : BitVec 16) : BitVec 16 :=
  ((x.signExtend 32 <<< d + 1664#32) / 3329#32).setWidth 16 &&& bitMask d

/-- A round of the loop of `compress`. -/
def compressStep (p : Poly) (d : ℕ) (bytes : Bytes) (i : ℕ) : Bytes :=
  let t := compressCoef d (p.coef i)
  if d = 4 then
    if i % 2 = 0 then bytes ++ [t.setWidth 8]
    else bytes.modify (bytes.length - 1) fun b => b ||| t.setWidth 8 <<< 4
  else if d = 5 then
    let bitPos := i * d % 8
    let bytePos := i * d / 8
    -- `while bytes.len() <= byte_pos + 1 { bytes.push(0) }`
    let bytes := bytes ++ List.replicate (bytePos + 2 - bytes.length) 0#8
    let bytes := bytes.modify bytePos fun b => b ||| (t <<< bitPos &&& 0xFF#16).setWidth 8
    if 8 < bitPos + d then
      bytes.modify (bytePos + 1) fun b => b ||| (t >>> (8 - bitPos)).setWidth 8
    else bytes
  else bytes

/-- `Poly::compress`. -/
def compress (p : Poly) (d : ℕ) : Bytes := (List.range 256).foldl (p.compressStep d) []

/-- The bits of coefficient `i`; there are none if an index is out of range. -/
def unpackBits (bytes : Bytes) (d i : ℕ) : Option (BitVec 16) :=
  if d = 4 then
    bytes[i / 2]?.map fun b : BitVec 8 =>
      if i % 2 = 0 then (b &&& 0x0F#8).setWidth 16 else (b >>> 4).setWidth 16
  else if d = 5 then
    let bitPos : ℕ := i * d % 8
    let bytePos : ℕ := i * d / 8
    bytes[bytePos]?.map fun b : BitVec 8 =>
      let t : BitVec 16 := b.setWidth 16 >>> bitPos &&& bitMask d
      if 8 < bitPos + d then
        match bytes[bytePos + 1]? with
        | some b => t ||| ((b.setWidth 16 : BitVec 16) <<< (8 - bitPos) &&& bitMask d)
        | none => t
      else t
  else some 0#16

/-- The coefficient of `d` bits. -/
def decompressCoef (d : ℕ) (t : BitVec 16) : BitVec 16 :=
  ((t.setWidth 32 * 3329#32 + 1#32 <<< (d - 1)) >>> d).setWidth 16

/-- `Poly::decompress`. -/
def decompress (bytes : Bytes) (d : ℕ) : Option Poly :=
  (List.range 256).foldlM (fun poly i =>
    (unpackBits bytes d i).map fun t => poly.put i (decompressCoef d t)) zero

end Poly

/-! ### Ciphertexts -/

/-- `Ciphertext::to_bytes`. -/
def Ciphertext.toBytes (ct : Ciphertext) : Bytes :=
  ((List.finRange 3).flatMap fun j => (ct.u j).compress 10) ++ ct.v.compress 4

/-- `Ciphertext::from_bytes`; it panics if the bytes are too few. -/
def Ciphertext.fromBytes (bytes : Bytes) : Option Ciphertext := do
  let u0 ← (byteSlice bytes 0 320).bind (Poly.decompress · 10)
  let u1 ← (byteSlice bytes 320 640).bind (Poly.decompress · 10)
  let u2 ← (byteSlice bytes 640 960).bind (Poly.decompress · 10)
  let v ← (byteSlice bytes 960 1088).bind (Poly.decompress · 4)
  some ⟨![u0, u1, u2], v⟩

/-! ### Lengths -/

namespace Poly

/-- The bytes after `m` rounds. -/
def compressed (p : Poly) (d m : ℕ) : Bytes := (List.range m).foldl (p.compressStep d) []

theorem compressed_succ (p : Poly) (d m : ℕ) :
    p.compressed d (m + 1) = p.compressStep d (p.compressed d m) m := by
  rw [compressed, List.range_succ, List.foldl_append, List.foldl_cons, List.foldl_nil, compressed]

theorem length_compressed_four (p : Poly) (m : ℕ) : (p.compressed 4 m).length = (m + 1) / 2 := by
  induction m with
  | zero => rfl
  | succ m ih =>
      rw [compressed_succ, compressStep, if_pos rfl]
      split
      · rw [List.length_append, ih, List.length_singleton]
        omega
      · rw [List.length_modify, ih]
        omega

theorem length_compressed_five (p : Poly) (m : ℕ) :
    (p.compressed 5 (m + 1)).length = m * 5 / 8 + 2 := by
  have hstep : ∀ (bytes : Bytes) (i : ℕ), bytes.length ≤ i * 5 / 8 + 2 →
      (p.compressStep 5 bytes i).length = i * 5 / 8 + 2 := by
    intro bytes i hle
    rw [compressStep, if_neg (by decide), if_pos rfl]
    dsimp only
    split
    · rw [List.length_modify, List.length_modify, List.length_append, List.length_replicate]
      omega
    · rw [List.length_modify, List.length_append, List.length_replicate]
      omega
  induction m with
  | zero =>
      rw [compressed_succ]
      exact hstep _ _ (Nat.zero_le _)
  | succ m ih =>
      rw [compressed_succ]
      exact hstep _ _ (by rw [ih]; omega)

theorem compressed_other (p : Poly) {d : ℕ} (h4 : d ≠ 4) (h5 : d ≠ 5) (m : ℕ) :
    p.compressed d m = [] := by
  induction m with
  | zero => rfl
  | succ m ih => rw [compressed_succ, ih, compressStep, if_neg h4, if_neg h5]

/-- How many bytes are written: 128 for four bits, 161 for five, and none otherwise. -/
theorem length_compress (p : Poly) (d : ℕ) :
    (p.compress d).length = if d = 4 then 128 else if d = 5 then 161 else 0 := by
  change (p.compressed d 256).length = _
  by_cases h4 : d = 4
  · rw [if_pos h4, h4, length_compressed_four]
  · by_cases h5 : d = 5
    · rw [if_neg h4, if_pos h5, h5, length_compressed_five]
    · rw [if_neg h4, if_neg h5, compressed_other p h4 h5]
      rfl

end Poly

/-- A ciphertext has the bytes of `v` only. -/
theorem Ciphertext.length_toBytes (ct : Ciphertext) : ct.toBytes.length = 128 := by
  have hu : ∀ j, (ct.u j).compress 10 = [] := fun j =>
    List.eq_nil_of_length_eq_zero (Poly.length_compress _ 10)
  have hflat : ((List.finRange 3).flatMap fun j => (ct.u j).compress 10) = [] :=
    List.flatMap_eq_nil_iff.2 fun j _ => hu j
  rw [toBytes, hflat, List.nil_append, Poly.length_compress, if_pos rfl]

/-- It cannot be read: the slices end behind it. -/
theorem Ciphertext.fromBytes_toBytes (ct : Ciphertext) : fromBytes ct.toBytes = none := by
  have hslice : byteSlice ct.toBytes 0 320 = none := by
    rw [byteSlice, if_neg]
    rw [ct.length_toBytes]
    decide
  rw [fromBytes, hslice]
  rfl

namespace Poly

/-! ### Packing is undone -/

/-- What becomes of a coefficient that is packed into `d` bits. -/
def lossyCoef (d : ℕ) (x : BitVec 16) : BitVec 16 := decompressCoef d (compressCoef d x)

theorem getLsbD_bitMask {d : ℕ} (hd : d < 16) (k : ℕ) :
    (bitMask d).getLsbD k = decide (k < d) := by
  have hsmall : ∀ d < 16, ∀ k < 16, (bitMask d).getLsbD k = decide (k < d) := by decide
  by_cases hk : k < 16
  · exact hsmall d hd k hk
  · rw [BitVec.getLsbD_of_ge _ _ (Nat.not_lt.1 hk), decide_eq_false (by omega)]

theorem getLsbD_compressCoef {d k : ℕ} (hd : d < 16) (hk : d ≤ k) (x : BitVec 16) :
    (compressCoef d x).getLsbD k = false := by
  rw [compressCoef, BitVec.getLsbD_and, getLsbD_bitMask hd, decide_eq_false (Nat.not_lt.2 hk),
    Bool.and_false]

/-- With four bits, a round adds those of its coefficient. -/
theorem bitAt_step_four (p : Poly) {bytes : Bytes} {i : ℕ} (hlen : bytes.length = (i + 1) / 2)
    (n : ℕ) :
    bitAt (p.compressStep 4 bytes i) n =
      (bitAt bytes n || (decide (n / 4 = i) && (compressCoef 4 (p.coef i)).getLsbD (n % 4))) := by
  have hhigh := fun k (hk : 4 ≤ k) => getLsbD_compressCoef (d := 4) (by decide) hk (p.coef i)
  rw [compressStep, if_pos rfl]
  split
  · rename_i heven
    rw [Bits.bitAt_push, BitVec.getLsbD_setWidth, decide_eq_true (Nat.mod_lt n (by decide)),
      Bool.true_and, hlen]
    refine congrArg (bitAt bytes n || ·) ?_
    by_cases hn : n / 4 = i
    · rw [decide_eq_true hn, decide_eq_true (by omega), show n % 8 = n % 4 by omega]
    · rw [decide_eq_false hn, Bool.false_and]
      by_cases hbyte : n / 8 = (i + 1) / 2
      · rw [hhigh _ (by omega), Bool.and_false]
      · rw [decide_eq_false hbyte, Bool.false_and]
  · rename_i hodd
    rw [Bits.bitAt_modify _ (by omega), BitVec.getLsbD_shiftLeft, BitVec.getLsbD_setWidth,
      decide_eq_true (Nat.mod_lt n (by decide)), Bool.true_and, hlen]
    refine congrArg (bitAt bytes n || ·) ?_
    by_cases hn : n / 4 = i
    · rw [decide_eq_true hn, decide_eq_true (by omega), decide_eq_false (by omega),
        decide_eq_true (by omega), show n % 8 - 4 = n % 4 by omega]
      rfl
    · rw [decide_eq_false hn, Bool.false_and]
      by_cases hbyte : n / 8 = (i + 1) / 2 - 1
      · rw [decide_eq_true (by omega : n % 8 < 4), Bool.not_true, Bool.false_and, Bool.and_false]
      · rw [decide_eq_false hbyte, Bool.false_and]

theorem bit_eq_of_shift {d n i : ℕ} {t : BitVec 16} (hd : 0 < d)
    (hhigh : ∀ k, d ≤ k → t.getLsbD k = false) :
    (decide (n / d = i) && t.getLsbD (n % d)) = (decide (d * i ≤ n) && t.getLsbD (n - d * i)) := by
  have hn := Nat.div_add_mod n d
  have hmod := Nat.mod_lt n hd
  rcases Nat.lt_trichotomy (n / d) i with hlt | heq | hgt
  · have hle : d * (n / d) + d ≤ d * i := Nat.mul_le_mul_left d hlt
    rw [decide_eq_false hlt.ne, decide_eq_false (by omega), Bool.false_and, Bool.false_and]
  · subst heq
    rw [decide_eq_true rfl, decide_eq_true (by omega), show n - d * (n / d) = n % d by omega]
  · have hle : d * i + d ≤ d * (n / d) := Nat.mul_le_mul_left d hgt
    rw [decide_eq_false hgt.ne', hhigh (n - d * i) (by omega), Bool.false_and, Bool.and_false]

/-- The bits of a coefficient that go into the byte where it starts. -/
theorem getLsbD_low (t : BitVec 16) (b : ℕ) {k : ℕ} (hk : k < 8) :
    ((t <<< b &&& 0xFF#16).setWidth 8).getLsbD k = (decide (b ≤ k) && t.getLsbD (k - b)) := by
  have hmask : ∀ k < 8, (0xFF#16).getLsbD k = true := by decide
  rw [BitVec.getLsbD_setWidth, BitVec.getLsbD_and, BitVec.getLsbD_shiftLeft, hmask k hk,
    decide_eq_true hk, decide_eq_true (by omega : k < 16), Bool.true_and, Bool.true_and,
    Bool.and_true, ← decide_not]
  exact congrArg (· && _) (decide_eq_decide.2 Nat.not_lt)

/-- The bits that go into the next one. -/
theorem getLsbD_high (t : BitVec 16) (c : ℕ) {k : ℕ} (hk : k < 8) :
    ((t >>> c).setWidth 8).getLsbD k = t.getLsbD (c + k) := by
  rw [BitVec.getLsbD_setWidth, BitVec.getLsbD_ushiftRight, decide_eq_true hk, Bool.true_and]

/-- With five bits, a round adds those of its coefficient. -/
theorem bitAt_step_five (p : Poly) (bytes : Bytes) (i n : ℕ) :
    bitAt (p.compressStep 5 bytes i) n =
      (bitAt bytes n || (decide (n / 5 = i) && (compressCoef 5 (p.coef i)).getLsbD (n % 5))) := by
  have hhigh := fun k (hk : 5 ≤ k) => getLsbD_compressCoef (d := 5) (by decide) hk (p.coef i)
  have hmod := Nat.mod_lt n (by decide : 8 > 0)
  rw [bit_eq_of_shift (by decide) hhigh, compressStep, if_neg (by decide), if_pos rfl]
  dsimp only
  -- The padding adds no ones, and reaches behind both bytes.
  have hpad := Bits.bitAt_append_zeros bytes (i * 5 / 8 + 2 - bytes.length) n
  have hlen : i * 5 / 8 + 1 <
      (bytes ++ List.replicate (i * 5 / 8 + 2 - bytes.length) 0#8).length := by
    rw [List.length_append, List.length_replicate]
    omega
  split
  · rename_i hnext
    rw [Bits.bitAt_modify _ (by rwa [List.length_modify]), Bits.bitAt_modify _ (by omega), hpad,
      getLsbD_low _ _ hmod, getLsbD_high _ _ hmod, Bool.or_assoc]
    refine congrArg (bitAt bytes n || ·) ?_
    by_cases hbyte : n / 8 = i * 5 / 8
    · rw [decide_eq_true hbyte, decide_eq_false (by omega : ¬n / 8 = i * 5 / 8 + 1), Bool.true_and,
        Bool.false_and, Bool.or_false, show n % 8 - i * 5 % 8 = n - 5 * i by omega]
      exact congrArg (· && _) (decide_eq_decide.2 (by omega))
    · rw [decide_eq_false hbyte, Bool.false_and, Bool.false_or]
      by_cases hsecond : n / 8 = i * 5 / 8 + 1
      · rw [decide_eq_true hsecond, decide_eq_true (by omega),
          show 8 - i * 5 % 8 + n % 8 = n - 5 * i by omega]
      · rw [decide_eq_false hsecond, Bool.false_and]
        by_cases hle : 5 * i ≤ n
        · rw [hhigh (n - 5 * i) (by omega), Bool.and_false]
        · rw [decide_eq_false hle, Bool.false_and]
  · rename_i hfits
    rw [Bits.bitAt_modify _ (by omega), hpad, getLsbD_low _ _ hmod]
    refine congrArg (bitAt bytes n || ·) ?_
    by_cases hbyte : n / 8 = i * 5 / 8
    · rw [decide_eq_true hbyte, Bool.true_and, show n % 8 - i * 5 % 8 = n - 5 * i by omega]
      exact congrArg (· && _) (decide_eq_decide.2 (by omega))
    · rw [decide_eq_false hbyte, Bool.false_and]
      by_cases hle : 5 * i ≤ n
      · rw [hhigh (n - 5 * i) (by omega), Bool.and_false]
      · rw [decide_eq_false hle, Bool.false_and]

/-- The bits of the coefficients follow each other. -/
theorem bitAt_compressed (p : Poly) {d : ℕ} (hd : d = 4 ∨ d = 5) (m n : ℕ) :
    bitAt (p.compressed d m) n =
      (decide (n / d < m) && (compressCoef d (p.coef (n / d))).getLsbD (n % d)) := by
  induction m with
  | zero =>
      rw [decide_eq_false (Nat.not_lt_zero _), Bool.false_and]
      exact Bits.bitAt_nil n
  | succ m ih =>
      have hstep : bitAt (p.compressStep d (p.compressed d m) m) n =
          (bitAt (p.compressed d m) n ||
            (decide (n / d = m) && (compressCoef d (p.coef m)).getLsbD (n % d))) := by
        rcases hd with rfl | rfl
        · exact bitAt_step_four p (length_compressed_four p m) n
        · exact bitAt_step_five p _ m n
      rw [compressed_succ, hstep, ih]
      by_cases heq : n / d = m
      · rw [heq, decide_eq_false (lt_irrefl m), decide_eq_true rfl,
          decide_eq_true (Nat.lt_succ_self m), Bool.false_and, Bool.false_or]
      · rw [decide_eq_false heq, Bool.false_and, Bool.or_false]
        exact congrArg (· && _) (decide_eq_decide.2 (by omega))

theorem bitAt_compress (p : Poly) {d i k : ℕ} (hd : d = 4 ∨ d = 5) (hi : i < 256) (hk : k < d) :
    bitAt (p.compress d) (d * i + k) = (compressCoef d (p.coef i)).getLsbD k := by
  have hbit := bitAt_compressed p hd 256 (d * i + k)
  rw [Nat.mul_add_div (by omega), Nat.div_eq_of_lt hk, Nat.add_zero, Nat.mul_add_mod,
    Nat.mod_eq_of_lt hk, decide_eq_true hi, Bool.true_and] at hbit
  exact hbit

/-- Four bits are read if their byte is there. -/
theorem unpackBits_four {bytes : Bytes} {i : ℕ} (h : i / 2 < bytes.length) :
    ∃ t, unpackBits bytes 4 i = some t ∧
      ∀ k, t.getLsbD k = (decide (k < 4) && bitAt bytes (4 * i + k)) := by
  have hb := List.getElem?_eq_getElem h
  generalize bytes[i / 2] = b at hb
  have hbit := fun k (hk : k < 8) => Bits.bitAt_eq hb hk
  rw [unpackBits, if_pos rfl, hb]
  refine ⟨_, rfl, fun k => ?_⟩
  dsimp only
  split
  · rename_i heven
    have hmask : ∀ k < 8, (0x0F#8).getLsbD k = decide (k < 4) := by decide
    rw [BitVec.getLsbD_setWidth, BitVec.getLsbD_and]
    by_cases hk : k < 8
    · rw [hmask k hk, decide_eq_true (by omega : k < 16), Bool.true_and, Bool.and_comm, ← hbit k hk,
        show 8 * (i / 2) + k = 4 * i + k by omega]
    · rw [BitVec.getLsbD_of_ge b k (by omega), decide_eq_false (by omega : ¬k < 4), Bool.false_and,
        Bool.false_and, Bool.and_false]
  · rename_i hodd
    rw [BitVec.getLsbD_setWidth, BitVec.getLsbD_ushiftRight]
    by_cases hk : k < 4
    · rw [decide_eq_true hk, decide_eq_true (by omega : k < 16), ← hbit (4 + k) (by omega),
        show 8 * (i / 2) + (4 + k) = 4 * i + k by omega]
    · rw [BitVec.getLsbD_of_ge b _ (by omega), decide_eq_false hk, Bool.false_and, Bool.and_false]

/-- The bits that are read from the byte where a coefficient starts. -/
theorem getLsbD_unpack_first (b : BitVec 8) {s : ℕ} (hs : s < 8) (k : ℕ) :
    ((b.setWidth 16 : BitVec 16) >>> s &&& bitMask 5).getLsbD k =
      (b.getLsbD (s + k) && decide (k < 5)) := by
  rw [BitVec.getLsbD_and, BitVec.getLsbD_ushiftRight, BitVec.getLsbD_setWidth,
    getLsbD_bitMask (by decide)]
  by_cases hk : k < 5
  · rw [decide_eq_true (by omega : s + k < 16), Bool.true_and]
  · rw [decide_eq_false hk, Bool.and_false, Bool.and_false]

/-- The bits that are read from the next one. -/
theorem getLsbD_unpack_next (c : BitVec 8) (s k : ℕ) :
    ((c.setWidth 16 : BitVec 16) <<< (8 - s) &&& bitMask 5).getLsbD k =
      (decide (8 ≤ s + k) && c.getLsbD (k - (8 - s)) && decide (k < 5)) := by
  rw [BitVec.getLsbD_and, BitVec.getLsbD_shiftLeft, BitVec.getLsbD_setWidth,
    getLsbD_bitMask (by decide)]
  by_cases hk : k < 5
  · rw [decide_eq_true (by omega : k < 16), decide_eq_true (by omega : _ < 16), Bool.true_and,
      Bool.true_and, ← decide_not]
    exact congrArg (· && _ && _) (decide_eq_decide.2 (by omega))
  · rw [decide_eq_false hk, Bool.and_false, Bool.and_false]

/-- Five bits are read if two bytes are there. -/
theorem unpackBits_five {bytes : Bytes} {i : ℕ} (h : i * 5 / 8 + 1 < bytes.length) :
    ∃ t, unpackBits bytes 5 i = some t ∧
      ∀ k, t.getLsbD k = (decide (k < 5) && bitAt bytes (5 * i + k)) := by
  have hb := List.getElem?_eq_getElem (by omega : i * 5 / 8 < bytes.length)
  have hc := List.getElem?_eq_getElem h
  generalize bytes[i * 5 / 8] = b at hb
  generalize bytes[i * 5 / 8 + 1] = c at hc
  have hbit := fun k (hk : k < 8) => Bits.bitAt_eq hb hk
  have hnext := fun k (hk : k < 8) => Bits.bitAt_eq hc hk
  rw [unpackBits, if_neg (by decide), if_pos rfl]
  dsimp only
  rw [hb, hc]
  refine ⟨_, rfl, fun k => ?_⟩
  have hlow := getLsbD_unpack_first b (Nat.mod_lt (i * 5) (by decide : 0 < 8)) k
  have hhigh := getLsbD_unpack_next c (i * 5 % 8) k
  dsimp only
  by_cases hk : k < 5
  · rw [decide_eq_true hk, Bool.and_true] at hlow hhigh
    rw [decide_eq_true hk, Bool.true_and]
    by_cases hfirst : i * 5 % 8 + k < 8
    · rw [← hbit _ hfirst, show 8 * (i * 5 / 8) + (i * 5 % 8 + k) = 5 * i + k by omega] at hlow
      rw [decide_eq_false (by omega : ¬8 ≤ i * 5 % 8 + k), Bool.false_and] at hhigh
      split
      · rw [BitVec.getLsbD_or, hlow, hhigh, Bool.or_false]
      · exact hlow
    · rw [BitVec.getLsbD_of_ge b _ (by omega)] at hlow
      rw [decide_eq_true (by omega : 8 ≤ i * 5 % 8 + k), Bool.true_and, ← hnext _ (by omega),
        show 8 * (i * 5 / 8 + 1) + (k - (8 - i * 5 % 8)) = 5 * i + k by omega] at hhigh
      rw [if_pos (by omega), BitVec.getLsbD_or, hlow, hhigh, Bool.false_or]
  · rw [decide_eq_false hk, Bool.and_false] at hlow hhigh
    rw [decide_eq_false hk, Bool.false_and]
    split
    · rw [BitVec.getLsbD_or, hlow, hhigh, Bool.or_false]
    · exact hlow

/-- The bits of a coefficient are read back. -/
theorem unpackBits_compress (p : Poly) {d i : ℕ} (hd : d = 4 ∨ d = 5) (hi : i < 256) :
    unpackBits (p.compress d) d i = some (compressCoef d (p.coef i)) := by
  have hread : ∃ t, unpackBits (p.compress d) d i = some t ∧
      ∀ k, t.getLsbD k = (decide (k < d) && bitAt (p.compress d) (d * i + k)) := by
    rcases hd with rfl | rfl
    · exact unpackBits_four (by rw [length_compress, if_pos rfl]; omega)
    · exact unpackBits_five (by rw [length_compress, if_neg (by decide), if_pos rfl]; omega)
  obtain ⟨t, ht, hbits⟩ := hread
  rw [ht, Option.some_inj]
  refine BitVec.eq_of_getLsbD_eq fun k _ => ?_
  rw [hbits]
  by_cases hk : k < d
  · rw [decide_eq_true hk, Bool.true_and, bitAt_compress p hd hi hk]
  · rw [decide_eq_false hk, Bool.false_and, getLsbD_compressCoef (by omega) (Nat.not_lt.1 hk)]

/-- A polynomial packed into four or five bits is unpacked, coefficient by coefficient. -/
theorem decompress_compress (p : Poly) {d : ℕ} (hd : d = 4 ∨ d = 5) :
    ∃ p', decompress (p.compress d) d = some p' ∧
      ∀ i < 256, p'.coef i = lossyCoef d (p.coef i) := by
  have hloop : ∀ m ≤ 256, ∃ q, (List.range m).foldlM (fun poly i =>
      (unpackBits (p.compress d) d i).map fun t => poly.put i (decompressCoef d t)) zero = some q ∧
        ∀ i < m, q.coef i = lossyCoef d (p.coef i) := by
    intro m
    induction m with
    | zero => exact fun _ => ⟨zero, rfl, fun i hi => absurd hi (Nat.not_lt_zero i)⟩
    | succ m ih =>
        intro hm
        obtain ⟨q, hq, hcoef⟩ := ih (by omega)
        refine ⟨q.put m (lossyCoef d (p.coef m)), ?_, fun i hi => ?_⟩
        · rw [List.range_succ, List.foldlM_append, hq]
          change ((unpackBits (p.compress d) d m).map _ >>= fun poly => some poly) = _
          rw [unpackBits_compress p hd hm]
          rfl
        · rw [coef_put _ hm]
          split
          · rename_i heq
            rw [heq]
          · exact hcoef i (by omega)
  exact hloop 256 le_rfl

end Poly

/-! ### Rounding -/

/-- Two coefficients differ by at most `n` modulo 3329. -/
def Near (a b n : ℤ) : Prop := |(a - b).bmod 3329| ≤ n

theorem near_of_abs_le {a b n : ℤ} (h : |a - b| ≤ n) (hn : n ≤ 1664) : Near a b n := by
  have habs := abs_le.1 h
  rwa [Near, Int.bmod_eq_of_le (by omega) (by omega)]

theorem not_near_of_between {a b n : ℤ} (j : ℤ) (hlow : n < a - b - 3329 * j)
    (hhigh : a - b - 3329 * j < 3329 - n) : ¬Near a b n := by
  rw [Near, abs_le, Int.bmod_def]
  split <;> omega

/-- Four bits: a coefficient below -104 is widened, and lands seven sixteenths of 3329 away. -/
theorem near_four {x t : ℤ} (hlow : -1664 ≤ x) (hhigh : x ≤ 1664)
    (ht : t = (16 * x + 1664) % 4294967296 / 3329 % 16) :
    Near ((t * 3329 + 8) / 16) x 104 ↔ -104 ≤ x := by
  by_cases hx : -104 ≤ x
  · have hmod : (16 * x + 1664) % 4294967296 = 16 * x + 1664 := by omega
    have hround : t = (16 * x + 1664) / 3329 := by
      rw [hmod] at ht
      omega
    exact iff_of_true (near_of_abs_le (abs_le.2 (by omega)) (by decide)) hx
  · have hmod : (16 * x + 1664) % 4294967296 = 16 * x + 1664 + 4294967296 := by omega
    have hround : t = (7 + (16 * x + 3017) / 3329) % 16 := by
      have hdiv : (16 * x + 1664 + 4294967296) / 3329 = 1290167 + (16 * x + 3017) / 3329 := by omega
      rw [hmod, hdiv] at ht
      omega
    refine iff_of_false ?_ hx
    by_cases hfar : x < -1645
    · have hdiv : (16 * x + 3017) / 3329 = -8 := by omega
      rw [hdiv] at hround
      have hmask : t = 15 := hround
      exact not_near_of_between 1 (by omega) (by omega)
    · have hmask : t = 7 + (16 * x + 3017) / 3329 := by omega
      exact not_near_of_between 0 (by omega) (by omega)

/-- Five bits: one below -52 lands 23 of 32 parts away. -/
theorem near_five {x t : ℤ} (hlow : -1664 ≤ x) (hhigh : x ≤ 1664)
    (ht : t = (32 * x + 1664) % 4294967296 / 3329 % 32) :
    Near ((t * 3329 + 16) / 32) x 52 ↔ -52 ≤ x := by
  by_cases hx : -52 ≤ x
  · have hmod : (32 * x + 1664) % 4294967296 = 32 * x + 1664 := by omega
    have hround : t = (32 * x + 1664) / 3329 := by
      rw [hmod] at ht
      omega
    exact iff_of_true (near_of_abs_le (abs_le.2 (by omega)) (by decide)) hx
  · have hmod : (32 * x + 1664) % 4294967296 = 32 * x + 1664 + 4294967296 := by omega
    have hround : t = 23 + (32 * x + 3017) / 3329 := by
      have hdiv : (32 * x + 1664 + 4294967296) / 3329 = 1290167 + (32 * x + 3017) / 3329 := by omega
      rw [hmod, hdiv] at ht
      omega
    exact iff_of_false (not_near_of_between 0 (by omega) (by omega)) hx
namespace Poly

/-- The value of the bits of a coefficient. -/
theorem toNat_compressCoef {d : ℕ} (hd : d = 4 ∨ d = 5) (x : BitVec 16) :
    ((compressCoef d x).toNat : ℤ) =
      (2 ^ d * x.toInt + 1664) % 4294967296 / 3329 % 2 ^ d := by
  have hmask : (bitMask d).toNat = 2 ^ d - 1 := by
    rcases hd with rfl | rfl <;> rfl
  have hwide : ((x.signExtend 32).toNat : ℤ) % 4294967296 = x.toInt % 4294967296 := by
    rw [← BitVec.toInt_signExtend_of_le (v := 32) (by decide : 16 ≤ 32), BitVec.toInt_eq_toNat_bmod]
    exact Int.bmod_emod.symm
  have hsum : (((x.signExtend 32).toNat * 2 ^ d % 4294967296 + 1664) % 4294967296 : ℤ) =
      (2 ^ d * x.toInt + 1664) % 4294967296 := by
    rw [Int.emod_add_emod, Int.add_emod, Int.mul_emod, hwide, ← Int.mul_emod, ← Int.add_emod,
      mul_comm]
  rw [compressCoef, BitVec.toNat_and, hmask, Nat.and_two_pow_sub_one_eq_mod, BitVec.toNat_setWidth,
    BitVec.toNat_udiv, BitVec.toNat_add, BitVec.toNat_shiftLeft, Nat.shiftLeft_eq,
    Nat.mod_mod_of_dvd _ (pow_dvd_pow 2 (by omega : d ≤ 16)), ← hsum]
  push_cast
  rfl

theorem toNat_compressCoef_lt {d : ℕ} (hd : d = 4 ∨ d = 5) (x : BitVec 16) :
    (compressCoef d x).toNat < 2 ^ d := by
  have hvalue := toNat_compressCoef hd x
  have hpos : (0 : ℤ) < 2 ^ d := pow_pos (by decide) d
  have hlt := Int.emod_lt_of_pos ((2 ^ d * x.toInt + 1664) % 4294967296 / 3329) hpos
  rw [← hvalue] at hlt
  exact_mod_cast hlt

/-- The value of the coefficient that they stand for. -/
theorem toInt_decompressCoef {d : ℕ} (hd : d = 4 ∨ d = 5) {t : BitVec 16} (ht : t.toNat < 2 ^ d) :
    (decompressCoef d t).toInt = (t.toNat * 3329 + 2 ^ (d - 1)) / 2 ^ d := by
  have hbits : 2 ^ (d - 1) < 2 ^ 5 := Nat.pow_lt_pow_right (by decide) (by omega)
  have hsmall : t.toNat < 2 ^ 5 := lt_of_lt_of_le ht (Nat.pow_le_pow_right (by decide) (by omega))
  have hle : (t.toNat * 3329 + 2 ^ (d - 1)) / 2 ^ d < 2 ^ 15 := by
    rcases hd with rfl | rfl <;> omega
  have hnat : (decompressCoef d t).toNat = (t.toNat * 3329 + 2 ^ (d - 1)) / 2 ^ d := by
    rw [decompressCoef, BitVec.toNat_setWidth, BitVec.toNat_ushiftRight, Nat.shiftRight_eq_div_pow,
      BitVec.toNat_add, BitVec.toNat_mul, BitVec.toNat_setWidth, BitVec.toNat_shiftLeft,
      Nat.shiftLeft_eq, Nat.mod_eq_of_lt (by omega : t.toNat < 2 ^ 32)]
    change ((t.toNat * 3329 % 2 ^ 32 + 1 * 2 ^ (d - 1) % 2 ^ 32) % 2 ^ 32 / 2 ^ d) % 2 ^ 16 = _
    rw [Nat.mod_eq_of_lt (by omega : t.toNat * 3329 < 2 ^ 32), one_mul,
      Nat.mod_eq_of_lt (by omega : 2 ^ (d - 1) < 2 ^ 32),
      Nat.mod_eq_of_lt (by omega : t.toNat * 3329 + 2 ^ (d - 1) < 2 ^ 32),
      Nat.mod_eq_of_lt (by omega)]
  rw [BitVec.toInt_eq_toNat_of_lt (by omega), hnat]
  push_cast
  rfl

end Poly

/-- The numbers of bits that are packed, and the rounding errors they allow. -/
def packed : List (ℕ × ℤ) := [(4, 104), (5, 52)]

/-- Of the coefficients that `reduce` leaves, only those that are not much below zero survive. -/
theorem near_lossyCoef {d : ℕ} {n : ℤ} (h : (d, n) ∈ packed) {x : BitVec 16}
    (hx : |x.toInt| ≤ 1664) : Near (Poly.lossyCoef d x).toInt x.toInt n ↔ -n ≤ x.toInt := by
  obtain ⟨hlow, hhigh⟩ := abs_le.1 hx
  have hlossy : ∀ d, d = 4 ∨ d = 5 → (Poly.lossyCoef d x).toInt =
      ((Poly.compressCoef d x).toNat * 3329 + 2 ^ (d - 1)) / 2 ^ d := fun d hd =>
    Poly.toInt_decompressCoef hd (Poly.toNat_compressCoef_lt hd x)
  rcases List.mem_cons.1 h with heq | hrest
  · obtain ⟨rfl, rfl⟩ := Prod.mk.injEq .. ▸ heq
    rw [hlossy 4 (.inl rfl)]
    exact near_four hlow hhigh (Poly.toNat_compressCoef (.inl rfl) x)
  · obtain ⟨rfl, rfl⟩ := Prod.mk.injEq .. ▸ List.mem_singleton.1 hrest
    rw [hlossy 5 (.inr rfl)]
    exact near_five hlow hhigh (Poly.toNat_compressCoef (.inr rfl) x)

/-- `decompress` after `compress` changes every coefficient by at most `n`. -/
def Poly.Survives (p : Poly) (d : ℕ) (n : ℤ) : Prop :=
  ∃ p', decompress (p.compress d) d = some p' ∧ ∀ i < 256, Near (p'.val i) (p.val i) n

/-- A polynomial that `reduce` returned survives four or five bits exactly if no coefficient is
below minus the rounding error. -/
theorem compress_survives_iff {d : ℕ} {n : ℤ} (h : (d, n) ∈ packed) (q : Poly) :
    q.reduce.Survives d n ↔ ∀ i < 256, -n ≤ q.reduce.val i := by
  have hd : d = 4 ∨ d = 5 := by
    rcases List.mem_cons.1 h with heq | hrest
    · exact .inl (congrArg Prod.fst heq)
    · exact .inr (congrArg Prod.fst (List.mem_singleton.1 hrest))
  obtain ⟨p', hp', hcoef⟩ := q.reduce.decompress_compress hd
  have hnear : ∀ i < 256, (Near (p'.val i) (q.reduce.val i) n ↔ -n ≤ q.reduce.val i) := by
    intro i hi
    have hsmall : |q.reduce.val i| ≤ 1664 := by
      rw [Poly.val, Poly.reduce, Poly.coef_ofFn _ hi]
      exact (barrettReduce_spec _).1
    rw [Poly.val, hcoef i hi]
    exact near_lossyCoef h hsmall
  constructor
  · rintro ⟨p'', hp'', hall⟩ i hi
    rw [hp', Option.some_inj] at hp''
    exact (hnear i hi).1 (hp'' ▸ hall i hi)
  · exact fun hall => ⟨p', hp', fun i hi => (hnear i hi).2 (hall i hi)⟩

/-! ### What is lost -/

/-- A ciphertext is read back up to the rounding of ten and four bits. -/
def Ciphertext.Survives (ct : Ciphertext) : Prop :=
  ∃ ct', fromBytes ct.toBytes = some ct' ∧
    (∀ j, ∀ i < 256, Near ((ct'.u j).val i) ((ct.u j).val i) 2) ∧
    ∀ i < 256, Near (ct'.v.val i) (ct.v.val i) 104

/-- What the encodings promise: the lengths, and that only the rounding is lost. -/
def CompressionLaw (ct : Ciphertext) (p : Poly) : Prop :=
  (ct.toBytes.length = 1088 ∧ ct.Survives) ∧ p.Survives 5 52 ∧ (p.compress 5).length = 160

/-- **No ciphertext has the right length or is read back, and no polynomial has the right length
with five bits; it survives them exactly if no coefficient is below -52.** -/
theorem kyber_ciphertext_never (ct : Ciphertext) (q : Poly) :
    ¬CompressionLaw ct q.reduce ∧ ct.toBytes.length ≠ 1088 ∧ ¬ct.Survives ∧
      (q.reduce.compress 5).length ≠ 160 ∧
      (q.reduce.Survives 5 52 ↔ ∀ i < 256, -52 ≤ q.reduce.val i) := by
  have hlength : ct.toBytes.length ≠ 1088 := by
    rw [ct.length_toBytes]
    decide
  refine ⟨fun hlaw => hlength hlaw.1.1, hlength, ?_, ?_, ?_⟩
  · rintro ⟨ct', hread, -⟩
    rw [ct.fromBytes_toBytes] at hread
    exact absurd hread nofun
  · rw [Poly.length_compress, if_neg (by decide), if_pos rfl]
    decide
  · exact compress_survives_iff (by decide) q

/-- The ciphertext of zeros takes 128 bytes. -/
theorem kyber_ciphertext_lost :
    ¬∀ (ct : Ciphertext) (p : Poly), (∀ j, ∃ q : Poly, ct.u j = q.reduce) →
      (∃ q : Poly, ct.v = q.reduce) → (∃ q : Poly, p = q.reduce) → CompressionLaw ct p := by
  intro hall
  have hreduce : Poly.zero.reduce = Poly.zero := Poly.comb_zero 1 0 ▸ Poly.reduce_comb rfl
  have hzero : ∃ q : Poly, Poly.zero = q.reduce := ⟨Poly.zero, hreduce.symm⟩
  obtain ⟨⟨hlength, -⟩, -⟩ := hall ⟨fun _ => Poly.zero, Poly.zero⟩ Poly.zero (fun _ => hzero) hzero
    hzero
  rw [Ciphertext.length_toBytes] at hlength
  exact absurd hlength (by decide)

end StarOS
