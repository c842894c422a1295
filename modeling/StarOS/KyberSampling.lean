/-
The sampling of Kyber (`crypto/kyber/sampling.rs`).

`sample_uniform` reads the stream of SHAKE128 in numbers of 12 bits, three bytes for two of them, and
keeps those below `q` until it has 256.  The loop has no bound: it ends as soon as the stream has
given 256 such numbers, and the polynomial has the first 256 as its coefficients.  `sample_cbd`
subtracts, for each coefficient, two sums of bits of the buffer; the bits are taken in order, the low
ones of a byte first, also where a group reaches into the next byte.

* `StarOS.sampleUniform`, `StarOS.sampleCbd`, `StarOS.prf` — the code;
* `StarOS.shakeBit`, `StarOS.streamNumber` — the stream of bits, and the numbers in it;
* `StarOS.polyOf` — the polynomial with given coefficients;
* `StarOS.samplePass_eq` — one pass of the loop of `sample_uniform`;
* `StarOS.sampleUniform_eq` — the polynomial, for every number of passes;
* `StarOS.sampleCbd_prf` — the noise polynomials.
-/

import StarOS.KyberKem
import StarOS.Bits
import StarOS.Shake

set_option autoImplicit false

namespace StarOS

/-! ### Sampling -/

/-- The context after `absorb` of a seed and a nonce and `finalize`. -/
def seeded (t : Shake) (seed : List (BitVec 8)) (nonce : BitVec 8) : Option Shake := do
  let t ← t.absorb seed
  let t ← t.absorb [nonce]
  t.finalize

/-- `d1` and `d2` of `sample_uniform`: two numbers of 12 bits. -/
def sampleNumbers (b0 b1 b2 : BitVec 8) : BitVec 16 × BitVec 16 :=
  ((b0.setWidth 16 ||| b1.setWidth 16 <<< 8) &&& 0x0FFF#16,
    (b1.setWidth 16 >>> 4 ||| b2.setWidth 16 <<< 4) &&& 0x0FFF#16)

/-- A number below `q` becomes coefficient `i`. -/
def offer (poly : Poly) (i : ℕ) (d : BitVec 16) : Poly × ℕ :=
  if d < 3329#16 then (poly.put i d, i + 1) else (poly, i)

/-- One pass of the loop of `sample_uniform`. -/
def samplePass (t : Shake) (poly : Poly) (i : ℕ) : Option (Shake × Poly × ℕ) := do
  let (buf, t) ← t.squeeze 3
  let (d1, d2) := sampleNumbers (buf.getD 0 0#8) (buf.getD 1 0#8) (buf.getD 2 0#8)
  let (poly, i) := offer poly i d1
  let (poly, i) := if i < 256 then offer poly i d2 else (poly, i)
  some (t, poly, i)

/-- The loop of `sample_uniform`, for at most `n` passes: `none` if it goes on. -/
def sampleLoop : ℕ → Shake → Poly → ℕ → Option Poly
  | 0, _, poly, i => if i < 256 then none else some poly
  | n + 1, t, poly, i =>
      if i < 256 then (samplePass t poly i).bind fun (t, poly, i) => sampleLoop n t poly i
      else some poly

/-- `sample_uniform`, for at most `n` passes. -/
def sampleUniform (n : ℕ) (seed : List (BitVec 8)) (nonce : BitVec 8) : Option Poly :=
  (seeded Shake128.new seed nonce).bind fun t => sampleLoop n t Poly.zero 0

/-- `count_ones`. -/
def countOnes (b : BitVec 8) : ℕ := (List.range 8).countP fun j => b.getLsbD j

/-- `a as i16 - b as i16`, for the numbers of ones. -/
def onesDiff (a b : BitVec 8) : BitVec 16 :=
  BitVec.ofNat 16 (countOnes a) - BitVec.ofNat 16 (countOnes b)

/-- `t & 0x0F` of `sample_cbd`, for `eta = 2`. -/
def cbd2Bits (byte : BitVec 8) (bitIdx : ℕ) : BitVec 8 := (byte >>> bitIdx) &&& 0x0F#8

/-- The coefficient `i` of `sample_cbd`, for `eta = 2`. -/
def cbd2 (buf : List (BitVec 8)) (i : ℕ) : Option (BitVec 16) :=
  buf[i / 2]?.map fun byte =>
    let t := cbd2Bits byte (i % 2 * 4)
    onesDiff (t &&& 0x03#8) ((t >>> 2) &&& 0x03#8)

/-- The `t` of `sample_cbd` for `eta = 3`, with the next byte if it is read. -/
def cbd3Bits (byte : BitVec 8) (next : Option (BitVec 8)) (shift : ℕ) : BitVec 16 :=
  let t : BitVec 16 := (byte >>> shift).setWidth 16
  let t : BitVec 16 :=
    match next with
    | some next => t ||| next.setWidth 16 <<< (8 - shift)
    | none => t
  t &&& 0x3F#16

/-- The coefficient `i` of `sample_cbd`, for `eta = 3`. -/
def cbd3 (buf : List (BitVec 8)) (i : ℕ) : Option (BitVec 16) :=
  let bitPos := 6 * i
  let byteIdx := bitPos / 8
  let shift := bitPos % 8
  buf[byteIdx]?.map fun byte =>
    let next := if 8 < shift + 6 ∧ byteIdx + 1 < buf.length then buf[byteIdx + 1]? else none
    let t := (cbd3Bits byte next shift).setWidth 8
    onesDiff (t &&& 0x07#8) ((t >>> 3) &&& 0x07#8)

/-- A loop that writes all coefficients. -/
def fillPoly (coeff : ℕ → Option (BitVec 16)) : Option Poly :=
  (List.range 256).foldlM (fun poly i => (coeff i).map fun x => Poly.put poly i x) Poly.zero

/-- `sample_cbd`. -/
def sampleCbd (buf : List (BitVec 8)) (eta : ℕ) : Option Poly :=
  if eta = 2 then fillPoly (cbd2 buf)
  else if eta = 3 then fillPoly (cbd3 buf)
  else some Poly.zero

/-- `prf`, for an output of `n` bytes. -/
def prf (seed : List (BitVec 8)) (nonce : BitVec 8) (n : ℕ) : Option (List (BitVec 8)) :=
  (seeded Shake256.new seed nonce).bind fun t => (t.squeeze n).map fun p => p.1

/-! ### The stream -/

/-- Bit `i` of SHAKE with capacity `c`. -/
def shakeBit (c : ℕ) (message : List (BitVec 8)) (i : ℕ) : Bool :=
  (Sponge.sponge keccakBits (1600 - c)
    (message.flatMap bitsOfByte ++ [true, true, true, true]) (i + 1)).getD i false

/-- Number `k` of 12 bits in the stream of SHAKE128. -/
def streamNumber (message : List (BitVec 8)) (k : ℕ) : BitVec 12 :=
  wordOfBits fun j => shakeBit 256 message (12 * k + j.val)

/-- The numbers below `q` among the first `n`. -/
def accepted (message : List (BitVec 8)) (n : ℕ) : List (BitVec 12) :=
  ((List.range n).map (streamNumber message)).filter fun x => x < 3329#12

/-- The polynomial whose coefficients are the first 256 numbers of a list. -/
def polyOf (l : List (BitVec 12)) : Poly := Vector.ofFn fun i => (l.getD i.val 0#12).setWidth 16

namespace Shake

variable {rate : ℕ}

/-- A context that has absorbed a message gives the bits of the stream. -/
theorem seeded_spec (hpos : 0 < rate) (hrate : rate ≤ 200) (c : ℕ) (hc : 8 * rate = 1600 - c)
    (seed : List (BitVec 8)) (nonce : BitVec 8) :
    ∃ t start, seeded (new rate) seed nonce = some t ∧ Squeezing rate start 0 t ∧
      ∀ k j, j < 8 → (squeezedByte rate start k).getLsbD j =
        shakeBit c (seed ++ [nonce]) (8 * k + j) := by
  obtain ⟨t₁, hseed, h₁⟩ := (Absorbing.new rate).absorb hpos hrate seed
  obtain ⟨t₂, hnonce, h₂⟩ := h₁.absorb hpos hrate [nonce]
  obtain ⟨t₃, hfinal, heq, hzero, hbits⟩ := h₂.finalize hpos hrate
  have hsqueezing : Squeezing rate t₃.state 0 t₃ :=
    ⟨heq, hzero ▸ Nat.zero_le _, 0, rfl, by rw [hzero, Nat.mul_zero]⟩
  refine ⟨t₃, t₃.state, ?_, hsqueezing, fun k j hj => ?_⟩
  · rw [seeded, hseed, Option.bind_eq_bind, Option.bind_some, hnonce, Option.bind_some]
    exact hfinal
  · have hlt : 8 * k + j < 8 * k + j + 1 := Nat.lt_succ_self _
    rw [List.nil_append] at hbits
    rw [shakeBit, ← hc, Sponge.sponge, ← hbits, ← wordOfBits_squeeze hpos hrate t₃.state
      (Nat.lt_succ_self k), getLsbD_wordOfBits _ hj, List.getD_eq_getElem?_getD,
      List.getD_eq_getElem?_getD, Sponge.getElem?_squeeze (by omega) (by omega) _ (by omega),
      Sponge.getElem?_squeeze (by omega) (by omega) _ hlt]

end Shake

/-! ### Uniform polynomials -/

section Uniform

variable {message : List (BitVec 8)}

theorem accepted_succ (message : List (BitVec 8)) (n : ℕ) :
    accepted message (n + 1) = accepted message n ++
      if streamNumber message n < 3329#12 then [streamNumber message n] else [] := by
  rw [accepted, accepted, List.range_succ, List.map_append, List.filter_append]
  refine congrArg _ ?_
  by_cases h : streamNumber message n < 3329#12
  · simp [h]
  · simp [h]

theorem length_accepted_succ_le (message : List (BitVec 8)) (n : ℕ) :
    (accepted message (n + 1)).length ≤ (accepted message n).length + 1 := by
  rw [accepted_succ, List.length_append]
  split <;> simp

/-- Numbers behind the first 256 do not matter. -/
theorem polyOf_append {l : List (BitVec 12)} (hl : 256 ≤ l.length) (m : List (BitVec 12)) :
    polyOf (l ++ m) = polyOf l := by
  refine Vector.ext fun i hi => ?_
  simp only [polyOf, Vector.getElem_ofFn]
  rw [List.getD_eq_getElem?_getD, List.getElem?_append_left (by omega),
    List.getD_eq_getElem?_getD]

/-- The next number becomes the next coefficient. -/
theorem put_polyOf {l : List (BitVec 12)} (hl : l.length < 256) (x : BitVec 12) :
    (polyOf l).put l.length (x.setWidth 16) = polyOf (l ++ [x]) := by
  refine Poly.ext_coef fun i hi => ?_
  rw [Poly.coef_put _ hl, polyOf, polyOf, Poly.coef_ofFn _ hi, Poly.coef_ofFn _ hi,
    List.getD_eq_getElem?_getD, List.getD_eq_getElem?_getD]
  dsimp only
  rcases Nat.lt_trichotomy i l.length with hlt | rfl | hgt
  · rw [if_neg (by omega), List.getElem?_append_left hlt]
  · rw [if_pos rfl, List.getElem?_append_right (Nat.le_refl _), Nat.sub_self]
    rfl
  · rw [if_neg (by omega), List.getElem?_eq_none (by omega), List.getElem?_eq_none (by simp; omega)]

/-- The test of a number, in 16 bits. -/
theorem setWidth_lt (x : BitVec 12) : x.setWidth 16 < 3329#16 ↔ x < 3329#12 := by
  rw [BitVec.lt_def, BitVec.lt_def, BitVec.toNat_setWidth, BitVec.toNat_ofNat, BitVec.toNat_ofNat,
    Nat.mod_eq_of_lt (by omega : x.toNat < 2 ^ 16)]

/-- Three bytes of the stream make up two numbers. -/
theorem sampleNumbers_eq {b : ℕ → BitVec 8}
    (hb : ∀ k j, j < 8 → (b k).getLsbD j = shakeBit 256 message (8 * k + j)) (p : ℕ) :
    sampleNumbers (b (3 * p)) (b (3 * p + 1)) (b (3 * p + 2)) =
      ((streamNumber message (2 * p)).setWidth 16, (streamNumber message (2 * p + 1)).setWidth 16)
    := by
  have hmask : ∀ j < 16, (0x0FFF#16).getLsbD j = decide (j < 12) := by decide
  have hnumber : ∀ k j, j < 16 → ((streamNumber message k).setWidth 16).getLsbD j =
      (decide (j < 12) && shakeBit 256 message (12 * k + j)) := by
    intro k j hj
    rw [BitVec.getLsbD_setWidth, decide_eq_true hj, Bool.true_and]
    by_cases hlt : j < 12
    · rw [streamNumber, getLsbD_wordOfBits _ hlt, decide_eq_true hlt, Bool.true_and]
    · rw [BitVec.getLsbD_of_ge _ _ (by omega), decide_eq_false hlt, Bool.false_and]
  refine Prod.ext (BitVec.eq_of_getLsbD_eq fun j hj => ?_) (BitVec.eq_of_getLsbD_eq fun j hj => ?_)
  · rw [hnumber _ j hj]
    simp only [sampleNumbers, BitVec.getLsbD_and, BitVec.getLsbD_or, BitVec.getLsbD_shiftLeft,
      BitVec.getLsbD_setWidth, hmask j hj]
    by_cases hlow : j < 8
    · have hbit : 12 * (2 * p) + j = 8 * (3 * p) + j := by omega
      rw [hbit, ← hb _ j hlow]
      simp [hlow, hj, Bool.and_comm]
    · by_cases hhigh : j < 12
      · have hbit : 12 * (2 * p) + j = 8 * (3 * p + 1) + (j - 8) := by omega
        rw [hbit, ← hb _ (j - 8) (by omega), BitVec.getLsbD_of_ge _ _ (Nat.le_of_not_lt hlow)]
        simp [hlow, hhigh, hj, (by omega : j - 8 < 16)]
      · simp [hhigh]
  · rw [hnumber _ j hj]
    simp only [sampleNumbers, BitVec.getLsbD_and, BitVec.getLsbD_or, BitVec.getLsbD_shiftLeft,
      BitVec.getLsbD_ushiftRight, BitVec.getLsbD_setWidth, hmask j hj]
    by_cases hlow : j < 4
    · have hbit : 12 * (2 * p + 1) + j = 8 * (3 * p + 1) + (4 + j) := by omega
      rw [hbit, ← hb _ (4 + j) (by omega)]
      simp [hlow, (by omega : 4 + j < 16), (by omega : j < 12)]
    · by_cases hhigh : j < 12
      · have hbit : 12 * (2 * p + 1) + j = 8 * (3 * p + 2) + (j - 4) := by omega
        rw [hbit, ← hb _ (j - 4) (by omega),
          BitVec.getLsbD_of_ge (b (3 * p + 1)) (4 + j) (by omega)]
        simp [hlow, hhigh, hj, (by omega : j - 4 < 16)]
      · simp [hhigh]

theorem offer_eq {n : ℕ} (hroom : (accepted message n).length < 256) :
    offer (polyOf (accepted message n)) (accepted message n).length
        ((streamNumber message n).setWidth 16) =
      (polyOf (accepted message (n + 1)), (accepted message (n + 1)).length) := by
  rw [offer, accepted_succ]
  by_cases h : streamNumber message n < 3329#12
  · rw [if_pos ((setWidth_lt _).2 h), if_pos h, put_polyOf hroom, List.length_append,
      List.length_singleton]
  · rw [if_neg fun hlt => h ((setWidth_lt _).1 hlt), if_neg h, List.append_nil]

/-- One pass, after `p` passes: the polynomial of the numbers so far becomes that of two more. -/
theorem samplePass_eq {start : Lanes} {t : Shake} {p : ℕ}
    (ht : Shake.Squeezing 168 start (3 * p) t)
    (hb : ∀ k j, j < 8 → (Shake.squeezedByte 168 start k).getLsbD j =
      shakeBit 256 message (8 * k + j))
    (hroom : (accepted message (2 * p)).length < 256) :
    ∃ t', Shake.Squeezing 168 start (3 * (p + 1)) t' ∧
      samplePass t (polyOf (accepted message (2 * p))) (accepted message (2 * p)).length =
        some (t', polyOf (accepted message (2 * (p + 1))),
          min 256 (accepted message (2 * (p + 1))).length) := by
  obtain ⟨t', hsqueeze, ht'⟩ := ht.squeeze (by omega) (by omega) 3
  refine ⟨t', ht', ?_⟩
  have hnumbers := sampleNumbers_eq hb p
  have htwo : 2 * (p + 1) = 2 * p + 1 + 1 := by omega
  have hle := length_accepted_succ_le message (2 * p)
  rw [samplePass, hsqueeze, Option.bind_eq_bind, Option.bind_some]
  simp only [List.range'_succ, List.range'_zero, List.map_cons, List.map_nil, List.getD_cons_zero,
    List.getD_cons_succ, hnumbers]
  rw [offer_eq hroom, htwo]
  dsimp only
  by_cases hmore : (accepted message (2 * p + 1)).length < 256
  · have hle' := length_accepted_succ_le message (2 * p + 1)
    rw [if_pos hmore, offer_eq hmore, Nat.min_eq_right (by omega)]
  · have hfull : (accepted message (2 * p + 1)).length = 256 := by omega
    rw [if_neg hmore, accepted_succ message (2 * p + 1), polyOf_append (by omega),
      List.length_append, hfull, Nat.min_eq_left (Nat.le_add_right _ _)]

/-- More numbers do not change the polynomial of 256. -/
theorem polyOf_accepted {m : ℕ} (hm : 256 ≤ (accepted message m).length) (n : ℕ) :
    polyOf (accepted message (m + n)) = polyOf (accepted message m) ∧
      256 ≤ (accepted message (m + n)).length := by
  induction n with
  | zero => exact ⟨rfl, hm⟩
  | succ n ih =>
      rw [← Nat.add_assoc, accepted_succ, polyOf_append ih.2, List.length_append]
      exact ⟨ih.1, Nat.le_add_right_of_le ih.2⟩

/-- The loop, after `p` passes: with `n` more passes it has ended if the numbers of all the passes
are enough. -/
theorem sampleLoop_eq {start : Lanes} {t : Shake} {p : ℕ} (n : ℕ)
    (ht : Shake.Squeezing 168 start (3 * p) t)
    (hb : ∀ k j, j < 8 → (Shake.squeezedByte 168 start k).getLsbD j =
      shakeBit 256 message (8 * k + j)) :
    sampleLoop n t (polyOf (accepted message (2 * p))) (min 256 (accepted message (2 * p)).length) =
      if 256 ≤ (accepted message (2 * (p + n))).length then
        some (polyOf (accepted message (2 * (p + n))))
      else none := by
  induction n generalizing p t with
  | zero =>
      rw [sampleLoop, Nat.add_zero]
      by_cases hdone : 256 ≤ (accepted message (2 * p)).length
      · rw [if_neg (by omega), if_pos hdone]
      · rw [if_pos (by omega), if_neg hdone]
  | succ n ih =>
      rw [sampleLoop]
      by_cases hdone : 256 ≤ (accepted message (2 * p)).length
      · obtain ⟨hsame, hmore⟩ := polyOf_accepted hdone (2 * (n + 1))
        rw [if_neg (by omega), Nat.mul_add, if_pos hmore, hsame]
      · obtain ⟨t', ht', hpass⟩ := samplePass_eq ht hb (Nat.lt_of_not_le hdone)
        have hnext : p + (n + 1) = p + 1 + n := by omega
        rw [if_pos (by omega), Nat.min_eq_right (by omega), hpass, Option.bind_some, hnext]
        exact ih ht'

end Uniform

/-- **`sample_uniform`.**  After `n` passes the loop has ended if and only if 256 of the first
`2 * n` numbers of 12 bits in the stream of SHAKE128 are below `q`, and then the first 256 of these
are the coefficients. -/
theorem sampleUniform_eq (seed : List (BitVec 8)) (nonce : BitVec 8) (n : ℕ) :
    sampleUniform n seed nonce =
      if 256 ≤ (accepted (seed ++ [nonce]) (2 * n)).length then
        some (polyOf (accepted (seed ++ [nonce]) (2 * n)))
      else none := by
  obtain ⟨t, start, hseeded, hsqueezing, hbits⟩ :=
    Shake.seeded_spec (by omega : 0 < 168) (by omega) 256 rfl seed nonce
  have hloop := sampleLoop_eq (p := 0) n hsqueezing hbits
  rw [Nat.zero_add] at hloop
  rw [sampleUniform, Shake128.new, hseeded, Option.bind_some, ← hloop]
  rfl

/-! ### Noise polynomials -/

/-- How many of the `n` bits from bit `i` on are set. -/
def ones (bit : ℕ → Bool) (i n : ℕ) : ℕ := (List.range n).countP fun j => bit (i + j)

/-- The polynomial of the centered binomial distribution: of the `2 * eta` bits of a coefficient, the
first half counts up and the second half down. -/
def cbdPoly (bit : ℕ → Bool) (eta : ℕ) : Poly := Vector.ofFn fun i =>
  BitVec.ofNat 16 (ones bit (2 * eta * i.val) eta) -
    BitVec.ofNat 16 (ones bit (2 * eta * i.val + eta) eta)

section Noise

/-- The ones of a byte of which `n` bits are in use. -/
theorem countOnes_eq {b : BitVec 8} {bit : ℕ → Bool} {i n : ℕ} (hn : n ≤ 8)
    (h : ∀ j < 8, b.getLsbD j = (decide (j < n) && bit (i + j))) : countOnes b = ones bit i n := by
  have hsplit : List.range 8 = List.range n ++ (List.range (8 - n)).map (n + ·) := by
    rw [← List.range_add]
    congr 1
    omega
  rw [countOnes, ones, hsplit, List.countP_append, List.countP_map]
  have hlow : (List.range n).countP (fun j => b.getLsbD j) =
      (List.range n).countP fun j => bit (i + j) := by
    refine List.countP_congr fun j hj => ?_
    have hlt := List.mem_range.1 hj
    rw [h j (by omega), decide_eq_true hlt, Bool.true_and]
  have hhigh : (List.range (8 - n)).countP ((fun j => b.getLsbD j) ∘ (n + ·)) = 0 := by
    refine List.countP_eq_zero.2 fun j hj => ?_
    have hlt := List.mem_range.1 hj
    simp [h (n + j) (by omega)]
  rw [hlow, hhigh, Nat.add_zero]

/-- A loop that writes all coefficients. -/
theorem fillPoly_some {coeff : ℕ → Option (BitVec 16)} {f : ℕ → BitVec 16}
    (h : ∀ i < 256, coeff i = some (f i)) :
    fillPoly coeff = some (Vector.ofFn fun i : Fin 256 => f i.val) := by
  have hsteps : ∀ m ≤ 256, ∃ p : Poly,
      (List.range m).foldlM (fun poly i => (coeff i).map fun x => Poly.put poly i x) Poly.zero =
        some p ∧ ∀ i < m, p.coef i = f i := by
    intro m
    induction m with
    | zero => exact fun _ => ⟨Poly.zero, rfl, fun i hi => absurd hi (Nat.not_lt_zero i)⟩
    | succ m ih =>
        intro hm
        obtain ⟨p, hp, hcoef⟩ := ih (by omega)
        refine ⟨p.put m (f m), ?_, fun i hi => ?_⟩
        · rw [List.range_succ, List.foldlM_append, hp, Option.bind_eq_bind, Option.bind_some,
            List.foldlM_cons, h m (by omega)]
          rfl
        · rw [Poly.coef_put _ (by omega)]
          by_cases him : m = i
          · rw [if_pos him, him]
          · rw [if_neg him, hcoef i (by omega)]
  obtain ⟨p, hp, hcoef⟩ := hsteps 256 (Nat.le_refl _)
  rw [fillPoly, hp]
  refine congrArg some (Poly.ext_coef fun i hi => ?_)
  rw [hcoef i hi, Poly.coef_ofFn _ hi]

/-- It panics if one is missing. -/
theorem fillPoly_none {coeff : ℕ → Option (BitVec 16)} {i : ℕ} (hi : i < 256)
    (h : coeff i = none) : fillPoly coeff = none := by
  have hpanic : ∀ (l : List ℕ) (p : Poly), i ∈ l →
      l.foldlM (fun poly i => (coeff i).map fun x => Poly.put poly i x) p = none := by
    intro l
    induction l with
    | nil => intro p hmem; cases hmem
    | cons k l ih =>
        intro p hmem
        rw [List.foldlM_cons]
        cases hk : coeff k with
        | none => rfl
        | some x =>
            rcases List.mem_cons.1 hmem with rfl | hmem
            · rw [h] at hk
              cases hk
            · exact ih _ hmem
  exact hpanic _ _ (List.mem_range.2 hi)

variable {buf : List (BitVec 8)}

/-- The two sums of a group of bits: the masks cut out its halves. -/
theorem onesDiff_eq {t : BitVec 8} {bit : ℕ → Bool} {i n : ℕ} {mask : BitVec 8} (hn : 2 * n ≤ 8)
    (hmask : ∀ j < 8, mask.getLsbD j = decide (j < n))
    (h : ∀ j < 8, t.getLsbD j = (decide (j < 2 * n) && bit (i + j))) :
    onesDiff (t &&& mask) ((t >>> n) &&& mask) =
      BitVec.ofNat 16 (ones bit i n) - BitVec.ofNat 16 (ones bit (i + n) n) := by
  have hfirst : countOnes (t &&& mask) = ones bit i n := by
    refine countOnes_eq (by omega) fun j hj => ?_
    rw [BitVec.getLsbD_and, h j hj, hmask j hj]
    by_cases hlt : j < n
    · simp [hlt, (by omega : j < 2 * n)]
    · simp [hlt]
  have hsecond : countOnes ((t >>> n) &&& mask) = ones bit (i + n) n := by
    refine countOnes_eq (by omega) fun j hj => ?_
    rw [BitVec.getLsbD_and, BitVec.getLsbD_ushiftRight, hmask j hj]
    by_cases hlt : j < n
    · rw [h (n + j) (by omega), Nat.add_assoc]
      simp [hlt, (by omega : n + j < 2 * n)]
    · simp [hlt]
  rw [onesDiff, hfirst, hsecond]

theorem cbd2_eq {i : ℕ} (hi : i / 2 < buf.length) :
    cbd2 buf i = some (BitVec.ofNat 16 (ones (Bits.bitAt buf) (2 * 2 * i) 2) -
      BitVec.ofNat 16 (ones (Bits.bitAt buf) (2 * 2 * i + 2) 2)) := by
  have hget := List.getElem?_eq_getElem hi
  have hmask : ∀ j < 8, (0x0F#8).getLsbD j = decide (j < 4) := by decide
  rw [cbd2, hget, Option.map_some]
  refine congrArg some (onesDiff_eq (by omega) (by decide) fun j hj => ?_)
  rw [cbd2Bits, BitVec.getLsbD_and, BitVec.getLsbD_ushiftRight, hmask j hj]
  by_cases hlt : j < 4
  · have hbit : 2 * 2 * i + j = 8 * (i / 2) + (i % 2 * 4 + j) := by omega
    rw [hbit, Bits.bitAt_eq hget (by omega)]
    simp [hlt]
  · simp [hlt]

/-- Six bits that reach into the next byte. -/
theorem getLsbD_cbd3Bits (byte : BitVec 8) (next : Option (BitVec 8)) {shift j : ℕ}
    (hshift : shift < 8) (hj : j < 6) :
    (cbd3Bits byte next shift).getLsbD j =
      if shift + j < 8 then byte.getLsbD (shift + j)
      else (next.map fun b => b.getLsbD (shift + j - 8)).getD false := by
  have hmask : ∀ j < 16, (0x3F#16).getLsbD j = decide (j < 6) := by decide
  rw [cbd3Bits.eq_def, BitVec.getLsbD_and, hmask j (by omega), decide_eq_true hj, Bool.and_true]
  by_cases hlt : shift + j < 8
  · rw [if_pos hlt]
    cases next with
    | none => simp [(by omega : j < 16), (by omega : shift + j < 16)]
    | some b =>
        dsimp only
        rw [BitVec.getLsbD_or, BitVec.getLsbD_shiftLeft]
        simp [(by omega : j < 16), (by omega : j < 8 - shift), (by omega : shift + j < 16)]
  · have hhigh : byte.getLsbD (shift + j) = false := BitVec.getLsbD_of_ge _ _ (by omega)
    rw [if_neg hlt]
    cases next with
    | none => simp [hhigh]
    | some b =>
        have hsub : j - (8 - shift) = shift + j - 8 := by omega
        dsimp only
        rw [BitVec.getLsbD_or, BitVec.getLsbD_shiftLeft, hsub]
        simp [(by omega : j < 16), (by omega : 8 ≤ j + shift), hhigh,
          (by omega : shift + j - 8 < 16)]

theorem cbd3_eq {i : ℕ} (hi : 6 * i / 8 < buf.length) :
    cbd3 buf i = some (BitVec.ofNat 16 (ones (Bits.bitAt buf) (2 * 3 * i) 3) -
      BitVec.ofNat 16 (ones (Bits.bitAt buf) (2 * 3 * i + 3) 3)) := by
  have hget := List.getElem?_eq_getElem hi
  have hmask : ∀ j < 16, (0x3F#16).getLsbD j = decide (j < 6) := by decide
  rw [cbd3]
  dsimp only
  rw [hget, Option.map_some]
  refine congrArg some (onesDiff_eq (by omega) (by decide) fun j hj => ?_)
  rw [BitVec.getLsbD_setWidth, decide_eq_true hj, Bool.true_and]
  by_cases hlt : j < 6
  · rw [decide_eq_true hlt, Bool.true_and, getLsbD_cbd3Bits _ _ (Nat.mod_lt _ (by decide)) hlt]
    by_cases hbyte : 6 * i % 8 + j < 8
    · have hbit : 2 * 3 * i + j = 8 * (6 * i / 8) + (6 * i % 8 + j) := by omega
      rw [if_pos hbyte, hbit, Bits.bitAt_eq hget hbyte]
    · have hbit : 6 * i + j = 8 * (6 * i / 8 + 1) + (6 * i % 8 + j - 8) := by omega
      rw [if_neg hbyte]
      by_cases hend : 6 * i / 8 + 1 < buf.length
      · have hget' := List.getElem?_eq_getElem hend
        rw [if_pos ⟨by omega, hend⟩, hget', Option.map_some, Option.getD_some, hbit,
          Bits.bitAt_eq hget' (by omega)]
      · have hdiv : (2 * 3 * i + j) / 8 = 6 * i / 8 + 1 := by omega
        rw [if_neg fun h => hend h.2, Option.map_none, Option.getD_none, Bits.bitAt, hdiv,
          List.getD_eq_getElem?_getD, List.getElem?_eq_none (Nat.le_of_not_lt hend),
          Option.getD_none, BitVec.getLsbD_zero]
  · rw [cbd3Bits.eq_def, BitVec.getLsbD_and, hmask j (by omega)]
    simp [hlt]

/-- `sample_cbd`, for every buffer: it panics if the buffer is too short. -/
theorem sampleCbd_eq (buf : List (BitVec 8)) (eta : ℕ) :
    sampleCbd buf eta = if eta = 2 ∨ eta = 3 then
      (if 64 * eta ≤ buf.length then some (cbdPoly (Bits.bitAt buf) eta) else none)
    else some Poly.zero := by
  rw [sampleCbd]
  by_cases h2 : eta = 2
  · subst h2
    rw [if_pos rfl, if_pos (Or.inl rfl)]
    split
    · next hlen =>
        have hfill := fillPoly_some fun i (hi : i < 256) =>
          cbd2_eq (by omega : i / 2 < buf.length)
        exact hfill
    · next hlen =>
        have hnone : buf[255 / 2]? = none := List.getElem?_eq_none (by omega)
        refine fillPoly_none (by omega : 255 < 256) ?_
        rw [cbd2, hnone, Option.map_none]
  · rw [if_neg h2]
    by_cases h3 : eta = 3
    · subst h3
      rw [if_pos rfl, if_pos (Or.inr rfl)]
      split
      · next hlen =>
          have hfill := fillPoly_some fun i (hi : i < 256) =>
            cbd3_eq (by omega : 6 * i / 8 < buf.length)
          exact hfill
      · next hlen =>
          have hnone : buf[6 * 255 / 8]? = none := List.getElem?_eq_none (by omega)
          refine fillPoly_none (by omega : 255 < 256) ?_
          rw [cbd3]
          dsimp only
          rw [hnone, Option.map_none]
    · rw [if_neg h3, if_neg fun h => h.elim h2 h3]

/-- `prf` gives the first bytes of the stream of SHAKE256. -/
theorem prf_spec (seed : List (BitVec 8)) (nonce : BitVec 8) (n : ℕ) :
    ∃ bytes, prf seed nonce n = some bytes ∧ bytes.length = n ∧
      ∀ i < 8 * n, Bits.bitAt bytes i = shakeBit 512 (seed ++ [nonce]) i := by
  obtain ⟨t, start, hseeded, hsqueezing, hbits⟩ :=
    Shake.seeded_spec (by omega : 0 < 136) (by omega) 512 rfl seed nonce
  obtain ⟨t', hsqueeze, -⟩ := hsqueezing.squeeze (by omega) (by omega) n
  refine ⟨(List.range' 0 n).map (Shake.squeezedByte 136 start), ?_, by simp, fun i hi => ?_⟩
  · rw [prf, Shake256.new, hseeded, Option.bind_some, hsqueeze, Option.map_some]
  · have hsplit : 8 * (i / 8) + i % 8 = i := Nat.div_add_mod i 8
    have hget : ((List.range' 0 n).map (Shake.squeezedByte 136 start))[i / 8]? =
        some (Shake.squeezedByte 136 start (i / 8)) := by
      rw [List.getElem?_map, List.getElem?_range' (by omega)]
      simp
    rw [← hsplit, Bits.bitAt_eq hget (Nat.mod_lt _ (by decide)), hbits _ _ (Nat.mod_lt _ (by decide))]

theorem ones_le (bit : ℕ → Bool) (i n : ℕ) : ones bit i n ≤ n :=
  List.countP_le_length.trans_eq List.length_range

theorem ones_congr {bit bit' : ℕ → Bool} {i n : ℕ} (h : ∀ j < n, bit (i + j) = bit' (i + j)) :
    ones bit i n = ones bit' i n :=
  List.countP_congr fun j hj => by rw [h j (List.mem_range.1 hj)]

/-- A coefficient is the difference of the two numbers of ones. -/
theorem val_cbdPoly {bit : ℕ → Bool} {eta i : ℕ} (heta : eta ≤ 3) (hi : i < 256) :
    (cbdPoly bit eta).val i =
      (ones bit (2 * eta * i) eta : ℤ) - (ones bit (2 * eta * i + eta) eta : ℤ) := by
  have hsmall : ∀ a < 4, ∀ b < 4,
      (BitVec.ofNat 16 a - BitVec.ofNat 16 b).toInt = (a : ℤ) - (b : ℤ) := by decide
  rw [Poly.val, cbdPoly, Poly.coef_ofFn _ hi]
  exact hsmall _ (Nat.lt_of_le_of_lt (ones_le _ _ _) (by omega)) _
    (Nat.lt_of_le_of_lt (ones_le _ _ _) (by omega))

end Noise

/-- **Noise.**  The polynomial that is sampled from a seed and a nonce has as coefficient `i` the
number of ones among the `eta` bits from bit `2 * eta * i` of SHAKE256 on, less that among the next
`eta`. -/
theorem sampleCbd_prf (seed : List (BitVec 8)) (nonce : BitVec 8) (eta : ℕ)
    (heta : eta = 2 ∨ eta = 3) :
    ∃ buf p, prf seed nonce (64 * eta) = some buf ∧ sampleCbd buf eta = some p ∧
      ∀ i < 256, p.val i = (ones (shakeBit 512 (seed ++ [nonce])) (2 * eta * i) eta : ℤ) -
        (ones (shakeBit 512 (seed ++ [nonce])) (2 * eta * i + eta) eta : ℤ) := by
  obtain ⟨buf, hprf, hlen, hbits⟩ := prf_spec seed nonce (64 * eta)
  refine ⟨buf, cbdPoly (Bits.bitAt buf) eta, hprf, ?_, fun i hi => ?_⟩
  · rw [sampleCbd_eq, if_pos heta, if_pos (Nat.le_of_eq hlen.symm)]
  · have hend : 2 * eta * i + 2 * eta ≤ 8 * (64 * eta) := by
      have hmul : 2 * eta * (i + 1) ≤ 2 * eta * 256 := Nat.mul_le_mul_left _ hi
      rw [Nat.mul_succ] at hmul
      omega
    have hup := ones_congr (i := 2 * eta * i) (n := eta) fun j hj => hbits _ (by omega)
    have hdown := ones_congr (i := 2 * eta * i + eta) (n := eta) fun j hj => hbits _ (by omega)
    rw [val_cbdPoly (by omega) hi, hup, hdown]

/-- The noise of a key, with `KYBER_ETA`. -/
theorem sampleCbd_prf_two :
    ∃ buf p, prf [1, 2, 3] 0 (64 * 2) = some buf ∧ sampleCbd buf 2 = some p ∧
      ∀ i < 256, p.val i = (ones (shakeBit 512 ([1, 2, 3] ++ [0])) (2 * 2 * i) 2 : ℤ) -
        (ones (shakeBit 512 ([1, 2, 3] ++ [0])) (2 * 2 * i + 2) 2 : ℤ) :=
  sampleCbd_prf [1, 2, 3] 0 2 (Or.inl rfl)

end StarOS
