/-
The extendable-output functions SHAKE128 and SHAKE256 (`crypto/kyber/shake.rs`).

The code adds bytes to the lanes of the state, and permutes as soon as a block is full.  It pads
with one byte that holds the suffix `1111` and the first bit of the padding, and with the last bit
of the block.  Bytes of output are read off the lanes, and the state is permuted only when a byte
behind the block is asked for.  The specification is about bits: lane `l` holds the bits from
`64 l` on, the lowest one first, and the bits of a byte stand in this order too.

* `StarOS.keccakF1600` — the permutation of the code;
* `StarOS.Shake`, `StarOS.Shake.absorb`, `StarOS.Shake.finalize`, `StarOS.Shake.squeeze` — the
  contexts, `none` for an index outside the state;
* `StarOS.shakeSpec` — the sponge function, in bytes;
* `StarOS.stateBits_xorByte` — the bits that a byte is added to;
* `StarOS.Shake.Absorbing`, `StarOS.Shake.Squeezing` — the invariants of the two phases;
* `StarOS.shake_eq_sponge` — the output for any chunks of input and output.
-/

import StarOS.Sponge
import Mathlib.Algebra.GroupWithZero.Nat
import Mathlib.Data.List.FinRange
import Mathlib.Tactic.Cases

set_option autoImplicit false

namespace StarOS

/-! ### The permutation -/

/-- The state: lane `x + 5 y` in column `x` and row `y`. -/
abbrev Lanes := Vector (BitVec 64) 25

/-- `RC`. -/
def keccakRc : Vector (BitVec 64) 24 :=
  #v[0x0000000000000001, 0x0000000000008082, 0x800000000000808a, 0x8000000080008000,
    0x000000000000808b, 0x0000000080000001, 0x8000000080008081, 0x8000000000008009,
    0x000000000000008a, 0x0000000000000088, 0x0000000080008009, 0x000000008000000a,
    0x000000008000808b, 0x800000000000008b, 0x8000000000008089, 0x8000000000008003,
    0x8000000000008002, 0x8000000000000080, 0x000000000000800a, 0x800000008000000a,
    0x8000000080008081, 0x8000000000008080, 0x0000000080000001, 0x8000000080008008]

/-- The table of rotations. -/
def keccakRotations : Vector ℕ 25 :=
  #v[0, 1, 62, 28, 27, 36, 44, 6, 55, 20, 3, 10, 43, 25, 39, 41, 45, 15, 21, 8, 18, 2, 61, 56, 14]

/-- θ. -/
def keccakTheta (state : Lanes) : Lanes :=
  let column : Vector (BitVec 64) 5 := Vector.ofFn fun x =>
    state[x.val] ^^^ state[x.val + 5] ^^^ state[x.val + 10] ^^^ state[x.val + 15] ^^^
      state[x.val + 20]
  let d : Vector (BitVec 64) 5 := Vector.ofFn fun x =>
    column[(x.val + 4) % 5] ^^^ column[(x.val + 1) % 5].rotateLeft 1
  Vector.ofFn fun i => state[i.val] ^^^ d[i.val % 5]

/-- ρ and π. -/
def keccakRhoPi (state : Lanes) : Lanes :=
  (List.finRange 5).foldl (fun b x => (List.finRange 5).foldl (fun b y =>
    b.set (y.val + 5 * ((2 * x.val + 3 * y.val) % 5))
      (state[x.val + 5 * y.val].rotateLeft keccakRotations[x.val + 5 * y.val])) b)
    (Vector.replicate 25 0#64)

/-- χ. -/
def keccakChi (b : Lanes) : Lanes := Vector.ofFn fun i =>
  b[5 * (i.val / 5) + i.val % 5] ^^^
    (~~~ b[5 * (i.val / 5) + (i.val % 5 + 1) % 5] &&& b[5 * (i.val / 5) + (i.val % 5 + 2) % 5])

/-- A round, with ι last. -/
def keccakRound (state : Lanes) (round : Fin 24) : Lanes :=
  let state := keccakChi (keccakRhoPi (keccakTheta state))
  state.set 0 (state[0] ^^^ keccakRc[round])

/-- `keccak_f1600`. -/
def keccakF1600 (state : Lanes) : Lanes := (List.finRange 24).foldl keccakRound state

/-! ### The contexts -/

/-- `Shake128` and `Shake256`. -/
structure Shake where
  state : Lanes
  pos : ℕ
  rate : ℕ

/-- `state[pos / 8] ^= (byte as u64) << ((pos % 8) * 8)`. -/
def xorByte (state : Lanes) (pos : ℕ) (byte : BitVec 8) : Option Lanes :=
  if h : pos / 8 < 25 then
    some (state.set (pos / 8) (state[pos / 8] ^^^ byte.setWidth 64 <<< (pos % 8 * 8)))
  else none

namespace Shake

/-- The context with an empty state. -/
def new (rate : ℕ) : Shake := ⟨Vector.replicate 25 0#64, 0, rate⟩

/-- One pass of the loop in `absorb`. -/
def absorbByte (t : Shake) (byte : BitVec 8) : Option Shake := do
  let state ← xorByte t.state t.pos byte
  if t.pos + 1 = t.rate then some { t with state := keccakF1600 state, pos := 0 }
  else some { t with state := state, pos := t.pos + 1 }

/-- `absorb`. -/
def absorb (t : Shake) (input : List (BitVec 8)) : Option Shake := input.foldlM absorbByte t

/-- `finalize`. -/
def finalize (t : Shake) : Option Shake := do
  let state ← xorByte t.state t.pos 0x1F#8
  let state ← xorByte state (t.rate - 1) 0x80#8
  some { t with state := keccakF1600 state, pos := 0 }

/-- The permutation in the loop of `squeeze`. -/
def nextBlock (t : Shake) : Shake :=
  if t.pos = t.rate then { t with state := keccakF1600 t.state, pos := 0 } else t

/-- One pass of the loop in `squeeze`. -/
def squeezeByte (t : Shake) : Option (BitVec 8 × Shake) :=
  let t := t.nextBlock
  if h : t.pos / 8 < 25 then
    some ((t.state[t.pos / 8] >>> (t.pos % 8 * 8)).setWidth 8, { t with pos := t.pos + 1 })
  else none

/-- `squeeze`, for an output of `n` bytes. -/
def squeeze (t : Shake) : ℕ → Option (List (BitVec 8) × Shake)
  | 0 => some ([], t)
  | n + 1 => do
      let (byte, t) ← t.squeezeByte
      let (bytes, t) ← t.squeeze n
      some (byte :: bytes, t)

/-- Squeezing one output after the other. -/
def squeezeAll (t : Shake) : List ℕ → Option (List (List (BitVec 8)))
  | [] => some []
  | n :: ns => do
      let (bytes, t) ← t.squeeze n
      let rest ← t.squeezeAll ns
      some (bytes :: rest)

/-- The outputs of the given lengths, after the given inputs. -/
def run (t : Shake) (inputs : List (List (BitVec 8))) (outputs : List ℕ) :
    Option (List (List (BitVec 8))) := do
  let t ← inputs.foldlM absorb t
  let t ← t.finalize
  t.squeezeAll outputs

end Shake

/-- `Shake128::new`. -/
def Shake128.new : Shake := Shake.new 168

/-- `Shake256::new`. -/
def Shake256.new : Shake := Shake.new 136

example : Shake128.new.run [] [4, 2] =
    some [[0x7f#8, 0x9c#8, 0x2b#8, 0xa4#8], [0xe8#8, 0x8f#8]] := by decide +kernel

/-! ### The specification -/

/-- The bits of a byte, the lowest one first. -/
def bitsOfByte (byte : BitVec 8) : List Bool := List.ofFn fun j : Fin 8 => byte.getLsbD j.val

/-- The word with the given bits, the lowest one first. -/
def wordOfBits {w : ℕ} (bit : Fin w → Bool) : BitVec w :=
  (BitVec.ofBoolListLE (List.ofFn bit)).cast List.length_ofFn

/-- The bytes of a sequence of bits. -/
def bytesOfBits (n : ℕ) (z : List Bool) : List (BitVec 8) :=
  List.ofFn fun k : Fin n => wordOfBits fun j => z.getD (8 * k.val + j.val) false

/-- The bits of a state. -/
def stateBits (state : Lanes) : Sponge.State 1600 :=
  fun i => state[i.val / 64].getLsbD (i.val % 64)

/-- The state with the given bits. -/
def lanesOfBits (s : Sponge.State 1600) : Lanes :=
  Vector.ofFn fun l => wordOfBits fun z => s ⟨64 * l.val + z.val, by omega⟩

/-- The permutation, on bits. -/
def keccakBits (s : Sponge.State 1600) : Sponge.State 1600 :=
  stateBits (keccakF1600 (lanesOfBits s))

/-- `n` bytes of SHAKE with capacity `c`: the sponge of the message with the suffix `1111`. -/
def shakeSpec (c : ℕ) (message : List (BitVec 8)) (n : ℕ) : List (BitVec 8) :=
  bytesOfBits n (Sponge.sponge keccakBits (1600 - c)
    (message.flatMap bitsOfByte ++ [true, true, true, true]) (8 * n))

/-! ### Bits and bytes -/

theorem getLsbD_wordOfBits {w : ℕ} (bit : Fin w → Bool) {i : ℕ} (h : i < w) :
    (wordOfBits bit).getLsbD i = bit ⟨i, h⟩ := by
  rw [wordOfBits, BitVec.getLsbD_cast, BitVec.getLsbD_ofBoolListLE, List.getD_eq_getElem?_getD,
    List.getElem?_ofFn, dif_pos h]
  rfl

theorem length_bitsOfByte (byte : BitVec 8) : (bitsOfByte byte).length = 8 := List.length_ofFn

theorem length_flatMap_bitsOfByte (bytes : List (BitVec 8)) :
    (bytes.flatMap bitsOfByte).length = 8 * bytes.length := by
  induction bytes with
  | nil => rfl
  | cons byte bytes ih =>
      rw [List.flatMap_cons, List.length_append, length_bitsOfByte, ih, List.length_cons,
        Nat.mul_succ, Nat.add_comm]

theorem getD_bitsOfByte (byte : BitVec 8) (j : ℕ) :
    (bitsOfByte byte).getD j false = byte.getLsbD j := by
  rw [bitsOfByte, List.getD_eq_getElem?_getD, List.getElem?_ofFn]
  by_cases hj : j < 8
  · rw [dif_pos hj]
    rfl
  · rw [dif_neg hj, BitVec.getLsbD_of_ge _ _ (Nat.le_of_not_lt hj)]
    rfl

theorem getD_lanes (state : Lanes) {i : ℕ} (hi : i < 25) :
    state.toList.getD i 0#64 = state[i] := by
  rw [List.getD_eq_getElem?_getD, Vector.getElem?_toList, Vector.getElem?_eq_getElem hi,
    Option.getD_some]

theorem lanesOfBits_stateBits (state : Lanes) : lanesOfBits (stateBits state) = state := by
  refine Vector.ext fun l hl => BitVec.eq_of_getLsbD_eq fun z hz => ?_
  rw [lanesOfBits, Vector.getElem_ofFn, getLsbD_wordOfBits _ hz, stateBits]
  have hdiv : (64 * l + z) / 64 = l := by omega
  have hmod : (64 * l + z) % 64 = z := by omega
  simp only [hdiv, hmod]

theorem stateBits_keccakF1600 (state : Lanes) :
    stateBits (keccakF1600 state) = keccakBits (stateBits state) := by
  rw [keccakBits, lanesOfBits_stateBits]

theorem iterate_keccakBits (n : ℕ) (state : Lanes) :
    keccakBits^[n] (stateBits state) = stateBits (keccakF1600^[n] state) :=
  (Function.Semiconj.iterate_right (f := stateBits) stateBits_keccakF1600 n state).symm

/-- A byte at `pos` is added to the bits from `8 * pos` on. -/
theorem stateBits_xorByte (state : Lanes) {pos : ℕ} (hpos : pos < 200) (byte : BitVec 8) :
    ∃ state', xorByte state pos byte = some state' ∧
      stateBits state' = Sponge.xorAt (stateBits state) (8 * pos) (bitsOfByte byte) := by
  have hidx : pos / 8 < 25 := by omega
  refine ⟨_, dif_pos hidx, ?_⟩
  funext i
  rw [Sponge.xorAt, getD_bitsOfByte, stateBits, stateBits, Vector.getElem_set]
  by_cases hlane : pos / 8 = i.val / 64
  · simp only [hlane, if_true]
    rw [BitVec.getLsbD_xor, BitVec.getLsbD_shiftLeft, BitVec.getLsbD_setWidth]
    by_cases hbelow : i.val % 64 < pos % 8 * 8
    · rw [decide_eq_true hbelow, decide_eq_false (show ¬ 8 * pos ≤ i.val by omega)]
      simp only [Bool.not_true, Bool.and_false, Bool.false_and]
    · have hsub : i.val % 64 - pos % 8 * 8 = i.val - 8 * pos := by omega
      rw [decide_eq_false hbelow, decide_eq_true (show 8 * pos ≤ i.val by omega), hsub,
        decide_eq_true (Nat.mod_lt _ (by decide)), decide_eq_true (by omega)]
      simp only [Bool.not_false, Bool.true_and]
  · rw [if_neg hlane]
    by_cases hbelow : 8 * pos ≤ i.val
    · rw [BitVec.getLsbD_of_ge byte _ (by omega), Bool.and_false, Bool.xor_false]
    · rw [decide_eq_false hbelow, Bool.false_and, Bool.xor_false]

/-! ### Absorbing -/

namespace Shake

variable {rate : ℕ} {t : Shake}

/-- While a message is absorbed, the context is in the state of the stream of its bits. -/
structure Absorbing (rate : ℕ) (message : List (BitVec 8)) (t : Shake) : Prop where
  rate_eq : t.rate = rate
  pos : t.pos = message.length % rate
  stream : (message.flatMap bitsOfByte).foldl (Sponge.push keccakBits (8 * rate))
    ⟨fun _ => false, 0⟩ = ⟨stateBits t.state, 8 * t.pos⟩

theorem Absorbing.new (rate : ℕ) : Absorbing rate [] (new rate) where
  rate_eq := rfl
  pos := (Nat.zero_mod rate).symm
  stream := by
    refine congrArg (Sponge.Stream.mk · 0) (funext fun i => ?_)
    rw [stateBits, Shake.new, Vector.getElem_replicate, BitVec.getLsbD_zero]

theorem Absorbing.absorbByte (hpos : 0 < rate) (hrate : rate ≤ 200) {message : List (BitVec 8)}
    (h : Absorbing rate message t) (byte : BitVec 8) :
    ∃ t', t.absorbByte byte = some t' ∧ Absorbing rate (message ++ [byte]) t' := by
  have hlt : t.pos < rate := by
    rw [h.pos]
    exact Nat.mod_lt _ hpos
  have hne : bitsOfByte byte ≠ [] := List.length_pos_iff.1 (by rw [length_bitsOfByte]; decide)
  have hmod : (message ++ [byte]).length % rate = (t.pos + 1) % rate := by
    rw [List.length_append, List.length_singleton, h.pos, Nat.mod_add_mod]
  obtain ⟨state, hstate, hbits⟩ := stateBits_xorByte t.state (show t.pos < 200 by omega) byte
  rw [Shake.absorbByte, hstate, Option.bind_eq_bind, Option.bind_some, h.rate_eq]
  by_cases hfull : t.pos + 1 = rate
  · refine ⟨_, if_pos hfull, rfl, ?_, ?_⟩
    · rw [hmod, hfull, Nat.mod_self]
    · rw [List.flatMap_append, List.foldl_append, h.stream, List.flatMap_singleton,
        Sponge.foldl_push_eq hne _ (by rw [length_bitsOfByte]; omega), ← hbits,
        ← stateBits_keccakF1600, Nat.mul_zero]
  · refine ⟨_, if_neg hfull, rfl, ?_, ?_⟩
    · rw [hmod, Nat.mod_eq_of_lt (by omega)]
    · rw [List.flatMap_append, List.foldl_append, h.stream, List.flatMap_singleton,
        Sponge.foldl_push_lt _ _ (by rw [length_bitsOfByte]; omega), ← hbits, length_bitsOfByte]
      rfl

theorem Absorbing.absorb (hpos : 0 < rate) (hrate : rate ≤ 200) {message : List (BitVec 8)}
    (h : Absorbing rate message t) (input : List (BitVec 8)) :
    ∃ t', t.absorb input = some t' ∧ Absorbing rate (message ++ input) t' := by
  induction input generalizing message t with
  | nil => exact ⟨t, rfl, by rwa [List.append_nil]⟩
  | cons byte input ih =>
      obtain ⟨t₁, hbyte, h₁⟩ := h.absorbByte hpos hrate byte
      obtain ⟨t₂, hrest, h₂⟩ := ih h₁
      refine ⟨t₂, ?_, ?_⟩
      · rw [Shake.absorb, List.foldlM_cons, hbyte]
        exact hrest
      · rwa [List.append_assoc, List.singleton_append] at h₂

/-- Chunks of any lengths. -/
theorem Absorbing.foldlM (hpos : 0 < rate) (hrate : rate ≤ 200) {message : List (BitVec 8)}
    (h : Absorbing rate message t) (inputs : List (List (BitVec 8))) :
    ∃ t', inputs.foldlM Shake.absorb t = some t' ∧
      Absorbing rate (message ++ inputs.flatten) t' := by
  induction inputs generalizing message t with
  | nil => exact ⟨t, rfl, by rwa [List.flatten_nil, List.append_nil]⟩
  | cons input inputs ih =>
      obtain ⟨t₁, hinput, h₁⟩ := h.absorb hpos hrate input
      obtain ⟨t₂, hrest, h₂⟩ := ih h₁
      refine ⟨t₂, ?_, ?_⟩
      · rw [List.foldlM_cons, hinput]
        exact hrest
      · rwa [List.append_assoc, ← List.flatten_cons] at h₂

/-! ### The padding -/

/-- The suffix and the padding fill the block that is open. -/
theorem suffix_append_pad (hpos : 0 < rate) (m : ℕ) :
    [true, true, true, true] ++ Sponge.pad (8 * rate) (8 * m + 4) =
      List.replicate 5 true ++
        (List.replicate (8 * (rate - m % rate) - 6) false ++ [true]) := by
  have hlt := Nat.mod_lt m hpos
  have hmod : (8 * m + 6) % (8 * rate) = 8 * (m % rate) + 6 := by
    rw [← Nat.mod_add_mod, Nat.mul_mod_mul_left, Nat.mod_eq_of_lt (by omega)]
  have hzeros : (8 * rate - (8 * m + 4 + 2) % (8 * rate)) % (8 * rate) =
      8 * (rate - m % rate) - 6 := by
    rw [hmod, Nat.mod_eq_of_lt (by omega)]
    omega
  rw [Sponge.pad, hzeros]
  rfl

/-- The bits of suffix and padding are those of the two bytes in the code. -/
theorem getD_padding {k : ℕ} (n : ℕ) :
    (List.replicate 5 true ++ (List.replicate k false ++ [true])).getD n false =
      (decide (n < 5) || decide (n = k + 5)) := by
  rw [List.getD_eq_getElem?_getD, List.getElem?_append, List.length_replicate,
    List.getElem?_append, List.length_replicate, List.getElem?_replicate, List.getElem?_replicate]
  by_cases hfive : n < 5
  · rw [if_pos hfive, if_pos hfive, decide_eq_true hfive, Bool.true_or]
    rfl
  · rw [if_neg hfive, decide_eq_false hfive, Bool.false_or]
    by_cases hzeros : n - 5 < k
    · rw [if_pos hzeros, if_pos hzeros, decide_eq_false (by omega)]
      rfl
    · rw [if_neg hzeros]
      by_cases hlast : n = k + 5
      · rw [decide_eq_true hlast, show n - 5 - k = 0 by omega]
        rfl
      · rw [decide_eq_false hlast, show n - 5 - k = (n - 6 - k) + 1 by omega]
        rfl

theorem getLsbD_suffix (n : ℕ) : (0x1F#8).getLsbD n = decide (n < 5) := by
  rcases Nat.lt_or_ge n 8 with hlt | hge
  · exact (show ∀ n < 8, (0x1F#8).getLsbD n = decide (n < 5) by decide) n hlt
  · rw [BitVec.getLsbD_of_ge _ _ hge, decide_eq_false (by omega)]

theorem getLsbD_last (n : ℕ) : (0x80#8).getLsbD n = decide (n = 7) := by
  rcases Nat.lt_or_ge n 8 with hlt | hge
  · exact (show ∀ n < 8, (0x80#8).getLsbD n = decide (n = 7) by decide) n hlt
  · rw [BitVec.getLsbD_of_ge _ _ hge, decide_eq_false (by omega)]

theorem xorAt_padding (s : Sponge.State 1600) {p : ℕ} (hp : p < rate) :
    Sponge.xorAt s (8 * p) (List.replicate 5 true ++
        (List.replicate (8 * (rate - p) - 6) false ++ [true])) =
      Sponge.xorAt (Sponge.xorAt s (8 * p) (bitsOfByte 0x1F#8)) (8 * (rate - 1))
        (bitsOfByte 0x80#8) := by
  funext i
  rw [Sponge.xorAt, Sponge.xorAt, Sponge.xorAt, getD_padding, getD_bitsOfByte, getD_bitsOfByte,
    getLsbD_suffix, getLsbD_last, Bool.xor_assoc]
  -- the last bit of the block is none of the five
  have hend : (decide (8 * (rate - 1) ≤ i.val) && decide (i.val - 8 * (rate - 1) = 7)) =
      (decide (8 * p ≤ i.val) && decide (i.val - 8 * p = 8 * (rate - p) - 6 + 5)) := by
    rw [← Bool.decide_and, ← Bool.decide_and]
    exact decide_eq_decide.2 (by omega)
  have hdisjoint : ¬ (i.val - 8 * p < 5 ∧ i.val - 8 * p = 8 * (rate - p) - 6 + 5) := by omega
  rw [hend, ← Bool.and_xor_distrib_left]
  congr 2
  by_cases hlow : i.val - 8 * p < 5
  · rw [decide_eq_true hlow, decide_eq_false fun h => hdisjoint ⟨hlow, h⟩]
    rfl
  · rw [decide_eq_false hlow, Bool.false_or, Bool.false_xor]

/-- The state after the padded message. -/
theorem Absorbing.finalize (hpos : 0 < rate) (hrate : rate ≤ 200) {message : List (BitVec 8)}
    (h : Absorbing rate message t) :
    ∃ t', t.finalize = some t' ∧ t'.rate = rate ∧ t'.pos = 0 ∧
      stateBits t'.state = Sponge.absorb keccakBits (8 * rate)
        (message.flatMap bitsOfByte ++ [true, true, true, true] ++ Sponge.pad (8 * rate)
          (message.flatMap bitsOfByte ++ [true, true, true, true]).length) := by
  have hlt : t.pos < rate := by
    rw [h.pos]
    exact Nat.mod_lt _ hpos
  obtain ⟨state₁, hstate₁, hbits₁⟩ :=
    stateBits_xorByte t.state (show t.pos < 200 by omega) 0x1F#8
  obtain ⟨state₂, hstate₂, hbits₂⟩ :=
    stateBits_xorByte state₁ (show rate - 1 < 200 by omega) 0x80#8
  refine ⟨{ t with state := keccakF1600 state₂, pos := 0 }, ?_, h.rate_eq, rfl, ?_⟩
  · rw [Shake.finalize, hstate₁, Option.bind_eq_bind, Option.bind_some, h.rate_eq, hstate₂]
    rfl
  · have hlength : (message.flatMap bitsOfByte ++ [true, true, true, true]).length =
        8 * message.length + 4 := by
      rw [List.length_append, length_flatMap_bitsOfByte]
      rfl
    have hblocks := Sponge.foldl_push_blocks (f := keccakBits) (show 0 < 8 * rate by omega)
      (Sponge.dvd_length_append_pad (show 0 < 8 * rate by omega)
        (message.flatMap bitsOfByte ++ [true, true, true, true]))
    have hfull : 8 * t.pos + (List.replicate 5 true ++
        (List.replicate (8 * (rate - t.pos) - 6) false ++ [true])).length = 8 * rate := by
      rw [List.length_append, List.length_append, List.length_replicate, List.length_replicate,
        List.length_singleton]
      omega
    rw [hlength, List.append_assoc, List.foldl_append, h.stream, suffix_append_pad hpos, ← h.pos,
      Sponge.foldl_push_eq (by simp) _ hfull, xorAt_padding _ hlt, ← hbits₁, ← hbits₂,
      ← stateBits_keccakF1600] at hblocks
    rw [hlength, List.append_assoc, suffix_append_pad hpos, ← h.pos]
    exact congrArg Sponge.Stream.state hblocks

/-! ### Squeezing -/

/-- Byte `k` of the output, where `start` is the state after the padded message. -/
def squeezedByte (rate : ℕ) (start : Lanes) (k : ℕ) : BitVec 8 :=
  ((keccakF1600^[k / rate] start).toList.getD (k % rate / 8) 0#64 >>>
    (k % rate % 8 * 8)).setWidth 8

/-- After `k` bytes of output. -/
structure Squeezing (rate : ℕ) (start : Lanes) (k : ℕ) (t : Shake) : Prop where
  rate_eq : t.rate = rate
  pos_le : t.pos ≤ rate
  blocks : ∃ n, t.state = keccakF1600^[n] start ∧ k = rate * n + t.pos

variable {start : Lanes} {k : ℕ}

theorem Squeezing.nextBlock (hpos : 0 < rate) (h : Squeezing rate start k t) :
    Squeezing rate start k t.nextBlock ∧ t.nextBlock.pos < rate := by
  obtain ⟨hrate, hle, n, hstate, hk⟩ := h
  rw [Shake.nextBlock, hrate]
  split
  · rename_i hend
    refine ⟨⟨rfl, Nat.zero_le _, n + 1, ?_, ?_⟩, hpos⟩
    · rw [Function.iterate_succ_apply', ← hstate]
    · rw [Nat.mul_succ, Nat.add_zero, hk, hend]
  · rename_i hopen
    exact ⟨⟨hrate, hle, n, hstate, hk⟩, Nat.lt_of_le_of_ne hle hopen⟩

theorem Squeezing.squeezeByte (hpos : 0 < rate) (hrate : rate ≤ 200)
    (h : Squeezing rate start k t) :
    ∃ t', t.squeezeByte = some (squeezedByte rate start k, t') ∧
      Squeezing rate start (k + 1) t' := by
  obtain ⟨⟨heq, -, n, hstate, hk⟩, hlt⟩ := h.nextBlock hpos
  have hidx : t.nextBlock.pos / 8 < 25 := by omega
  have hdiv : k / rate = n := by
    rw [hk, Nat.mul_add_div hpos, Nat.div_eq_of_lt hlt, Nat.add_zero]
  have hmod : k % rate = t.nextBlock.pos := by
    rw [hk, Nat.mul_add_mod, Nat.mod_eq_of_lt hlt]
  refine ⟨{ t.nextBlock with pos := t.nextBlock.pos + 1 }, ?_, heq, hlt, n, hstate, ?_⟩
  · rw [Shake.squeezeByte]
    dsimp only
    rw [dif_pos hidx, squeezedByte, hdiv, hmod, ← hstate, getD_lanes _ hidx]
  · rw [hk]
    rfl

theorem Squeezing.squeeze (hpos : 0 < rate) (hrate : rate ≤ 200) (n : ℕ)
    (h : Squeezing rate start k t) :
    ∃ t', t.squeeze n = some ((List.range' k n).map (squeezedByte rate start), t') ∧
      Squeezing rate start (k + n) t' := by
  induction n generalizing k t with
  | zero => exact ⟨t, rfl, h⟩
  | succ n ih =>
      obtain ⟨t₁, hbyte, h₁⟩ := h.squeezeByte hpos hrate
      obtain ⟨t₂, hrest, h₂⟩ := ih h₁
      refine ⟨t₂, ?_, ?_⟩
      · rw [Shake.squeeze, hbyte, Option.bind_eq_bind, Option.bind_some]
        dsimp only
        rw [hrest, List.range'_succ, List.map_cons]
        rfl
      · rwa [Nat.add_assoc, Nat.add_comm 1] at h₂

/-- Outputs of any lengths. -/
theorem Squeezing.squeezeAll (hpos : 0 < rate) (hrate : rate ≤ 200) (ns : List ℕ)
    (h : Squeezing rate start k t) :
    ∃ outs, t.squeezeAll ns = some outs ∧ outs.map List.length = ns ∧
      outs.flatten = (List.range' k ns.sum).map (squeezedByte rate start) := by
  induction ns generalizing k t with
  | nil => exact ⟨[], rfl, rfl, rfl⟩
  | cons n ns ih =>
      obtain ⟨t₁, hfirst, h₁⟩ := h.squeeze hpos hrate n
      obtain ⟨outs, hrest, hlengths, hflat⟩ := ih h₁
      refine ⟨(List.range' k n).map (squeezedByte rate start) :: outs, ?_, ?_, ?_⟩
      · rw [Shake.squeezeAll, hfirst, Option.bind_eq_bind, Option.bind_some]
        dsimp only
        rw [hrest]
        rfl
      · rw [List.map_cons, hlengths, List.length_map, List.length_range']
      · rw [List.flatten_cons, hflat, List.sum_cons, ← List.map_append, List.range'_append_1]

/-- Byte `k` is made of the bits from `8 * k` on. -/
theorem wordOfBits_squeeze (hpos : 0 < rate) (hrate : rate ≤ 200) (start : Lanes) {n : ℕ}
    (hk : k < n) :
    (wordOfBits fun j : Fin 8 => (Sponge.squeeze keccakBits (8 * rate) (8 * n)
      (stateBits start)).getD (8 * k + j.val) false) = squeezedByte rate start k := by
  refine BitVec.eq_of_getLsbD_eq fun j hj => ?_
  have hlt := Nat.mod_lt k hpos
  have hmul : rate * (k / rate) + k % rate = k := Nat.div_add_mod k rate
  have hdiv : (8 * k + j) / (8 * rate) = k / rate := by
    rw [← Nat.div_div_eq_div_mul, show (8 * k + j) / 8 = k by omega]
  have hmod : (8 * k + j) % (8 * rate) = 8 * (k % rate) + j := by
    rw [← Nat.mod_add_mod, Nat.mul_mod_mul_left, Nat.mod_eq_of_lt (by omega)]
  have hidx : k % rate / 8 < 25 := by omega
  rw [getLsbD_wordOfBits _ hj, List.getD_eq_getElem?_getD,
    Sponge.getElem?_squeeze (by omega) (by omega) _ (by omega), Option.getD_some, squeezedByte,
    getD_lanes _ hidx, BitVec.getLsbD_setWidth, BitVec.getLsbD_ushiftRight, decide_eq_true hj,
    Bool.true_and]
  simp only [hdiv, hmod, iterate_keccakBits, stateBits]
  have hlane : (8 * (k % rate) + j) / 64 = k % rate / 8 := by omega
  have hbit : (8 * (k % rate) + j) % 64 = k % rate % 8 * 8 + j := by omega
  simp only [hlane, hbit]

/-- The outputs of a context, one after the other, are the sponge of its inputs. -/
theorem run_new (hpos : 0 < rate) (hrate : rate ≤ 200) (inputs : List (List (BitVec 8)))
    (outputs : List ℕ) :
    ∃ outs, (new rate).run inputs outputs = some outs ∧ outs.map List.length = outputs ∧
      outs.flatten = bytesOfBits outputs.sum (Sponge.sponge keccakBits (8 * rate)
        (inputs.flatten.flatMap bitsOfByte ++ [true, true, true, true]) (8 * outputs.sum)) := by
  obtain ⟨t₁, hinputs, h₁⟩ := (Absorbing.new rate).foldlM hpos hrate inputs
  obtain ⟨t₂, hfinal, heq, hzero, hbits⟩ := h₁.finalize hpos hrate
  have h₂ : Squeezing rate t₂.state 0 t₂ :=
    ⟨heq, hzero ▸ Nat.zero_le _, 0, rfl, by rw [hzero, Nat.mul_zero]⟩
  obtain ⟨outs, houtputs, hlengths, hflat⟩ := h₂.squeezeAll hpos hrate outputs
  refine ⟨outs, ?_, hlengths, ?_⟩
  · rw [Shake.run, hinputs, Option.bind_eq_bind, Option.bind_some, hfinal]
    exact houtputs
  · rw [List.nil_append] at hbits
    rw [hflat, bytesOfBits, Sponge.sponge, ← hbits]
    refine List.ext_getElem (by simp) fun k hk _ => ?_
    rw [List.getElem_map, List.getElem_range', List.getElem_ofFn,
      wordOfBits_squeeze hpos hrate _ (by simpa using hk), Nat.zero_add, Nat.one_mul]

end Shake

/-- SHAKE128 and SHAKE256 of the message that the chunks of input make up, for every sequence of
outputs. -/
theorem shake_eq_sponge (inputs : List (List (BitVec 8))) (outputs : List ℕ) :
    (∃ outs, Shake128.new.run inputs outputs = some outs ∧ outs.map List.length = outputs ∧
      outs.flatten = shakeSpec 256 inputs.flatten outputs.sum) ∧
    (∃ outs, Shake256.new.run inputs outputs = some outs ∧ outs.map List.length = outputs ∧
      outs.flatten = shakeSpec 512 inputs.flatten outputs.sum) :=
  ⟨Shake.run_new (by decide) (by decide) inputs outputs,
    Shake.run_new (by decide) (by decide) inputs outputs⟩

end StarOS
