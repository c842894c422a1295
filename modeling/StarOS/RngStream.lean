/-
The output of the random number generator as a stream (`crypto/rng.rs`).

Whatever is asked for, and in whichever pieces, byte `i` is byte `i % 64` of block `i / 64`, where
the blocks are those that a new generator has in its buffer after one refill, after two, and so on.
A refill depends on everything in the generator but the position in the buffer, so that requests
which end in the middle of a block change nothing in the blocks behind it.

* `StarOS.rngBlock`, `StarOS.rngStream` — the blocks, and the first bytes of them;
* `StarOS.CryptoRng.outputs` — what a sequence of calls returns, in bytes;
* `StarOS.CryptoRng.Serving` — the invariant: the generator is the one after `(n + 63) / 64`
  refills, but for the position;
* `StarOS.rng_outputs_eq_stream` — the law.
-/

import StarOS.CryptoRng

set_option autoImplicit false

namespace StarOS

/-! ### The stream -/

/-- Block `k`: the buffer of a new generator after `k + 1` refills. -/
def rngBlock (seed : Vector (BitVec 8) 32) (k : ℕ) : Vector (BitVec 8) 64 :=
  (CryptoRng.refill^[k + 1] (.new seed)).buffer

/-- The first `n` bytes of the blocks, one after the other. -/
def rngStream (seed : Vector (BitVec 8) 32) (n : ℕ) : List (BitVec 8) :=
  ((List.range ((n + 63) / 64)).flatMap fun k => (rngBlock seed k).toList).take n

/-- Byte `i` of the stream. -/
def rngByte (seed : Vector (BitVec 8) 32) (i : ℕ) : BitVec 8 :=
  (rngBlock seed (i / 64)).toList.getD (i % 64) 0#8

theorem flatMap_blocks (seed : Vector (BitVec 8) 32) (b : ℕ) :
    ((List.range b).flatMap fun k => (rngBlock seed k).toList) =
      (List.range (64 * b)).map (rngByte seed) := by
  induction b with
  | zero => rfl
  | succ b ih =>
      rw [List.range_succ, List.flatMap_append, List.flatMap_singleton, ih, Nat.mul_succ,
        List.range_add, List.map_append, List.map_map]
      refine congrArg (_ ++ ·) (List.ext_getElem (by simp) fun i hi _ => ?_)
      have hlt : i < 64 := by simpa using hi
      have hdiv : (64 * b + i) / 64 = b := by omega
      have hmod : (64 * b + i) % 64 = i := by omega
      rw [List.getElem_map, List.getElem_range, Function.comp_apply, rngByte, hdiv, hmod,
        List.getD_eq_getElem?_getD, List.getElem?_eq_getElem hi, Option.getD_some]

/-- The stream, byte by byte. -/
theorem rngStream_eq (seed : Vector (BitVec 8) 32) (n : ℕ) :
    rngStream seed n = (List.range n).map (rngByte seed) := by
  rw [rngStream, flatMap_blocks, ← List.map_take, List.take_range, Nat.min_eq_left (by omega)]

/-! ### Little-endian bytes -/

/-- `to_le_bytes`, for `n` bytes. -/
def toLeBytes {w : ℕ} (n : ℕ) (v : BitVec w) : List (BitVec 8) :=
  (List.range n).map fun i => (v >>> (8 * i)).setWidth 8

/-- The bits of bytes that are put together. -/
theorem getLsbD_foldr_bytes {w : ℕ} (bytes : List (BitVec 8)) (n : ℕ) (v : BitVec w) {j : ℕ}
    (hj : j < w) :
    ((List.range n).foldr (fun i v => v ||| (bytes.getD i 0#8).setWidth w <<< (8 * i)) v).getLsbD
        j =
      (v.getLsbD j || (decide (j < 8 * n) && (bytes.getD (j / 8) 0#8).getLsbD (j % 8))) := by
  induction n generalizing v with
  | zero => rw [List.range_zero, List.foldr_nil, decide_eq_false (by omega), Bool.false_and,
      Bool.or_false]
  | succ n ih =>
      rw [List.range_succ, List.foldr_append, List.foldr_cons, List.foldr_nil, ih,
        BitVec.getLsbD_or, BitVec.getLsbD_shiftLeft, BitVec.getLsbD_setWidth, decide_eq_true hj,
        Bool.true_and, Bool.or_assoc]
      congr 1
      rcases Nat.lt_trichotomy (j / 8) n with hlt | heq | hgt
      · rw [decide_eq_true (show j < 8 * n by omega),
          decide_eq_true (show j < 8 * (n + 1) by omega)]
        rfl
      · have hsub : j - 8 * n = j % 8 := by omega
        rw [decide_eq_false (show ¬ j < 8 * n by omega),
          decide_eq_true (show j < 8 * (n + 1) by omega), hsub, heq,
          decide_eq_true (show j % 8 < w by omega)]
        simp only [Bool.not_false, Bool.true_and, Bool.false_and, Bool.or_false]
      · rw [decide_eq_false (show ¬ j < 8 * n by omega),
          decide_eq_false (show ¬ j < 8 * (n + 1) by omega), Bool.not_false, Bool.true_and,
          BitVec.getLsbD_of_ge _ (j - 8 * n) (by omega), Bool.and_false, Bool.false_and,
          Bool.or_false]

/-- The bytes of a number that was put together from bytes. -/
theorem toLeBytes_foldr {w n : ℕ} (hn : 8 * n ≤ w) {bytes : List (BitVec 8)}
    (hlen : bytes.length = n) :
    toLeBytes n ((List.range n).foldr (fun i v => v ||| (bytes.getD i 0#8).setWidth w <<< (8 * i))
      0#w) = bytes := by
  refine List.ext_getElem (by rw [toLeBytes, List.length_map, List.length_range, hlen]) ?_
  intro i _ hi
  refine BitVec.eq_of_getLsbD_eq fun j hj => ?_
  have hdiv : (8 * i + j) / 8 = i := by omega
  have hmod : (8 * i + j) % 8 = j := by omega
  simp only [toLeBytes, List.getElem_map, List.getElem_range]
  rw [BitVec.getLsbD_setWidth, BitVec.getLsbD_ushiftRight,
    getLsbD_foldr_bytes bytes n _ (by omega), BitVec.getLsbD_zero, Bool.false_or,
    decide_eq_true hj, decide_eq_true (show 8 * i + j < 8 * n by omega), hdiv, hmod,
    List.getD_eq_getElem?_getD, List.getElem?_eq_getElem hi]
  rfl

/-! ### What the calls return -/

namespace CryptoRng

/-- The bytes that a call returns. -/
def output (r : CryptoRng) : RngCall → List (BitVec 8)
  | .fillBytes n => (r.fillBytes n).1
  | .nextU32 => toLeBytes 4 r.nextU32.1
  | .nextU64 => toLeBytes 8 r.nextU64.1

/-- What a sequence of calls returns. -/
def outputs (r : CryptoRng) : List RngCall → List (List (BitVec 8))
  | [] => []
  | call :: calls => r.output call :: (r.next call).outputs calls

theorem length_fillBytes (r : CryptoRng) (n : ℕ) : (r.fillBytes n).1.length = n := by
  induction r, n using fillBytes.induct with
  | case1 r =>
      rw [fillBytes, if_pos rfl]
      rfl
  | case2 r n hn r' toCopy ih =>
      rw [fillBytes, if_neg hn]
      dsimp only
      rw [List.length_append, ih, List.length_map, List.length_range]
      exact Nat.add_sub_cancel' (Nat.min_le_right _ _)

/-- A call returns the bytes that `fill_bytes` takes out of the generator. -/
theorem output_eq (r : CryptoRng) (call : RngCall) :
    r.output call = (r.fillBytes call.bytes).1 ∧ r.next call = (r.fillBytes call.bytes).2 := by
  cases call with
  | fillBytes n => exact ⟨rfl, rfl⟩
  | nextU32 => exact ⟨toLeBytes_foldr (by decide) (r.length_fillBytes 4), rfl⟩
  | nextU64 => exact ⟨toLeBytes_foldr (by decide) (r.length_fillBytes 8), rfl⟩

/-! ### The position in the stream -/

/-- The generator at another position in the buffer. -/
def withPos (r : CryptoRng) (pos : ℕ) : CryptoRng := { r with bufferPos := pos }

/-- A refill does not depend on the position in the buffer. -/
theorem refill_withPos (r : CryptoRng) (pos : ℕ) : (r.withPos pos).refill = r.refill := by
  have hdue : (r.withPos pos).nextBlock.reseedDue = r.nextBlock.reseedDue := rfl
  rw [refill, refill, hdue]
  cases r.nextBlock.reseedDue <;> rfl

/-- After `n` bytes. -/
def Serving (seed : Vector (BitVec 8) 32) (n : ℕ) (r : CryptoRng) : Prop :=
  r = (refill^[(n + 63) / 64] (.new seed)).withPos (n + 64 - 64 * ((n + 63) / 64))

variable {seed : Vector (BitVec 8) 32} {n : ℕ} {r : CryptoRng}

theorem Serving.new (seed : Vector (BitVec 8) 32) : Serving seed 0 (new seed) := rfl

/-- At the head of the loop, the next byte is byte `n % 64` of block `n / 64`. -/
theorem Serving.refillIfUsed (h : Serving seed n r) :
    r.refillIfUsed = (refill^[n / 64 + 1] (.new seed)).withPos (n % 64) := by
  rw [Serving] at h
  have hpos : r.bufferPos = n + 64 - 64 * ((n + 63) / 64) := congrArg bufferPos h
  rw [CryptoRng.refillIfUsed]
  split
  · have hblocks : (n + 63) / 64 = n / 64 := by omega
    have hzero : n % 64 = 0 := by omega
    rw [h, refill_withPos, hblocks, hzero, Function.iterate_succ_apply']
    rfl
  · have hblocks : (n + 63) / 64 = n / 64 + 1 := by omega
    have hmod : n + 64 - 64 * (n / 64 + 1) = n % 64 := by omega
    rw [h, hblocks, hmod]

theorem Serving.fillBytes (h : Serving seed n r) (m : ℕ) :
    (r.fillBytes m).1 = (List.range' n m).map (rngByte seed) ∧
      Serving seed (n + m) (r.fillBytes m).2 := by
  induction r, m using CryptoRng.fillBytes.induct generalizing n with
  | case1 r =>
      rw [CryptoRng.fillBytes, if_pos rfl]
      exact ⟨rfl, h⟩
  | case2 r m hm r' toCopy =>
      rename_i ih
      have hr' : r' = (refill^[n / 64 + 1] (.new seed)).withPos (n % 64) := h.refillIfUsed
      have hpos : r'.bufferPos = n % 64 := congrArg bufferPos hr'
      have hbuffer : r'.buffer = rngBlock seed (n / 64) := by
        rw [hr']
        rfl
      have hcopy : toCopy = min (64 - n % 64) m := by rw [← hpos]
      have hnext : Serving seed (n + toCopy) (r'.withPos (r'.bufferPos + toCopy)) := by
        rw [Serving, hpos, hr']
        have hblocks : (n + toCopy + 63) / 64 = n / 64 + 1 := by omega
        have hnew : n + toCopy + 64 - 64 * (n / 64 + 1) = n % 64 + toCopy := by omega
        rw [hblocks, hnew]
        rfl
      obtain ⟨hbytes, hlast⟩ := ih hnext
      rw [CryptoRng.fillBytes, if_neg hm]
      dsimp only
      constructor
      · have hsplit : m = toCopy + (m - toCopy) := by omega
        have hfirst : (List.range toCopy).map
            (fun i => r'.buffer.toList.getD (r'.bufferPos + i) 0#8) =
            (List.range' n toCopy).map (rngByte seed) := by
          refine List.ext_getElem (by simp) fun i hi _ => ?_
          have hlt : i < toCopy := by simpa using hi
          have hdiv : (n + 1 * i) / 64 = n / 64 := by omega
          have hmod : (n + 1 * i) % 64 = n % 64 + i := by omega
          rw [List.getElem_map, List.getElem_range, List.getElem_map, List.getElem_range', rngByte,
            hdiv, hmod, hbuffer, hpos]
        calc _ = (List.range' n toCopy).map (rngByte seed) ++
              (List.range' (n + toCopy) (m - toCopy)).map (rngByte seed) :=
              congrArg₂ (· ++ ·) hfirst hbytes
          _ = (List.range' n m).map (rngByte seed) := by
              rw [← List.map_append, List.range'_append_1, ← hsplit]
      · rwa [Nat.add_assoc, Nat.add_sub_cancel' (by omega)] at hlast

theorem Serving.outputs (h : Serving seed n r) (calls : List RngCall) :
    (r.outputs calls).flatten =
      (List.range' n (calls.map RngCall.bytes).sum).map (rngByte seed) := by
  induction calls generalizing n r with
  | nil => rfl
  | cons call calls ih =>
      obtain ⟨hbytes, hnext⟩ := h.fillBytes call.bytes
      obtain ⟨houtput, hstate⟩ := r.output_eq call
      rw [CryptoRng.outputs, List.flatten_cons, houtput, hstate, hbytes, ih hnext, List.map_cons,
        List.sum_cons, ← List.map_append, List.range'_append_1]

end CryptoRng

/-- Two sequences of calls that ask for the same number of bytes return the same bytes: the first
ones of the blocks. -/
theorem rng_outputs_eq_stream (seed : Vector (BitVec 8) 32) (calls calls' : List RngCall)
    (h : (calls.map RngCall.bytes).sum = (calls'.map RngCall.bytes).sum) :
    ((CryptoRng.new seed).outputs calls).flatten = ((CryptoRng.new seed).outputs calls').flatten ∧
      ((CryptoRng.new seed).outputs calls).flatten =
        rngStream seed (calls.map RngCall.bytes).sum := by
  have hserved := (CryptoRng.Serving.new seed).outputs
  rw [hserved, hserved, rngStream_eq, List.range_eq_range', h]
  exact ⟨rfl, rfl⟩

theorem rng_outputs_eq_stream_twelve :
    ((CryptoRng.new (Vector.replicate 32 0#8)).outputs [.nextU64, .nextU32]).flatten =
        ((CryptoRng.new (Vector.replicate 32 0#8)).outputs [.fillBytes 5, .fillBytes 7]).flatten ∧
      ((CryptoRng.new (Vector.replicate 32 0#8)).outputs [.nextU64, .nextU32]).flatten =
        rngStream (Vector.replicate 32 0#8) 12 :=
  rng_outputs_eq_stream (Vector.replicate 32 0#8) [.nextU64, .nextU32]
    [.fillBytes 5, .fillBytes 7] rfl

end StarOS
