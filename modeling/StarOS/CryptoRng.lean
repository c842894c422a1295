/-
The cryptographic random number generator (`crypto/rng.rs`, with the block function of
`crypto/chacha20.rs`).

The generator serves the bytes of a keystream block one after the other.  Every 2²⁰ blocks it takes
a new key and nonce out of the block that it has just generated, and then serves this same block
from its start.  So the first bytes that are asked for after the reseed are the key of all that
follows.  The key stays inside exactly in the runs that never get that far: those that ask for at
most 64 · (2²⁰ - 1) bytes in all.

* `StarOS.chacha20Block` — the block function;
* `StarOS.CryptoRng`, `StarOS.CryptoRng.refill`, `StarOS.CryptoRng.fillBytes` and the other
  operations — the generator;
* `StarOS.RngRun` — the generator together with the block that every byte was served from, and the
  blocks that a key was taken from;
* `StarOS.RngRun.fillBytes_erase` — the record changes nothing;
* `StarOS.RngRun.Spec` — the invariant: byte `i` is served from position `i % 64` of block `i / 64`;
* `StarOS.RngRun.KeyKept` — the law;
* `StarOS.rng_key_kept_iff` — the law holds exactly for short runs;
* `StarOS.rng_key_served` — a run that is one byte too long.
-/

import StarOS.Runs
import Mathlib.Tactic.Cases
import Mathlib.Tactic.NormNum.Pow

set_option autoImplicit false

namespace StarOS

/-! ### The block function -/

/-- `quarter_round`. -/
def quarterRound (a b c d : BitVec 32) : BitVec 32 × BitVec 32 × BitVec 32 × BitVec 32 :=
  let a := a + b
  let d := (d ^^^ a).rotateLeft 16
  let c := c + d
  let b := (b ^^^ c).rotateLeft 12
  let a := a + b
  let d := (d ^^^ a).rotateLeft 8
  let c := c + d
  let b := (b ^^^ c).rotateLeft 7
  (a, b, c, d)

/-- `quarter_round` of four words of the state. -/
def quarterRoundAt (s : Vector (BitVec 32) 16) (i j k l : Fin 16) : Vector (BitVec 32) 16 :=
  let (a, b, c, d) := quarterRound s[i] s[j] s[k] s[l]
  (((s.set i a).set j b).set k c).set l d

/-- One round on the columns, and one on the diagonals. -/
def doubleRound (s : Vector (BitVec 32) 16) : Vector (BitVec 32) 16 :=
  let s := quarterRoundAt s 0 4 8 12
  let s := quarterRoundAt s 1 5 9 13
  let s := quarterRoundAt s 2 6 10 14
  let s := quarterRoundAt s 3 7 11 15
  let s := quarterRoundAt s 0 5 10 15
  let s := quarterRoundAt s 1 6 11 12
  let s := quarterRoundAt s 2 7 8 13
  quarterRoundAt s 3 4 9 14

/-- `u32::from_le_bytes` of the bytes of word `i`. -/
def leWord32 {n : ℕ} (bytes : Vector (BitVec 8) n) (i : ℕ) : BitVec 32 :=
  bytes.toList.getD (4 * i + 3) 0#8 ++ bytes.toList.getD (4 * i + 2) 0#8 ++
    bytes.toList.getD (4 * i + 1) 0#8 ++ bytes.toList.getD (4 * i) 0#8

/-- The state before the rounds. -/
def chacha20State (key : Vector (BitVec 8) 32) (nonce : Vector (BitVec 8) 12)
    (counter : BitVec 32) : Vector (BitVec 32) 16 :=
  #v[0x61707865#32, 0x3320646e#32, 0x79622d32#32, 0x6b206574#32,
    leWord32 key 0, leWord32 key 1, leWord32 key 2, leWord32 key 3,
    leWord32 key 4, leWord32 key 5, leWord32 key 6, leWord32 key 7,
    counter, leWord32 nonce 0, leWord32 nonce 1, leWord32 nonce 2]

/-- `chacha20_block`. -/
def chacha20Block (key : Vector (BitVec 8) 32) (nonce : Vector (BitVec 8) 12)
    (counter : BitVec 32) : Vector (BitVec 8) 64 :=
  let state := chacha20State key nonce counter
  let working := (List.range 10).foldl (fun s _ => doubleRound s) state
  Vector.ofFn fun i => ((working.toList.getD (i.val / 4) 0#32 +
    state.toList.getD (i.val / 4) 0#32) >>> (8 * (i.val % 4))).setWidth 8

example : (chacha20Block (Vector.ofFn fun i => BitVec.ofNat 8 i.val)
    #v[0, 0, 0, 9, 0, 0, 0, 0x4a, 0, 0, 0, 0] 1#32).toList.take 8 =
    [0x10#8, 0xf1#8, 0xe7#8, 0xe4#8, 0xd1#8, 0x3b#8, 0x59#8, 0x15#8] := by decide +kernel

/-! ### The generator -/

/-- `RESEED_INTERVAL`. -/
def reseedInterval : ℕ := 2 ^ 20

/-- The generator. -/
structure CryptoRng where
  key : Vector (BitVec 8) 32
  nonce : Vector (BitVec 8) 12
  counter : BitVec 32
  buffer : Vector (BitVec 8) 64
  bufferPos : ℕ
  /-- Number of blocks since the last reseed. -/
  blocksSinceReseed : ℕ

namespace CryptoRng

/-- `CryptoRng::new`. -/
def new (seed : Vector (BitVec 8) 32) : CryptoRng where
  key := seed
  nonce := Vector.replicate 12 0#8
  counter := 0#32
  buffer := Vector.replicate 64 0#8
  bufferPos := 64
  blocksSinceReseed := 0

/-- `CryptoRng::reseed`. -/
def reseed (r : CryptoRng) : CryptoRng :=
  { r with
    key := Vector.ofFn fun i => r.buffer[i.val]
    nonce := Vector.ofFn fun i => r.buffer[32 + i.val]
    counter := 0#32
    blocksSinceReseed := 0 }

/-- The generator with the next block in its buffer. -/
def nextBlock (r : CryptoRng) : CryptoRng :=
  { r with
    buffer := chacha20Block r.key r.nonce r.counter
    counter := r.counter + 1#32
    blocksSinceReseed := r.blocksSinceReseed + 1 }

/-- The test in `refill` whether to reseed. -/
def reseedDue (r : CryptoRng) : Bool :=
  r.counter = 0#32 || decide (reseedInterval ≤ r.blocksSinceReseed)

/-- `CryptoRng::refill`. -/
def refill (r : CryptoRng) : CryptoRng :=
  let r := r.nextBlock
  let r := if r.reseedDue then r.reseed else r
  -- the block that a key was taken out of is served like any other
  { r with bufferPos := 0 }

/-- The test at the head of the loop in `fill_bytes`. -/
def refillIfUsed (r : CryptoRng) : CryptoRng := if 64 ≤ r.bufferPos then r.refill else r

theorem refill_bufferPos (r : CryptoRng) : r.refill.bufferPos = 0 := rfl

/-- The counters start anew where a key is taken. -/
theorem refill_counters (r : CryptoRng) :
    r.refill.blocksSinceReseed =
        (if r.nextBlock.reseedDue then 0 else r.blocksSinceReseed + 1) ∧
      r.refill.counter = if r.nextBlock.reseedDue then 0#32 else r.counter + 1#32 := by
  rw [refill]
  dsimp only
  split <;> exact ⟨rfl, rfl⟩

theorem refillIfUsed_bufferPos (r : CryptoRng) : r.refillIfUsed.bufferPos < 64 := by
  rw [refillIfUsed]
  split
  · rw [refill_bufferPos]
    decide
  · omega

/-- `CryptoRng::fill_bytes`, for a buffer of `n` bytes: the bytes, and the generator afterwards. -/
def fillBytes (r : CryptoRng) (n : ℕ) : List (BitVec 8) × CryptoRng :=
  if n = 0 then ([], r)
  else
    let r' := r.refillIfUsed
    let toCopy := min (64 - r'.bufferPos) n
    let bytes := (List.range toCopy).map fun i => r'.buffer.toList.getD (r'.bufferPos + i) 0#8
    let rest := fillBytes { r' with bufferPos := r'.bufferPos + toCopy } (n - toCopy)
    (bytes ++ rest.1, rest.2)
  termination_by n
  decreasing_by
    have := r.refillIfUsed_bufferPos
    omega

/-- `CryptoRng::next_u64`. -/
def nextU64 (r : CryptoRng) : BitVec 64 × CryptoRng :=
  let (bytes, r) := r.fillBytes 8
  ((List.range 8).foldr (fun i v => v ||| (bytes.getD i 0#8).setWidth 64 <<< (8 * i)) 0#64, r)

/-- `CryptoRng::next_u32`. -/
def nextU32 (r : CryptoRng) : BitVec 32 × CryptoRng :=
  let (bytes, r) := r.fillBytes 4
  ((List.range 4).foldr (fun i v => v ||| (bytes.getD i 0#8).setWidth 32 <<< (8 * i)) 0#32, r)

end CryptoRng

/-! ### Where the bytes come from -/

/-- A byte that was returned to a caller: the number of the block that it was copied from, counted
from one, its position there, and its value. -/
structure ServedByte where
  block : ℕ
  pos : ℕ
  byte : BitVec 8
  deriving DecidableEq, Repr

/-- A generator, with a record of what it has done. -/
structure RngRun where
  rng : CryptoRng
  /-- The number of blocks generated. -/
  block : ℕ
  /-- The blocks out of which `reseed` copied a key and a nonce. -/
  keyBlocks : List ℕ
  /-- The bytes returned to callers. -/
  served : List ServedByte

namespace RngRun

/-- The record of a new generator. -/
def new (seed : Vector (BitVec 8) 32) : RngRun := ⟨.new seed, 0, [], []⟩

/-- Recording `refill`. -/
def refill (t : RngRun) : RngRun :=
  { t with
    rng := t.rng.refill
    block := t.block + 1
    keyBlocks := if t.rng.nextBlock.reseedDue then (t.block + 1) :: t.keyBlocks else t.keyBlocks }

/-- Recording the head of the loop in `fill_bytes`. -/
def refillIfUsed (t : RngRun) : RngRun := if 64 ≤ t.rng.bufferPos then t.refill else t

/-- Recording a copy of `k` bytes out of the buffer. -/
def serve (t : RngRun) (k : ℕ) : RngRun :=
  { t with
    rng := { t.rng with bufferPos := t.rng.bufferPos + k }
    served := t.served ++ (List.range k).map fun i =>
      ⟨t.block, t.rng.bufferPos + i, t.rng.buffer.toList.getD (t.rng.bufferPos + i) 0#8⟩ }

theorem refillIfUsed_rng (t : RngRun) : t.refillIfUsed.rng = t.rng.refillIfUsed := by
  rw [refillIfUsed, CryptoRng.refillIfUsed]
  split <;> rfl

theorem refillIfUsed_served (t : RngRun) : t.refillIfUsed.served = t.served := by
  rw [refillIfUsed]
  split <;> rfl

/-- Recording `fill_bytes`. -/
def fillBytes (t : RngRun) (n : ℕ) : RngRun :=
  if n = 0 then t
  else
    let t' := t.refillIfUsed
    let toCopy := min (64 - t'.rng.bufferPos) n
    fillBytes (t'.serve toCopy) (n - toCopy)
  termination_by n
  decreasing_by
    have := t.rng.refillIfUsed_bufferPos
    rw [refillIfUsed_rng]
    omega

/-- The record is one of what the generator does: it is in the same state, and the bytes returned
are the ones recorded. -/
theorem fillBytes_erase (t : RngRun) (n : ℕ) :
    (t.fillBytes n).rng = (t.rng.fillBytes n).2 ∧
      (t.fillBytes n).served.map ServedByte.byte =
        t.served.map ServedByte.byte ++ (t.rng.fillBytes n).1 := by
  induction t, n using fillBytes.induct with
  | case1 t =>
      rw [fillBytes, CryptoRng.fillBytes]
      simp
  | case2 t n hn t' toCopy ih =>
      rw [fillBytes, CryptoRng.fillBytes, if_neg hn, if_neg hn]
      dsimp only
      rw [← refillIfUsed_rng, ← List.append_assoc]
      refine ⟨ih.1, ih.2.trans (congrArg (· ++ _) ?_)⟩
      rw [serve, List.map_append, List.map_map]
      exact congrArg (· ++ _) (congrArg (List.map ServedByte.byte) t.refillIfUsed_served)

/-! ### What every call does -/

/-- The state after `n` bytes were returned in all: byte `i` was copied from position `i % 64` of
block `i / 64`, and the key was taken out of every block whose number is a multiple of 2²⁰. -/
structure Spec (n : ℕ) (t : RngRun) : Prop where
  block : t.block = (n + 63) / 64
  pos : t.rng.bufferPos = n + 64 - 64 * t.block
  since : t.rng.blocksSinceReseed = t.block % reseedInterval
  counter : t.rng.counter = BitVec.ofNat 32 (t.block % reseedInterval)
  keys : ∀ b, b ∈ t.keyBlocks ↔ 0 < b ∧ b ≤ t.block ∧ reseedInterval ∣ b
  sound : ∀ s ∈ t.served, ∃ i < n, s.block = i / 64 + 1 ∧ s.pos = i % 64
  complete : ∀ i < n, ∃ s ∈ t.served, s.block = i / 64 + 1 ∧ s.pos = i % 64

theorem Spec.new (seed : Vector (BitVec 8) 32) : Spec 0 (RngRun.new seed) where
  block := rfl
  pos := rfl
  since := rfl
  counter := rfl
  keys b := by
    refine iff_of_false List.not_mem_nil fun h => ?_
    have hle : b ≤ 0 := h.2.1
    omega
  sound _ hs := absurd hs List.not_mem_nil
  complete _ hi := absurd hi (Nat.not_lt_zero _)

variable {n : ℕ} {t : RngRun}

/-- `refill` reseeds exactly if the number of the block is a multiple of 2²⁰. -/
theorem Spec.reseedDue_iff (h : Spec n t) :
    t.rng.nextBlock.reseedDue = true ↔ reseedInterval ∣ t.block + 1 := by
  have hcounter : t.rng.nextBlock.counter ≠ 0#32 := by
    intro hzero
    have hnat := congrArg BitVec.toNat hzero
    change (t.rng.counter + 1#32).toNat = 0 at hnat
    rw [h.counter, BitVec.toNat_add, BitVec.toNat_ofNat] at hnat
    have hlt : t.block % reseedInterval < 2 ^ 20 := Nat.mod_lt _ (by decide)
    have hone : (1#32).toNat = 1 := rfl
    omega
  have hsince : t.rng.nextBlock.blocksSinceReseed = t.block % reseedInterval + 1 := by
    rw [← h.since]
    rfl
  rw [CryptoRng.reseedDue, hsince, reseedInterval]
  simp only [hcounter, decide_false, Bool.false_or, decide_eq_true_eq]
  omega

/-- With a block in the buffer that is not used up, the next byte is at position `n % 64` of block
`n / 64`. -/
structure Ready (n : ℕ) (t : RngRun) : Prop where
  block : t.block = n / 64 + 1
  pos : t.rng.bufferPos = n % 64
  since : t.rng.blocksSinceReseed = t.block % reseedInterval
  counter : t.rng.counter = BitVec.ofNat 32 (t.block % reseedInterval)
  keys : ∀ b, b ∈ t.keyBlocks ↔ 0 < b ∧ b ≤ t.block ∧ reseedInterval ∣ b
  sound : ∀ s ∈ t.served, ∃ i < n, s.block = i / 64 + 1 ∧ s.pos = i % 64
  complete : ∀ i < n, ∃ s ∈ t.served, s.block = i / 64 + 1 ∧ s.pos = i % 64

/-- The numbers of the blocks that a key is taken out of, after one more block. -/
theorem dvd_block_succ {d m b : ℕ} :
    0 < b ∧ b ≤ m + 1 ∧ d ∣ b ↔ d ∣ m + 1 ∧ b = m + 1 ∨ 0 < b ∧ b ≤ m ∧ d ∣ b := by
  constructor
  · rintro ⟨hb, hle, hdvd⟩
    rcases Nat.lt_or_eq_of_le hle with hlt | rfl
    · exact .inr ⟨hb, Nat.le_of_lt_succ hlt, hdvd⟩
    · exact .inl ⟨hdvd, rfl⟩
  · rintro (⟨hdvd, rfl⟩ | ⟨hb, hle, hdvd⟩)
    · exact ⟨Nat.succ_pos m, Nat.le_refl _, hdvd⟩
    · exact ⟨hb, Nat.le_succ_of_le hle, hdvd⟩

theorem Spec.refill (h : Spec n t) (hused : 64 ≤ t.rng.bufferPos) : Ready n t.refill := by
  have hblock := h.block
  have hpos := h.pos
  have hdue := h.reseedDue_iff
  obtain ⟨hsince, hcounter⟩ := t.rng.refill_counters
  -- the number of the block, where no key is taken out of it
  have hkeep : ¬ reseedInterval ∣ t.block + 1 →
      (t.block + 1) % reseedInterval = t.block % reseedInterval + 1 := by
    rw [reseedInterval]
    omega
  constructor
  case block =>
    change t.block + 1 = _
    omega
  case pos =>
    change 0 = _
    omega
  case since =>
    change t.rng.refill.blocksSinceReseed = (t.block + 1) % reseedInterval
    rw [hsince]
    split
    · exact (Nat.mod_eq_zero_of_dvd (hdue.1 ‹_›)).symm
    · rw [hkeep (mt hdue.2 ‹_›), h.since]
  case counter =>
    change t.rng.refill.counter = BitVec.ofNat 32 ((t.block + 1) % reseedInterval)
    rw [hcounter]
    split
    · rw [Nat.mod_eq_zero_of_dvd (hdue.1 ‹_›)]
    · rw [hkeep (mt hdue.2 ‹_›), h.counter, BitVec.ofNat_add]
  case keys =>
    intro b
    change b ∈ (if t.rng.nextBlock.reseedDue then _ else _) ↔ _ ∧ b ≤ t.block + 1 ∧ _
    rw [dvd_block_succ, ← h.keys, ← hdue]
    split
    · rename_i hreseed
      rw [List.mem_cons, and_iff_right hreseed]
    · rename_i hnot
      exact (or_iff_right fun hb => hnot hb.1).symm
  case sound => exact h.sound
  case complete => exact h.complete

theorem Spec.refillIfUsed (h : Spec n t) : Ready n t.refillIfUsed := by
  rw [RngRun.refillIfUsed]
  split
  · exact h.refill ‹_›
  · rename_i hleft
    have hblock := h.block
    have hpos := h.pos
    exact ⟨by omega, by omega, h.since, h.counter, h.keys, h.sound, h.complete⟩

/-- Copying bytes out of the buffer. -/
theorem Ready.serve (h : Ready n t) {k : ℕ} (hk : 0 < k) (hroom : k ≤ 64 - t.rng.bufferPos) :
    Spec (n + k) (t.serve k) := by
  have hblock := h.block
  have hpos := h.pos
  constructor
  case block =>
    change t.block = _
    omega
  case pos =>
    change t.rng.bufferPos + k = n + k + 64 - 64 * t.block
    omega
  case since => exact h.since
  case counter => exact h.counter
  case keys => exact h.keys
  case sound =>
    intro s hs
    rcases List.mem_append.1 hs with hold | hnew
    · obtain ⟨i, hi, hs⟩ := h.sound s hold
      exact ⟨i, by omega, hs⟩
    · obtain ⟨j, hj, rfl⟩ := List.mem_map.1 hnew
      have hj := List.mem_range.1 hj
      exact ⟨n + j, by omega, by dsimp only; omega, by dsimp only; omega⟩
  case complete =>
    intro i hi
    by_cases hold : i < n
    · obtain ⟨s, hs, hs'⟩ := h.complete i hold
      exact ⟨s, List.mem_append_left _ hs, hs'⟩
    · refine ⟨_, List.mem_append_right _ (List.mem_map_of_mem (List.mem_range.2
        (show i - n < k by omega))), ?_, ?_⟩
      · dsimp only
        omega
      · dsimp only
        omega

/-- `fill_bytes` returns the bytes that are next in turn. -/
theorem Spec.fillBytes (h : Spec n t) (m : ℕ) : Spec (n + m) (t.fillBytes m) := by
  induction t, m using RngRun.fillBytes.induct generalizing n with
  | case1 t =>
      rw [RngRun.fillBytes, if_pos rfl]
      exact h
  | case2 t m hm t' toCopy =>
      rename_i ih
      have hready : Ready n t' := h.refillIfUsed
      have hleft : t'.rng.bufferPos < 64 := by
        rw [hready.pos]
        omega
      have hcopy : toCopy = min (64 - t'.rng.bufferPos) m := rfl
      rw [RngRun.fillBytes, if_neg hm]
      have hrest := ih (hready.serve (k := toCopy) (by omega) (Nat.min_le_left _ _))
      rwa [Nat.add_assoc, Nat.add_sub_cancel' (Nat.min_le_right _ _)] at hrest

end RngRun

/-! ### The law over runs -/

/-- The calls of the generator's users. -/
inductive RngCall where
  | fillBytes (n : ℕ)
  | nextU32
  | nextU64
  deriving DecidableEq, Repr

/-- The number of bytes that a call returns. -/
def RngCall.bytes : RngCall → ℕ
  | .fillBytes n => n
  | .nextU32 => 4
  | .nextU64 => 8

/-- The generator after a call. -/
def CryptoRng.next (r : CryptoRng) : RngCall → CryptoRng
  | .fillBytes n => (r.fillBytes n).2
  | .nextU32 => r.nextU32.2
  | .nextU64 => r.nextU64.2

namespace RngRun

/-- Recording a call. -/
def next (t : RngRun) (call : RngCall) : RngRun := t.fillBytes call.bytes

/-- Recording a sequence of calls to a new generator. -/
def run (seed : Vector (BitVec 8) 32) (calls : List RngCall) : RngRun := calls.foldl next (new seed)

theorem next_erase (t : RngRun) (call : RngCall) : (t.next call).rng = t.rng.next call := by
  cases call with
  | fillBytes n => exact (t.fillBytes_erase n).1
  | nextU32 => exact (t.fillBytes_erase 4).1
  | nextU64 => exact (t.fillBytes_erase 8).1

/-- The record of a run is one of what the generator does. -/
theorem run_erase (seed : Vector (BitVec 8) 32) (calls : List RngCall) :
    (run seed calls).rng = calls.foldl CryptoRng.next (.new seed) :=
  (List.foldl_hom RngRun.rng fun t call => (t.next_erase call).symm).symm

theorem Spec.foldl (calls : List RngCall) {n : ℕ} {t : RngRun} (h : Spec n t) :
    Spec (n + (calls.map RngCall.bytes).sum) (calls.foldl next t) := by
  induction calls generalizing n t with
  | nil => exact h
  | cons call calls ih =>
      rw [List.foldl_cons, List.map_cons, List.sum_cons, ← Nat.add_assoc]
      exact ih (h.fillBytes call.bytes)

theorem Spec.run (seed : Vector (BitVec 8) 32) (calls : List RngCall) :
    Spec (calls.map RngCall.bytes).sum (run seed calls) := by
  have h := Spec.foldl calls (Spec.new seed)
  rwa [Nat.zero_add] at h

/-- No byte was returned from a position of a block out of which `reseed` copied a key (bytes 0 to
31) or a nonce (bytes 32 to 43). -/
def KeyKept (t : RngRun) : Prop := ∀ s ∈ t.served, s.block ∈ t.keyBlocks → 44 ≤ s.pos

theorem Spec.keyKept_iff {n : ℕ} {t : RngRun} (h : Spec n t) :
    t.KeyKept ↔ n ≤ 64 * (reseedInterval - 1) := by
  have hblock := h.block
  constructor
  · intro hkept
    refine Nat.le_of_not_lt fun hlong => ?_
    obtain ⟨s, hs, hsblock, hspos⟩ := h.complete _ hlong
    have hnumber : s.block = reseedInterval := by
      rw [hsblock, reseedInterval]
      norm_num
    have hkey : s.block ∈ t.keyBlocks := by
      rw [h.keys, hnumber, reseedInterval]
      rw [reseedInterval] at hlong
      exact ⟨by decide, by omega, Nat.dvd_refl _⟩
    have hlate := hkept s hs hkey
    omega
  · intro hshort s hs hkey
    obtain ⟨i, hi, hsblock, -⟩ := h.sound s hs
    obtain ⟨hpos, -, hdvd⟩ := (h.keys _).1 hkey
    have hfull := Nat.le_of_dvd hpos hdvd
    rw [reseedInterval] at hshort hfull
    omega

end RngRun

/-- No byte that a key or a nonce was copied from is returned to a caller in exactly the runs that
ask for at most 64 · (2²⁰ - 1) bytes.  The record that the law speaks of is one of the generator. -/
theorem rng_key_kept_iff (seed : Vector (BitVec 8) 32) (calls : List RngCall) :
    (RngRun.run seed calls).rng = calls.foldl CryptoRng.next (.new seed) ∧
      ((RngRun.run seed calls).KeyKept ↔
        (calls.map RngCall.bytes).sum ≤ 64 * (reseedInterval - 1)) :=
  ⟨RngRun.run_erase seed calls, (RngRun.Spec.run seed calls).keyKept_iff⟩

/-- One call for 67108801 bytes returns the first byte of the block that the key was taken from. -/
theorem rng_key_served :
    ¬ (RngRun.run (Vector.replicate 32 0#8) [.fillBytes 67108801]).KeyKept := by
  rw [(RngRun.Spec.run _ _).keyKept_iff]
  decide

end StarOS
