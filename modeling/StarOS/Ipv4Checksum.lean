/-
The IPv4 header checksum as a check on the header (`net/ipv4/mod.rs`), on a little-endian target.

A header is verified exactly if the sum of its words is a multiple of `0xFFFF` other than zero.  So
a header whose checksum was calculated is verified, and it is not once a word has been replaced by
one of another residue modulo `0xFFFF`.  But the header length stands in the first word, and says
how many words are summed: with another length the sum is over other words.

* `StarOS.verifyChecksumU32`, `StarOS.IpHeader.calculateChecksumU32` — the code with the overflow
  checks of `u32`, `none` for an overflow;
* `StarOS.verifyChecksumU32_eq`, `StarOS.IpHeader.calculateChecksumU32_eq` — nothing overflows;
* `StarOS.wordSum_replace` — the sum after a word was replaced;
* `StarOS.ip_checksum_detects` — the law, for words that leave the header length;
* `StarOS.ip_checksum_shorter` — a header that is verified with another length in its first word.
-/

import StarOS.Ipv4

set_option autoImplicit false

namespace StarOS

/-! ### Overflow -/

/-- The loop that adds words to `sum`, with the overflow check of `u32`. -/
def sumU32 : List ℕ → ℕ → Option ℕ
  | [], sum => some sum
  | word :: words, sum => if sum + word < 2 ^ 32 then sumU32 words (sum + word) else none

/-- The loop that folds a sum, with the overflow check of `u32`. -/
def foldSumU32 (sum : ℕ) : Option ℕ :=
  if sum / 2 ^ 16 = 0 then some sum
  else if sum % 2 ^ 16 + sum / 2 ^ 16 < 2 ^ 32 then foldSumU32 (sum % 2 ^ 16 + sum / 2 ^ 16)
  else none
  termination_by sum

/-- The first `n` words at an address, each in network byte order. -/
def headerWords (mem : PacketMem) (a n : ℕ) : List ℕ :=
  (List.range n).map fun k => (swap16 (word16At mem (a + 2 * k))).toNat

/-- The words of a header that lies in a local variable. -/
def IpHeader.words (h : IpHeader) : List ℕ :=
  (List.range (h.ihl / 2)).map fun k =>
    (swap16 (ofBytes16 (h.toBytes.getD (2 * k) 0#8) (h.toBytes.getD (2 * k + 1) 0#8))).toNat

/-- `IpHeader::verify_checksum`, with overflow checks. -/
def verifyChecksumU32 (mem : PacketMem) (a : ℕ) : Option Bool := do
  let sum ← sumU32 (headerWords mem a ((IpHeader.load mem a).ihl / 2)) 0
  let sum ← foldSumU32 sum
  some (sum == 0xFFFF)

/-- `IpHeader::calculate_checksum`, with overflow checks. -/
def IpHeader.calculateChecksumU32 (h : IpHeader) : Option IpHeader := do
  let h₀ := { h with check := 0#16 }
  let sum ← sumU32 h₀.words 0
  let sum ← foldSumU32 sum
  some { h with check := swap16 ((~~~(BitVec.ofNat 32 sum)).setWidth 16) }

theorem sumU32_eq (ws : List ℕ) (sum : ℕ) (hws : ∀ w ∈ ws, w < 2 ^ 16)
    (hsum : sum + ws.length * 2 ^ 16 < 2 ^ 32) : sumU32 ws sum = some (sum + ws.sum) := by
  induction ws generalizing sum with
  | nil => rfl
  | cons w ws ih =>
      have hw := hws w List.mem_cons_self
      rw [List.length_cons, Nat.succ_mul] at hsum
      have hrest := ih (sum + w) (fun v hv => hws v (List.mem_cons_of_mem w hv)) (by omega)
      rw [sumU32, if_pos (by omega), hrest, List.sum_cons, Nat.add_assoc]

theorem foldSumU32_eq {sum : ℕ} (hsum : sum < 2 ^ 32) : foldSumU32 sum = some (foldSum sum) := by
  induction sum using foldSum.induct with
  | case1 sum hfits => rw [foldSumU32, foldSum, if_pos hfits, if_pos hfits]
  | case2 sum hover ih =>
      rw [foldSumU32, foldSum, if_neg hover, if_neg hover, if_pos (by omega), ih (by omega)]

theorem ihl_le (h : IpHeader) : h.ihl / 2 ≤ 30 := by
  have hmask : (h.versionIhl &&& 0x0F#8).toNat ≤ 15 := by
    rw [BitVec.toNat_and]
    exact Nat.and_le_right
  rw [IpHeader.ihl]
  omega

/-- A sum of at most thirty words of 16 bits is folded without an overflow. -/
theorem sum_foldSumU32 (ws : List ℕ) (hws : ∀ w ∈ ws, w < 2 ^ 16) (hlen : ws.length ≤ 30) :
    ((sumU32 ws 0).bind foldSumU32) = some (foldSum ws.sum) := by
  have hbound : ∀ vs : List ℕ, (∀ w ∈ vs, w < 2 ^ 16) → vs.sum ≤ vs.length * 2 ^ 16 := by
    intro vs hvs
    induction vs with
    | nil => exact Nat.le_refl 0
    | cons v vs ih =>
        have hv := hvs v List.mem_cons_self
        have hrest := ih fun w hw => hvs w (List.mem_cons_of_mem v hw)
        rw [List.sum_cons, List.length_cons, Nat.succ_mul]
        omega
  have hle := hbound ws hws
  rw [sumU32_eq ws 0 hws (by omega), Option.bind_some, Nat.zero_add, foldSumU32_eq (by omega)]

/-- No addition of `verify_checksum` overflows. -/
theorem verifyChecksumU32_eq (mem : PacketMem) (a : ℕ) :
    verifyChecksumU32 mem a = some (verifyChecksum mem a) := by
  have hfold := sum_foldSumU32 (headerWords mem a ((IpHeader.load mem a).ihl / 2))
    (fun w hw => by
      obtain ⟨k, -, rfl⟩ := List.mem_map.1 hw
      exact (swap16 _).isLt)
    (by rw [headerWords, List.length_map, List.length_range]; exact ihl_le _)
  change (sumU32 _ 0).bind (fun sum => (foldSumU32 sum).bind fun sum => some (sum == 0xFFFF)) = _
  rw [← Option.bind_assoc, hfold]
  rfl

/-- No addition of `calculate_checksum` overflows. -/
theorem IpHeader.calculateChecksumU32_eq (h : IpHeader) :
    h.calculateChecksumU32 = some h.calculateChecksum := by
  have hfold := sum_foldSumU32 ({ h with check := 0#16 } : IpHeader).words
    (fun w hw => by
      obtain ⟨k, -, rfl⟩ := List.mem_map.1 hw
      exact (swap16 _).isLt)
    (by rw [IpHeader.words, List.length_map, List.length_range]; exact ihl_le _)
  change (sumU32 _ 0).bind (fun sum => (foldSumU32 sum).bind fun sum => _) = _
  rw [← Option.bind_assoc, hfold]
  rfl

/-! ### Replacing a word -/

/-- A sum in which one term is replaced. -/
theorem sum_map_range_replace {f g : ℕ → ℕ} {n k : ℕ} (hk : k < n) (h : ∀ i, i ≠ k → g i = f i) :
    ((List.range n).map g).sum + f k = ((List.range n).map f).sum + g k := by
  have hbelow : ∀ m ≤ k, (List.range m).map g = (List.range m).map f := by
    intro m hm
    refine List.map_congr_left fun i hi => h i ?_
    have := List.mem_range.1 hi
    omega
  induction n with
  | zero => omega
  | succ n ih =>
      rw [List.range_succ, List.map_append, List.map_append, List.sum_append, List.sum_append]
      simp only [List.map_cons, List.map_nil, List.sum_cons, List.sum_nil]
      by_cases hlast : k = n
      · rw [hbelow n (by omega), hlast]
        omega
      · have hrest := ih (by omega)
        rw [h n fun heq => hlast heq.symm]
        omega

/-- The sum after a word was replaced. -/
theorem wordSum_replace (mem : PacketMem) (a : ℕ) {n k : ℕ} (hk : k < n) (w : BitVec 16) :
    wordSum (copyTo mem (a + 2 * k) (bytes16 w)) a n + (swap16 (word16At mem (a + 2 * k))).toNat =
      wordSum mem a n + (swap16 w).toNat := by
  have hlen : (bytes16 w).length = 2 := rfl
  have hword : word16At (copyTo mem (a + 2 * k) (bytes16 w)) (a + 2 * k) = w :=
    (word16At_copyTo mem (a + 2 * k) (bytes16 w) (i := 0) (by rw [hlen])).trans (word16_bytes16 w)
  have hother : ∀ i, i ≠ k →
      word16At (copyTo mem (a + 2 * k) (bytes16 w)) (a + 2 * i) = word16At mem (a + 2 * i) := by
    intro i hi
    rw [word16At, word16At, copyTo, copyTo, hlen, if_neg (by omega), if_neg (by omega)]
  have hsum := sum_map_range_replace
    (g := fun i => (swap16 (word16At (copyTo mem (a + 2 * k) (bytes16 w)) (a + 2 * i))).toNat)
    (f := fun i => (swap16 (word16At mem (a + 2 * i))).toNat) hk fun i hi => by rw [hother i hi]
  rw [hword] at hsum
  exact hsum

/-- The order of the two bytes does not matter for which words have the same residue. -/
theorem swap16_mod_iff (v w : BitVec 16) :
    (swap16 v).toNat % 65535 = (swap16 w).toNat % 65535 ↔ v.toNat % 65535 = w.toNat % 65535 := by
  have hswap : ∀ u : BitVec 16, (swap16 u).toNat = 256 * (u.toNat % 256) + u.toNat / 256 := by
    intro u
    rw [swap16, BitVec.toNat_append, BitVec.extractLsb'_toNat, BitVec.extractLsb'_toNat,
      Nat.shiftLeft_eq, Nat.shiftRight_zero, Nat.shiftRight_eq_div_pow, Nat.mul_comm,
      ← Nat.two_pow_add_eq_or_of_lt (Nat.mod_lt _ (by decide))]
    have := u.isLt
    omega
  rw [hswap, hswap]
  have := v.isLt
  have := w.isLt
  omega

/-- A verified sum is a multiple of `0xFFFF`. -/
theorem verifyChecksum_mod {mem : PacketMem} {a : ℕ} (h : verifyChecksum mem a = true) :
    wordSum mem a ((IpHeader.load mem a).ihl / 2) % 65535 = 0 := by
  rw [verifyChecksum, beq_iff_eq] at h
  have hspec := (foldSum_spec (wordSum mem a ((IpHeader.load mem a).ihl / 2))).2.1
  rw [h] at hspec
  exact hspec.symm

/-- The header checksum.  For a header length of five words no addition overflows and a checksum
that was calculated is verified.  And a header in which a word was replaced by one of another
residue modulo `0xFFFF` is not verified, if its header length is still five words. -/
theorem ip_checksum_detects (mem : PacketMem) (a : ℕ) (h : IpHeader)
    (hihl : h.ihl = minIpHeaderLen) :
    ∃ h', h.calculateChecksumU32 = some h' ∧
      verifyChecksumU32 (copyTo mem a h'.toBytes) a = some true ∧
      ∀ k < 10, ∀ w : BitVec 16,
        w.toNat % 65535 ≠ (word16At (copyTo mem a h'.toBytes) (a + 2 * k)).toNat % 65535 →
        (IpHeader.load (copyTo (copyTo mem a h'.toBytes) (a + 2 * k) (bytes16 w)) a).ihl =
          minIpHeaderLen →
        verifyChecksumU32 (copyTo (copyTo mem a h'.toBytes) (a + 2 * k) (bytes16 w)) a =
          some false := by
  have hverified := h.verifyChecksum_calculateChecksum mem a hihl
  refine ⟨h.calculateChecksum, h.calculateChecksumU32_eq, ?_, ?_⟩
  · rw [verifyChecksumU32_eq, hverified]
  · intro k hk w hw hihl'
    have hold := verifyChecksum_mod hverified
    rw [IpHeader.load_copyTo, show h.calculateChecksum.ihl = minIpHeaderLen from hihl] at hold
    rw [verifyChecksumU32_eq, Option.some.injEq, Bool.eq_false_iff]
    intro hnew
    have hsum := verifyChecksum_mod hnew
    rw [hihl'] at hsum
    have hreplace := wordSum_replace (copyTo mem a h.calculateChecksum.toBytes) a
      (show k < minIpHeaderLen / 2 from hk) w
    refine hw ((swap16_mod_iff _ _).1 ?_)
    omega

/-- A header with the destination `254.255.0.0`. -/
def shorterHeader : IpHeader := ⟨0x45#8, 0#8, 0#16, 0#16, 0#16, 0#8, 0#8, 0#16, 0#32, 0x0000FFFE#32⟩

theorem shorterHeader_checksum :
    shorterHeader.calculateChecksum = { shorterHeader with check := 0xFFBB#16 } := by
  have hsum : { shorterHeader with check := 0#16 }.sum = 82943 := by decide
  have hfold : foldSum 82943 = 17408 := by
    rw [foldSum, if_neg (by decide), foldSum, if_pos (by decide)]
    rfl
  rw [IpHeader.calculateChecksum]
  dsimp only
  rw [hsum, hfold]
  decide

theorem ip_checksum_detects_ttl :
    verifyChecksumU32 (copyTo (copyTo (fun _ => 0#8) 0 shorterHeader.calculateChecksum.toBytes)
      (0 + 2 * 4) (bytes16 1#16)) 0 = some false := by
  obtain ⟨h', hh', -, hdetects⟩ := ip_checksum_detects (fun _ => 0#8) 0 shorterHeader (by decide)
  rw [shorterHeader.calculateChecksumU32_eq, Option.some.injEq] at hh'
  subst hh'
  exact hdetects 4 (by decide) 1#16 (by decide) (by decide)

/-- With the header length of four words in place of five, the destination is not summed any more:
the header is still verified. -/
theorem ip_checksum_shorter :
    ∃ h', shorterHeader.ihl = minIpHeaderLen ∧ shorterHeader.calculateChecksumU32 = some h' ∧
      (0x0044#16).toNat % 65535 ≠
        (word16At (copyTo (fun _ => 0#8) 0 h'.toBytes) (0 + 2 * 0)).toNat % 65535 ∧
      verifyChecksumU32 (copyTo (copyTo (fun _ => 0#8) 0 h'.toBytes) (0 + 2 * 0)
        (bytes16 0x0044#16)) 0 = some true := by
  refine ⟨_, by decide, shorterHeader.calculateChecksumU32_eq, ?_, ?_⟩
  · rw [shorterHeader_checksum]
    decide
  · have hihl : (IpHeader.load (copyTo (copyTo (fun _ => 0#8) 0
        shorterHeader.calculateChecksum.toBytes) (0 + 2 * 0) (bytes16 0x0044#16)) 0).ihl = 16 := by
      rw [shorterHeader_checksum]
      decide
    have hsum : wordSum (copyTo (copyTo (fun _ => 0#8) 0
        shorterHeader.calculateChecksum.toBytes) (0 + 2 * 0) (bytes16 0x0044#16)) 0 8 = 65535 := by
      rw [shorterHeader_checksum]
      decide
    rw [verifyChecksumU32_eq, verifyChecksum, hihl, hsum, foldSum_eq_ones (by decide) (by decide)]
    rfl

end StarOS
