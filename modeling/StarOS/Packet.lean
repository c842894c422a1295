/-
Packet data in memory, on a little-endian target: integers in network byte order, headers that are
copied to a buffer, and the bytes in the window of a socket buffer.

`to_be` and `from_be` swap the bytes of an integer.  A header is a packed structure: its fields lie
in memory one after the other, each with its low byte first.

* `StarOS.swap16`, `StarOS.swap32` — network byte order;
* `StarOS.word16At`, `StarOS.word32At`, `StarOS.bytes16`, `StarOS.bytes32` — integers in memory;
* `StarOS.copyTo`, `StarOS.memBytes` — copying bytes to memory, and reading them back;
* `StarOS.SkBuff.dataPtr`, `StarOS.SkBuff.packet` — where the data of a socket buffer lies, and its
  bytes.
-/

import StarOS.SkBuff
import Mathlib.Data.List.GetD
import Mathlib.Tactic.IntervalCases

set_option autoImplicit false

namespace StarOS

/-! ### Byte order -/

/-- `u16::to_be` and `u16::from_be`. -/
def swap16 (v : BitVec 16) : BitVec 16 := v.extractLsb' 0 8 ++ v.extractLsb' 8 8

/-- `u32::to_be` and `u32::from_be`. -/
def swap32 (v : BitVec 32) : BitVec 32 :=
  v.extractLsb' 0 8 ++ v.extractLsb' 8 8 ++ v.extractLsb' 16 8 ++ v.extractLsb' 24 8

/-- Swapping the bytes keeps the place of a bit in its byte. -/
theorem getLsbD_swap16 (v : BitVec 16) {i : ℕ} (hi : i < 16) :
    (swap16 v).getLsbD i = v.getLsbD (8 + 2 * (i % 8) - i) := by
  interval_cases i <;>
    simp only [swap16, BitVec.getLsbD_append, BitVec.getLsbD_extractLsb'] <;> rfl

theorem getLsbD_swap32 (v : BitVec 32) {i : ℕ} (hi : i < 32) :
    (swap32 v).getLsbD i = v.getLsbD (24 + 2 * (i % 8) - i) := by
  interval_cases i <;>
    simp only [swap32, BitVec.getLsbD_append, BitVec.getLsbD_extractLsb'] <;> rfl

@[simp] theorem swap16_swap16 (v : BitVec 16) : swap16 (swap16 v) = v := by
  refine BitVec.eq_of_getLsbD_eq fun i hi => ?_
  have hback : 8 + 2 * ((8 + 2 * (i % 8) - i) % 8) - (8 + 2 * (i % 8) - i) = i := by omega
  rw [getLsbD_swap16 _ hi, getLsbD_swap16 _ (by omega), hback]

@[simp] theorem swap32_swap32 (v : BitVec 32) : swap32 (swap32 v) = v := by
  refine BitVec.eq_of_getLsbD_eq fun i hi => ?_
  have hback : 24 + 2 * ((24 + 2 * (i % 8) - i) % 8) - (24 + 2 * (i % 8) - i) = i := by omega
  rw [getLsbD_swap32 _ hi, getLsbD_swap32 _ (by omega), hback]

/-! ### Memory -/

/-- Memory, by address. -/
abbrev PacketMem := ℕ → BitVec 8

/-- The 16-bit integer with the given bytes, the low one first. -/
def ofBytes16 (b₀ b₁ : BitVec 8) : BitVec 16 := b₁ ++ b₀

/-- The 32-bit integer with the given bytes, the low one first. -/
def ofBytes32 (b₀ b₁ b₂ b₃ : BitVec 8) : BitVec 32 := b₃ ++ b₂ ++ b₁ ++ b₀

/-- The 16-bit integer at an address. -/
def word16At (mem : PacketMem) (a : ℕ) : BitVec 16 := ofBytes16 (mem a) (mem (a + 1))

/-- The 32-bit integer at an address. -/
def word32At (mem : PacketMem) (a : ℕ) : BitVec 32 :=
  ofBytes32 (mem a) (mem (a + 1)) (mem (a + 2)) (mem (a + 3))

/-- The bytes of a 16-bit integer in memory. -/
def bytes16 (v : BitVec 16) : List (BitVec 8) := [v.extractLsb' 0 8, v.extractLsb' 8 8]

/-- The bytes of a 32-bit integer in memory. -/
def bytes32 (v : BitVec 32) : List (BitVec 8) :=
  [v.extractLsb' 0 8, v.extractLsb' 8 8, v.extractLsb' 16 8, v.extractLsb' 24 8]

/-- The `n` bytes from an address on. -/
def memBytes (mem : PacketMem) (a n : ℕ) : List (BitVec 8) :=
  (List.range n).map fun i => mem (a + i)

/-- Copying bytes to an address. -/
def copyTo (mem : PacketMem) (a : ℕ) (bs : List (BitVec 8)) : PacketMem :=
  fun b => if a ≤ b ∧ b < a + bs.length then bs.getD (b - a) 0#8 else mem b

theorem copyTo_add (mem : PacketMem) (a : ℕ) (bs : List (BitVec 8)) {i : ℕ} (hi : i < bs.length) :
    copyTo mem a bs (a + i) = bs.getD i 0#8 := by
  rw [copyTo, if_pos ⟨by omega, by omega⟩, Nat.add_sub_cancel_left]

theorem copyTo_of_ge (mem : PacketMem) (a : ℕ) (bs : List (BitVec 8)) {b : ℕ}
    (hb : a + bs.length ≤ b) : copyTo mem a bs b = mem b :=
  if_neg (by omega)

@[simp] theorem memBytes_length (mem : PacketMem) (a n : ℕ) : (memBytes mem a n).length = n := by
  simp [memBytes]

/-- What lies behind the copied bytes is as before. -/
theorem memBytes_copyTo_of_ge (mem : PacketMem) (a : ℕ) (bs : List (BitVec 8)) {b : ℕ} (n : ℕ)
    (hb : a + bs.length ≤ b) : memBytes (copyTo mem a bs) b n = memBytes mem b n := by
  refine List.ext_getElem (by simp) fun i h _ => ?_
  simp only [memBytes, List.getElem_map, List.getElem_range]
  exact copyTo_of_ge mem a bs (by omega)

theorem word16_bytes16 (v : BitVec 16) :
    ofBytes16 ((bytes16 v).getD 0 0#8) ((bytes16 v).getD 1 0#8) = v := by
  refine BitVec.eq_of_getLsbD_eq fun i hi => ?_
  interval_cases i <;>
    simp only [ofBytes16, bytes16, List.getD_cons_zero, List.getD_cons_succ, BitVec.getLsbD_append,
      BitVec.getLsbD_extractLsb'] <;> rfl

theorem word32_bytes32 (v : BitVec 32) :
    ofBytes32 ((bytes32 v).getD 0 0#8) ((bytes32 v).getD 1 0#8) ((bytes32 v).getD 2 0#8)
      ((bytes32 v).getD 3 0#8) = v := by
  refine BitVec.eq_of_getLsbD_eq fun i hi => ?_
  interval_cases i <;>
    simp only [ofBytes32, bytes32, List.getD_cons_zero, List.getD_cons_succ, BitVec.getLsbD_append,
      BitVec.getLsbD_extractLsb'] <;> rfl

/-- A 16-bit integer that was copied, as part of some bytes. -/
theorem word16At_copyTo (mem : PacketMem) (a : ℕ) (bs : List (BitVec 8)) {i : ℕ}
    (hi : i + 2 ≤ bs.length) :
    word16At (copyTo mem a bs) (a + i) = ofBytes16 (bs.getD i 0#8) (bs.getD (i + 1) 0#8) := by
  have hbyte : ∀ j, j < 2 → copyTo mem a bs (a + i + j) = bs.getD (i + j) 0#8 := fun j hj => by
    rw [Nat.add_assoc, copyTo_add _ _ _ (by omega)]
  rw [word16At, hbyte 1 (by omega), copyTo_add _ _ _ (by omega)]

/-- A 32-bit integer that was copied, as part of some bytes. -/
theorem word32At_copyTo (mem : PacketMem) (a : ℕ) (bs : List (BitVec 8)) {i : ℕ}
    (hi : i + 4 ≤ bs.length) :
    word32At (copyTo mem a bs) (a + i) =
      ofBytes32 (bs.getD i 0#8) (bs.getD (i + 1) 0#8) (bs.getD (i + 2) 0#8)
        (bs.getD (i + 3) 0#8) := by
  have hbyte : ∀ j, j < 4 → copyTo mem a bs (a + i + j) = bs.getD (i + j) 0#8 := fun j hj => by
    rw [Nat.add_assoc, copyTo_add _ _ _ (by omega)]
  rw [word32At, hbyte 1 (by omega), hbyte 2 (by omega), hbyte 3 (by omega),
    copyTo_add _ _ _ (by omega)]

/-! ### The data of a socket buffer -/

/-- `ip_protocol::IPPROTO_ICMP`. -/
def ipprotoIcmp : BitVec 8 := 1#8

/-- `ip_protocol::IPPROTO_TCP`. -/
def ipprotoTcp : BitVec 8 := 6#8

/-- `ip_protocol::IPPROTO_UDP`. -/
def ipprotoUdp : BitVec 8 := 17#8

/-- `SkBuff::data_ptr`. -/
def SkBuff.dataPtr (s : SkBuff) : ℕ := s.head + s.data.toNat

/-- The bytes of `data_slice`. -/
def SkBuff.packet (s : SkBuff) (mem : PacketMem) : List (BitVec 8) :=
  memBytes mem s.dataPtr s.len.toNat

end StarOS
