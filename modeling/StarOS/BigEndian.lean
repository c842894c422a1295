/-
Numbers in strings of bytes, big-endian: `to_be_bytes` and `from_be_bytes`.

* `StarOS.beNat` — the number that a string of bytes is;
* `StarOS.beNat_append` — the number of a concatenation;
* `StarOS.beNat_beBytes` — what is read back from the bytes of a number;
* `StarOS.byteSlice` — the slice `&data[start..stop]`.
-/

import StarOS.FdtLayout

set_option autoImplicit false

namespace StarOS

/-- `u64::from_be_bytes`, and the same for strings of other lengths. -/
def beNat (bytes : Bytes) : ℕ := bytes.foldl (fun n b => n * 256 + b.toNat) 0

theorem foldl_beNat (bytes : Bytes) (v : ℕ) :
    bytes.foldl (fun n b => n * 256 + b.toNat) v = v * 256 ^ bytes.length + beNat bytes := by
  induction bytes generalizing v with
  | nil =>
      change v = v * 1 + 0
      omega
  | cons b bytes ih =>
      have hzero : beNat (b :: bytes) = b.toNat * 256 ^ bytes.length + beNat bytes := by
        change bytes.foldl _ (0 * 256 + b.toNat) = _
        rw [ih, Nat.zero_mul, Nat.zero_add]
      rw [List.foldl_cons, ih, hzero, List.length_cons, Nat.pow_succ, Nat.add_mul, Nat.mul_assoc,
        Nat.mul_comm 256, Nat.add_assoc]

/-- The number of a concatenation. -/
theorem beNat_append (front back : Bytes) :
    beNat (front ++ back) = beNat front * 256 ^ back.length + beNat back := by
  rw [beNat, List.foldl_append, foldl_beNat back]
  rfl

theorem beNat_singleton (b : BitVec 8) : beNat [b] = b.toNat := by
  change 0 * 256 + b.toNat = _
  omega

theorem beNat_lt (bytes : Bytes) : beNat bytes < 256 ^ bytes.length := by
  induction bytes with
  | nil => exact Nat.one_pos
  | cons b bytes ih =>
      have hb : b.toNat + 1 ≤ 256 := b.isLt
      have hmul := Nat.mul_le_mul_right (256 ^ bytes.length) hb
      rw [Nat.add_mul, Nat.one_mul] at hmul
      have happend := beNat_append [b] bytes
      rw [List.singleton_append, beNat_singleton] at happend
      rw [happend, List.length_cons, Nat.pow_succ, Nat.mul_comm (256 ^ bytes.length)]
      omega

/-- What is read back from the bytes of a number. -/
theorem beNat_beBytes (n v : ℕ) : beNat (beBytes n v) = v % 256 ^ n := by
  induction n generalizing v with
  | zero => exact (Nat.mod_one v).symm
  | succ n ih =>
      have hlast : beNat [BitVec.ofNat 8 v] = v % 256 := by
        rw [beNat_singleton, BitVec.toNat_ofNat]
      have hpow : (256 : ℕ) ^ (n + 1) = 256 * 256 ^ n := by rw [Nat.pow_succ, Nat.mul_comm]
      rw [beBytes, beNat_append, ih, hlast, List.length_singleton, hpow, Nat.mod_mul]
      omega

/-- The slice `&data[start..stop]`; there is none if the bounds are wrong. -/
def byteSlice (data : Bytes) (start stop : ℕ) : Option Bytes :=
  if start ≤ stop ∧ stop ≤ data.length then some ((data.take stop).drop start) else none

/-- The slice of a part of a concatenation. -/
theorem byteSlice_mid (front mid back : Bytes) {start stop : ℕ} (hstart : start = front.length)
    (hstop : stop = front.length + mid.length) :
    byteSlice (front ++ (mid ++ back)) start stop = some mid := by
  rw [byteSlice, if_pos (by rw [hstart, hstop, List.length_append, List.length_append]; omega),
    hstart, hstop, ← List.append_assoc, ← List.length_append, List.take_left, List.drop_left]

end StarOS
