/-
Byte-addressed memory as a link store.

A list header is an `Option` of a raw pointer.  Raw pointers have no niche, so on the 64-bit target
it takes sixteen bytes: a discriminant word and, behind it, a pointer word, both little-endian.  The
payload word of a `None` carries nothing and is written as zero.  The memory also remembers at which
addresses headers have been written.

* `StarOS.leRead`, `StarOS.leWrite` — little-endian numbers in memory;
* `StarOS.ByteMem` — byte-addressed memory with its header writes, a link store whose headers occupy
  `StarOS.headerBytes` bytes.
-/

import StarOS.Links
import StarOS.Region
import StarOS.Word

set_option autoImplicit false

namespace StarOS

open Region Links

/-! ### Little-endian numbers -/

/-- The number in the `n` bytes from `a` on. -/
def leRead (f : Usize → BitVec 8) (a : Usize) : ℕ → ℕ
  | 0 => 0
  | n + 1 => leRead f a n + 256 ^ n * (f (a + BitVec.ofNat 64 n)).toNat

/-- Writing a number to the `n` bytes from `a` on. -/
def leWrite (f : Usize → BitVec 8) (a : Usize) (n v : ℕ) : Usize → BitVec 8 := fun x =>
  let i := (x - a).toNat
  if i < n then BitVec.ofNat 8 (v / 256 ^ i) else f x

theorem leRead_congr {f g : Usize → BitVec 8} {a : Usize} {n : ℕ} (hn : n ≤ 2 ^ 64)
    (h : ∀ x ∈ region a n, f x = g x) : leRead f a n = leRead g a n := by
  induction n with
  | zero => rfl
  | succ n ih =>
      have hlast : a + BitVec.ofNat 64 n ∈ region a (n + 1) := by
        rw [mem_region, add_sub_cancel_left, BitVec.toNat_ofNat, Nat.mod_eq_of_lt (by omega)]
        exact Nat.lt_succ_self n
      rw [leRead, leRead, h _ hlast,
        ih (by omega) fun x hx => h x (region_mono a (Nat.le_succ n) hx)]

/-- What has been written is read back. -/
theorem leRead_leWrite (f : Usize → BitVec 8) (a : Usize) {n : ℕ} (hn : n ≤ 2 ^ 64) (v : ℕ) :
    leRead (leWrite f a n v) a n = v % 256 ^ n := by
  have hbyte : ∀ k < n, (leWrite f a n v (a + BitVec.ofNat 64 k)).toNat = v / 256 ^ k % 256 := by
    intro k hk
    have hoff : (a + BitVec.ofNat 64 k - a).toNat = k := by
      rw [add_sub_cancel_left, BitVec.toNat_ofNat, Nat.mod_eq_of_lt (by omega)]
    simp only [leWrite, hoff, hk, if_true, BitVec.toNat_ofNat]
  have hdigits : ∀ k ≤ n, leRead (leWrite f a n v) a k = v % 256 ^ k := by
    intro k
    induction k with
    | zero => exact fun _ => (Nat.mod_one v).symm
    | succ k ih =>
        intro hk
        rw [leRead, ih (by omega), hbyte k (by omega), Nat.pow_succ, Nat.mod_mul]
  exact hdigits n le_rfl

theorem leRead_lt (f : Usize → BitVec 8) (a : Usize) (n : ℕ) : leRead f a n < 256 ^ n := by
  induction n with
  | zero => exact Nat.one_pos
  | succ n ih =>
      have hbyte : (f (a + BitVec.ofNat 64 n)).toNat ≤ 255 := Nat.le_of_lt_succ (BitVec.isLt _)
      have hle : 256 ^ n * (f (a + BitVec.ofNat 64 n)).toNat ≤ 256 ^ n * 255 :=
        Nat.mul_le_mul_left _ hbyte
      rw [leRead, Nat.pow_succ]
      omega

/-- The digits of a number are the bytes it is read from. -/
theorem leRead_digit (f : Usize → BitVec 8) (a : Usize) {n k : ℕ} (hk : k < n) :
    leRead f a n / 256 ^ k % 256 = (f (a + BitVec.ofNat 64 k)).toNat := by
  induction n with
  | zero => exact absurd hk (Nat.not_lt_zero k)
  | succ n ih =>
      have hbyte : (f (a + BitVec.ofNat 64 n)).toNat < 256 := BitVec.isLt _
      rw [leRead]
      rcases Nat.lt_or_eq_of_le (Nat.le_of_lt_succ hk) with hlt | rfl
      · -- the higher byte is a multiple of the next power
        obtain ⟨d, rfl⟩ := Nat.exists_eq_add_of_lt hlt
        rw [← ih hlt, Nat.add_assoc k d 1, Nat.pow_add, Nat.pow_succ, Nat.mul_assoc,
          Nat.add_mul_div_left _ _ (Nat.pow_pos (by decide)),
          Nat.mul_comm (256 ^ d), Nat.mul_assoc, Nat.add_mul_mod_self_left]
      · rw [Nat.add_mul_div_left _ _ (Nat.pow_pos (by decide)),
          Nat.div_eq_of_lt (leRead_lt f a k), Nat.zero_add, Nat.mod_eq_of_lt hbyte]

theorem leWrite_of_notMem {f : Usize → BitVec 8} {a x : Usize} {n v : ℕ} (h : x ∉ region a n) :
    leWrite f a n v x = f x := if_neg h

/-! ### Headers -/

/-- `size_of::<Option<*mut SlabBlock>>()`. -/
def headerBytes : ℕ := 16

/-- The number in the header of a link: the discriminant word, then the pointer word. -/
def encodeLink : Option Usize → ℕ
  | none => 0
  | some p => 1 + 2 ^ 64 * p.toNat

/-- The link a header holds. -/
def decodeLink (v : ℕ) : Option Usize :=
  if v % 2 ^ 64 = 0 then none else some (BitVec.ofNat 64 (v / 2 ^ 64))

theorem encodeLink_lt (l : Option Usize) : encodeLink l < 256 ^ headerBytes := by
  cases l with
  | none => decide
  | some p =>
      have hp := p.isLt
      have hpow : 256 ^ headerBytes = 2 ^ 64 * 2 ^ 64 := by decide
      rw [hpow, encodeLink]
      omega

theorem decodeLink_encodeLink (l : Option Usize) : decodeLink (encodeLink l) = l := by
  cases l with
  | none => rfl
  | some p =>
      have hmod : (1 + 2 ^ 64 * p.toNat) % 2 ^ 64 = 1 := by omega
      have hdiv : (1 + 2 ^ 64 * p.toNat) / 2 ^ 64 = p.toNat := by omega
      rw [decodeLink, encodeLink, hmod, hdiv, if_neg (by decide), BitVec.ofNat_toNat,
        BitVec.setWidth_eq]

/-- Byte-addressed memory, with the addresses at which headers have been written. -/
structure ByteMem where
  bytes : Usize → BitVec 8
  headerWrites : List Usize

namespace ByteMem

/-- Reading the header at an address. -/
def readLink (m : ByteMem) (a : Usize) : Option Usize :=
  decodeLink (leRead m.bytes a headerBytes)

/-- Writing the header at an address. -/
def writeLink (m : ByteMem) (a : Usize) (l : Option Usize) : ByteMem where
  bytes := leWrite m.bytes a headerBytes (encodeLink l)
  headerWrites := m.headerWrites ++ [a]

theorem readLink_congr {m m' : ByteMem} {a : Usize}
    (h : ∀ x ∈ region a headerBytes, m'.bytes x = m.bytes x) : m'.readLink a = m.readLink a := by
  rw [readLink, readLink, leRead_congr (by decide) h]

theorem readLink_writeLink (m : ByteMem) (a : Usize) (l : Option Usize) :
    (m.writeLink a l).readLink a = l := by
  rw [readLink, writeLink, leRead_leWrite _ _ (by decide), Nat.mod_eq_of_lt (encodeLink_lt l),
    decodeLink_encodeLink]

end ByteMem

instance : LinkStore Usize ByteMem where
  getNext := ByteMem.readLink
  setNext := ByteMem.writeLink
  foot a := region a headerBytes
  getNext_setNext := ByteMem.readLink_writeLink
  getNext_setNext_of_disjoint _ _ _ _ h :=
    ByteMem.readLink_congr fun _ hx => leWrite_of_notMem (Set.disjoint_left.1 h hx)

@[simp] theorem foot_byteMem (a : Usize) : LinkStore.foot ByteMem a = region a headerBytes := rfl

namespace ByteMem

/-- Storing arbitrary bytes inside a set of addresses, with no header write. -/
structure Stored (m m' : ByteMem) (S : Set Usize) : Prop where
  bytes : ∀ x ∉ S, m'.bytes x = m.bytes x
  headerWrites : m'.headerWrites = m.headerWrites

theorem Stored.keeps {m m' : ByteMem} {S : Set Usize} (h : m.Stored m' S) : Keeps m m' S := by
  intro a hd
  exact readLink_congr fun x hx => h.bytes x (Set.disjoint_left.1 hd hx)

/-- Header writes are remembered. -/
theorem headerWrites_eq {m m' : ByteMem} {as : List Usize} (h : Stores m as m') :
    m'.headerWrites = m.headerWrites ++ as := by
  induction h with
  | nil => rw [List.append_nil]
  | @cons m m' a as v _ ih =>
      rw [ih]
      exact List.append_assoc m.headerWrites [a] as

end ByteMem

end StarOS
