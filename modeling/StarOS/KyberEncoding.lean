/-
The encoding of Kyber keys (`to_bytes` and `from_bytes` of `crypto/kyber/poly.rs` and `keygen.rs`).

Eight coefficients of 12 bits go into twelve bytes, but three of the twelve hold nothing: the bytes
3, 7 and 11 of a group take the low byte of a coefficient shifted left by eight.  The first two
coefficients of a group are read back; of the others one gets bits of its neighbours.

* `StarOS.packByte`, `StarOS.unpackCoef` — the shift patterns of a group;
* `StarOS.Poly.toBytes`, `StarOS.Poly.fromBytes` — a polynomial;
* `StarOS.PublicKey`, `StarOS.SecretKey` — the keys, with their encodings;
* `StarOS.toNat_unpack_pack` — what is read back of a group;
* `StarOS.kyber_keys_roundTrip_iff` — when the keys are read back.
-/

import StarOS.BigEndian
import StarOS.KyberKem

set_option autoImplicit false

namespace StarOS

/-! ### Polynomials -/

/-- Byte `k` of the twelve bytes of a group of coefficients `t`. -/
def packByte (t : ℕ → BitVec 16) : ℕ → BitVec 8
  | 0 => (t 0).setWidth 8
  | 1 => (t 0 >>> 8 ||| t 1 <<< 4).setWidth 8
  | 2 => (t 1 >>> 4).setWidth 8
  | 3 => (t 1 >>> 12 ||| t 2 <<< 8).setWidth 8
  | 4 => (t 2).setWidth 8
  | 5 => (t 2 >>> 8 ||| t 3 <<< 4).setWidth 8
  | 6 => (t 3 >>> 4).setWidth 8
  | 7 => (t 3 >>> 12 ||| t 4 <<< 8).setWidth 8
  | 8 => (t 4).setWidth 8
  | 9 => (t 4 >>> 8 ||| t 5 <<< 4).setWidth 8
  | 10 => (t 5 >>> 4).setWidth 8
  | 11 => (t 5 >>> 12 ||| t 6 <<< 8).setWidth 8
  | _ => 0#8

/-- Coefficient `j` of the eight coefficients of a group of bytes `b`. -/
def unpackCoef (b : ℕ → BitVec 16) : ℕ → BitVec 16
  | 0 => (b 0 ||| b 1 <<< 8) &&& 0x0FFF#16
  | 1 => (b 1 >>> 4 ||| b 2 <<< 4 ||| b 3 <<< 12) &&& 0x0FFF#16
  | 2 => (b 3 >>> 4 ||| b 4 <<< 4) &&& 0x0FFF#16
  | 3 => (b 4 >>> 8 ||| b 5 <<< 0 ||| b 6 <<< 8) &&& 0x0FFF#16
  | 4 => (b 6 >>> 4 ||| b 7 <<< 4 ||| b 8 <<< 12) &&& 0x0FFF#16
  | 5 => (b 8 >>> 4 ||| b 9 <<< 4) &&& 0x0FFF#16
  | 6 => (b 9 >>> 8 ||| b 10 <<< 0 ||| b 11 <<< 8) &&& 0x0FFF#16
  | 7 => (b 11 >>> 4) &&& 0x0FFF#16
  | _ => 0#16

namespace Poly

/-- The coefficients of group `i`, cut to 12 bits. -/
def group (p : Poly) (i j : ℕ) : BitVec 16 := p.coef (8 * i + j) &&& 0x0FFF#16

/-- `Poly::to_bytes`. -/
def toBytes (p : Poly) : Bytes :=
  (List.range 384).map fun n => packByte (p.group (n / 12)) (n % 12)

/-- `Poly::from_bytes`. -/
def fromBytes (bytes : Bytes) : Poly :=
  Vector.ofFn fun n =>
    unpackCoef (fun k => (bytes.getD (12 * (n.val / 8) + k) 0#8).setWidth 16) (n.val % 8)

end Poly

/-! ### Keys -/

/-- `PublicKey`. -/
structure PublicKey where
  t : PolyVec
  rho : Bytes32

/-- `SecretKey`. -/
structure SecretKey where
  s : PolyVec

/-- The bytes of a vector of polynomials. -/
def PolyVec.toBytes (v : PolyVec) : Bytes := (List.finRange 3).flatMap fun i => (v i).toBytes

/-- The loop that decodes a vector; it panics if the bytes are too few. -/
def PolyVec.fromBytes (bytes : Bytes) : Option PolyVec :=
  (byteSlice bytes 0 384).bind fun first =>
    (byteSlice bytes 384 768).bind fun second =>
      (byteSlice bytes 768 1152).map fun third =>
        ![Poly.fromBytes first, Poly.fromBytes second, Poly.fromBytes third]

/-- `PublicKey::to_bytes`. -/
def PublicKey.toBytes (pk : PublicKey) : Bytes := PolyVec.toBytes pk.t ++ List.ofFn pk.rho

/-- `PublicKey::from_bytes`. -/
def PublicKey.fromBytes (bytes : Bytes) : Option PublicKey :=
  (PolyVec.fromBytes bytes).bind fun t =>
    (byteSlice bytes 1152 1184).map fun rho => ⟨t, fun k => rho.getD k.val 0#8⟩

/-- `SecretKey::to_bytes`. -/
def SecretKey.toBytes (sk : SecretKey) : Bytes := PolyVec.toBytes sk.s

/-- `SecretKey::from_bytes`. -/
def SecretKey.fromBytes (bytes : Bytes) : Option SecretKey :=
  (PolyVec.fromBytes bytes).map fun s => ⟨s⟩

/-! ### A group -/

/-- What is read back of a group of coefficients of 12 bits. -/
def lossy (t : ℕ → BitVec 16) : ℕ → BitVec 16
  | 0 => t 0
  | 1 => t 1
  | 2 => (t 2 &&& 0xFF#16) <<< 4
  | 3 => t 2 >>> 8 ||| (t 3 &&& 0xFF#16) <<< 4
  | 4 => t 3 >>> 8
  | 5 => t 4 >>> 4 ||| (t 5 &&& 0xF#16) <<< 8
  | 6 => t 5 >>> 4
  | _ => 0#16

/-- The bits of a group are read back where they were put. -/
theorem unpack_pack {t : ℕ → BitVec 16} (ht : ∀ j, t j &&& 0x0FFF#16 = t j) {j : ℕ} (hj : j < 8) :
    unpackCoef (fun k => (packByte t k).setWidth 16) j = lossy t j := by
  have hhigh : ∀ j k (hk : k < 16), 12 ≤ k → (t j)[k] = false := by
    intro j k hk hle
    have hmask : (0x0FFF#16).getLsbD k = false := by interval_cases k <;> rfl
    rw [← BitVec.getLsbD_eq_getElem hk, ← ht j, BitVec.getLsbD_and, hmask, Bool.and_false]
  refine BitVec.eq_of_getLsbD_eq fun i hi => ?_
  interval_cases j <;> simp only [unpackCoef, packByte, lossy] <;> interval_cases i <;>
    simp [hhigh]

/-- The low bits of a coefficient, shifted. -/
theorem toNat_low_shifted (x : BitVec 16) {m k : ℕ} (hmk : m + k ≤ 16) :
    ((x &&& BitVec.ofNat 16 (2 ^ m - 1)) <<< k).toNat = x.toNat % 2 ^ m * 2 ^ k := by
  have hmask : 2 ^ m - 1 < 2 ^ 16 :=
    lt_of_lt_of_le (Nat.sub_lt (Nat.two_pow_pos m) Nat.one_pos)
      (Nat.pow_le_pow_right (by decide) (by omega))
  have hlt : x.toNat % 2 ^ m * 2 ^ k < 2 ^ 16 :=
    calc x.toNat % 2 ^ m * 2 ^ k < 2 ^ m * 2 ^ k :=
          Nat.mul_lt_mul_of_pos_right (Nat.mod_lt _ (Nat.two_pow_pos m)) (Nat.two_pow_pos k)
      _ = 2 ^ (m + k) := (pow_add 2 m k).symm
      _ ≤ 2 ^ 16 := Nat.pow_le_pow_right (by decide) hmk
  rw [BitVec.toNat_shiftLeft, BitVec.toNat_and, BitVec.toNat_ofNat, Nat.mod_eq_of_lt hmask,
    Nat.and_two_pow_sub_one_eq_mod, Nat.shiftLeft_eq, Nat.mod_eq_of_lt hlt]

/-- A number of 12 bits that is its own low byte or its own low half byte, shifted to the top, is
zero. -/
theorem eq_zero_of_shifted {x : BitVec 16} (hx : x.toNat < 4096)
    (h : (x &&& 0xFF#16) <<< 4 = x ∨ (x &&& 0xF#16) <<< 8 = x) : x = 0#16 := by
  have hbyte : ((x &&& 0xFF#16) <<< 4).toNat = x.toNat % 256 * 16 :=
    toNat_low_shifted x (m := 8) (k := 4) (by decide)
  have hnibble : ((x &&& 0xF#16) <<< 8).toNat = x.toNat % 16 * 256 :=
    toNat_low_shifted x (m := 4) (k := 8) (by decide)
  refine BitVec.eq_of_toNat_eq ?_
  rw [BitVec.toNat_ofNat]
  rcases h with heq | heq
  · rw [heq] at hbyte
    omega
  · rw [heq] at hnibble
    omega

/-- A group is read back exactly if only its first two coefficients are not zero. -/
theorem lossy_eq_iff {t : ℕ → BitVec 16} (ht : ∀ j, (t j).toNat < 4096) :
    (∀ j < 8, lossy t j = t j) ↔ ∀ j < 8, 2 ≤ j → t j = 0#16 := by
  constructor
  · intro h
    -- every coefficient is read from the one before it, which is zero already
    have hzero2 : t 2 = 0#16 := eq_zero_of_shifted (ht 2) (.inl (h 2 (by decide)))
    have hzero3 : t 3 = 0#16 := by
      have hread := h 3 (by decide)
      rw [lossy, hzero2, BitVec.zero_ushiftRight, BitVec.zero_or] at hread
      exact eq_zero_of_shifted (ht 3) (.inl hread)
    have hzero4 : t 4 = 0#16 := by
      rw [← h 4 (by decide), lossy, hzero3, BitVec.zero_ushiftRight]
    have hzero5 : t 5 = 0#16 := by
      have hread := h 5 (by decide)
      rw [lossy, hzero4, BitVec.zero_ushiftRight, BitVec.zero_or] at hread
      exact eq_zero_of_shifted (ht 5) (.inr hread)
    have hzero6 : t 6 = 0#16 := by
      rw [← h 6 (by decide), lossy, hzero5, BitVec.zero_ushiftRight]
    have hzero7 : t 7 = 0#16 := (h 7 (by decide)).symm
    intro j hj hle
    interval_cases j
    · exact hzero2
    · exact hzero3
    · exact hzero4
    · exact hzero5
    · exact hzero6
    · exact hzero7
  · intro h j hj
    have h2 := h 2 (by decide) (by decide)
    have h3 := h 3 (by decide) (by decide)
    have h4 := h 4 (by decide) (by decide)
    have h5 := h 5 (by decide) (by decide)
    have h6 := h 6 (by decide) (by decide)
    have h7 := h 7 (by decide) (by decide)
    interval_cases j
    · rfl
    · rfl
    · rw [lossy, h2]; rfl
    · rw [lossy, h2, h3]; rfl
    · rw [lossy, h3, h4]; rfl
    · rw [lossy, h4, h5]; rfl
    · rw [lossy, h5, h6]; rfl
    · exact h7.symm

/-! ### A polynomial -/

namespace Poly

theorem length_toBytes (p : Poly) : p.toBytes.length = 384 := by
  rw [toBytes, List.length_map, List.length_range]

theorem getD_toBytes (p : Poly) {n : ℕ} (hn : n < 384) :
    p.toBytes.getD n 0#8 = packByte (p.group (n / 12)) (n % 12) := by
  rw [toBytes, List.getD_eq_getElem?_getD, List.getElem?_map, List.getElem?_range hn]
  rfl

/-- A coefficient is read back from the bytes of its group. -/
theorem coef_fromBytes_toBytes (p : Poly) {i j : ℕ} (hi : i < 32) (hj : j < 8) :
    (fromBytes p.toBytes).coef (8 * i + j) = lossy (p.group i) j := by
  have hdiv : (8 * i + j) / 8 = i := by omega
  have hmod : (8 * i + j) % 8 = j := by omega
  have hmask : ∀ j, p.group i j &&& 0x0FFF#16 = p.group i j := fun j => by
    rw [group, BitVec.and_assoc, BitVec.and_self]
  rw [fromBytes, coef_ofFn _ (by omega)]
  dsimp only
  rw [hdiv, hmod, ← unpack_pack hmask hj]
  have hbyte : ∀ k < 12, p.toBytes.getD (12 * i + k) 0#8 = packByte (p.group i) k := fun k hk => by
    rw [getD_toBytes p (by omega), show (12 * i + k) / 12 = i by omega,
      show (12 * i + k) % 12 = k by omega]
  interval_cases j <;> simp only [unpackCoef, hbyte, Nat.reduceLT]

/-- Coefficients in `[0, q)` have 12 bits. -/
theorem Reduced.toNat_lt {p : Poly} (h : p.Reduced) {i : ℕ} (hi : i < 256) :
    (p.coef i).toNat < 4096 := by
  obtain ⟨hlow, hhigh⟩ := h i hi
  rw [val, BitVec.toInt_eq_toNat_cond] at hlow hhigh
  split at hhigh <;> omega

theorem Reduced.group_eq {p : Poly} (h : p.Reduced) {i j : ℕ} (hi : i < 32) (hj : j < 8) :
    p.group i j = p.coef (8 * i + j) := by
  have hlt := h.toNat_lt (by omega : 8 * i + j < 256)
  refine BitVec.eq_of_toNat_eq ?_
  rw [group, BitVec.toNat_and]
  exact (Nat.and_two_pow_sub_one_eq_mod _ 12).trans (Nat.mod_eq_of_lt hlt)

/-- A polynomial with coefficients in `[0, q)` is read back exactly if of every eight coefficients
only the first two are not zero. -/
theorem roundTrip_iff {p : Poly} (h : p.Reduced) :
    fromBytes p.toBytes = p ↔ ∀ i < 256, 2 ≤ i % 8 → p.val i = 0 := by
  have hmask : ∀ i j, (p.group i j).toNat < 4096 := fun i j => by
    rw [group, BitVec.toNat_and]
    exact lt_of_le_of_lt Nat.and_le_right (by decide)
  have hgroups : ∀ Q : ℕ → Prop, (∀ i < 256, Q i) ↔ ∀ i < 32, ∀ j < 8, Q (8 * i + j) := by
    intro Q
    refine ⟨fun hall i hi j hj => hall _ (by omega), fun hall i hi => ?_⟩
    have hQ := hall (i / 8) (by omega) (i % 8) (by omega)
    rwa [Nat.div_add_mod] at hQ
  have hext : fromBytes p.toBytes = p ↔ ∀ i < 256, (fromBytes p.toBytes).coef i = p.coef i :=
    ⟨fun heq i _ => by rw [heq], ext_coef⟩
  rw [hext, hgroups, hgroups]
  refine forall₂_congr fun i hi => ?_
  have hlossy := lossy_eq_iff (hmask i)
  constructor
  · intro hread j hj hle
    have hzero := hlossy.1 (fun j hj => by
      rw [← coef_fromBytes_toBytes p hi hj, hread j hj, h.group_eq hi hj]) j hj (by omega)
    rw [h.group_eq hi hj] at hzero
    rw [val, hzero]
    rfl
  · intro hzero j hj
    rw [coef_fromBytes_toBytes p hi hj, hlossy.2 ?_ j hj, h.group_eq hi hj]
    intro j hj hle
    rw [h.group_eq hi hj]
    exact BitVec.eq_of_toInt_eq (hzero j hj (by omega))

end Poly

/-! ### Keys are read back -/

theorem PolyVec.toBytes_eq (v : PolyVec) :
    PolyVec.toBytes v = (v 0).toBytes ++ ((v 1).toBytes ++ (v 2).toBytes) := by
  change (v 0).toBytes ++ ((v 1).toBytes ++ ((v 2).toBytes ++ [])) = _
  rw [List.append_nil]

theorem PolyVec.length_toBytes (v : PolyVec) : (PolyVec.toBytes v).length = 1152 := by
  rw [PolyVec.toBytes_eq, List.length_append, List.length_append, Poly.length_toBytes,
    Poly.length_toBytes, Poly.length_toBytes]

/-- Every polynomial of a vector is decoded from its own bytes, whatever stands behind them. -/
theorem PolyVec.fromBytes_toBytes (v : PolyVec) (back : Bytes) :
    PolyVec.fromBytes (PolyVec.toBytes v ++ back) =
      some fun i => Poly.fromBytes (v i).toBytes := by
  have hlen := fun i => (v i).length_toBytes
  have hbytes : PolyVec.toBytes v ++ back =
      (v 0).toBytes ++ ((v 1).toBytes ++ ((v 2).toBytes ++ back)) := by
    rw [PolyVec.toBytes_eq, List.append_assoc, List.append_assoc]
  have hfirst : byteSlice (PolyVec.toBytes v ++ back) 0 384 = some (v 0).toBytes := by
    have hslice := byteSlice_mid [] (v 0).toBytes ((v 1).toBytes ++ ((v 2).toBytes ++ back))
      (List.length_nil (α := BitVec 8)).symm
      (by rw [hlen 0, List.length_nil, Nat.zero_add] : 384 = _)
    rwa [List.nil_append, ← hbytes] at hslice
  have hsecond : byteSlice (PolyVec.toBytes v ++ back) 384 768 = some (v 1).toBytes := by
    rw [hbytes]
    exact byteSlice_mid _ _ _ (hlen 0).symm (by rw [hlen, hlen])
  have hthird : byteSlice (PolyVec.toBytes v ++ back) 768 1152 = some (v 2).toBytes := by
    rw [hbytes, ← List.append_assoc]
    refine byteSlice_mid _ _ _ ?_ ?_
    · rw [List.length_append, hlen, hlen]
    · rw [List.length_append, hlen, hlen, hlen]
  rw [PolyVec.fromBytes, hfirst, hsecond, hthird]
  refine congrArg some (funext fun i => ?_)
  fin_cases i <;> rfl

/-- The public key is decoded, and takes 1184 bytes. -/
def PublicKey.RoundTrips (pk : PublicKey) : Prop :=
  pk.toBytes.length = 1184 ∧ PublicKey.fromBytes pk.toBytes = some pk

/-- The secret key is decoded, and takes 1152 bytes. -/
def SecretKey.RoundTrips (sk : SecretKey) : Prop :=
  sk.toBytes.length = 1152 ∧ SecretKey.fromBytes sk.toBytes = some sk

theorem PublicKey.fromBytes_toBytes (pk : PublicKey) :
    PublicKey.fromBytes pk.toBytes = some ⟨fun i => Poly.fromBytes (pk.t i).toBytes, pk.rho⟩ := by
  have hrho : byteSlice pk.toBytes 1152 1184 = some (List.ofFn pk.rho) := by
    have hslice := byteSlice_mid (PolyVec.toBytes pk.t) (List.ofFn pk.rho) []
      (PolyVec.length_toBytes _).symm
      (by rw [PolyVec.length_toBytes, List.length_ofFn] : 1184 = _)
    rwa [List.append_nil] at hslice
  rw [PublicKey.fromBytes, hrho, PublicKey.toBytes, PolyVec.fromBytes_toBytes]
  refine congrArg some (congrArg (PublicKey.mk _) (funext fun k => ?_))
  rw [List.getD_eq_getElem?_getD, List.getElem?_ofFn, dif_pos k.isLt]
  rfl

/-- A vector is read back exactly if every polynomial is. -/
theorem vec_roundTrip_iff {v : PolyVec} (h : ∀ j, (v j).Reduced) :
    (fun j => Poly.fromBytes (v j).toBytes) = v ↔
      ∀ j, ∀ i < 256, 2 ≤ i % 8 → (v j).val i = 0 := by
  rw [funext_iff]
  exact forall_congr' fun j => Poly.roundTrip_iff (h j)

theorem PublicKey.mk_eq_iff {v : PolyVec} {pk : PublicKey} : ⟨v, pk.rho⟩ = pk ↔ v = pk.t := by
  obtain ⟨t, rho⟩ := pk
  rw [PublicKey.mk.injEq]
  exact and_iff_left rfl

theorem SecretKey.mk_eq_iff {v : PolyVec} {sk : SecretKey} : ⟨v⟩ = sk ↔ v = sk.s := by
  obtain ⟨s⟩ := sk
  rw [SecretKey.mk.injEq]

theorem PublicKey.roundTrips_iff (pk : PublicKey) (h : ∀ j, (pk.t j).Reduced) :
    pk.RoundTrips ↔ ∀ j, ∀ i < 256, 2 ≤ i % 8 → (pk.t j).val i = 0 := by
  have hlen : pk.toBytes.length = 1184 := by
    rw [PublicKey.toBytes, List.length_append, PolyVec.length_toBytes, List.length_ofFn]
  rw [PublicKey.RoundTrips, PublicKey.fromBytes_toBytes, ← vec_roundTrip_iff h, Option.some_inj,
    PublicKey.mk_eq_iff]
  exact and_iff_right hlen

theorem SecretKey.roundTrips_iff (sk : SecretKey) (h : ∀ j, (sk.s j).Reduced) :
    sk.RoundTrips ↔ ∀ j, ∀ i < 256, 2 ≤ i % 8 → (sk.s j).val i = 0 := by
  have hdecode : SecretKey.fromBytes sk.toBytes =
      some ⟨fun i => Poly.fromBytes (sk.s i).toBytes⟩ := by
    have hvec := PolyVec.fromBytes_toBytes sk.s []
    rw [List.append_nil] at hvec
    rw [SecretKey.fromBytes, SecretKey.toBytes, hvec]
    rfl
  rw [SecretKey.RoundTrips, hdecode, ← vec_roundTrip_iff h, Option.some_inj, SecretKey.mk_eq_iff]
  exact and_iff_right (PolyVec.length_toBytes sk.s)

/-- **Keys with coefficients in `[0, q)` are read back from their encodings exactly if of every
eight coefficients only the first two are not zero.** -/
theorem kyber_keys_roundTrip_iff (pk : PublicKey) (sk : SecretKey) (hpk : ∀ j, (pk.t j).Reduced)
    (hsk : ∀ j, (sk.s j).Reduced) :
    (pk.RoundTrips ↔ ∀ j, ∀ i < 256, 2 ≤ i % 8 → (pk.t j).val i = 0) ∧
      (sk.RoundTrips ↔ ∀ j, ∀ i < 256, 2 ≤ i % 8 → (sk.s j).val i = 0) :=
  ⟨pk.roundTrips_iff hpk, sk.roundTrips_iff hsk⟩

/-- Keys of zeros are read back. -/
theorem kyber_keys_roundTrip_zero :
    PublicKey.RoundTrips ⟨fun _ => Poly.zero, fun _ => 0#8⟩ ∧
      SecretKey.RoundTrips ⟨fun _ => Poly.zero⟩ :=
  have h := kyber_keys_roundTrip_iff ⟨fun _ => Poly.zero, fun _ => 0#8⟩ ⟨fun _ => Poly.zero⟩
    (fun _ => reduced_zero) fun _ => reduced_zero
  ⟨h.1.2 fun _ i _ _ => Poly.zero_val i, h.2.2 fun _ i _ _ => Poly.zero_val i⟩

/-- Coefficient 2 comes back as 16 if it was 1. -/
theorem kyber_keys_lost :
    ¬∀ (pk : PublicKey) (sk : SecretKey), (∀ j, (pk.t j).Reduced) → (∀ j, (sk.s j).Reduced) →
      pk.RoundTrips ∧ sk.RoundTrips := by
  intro hall
  have hval : ∀ i < 256, (Poly.comb 256 1#16 2).val i = if i % 256 = 2 then 1 else 0 := by
    intro i hi
    rw [Poly.val, coef_comb _ _ _ hi]
    split <;> rfl
  have hreduced : (Poly.comb 256 1#16 2).Reduced := fun i hi => by
    rw [hval i hi]
    split <;> decide
  obtain ⟨hpk, -⟩ := hall ⟨fun _ => Poly.comb 256 1#16 2, fun _ => 0#8⟩ ⟨fun _ => Poly.zero⟩
    (fun _ => hreduced) fun _ => reduced_zero
  have hiff := PublicKey.roundTrips_iff ⟨fun _ => Poly.comb 256 1#16 2, fun _ => 0#8⟩
    fun _ => hreduced
  have hzero := hiff.1 hpk 0 2 (by decide) (by decide)
  dsimp only at hzero
  rw [hval 2 (by decide), if_pos rfl] at hzero
  exact absurd hzero (by decide)

end StarOS
