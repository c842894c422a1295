/-
Numbers of a fixed width in strings of bytes, read at an index: `u16::from_le_bytes([data[i],
data[i + 1]])` and `u32::from_be_bytes([data[i], ..])`.

A read outside the string is a panic, and has no result.  A string that is long enough is a
concatenation with the number in the middle, and from such a concatenation the number is read.

* `StarOS.leBytes16`, `StarOS.le16At` — two bytes, little-endian;
* `StarOS.beBytes16` — two bytes, big-endian;
* `StarOS.be32At` — four bytes, big-endian, kept as the four bytes that they are;
* `StarOS.exists_leBytes16`, `StarOS.exists_bytes4` — the concatenations;
* `StarOS.exists_chunks` — a string that is long enough begins with so many groups of four bytes.
-/

import Mathlib.Data.BitVec
import Mathlib.Tactic.Cases

set_option autoImplicit false

namespace StarOS

variable {data : List (BitVec 8)} {i : ℕ}

/-! ### Two bytes, little-endian -/

/-- `u16::to_le_bytes`. -/
def leBytes16 (v : BitVec 16) : List (BitVec 8) := [v.extractLsb' 0 8, v.extractLsb' 8 8]

/-- `u16::from_le_bytes([data[i], data[i + 1]])`. -/
def le16At (data : List (BitVec 8)) (i : ℕ) : Option (BitVec 16) :=
  data[i]?.bind fun lo => data[i + 1]?.map fun hi => hi ++ lo

@[simp] theorem leBytes16_length (v : BitVec 16) : (leBytes16 v).length = 2 := rfl

theorem extractLsb'_append_extractLsb' (v : BitVec 16) :
    v.extractLsb' 8 8 ++ v.extractLsb' 0 8 = v := by
  refine BitVec.eq_of_getLsbD_eq fun i hi => ?_
  rw [BitVec.getLsbD_append]
  by_cases hlow : i < 8
  · simp [hlow]
  · have hsum : 8 + (i - 8) = i := by omega
    have hsub : i - 8 < 8 := by omega
    simp [hlow, hsum, hsub]

theorem leBytes16_append (hi lo : BitVec 8) : leBytes16 (hi ++ lo) = [lo, hi] := by
  have hlow : (hi ++ lo).extractLsb' 0 8 = lo := by
    refine BitVec.eq_of_getLsbD_eq fun i h => ?_
    rw [BitVec.getLsbD_extractLsb', BitVec.getLsbD_append, Nat.zero_add, if_pos h,
      decide_eq_true h, Bool.true_and]
  have hhigh : (hi ++ lo).extractLsb' 8 8 = hi := by
    refine BitVec.eq_of_getLsbD_eq fun i h => ?_
    rw [BitVec.getLsbD_extractLsb', BitVec.getLsbD_append, if_neg (by omega),
      Nat.add_sub_cancel_left, decide_eq_true h, Bool.true_and]
  rw [leBytes16, hlow, hhigh]

theorem le16At_of_length_lt (h : data.length < i + 2) : le16At data i = none := by
  rw [le16At, List.getElem?_eq_none (show data.length ≤ i + 1 by omega)]
  cases data[i]? <;> rfl

theorem le16At_mid (front back : List (BitVec 8)) (v : BitVec 16) (hi : i = front.length) :
    le16At (front ++ (leBytes16 v ++ back)) i = some v := by
  have hlo : (front ++ (leBytes16 v ++ back))[i]? = some (v.extractLsb' 0 8) := by
    rw [hi, List.getElem?_append_right (Nat.le_refl _), Nat.sub_self]
    rfl
  have hhi : (front ++ (leBytes16 v ++ back))[i + 1]? = some (v.extractLsb' 8 8) := by
    rw [hi, List.getElem?_append_right (Nat.le_add_right _ _), Nat.add_sub_cancel_left]
    rfl
  rw [le16At, hlo, hhi, Option.bind_some, Option.map_some, extractLsb'_append_extractLsb']

theorem exists_leBytes16 (data : List (BitVec 8)) (h : 2 ≤ data.length) :
    ∃ v back, data = leBytes16 v ++ back := by
  match data, h with
  | lo :: hi :: back, _ => exact ⟨hi ++ lo, back, by rw [leBytes16_append]; rfl⟩

/-! ### Two bytes, big-endian -/

/-- `u16::to_be_bytes`. -/
def beBytes16 (v : BitVec 16) : List (BitVec 8) := [v.extractLsb' 8 8, v.extractLsb' 0 8]

/-! ### Four bytes, big-endian -/

/-- The number that four bytes are. -/
def be32Of (s : Vector (BitVec 8) 4) : BitVec 32 := s[0] ++ s[1] ++ s[2] ++ s[3]

/-- `u32::from_be_bytes([data[i], data[i + 1], data[i + 2], data[i + 3]])`. -/
def be32At (data : List (BitVec 8)) (i : ℕ) : Option (BitVec 32) :=
  data[i]?.bind fun a => data[i + 1]?.bind fun b => data[i + 2]?.bind fun c =>
    data[i + 3]?.map fun d => a ++ b ++ c ++ d

theorem be32At_of_length_lt (h : data.length < i + 4) : be32At data i = none := by
  rw [be32At, List.getElem?_eq_none (show data.length ≤ i + 3 by omega)]
  cases data[i]? <;> cases data[i + 1]? <;> cases data[i + 2]? <;> rfl

theorem be32At_mid (front back : List (BitVec 8)) (s : Vector (BitVec 8) 4)
    (hi : i = front.length) :
    be32At (front ++ (s.toList ++ back)) i = some (be32Of s) := by
  have hget : ∀ k (hk : k < 4), (front ++ (s.toList ++ back))[i + k]? = some s[k] := by
    intro k hk
    have hlt : k < s.toList.length := by rwa [Vector.length_toList]
    rw [hi, List.getElem?_append_right (Nat.le_add_right _ _), Nat.add_sub_cancel_left,
      List.getElem?_append_left hlt, List.getElem?_eq_getElem hlt, Vector.getElem_toList]
  have hfirst := hget 0 (by decide)
  rw [Nat.add_zero] at hfirst
  rw [be32At, hfirst, hget 1 (by decide), hget 2 (by decide), hget 3 (by decide)]
  rfl

theorem exists_bytes4 (data : List (BitVec 8)) (h : 4 ≤ data.length) :
    ∃ (s : Vector (BitVec 8) 4) (back : List (BitVec 8)), data = s.toList ++ back := by
  match data, h with
  | a :: b :: c :: d :: back, _ => exact ⟨#v[a, b, c, d], back, rfl⟩

/-! ### Groups of four bytes -/

/-- The bytes of groups of four. -/
def chunkBytes (chunks : List (Vector (BitVec 8) 4)) : List (BitVec 8) :=
  chunks.flatMap fun s => s.toList

theorem length_chunkBytes (chunks : List (Vector (BitVec 8) 4)) :
    (chunkBytes chunks).length = chunks.length * 4 := by
  induction chunks with
  | nil => rfl
  | cons s chunks ih =>
      rw [chunkBytes, List.flatMap_cons, List.length_append, Vector.length_toList, ← chunkBytes, ih,
        List.length_cons]
      omega

/-- A string that is long enough begins with so many groups of four bytes. -/
theorem exists_chunks {n : ℕ} (h : n * 4 ≤ data.length) :
    ∃ (chunks : List (Vector (BitVec 8) 4)) (back : List (BitVec 8)),
      data = chunkBytes chunks ++ back ∧ chunks.length = n := by
  induction n generalizing data with
  | zero => exact ⟨[], data, rfl, rfl⟩
  | succ n ih =>
      obtain ⟨s, rest, hdata⟩ := exists_bytes4 data (by omega)
      have hrest : n * 4 ≤ rest.length := by
        rw [hdata, List.length_append, Vector.length_toList] at h
        omega
      obtain ⟨chunks, back, rfl, hlen⟩ := ih hrest
      refine ⟨s :: chunks, back, ?_, by rw [List.length_cons, hlen]⟩
      rw [hdata, chunkBytes, chunkBytes, List.flatMap_cons, List.append_assoc]

end StarOS
