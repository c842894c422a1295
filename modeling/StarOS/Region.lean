/-
Regions of a finite address space, and lists of blocks that cover one without overlap.

Addresses are bit vectors, and a region of `n` bytes at `a` is the set of addresses `a, a + 1, …,
a + n - 1` with wrap-around, so no statement here needs a block to stay below the end of the address
space.  A list of blocks is *packed* when no byte is covered twice; its *bytes* are what it covers.
Splitting a block, joining two neighbours and rearranging the list keep both.

* `Region.region`, `Region.region_add` — regions, and cutting one in two;
* `Region.xor_two_pow_cases` — flipping one address bit moves by that power of two, up or down;
* `Region.Block`, `Region.bytes`, `Region.Packed` — blocks, what a list of them covers, and that it
  covers nothing twice;
* `Region.packed_append`, `Region.Packed.replace` — packing beside other blocks;
* `Region.slots`, `Region.packed_slots` — a region cut into slots of one size;
* `Region.pool`, `Region.pool_perm` — the blocks of a family of lists, one list for each size.
-/

import Mathlib.Data.BitVec
import Mathlib.Data.List.Pairwise
import Mathlib.Data.Nat.Bitwise
import Mathlib.Data.Set.Lattice
import Mathlib.Order.CompletePartialOrder
import Mathlib.Tactic.Ring

set_option autoImplicit false

namespace Region

variable {w : ℕ}

/-! ### Regions -/

/-- The `n` addresses from `a` on, with wrap-around. -/
def region (a : BitVec w) (n : ℕ) : Set (BitVec w) := {x | (x - a).toNat < n}

@[simp] theorem mem_region {a x : BitVec w} {n : ℕ} : x ∈ region a n ↔ (x - a).toNat < n := Iff.rfl

instance (a x : BitVec w) (n : ℕ) : Decidable (x ∈ region a n) :=
  inferInstanceAs (Decidable ((x - a).toNat < n))

theorem self_mem_region (a : BitVec w) {n : ℕ} (h : 0 < n) : a ∈ region a n := by
  simpa using h

theorem region_mono (a : BitVec w) {m n : ℕ} (h : m ≤ n) : region a m ⊆ region a n :=
  fun _ hx => lt_of_lt_of_le hx h

/-- The distance from a moved base. -/
theorem toNat_sub_add (a x : BitVec w) {k : ℕ} (hk : k < 2 ^ w) :
    (x - (a + BitVec.ofNat w k)).toNat = (2 ^ w - k + (x - a).toNat) % 2 ^ w := by
  have h : x - (a + BitVec.ofNat w k) = x - a - BitVec.ofNat w k := by ring
  rw [h, BitVec.toNat_sub, BitVec.toNat_ofNat, Nat.mod_eq_of_lt hk]

/-- The distances from a base and from a moved base, without the remainder. -/
theorem toNat_sub_add_cases (a x : BitVec w) {k : ℕ} (hk : k < 2 ^ w) :
    (k ≤ (x - a).toNat ∧ (x - (a + BitVec.ofNat w k)).toNat = (x - a).toNat - k) ∨
      ((x - a).toNat < k ∧
        (x - (a + BitVec.ofNat w k)).toNat = 2 ^ w - k + (x - a).toNat) := by
  have hlt := (x - a).isLt
  rw [toNat_sub_add a x hk]
  rcases Nat.lt_or_ge (x - a).toNat k with h | h
  · refine Or.inr ⟨h, Nat.mod_eq_of_lt ?_⟩
    omega
  · refine Or.inl ⟨h, ?_⟩
    have hsum : 2 ^ w - k + (x - a).toNat = 2 ^ w + ((x - a).toNat - k) := by omega
    rw [hsum, Nat.add_mod_left, Nat.mod_eq_of_lt (by omega)]

/-- Cutting a region in two. -/
theorem region_add (a : BitVec w) {m n : ℕ} (h : m + n ≤ 2 ^ w) :
    region a (m + n) = region a m ∪ region (a + BitVec.ofNat w m) n := by
  ext x
  have hlt := (x - a).isLt
  rcases Nat.lt_or_ge m (2 ^ w) with hm | hm
  · simp only [Set.mem_union, mem_region]
    rcases toNat_sub_add_cases a x hm with ⟨h1, h2⟩ | ⟨h1, h2⟩ <;> rw [h2] <;> omega
  · have hn : n = 0 := by omega
    subst hn
    simp

/-- The two parts of a cut region have no byte in common. -/
theorem disjoint_region_add (a : BitVec w) {m n : ℕ} (h : m + n ≤ 2 ^ w) :
    Disjoint (region a m) (region (a + BitVec.ofNat w m) n) := by
  rw [Set.disjoint_left]
  intro x h1 h2
  rw [mem_region] at h1 h2
  have hlt := (x - a).isLt
  rcases Nat.lt_or_ge m (2 ^ w) with hm | hm
  · rcases toNat_sub_add_cases a x hm with ⟨h3, h4⟩ | ⟨h3, h4⟩ <;> rw [h4] at h2 <;> omega
  · omega

/-- A region inside a region. -/
theorem region_subset (a : BitVec w) {k m n : ℕ} (h : k + m ≤ n) (hn : n ≤ 2 ^ w) :
    region (a + BitVec.ofNat w k) m ⊆ region a n := by
  refine Set.Subset.trans ?_ (region_mono a h)
  rw [region_add a (by omega)]
  exact Set.subset_union_right

/-- Two regions one behind the other in a common region have no byte in common. -/
theorem disjoint_region_offset (a : BitVec w) {k m k' m' : ℕ} (h : k + m ≤ k')
    (h' : k' + m' ≤ 2 ^ w) :
    Disjoint (region (a + BitVec.ofNat w k) m) (region (a + BitVec.ofNat w k') m') :=
  Set.disjoint_of_subset_left (region_subset a h (by omega)) (disjoint_region_add a h')

/-- Flipping one bit of an address: with the bit clear, the flipped address lies one power of two
higher. -/
theorem add_two_pow_eq_xor {a : BitVec w} {j : ℕ} (h : a.getLsbD j = false) :
    a ^^^ BitVec.twoPow w j = a + BitVec.twoPow w j := by
  rw [BitVec.add_eq_or_of_and_eq_zero]
  · refine BitVec.eq_of_getLsbD_eq fun i hi => ?_
    by_cases hij : j = i
    · subst hij; simp [h]
    · simp [hij]
  · refine BitVec.eq_of_getLsbD_eq fun i hi => ?_
    by_cases hij : j = i
    · subst hij; simp [h]
    · simp [hij]

theorem twoPow_eq_ofNat (j : ℕ) : BitVec.twoPow w j = BitVec.ofNat w (2 ^ j) := by
  refine BitVec.eq_of_toNat_eq ?_
  rw [BitVec.toNat_twoPow, BitVec.toNat_ofNat]

/-- Flipping a clear bit leads to a higher address. -/
theorem lt_xor_two_pow {a : BitVec w} {j : ℕ} (hj : j < w) (h : a.getLsbD j = false) :
    a < a ^^^ BitVec.twoPow w j := by
  have hbit : ∀ i, (a ^^^ BitVec.twoPow w j).toNat.testBit i =
      (a.toNat.testBit i ^^ decide (j = i)) := by
    intro i
    rw [BitVec.toNat_xor, Nat.testBit_xor, BitVec.toNat_twoPow,
      Nat.mod_eq_of_lt (Nat.pow_lt_pow_right (by decide) hj), Nat.testBit_two_pow]
  rw [BitVec.lt_def]
  refine Nat.lt_of_testBit j h ?_ fun i hi => ?_
  · rw [hbit, show a.toNat.testBit j = false from h]
    simp
  · rw [hbit, decide_eq_false (by omega), Bool.xor_false]

/-- Of an address and the one with a bit flipped, the lower lies that power of two below the
other. -/
theorem xor_two_pow_cases (a : BitVec w) {j : ℕ} (hj : j < w) :
    (a < a ^^^ BitVec.ofNat w (2 ^ j) ∧
        a ^^^ BitVec.ofNat w (2 ^ j) = a + BitVec.ofNat w (2 ^ j)) ∨
      (¬a < a ^^^ BitVec.ofNat w (2 ^ j) ∧
        a = (a ^^^ BitVec.ofNat w (2 ^ j)) + BitVec.ofNat w (2 ^ j)) := by
  rw [← twoPow_eq_ofNat]
  cases h : a.getLsbD j with
  | false => exact Or.inl ⟨lt_xor_two_pow hj h, add_two_pow_eq_xor h⟩
  | true =>
      have hflip : (a ^^^ BitVec.twoPow w j) ^^^ BitVec.twoPow w j = a := by
        rw [BitVec.xor_assoc, BitVec.xor_self, BitVec.xor_zero]
      have hclear : (a ^^^ BitVec.twoPow w j).getLsbD j = false := by
        simp [h, hj]
      have hlt := lt_xor_two_pow hj hclear
      have hadd := add_two_pow_eq_xor hclear
      rw [hflip] at hlt hadd
      exact Or.inr ⟨BitVec.lt_asymm hlt, hadd⟩

/-! ### Blocks -/

/-- A block of memory. -/
@[ext] structure Block (w : ℕ) where
  addr : BitVec w
  size : ℕ

/-- The addresses of a block. -/
def Block.range (b : Block w) : Set (BitVec w) := region b.addr b.size

/-- The addresses a list of blocks covers. -/
def bytes (bs : List (Block w)) : Set (BitVec w) := {x | ∃ b ∈ bs, x ∈ b.range}

/-- No address is covered by two blocks of the list. -/
def Packed (bs : List (Block w)) : Prop := bs.Pairwise fun b c => Disjoint b.range c.range

theorem mem_bytes {bs : List (Block w)} {x : BitVec w} :
    x ∈ bytes bs ↔ ∃ b ∈ bs, x ∈ b.range := Iff.rfl

@[simp] theorem bytes_nil : bytes ([] : List (Block w)) = ∅ := by
  ext x; simp [bytes]

@[simp] theorem bytes_cons (b : Block w) (bs : List (Block w)) :
    bytes (b :: bs) = b.range ∪ bytes bs := by
  ext x; simp [bytes]

@[simp] theorem bytes_append (bs cs : List (Block w)) : bytes (bs ++ cs) = bytes bs ∪ bytes cs := by
  ext x; simp [bytes, or_and_right, exists_or]

theorem range_subset_bytes {b : Block w} {bs : List (Block w)} (h : b ∈ bs) :
    b.range ⊆ bytes bs := fun _ hx => ⟨b, h, hx⟩

theorem bytes_perm {bs cs : List (Block w)} (h : bs.Perm cs) : bytes bs = bytes cs := by
  ext x
  simp only [mem_bytes, h.mem_iff]

/-- A region that is a block of the list. -/
theorem region_subset_bytes {a : BitVec w} {n : ℕ} {bs : List (Block w)}
    (h : (⟨a, n⟩ : Block w) ∈ bs) : region a n ⊆ bytes bs :=
  @range_subset_bytes w ⟨a, n⟩ bs h

theorem disjoint_bytes {bs : List (Block w)} {S : Set (BitVec w)} :
    Disjoint (bytes bs) S ↔ ∀ b ∈ bs, Disjoint b.range S := by
  simp only [Set.disjoint_left, mem_bytes]
  constructor
  · exact fun h b hb x hx => h ⟨b, hb, hx⟩
  · rintro h x ⟨b, hb, hx⟩
    exact h b hb hx

@[simp] theorem packed_nil : Packed ([] : List (Block w)) := List.Pairwise.nil

theorem packed_cons {b : Block w} {bs : List (Block w)} :
    Packed (b :: bs) ↔ Disjoint b.range (bytes bs) ∧ Packed bs := by
  rw [Packed, List.pairwise_cons, Packed, disjoint_comm, disjoint_bytes]
  simp only [disjoint_comm]

theorem packed_append {bs cs : List (Block w)} :
    Packed (bs ++ cs) ↔ Packed bs ∧ Packed cs ∧ Disjoint (bytes bs) (bytes cs) := by
  rw [Packed, List.pairwise_append, disjoint_bytes]
  refine and_congr_right fun _ => and_congr_right fun _ => forall₂_congr fun b _ => ?_
  rw [disjoint_comm, disjoint_bytes]
  simp only [disjoint_comm]

theorem Packed.perm {bs cs : List (Block w)} (h : Packed bs) (hp : bs.Perm cs) : Packed cs :=
  List.Pairwise.perm h hp fun hd => hd.symm

/-- Blocks may be dropped from a packed list. -/
theorem Packed.sublist {bs cs : List (Block w)} (h : Packed cs) (hs : bs.Sublist cs) : Packed bs :=
  List.Pairwise.sublist hs h

/-- Packed blocks may be re-cut in place, whatever lies beside them. -/
theorem Packed.replace {bs cs rest : List (Block w)} (h : Packed (bs ++ rest)) (hc : Packed cs)
    (hsub : bytes cs ⊆ bytes bs) : Packed (cs ++ rest) := by
  obtain ⟨-, hrest, hdisj⟩ := packed_append.1 h
  exact packed_append.2 ⟨hc, hrest, Set.disjoint_of_subset_left hsub hdisj⟩

/-- A packed list of non-empty blocks has no repetition. -/
theorem Packed.nodup {bs : List (Block w)} (h : Packed bs) (hpos : ∀ b ∈ bs, 0 < b.size) :
    bs.Nodup := by
  refine List.Pairwise.imp_of_mem (fun {b c} hb _ hd => ?_) h
  rintro rfl
  exact Set.disjoint_left.1 hd (self_mem_region b.addr (hpos b hb))
    (self_mem_region b.addr (hpos b hb))

/-- A list of different addresses is no longer than the address space. -/
theorem length_le_two_pow {l : List (BitVec w)} (h : l.Nodup) : l.length ≤ 2 ^ w := by
  have hinj : (l.map BitVec.toNat).Nodup := h.map fun _ _ => BitVec.eq_of_toNat_eq
  have hsub : l.map BitVec.toNat ⊆ List.range (2 ^ w) := by
    intro n hn
    obtain ⟨a, -, rfl⟩ := List.mem_map.1 hn
    exact List.mem_range.2 a.isLt
  have hle := (List.subperm_of_subset hinj hsub).length_le
  rwa [List.length_map, List.length_range] at hle

/-- Cutting a block in two. -/
theorem packed_split {a : BitVec w} {m n : ℕ} (h : m + n ≤ 2 ^ w) :
    Packed [⟨a, m⟩, ⟨a + BitVec.ofNat w m, n⟩] := by
  rw [packed_cons, packed_cons, bytes_cons, bytes_nil, Set.union_empty]
  exact ⟨disjoint_region_add a h, by simp, packed_nil⟩

theorem bytes_split {a : BitVec w} {m n : ℕ} (h : m + n ≤ 2 ^ w) :
    bytes [⟨a, m⟩, ⟨a + BitVec.ofNat w m, n⟩] = (⟨a, m + n⟩ : Block w).range := by
  simp only [bytes_cons, bytes_nil, Set.union_empty, Block.range]
  exact (region_add a h).symm

/-! ### Slots -/

/-- The addresses of the slots `i, …, i + n - 1` of `s` bytes each, counted from an address. -/
def slots (a : BitVec w) (s i n : ℕ) : List (BitVec w) :=
  (List.range' i n).map fun j => a + BitVec.ofNat w (j * s)

theorem slots_succ (a : BitVec w) (s i n : ℕ) :
    slots a s i (n + 1) = (a + BitVec.ofNat w (i * s)) :: slots a s (i + 1) n := by
  rw [slots, List.range'_succ, List.map_cons, slots]

theorem mem_slots {a x : BitVec w} {s i n : ℕ} :
    x ∈ slots a s i n ↔ ∃ j, i ≤ j ∧ j < i + n ∧ x = a + BitVec.ofNat w (j * s) := by
  simp only [slots, List.mem_map, List.mem_range'_1, and_assoc, eq_comm]

/-- Slots cover one region without overlap. -/
theorem packed_slots (a : BitVec w) {s : ℕ} :
    ∀ {n i : ℕ}, (i + n) * s ≤ 2 ^ w →
      Packed ((slots a s i n).map fun x => (⟨x, s⟩ : Block w)) ∧
        bytes ((slots a s i n).map fun x => (⟨x, s⟩ : Block w)) =
          region (a + BitVec.ofNat w (i * s)) (n * s) := by
  intro n
  induction n with
  | zero =>
      intro i _
      simp only [slots, List.range'_zero, List.map_nil, packed_nil, bytes_nil, Nat.zero_mul,
        true_and]
      ext x
      simp
  | succ n ih =>
      intro i hle
      have hsum : (i + (n + 1)) * s = i * s + (s + n * s) := by ring
      obtain ⟨hp, hb⟩ := @ih (i + 1) (by rw [← Nat.add_right_comm, Nat.add_assoc]; exact hle)
      have haddr : a + BitVec.ofNat w ((i + 1) * s) =
          a + BitVec.ofNat w (i * s) + BitVec.ofNat w s := by
        rw [Nat.succ_mul, BitVec.ofNat_add, BitVec.add_assoc]
      rw [haddr] at hb
      rw [slots_succ, List.map_cons]
      refine ⟨packed_cons.2 ⟨?_, hp⟩, ?_⟩
      · rw [hb]
        exact disjoint_region_add (m := s) _ (by omega)
      · rw [bytes_cons, hb, Nat.succ_mul, Nat.add_comm (n * s), region_add _ (by omega)]
        rfl

/-! ### Pools -/

/-- The blocks of a family of `n` lists of addresses, list `k` for blocks of `size k` bytes. -/
def pool (size : ℕ → ℕ) (n : ℕ) (ls : ℕ → List (BitVec w)) : List (Block w) :=
  (List.range n).flatMap fun k => (ls k).map fun a => ⟨a, size k⟩

section Pool

variable {size : ℕ → ℕ} {n k : ℕ} {ls : ℕ → List (BitVec w)}

theorem mem_pool {b : Block w} :
    b ∈ pool size n ls ↔ ∃ k < n, ∃ a ∈ ls k, b = ⟨a, size k⟩ := by
  simp [pool, eq_comm]

variable (size) in
/-- Taking several blocks of one list out of a pool. -/
theorem pool_perm_append (hk : k < n) {as l : List (BitVec w)} (h : (ls k).Perm (as ++ l)) :
    (pool size n ls).Perm
      (as.map (fun a => ⟨a, size k⟩) ++ pool size n (Function.update ls k l)) := by
  have hperm := List.perm_cons_erase (List.mem_range.2 hk)
  have hother : ((List.range n).erase k).flatMap
        (fun j => (Function.update ls k l j).map fun a => (⟨a, size j⟩ : Block w)) =
      ((List.range n).erase k).flatMap fun j => (ls j).map fun a => ⟨a, size j⟩ := by
    refine List.flatMap_congr fun j hj => ?_
    have hne : j ≠ k := ((List.nodup_range).mem_erase_iff.1 hj).1
    rw [Function.update_of_ne hne]
  have h1 := List.Perm.flatMap_right
    (fun j => (ls j).map fun a => (⟨a, size j⟩ : Block w)) hperm
  have h2 := List.Perm.flatMap_right
    (fun j => (Function.update ls k l j).map fun a => (⟨a, size j⟩ : Block w)) hperm
  rw [List.flatMap_cons] at h1 h2
  rw [hother, Function.update_self] at h2
  refine h1.trans ((List.Perm.append_right _ (h.map fun a => (⟨a, size k⟩ : Block w))).trans ?_)
  rw [List.map_append, List.append_assoc]
  exact h2.symm.append_left _

variable (size) in
/-- Taking one block out of a pool. -/
theorem pool_perm (hk : k < n) {a : BitVec w} {l : List (BitVec w)} (h : (ls k).Perm (a :: l)) :
    (pool size n ls).Perm (⟨a, size k⟩ :: pool size n (Function.update ls k l)) :=
  @pool_perm_append w size n k ls hk [a] l h

variable (size) (ls) in
/-- Putting several blocks into one list of a pool. -/
theorem pool_push_append (hk : k < n) {as l : List (BitVec w)} (h : l.Perm (as ++ ls k)) :
    (pool size n (Function.update ls k l)).Perm
      (as.map (fun a => ⟨a, size k⟩) ++ pool size n ls) := by
  have hself : (Function.update ls k l k).Perm (as ++ ls k) := by
    rwa [Function.update_self]
  have h := @pool_perm_append w size n k (Function.update ls k l) hk as (ls k) hself
  rwa [Function.update_idem, Function.update_eq_self] at h

variable (size) (ls) in
/-- Putting a block into a pool. -/
theorem pool_push (hk : k < n) (a : BitVec w) :
    (pool size n (Function.update ls k (a :: ls k))).Perm (⟨a, size k⟩ :: pool size n ls) :=
  @pool_push_append w size n k ls hk [a] (a :: ls k) (List.Perm.refl _)

/-- The lists of a packed pool have no repetition. -/
theorem Packed.pool_nodup (h : Packed (pool size n ls)) (hk : k < n) (hpos : 0 < size k) :
    (ls k).Nodup := by
  have hsub : ((ls k).map fun a => (⟨a, size k⟩ : Block w)).Sublist (pool size n ls) := by
    refine List.sublist_flatten_of_mem ?_
    exact List.mem_map.2 ⟨k, List.mem_range.2 hk, rfl⟩
  have hnodup := (h.sublist hsub).nodup (by simp [hpos])
  exact List.Nodup.of_map _ hnodup

end Pool

end Region
