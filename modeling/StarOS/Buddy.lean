/-
The buddy allocator of `memory/heap.rs`, and what each of its operations does to the blocks it
manages.

The allocator keeps eleven free lists threaded through the free blocks, and a pointer to the
physical allocator it draws on.  The model carries the memory the links live in, as a link store,
and the physical allocator as part of the state; a call that panics, or whose list walk never ends,
returns nothing.

Each operation re-cuts the blocks it is given: the free blocks, with the block handed in or out, are
packed before and after and cover the same bytes.  This holds for blocks that are not aligned to
their order, as the physical allocator may return them, because the buddy of a block always lies one
block length above or below it.

* `StarOS.BuddyAllocator.alloc`, `StarOS.BuddyAllocator.free` — the operations, with the functions
  they call;
* `StarOS.BuddyAllocator.Rep`, `StarOS.BuddyAllocator.Recut` — the lists a state spells out, and
  re-cutting;
* `StarOS.BuddyAllocator.alloc_cases`, `StarOS.BuddyAllocator.free_cases` — what the operations do.
-/

import StarOS.Links
import StarOS.PhysicalPages

set_option autoImplicit false

namespace StarOS

open Region Links LinkStore

/-- The number of orders. -/
def maxOrder : ℕ := 11

/-- The bytes of a block of an order, `4096 << order`. -/
def blockBytes (order : ℕ) : ℕ := 4096 <<< order

/-- A bound for list walks: a walk over different blocks ends within the size of the address space,
and one that does not end within it never does. -/
def walkFuel : ℕ := 2 ^ 64

/-- The state of a `BuddyAllocator`: its free lists, the physical allocator its pointer designates,
and the memory its list links live in. -/
structure BuddyAllocator (M : Type) where
  freeLists : ℕ → Option Usize
  allocator : PhysicalAllocator
  mem : M

namespace BuddyAllocator

variable {M : Type} [LinkStore Usize M]

/-! ### The operations -/

/-- `BuddyAllocator::new`, in a given memory. -/
def new (allocator : PhysicalAllocator) (mem : M) : BuddyAllocator M where
  freeLists := fun _ => none
  allocator := allocator
  mem := mem

/-- `free_lists[order] = (*block).next`. -/
def pop (b : BuddyAllocator M) (order : ℕ) (block : Usize) : BuddyAllocator M :=
  { b with freeLists := Function.update b.freeLists order (getNext b.mem block) }

/-- `(*block).next = free_lists[order]; free_lists[order] = Some(block)`. -/
def push (b : BuddyAllocator M) (order : ℕ) (block : Usize) : BuddyAllocator M :=
  { b with
    mem := setNext b.mem block (b.freeLists order)
    freeLists := Function.update b.freeLists order (some block) }

/-- `split_block`, by recursion on `from_order`; below order `0` the source would panic. -/
def splitBlock (b : BuddyAllocator M) (ptr : Usize) (toOrder : ℕ) :
    ℕ → Option (Except KernelError Usize × BuddyAllocator M)
  | 0 => if 0 = toOrder then some (.ok ptr, b) else none
  | splitOrder + 1 =>
      if splitOrder + 1 = toOrder then some (.ok ptr, b)
      else
        let buddy := ptr + BitVec.ofNat 64 (blockBytes splitOrder)
        splitBlock (b.push splitOrder buddy) ptr toOrder splitOrder

/-- `buddy_of`. -/
def buddyOf (ptr : Usize) (order : ℕ) : Usize := ptr ^^^ BitVec.ofNat 64 (blockBytes order)

/-- The last resort of `alloc`: asking the physical allocator for pages. -/
def allocFresh (b : BuddyAllocator M) (order : ℕ) :
    Option (Except KernelError Usize × BuddyAllocator M) :=
  let pages := 1 <<< order
  match b.allocator.allocPages pages with
  | none => none
  | some (.error e, allocator) => some (.error e, { b with allocator := allocator })
  | some (.ok phys, allocator) => some (.ok phys.addr, { b with allocator := allocator })

/-- The loop of `alloc` over the higher orders, with `n` orders left from `higherOrder` on. -/
def allocHigher (b : BuddyAllocator M) (order : ℕ) :
    ℕ → ℕ → Option (Except KernelError Usize × BuddyAllocator M)
  | 0, _ => b.allocFresh order
  | n + 1, higherOrder =>
      match b.freeLists higherOrder with
      | some block => (b.pop higherOrder block).splitBlock block order higherOrder
      | none => allocHigher b order n (higherOrder + 1)

/-- `alloc`. -/
def alloc (b : BuddyAllocator M) (order : ℕ) :
    Option (Except KernelError Usize × BuddyAllocator M) :=
  if maxOrder ≤ order then some (.error (.memory .invalidSize), b)
  else
    match b.freeLists order with
    | some block => some (.ok block, b.pop order block)
    | none => b.allocHigher order (maxOrder - (order + 1)) (order + 1)

/-- The loop of `is_free`. -/
def isFreeLoop (b : BuddyAllocator M) (ptr : Usize) : ℕ → Option Usize → Option Bool
  | _, none => some false
  | 0, some _ => none
  | n + 1, some block =>
      if block = ptr then some true else isFreeLoop b ptr n (getNext b.mem block)

/-- `is_free`. -/
def isFree (b : BuddyAllocator M) (ptr : Usize) (order : ℕ) : Option Bool :=
  b.isFreeLoop ptr walkFuel (b.freeLists order)

/-- The loop of `remove_from_list`. -/
def removeLoop (b : BuddyAllocator M) (target : Usize) :
    ℕ → Option Usize → Option (BuddyAllocator M)
  | _, none => some b
  | 0, some _ => none
  | n + 1, some block =>
      if getNext b.mem block = some target then
        some { b with mem := setNext b.mem block (getNext b.mem target) }
      else removeLoop b target n (getNext b.mem block)

/-- `remove_from_list`. -/
def removeFromList (b : BuddyAllocator M) (ptr : Usize) (order : ℕ) : Option (BuddyAllocator M) :=
  if b.freeLists order = some ptr then some (b.pop order ptr)
  else b.removeLoop ptr walkFuel (b.freeLists order)

/-- The block two buddies make: the lower of them. -/
def coalesced (ptr : Usize) (order : ℕ) : Usize :=
  if ptr < buddyOf ptr order then ptr else buddyOf ptr order

/-- `free` with `n` orders left below `maxOrder`, by the recursion of the source. -/
def freeAt (b : BuddyAllocator M) :
    ℕ → Usize → ℕ → Option (Except KernelError Unit × BuddyAllocator M)
  | 0, _, _ => some (.error (.memory .invalidSize), b)
  | n + 1, ptr, order =>
      let buddyPtr := buddyOf ptr order
      match b.isFree buddyPtr order with
      | none => none
      | some true =>
          match b.removeFromList buddyPtr order with
          | none => none
          | some b' => freeAt b' n (coalesced ptr order) (order + 1)
      | some false => some (.ok (), b.push order ptr)

/-- `free`. -/
def free (b : BuddyAllocator M) (ptr : Usize) (order : ℕ) :
    Option (Except KernelError Unit × BuddyAllocator M) :=
  b.freeAt (maxOrder - order) ptr order

end BuddyAllocator

/-! ### Block sizes -/

theorem blockBytes_eq (k : ℕ) : blockBytes k = 2 ^ (12 + k) := by
  rw [blockBytes, Nat.shiftLeft_eq, Nat.pow_add]

/-- The pages of a block are its bytes. -/
theorem pages_blockBytes (k : ℕ) : 2 ^ k * pageSize = blockBytes k := by
  rw [blockBytes_eq, Nat.pow_add, Nat.mul_comm]
  rfl

theorem blockBytes_succ (k : ℕ) : blockBytes (k + 1) = blockBytes k + blockBytes k := by
  rw [blockBytes_eq, blockBytes_eq, ← Nat.add_assoc, Nat.pow_succ, Nat.mul_two]

theorem pageSize_dvd_blockBytes (k : ℕ) : pageSize ∣ blockBytes k := by
  rw [blockBytes_eq, Nat.pow_add]
  exact Nat.dvd_mul_right _ _

theorem pageSize_le_blockBytes (k : ℕ) : pageSize ≤ blockBytes k :=
  Nat.le_of_dvd (by rw [blockBytes_eq]; exact Nat.two_pow_pos _) (pageSize_dvd_blockBytes k)

theorem blockBytes_pos (k : ℕ) : 0 < blockBytes k :=
  lt_of_lt_of_le (by decide) (pageSize_le_blockBytes k)

/-- A block of an order the allocator knows, or of the next one, fits the address space. -/
theorem blockBytes_le {k : ℕ} (h : k ≤ maxOrder) : blockBytes k ≤ 2 ^ 64 := by
  rw [blockBytes_eq]
  refine Nat.pow_le_pow_right (by decide) ?_
  have hmax : maxOrder = 11 := rfl
  omega

namespace BuddyAllocator

/-- The lower of two buddies and the other one are the halves of a block. -/
theorem coalesced_cases (ptr : Usize) {k : ℕ} (hk : k < maxOrder) :
    (coalesced ptr k = ptr ∧ buddyOf ptr k = ptr + BitVec.ofNat 64 (blockBytes k)) ∨
      (coalesced ptr k = buddyOf ptr k ∧
        ptr = buddyOf ptr k + BitVec.ofNat 64 (blockBytes k)) := by
  have hmax : maxOrder = 11 := rfl
  rw [coalesced, buddyOf, blockBytes_eq]
  rcases xor_two_pow_cases ptr (show 12 + k < 64 by omega) with ⟨hlt, heq⟩ | ⟨hlt, heq⟩
  · exact Or.inl ⟨if_pos hlt, heq⟩
  · exact Or.inr ⟨if_neg hlt, heq⟩

/-- Every block of the list is page-aligned. -/
def AllAligned (bs : List (Block 64)) : Prop := ∀ B ∈ bs, PageAligned B.addr

theorem allAligned_perm {bs cs : List (Block 64)} (h : bs.Perm cs) :
    AllAligned bs ↔ AllAligned cs := by
  simp only [AllAligned, h.mem_iff]

theorem allAligned_cons {B : Block 64} {bs : List (Block 64)} :
    AllAligned (B :: bs) ↔ PageAligned B.addr ∧ AllAligned bs := List.forall_mem_cons

theorem allAligned_append {bs cs : List (Block 64)} :
    AllAligned (bs ++ cs) ↔ AllAligned bs ∧ AllAligned cs := List.forall_mem_append

variable {M : Type} [LinkStore Usize M]

/-! ### The lists of a state -/

/-- The free lists spell out these lists of blocks. -/
def Rep (b : BuddyAllocator M) (ls : ℕ → List Usize) : Prop :=
  ∀ k < maxOrder, IsList b.mem (b.freeLists k) (ls k)

/-- The free blocks. -/
abbrev freeBlocks (ls : ℕ → List Usize) : List (Block 64) := pool blockBytes maxOrder ls

/-- A new allocator has no free blocks. -/
theorem rep_new (allocator : PhysicalAllocator) (mem : M) : (new allocator mem).Rep fun _ => [] :=
  fun _ _ => rfl

@[simp] theorem freeBlocks_nil : freeBlocks (fun _ => []) = [] := by
  simp [freeBlocks, pool]

variable {b : BuddyAllocator M} {ls : ℕ → List Usize} {k : ℕ} {p : Usize}

/-- Taking the head off a list. -/
theorem Rep.pop (h : b.Rep ls) (hk : k < maxOrder) (hp : b.freeLists k = some p) :
    ∃ l, ls k = p :: l ∧ (b.pop k p).Rep (Function.update ls k l) := by
  have hlist := h k hk
  rw [hp, isList_some] at hlist
  obtain ⟨l, hl, htail⟩ := hlist
  refine ⟨l, hl, fun j hj => ?_⟩
  by_cases hjk : j = k
  · subst hjk
    simpa [BuddyAllocator.pop] using htail
  · simpa [BuddyAllocator.pop, hjk] using h j hj

omit [LinkStore Usize M] in
@[simp] theorem new_freeLists (allocator : PhysicalAllocator) (mem : M) (k : ℕ) :
    (new allocator mem).freeLists k = none := rfl

theorem isFree_empty (h : b.freeLists k = none) : b.isFree p k = some false := by
  rw [isFree, h]
  rfl

theorem isFree_head (h : b.freeLists k = some p) : b.isFree p k = some true := by
  have hfuel : walkFuel = (2 ^ 64 - 1) + 1 := by decide
  rw [isFree, h, hfuel, isFreeLoop, if_pos rfl]

/-- `is_free` looks a block up in its list. -/
theorem isFree_eq (h : b.Rep ls) (hk : k < maxOrder) (hnodup : (ls k).Nodup) :
    b.isFree p k = some (decide (p ∈ ls k)) := by
  have hloop : ∀ (l : List Usize) (hd : Option Usize) (n : ℕ), IsList b.mem hd l →
      l.length ≤ n → b.isFreeLoop p n hd = some (decide (p ∈ l)) := by
    intro l
    induction l with
    | nil =>
        rintro hd n rfl -
        cases n <;> rfl
    | cons a l ih =>
        rintro hd n ⟨rfl, htail⟩ hlen
        rw [List.length_cons] at hlen
        obtain ⟨m, rfl⟩ : ∃ m, n = m + 1 := ⟨n - 1, by omega⟩
        rw [isFreeLoop]
        by_cases ha : a = p
        · rw [if_pos ha, decide_eq_true (by rw [ha]; exact List.mem_cons_self ..)]
        · rw [if_neg ha, ih _ m htail (by omega)]
          simp [Ne.symm ha]
  exact hloop (ls k) _ _ (h k hk) (length_le_two_pow hnodup)

/-- The loop of `remove_from_list` stops at the block in front of the target. -/
theorem removeLoop_eq {c t : Usize} {l₂ : List Usize} :
    ∀ (l₁ : List Usize) (hd : Option Usize) (n : ℕ), IsList b.mem hd (l₁ ++ c :: t :: l₂) →
      t ∉ l₁ ++ [c] → l₁.length < n →
      b.removeLoop t n hd = some { b with mem := setNext b.mem c (getNext b.mem t) } := by
  intro l₁
  induction l₁ with
  | nil =>
      rintro hd n ⟨rfl, hc, -⟩ - hn
      obtain ⟨m, rfl⟩ : ∃ m, n = m + 1 := ⟨n - 1, by simp at hn; omega⟩
      rw [removeLoop, if_pos hc]
  | cons a l₁ ih =>
      rintro hd n ⟨rfl, htail⟩ hnot hn
      rw [List.length_cons] at hn
      obtain ⟨m, rfl⟩ : ∃ m, n = m + 1 := ⟨n - 1, by omega⟩
      have hne : getNext b.mem a ≠ some t := by
        have hin : t ∉ l₁ ++ [c] := fun h => hnot (List.mem_cons_of_mem _ h)
        cases l₁ with
        | nil =>
            rw [htail.1]
            exact fun he => hin (by simpa using (Option.some.inj he).symm)
        | cons d l₁ =>
            rw [htail.1]
            exact fun he => hin (by simp [Option.some.inj he])
      rw [removeLoop, if_neg hne]
      exact ih _ m htail (fun h => hnot (List.mem_cons_of_mem _ h)) (by omega)

section Headers

variable (hfit : ∀ a : Usize, foot M a ⊆ region a pageSize)
include hfit

/-- The headers of blocks that do not overlap do not overlap. -/
theorem disjoint_foot {A B : Block 64} (hA : pageSize ≤ A.size) (hB : pageSize ≤ B.size)
    (h : Disjoint A.range B.range) : Disjoint (foot M A.addr) (foot M B.addr) :=
  Set.disjoint_of_subset ((hfit A.addr).trans (region_mono _ hA))
    ((hfit B.addr).trans (region_mono _ hB)) h

/-- The header of a block beside the free blocks overlaps no header on a free list. -/
theorem disjoint_foot_free {j : ℕ} (hpack : Packed (⟨p, blockBytes k⟩ :: freeBlocks ls))
    (hj : j < maxOrder) {a : Usize} (ha : a ∈ ls j) : Disjoint (foot M a) (foot M p) := by
  have hmem : (⟨a, blockBytes j⟩ : Block 64) ∈ freeBlocks ls := mem_pool.2 ⟨j, hj, a, ha, rfl⟩
  have hdisj := disjoint_bytes.1 (packed_cons.1 hpack).1.symm _ hmem
  exact disjoint_foot hfit (pageSize_le_blockBytes j) (pageSize_le_blockBytes k) hdisj

/-- Putting a block in front of a list. -/
theorem Rep.push (h : b.Rep ls) (hpack : Packed (⟨p, blockBytes k⟩ :: freeBlocks ls)) :
    (b.push k p).Rep (Function.update ls k (p :: ls k)) := by
  intro j hj
  by_cases hjk : j = k
  · subst hjk
    simpa [BuddyAllocator.push] using
      (h j hj).push fun a ha => disjoint_foot_free hfit hpack hj ha
  · simpa [BuddyAllocator.push, hjk] using
      (h j hj).setNext fun a ha => disjoint_foot_free hfit hpack hj ha

/-- The header of a free block overlaps no header of another one. -/
theorem disjoint_foot_other (hpack : Packed (freeBlocks ls)) (hk : k < maxOrder) {c : Usize}
    (hc : c ∈ ls k) {j : ℕ} (hj : j < maxOrder) {a : Usize} (ha : a ∈ ls j)
    (hne : j = k → a ≠ c) : Disjoint (foot M a) (foot M c) := by
  obtain ⟨l₁, l₂, hl⟩ := List.append_of_mem hc
  have hcp : (ls k).Perm (c :: (l₁ ++ l₂)) := by
    rw [hl]
    exact List.perm_middle
  refine disjoint_foot_free hfit (hpack.perm (pool_perm blockBytes hk hcp)) hj ?_
  by_cases hjk : j = k
  · subst hjk
    rw [Function.update_self]
    exact (List.mem_cons.1 (hcp.mem_iff.1 ha)).resolve_left (hne rfl)
  · rwa [Function.update_of_ne hjk]

/-- A block is unlinked by a write to the header of the block in front of it. -/
theorem Rep.unlink (h : b.Rep ls) (hpack : Packed (freeBlocks ls)) (hk : k < maxOrder)
    {c : Usize} {l₁ l₂ : List Usize} (hsplit : ls k = l₁ ++ c :: p :: l₂) :
    ({ b with mem := setNext b.mem c (getNext b.mem p) } : BuddyAllocator M).Rep
      (Function.update ls k (l₁ ++ c :: l₂)) := by
  have hc : c ∈ ls k := by simp [hsplit]
  have hnodup : (ls k).Nodup := hpack.pool_nodup hk (blockBytes_pos k)
  rw [hsplit] at hnodup
  have hnc := (List.nodup_cons.1 (List.nodup_middle.1 hnodup)).1
  have hlist : IsList b.mem (b.freeLists k) (l₁ ++ c :: p :: l₂) := hsplit ▸ h k hk
  intro j hj
  by_cases hjk : j = k
  · subst hjk
    rw [Function.update_self]
    refine hlist.unlink fun a ha => disjoint_foot_other hfit hpack hk hc hj ?_ fun _ => ?_
    · rw [hsplit]
      rcases List.mem_append.1 ha with ha | ha <;> simp [ha]
    · rintro rfl
      refine hnc ?_
      rcases List.mem_append.1 ha with ha | ha <;> simp [ha]
  · rw [Function.update_of_ne hjk]
    exact (h j hj).setNext fun a ha =>
      disjoint_foot_other hfit hpack hk hc hj ha fun e => absurd e hjk

/-- `remove_from_list` takes a free block out of its list, with at most one header write, to a block
of the list. -/
theorem Rep.remove (h : b.Rep ls) (hpack : Packed (freeBlocks ls)) (hk : k < maxOrder)
    (hp : p ∈ ls k) :
    ∃ b' l ws, b.removeFromList p k = some b' ∧ (ls k).Perm (p :: l) ∧
      b'.Rep (Function.update ls k l) ∧ b'.allocator = b.allocator ∧
      Stores b.mem ws b'.mem ∧ ∀ w ∈ ws, w ∈ ls k := by
  have hnodup : (ls k).Nodup := hpack.pool_nodup hk (blockBytes_pos k)
  by_cases hhead : b.freeLists k = some p
  · obtain ⟨l, hl, hrep⟩ := h.pop hk hhead
    exact ⟨b.pop k p, l, [], by rw [removeFromList, if_pos hhead], by rw [hl], hrep, rfl, .nil _,
      by simp⟩
  · -- the target is not the head, so some block `c` stands in front of it
    obtain ⟨l₁, l₂, hl, hnot⟩ := List.eq_append_cons_of_mem hp
    obtain ⟨l₁', c, rfl⟩ : ∃ l₁' c, l₁ = l₁' ++ [c] := by
      rcases List.eq_nil_or_concat l₁ with rfl | ⟨l₁', c, rfl⟩
      · have hlist := h k hk
        rw [hl] at hlist
        exact absurd hlist.1 hhead
      · exact ⟨l₁', c, List.concat_eq_append⟩
    have hsplit : ls k = l₁' ++ c :: p :: l₂ := by simpa using hl
    have hlist : IsList b.mem (b.freeLists k) (l₁' ++ c :: p :: l₂) := hsplit ▸ h k hk
    have hlen : l₁'.length < walkFuel := by
      have hle : (ls k).length ≤ 2 ^ 64 := length_le_two_pow hnodup
      rw [hsplit, List.length_append, List.length_cons] at hle
      unfold walkFuel
      omega
    refine ⟨{ b with mem := setNext b.mem c (getNext b.mem p) }, l₁' ++ c :: l₂, [c], ?_, ?_,
      h.unlink hfit hpack hk hsplit, rfl, .one _ _ _, fun w hw => ?_⟩
    · rw [removeFromList, if_neg hhead]
      exact removeLoop_eq l₁' _ _ hlist hnot hlen
    · rw [hl]
      exact List.perm_middle.trans (by simp)
    · rw [List.mem_singleton.1 hw, hsplit]
      simp

end Headers

/-! ### Re-cutting -/

/-- `b'` has come from `b` by re-cutting: the free blocks and the blocks `bs` handed in have become
the free blocks and the blocks `bs'` handed out.  Every header written lies in the bytes re-cut. -/
structure Recut (b : BuddyAllocator M) (ls : ℕ → List Usize) (bs : List (Block 64))
    (b' : BuddyAllocator M) (ls' : ℕ → List Usize) (bs' : List (Block 64)) : Prop where
  rep : b'.Rep ls'
  packed : Packed (bs' ++ freeBlocks ls')
  bytes_eq : bytes (bs' ++ freeBlocks ls') = bytes (bs ++ freeBlocks ls)
  aligned : AllAligned (bs ++ freeBlocks ls) → AllAligned (bs' ++ freeBlocks ls')
  allocator : b'.allocator = b.allocator
  stores : ∃ ws, Stores b.mem ws b'.mem ∧ ∀ w ∈ ws,
    region w pageSize ⊆ bytes (bs ++ freeBlocks ls) ∧
      (AllAligned (bs ++ freeBlocks ls) → PageAligned w)

variable {b' b'' : BuddyAllocator M} {ls' ls'' : ℕ → List Usize} {bs bs' bs'' : List (Block 64)}

theorem Recut.trans (h : Recut b ls bs b' ls' bs') (h' : Recut b' ls' bs' b'' ls'' bs'') :
    Recut b ls bs b'' ls'' bs'' := by
  obtain ⟨ws, hs, hw⟩ := h.stores
  obtain ⟨ws', hs', hw'⟩ := h'.stores
  refine ⟨h'.rep, h'.packed, h'.bytes_eq.trans h.bytes_eq, fun ha => h'.aligned (h.aligned ha),
    h'.allocator.trans h.allocator, ws ++ ws', hs.trans hs', fun w hmem => ?_⟩
  rcases List.mem_append.1 hmem with hmem | hmem
  · exact hw w hmem
  · obtain ⟨h1, h2⟩ := hw' w hmem
    exact ⟨h.bytes_eq ▸ h1, fun ha => h2 (h.aligned ha)⟩

/-- Moving blocks between the free lists and the caller. -/
theorem Recut.of_perm (hpack : Packed (bs ++ freeBlocks ls)) (hrep : b'.Rep ls')
    (hperm : (bs ++ freeBlocks ls).Perm (bs' ++ freeBlocks ls'))
    (halloc : b'.allocator = b.allocator) {ws : List Usize} (hs : Stores b.mem ws b'.mem)
    (hw : ∀ w ∈ ws, ∃ j, (⟨w, blockBytes j⟩ : Block 64) ∈ bs ++ freeBlocks ls) :
    Recut b ls bs b' ls' bs' := by
  refine ⟨hrep, hpack.perm hperm, (bytes_perm hperm).symm, (allAligned_perm hperm).1, halloc, ws,
    hs, fun w hmem => ?_⟩
  obtain ⟨j, hj⟩ := hw w hmem
  exact ⟨(region_mono w (pageSize_le_blockBytes j)).trans (region_subset_bytes hj),
    fun ha => ha _ hj⟩

/-- Re-cutting only the blocks the caller holds. -/
theorem Recut.cut (hrep : b.Rep ls) (hpack : Packed (bs ++ freeBlocks ls)) (hc : Packed bs')
    (hbytes : bytes bs' = bytes bs) (ha : AllAligned bs → AllAligned bs') :
    Recut b ls bs b ls bs' := by
  refine ⟨hrep, hpack.replace hc hbytes.subset, by rw [bytes_append, bytes_append, hbytes], ?_, rfl,
    [], .nil _, by simp⟩
  rw [allAligned_append, allAligned_append]
  exact fun h => ⟨ha h.1, h.2⟩

theorem Recut.refl (hrep : b.Rep ls) (hpack : Packed (bs ++ freeBlocks ls)) :
    Recut b ls bs b ls bs := .cut hrep hpack (packed_append.1 hpack).1 rfl id

/-- Taking the head off a list hands it out. -/
theorem Recut.pop (hrep : b.Rep ls) (hpack : Packed (bs ++ freeBlocks ls)) (hk : k < maxOrder)
    (hp : b.freeLists k = some p) :
    ∃ ls', Recut b ls bs (b.pop k p) ls' (⟨p, blockBytes k⟩ :: bs) := by
  obtain ⟨l, hl, hrep'⟩ := hrep.pop hk hp
  have hperm := pool_perm blockBytes hk (List.Perm.of_eq hl)
  exact ⟨_, .of_perm hpack hrep' ((hperm.append_left bs).trans List.perm_middle) rfl (.nil _)
    (by simp)⟩

/-- The halves of a block, the upper one first. -/
theorem packed_halves (hk : k < maxOrder) (p : Usize) :
    Packed [⟨p + BitVec.ofNat 64 (blockBytes k), blockBytes k⟩, ⟨p, blockBytes k⟩] ∧
      bytes [⟨p + BitVec.ofNat 64 (blockBytes k), blockBytes k⟩, ⟨p, blockBytes k⟩] =
        bytes [⟨p, blockBytes (k + 1)⟩] := by
  have hle : blockBytes k + blockBytes k ≤ 2 ^ 64 := by
    rw [← blockBytes_succ]
    exact blockBytes_le hk
  have hswap := List.Perm.swap (⟨p, blockBytes k⟩ : Block 64)
    ⟨p + BitVec.ofNat 64 (blockBytes k), blockBytes k⟩ []
  refine ⟨(packed_split hle).perm hswap.symm, ?_⟩
  rw [bytes_perm hswap, bytes_split hle, blockBytes_succ, bytes_cons, bytes_nil, Set.union_empty]

section Headers

variable (hfit : ∀ a : Usize, foot M a ⊆ region a pageSize)
include hfit

/-- Putting a block handed in in front of a list. -/
theorem Recut.push (hrep : b.Rep ls) (hk : k < maxOrder)
    (hpack : Packed (⟨p, blockBytes k⟩ :: bs ++ freeBlocks ls)) :
    Recut b ls (⟨p, blockBytes k⟩ :: bs) (b.push k p) (Function.update ls k (p :: ls k)) bs := by
  have hsub : Packed (⟨p, blockBytes k⟩ :: freeBlocks ls) :=
    hpack.sublist (List.Sublist.cons_cons _ (List.sublist_append_right bs _))
  have hperm := (pool_push blockBytes ls hk p).append_left bs
  refine .of_perm hpack (hrep.push hfit hsub) (List.perm_middle.symm.trans hperm.symm) rfl
    (.one _ _ _) fun w hw => ⟨k, ?_⟩
  rw [List.mem_singleton.1 hw]
  exact List.mem_cons_self ..

/-- Taking a block out of its list hands it out. -/
theorem Recut.remove (hrep : b.Rep ls) (hk : k < maxOrder) (hpack : Packed (bs ++ freeBlocks ls))
    (hp : p ∈ ls k) :
    ∃ b' l, b.removeFromList p k = some b' ∧
      Recut b ls bs b' (Function.update ls k l) (⟨p, blockBytes k⟩ :: bs) := by
  obtain ⟨b', l, ws, hres, hl, hrep', halloc, hs, hw⟩ :=
    hrep.remove hfit (packed_append.1 hpack).2.1 hk hp
  have hperm := (pool_perm blockBytes hk hl).append_left bs
  refine ⟨b', l, hres, .of_perm hpack hrep' (hperm.trans List.perm_middle) halloc hs
    fun w hmem => ⟨k, ?_⟩⟩
  exact List.mem_append_right _ (mem_pool.2 ⟨k, hk, w, hw w hmem, rfl⟩)

/-- `split_block` cuts the requested block off the lower end of the given one. -/
theorem splitBlock_eq {toOrder : ℕ} (p : Usize) :
    ∀ (k : ℕ) (b : BuddyAllocator M) (ls : ℕ → List Usize), toOrder ≤ k → k < maxOrder → b.Rep ls →
      Packed ([⟨p, blockBytes k⟩] ++ freeBlocks ls) →
      ∃ b' ls', b.splitBlock p toOrder k = some (.ok p, b') ∧
        Recut b ls [⟨p, blockBytes k⟩] b' ls' [⟨p, blockBytes toOrder⟩] := by
  intro k
  induction k with
  | zero =>
      intro b ls hle _ hrep hpack
      obtain rfl : toOrder = 0 := by omega
      exact ⟨b, ls, rfl, .refl hrep hpack⟩
  | succ k ih =>
      intro b ls hle hk hrep hpack
      by_cases hto : k + 1 = toOrder
      · subst hto
        exact ⟨b, ls, by rw [splitBlock, if_pos rfl], .refl hrep hpack⟩
      · have hk' : k < maxOrder := by omega
        obtain ⟨hhalves, hbytes⟩ := packed_halves hk' p
        have hcut := Recut.cut hrep hpack hhalves hbytes fun ha => by
          have hp : PageAligned p := ha _ (List.mem_singleton_self _)
          simp only [allAligned_cons]
          exact ⟨hp.add (pageSize_dvd_blockBytes k), hp, fun B hB => absurd hB (by simp)⟩
        have hpush := Recut.push hfit hrep hk' hcut.packed
        obtain ⟨b', ls', hres, hrec⟩ := ih _ _ (by omega) hk' hpush.rep hpush.packed
        refine ⟨b', ls', ?_, (hcut.trans hpush).trans hrec⟩
        rw [splitBlock, if_neg hto]
        exact hres

end Headers

/-! ### What the calls do -/

/-- Whether a `free` that starts at `ptr` finds the buddy of the block merged so far on the free
list, at each of the `n` orders from `order` on. -/
def mergesAt (b : BuddyAllocator M) : ℕ → Usize → ℕ → Bool
  | 0, _, _ => true
  | n + 1, ptr, order =>
      b.isFree (buddyOf ptr order) order == some true &&
        mergesAt b n (coalesced ptr order) (order + 1)

/-- Whether a `free` of the block would merge at its own order and at every order above it, the top
order included. -/
def mergesPastTop (b : BuddyAllocator M) (ptr : Usize) (order : ℕ) : Bool :=
  b.mergesAt (maxOrder - order) ptr order

theorem mergesAt_congr :
    ∀ (n : ℕ) (p : Usize) (k : ℕ), (∀ j q, k ≤ j → j < k + n → b'.isFree q j = b.isFree q j) →
      b'.mergesAt n p k = b.mergesAt n p k := by
  intro n
  induction n with
  | zero => exact fun _ _ _ => rfl
  | succ n ih =>
      intro p k h
      rw [mergesAt, mergesAt, h k _ le_rfl (by omega),
        ih _ (k + 1) fun j q h1 h2 => h j q (by omega) (by omega)]

omit [LinkStore Usize M] in
/-- What the last resort of `alloc` does: panic, refuse, or hand out fresh pages. -/
theorem allocFresh_cases (b : BuddyAllocator M) (order : ℕ) :
    (maxPages < b.allocator.totalPages.toNat ∧ b.allocFresh order = none) ∨
      (∃ a', b.allocator.Refuses a' ∧
        b.allocFresh order = some (.error (.memory .outOfMemory), { b with allocator := a' })) ∨
      ∃ s a', b.allocator.Grants a' s (2 ^ order) ∧
        b.allocFresh order =
          some (.ok (b.allocator.pageAddr s).addr, { b with allocator := a' }) := by
  have hpages : 1 <<< order = 2 ^ order := by rw [Nat.shiftLeft_eq, Nat.one_mul]
  rcases b.allocator.allocPages_outcome (Nat.two_pow_pos order) with
    ⟨hmax, hres⟩ | ⟨a', hres, href⟩ | ⟨s, a', hres, hgr⟩
  · exact Or.inl ⟨hmax, by simp only [allocFresh, hpages, hres]⟩
  · exact Or.inr (Or.inl ⟨a', href, by simp only [allocFresh, hpages, hres]⟩)
  · exact Or.inr (Or.inr ⟨s, a', hgr, by simp only [allocFresh, hpages, hres]⟩)

/-- With nothing on the lists of an order and the orders above, `alloc` asks for pages. -/
theorem alloc_eq_allocFresh {order : ℕ} (ho : order < maxOrder)
    (h : ∀ k, order ≤ k → k < maxOrder → b.freeLists k = none) :
    b.alloc order = b.allocFresh order := by
  have hhigher : ∀ n higherOrder, order ≤ higherOrder → higherOrder + n ≤ maxOrder →
      b.allocHigher order n higherOrder = b.allocFresh order := by
    intro n
    induction n with
    | zero => exact fun _ _ _ => rfl
    | succ n ih =>
        intro higherOrder hle hsum
        rw [allocHigher, h higherOrder hle (by omega)]
        exact ih (higherOrder + 1) (by omega) (by omega)
  rw [alloc, if_neg (not_le.2 ho), h order le_rfl ho]
  exact hhigher _ _ (Nat.le_succ order) (by omega)

/-- There is no memory left: every list is empty, and the physical allocator has no free page or
counts none. -/
def Exhausted (b : BuddyAllocator M) : Prop :=
  (∀ k < maxOrder, b.freeLists k = none) ∧
    (b.allocator.freePagesCtr = 0 ∨
      ∀ p < b.allocator.totalPages.toNat, p < maxPages → b.allocator.allocated p = true)

omit [LinkStore Usize M] in
/-- For a single page the last resort is `alloc_page`. -/
theorem allocFresh_zero (b : BuddyAllocator M) :
    b.allocFresh 0 =
      match b.allocator.allocPage with
      | (.error e, allocator) => some (.error e, { b with allocator := allocator })
      | (.ok phys, allocator) => some (.ok phys.addr, { b with allocator := allocator }) := by
  have hone : b.allocator.allocPages (1 <<< 0) = some b.allocator.allocPage := rfl
  rw [allocFresh]
  simp only [hone]
  rcases b.allocator.allocPage with ⟨e | phys, allocator⟩ <;> rfl

/-- An exhausted allocator hands out no page. -/
theorem Exhausted.alloc_ne (h : b.Exhausted) (page : Usize) (b' : BuddyAllocator M) :
    b.alloc 0 ≠ some (.ok page, b') := by
  rw [alloc_eq_allocFresh (by decide) fun k _ hk => h.1 k hk, allocFresh_zero]
  rcases b.allocator.allocPage_cases with
    ⟨-, hres⟩ | ⟨-, -, hres⟩ | ⟨hctr, p, hp, hfree, -, hres⟩
  · simp [hres]
  · simp [hres]
  · have htotal : b.allocator.totalPages.toNat ≤ p := by
      by_contra hlt
      rcases h.2 with h0 | hall
      · exact hctr h0
      · exact absurd (hall p (not_le.1 hlt) hp) (by rw [hfree]; decide)
    simp [hres, PhysicalAllocator.claim, htotal]

section Headers

variable (hfit : ∀ a : Usize, foot M a ⊆ region a pageSize)
include hfit

/-- The search over the higher orders splits the first block it finds, or finds none. -/
theorem allocHigher_cases {order : ℕ} (hrep : b.Rep ls) (hpack : Packed (freeBlocks ls)) :
    ∀ n higherOrder, order < higherOrder → higherOrder + n = maxOrder →
      (∃ p b' ls', b.allocHigher order n higherOrder = some (.ok p, b') ∧
        Recut b ls [] b' ls' [⟨p, blockBytes order⟩]) ∨
      ((∀ k, higherOrder ≤ k → k < maxOrder → b.freeLists k = none) ∧
        b.allocHigher order n higherOrder = b.allocFresh order) := by
  intro n
  induction n with
  | zero =>
      intro higherOrder _ hsum
      exact Or.inr ⟨fun k h1 h2 => by omega, rfl⟩
  | succ n ih =>
      intro higherOrder hlt hsum
      cases hfree : b.freeLists higherOrder with
      | some block =>
          have hk : higherOrder < maxOrder := by omega
          obtain ⟨ls₁, hpop⟩ :=
            Recut.pop hrep (show Packed ([] ++ freeBlocks ls) from hpack) hk hfree
          obtain ⟨b', ls', hres, hsplit⟩ :=
            splitBlock_eq hfit block higherOrder _ _ hlt.le hk hpop.rep hpop.packed
          refine Or.inl ⟨block, b', ls', ?_, hpop.trans hsplit⟩
          rw [allocHigher, hfree]
          exact hres
      | none =>
          have hrec : b.allocHigher order (n + 1) higherOrder =
              b.allocHigher order n (higherOrder + 1) := by
            rw [allocHigher, hfree]
          rw [hrec]
          rcases ih (higherOrder + 1) (by omega) (by omega) with hres | ⟨hnone, hres⟩
          · exact Or.inl hres
          · refine Or.inr ⟨fun k h1 h2 => ?_, hres⟩
            rcases Nat.lt_or_ge higherOrder k with h3 | h3
            · exact hnone k h3 h2
            · obtain rfl : k = higherOrder := by omega
              exact hfree

/-- What `alloc` does: hand out a block re-cut from the free ones, or, when no list of the order or
a higher one holds a block, ask the physical allocator. -/
theorem alloc_cases {order : ℕ} (ho : order < maxOrder) (hrep : b.Rep ls)
    (hpack : Packed (freeBlocks ls)) :
    (∃ p b' ls', b.alloc order = some (.ok p, b') ∧
        Recut b ls [] b' ls' [⟨p, blockBytes order⟩]) ∨
      ((∀ k, order ≤ k → k < maxOrder → b.freeLists k = none) ∧
        b.alloc order = b.allocFresh order) := by
  cases hfree : b.freeLists order with
  | some block =>
      obtain ⟨ls', hpop⟩ := Recut.pop hrep (show Packed ([] ++ freeBlocks ls) from hpack) ho hfree
      refine Or.inl ⟨block, _, ls', ?_, hpop⟩
      rw [alloc, if_neg (not_le.2 ho), hfree]
  | none =>
      have hres : b.alloc order = b.allocHigher order (maxOrder - (order + 1)) (order + 1) := by
        rw [alloc, if_neg (not_le.2 ho), hfree]
      rw [hres]
      rcases allocHigher_cases hfit hrep hpack (maxOrder - (order + 1)) (order + 1)
        (Nat.lt_succ_self _) (by omega) with h | ⟨hnone, h⟩
      · exact Or.inl h
      · refine Or.inr ⟨fun k h1 h2 => ?_, h⟩
        rcases Nat.lt_or_ge order k with h3 | h3
        · exact hnone k h3 h2
        · obtain rfl : k = order := by omega
          exact hfree

/-- An allocator that is not exhausted hands out a page. -/
theorem alloc_of_not_exhausted (hrep : b.Rep ls) (hpack : Packed (freeBlocks ls))
    (h : ¬b.Exhausted) : ∃ page b', b.alloc 0 = some (.ok page, b') := by
  rcases alloc_cases hfit (show 0 < maxOrder by decide) hrep hpack with
    ⟨p, b', -, hres, -⟩ | ⟨hnone, hres⟩
  · exact ⟨p, b', hres⟩
  · have hpage : ¬(b.allocator.freePagesCtr = 0 ∨ ∀ p < b.allocator.totalPages.toNat,
        p < maxPages → b.allocator.allocated p = true) :=
      fun hor => h ⟨fun k hk => hnone k (Nat.zero_le k) hk, hor⟩
    rw [not_or] at hpage
    obtain ⟨hctr, hbit⟩ := hpage
    push Not at hbit
    obtain ⟨q, hq, hqmax, hqfree⟩ := hbit
    rcases b.allocator.allocPage_cases with
      ⟨h0, -⟩ | ⟨-, hall, -⟩ | ⟨-, p, hp, hfree, hmin, hclaim⟩
    · exact absurd h0 hctr
    · exact absurd (hall q hqmax) hqfree
    · have hlt : p < b.allocator.totalPages.toNat := by
        rcases Nat.lt_or_ge q p with hqp | hqp
        · exact absurd (hmin q hqp) hqfree
        · omega
      refine ⟨(b.allocator.pageAddr p).addr, { b with allocator := (b.allocator.claim p).2 }, ?_⟩
      rw [hres, allocFresh_zero, hclaim, PhysicalAllocator.claim, if_neg (not_le.2 hlt)]

/-- What the recursion of `free` does: put the merged block on a list, or, when it merges at every
order up to the top, end with an error and a merged block that is on no list. -/
theorem freeAt_cases :
    ∀ (n k : ℕ) (p : Usize) (b : BuddyAllocator M) (ls : ℕ → List Usize), n + k = maxOrder →
      b.Rep ls → Packed ([⟨p, blockBytes k⟩] ++ freeBlocks ls) →
      (b.mergesAt n p k = false ∧ ∃ b' ls', b.freeAt n p k = some (.ok (), b') ∧
        Recut b ls [⟨p, blockBytes k⟩] b' ls' []) ∨
      (b.mergesAt n p k = true ∧ ∃ b' ls' q,
        b.freeAt n p k = some (.error (.memory .invalidSize), b') ∧
          Recut b ls [⟨p, blockBytes k⟩] b' ls' [⟨q, blockBytes maxOrder⟩]) := by
  intro n
  induction n with
  | zero =>
      intro k p b ls hsum hrep hpack
      obtain rfl : k = maxOrder := by omega
      exact Or.inr ⟨rfl, b, ls, p, rfl, .refl hrep hpack⟩
  | succ n ih =>
      intro k p b ls hsum hrep hpack
      have hk : k < maxOrder := by omega
      have hnodup : ∀ {ls : ℕ → List Usize} {j : ℕ}, Packed (freeBlocks ls) → j < maxOrder →
          (ls j).Nodup := fun hp hj => hp.pool_nodup hj (blockBytes_pos _)
      have hfree := isFree_eq (p := buddyOf p k) hrep hk (hnodup (packed_append.1 hpack).2.1 hk)
      by_cases hin : buddyOf p k ∈ ls k
      · -- the buddy is free: it is taken off its list, and the two make a block of the next order
        rw [decide_eq_true hin] at hfree
        obtain ⟨b₁, l, hres₁, hrem⟩ := Recut.remove hfit hrep hk hpack hin
        have hcut : Recut b₁ (Function.update ls k l)
            [⟨buddyOf p k, blockBytes k⟩, ⟨p, blockBytes k⟩] b₁ (Function.update ls k l)
            [⟨coalesced p k, blockBytes (k + 1)⟩] := by
          have hone : Packed [(⟨coalesced p k, blockBytes (k + 1)⟩ : Block 64)] := by
            simp [packed_cons]
          rcases coalesced_cases p hk with ⟨hc, hb⟩ | ⟨hc, hb⟩
          · refine .cut hrem.rep hrem.packed hone ?_ fun ha => ?_
            · rw [hc, hb]
              exact (packed_halves hk p).2.symm
            · rw [hc]
              simp only [allAligned_cons] at ha ⊢
              exact ⟨ha.2.1, ha.2.2⟩
          · refine .cut hrem.rep hrem.packed hone ?_ fun ha => ?_
            · rw [hc, ← (packed_halves hk (buddyOf p k)).2, ← hb]
              exact bytes_perm (.swap _ _ _)
            · rw [hc]
              simp only [allAligned_cons] at ha ⊢
              exact ⟨ha.1, ha.2.2⟩
        have hsame : b₁.mergesAt n (coalesced p k) (k + 1) =
            b.mergesAt n (coalesced p k) (k + 1) := by
          refine mergesAt_congr n _ _ fun j q h1 h2 => ?_
          have hj : j < maxOrder := by omega
          rw [isFree_eq hrem.rep hj (hnodup (packed_append.1 hrem.packed).2.1 hj),
            isFree_eq hrep hj (hnodup (packed_append.1 hpack).2.1 hj),
            Function.update_of_ne (by omega)]
        have hmerges : b.mergesAt (n + 1) p k = b.mergesAt n (coalesced p k) (k + 1) := by
          rw [mergesAt, hfree]
          rfl
        have hrun : b.freeAt (n + 1) p k = b₁.freeAt n (coalesced p k) (k + 1) := by
          rw [freeAt]
          simp only [hfree, hres₁]
        rw [hmerges, hrun, ← hsame]
        rcases ih (k + 1) (coalesced p k) b₁ _ (by omega) hcut.rep hcut.packed with
          ⟨hno, b', ls', hres, hrec⟩ | ⟨hyes, b', ls', q, hres, hrec⟩
        · exact Or.inl ⟨hno, b', ls', hres, (hrem.trans hcut).trans hrec⟩
        · exact Or.inr ⟨hyes, b', ls', q, hres, (hrem.trans hcut).trans hrec⟩
      · rw [decide_eq_false hin] at hfree
        refine Or.inl ⟨by rw [mergesAt, hfree]; rfl, b.push k p, _, ?_,
          .push hfit hrep hk hpack⟩
        rw [freeAt]
        simp only [hfree]

/-- What `free` does with a block that is not free. -/
theorem free_cases {order : ℕ} (ho : order < maxOrder) (hrep : b.Rep ls)
    (hpack : Packed ([⟨p, blockBytes order⟩] ++ freeBlocks ls)) :
    (b.mergesPastTop p order = false ∧ ∃ b' ls', b.free p order = some (.ok (), b') ∧
        Recut b ls [⟨p, blockBytes order⟩] b' ls' []) ∨
      (b.mergesPastTop p order = true ∧ ∃ b' ls' q,
        b.free p order = some (.error (.memory .invalidSize), b') ∧
          Recut b ls [⟨p, blockBytes order⟩] b' ls' [⟨q, blockBytes maxOrder⟩]) :=
  freeAt_cases hfit _ _ _ _ _ (by omega) hrep hpack

end Headers

end BuddyAllocator

end StarOS
