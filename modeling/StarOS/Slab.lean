/-
The slab allocator of `memory/heap.rs`, and what its operations do to the blocks it manages.

Nine size classes, from 8 to 2048 bytes, keep one free list each.  A class whose list is empty asks
the buddy allocator for a page, hands out its first slot and puts the other slots on the list.  The
buddy allocator its pointer designates is part of the state here.

A class may only put a block on its list when a link header fits a slot of the class.  This is an
assumption on the link store where it is needed, and it fails for headers of sixteen bytes in slots
of eight.

* `StarOS.SlabAllocator.alloc`, `StarOS.SlabAllocator.free` — the operations, with the functions
  they call;
* `StarOS.SlabPooled` — the free blocks and the free slots beside the blocks handed out;
* `StarOS.SlabPooled.alloc`, `StarOS.SlabPooled.free` — what the operations do.
-/

import StarOS.BuddyPool
import Mathlib.Tactic.IntervalCases

set_option autoImplicit false

namespace StarOS

open Region Links LinkStore BuddyAllocator

/-! ### The operations -/

/-- A `Slab`. -/
structure Slab where
  size : ℕ
  freeList : Option Usize

/-- The state of a `SlabAllocator`: its size classes, and the buddy allocator its pointer
designates. -/
structure SlabAllocator (M : Type) where
  slabs : ℕ → Slab
  buddy : BuddyAllocator M

namespace SlabAllocator

variable {M : Type} [LinkStore Usize M]

/-- The sizes `init` gives the classes. -/
def sizes : List ℕ := [8, 16, 32, 64, 128, 256, 512, 1024, 2048]

/-- `SlabAllocator::new`. -/
def new (buddy : BuddyAllocator M) : SlabAllocator M where
  slabs := fun _ => { size := 0, freeList := none }
  buddy := buddy

/-- `init`. -/
def init (s : SlabAllocator M) : SlabAllocator M :=
  { s with
    slabs := fun i =>
      match sizes[i]? with
      | some size => { s.slabs i with size := size }
      | none => s.slabs i }

/-- `size_to_slab`. -/
def sizeToSlab (size : ℕ) : ℕ :=
  let size := max size 8
  let size := nextPowerOfTwo size
  trailingZeros (BitVec.ofNat 64 size) - 3

/-- Setting the free list of a class. -/
def setFreeList (s : SlabAllocator M) (slabIdx : ℕ) (freeList : Option Usize) : SlabAllocator M :=
  { s with slabs := Function.update s.slabs slabIdx { s.slabs slabIdx with freeList := freeList } }

/-- The refill loop of `alloc`, with `n` blocks left from block `i` on. -/
def refillLoop (page : Usize) (blockSize : ℕ) : ℕ → ℕ → M → Option Usize → M × Option Usize
  | 0, _, mem, freeList => (mem, freeList)
  | n + 1, i, mem, freeList =>
      let blockPtr := page + BitVec.ofNat 64 (i * blockSize)
      refillLoop page blockSize n (i + 1) (setNext mem blockPtr freeList) (some blockPtr)

/-- `alloc`; a class whose size is still `0` panics on the division. -/
def alloc (s : SlabAllocator M) (size : ℕ) :
    Option (Except KernelError Usize × SlabAllocator M) :=
  if size = 0 ∨ 2048 < size then some (.error (.memory .invalidSize), s)
  else
    let slabIdx := sizeToSlab size
    let slab := s.slabs slabIdx
    match slab.freeList with
    | some block => some (.ok block, s.setFreeList slabIdx (getNext s.buddy.mem block))
    | none =>
        match s.buddy.alloc 0 with
        | none => none
        | some (.error e, buddy) => some (.error e, { s with buddy := buddy })
        | some (.ok page, buddy) =>
            let blockSize := slab.size
            if blockSize = 0 then none
            else
              let blocksPerPage := 4096 / blockSize
              let r := refillLoop page blockSize (blocksPerPage - 1) 1 buddy.mem slab.freeList
              some (.ok page,
                { s.setFreeList slabIdx r.2 with buddy := { buddy with mem := r.1 } })

/-- `free`. -/
def free (s : SlabAllocator M) (ptr : Usize) (size : ℕ) :
    Except KernelError Unit × SlabAllocator M :=
  if size = 0 ∨ 2048 < size then (.error (.memory .invalidSize), s)
  else
    let slabIdx := sizeToSlab size
    let slab := s.slabs slabIdx
    (.ok (),
      { s.setFreeList slabIdx (some ptr) with
        buddy := { s.buddy with mem := setNext s.buddy.mem ptr slab.freeList } })

end SlabAllocator

/-! ### Size classes -/

/-- The number of size classes. -/
def slabClasses : ℕ := 9

/-- The bytes of a slot of a class. -/
def slotBytes (i : ℕ) : ℕ := 8 <<< i

theorem slotBytes_eq (i : ℕ) : slotBytes i = 2 ^ (3 + i) := by
  rw [slotBytes, Nat.shiftLeft_eq, Nat.pow_add]

theorem slotBytes_pos (i : ℕ) : 0 < slotBytes i := by
  rw [slotBytes_eq]
  exact Nat.two_pow_pos _

/-- The slots of a page fill it. -/
theorem slotBytes_mul {i : ℕ} (hi : i < slabClasses) :
    4096 / slotBytes i * slotBytes i = pageSize ∧ 2 ≤ 4096 / slotBytes i := by
  unfold slabClasses at hi
  interval_cases i <;> decide

/-- `size_to_slab` picks the least class whose slots are large enough. -/
theorem sizeToSlab_spec {size : ℕ} (h : size ≤ 2048) :
    SlabAllocator.sizeToSlab size < slabClasses ∧
      slotBytes (SlabAllocator.sizeToSlab size) = nextPowerOfTwo (max size 8) := by
  have hlow : 3 ≤ Nat.clog 2 (max size 8) := le_clog_of_le (le_max_right size 8)
  have hhigh : Nat.clog 2 (max size 8) ≤ 11 := by
    refine clog_le_of_le ?_
    omega
  have hidx : SlabAllocator.sizeToSlab size = Nat.clog 2 (max size 8) - 3 := by
    rw [SlabAllocator.sizeToSlab, nextPowerOfTwo, trailingZeros_two_pow (by omega)]
  refine ⟨?_, ?_⟩
  · unfold slabClasses
    omega
  · rw [hidx, slotBytes_eq, nextPowerOfTwo, Nat.add_sub_cancel' hlow]

theorem le_slotBytes {size : ℕ} (h : size ≤ 2048) :
    size ≤ slotBytes (SlabAllocator.sizeToSlab size) := by
  rw [(sizeToSlab_spec h).2]
  exact (le_max_left size 8).trans (le_nextPowerOfTwo _)

/-! ### Free slots -/

/-- The free slots. -/
abbrev freeSlots (fs : ℕ → List Usize) : List (Block 64) := pool slotBytes slabClasses fs

/-- Every link header fits into `n` bytes. -/
def HeaderFits (M : Type) [LinkStore Usize M] (n : ℕ) : Prop := ∀ a : Usize, foot M a ⊆ region a n

/-- The slots of a page that a refill puts on the list, in list order. -/
def refillSlots (page : Usize) (i : ℕ) : List Usize :=
  slots page (slotBytes i) 1 (4096 / slotBytes i - 1)

variable {M : Type} [LinkStore Usize M]

theorem refillLoop_eq (page : Usize) (blockSize : ℕ) :
    ∀ (n i : ℕ) (mem : M) (freeList : Option Usize),
      SlabAllocator.refillLoop page blockSize n i mem freeList =
        pushAll mem freeList (slots page blockSize i n) := by
  intro n
  induction n with
  | zero => exact fun _ _ _ => rfl
  | succ n ih =>
      intro i mem freeList
      rw [SlabAllocator.refillLoop, ih, slots_succ, pushAll]

/-- A page is its first slot and the slots of the refill. -/
theorem page_slots (page : Usize) {i : ℕ} (hi : i < slabClasses) :
    Packed ((page :: refillSlots page i).map fun a => (⟨a, slotBytes i⟩ : Block 64)) ∧
      bytes ((page :: refillSlots page i).map fun a => (⟨a, slotBytes i⟩ : Block 64)) =
        bytes [⟨page, blockBytes 0⟩] := by
  obtain ⟨hmul, hge⟩ := slotBytes_mul hi
  have hcons : page :: refillSlots page i = slots page (slotBytes i) 0 (4096 / slotBytes i) := by
    obtain ⟨n, hn⟩ : ∃ n, 4096 / slotBytes i = n + 1 := ⟨4096 / slotBytes i - 1, by omega⟩
    rw [refillSlots, hn, slots_succ, Nat.zero_mul, Nat.add_sub_cancel]
    simp
  have hbound : (0 + 4096 / slotBytes i) * slotBytes i ≤ 2 ^ 64 := by
    rw [Nat.zero_add, hmul]
    decide
  obtain ⟨hp, hb⟩ := packed_slots page hbound
  rw [hmul, Nat.zero_mul] at hb
  rw [hcons]
  refine ⟨hp, hb.trans ?_⟩
  simp [Block.range, blockBytes, pageSize]

/-- The free blocks, the free slots and the blocks `rest` beside them cover exactly the bytes
obtained since `allocator`, each byte once, and both allocators' lists spell out the free ones. -/
structure SlabPooled (allocator : PhysicalAllocator) (s : SlabAllocator M) (ls fs : ℕ → List Usize)
    (rest : List (Block 64)) : Prop where
  pooled : Pooled allocator s.buddy ls (freeSlots fs ++ rest)
  sizes : ∀ i < slabClasses, (s.slabs i).size = slotBytes i
  lists : ∀ i < slabClasses, IsList s.buddy.mem (s.slabs i).freeList (fs i)
  fits : ∀ i < slabClasses, fs i ≠ [] → HeaderFits M (slotBytes i)
  aligned : PageAligned allocator.baseAddr.addr →
    ∀ i < slabClasses, ∀ a ∈ fs i, slotBytes i ∣ a.toNat

namespace SlabPooled

variable {allocator : PhysicalAllocator} {s : SlabAllocator M} {ls ls' fs : ℕ → List Usize}
  {rest rest' : List (Block 64)} {p page : Usize} {i : ℕ}

/-- A new slab allocator has no free slots. -/
theorem init {b : BuddyAllocator M} (h : Pooled allocator b ls rest) :
    SlabPooled allocator (SlabAllocator.new b).init ls (fun _ => []) rest where
  pooled := by
    have hnil : freeSlots (fun _ => []) = [] := by simp [freeSlots, pool]
    rw [hnil]
    exact h
  sizes := by
    unfold slabClasses
    intro i hi
    interval_cases i <;> rfl
  lists := by
    unfold slabClasses
    intro i hi
    interval_cases i <;> rfl
  fits i _ h := absurd rfl h
  aligned _ i _ a ha := absurd ha (by simp)

theorem perm (h : SlabPooled allocator s ls fs rest) (hp : rest.Perm rest') :
    SlabPooled allocator s ls fs rest' where
  pooled := h.pooled.perm (hp.append_left _)
  sizes := h.sizes
  lists := h.lists
  fits := h.fits
  aligned := h.aligned

/-- The header of a free slot lies among the free slots. -/
theorem foot_subset (h : SlabPooled allocator s ls fs rest) (hi : i < slabClasses) (hp : p ∈ fs i) :
    foot M p ⊆ bytes (freeSlots fs) := by
  have hfree : (⟨p, slotBytes i⟩ : Block 64) ∈ freeSlots fs := mem_pool.2 ⟨i, hi, p, hp, rfl⟩
  exact (h.fits i hi (List.ne_nil_of_mem hp) p).trans (region_subset_bytes hfree)

/-- A change of the buddy allocator that writes beside the free slots leaves the slab lists. -/
theorem withBuddy (h : SlabPooled allocator s ls fs rest) {b' : BuddyAllocator M} {S : Set Usize}
    (hp : Pooled allocator b' ls' (freeSlots fs ++ rest')) (hk : Keeps s.buddy.mem b'.mem S)
    (hS : Disjoint (bytes (freeSlots fs)) S) :
    SlabPooled allocator { s with buddy := b' } ls' fs rest' where
  pooled := hp
  sizes := h.sizes
  lists i hi := hk.isList (h.lists i hi) fun _ ha =>
    Set.disjoint_of_subset_left (h.foot_subset hi ha) hS
  fits := h.fits
  aligned := h.aligned

/-- The free slots lie beside the free blocks and beside the blocks handed out. -/
theorem disjoint_slots (h : SlabPooled allocator s ls fs rest) :
    Disjoint (bytes (freeSlots fs)) (bytes (freeBlocks ls)) ∧
      Disjoint (bytes (freeSlots fs)) (bytes rest) := by
  obtain ⟨-, h1, h2⟩ := packed_append.1 h.pooled.packed
  rw [bytes_append, Set.disjoint_union_right] at h2
  exact ⟨h2.1.symm, (packed_append.1 h1).2.2⟩

/-- The holder of blocks may write to them. -/
theorem withMem (hfit : HeaderFits M pageSize) (h : SlabPooled allocator s ls fs rest) {mem : M}
    (hm : Keeps s.buddy.mem mem (bytes rest)) :
    SlabPooled allocator { s with buddy := { s.buddy with mem := mem } } ls fs rest := by
  refine h.withBuddy (h.pooled.withMem hfit (hm.mono ?_)) hm h.disjoint_slots.2
  rw [bytes_append]
  exact Set.subset_union_right

/-- Taking the head off a class's list. -/
theorem pop (h : SlabPooled allocator s ls fs rest) (hi : i < slabClasses) {l : List Usize}
    (hl : fs i = p :: l) :
    (s.slabs i).freeList = some p ∧
      SlabPooled allocator (s.setFreeList i (getNext s.buddy.mem p)) ls (Function.update fs i l)
        (⟨p, slotBytes i⟩ :: rest) := by
  have hlist := h.lists i hi
  rw [hl] at hlist
  have hperm := pool_perm slotBytes hi (List.Perm.of_eq hl)
  refine ⟨hlist.1, h.pooled.perm ((hperm.append_right rest).trans List.perm_middle.symm), ?_, ?_,
    ?_, ?_⟩
  · intro j hj
    by_cases hji : j = i
    · subst hji
      simpa [SlabAllocator.setFreeList] using h.sizes j hj
    · simpa [SlabAllocator.setFreeList, hji] using h.sizes j hj
  · intro j hj
    by_cases hji : j = i
    · subst hji
      simpa [SlabAllocator.setFreeList] using hlist.2
    · simpa [SlabAllocator.setFreeList, hji] using h.lists j hj
  · intro j hj hne
    by_cases hji : j = i
    · subst hji
      exact h.fits j hj (by rw [hl]; simp)
    · exact h.fits j hj (by rwa [Function.update_of_ne hji] at hne)
  · intro hbase j hj a ha
    by_cases hji : j = i
    · subst hji
      rw [Function.update_self] at ha
      exact h.aligned hbase j hj a (by rw [hl]; exact List.mem_cons_of_mem _ ha)
    · exact h.aligned hbase j hj a (by rwa [Function.update_of_ne hji] at ha)

/-- A state after blocks have been put in front of a class's list. -/
def pushed (s : SlabAllocator M) (i : ℕ) (as : List Usize) : SlabAllocator M :=
  let r := pushAll s.buddy.mem (s.slabs i).freeList as
  { s.setFreeList i r.2 with buddy := { s.buddy with mem := r.1 } }

theorem stores_pushed (s : SlabAllocator M) (i : ℕ) (as : List Usize) :
    Stores s.buddy.mem as (pushed s i as).buddy.mem := stores_pushAll _ _ as

/-- Putting slots handed in in front of a class's list, provided that headers fit the slots. -/
theorem push (hfit : HeaderFits M pageSize) (hslot : HeaderFits M (slotBytes i)) {as : List Usize}
    (h : SlabPooled allocator s ls fs (as.map (fun a => ⟨a, slotBytes i⟩) ++ rest))
    (hi : i < slabClasses)
    (ha : PageAligned allocator.baseAddr.addr → ∀ a ∈ as, slotBytes i ∣ a.toNat) :
    SlabPooled allocator (pushed s i as) ls (Function.update fs i (as.reverse ++ fs i)) rest ∧
      Stores s.buddy.mem as (pushed s i as).buddy.mem := by
  have hstores := stores_pushAll s.buddy.mem (s.slabs i).freeList as
  have hpushed : ∀ a ∈ as, foot M a ⊆ bytes (as.map fun a => (⟨a, slotBytes i⟩ : Block 64)) := by
    intro a ha
    have hmem : (⟨a, slotBytes i⟩ : Block 64) ∈ as.map fun a => ⟨a, slotBytes i⟩ :=
      List.mem_map.2 ⟨a, ha, rfl⟩
    exact (hslot a).trans (region_subset_bytes hmem)
  have hkeeps := hstores.keeps hpushed
  obtain ⟨hown, -, -⟩ := packed_append.1 (packed_append.1 (packed_append.1 h.pooled.packed).2.1).2.1
  have hbeside := h.disjoint_slots.2
  rw [bytes_append, Set.disjoint_union_right] at hbeside
  have hperm := pool_push_append slotBytes fs hi
    (show (as.reverse ++ fs i).Perm (as ++ fs i) from as.reverse_perm.append_right _)
  have hmem := hkeeps.mono (T := bytes (freeSlots fs ++
    (as.map (fun a => ⟨a, slotBytes i⟩) ++ rest))) (by
      rw [bytes_append, bytes_append]
      exact Set.subset_union_left.trans Set.subset_union_right)
  refine ⟨⟨(h.pooled.withMem hfit hmem).perm ?_, ?_, ?_, ?_, ?_⟩, hstores⟩
  · rw [← List.append_assoc]
    exact (List.perm_append_comm.trans hperm.symm).append_right rest
  · intro j hj
    by_cases hji : j = i
    · subst hji
      simpa [pushed, SlabAllocator.setFreeList] using h.sizes j hj
    · simpa [pushed, SlabAllocator.setFreeList, hji] using h.sizes j hj
  · intro j hj
    by_cases hji : j = i
    · subst hji
      have hfeet : as.Pairwise fun a b => Disjoint (foot M a) (foot M b) :=
        (List.pairwise_map.1 hown).imp fun {a b} hd =>
          Set.disjoint_of_subset (hslot a) (hslot b) hd
      have hlist := (h.lists j hj).pushAll hfeet fun a ha b hb =>
        Set.disjoint_of_subset (h.foot_subset hj hb) (hpushed a ha) hbeside.1
      simpa [pushed, SlabAllocator.setFreeList] using hlist
    · have hlist := hkeeps.isList (h.lists j hj) fun b hb =>
        Set.disjoint_of_subset_left (h.foot_subset hj hb) hbeside.1
      simpa [pushed, SlabAllocator.setFreeList, hji] using hlist
  · intro j hj hne
    by_cases hji : j = i
    · rw [hji]
      exact hslot
    · exact h.fits j hj (by rwa [Function.update_of_ne hji] at hne)
  · intro hbase j hj a hmem
    by_cases hji : j = i
    · subst hji
      rw [Function.update_self, List.mem_append, List.mem_reverse] at hmem
      exact hmem.elim (ha hbase a) (h.aligned hbase j hj a)
    · exact h.aligned hbase j hj a (by rwa [Function.update_of_ne hji] at hmem)

/-! ### What the calls do -/

/-- The slots of a page-aligned page are aligned to their size. -/
theorem dvd_refillSlots (hi : i < slabClasses) (hp : PageAligned page) :
    slotBytes i ∣ page.toNat ∧ ∀ a ∈ refillSlots page i, slotBytes i ∣ a.toNat := by
  have hpage : slotBytes i ∣ pageSize := ⟨4096 / slotBytes i, by
    rw [Nat.mul_comm]
    exact (slotBytes_mul hi).1.symm⟩
  refine ⟨hpage.trans hp, fun a ha => ?_⟩
  obtain ⟨j, -, -, rfl⟩ := mem_slots.1 ha
  have hpow : slotBytes i ∣ 2 ^ 64 := hpage.trans (by decide)
  rw [BitVec.toNat_add, BitVec.toNat_ofNat, Nat.add_mod_mod]
  exact (Nat.dvd_mod_iff hpow).2 (Nat.dvd_add (hpage.trans hp) (Nat.dvd_mul_left _ _))

section Calls

variable {size : ℕ} (hlow : 0 < size) (hhigh : size ≤ 2048)
include hlow hhigh

/-- `alloc` with a block on the class's list. -/
theorem alloc_hit (h : SlabPooled allocator s ls fs rest) {l : List Usize}
    (hl : fs (SlabAllocator.sizeToSlab size) = p :: l) :
    ∃ s', s.alloc size = some (.ok p, s') ∧ s'.buddy = s.buddy ∧
      SlabPooled allocator s' ls (Function.update fs (SlabAllocator.sizeToSlab size) l)
        (⟨p, slotBytes (SlabAllocator.sizeToSlab size)⟩ :: rest) := by
  obtain ⟨hfree, hpop⟩ := h.pop (sizeToSlab_spec hhigh).1 hl
  refine ⟨s.setFreeList (SlabAllocator.sizeToSlab size) (getNext s.buddy.mem p), ?_, rfl, hpop⟩
  rw [SlabAllocator.alloc, if_neg (by omega)]
  simp only [hfree]

/-- `alloc` with an empty list, once the buddy allocator has provided a page. -/
theorem alloc_refill_eq {b' : BuddyAllocator M}
    (hl : (s.slabs (SlabAllocator.sizeToSlab size)).freeList = none)
    (hsize : (s.slabs (SlabAllocator.sizeToSlab size)).size =
      slotBytes (SlabAllocator.sizeToSlab size))
    (hres : s.buddy.alloc 0 = some (.ok page, b')) :
    s.alloc size = some (.ok page,
      pushed { s with buddy := b' } (SlabAllocator.sizeToSlab size)
        (refillSlots page (SlabAllocator.sizeToSlab size))) := by
  rw [SlabAllocator.alloc, if_neg (by omega)]
  simp only [hl, hres, hsize, if_neg (slotBytes_pos _).ne', refillLoop_eq]
  rw [pushed, hl]
  rfl

/-- The refill keeps the free blocks and slots, provided that headers fit the slots. -/
theorem alloc_refill (hfit : HeaderFits M pageSize) {b' : BuddyAllocator M} {ws : List Usize}
    (hslot : HeaderFits M (slotBytes (SlabAllocator.sizeToSlab size)))
    (h : SlabPooled allocator s ls fs rest) (hl : fs (SlabAllocator.sizeToSlab size) = [])
    (hres : s.buddy.alloc 0 = some (.ok page, b'))
    (hp : Pooled allocator b' ls' (⟨page, blockBytes 0⟩ :: (freeSlots fs ++ rest)))
    (hs : Stores s.buddy.mem ws b'.mem)
    (hw : ∀ w ∈ ws, region w pageSize ⊆ bytes (freeBlocks ls))
    (ha : PageAligned allocator.baseAddr.addr → PageAligned page) :
    ∃ s', s.alloc size = some (.ok page, s') ∧
      SlabPooled allocator s' ls'
        (Function.update fs (SlabAllocator.sizeToSlab size)
          (refillSlots page (SlabAllocator.sizeToSlab size)).reverse)
        (⟨page, slotBytes (SlabAllocator.sizeToSlab size)⟩ :: rest) ∧
      Stores s.buddy.mem (ws ++ refillSlots page (SlabAllocator.sizeToSlab size)) s'.buddy.mem := by
  have hi := (sizeToSlab_spec hhigh).1
  set i := SlabAllocator.sizeToSlab size with hidx
  have hempty : (s.slabs i).freeList = none := by
    have hlist := h.lists i hi
    rwa [hl] at hlist
  obtain ⟨hslots, hbytes⟩ := page_slots page hi
  -- the page is cut into its slots, and all but the first go on the list
  have hcut : Pooled allocator b' ls' (freeSlots fs ++
      ((refillSlots page i).map (fun a => ⟨a, slotBytes i⟩) ++ ⟨page, slotBytes i⟩ :: rest)) := by
    have hone : Pooled allocator b' ls' ([⟨page, blockBytes 0⟩] ++ (freeSlots fs ++ rest)) := hp
    refine (hone.recut hslots hbytes).perm ?_
    rw [List.map_cons, List.cons_append]
    refine (List.Perm.cons _ (List.perm_append_comm_assoc _ _ _)).trans ?_
    refine List.perm_middle.symm.trans (List.Perm.append_left _ ?_)
    exact List.perm_middle.symm
  have hkeeps := hs.keeps fun w hmem => (hfit w).trans (hw w hmem)
  have hb := h.withBuddy hcut hkeeps h.disjoint_slots.1
  obtain ⟨hpush, hstores⟩ := hb.push hfit hslot hi fun hbase => (dvd_refillSlots hi (ha hbase)).2
  rw [hl, List.append_nil] at hpush
  exact ⟨_, alloc_refill_eq hlow hhigh hempty (h.sizes i hi) hres, hpush, hs.trans hstores⟩

/-- `alloc` with an empty list, when the buddy allocator refuses or panics. -/
theorem alloc_refused (h : SlabPooled allocator s ls fs rest)
    (hl : fs (SlabAllocator.sizeToSlab size) = []) :
    (∀ e b', s.buddy.alloc 0 = some (.error e, b') →
        s.alloc size = some (.error e, { s with buddy := b' })) ∧
      (s.buddy.alloc 0 = none → s.alloc size = none) := by
  have hempty : (s.slabs (SlabAllocator.sizeToSlab size)).freeList = none := by
    have hlist := h.lists _ (sizeToSlab_spec hhigh).1
    rwa [hl] at hlist
  refine ⟨fun e b' hres => ?_, fun hres => ?_⟩
  all_goals
    rw [SlabAllocator.alloc, if_neg (by omega)]
    simp only [hempty, hres]

/-- What `alloc` does when headers fit the slots of the class: hand out a slot, refuse, or panic
with the buddy allocator. -/
theorem alloc (hfit : HeaderFits M pageSize)
    (hslot : HeaderFits M (slotBytes (SlabAllocator.sizeToSlab size)))
    (h : SlabPooled allocator s ls fs rest) :
    (∃ p s' ls' fs', s.alloc size = some (.ok p, s') ∧
        SlabPooled allocator s' ls' fs'
          (⟨p, slotBytes (SlabAllocator.sizeToSlab size)⟩ :: rest) ∧
        (PageAligned allocator.baseAddr.addr →
          slotBytes (SlabAllocator.sizeToSlab size) ∣ p.toNat)) ∨
      (∃ e s', s.alloc size = some (.error e, s') ∧ SlabPooled allocator s' ls fs rest) ∨
      (maxPages < allocator.totalPages.toNat ∧ s.alloc size = none) := by
  have hi := (sizeToSlab_spec hhigh).1
  cases hl : fs (SlabAllocator.sizeToSlab size) with
  | cons p l =>
      obtain ⟨s', hres, -, hpool⟩ := alloc_hit hlow hhigh h hl
      refine Or.inl ⟨p, s', ls, _, hres, hpool, fun hbase => ?_⟩
      exact h.aligned hbase _ hi p (by rw [hl]; exact List.mem_cons_self ..)
  | nil =>
      obtain ⟨herror, hnone⟩ := alloc_refused hlow hhigh h hl
      rcases h.pooled.alloc hfit (show 0 < maxOrder by decide) with
        ⟨page, b', ls', ws, hres, hp, ha, hs, hw⟩ | ⟨b', hres, hp, hmem⟩ | ⟨hmax, hres⟩
      · obtain ⟨s', hres', hpool, -⟩ := alloc_refill hlow hhigh hfit hslot h hl hres hp hs hw ha
        exact Or.inl ⟨page, s', ls', _, hres', hpool, fun hbase =>
          (dvd_refillSlots hi (ha hbase)).1⟩
      · refine Or.inr (Or.inl ⟨_, _, herror _ _ hres, ?_⟩)
        refine h.withBuddy hp (S := ∅) (fun a _ => by rw [hmem]) (Set.disjoint_empty _)
      · exact Or.inr (Or.inr ⟨hmax, hnone hres⟩)

/-- `free` of a slot handed in, provided that headers fit the slot. -/
theorem free (hfit : HeaderFits M pageSize)
    (hslot : HeaderFits M (slotBytes (SlabAllocator.sizeToSlab size)))
    (h : SlabPooled allocator s ls fs (⟨p, slotBytes (SlabAllocator.sizeToSlab size)⟩ :: rest))
    (ha : PageAligned allocator.baseAddr.addr →
      slotBytes (SlabAllocator.sizeToSlab size) ∣ p.toNat) :
    ∃ s', s.free p size = (.ok (), s') ∧
      SlabPooled allocator s' ls
        (Function.update fs (SlabAllocator.sizeToSlab size)
          (p :: fs (SlabAllocator.sizeToSlab size))) rest ∧
      Stores s.buddy.mem [p] s'.buddy.mem := by
  have hi := (sizeToSlab_spec hhigh).1
  have hone : SlabPooled allocator s ls fs
      ([p].map (fun a => ⟨a, slotBytes (SlabAllocator.sizeToSlab size)⟩) ++ rest) := h
  obtain ⟨hpush, hstores⟩ := hone.push hfit hslot hi fun hbase a hmem => by
    rw [List.mem_singleton.1 hmem]
    exact ha hbase
  refine ⟨_, ?_, hpush, hstores⟩
  rw [SlabAllocator.free, if_neg (by omega)]
  rfl

end Calls

/-! ### Calls of the buddy allocator beside the slabs -/

/-- A call of the buddy allocator's `alloc` beside the slab lists. -/
theorem buddyAlloc (hfit : HeaderFits M pageSize) (h : SlabPooled allocator s ls fs rest)
    {order : ℕ} (ho : order < maxOrder) :
    (∃ p b' ls', s.buddy.alloc order = some (.ok p, b') ∧
        SlabPooled allocator { s with buddy := b' } ls' fs (⟨p, blockBytes order⟩ :: rest) ∧
        (PageAligned allocator.baseAddr.addr → PageAligned p)) ∨
      (∃ e b', s.buddy.alloc order = some (.error e, b') ∧
        SlabPooled allocator { s with buddy := b' } ls fs rest) ∨
      (maxPages < allocator.totalPages.toNat ∧ s.buddy.alloc order = none) := by
  rcases h.pooled.alloc hfit ho with
    ⟨p, b', ls', ws, hres, hp', ha, hs, hw⟩ | ⟨b', hres, hp', hmem⟩ | ⟨hmax, hres⟩
  · refine Or.inl ⟨p, b', ls', hres, ?_, ha⟩
    exact h.withBuddy (hp'.perm List.perm_middle.symm)
      (hs.keeps fun w hmem => (hfit w).trans (hw w hmem)) h.disjoint_slots.1
  · refine Or.inr (Or.inl ⟨_, b', hres, ?_⟩)
    exact h.withBuddy hp' (S := ∅) (fun a _ => by rw [hmem]) (Set.disjoint_empty _)
  · exact Or.inr (Or.inr ⟨hmax, hres⟩)

/-- A call of the buddy allocator's `free` beside the slab lists; a merged block may get lost. -/
theorem buddyFree (hfit : HeaderFits M pageSize) {order : ℕ}
    (h : SlabPooled allocator s ls fs (⟨p, blockBytes order⟩ :: rest)) (ho : order < maxOrder)
    (ha : PageAligned allocator.baseAddr.addr → PageAligned p) :
    ∃ r b' ls' lost, s.buddy.free p order = some (r, b') ∧
      SlabPooled allocator { s with buddy := b' } ls' fs (lost ++ rest) := by
  have hpool := h.pooled.perm (List.perm_middle)
  obtain ⟨r, b', ls', ws, lost, hres, hp', -, -, hs, hw⟩ := hpool.free hfit ho ha
  refine ⟨r, b', ls', lost, hres, ?_⟩
  refine h.withBuddy (hp'.perm (List.perm_append_comm_assoc _ _ _))
    (hs.keeps fun w hmem => (hfit w).trans (hw w hmem)) ?_
  rw [bytes_cons, Set.disjoint_union_right]
  exact ⟨Set.disjoint_of_subset_right (range_subset_bytes (List.mem_cons_self ..))
    h.disjoint_slots.2, h.disjoint_slots.1⟩

end SlabPooled

end StarOS
