/-
The slab allocator's list headers, in the bytes of the blocks themselves.

The memory is byte-addressed and a header takes sixteen bytes.  A run starts from a new slab
allocator over a buddy allocator in any consistent state, and its steps are calls of the slab
allocator, calls of the buddy allocator by others, and arbitrary stores of an owner inside its
block.  The memory remembers every header write, so a call's header writes are those it adds.

A slot of eight bytes cannot hold a header: the refill of the smallest class writes every header
over the next slot as well, and the last one over the end of the page.  As long as that class gets
no page, every header write lies inside the slot that goes on the list and inside its page, no write
touches a live block, and every free list read off the memory holds exactly the slots of the class's
pages that are not live.

* `StarOS.slabSystem`, `StarOS.SparesSmallest` — the runs, and the guard;
* `StarOS.AllocInside`, `StarOS.FreeInside`, `StarOS.WalksFree` — what the header writes of a call
  and the lists should satisfy;
* `StarOS.slab_headers_inside` — they do, and which calls of `alloc` do not;
* `StarOS.slab_header_outside` — the first allocation of eight bytes.
-/

import StarOS.Slab
import StarOS.ByteMem
import StarOS.Runs

set_option autoImplicit false

namespace StarOS

open Region Links LinkStore BuddyAllocator

/-! ### The runs -/

/-- A slab allocator together with the live blocks of its clients, each with the size it was asked
for, the pages each class has been given, and the live blocks of the buddy allocator's other
clients, each with its order. -/
structure SlabRun where
  slab : SlabAllocator ByteMem
  live : List (Usize × ℕ)
  pages : ℕ → List Usize
  large : List (Usize × ℕ)

namespace SlabRun

/-- The header writes so far. -/
def headerWrites (s : SlabRun) : List Usize := s.slab.buddy.mem.headerWrites

/-- The slot that serves a live block of the slab allocator. -/
def slot (e : Usize × ℕ) : Block 64 := ⟨e.1, slotBytes (SlabAllocator.sizeToSlab e.2)⟩

/-- A live block of the buddy allocator. -/
def largeBlock (e : Usize × ℕ) : Block 64 := ⟨e.1, blockBytes e.2⟩

/-- The memory of the live blocks. -/
def owned (s : SlabRun) : List (Block 64) := s.live.map slot ++ s.large.map largeBlock

/-- The live blocks of a class. -/
def liveOf (live : List (Usize × ℕ)) (i : ℕ) : List Usize :=
  (live.filter fun e => SlabAllocator.sizeToSlab e.2 = i).map Prod.fst

/-- The slots of the pages a class has been given. -/
def slotsOf (pages : List Usize) (i : ℕ) : List Usize :=
  pages.flatMap fun page => page :: refillSlots page i

end SlabRun

open SlabRun

/-- A step of a run. -/
inductive SlabOp where
  | alloc (size : ℕ)
  | free (ptr : Usize) (size : ℕ)
  | buddyAlloc (order : ℕ)
  | buddyFree (ptr : Usize) (order : ℕ)
  | store (block : Block 64)

/-- A call that returns, or a store by the owner of a live block. -/
def SlabOp.step (s : SlabRun) : SlabOp → SlabRun → Prop
  | alloc size, s' =>
      ∃ slab,
        ((∃ e, s.slab.alloc size = some (.error e, slab)) ∧ s' = { s with slab := slab }) ∨
          ∃ p, s.slab.alloc size = some (.ok p, slab) ∧
            s' = { s with
              slab := slab
              live := (p, size) :: s.live
              -- a call that finds no block on the list gives the class a page
              pages :=
                let i := SlabAllocator.sizeToSlab size
                if (s.slab.slabs i).freeList = none then Function.update s.pages i (p :: s.pages i)
                else s.pages }
  | free ptr size, s' =>
      (ptr, size) ∈ s.live ∧
        s' = { s with slab := (s.slab.free ptr size).2, live := s.live.erase (ptr, size) }
  | buddyAlloc order, s' =>
      order < maxOrder ∧ ∃ buddy,
        ((∃ e, s.slab.buddy.alloc order = some (.error e, buddy)) ∧
            s' = { s with slab := { s.slab with buddy := buddy } }) ∨
          ∃ p, s.slab.buddy.alloc order = some (.ok p, buddy) ∧
            s' = { s with
              slab := { s.slab with buddy := buddy }
              large := (p, order) :: s.large }
  | buddyFree ptr order, s' =>
      (ptr, order) ∈ s.large ∧ ∃ r buddy, s.slab.buddy.free ptr order = some (r, buddy) ∧
        s' = { s with
          slab := { s.slab with buddy := buddy }
          large := s.large.erase (ptr, order) }
  | store block, s' =>
      block ∈ s.owned ∧ ∃ mem, s.slab.buddy.mem.Stored mem block.range ∧
        s' = { s with slab := { s.slab with buddy := { s.slab.buddy with mem := mem } } }

/-- The runs of a new slab allocator over a buddy allocator in any consistent state. -/
def slabSystem (allocator : PhysicalAllocator) : Runs.System SlabRun SlabOp where
  init := fun s => ∃ b ls rest, Pooled allocator b ls rest ∧
    s = ⟨(SlabAllocator.new b).init, [], fun _ => [], []⟩
  step := fun s op s' => op.step s s'

/-- The guard: the class of eight-byte slots is asked for a block only when there is no memory left
to give it. -/
def SparesSmallest (s : SlabRun) : SlabOp → Prop
  | .alloc size => 0 < size → size ≤ 8 → s.slab.buddy.Exhausted
  | _ => True

/-! ### What is to be shown -/

/-- The header at `w` lies inside its slot, and the slot inside its page. -/
def HeaderInside (slot : ℕ) (page w : Usize) : Prop :=
  region w headerBytes ⊆ region w slot ∧ region w slot ⊆ region page pageSize

/-- What holds of the header writes of a call of `alloc`.  It writes the headers `ws₁` while the
buddy allocator provides the page, in blocks of a page at least, and then the headers `ws₂` of the
slots that go on the list.  No write touches a live block. -/
def AllocInside (s : SlabRun) (size : ℕ) : Prop :=
  ∀ r s', s.slab.alloc size = some (r, s') → ∃ ws₁ ws₂,
    s'.buddy.mem.headerWrites = s.headerWrites ++ (ws₁ ++ ws₂) ∧
    (ws₁ ≠ [] → ∃ r' b', s.slab.buddy.alloc 0 = some (r', b') ∧
      b'.mem.headerWrites = s.headerWrites ++ ws₁) ∧
    (∀ w ∈ ws₁, ∀ B ∈ s.owned, Disjoint (region w pageSize) B.range) ∧
    ∀ w ∈ ws₂, (∃ page, r = .ok page ∧
        HeaderInside (slotBytes (SlabAllocator.sizeToSlab size)) page w) ∧
      ∀ B ∈ s.owned, Disjoint (region w headerBytes) B.range

/-- What holds of the header write of a call of `free`: there is one, inside the slot and its page,
and it touches no other live block. -/
def FreeInside (s : SlabRun) (e : Usize × ℕ) : Prop :=
  ∃ s', s.slab.free e.1 e.2 = (.ok (), s') ∧
    s'.buddy.mem.headerWrites = s.headerWrites ++ [e.1] ∧
    (∃ page ∈ s.pages (SlabAllocator.sizeToSlab e.2),
      HeaderInside (slotBytes (SlabAllocator.sizeToSlab e.2)) page e.1) ∧
    ∀ B ∈ (s.live.erase e).map slot ++ s.large.map largeBlock,
      Disjoint (region e.1 headerBytes) B.range

/-- Each class's list, read off the memory, holds exactly the slots of the class's pages that are
not live, each once. -/
def WalksFree (s : SlabRun) : Prop :=
  ∀ i < slabClasses, ∃ l, walk s.slab.buddy.mem walkFuel (s.slab.slabs i).freeList = some l ∧
    l.Nodup ∧ (l ++ liveOf s.live i).Perm (slotsOf (s.pages i) i)

/-! ### The invariant -/

theorem headerFits_byteMem {n : ℕ} (hn : headerBytes ≤ n) : HeaderFits ByteMem n :=
  fun a => region_mono a hn

/-- What holds of every state of a run in which the smallest class gets no page. -/
structure SlabInv (allocator : PhysicalAllocator) (s : SlabRun) (ls fs : ℕ → List Usize)
    (lost : List (Block 64)) : Prop where
  pooled : SlabPooled allocator s.slab ls fs (s.owned ++ lost)
  slots : ∀ i < slabClasses, (fs i ++ liveOf s.live i).Perm (slotsOf (s.pages i) i)
  smallest : s.pages 0 = []
  sizes : ∀ e ∈ s.live, 8 < e.2 ∧ e.2 ≤ 2048
  orders : ∀ e ∈ s.large, e.2 < maxOrder
  aligned : PageAligned allocator.baseAddr.addr →
    (∀ e ∈ s.live, slotBytes (SlabAllocator.sizeToSlab e.2) ∣ e.1.toNat) ∧
      ∀ e ∈ s.large, PageAligned e.1

variable {allocator : PhysicalAllocator} {s s' : SlabRun} {ls fs : ℕ → List Usize}
  {lost : List (Block 64)}

/-- A header fits the slots of every class but the smallest. -/
theorem headerBytes_le {size : ℕ} (h : 8 < size) (h' : size ≤ 2048) :
    headerBytes ≤ slotBytes (SlabAllocator.sizeToSlab size) ∧
      SlabAllocator.sizeToSlab size ≠ 0 := by
  have hle := le_slotBytes h'
  rw [slotBytes_eq] at hle ⊢
  have hne : SlabAllocator.sizeToSlab size ≠ 0 := by
    intro h0
    rw [h0] at hle
    omega
  refine ⟨?_, hne⟩
  have hpow : 2 ^ 4 ≤ 2 ^ (3 + SlabAllocator.sizeToSlab size) :=
    Nat.pow_le_pow_right (by decide) (by omega)
  exact hpow

theorem sizeToSlab_of_le {size : ℕ} (h : size ≤ 8) : SlabAllocator.sizeToSlab size = 0 := by
  have hmax : max size 8 = 8 := max_eq_right h
  rw [SlabAllocator.sizeToSlab, hmax]
  decide

/-- The slots of a page lie in it. -/
theorem region_slot_subset {i : ℕ} (hi : i < slabClasses) {page a : Usize}
    (ha : a ∈ page :: refillSlots page i) : region a (slotBytes i) ⊆ region page pageSize := by
  have hmem : (⟨a, slotBytes i⟩ : Block 64) ∈
      (page :: refillSlots page i).map fun a => ⟨a, slotBytes i⟩ := List.mem_map.2 ⟨a, ha, rfl⟩
  have hsub := range_subset_bytes hmem
  rw [(page_slots page hi).2, bytes_cons, bytes_nil, Set.union_empty] at hsub
  exact hsub

theorem liveOf_cons (p : Usize) (size : ℕ) (live : List (Usize × ℕ)) (i : ℕ) :
    liveOf ((p, size) :: live) i =
      if SlabAllocator.sizeToSlab size = i then p :: liveOf live i else liveOf live i := by
  by_cases h : SlabAllocator.sizeToSlab size = i <;> simp [liveOf, h]

theorem liveOf_perm {live live' : List (Usize × ℕ)} (h : live.Perm live') (i : ℕ) :
    (liveOf live i).Perm (liveOf live' i) := (h.filter _).map _

/-- The smallest class has no free slot. -/
theorem SlabInv.smallest_nil (h : SlabInv allocator s ls fs lost) : fs 0 = [] := by
  have hperm := h.slots 0 (by decide)
  rw [h.smallest] at hperm
  exact (List.append_eq_nil_iff.1 (List.perm_nil.1 hperm)).1

/-- The outcome of a call of `alloc` that hands out a block: it takes the head of the list, or it
cuts up a page. -/
structure Handed (allocator : PhysicalAllocator) (s : SlabRun) (ls fs : ℕ → List Usize)
    (lost : List (Block 64)) (size : ℕ) (p : Usize) (s₁ : SlabAllocator ByteMem)
    (fs' : ℕ → List Usize) (ws₁ ws₂ : List Usize) : Prop where
  pooled : ∃ ls', SlabPooled allocator s₁ ls' fs' (slot (p, size) :: (s.owned ++ lost))
  aligned : PageAligned allocator.baseAddr.addr →
    slotBytes (SlabAllocator.sizeToSlab size) ∣ p.toNat
  stores : Stores s.slab.buddy.mem (ws₁ ++ ws₂) s₁.buddy.mem
  provided : ws₁ ≠ [] → ∃ b', s.slab.buddy.alloc 0 = some (.ok p, b') ∧
    b'.mem.headerWrites = s.headerWrites ++ ws₁
  inFree : ∀ w ∈ ws₁, region w pageSize ⊆ bytes (freeBlocks ls)
  lists : ((s.slab.slabs (SlabAllocator.sizeToSlab size)).freeList = some p ∧ ws₂ = [] ∧
      ∃ l, fs (SlabAllocator.sizeToSlab size) = p :: l ∧
        fs' = Function.update fs (SlabAllocator.sizeToSlab size) l) ∨
    ((s.slab.slabs (SlabAllocator.sizeToSlab size)).freeList = none ∧
      fs (SlabAllocator.sizeToSlab size) = [] ∧
      ws₂ = refillSlots p (SlabAllocator.sizeToSlab size) ∧
      fs' = Function.update fs (SlabAllocator.sizeToSlab size) ws₂.reverse)

/-- What a call of `alloc` within the guard does: refuse and write nothing, panic with the buddy
allocator, or hand out a block of more than eight bytes. -/
theorem SlabInv.alloc_cases {size : ℕ} (h : SlabInv allocator s ls fs lost)
    (hg : SparesSmallest s (.alloc size)) :
    (∃ e s₁, s.slab.alloc size = some (.error e, s₁) ∧ s₁.buddy.mem = s.slab.buddy.mem ∧
        SlabPooled allocator s₁ ls fs (s.owned ++ lost)) ∨
      s.slab.alloc size = none ∨
      (8 < size ∧ size ≤ 2048 ∧ ∃ p s₁ fs' ws₁ ws₂, s.slab.alloc size = some (.ok p, s₁) ∧
        Handed allocator s ls fs lost size p s₁ fs' ws₁ ws₂) := by
  have hpage : HeaderFits ByteMem pageSize := headerFits_byteMem (by decide)
  by_cases hrange : size = 0 ∨ 2048 < size
  · refine Or.inl ⟨.memory .invalidSize, s.slab, ?_, rfl, h.pooled⟩
    rw [SlabAllocator.alloc, if_pos hrange]
  have hlow : 0 < size := by omega
  have hhigh : size ≤ 2048 := by omega
  have hi := (sizeToSlab_spec hhigh).1
  cases hl : fs (SlabAllocator.sizeToSlab size) with
  | cons p l =>
      have hbig : 8 < size := by
        by_contra hle
        rw [sizeToSlab_of_le (not_lt.1 hle), h.smallest_nil] at hl
        exact absurd hl (by simp)
      obtain ⟨s₁, hres, hbuddy, hpool⟩ := SlabPooled.alloc_hit hlow hhigh h.pooled hl
      have hlist := h.pooled.lists _ hi
      rw [hl] at hlist
      refine Or.inr (Or.inr ⟨hbig, hhigh, p, s₁, _, [], [], hres, ⟨ls, hpool⟩, fun hbase => ?_,
        by rw [hbuddy]; exact .nil _, by simp, by simp, Or.inl ⟨hlist.1, rfl, l, hl, rfl⟩⟩)
      exact h.pooled.aligned hbase _ hi p (by rw [hl]; exact List.mem_cons_self ..)
  | nil =>
      obtain ⟨herror, hnone⟩ := SlabPooled.alloc_refused hlow hhigh h.pooled hl
      rcases h.pooled.pooled.alloc hpage (show 0 < maxOrder by decide) with
        ⟨page, b', ls', ws, hres, hp, ha, hs, hw⟩ | ⟨b', hres, hp, hmem⟩ | ⟨-, hres⟩
      · have hbig : 8 < size := by
          by_contra hle
          exact (hg hlow (not_lt.1 hle)).alloc_ne page b' hres
        have hslot : HeaderFits ByteMem (slotBytes (SlabAllocator.sizeToSlab size)) :=
          headerFits_byteMem (headerBytes_le hbig hhigh).1
        obtain ⟨s₁, hres₁, hpool, hstores⟩ :=
          SlabPooled.alloc_refill hlow hhigh hpage hslot h.pooled hl hres hp hs hw ha
        have hempty := h.pooled.lists _ hi
        rw [hl] at hempty
        exact Or.inr (Or.inr ⟨hbig, hhigh, page, s₁, _, ws, _, hres₁, ⟨ls', hpool⟩,
          fun hbase => (SlabPooled.dvd_refillSlots hi (ha hbase)).1, hstores,
          fun _ => ⟨b', hres, ByteMem.headerWrites_eq hs⟩, hw, Or.inr ⟨hempty, hl, rfl, rfl⟩⟩)
      · refine Or.inl ⟨_, _, herror _ _ hres, hmem, ?_⟩
        exact h.pooled.withBuddy hp (S := ∅) (fun a _ => by rw [hmem]) (Set.disjoint_empty _)
      · exact Or.inr (Or.inl (hnone hres))

/-- Within the guard the header writes of `alloc` lie where they should. -/
theorem SlabInv.allocInside {size : ℕ} (h : SlabInv allocator s ls fs lost)
    (hg : SparesSmallest s (.alloc size)) : AllocInside s size := by
  intro r s₁ hres
  rcases h.alloc_cases hg with
    ⟨e, s₂, hres', hmem, -⟩ | hres' | ⟨hbig, hhigh, p, s₂, fs', ws₁, ws₂, hres', hh⟩
  · obtain ⟨-, rfl⟩ : _ ∧ s₂ = s₁ := by simpa [hres'] using hres
    exact ⟨[], [], by rw [hmem]; simp [headerWrites], by simp, by simp, by simp⟩
  · exact absurd hres (by simp [hres'])
  · obtain ⟨rfl, rfl⟩ : .ok p = r ∧ s₂ = s₁ := by simpa [hres'] using hres
    have hi := (sizeToSlab_spec hhigh).1
    have howned : ∀ B ∈ s.owned, B.range ⊆ bytes (s.owned ++ lost) := fun B hB =>
      range_subset_bytes (List.mem_append_left _ hB)
    refine ⟨ws₁, ws₂, ByteMem.headerWrites_eq hh.stores, fun hne => ?_, fun w hw B hB => ?_,
      fun w hw => ?_⟩
    · obtain ⟨b', hb', hlog⟩ := hh.provided hne
      exact ⟨_, b', hb', hlog⟩
    · have hdisj := (packed_append.1 h.pooled.pooled.packed).2.2
      rw [bytes_append, Set.disjoint_union_right] at hdisj
      exact Set.disjoint_of_subset (hh.inFree w hw) (howned B hB) hdisj.2
    · obtain ⟨ls', hpool⟩ := hh.pooled
      rcases hh.lists with ⟨-, rfl, -⟩ | ⟨-, -, rfl, hfs⟩
      · exact absurd hw (by simp)
      have hheader : region w headerBytes ⊆ region w (slotBytes (SlabAllocator.sizeToSlab size)) :=
        region_mono w (headerBytes_le hbig hhigh).1
      refine ⟨⟨p, rfl, hheader, region_slot_subset hi (List.mem_cons_of_mem _ hw)⟩, fun B hB => ?_⟩
      -- the slot is free after the call, so it lies beside the live blocks
      have hfree : (⟨w, slotBytes (SlabAllocator.sizeToSlab size)⟩ : Block 64) ∈ freeSlots fs' := by
        refine mem_pool.2 ⟨_, hi, w, ?_, rfl⟩
        rw [hfs, Function.update_self, List.mem_reverse]
        exact hw
      have hbeside := hpool.disjoint_slots.2
      rw [bytes_cons, Set.disjoint_union_right] at hbeside
      exact Set.disjoint_of_subset (hheader.trans (region_subset_bytes hfree)) (howned B hB)
        hbeside.2

/-! ### Steps -/

/-- The slots of the pages of a class, after it has handed out a block. -/
theorem Handed.slots {size : ℕ} {p : Usize} {s₁ : SlabAllocator ByteMem} {fs' : ℕ → List Usize}
    {ws₁ ws₂ : List Usize} (hh : Handed allocator s ls fs lost size p s₁ fs' ws₁ ws₂)
    (h : SlabInv allocator s ls fs lost) {pages : ℕ → List Usize}
    (hpages : pages =
      if (s.slab.slabs (SlabAllocator.sizeToSlab size)).freeList = none then
        Function.update s.pages (SlabAllocator.sizeToSlab size)
          (p :: s.pages (SlabAllocator.sizeToSlab size))
      else s.pages) :
    ∀ i < slabClasses, (fs' i ++ liveOf ((p, size) :: s.live) i).Perm (slotsOf (pages i) i) := by
  intro i hi
  have hold := h.slots i hi
  rw [liveOf_cons]
  rcases hh.lists with ⟨hfree, -, l, hl, rfl⟩ | ⟨hfree, hl, rfl, rfl⟩
  · rw [hfree, if_neg (by simp)] at hpages
    rw [hpages]
    by_cases hclass : SlabAllocator.sizeToSlab size = i
    · subst hclass
      rw [Function.update_self, if_pos rfl]
      rw [hl] at hold
      exact List.perm_middle.trans hold
    · rw [Function.update_of_ne (Ne.symm hclass), if_neg hclass]
      exact hold
  · rw [hfree, if_pos rfl] at hpages
    rw [hpages]
    by_cases hclass : SlabAllocator.sizeToSlab size = i
    · subst hclass
      rw [Function.update_self, Function.update_self, if_pos rfl]
      rw [hl, List.nil_append] at hold
      rw [slotsOf, List.flatMap_cons]
      refine List.perm_middle.trans ?_
      rw [List.cons_append]
      exact ((List.reverse_perm _).append hold).cons p
    · rw [Function.update_of_ne (Ne.symm hclass), Function.update_of_ne (Ne.symm hclass),
        if_neg hclass]
      exact hold

theorem SlabInv.alloc {size : ℕ} (h : SlabInv allocator s ls fs lost)
    (hg : SparesSmallest s (.alloc size)) (hs : (SlabOp.alloc size).step s s') :
    ∃ ls' fs' lost', SlabInv allocator s' ls' fs' lost' := by
  obtain ⟨slab, hs⟩ := hs
  rcases h.alloc_cases hg with
    ⟨e, s₁, hres, -, hpool⟩ | hres | ⟨hbig, hhigh, p, s₁, fs', ws₁, ws₂, hres, hh⟩
  · rcases hs with ⟨⟨e', hs⟩, rfl⟩ | ⟨p, hs, -⟩
    · obtain ⟨-, rfl⟩ : _ ∧ s₁ = slab := by simpa [hres] using hs
      exact ⟨ls, fs, lost, hpool, h.slots, h.smallest, h.sizes, h.orders, h.aligned⟩
    · exact absurd hs (by simp [hres])
  · rcases hs with ⟨⟨e', hs⟩, -⟩ | ⟨p, hs, -⟩ <;> exact absurd hs (by simp [hres])
  · rcases hs with ⟨⟨e', hs⟩, -⟩ | ⟨p', hs, rfl⟩
    · exact absurd hs (by simp [hres])
    · obtain ⟨rfl, rfl⟩ : p = p' ∧ s₁ = slab := by simpa [hres] using hs
      obtain ⟨ls', hpool⟩ := hh.pooled
      have hne := (headerBytes_le hbig hhigh).2
      refine ⟨ls', fs', lost, hpool, hh.slots h rfl, ?_, ?_, h.orders, fun hbase => ⟨?_, ?_⟩⟩
      · dsimp only
        split
        · rw [Function.update_of_ne (Ne.symm hne)]
          exact h.smallest
        · exact h.smallest
      · exact List.forall_mem_cons.2 ⟨⟨hbig, hhigh⟩, h.sizes⟩
      · exact List.forall_mem_cons.2 ⟨hh.aligned hbase, (h.aligned hbase).1⟩
      · exact (h.aligned hbase).2

/-- What a call of `free` does with a live block. -/
theorem SlabInv.free {e : Usize × ℕ} (h : SlabInv allocator s ls fs lost) (he : e ∈ s.live) :
    FreeInside s e ∧
      SlabInv allocator
        { s with slab := (s.slab.free e.1 e.2).2, live := s.live.erase e } ls
        (Function.update fs (SlabAllocator.sizeToSlab e.2)
          (e.1 :: fs (SlabAllocator.sizeToSlab e.2))) lost := by
  obtain ⟨hbig, hhigh⟩ := h.sizes e he
  have hi := (sizeToSlab_spec hhigh).1
  have hslot := (headerBytes_le hbig hhigh).1
  have hlive := List.perm_cons_erase he
  have hpool : SlabPooled allocator s.slab ls fs
      (slot e :: ((s.live.erase e).map slot ++ s.large.map largeBlock ++ lost)) := by
    refine h.pooled.perm ?_
    exact ((hlive.map slot).append_right _).append_right lost
  obtain ⟨s₁, hres, hpool', hstores⟩ := hpool.free (by omega) hhigh
    (headerFits_byteMem (by decide)) (headerFits_byteMem hslot)
    fun hbase => (h.aligned hbase).1 e he
  have hheader : region e.1 headerBytes ⊆ region e.1 (slotBytes (SlabAllocator.sizeToSlab e.2)) :=
    region_mono _ hslot
  refine ⟨⟨s₁, hres, ByteMem.headerWrites_eq hstores, ?_, fun B hB => ?_⟩, ?_⟩
  · -- the block is a slot of one of the class's pages
    have hmem : e.1 ∈ fs (SlabAllocator.sizeToSlab e.2) ++
        liveOf s.live (SlabAllocator.sizeToSlab e.2) := by
      refine List.mem_append_right _ (List.mem_map.2 ⟨e, List.mem_filter.2 ⟨he, ?_⟩, rfl⟩)
      exact decide_eq_true rfl
    obtain ⟨page, hpage, hin⟩ := List.mem_flatMap.1 ((h.slots _ hi).mem_iff.1 hmem)
    exact ⟨page, hpage, hheader, region_slot_subset hi hin⟩
  · have hbeside :=
      (packed_cons.1 (packed_append.1 (packed_append.1 hpool.pooled.packed).2.1).2.1).1
    exact Set.disjoint_of_subset hheader
      (range_subset_bytes (List.mem_append_left lost hB)) hbeside
  · rw [hres]
    have hrest : ∀ e' ∈ s.live.erase e, e' ∈ s.live := fun _ => List.mem_of_mem_erase
    refine ⟨hpool', fun i hi' => ?_, h.smallest, fun e' he' => h.sizes e' (hrest e' he'), h.orders,
      fun hbase => ⟨fun e' he' => (h.aligned hbase).1 e' (hrest e' he'), (h.aligned hbase).2⟩⟩
    refine List.Perm.trans ?_ (h.slots i hi')
    have hperm := liveOf_perm hlive i
    rw [show e = (e.1, e.2) from rfl, liveOf_cons] at hperm
    by_cases hclass : SlabAllocator.sizeToSlab e.2 = i
    · subst hclass
      rw [if_pos rfl] at hperm
      rw [Function.update_self]
      exact List.perm_middle.symm.trans (hperm.symm.append_left _)
    · rw [if_neg hclass] at hperm
      rw [Function.update_of_ne (Ne.symm hclass)]
      exact hperm.symm.append_left _

theorem SlabInv.buddyAlloc {order : ℕ} (h : SlabInv allocator s ls fs lost)
    (hs : (SlabOp.buddyAlloc order).step s s') :
    ∃ ls' fs' lost', SlabInv allocator s' ls' fs' lost' := by
  obtain ⟨ho, buddy, hs⟩ := hs
  rcases h.pooled.buddyAlloc (headerFits_byteMem (by decide)) ho with
    ⟨p, b', ls', hres, hpool, ha⟩ | ⟨e, b', hres, hpool⟩ | ⟨-, hres⟩
  · rcases hs with ⟨⟨e, hs⟩, -⟩ | ⟨p', hs, rfl⟩
    · exact absurd hs (by simp [hres])
    · obtain ⟨rfl, rfl⟩ : p = p' ∧ b' = buddy := by simpa [hres] using hs
      refine ⟨ls', fs, lost, hpool.perm ?_, h.slots, h.smallest, h.sizes,
        List.forall_mem_cons.2 ⟨ho, h.orders⟩,
        fun hbase => ⟨(h.aligned hbase).1, List.forall_mem_cons.2 ⟨ha hbase, (h.aligned hbase).2⟩⟩⟩
      exact (List.perm_middle.symm).append_right lost
  · rcases hs with ⟨⟨e', hs⟩, rfl⟩ | ⟨p', hs, -⟩
    · obtain ⟨-, rfl⟩ : _ ∧ b' = buddy := by simpa [hres] using hs
      exact ⟨ls, fs, lost, hpool, h.slots, h.smallest, h.sizes, h.orders, h.aligned⟩
    · exact absurd hs (by simp [hres])
  · rcases hs with ⟨⟨e, hs⟩, -⟩ | ⟨p', hs, -⟩ <;> exact absurd hs (by simp [hres])

theorem SlabInv.buddyFree {ptr : Usize} {order : ℕ} (h : SlabInv allocator s ls fs lost)
    (hs : (SlabOp.buddyFree ptr order).step s s') :
    ∃ ls' fs' lost', SlabInv allocator s' ls' fs' lost' := by
  obtain ⟨he, r, buddy, hs, rfl⟩ := hs
  have hpool : SlabPooled allocator s.slab ls fs (largeBlock (ptr, order) ::
      (s.live.map slot ++ (s.large.erase (ptr, order)).map largeBlock ++ lost)) := by
    refine h.pooled.perm (List.Perm.trans ?_ (List.perm_middle.append_right lost))
    exact (((List.perm_cons_erase he).map largeBlock).append_left _).append_right lost
  obtain ⟨r', b', ls', lost', hres, hpool'⟩ := hpool.buddyFree (headerFits_byteMem (by decide))
    (h.orders _ he) fun hbase => (h.aligned hbase).2 _ he
  obtain ⟨-, rfl⟩ : r' = r ∧ b' = buddy := by simpa [hres] using hs
  have hrest : ∀ e ∈ s.large.erase (ptr, order), e ∈ s.large := fun _ => List.mem_of_mem_erase
  refine ⟨ls', fs, lost' ++ lost, hpool'.perm (List.perm_append_comm_assoc _ _ _), h.slots,
    h.smallest, h.sizes, fun e he' => h.orders e (hrest e he'),
    fun hbase => ⟨(h.aligned hbase).1, fun e he' => (h.aligned hbase).2 e (hrest e he')⟩⟩

theorem SlabInv.store {block : Block 64} (h : SlabInv allocator s ls fs lost)
    (hs : (SlabOp.store block).step s s') :
    ∃ ls' fs' lost', SlabInv allocator s' ls' fs' lost' := by
  obtain ⟨hblock, mem, hmem, rfl⟩ := hs
  have hkeeps := hmem.keeps.mono (range_subset_bytes (List.mem_append_left lost hblock))
  exact ⟨ls, fs, lost, h.pooled.withMem (headerFits_byteMem (by decide)) hkeeps, h.slots,
    h.smallest, h.sizes, h.orders, h.aligned⟩

/-- A step within the guard keeps the invariant. -/
theorem SlabInv.step {op : SlabOp} (h : SlabInv allocator s ls fs lost)
    (hg : SparesSmallest s op) (hs : op.step s s') :
    ∃ ls' fs' lost', SlabInv allocator s' ls' fs' lost' := by
  cases op with
  | alloc size => exact h.alloc hg hs
  | free ptr size =>
      obtain ⟨he, rfl⟩ := hs
      exact ⟨_, _, _, (h.free he).2⟩
  | buddyAlloc order => exact h.buddyAlloc hs
  | buddyFree ptr order => exact h.buddyFree hs
  | store block => exact h.store hs

/-! ### Whole runs -/

theorem slabSystem_inv (h : (slabSystem allocator).Reach SparesSmallest s) :
    ∃ ls fs lost, SlabInv allocator s ls fs lost := by
  refine h.invariant (P := fun s => ∃ ls fs lost, SlabInv allocator s ls fs lost) ?_ ?_
  · rintro _ ⟨b, ls, rest, hp, rfl⟩
    exact ⟨ls, fun _ => [], rest, .init hp, fun i _ => List.Perm.refl _, rfl, by simp, by simp,
      by simp⟩
  · rintro s op s' ⟨ls, fs, lost, hinv⟩ hg hs
    exact hinv.step hg hs

/-- The lists of a state with the invariant. -/
theorem SlabInv.walksFree (h : SlabInv allocator s ls fs lost) : WalksFree s := by
  intro i hi
  have hnodup : (fs i).Nodup :=
    (packed_append.1 (packed_append.1 h.pooled.pooled.packed).2.1).1.pool_nodup hi (slotBytes_pos i)
  exact ⟨fs i, (h.pooled.lists i hi).walk_eq (length_le_two_pow hnodup), hnodup, h.slots i hi⟩

/-- No header lies inside a slot of eight bytes. -/
theorem not_headerInside_smallest (page w : Usize) : ¬HeaderInside (slotBytes 0) page w := by
  rintro ⟨hsub, -⟩
  have hoff : (w + 8#64 - w).toNat = 8 := by rw [add_sub_cancel_left]; rfl
  have hin : w + 8#64 ∈ region w headerBytes := by rw [mem_region, hoff]; decide
  have hout := hsub hin
  rw [mem_region, hoff] at hout
  exact absurd hout (by decide)

/-- A call of `alloc` outside the guard writes headers that do not fit their slots. -/
theorem SlabInv.not_allocInside {size : ℕ} (h : SlabInv allocator s ls fs lost)
    (hg : ¬SparesSmallest s (.alloc size)) : ¬AllocInside s size := by
  have hpage : HeaderFits ByteMem pageSize := headerFits_byteMem (by decide)
  simp only [SparesSmallest, not_forall] at hg
  obtain ⟨hlow, hsmall, hmore⟩ := hg
  have hclass := sizeToSlab_of_le hsmall
  obtain ⟨page, b', hres⟩ := alloc_of_not_exhausted hpage h.pooled.pooled.rep
    (packed_append.1 h.pooled.pooled.packed).1 hmore
  -- the page comes from the buddy allocator with the header writes `ws`
  obtain ⟨ws, hs⟩ : ∃ ws, Stores s.slab.buddy.mem ws b'.mem := by
    rcases h.pooled.pooled.alloc hpage (show 0 < maxOrder by decide) with
      ⟨page', b'', -, ws, hres', -, -, hs, -⟩ | ⟨b'', hres', -⟩ | ⟨-, hres'⟩
    · obtain ⟨-, rfl⟩ : page' = page ∧ b'' = b' := by simpa [hres'] using hres
      exact ⟨ws, hs⟩
    · exact absurd hres (by simp [hres'])
    · exact absurd hres (by simp [hres'])
  have hempty := h.pooled.lists 0 (by decide)
  rw [h.smallest_nil] at hempty
  have hcall := SlabPooled.alloc_refill_eq hlow (by omega) (by rw [hclass]; exact hempty)
    (by rw [hclass]; exact h.pooled.sizes 0 (by decide)) hres
  rw [hclass] at hcall
  intro hinside
  obtain ⟨ws₁, ws₂, hlog, hprov, -, hslots⟩ := hinside _ _ hcall
  have hlog' : (SlabPooled.pushed ⟨s.slab.slabs, b'⟩ 0
      (refillSlots page 0)).buddy.mem.headerWrites = s.headerWrites ++ (ws ++ refillSlots page 0) :=
    ByteMem.headerWrites_eq (hs.trans (SlabPooled.stores_pushed ⟨s.slab.slabs, b'⟩ 0 _))
  have hsplit : ws ++ refillSlots page 0 = ws₁ ++ ws₂ :=
    List.append_cancel_left (hlog'.symm.trans hlog)
  have hmem : page + 8#64 ∈ refillSlots page 0 := by
    rw [refillSlots, mem_slots]
    exact ⟨1, le_rfl, by decide, rfl⟩
  have hin : page + 8#64 ∈ ws₂ := by
    by_cases hne : ws₁ = []
    · rw [hne, List.nil_append] at hsplit
      rw [← hsplit]
      exact List.mem_append_right _ hmem
    · obtain ⟨r', b'', hres'', hlog''⟩ := hprov hne
      obtain ⟨-, rfl⟩ : _ ∧ b' = b'' := by simpa [hres] using hres''
      have hsame : ws = ws₁ :=
        List.append_cancel_left ((ByteMem.headerWrites_eq hs).symm.trans hlog'')
      rw [hsame] at hsplit
      rwa [← List.append_cancel_left hsplit]
  obtain ⟨⟨page', -, hheader⟩, -⟩ := hslots _ hin
  rw [hclass] at hheader
  exact not_headerInside_smallest page' _ hheader

/-- In every run in which the smallest class gets no page, the header writes of every call of `free`
and of every further call of `alloc` within the guard, and of no other, lie where they should, and
the free lists hold the slots that are not live. -/
theorem slab_headers_inside (h : (slabSystem allocator).Reach SparesSmallest s) :
    (∀ size, AllocInside s size ↔ SparesSmallest s (.alloc size)) ∧
      (∀ e ∈ s.live, FreeInside s e) ∧ WalksFree s := by
  obtain ⟨ls, fs, lost, hinv⟩ := slabSystem_inv h
  refine ⟨fun size => ⟨fun hin => ?_, hinv.allocInside⟩, fun e he => (hinv.free he).1,
    hinv.walksFree⟩
  by_contra hg
  exact hinv.not_allocInside hg hin

/-! ### A new allocator over four pages -/

/-- A new slab allocator over four pages. -/
def fourPageSlabs : SlabRun where
  slab := (SlabAllocator.new
    (BuddyAllocator.new (.new ⟨0x80000000#64⟩ 4#64) ⟨fun _ => 0#8, []⟩)).init
  live := []
  pages := fun _ => []
  large := []

theorem reach_fourPageSlabs :
    (slabSystem (.new ⟨0x80000000#64⟩ 4#64)).Reach SparesSmallest fourPageSlabs :=
  .init ⟨_, _, _, .new _ _, rfl⟩

/-- Sixteen bytes are within the guard. -/
theorem slab_headers_inside_sixteen : AllocInside fourPageSlabs 16 :=
  ((slab_headers_inside reach_fourPageSlabs).1 16).2 fun _ h => absurd h (by decide)

/-- The first allocation of eight bytes writes headers outside their slots. -/
theorem slab_header_outside :
    ¬∀ s, (slabSystem (.new ⟨0x80000000#64⟩ 4#64)).Reach Runs.anyStep s →
      (∀ size, AllocInside s size) ∧ (∀ e ∈ s.live, FreeInside s e) ∧ WalksFree s := by
  intro hall
  obtain ⟨ls, fs, lost, hinv⟩ := slabSystem_inv reach_fourPageSlabs
  refine hinv.not_allocInside (fun hg => ?_) ((hall _ reach_fourPageSlabs.free).1 8)
  obtain ⟨-, hnone⟩ := hg (by decide) le_rfl
  rcases hnone with hctr | hall'
  · exact absurd hctr (by decide)
  · have := hall' 0 (by decide) (by decide)
    exact absurd this (by decide)

end StarOS
