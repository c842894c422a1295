/-
Conservation of memory over whole runs of the buddy allocator.

A run starts from a new allocator over any state of the physical allocator, and its steps are calls
of `alloc`, calls of `free` with a live block and the order it was allocated with, and arbitrary
stores of a block's owner inside the block.  The headers lie in the blocks' own bytes.

As long as no `free` merges at every order up to the top, the free blocks and the live blocks cover
exactly the bytes obtained from the physical allocator, each byte once, and every `free` of a live
block succeeds.  A `free` that does merge past the top order has by then taken the last buddy off
its list: it returns an error, and the merged block is neither free nor live.

* `StarOS.buddySystem`, `StarOS.Conserved` — the runs, and the conservation property;
* `StarOS.buddySystem_conserves` — conservation, and exactly which calls of `free` keep it;
* `StarOS.buddySystem_leaks` — two blocks of the top order that are buddies of each other.
-/

import StarOS.BuddyPool
import StarOS.ByteMem
import StarOS.Runs

set_option autoImplicit false

namespace StarOS

open Region Links LinkStore BuddyAllocator

/-! ### The runs -/

/-- A buddy allocator together with the live blocks, each with its order. -/
structure BuddyRun where
  buddy : BuddyAllocator ByteMem
  live : List (Usize × ℕ)

/-- The memory of a live block. -/
def liveBlock (e : Usize × ℕ) : Block 64 := ⟨e.1, blockBytes e.2⟩

/-- A step of a run. -/
inductive BuddyOp where
  | alloc (order : ℕ)
  | free (ptr : Usize) (order : ℕ)
  | store (ptr : Usize) (order : ℕ)

/-- A call that returns, or a store by the owner of a live block. -/
def BuddyOp.step (s : BuddyRun) : BuddyOp → BuddyRun → Prop
  | alloc order, s' =>
      (∃ p, s.buddy.alloc order = some (.ok p, s'.buddy) ∧ s'.live = (p, order) :: s.live) ∨
        ∃ e, s.buddy.alloc order = some (.error e, s'.buddy) ∧ s'.live = s.live
  | free ptr order, s' =>
      (ptr, order) ∈ s.live ∧ s'.live = s.live.erase (ptr, order) ∧
        ∃ r, s.buddy.free ptr order = some (r, s'.buddy)
  | store ptr order, s' =>
      (ptr, order) ∈ s.live ∧ s'.live = s.live ∧
        ∃ mem, s.buddy.mem.Stored mem (liveBlock (ptr, order)).range ∧
          s'.buddy = { s.buddy with mem := mem }

/-- The runs of a new buddy allocator over a physical allocator and a memory. -/
def buddySystem (allocator : PhysicalAllocator) (mem : ByteMem) : Runs.System BuddyRun BuddyOp where
  init := fun s => s = ⟨BuddyAllocator.new allocator mem, []⟩
  step := fun s op s' => op.step s s'

/-- The guard: a `free` does not merge at every order up to the top. -/
def StopsBelowTop (s : BuddyRun) : BuddyOp → Prop
  | .free ptr order => s.buddy.mergesPastTop ptr order = false
  | _ => True

/-- The free blocks, read off the memory, and the live blocks cover exactly the bytes obtained since
`allocator`, each byte once. -/
def Conserved (allocator : PhysicalAllocator) (s : BuddyRun) : Prop :=
  ∃ ls, s.buddy.Rep ls ∧ Packed (freeBlocks ls ++ s.live.map liveBlock) ∧
    bytes (freeBlocks ls ++ s.live.map liveBlock) = allocator.obtained s.buddy.allocator

/-! ### One step -/

theorem foot_byteMem_subset (a : Usize) : foot ByteMem a ⊆ region a pageSize :=
  region_mono a (by decide)

/-- What holds of every state of a run that conserves memory. -/
structure BuddyInv (allocator : PhysicalAllocator) (s : BuddyRun) : Prop where
  pooled : ∃ ls, Pooled allocator s.buddy ls (s.live.map liveBlock)
  orders : ∀ e ∈ s.live, e.2 < maxOrder
  aligned : PageAligned allocator.baseAddr.addr → ∀ e ∈ s.live, PageAligned e.1

variable {allocator : PhysicalAllocator} {s s' : BuddyRun}

theorem BuddyInv.conserved (h : BuddyInv allocator s) : Conserved allocator s := by
  obtain ⟨ls, hp⟩ := h.pooled
  exact ⟨ls, hp.rep, hp.packed, hp.bytes_eq⟩

theorem buddyInv_new (allocator : PhysicalAllocator) (mem : ByteMem) :
    BuddyInv allocator ⟨BuddyAllocator.new allocator mem, []⟩ :=
  ⟨⟨_, .new allocator mem⟩, by simp, by simp⟩

theorem BuddyInv.alloc {order : ℕ} (h : BuddyInv allocator s)
    (hs : (BuddyOp.alloc order).step s s') : BuddyInv allocator s' := by
  obtain ⟨ls, hp⟩ := h.pooled
  rcases Nat.lt_or_ge order maxOrder with ho | ho
  · rcases hp.alloc foot_byteMem_subset ho with
      ⟨p, b', ls', -, hres, hp', halign, -⟩ | ⟨b', hres, hp', -⟩ | ⟨-, hres⟩
    · rcases hs with ⟨p', hs, hlive⟩ | ⟨e, hs, -⟩
      · obtain ⟨rfl, rfl⟩ : p = p' ∧ b' = s'.buddy := by simpa [hres] using hs
        refine ⟨⟨ls', by rw [hlive]; exact hp'⟩, ?_, fun hbase => ?_⟩
        · rw [hlive]
          exact List.forall_mem_cons.2 ⟨ho, h.orders⟩
        · rw [hlive]
          exact List.forall_mem_cons.2 ⟨halign hbase, h.aligned hbase⟩
      · exact absurd hs (by simp [hres])
    · rcases hs with ⟨p', hs, -⟩ | ⟨e, hs, hlive⟩
      · exact absurd hs (by simp [hres])
      · obtain ⟨-, rfl⟩ : _ ∧ b' = s'.buddy := by simpa [hres] using hs
        exact ⟨⟨ls, by rw [hlive]; exact hp'⟩, hlive ▸ h.orders, hlive ▸ h.aligned⟩
    · rcases hs with ⟨p', hs, -⟩ | ⟨e, hs, -⟩ <;> exact absurd hs (by simp [hres])
  · -- an order out of range is refused
    have hres : s.buddy.alloc order = some (.error (.memory .invalidSize), s.buddy) := by
      rw [BuddyAllocator.alloc, if_pos ho]
    rcases hs with ⟨p', hs, -⟩ | ⟨e, hs, hlive⟩
    · exact absurd hs (by simp [hres])
    · obtain ⟨-, hb⟩ : _ ∧ s.buddy = s'.buddy := by simpa [hres] using hs
      exact ⟨⟨ls, by rw [hlive, ← hb]; exact hp⟩, hlive ▸ h.orders, hlive ▸ h.aligned⟩

/-- What `free` does to a live block, and to the conservation of memory. -/
theorem BuddyInv.free {e : Usize × ℕ} (h : BuddyInv allocator s) (he : e ∈ s.live) :
    ∃ r b', s.buddy.free e.1 e.2 = some (r, b') ∧
      (r = .ok () ↔ s.buddy.mergesPastTop e.1 e.2 = false) ∧
      (s.buddy.mergesPastTop e.1 e.2 = false → BuddyInv allocator ⟨b', s.live.erase e⟩) ∧
      (Conserved allocator ⟨b', s.live.erase e⟩ ↔ s.buddy.mergesPastTop e.1 e.2 = false) := by
  obtain ⟨ls, hp⟩ := h.pooled
  have hp := hp.perm ((List.perm_cons_erase he).map liveBlock)
  have hrest : ∀ e' ∈ s.live.erase e, e' ∈ s.live := fun _ => List.mem_of_mem_erase
  obtain ⟨r, b', ls', -, lost, hres, hp', -, hcase, -⟩ :=
    hp.free foot_byteMem_subset (h.orders e he) fun hbase => h.aligned hbase e he
  rcases hcase with ⟨hno, rfl, rfl⟩ | ⟨hyes, rfl, q, rfl⟩
  · have hinv : BuddyInv allocator ⟨b', s.live.erase e⟩ :=
      ⟨⟨ls', hp'⟩, fun e' he' => h.orders e' (hrest e' he'),
        fun hbase e' he' => h.aligned hbase e' (hrest e' he')⟩
    exact ⟨_, b', hres, by simp [hno], fun _ => hinv, iff_of_true hinv.conserved hno⟩
  · refine ⟨_, b', hres, by simp [hyes], by simp [hyes], iff_of_false ?_ (by simp [hyes])⟩
    -- the merged block is covered by neither the free nor the live blocks
    rintro ⟨ls'', hrep'', -, hbytes''⟩
    have hsame : freeBlocks ls'' = freeBlocks ls' := by
      refine List.flatMap_congr fun k hk => ?_
      have hk : k < maxOrder := List.mem_range.1 hk
      rw [(hrep'' k hk).unique (hp'.rep k hk)]
    have hq : q ∈ (⟨q, blockBytes maxOrder⟩ : Block 64).range :=
      self_mem_region q (blockBytes_pos maxOrder)
    have hout := (packed_cons.1 (hp'.packed.perm List.perm_middle)).1
    have hcover : q ∈ bytes (freeBlocks ls'' ++ (s.live.erase e).map liveBlock) := by
      rw [show bytes (freeBlocks ls'' ++ (s.live.erase e).map liveBlock) =
        allocator.obtained b'.allocator from hbytes'', ← hp'.bytes_eq]
      exact ⟨_, List.mem_append_right _ (List.mem_cons_self ..), hq⟩
    rw [hsame] at hcover
    exact Set.disjoint_left.1 hout hq hcover

/-- A store inside a live block changes no header of a free block. -/
theorem BuddyInv.store {ptr : Usize} {order : ℕ} (h : BuddyInv allocator s)
    (hs : (BuddyOp.store ptr order).step s s') : BuddyInv allocator s' := by
  obtain ⟨he, hlive, mem, hmem, hb⟩ := hs
  obtain ⟨ls, hp⟩ := h.pooled
  have hblock : liveBlock (ptr, order) ∈ s.live.map liveBlock := List.mem_map.2 ⟨_, he, rfl⟩
  refine ⟨⟨ls, ?_⟩, hlive ▸ h.orders, hlive ▸ h.aligned⟩
  rw [hb, hlive]
  exact hp.withMem foot_byteMem_subset (hmem.keeps.mono (range_subset_bytes hblock))

/-- A step that does not merge past the top order conserves memory. -/
theorem BuddyInv.step {op : BuddyOp} (h : BuddyInv allocator s) (hg : StopsBelowTop s op)
    (hs : op.step s s') : BuddyInv allocator s' := by
  cases op with
  | alloc order => exact h.alloc hs
  | free ptr order =>
      obtain ⟨he, hlive, r, hres⟩ := hs
      obtain ⟨r', b', hres', -, hinv, -⟩ := h.free he
      obtain ⟨-, rfl⟩ : r' = r ∧ b' = s'.buddy := by simpa using hres'.symm.trans hres
      rw [← hlive] at hinv
      exact hinv hg
  | store ptr order => exact h.store hs

/-! ### Whole runs -/

theorem buddySystem_inv {mem : ByteMem}
    (h : (buddySystem allocator mem).Reach StopsBelowTop s) : BuddyInv allocator s := by
  refine h.invariant ?_ fun _ _ _ hinv hg hs => hinv.step hg hs
  rintro _ rfl
  exact buddyInv_new allocator mem

/-- Conservation of memory in every run in which no `free` merges past the top order, and exactly
which further call of `free` would succeed and conserve it. -/
theorem buddySystem_conserves {mem : ByteMem}
    (h : (buddySystem allocator mem).Reach StopsBelowTop s) :
    Conserved allocator s ∧
      ∀ e ∈ s.live, ∃ r b', s.buddy.free e.1 e.2 = some (r, b') ∧
        (r = .ok () ↔ s.buddy.mergesPastTop e.1 e.2 = false) ∧
        (Conserved allocator ⟨b', s.live.erase e⟩ ↔
          s.buddy.mergesPastTop e.1 e.2 = false) := by
  have hinv := buddySystem_inv h
  refine ⟨hinv.conserved, fun e he => ?_⟩
  obtain ⟨r, b', hres, hok, -, hcons⟩ := hinv.free he
  exact ⟨r, b', hres, hok, hcons⟩

/-! ### Two buddies of the top order -/

/-- A physical allocator over eight megabytes, aligned to their size. -/
def eightMegabytes : PhysicalAllocator := .new ⟨0x40000000#64⟩ 2048#64

/-- The allocator after the first half has been asked for. -/
def halfTaken : PhysicalAllocator := (eightMegabytes.claimRun 0 1024).2

theorem allocPages_eightMegabytes :
    eightMegabytes.allocPages 1024 = some (.ok ⟨0x40000000#64⟩, halfTaken) :=
  PhysicalAllocator.allocPages_eq_claimRun (by decide) (by decide) (by decide) (by decide)
    (fun _ _ => PhysicalAllocator.allocated_new _ _ _) fun s h => absurd h (Nat.not_lt_zero s)

theorem allocPages_halfTaken :
    halfTaken.allocPages 1024 = some (.ok ⟨0x40400000#64⟩, (halfTaken.claimRun 1024 1024).2) := by
  have hbit : ∀ q, halfTaken.allocated q = decide (q < 1024) := by
    intro q
    rw [halfTaken, PhysicalAllocator.allocated_claimRun, eightMegabytes,
      PhysicalAllocator.allocated_new]
    simp
  have htotal : halfTaken.totalPages = 2048#64 := PhysicalAllocator.claimRun_totalPages _ _ _
  have hctr : halfTaken.freePagesCtr = 1024#64 := by
    rw [halfTaken, PhysicalAllocator.claimRun_freePagesCtr]
    decide
  have haddr : halfTaken.pageAddr 1024 = ⟨0x40400000#64⟩ := by
    rw [PhysicalAllocator.pageAddr, halfTaken, PhysicalAllocator.claimRun_baseAddr]
    decide
  have hres := PhysicalAllocator.allocPages_eq_claimRun (a := halfTaken) (s := 1024)
    (show 2 ≤ 1024 by decide) (by rw [hctr]; decide) (by rw [htotal]; decide)
    (by rw [htotal]; decide) (fun i _ => by rw [hbit]; simp) fun s hs hfree => by
      have := hfree 0 (by decide)
      rw [hbit] at this
      simp [hs] at this
  rw [hres, PhysicalAllocator.claimRun, haddr]

/-- A memory of zeroes. -/
def zeroMem : ByteMem := ⟨fun _ => 0#8, []⟩

/-- The buddy allocator with nothing on its lists, over a physical allocator. -/
def emptyLists (allocator : PhysicalAllocator) : BuddyAllocator ByteMem := .new allocator zeroMem

theorem alloc_emptyLists {a a' : PhysicalAllocator} {addr : Usize}
    (h : a.allocPages 1024 = some (.ok ⟨addr⟩, a')) :
    (emptyLists a).alloc 10 = some (.ok addr, emptyLists a') := by
  have hfresh : (emptyLists a).alloc 10 = (emptyLists a).allocFresh 10 := rfl
  have hpages : (emptyLists a).allocator.allocPages (1 <<< 10) = some (.ok ⟨addr⟩, a') := h
  rw [hfresh, BuddyAllocator.allocFresh]
  simp only [hpages]
  rfl

/-- The first block is live. -/
def oneLive : BuddyRun := ⟨emptyLists halfTaken, [(0x40000000#64, 10)]⟩

/-- Both blocks are live. -/
def bothLive : BuddyRun :=
  ⟨emptyLists (halfTaken.claimRun 1024 1024).2, [(0x40400000#64, 10), (0x40000000#64, 10)]⟩

/-- The first block has been freed, and its buddy is live. -/
def buddyLive : BuddyRun := ⟨bothLive.buddy.push 10 0x40000000#64, [(0x40400000#64, 10)]⟩

theorem reach_oneLive : (buddySystem eightMegabytes zeroMem).Reach StopsBelowTop oneLive := by
  have hinit : (buddySystem eightMegabytes zeroMem).Reach StopsBelowTop
      ⟨emptyLists eightMegabytes, []⟩ := .init rfl
  exact hinit.step (a := .alloc 10) trivial
    (Or.inl ⟨_, alloc_emptyLists allocPages_eightMegabytes, rfl⟩)

theorem reach_buddyLive : (buddySystem eightMegabytes zeroMem).Reach StopsBelowTop buddyLive := by
  have hboth : (buddySystem eightMegabytes zeroMem).Reach StopsBelowTop bothLive :=
    reach_oneLive.step (a := .alloc 10) trivial
      (Or.inl ⟨_, alloc_emptyLists allocPages_halfTaken, rfl⟩)
  have hfree : bothLive.buddy.isFree (buddyOf 0x40000000#64 10) 10 = some false :=
    isFree_empty (new_freeLists _ _ 10)
  refine hboth.step (a := .free 0x40000000#64 10) ?_ ⟨?_, ?_, .ok (), ?_⟩
  · exact congrArg (fun r => (r == some true) && true) hfree
  · exact List.mem_cons_of_mem _ (List.mem_singleton_self _)
  · rfl
  · rw [BuddyAllocator.free, show maxOrder - 10 = 1 from rfl, freeAt]
    simp only [hfree]
    rfl

/-- Conservation after the first block of the top order has been handed out. -/
theorem buddySystem_conserves_oneLive : Conserved eightMegabytes oneLive :=
  (buddySystem_conserves reach_oneLive).1

/-- Freeing a block of the top order whose buddy is free fails, so the run conserves nothing. -/
theorem buddySystem_leaks :
    ¬∀ s, (buddySystem eightMegabytes zeroMem).Reach Runs.anyStep s →
      Conserved eightMegabytes s ∧
        ∀ e ∈ s.live, ∃ b', s.buddy.free e.1 e.2 = some (.ok (), b') := by
  intro hall
  have hin : ((0x40400000#64, 10) : Usize × ℕ) ∈ buddyLive.live := List.mem_singleton_self _
  have hmerges : buddyLive.buddy.mergesPastTop 0x40400000#64 10 = true := by
    have hfree : buddyLive.buddy.isFree (buddyOf 0x40400000#64 10) 10 = some true :=
      isFree_head (by decide)
    exact congrArg (fun r => (r == some true) && true) hfree
  obtain ⟨r, b', hres, hok, -⟩ := (buddySystem_inv reach_buddyLive).free hin
  obtain ⟨b'', hres'⟩ := (hall buddyLive reach_buddyLive.free).2 _ hin
  rw [hres] at hres'
  simp only [Option.some.injEq, Prod.mk.injEq] at hres'
  rw [hmerges] at hok
  exact absurd (hok.1 hres'.1) (by decide)

end StarOS
