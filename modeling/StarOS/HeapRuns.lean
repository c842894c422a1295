/-
Heap allocations never overlap.

A run starts from a new heap over any state of a physical allocator with a page-aligned base, and
its steps are calls of `alloc` with any layout and calls of `dealloc` with a live pointer and its
layout.  The list links are kept beside the blocks.  A null pointer never becomes live.

The invariant ties the three allocators together: the buddy free blocks, the free slots, the blocks
of the live allocations and the blocks that got lost are packed in the bytes obtained from the
physical allocator.

* `StarOS.heapSystem`, `StarOS.HeapInv`, `StarOS.HeapPacked` — the runs, the invariant, and what is
  left of it over a base that is not page-aligned;
* `StarOS.heap_allocations_disjoint` — the live allocations, and what every further call returns.
-/

import StarOS.Heap
import StarOS.Runs

set_option autoImplicit false

namespace StarOS

open Region Links LinkStore HeapAllocator

/-! ### The runs -/

/-- A heap together with the live pointers, each with its layout. -/
structure HeapRun where
  heap : HeapAllocator (SideLinks Usize)
  live : List (Usize × Layout)

/-- A call on the heap. -/
inductive HeapOp where
  | alloc (layout : Layout)
  | dealloc (ptr : Usize) (layout : Layout)

/-- The state a call that returns leaves behind. -/
def HeapOp.step (s : HeapRun) : HeapOp → HeapRun → Prop
  | alloc layout, s' =>
      ∃ p, s.heap.alloc layout = some (p, s'.heap) ∧
        s'.live = if p = 0#64 then s.live else (p, layout) :: s.live
  | dealloc ptr layout, s' =>
      (ptr, layout) ∈ s.live ∧ s.heap.dealloc ptr layout = some s'.heap ∧
        s'.live = s.live.erase (ptr, layout)

/-- The runs of a new heap over a physical allocator and a store of links. -/
def heapSystem (allocator : PhysicalAllocator) (links : SideLinks Usize) :
    Runs.System HeapRun HeapOp where
  init := fun s => s = ⟨HeapAllocator.new allocator links, []⟩
  step := fun s op s' => op.step s s'

/-! ### The invariant -/

/-- A link kept beside its block is no larger than any block. -/
theorem headerFits_sideLinks (n : ℕ) (hn : 0 < n) : HeaderFits (SideLinks Usize) n :=
  fun a => Set.singleton_subset_iff.2 (self_mem_region a hn)

/-- What holds of every state of a run. -/
structure HeapInv (allocator : PhysicalAllocator) (s : HeapRun) : Prop where
  pooled : ∃ ls fs lost, SlabPooled allocator s.heap.slab ls fs (s.live.map heapBlock ++ lost)
  served : ∀ e ∈ s.live, Served e.2
  nonnull : ∀ e ∈ s.live, e.1 ≠ 0#64
  aligned : ∀ e ∈ s.live, servedAlign e.2.size ∣ e.1.toNat

variable {allocator : PhysicalAllocator} {s s' : HeapRun}

/-- What holds whether or not the physical allocator's base is page-aligned. -/
structure HeapPacked (allocator : PhysicalAllocator) (s : HeapRun) : Prop where
  pooled : ∃ ls fs lost, SlabPooled allocator s.heap.slab ls fs (s.live.map heapBlock ++ lost)
  served : ∀ e ∈ s.live, Served e.2
  nonnull : ∀ e ∈ s.live, e.1 ≠ 0#64
  aligned : PageAligned allocator.baseAddr.addr →
    ∀ e ∈ s.live, servedAlign e.2.size ∣ e.1.toNat

theorem heapPacked_new (allocator : PhysicalAllocator) (links : SideLinks Usize) :
    HeapPacked allocator ⟨HeapAllocator.new allocator links, []⟩ :=
  ⟨⟨_, _, [], .init (.new allocator links)⟩, by simp, by simp, by simp⟩

theorem HeapPacked.alloc {layout : Layout} (h : HeapPacked allocator s)
    (hs : (HeapOp.alloc layout).step s s') : HeapPacked allocator s' := by
  obtain ⟨ls, fs, lost, hp⟩ := h.pooled
  obtain ⟨p, hs, hlive⟩ := hs
  rcases alloc_cases headerFits_sideLinks hp layout with
    ⟨p', h', ls', fs', hres, hserved, hp', ha⟩ | ⟨h', ls', fs', hres, hp'⟩ | ⟨-, hres⟩
  · obtain ⟨rfl, rfl⟩ : p' = p ∧ h' = s'.heap := by simpa [hres] using hs
    by_cases hnull : p' = 0#64
    · -- a block at the address zero is lost
      rw [if_pos hnull] at hlive
      refine ⟨⟨ls', fs', heapBlock (p', layout) :: lost, ?_⟩, hlive ▸ h.served, hlive ▸ h.nonnull,
        hlive ▸ h.aligned⟩
      rw [hlive]
      exact hp'.perm List.perm_middle.symm
    · rw [if_neg hnull] at hlive
      refine ⟨⟨ls', fs', lost, by rw [hlive]; exact hp'⟩, ?_, ?_, fun hbase => ?_⟩
      · rw [hlive]
        exact List.forall_mem_cons.2 ⟨hserved, h.served⟩
      · rw [hlive]
        exact List.forall_mem_cons.2 ⟨hnull, h.nonnull⟩
      · rw [hlive]
        exact List.forall_mem_cons.2 ⟨ha hbase, h.aligned hbase⟩
  · obtain ⟨rfl, rfl⟩ : p = 0#64 ∧ h' = s'.heap := by
      rw [hres] at hs
      simp only [Option.some.injEq, Prod.mk.injEq] at hs
      exact ⟨hs.1.symm, hs.2⟩
    rw [if_pos rfl] at hlive
    exact ⟨⟨ls', fs', lost, by rw [hlive]; exact hp'⟩, hlive ▸ h.served, hlive ▸ h.nonnull,
      hlive ▸ h.aligned⟩
  · exact absurd hs (by simp [hres])

theorem HeapPacked.dealloc {e : Usize × Layout} (h : HeapPacked allocator s) (he : e ∈ s.live) :
    ∃ h', s.heap.dealloc e.1 e.2 = some h' ∧ HeapPacked allocator ⟨h', s.live.erase e⟩ := by
  obtain ⟨ls, fs, lost, hp⟩ := h.pooled
  have hp : SlabPooled allocator s.heap.slab ls fs
      (heapBlock e :: ((s.live.erase e).map heapBlock ++ lost)) :=
    hp.perm (((List.perm_cons_erase he).map heapBlock).append_right lost)
  obtain ⟨h', ls', fs', lost', hres, hp'⟩ := dealloc_cases headerFits_sideLinks hp
    (h.served e he) (h.nonnull e he) fun hbase => h.aligned hbase e he
  have hrest : ∀ e' ∈ s.live.erase e, e' ∈ s.live := fun _ => List.mem_of_mem_erase
  refine ⟨h', hres, ⟨ls', fs', lost' ++ lost, hp'.perm (List.perm_append_comm_assoc _ _ _)⟩,
    fun e' he' => h.served e' (hrest e' he'), fun e' he' => h.nonnull e' (hrest e' he'),
    fun hbase e' he' => h.aligned hbase e' (hrest e' he')⟩

theorem HeapPacked.step {op : HeapOp} (h : HeapPacked allocator s) (hs : op.step s s') :
    HeapPacked allocator s' := by
  cases op with
  | alloc layout => exact h.alloc hs
  | dealloc ptr layout =>
      obtain ⟨he, hres, hlive⟩ := hs
      obtain ⟨h', hres', hinv'⟩ := h.dealloc he
      obtain rfl : h' = s'.heap := by simpa using hres'.symm.trans hres
      rwa [← hlive] at hinv'

/-- Over a page-aligned base the live blocks are aligned. -/
theorem heapInv_iff (hbase : PageAligned allocator.baseAddr.addr) :
    HeapInv allocator s ↔ HeapPacked allocator s :=
  ⟨fun h => ⟨h.pooled, h.served, h.nonnull, fun _ => h.aligned⟩,
    fun h => ⟨h.pooled, h.served, h.nonnull, h.aligned hbase⟩⟩

theorem HeapInv.dealloc {e : Usize × Layout} (hbase : PageAligned allocator.baseAddr.addr)
    (h : HeapInv allocator s) (he : e ∈ s.live) :
    ∃ h', s.heap.dealloc e.1 e.2 = some h' ∧ HeapInv allocator ⟨h', s.live.erase e⟩ := by
  obtain ⟨h', hres, hinv⟩ := ((heapInv_iff hbase).1 h).dealloc he
  exact ⟨h', hres, (heapInv_iff hbase).2 hinv⟩

theorem heapSystem_inv {links : SideLinks Usize} (hbase : PageAligned allocator.baseAddr.addr)
    (h : (heapSystem allocator links).Reach Runs.anyStep s) : HeapInv allocator s := by
  refine (heapInv_iff hbase).2 (h.invariant ?_ fun s op s' hinv _ hs => hinv.step hs)
  rintro _ rfl
  exact heapPacked_new allocator links

/-- The live allocations do not overlap, and are aligned to their layouts. -/
theorem HeapInv.disjoint (h : HeapInv allocator s) :
    (∀ e ∈ s.live, e.2.align ∣ e.1.toNat) ∧
      s.live.Pairwise fun e f => Disjoint (region e.1 e.2.size) (region f.1 f.2.size) := by
  obtain ⟨ls, fs, lost, hp⟩ := h.pooled
  refine ⟨fun e he => (h.served e he).dvd (h.aligned e he), ?_⟩
  have hpack := (packed_append.1 (packed_append.1 (packed_append.1 hp.pooled.packed).2.1).2.1).1
  refine List.Pairwise.imp_of_mem (fun {e f} he hf hd => ?_) (List.pairwise_map.1 hpack)
  exact Set.disjoint_of_subset (region_mono _ (h.served e he).size_le)
    (region_mono _ (h.served f hf).size_le) hd

/-- In every reachable state the live allocations are aligned and disjoint, every non-null pointer
a further call returns is aligned and disjoint from them, and no call gets stuck. -/
theorem heap_allocations_disjoint {links : SideLinks Usize}
    (hbase : PageAligned allocator.baseAddr.addr)
    (h : (heapSystem allocator links).Reach Runs.anyStep s) :
    (∀ layout p h', s.heap.alloc layout = some (p, h') → p ≠ 0#64 →
        layout.align ∣ p.toNat ∧
          ∀ e ∈ s.live, Disjoint (region p layout.size) (region e.1 e.2.size)) ∧
      (∀ e ∈ s.live, e.2.align ∣ e.1.toNat) ∧
      (s.live.Pairwise fun e f => Disjoint (region e.1 e.2.size) (region f.1 f.2.size)) ∧
      (∀ e ∈ s.live, ∃ h', s.heap.dealloc e.1 e.2 = some h') ∧
      (allocator.totalPages.toNat ≤ maxPages →
        ∀ layout, ∃ p h', s.heap.alloc layout = some (p, h')) := by
  have hinv := heapSystem_inv hbase h
  refine ⟨fun layout p h' hres hne => ?_, hinv.disjoint.1, hinv.disjoint.2, fun e he => ?_,
    fun htotal layout => ?_⟩
  · have hnext : (heapSystem allocator links).Reach Runs.anyStep ⟨h', (p, layout) :: s.live⟩ :=
      h.step (a := .alloc layout) trivial ⟨p, hres, by rw [if_neg hne]⟩
    obtain ⟨halign, hdisj⟩ := (heapSystem_inv hbase hnext).disjoint
    exact ⟨halign _ (List.mem_cons_self ..), (List.pairwise_cons.1 hdisj).1⟩
  · obtain ⟨h', hres, -⟩ := hinv.dealloc hbase he
    exact ⟨h', hres⟩
  · obtain ⟨ls, fs, lost, hp⟩ := hinv.pooled
    rcases alloc_cases headerFits_sideLinks hp layout with
      ⟨p, h', -, -, hres, -⟩ | ⟨h', -, -, hres, -⟩ | ⟨hmax, -⟩
    · exact ⟨p, h', hres⟩
    · exact ⟨_, h', hres⟩
    · omega

/-! ### Two halves of a page -/

/-- Half a page, aligned to its size. -/
def halfPage : Layout := ⟨2048, 2048, ⟨11, rfl⟩, by decide⟩

/-- A new heap over four pages. -/
def fourPageHeap : HeapAllocator (SideLinks Usize) :=
  .new (.new ⟨0x80000000#64⟩ 4#64) ⟨fun _ => none⟩

/-- The two slots of the first page, handed out one after the other. -/
theorem heap_allocations_disjoint_halves :
    ∃ s, (heapSystem (.new ⟨0x80000000#64⟩ 4#64) ⟨fun _ => none⟩).Reach Runs.anyStep s ∧
      s.live.map Prod.fst = [0x80000800#64, 0x80000000#64] ∧
      s.live.Pairwise fun e f => Disjoint (region e.1 e.2.size) (region f.1 f.2.size) := by
  have hfirst : (fourPageHeap.alloc halfPage).map Prod.fst = some 0x80000000#64 := by
    decide +kernel
  have hsecond : ((fourPageHeap.alloc halfPage).bind fun r =>
      (r.2.alloc halfPage).map Prod.fst) = some 0x80000800#64 := by
    decide +kernel
  obtain ⟨⟨p₁, h₁⟩, hres₁, rfl⟩ := Option.map_eq_some_iff.1 hfirst
  rw [hres₁, Option.bind_some] at hsecond
  obtain ⟨⟨p₂, h₂⟩, hres₂, rfl⟩ := Option.map_eq_some_iff.1 hsecond
  have hinit : (heapSystem (.new ⟨0x80000000#64⟩ 4#64) ⟨fun _ => none⟩).Reach Runs.anyStep
      ⟨fourPageHeap, []⟩ := .init rfl
  have hone : (heapSystem (.new ⟨0x80000000#64⟩ 4#64) ⟨fun _ => none⟩).Reach Runs.anyStep
      ⟨h₁, [(0x80000000#64, halfPage)]⟩ :=
    hinit.step (a := .alloc halfPage) trivial ⟨_, hres₁, rfl⟩
  have htwo : (heapSystem (.new ⟨0x80000000#64⟩ 4#64) ⟨fun _ => none⟩).Reach Runs.anyStep
      ⟨h₂, [(0x80000800#64, halfPage), (0x80000000#64, halfPage)]⟩ :=
    hone.step (a := .alloc halfPage) trivial ⟨_, hres₂, rfl⟩
  exact ⟨_, htwo, rfl, (heap_allocations_disjoint ⟨0x80000, rfl⟩ htwo).2.2.1⟩

end StarOS
