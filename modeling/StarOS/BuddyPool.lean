/-
A buddy allocator beside the blocks it has handed out.

Whoever calls the buddy allocator holds some blocks of memory: live blocks, blocks it has cut up
further, blocks that got lost.  `Pooled` says that the free blocks and those blocks are packed and
cover exactly the bytes obtained from the physical allocator since the beginning.  The calls of the
buddy allocator move blocks between the two sides.

* `StarOS.Pooled` — the free blocks and the blocks beside them;
* `StarOS.Pooled.alloc`, `StarOS.Pooled.free` — what the calls do to them;
* `StarOS.Pooled.recut`, `StarOS.Pooled.withMem` — cutting up a block, and writing to memory beside
  the free blocks.
-/

import StarOS.Buddy

set_option autoImplicit false

namespace StarOS

open Region Links LinkStore BuddyAllocator

variable {M : Type} [LinkStore Usize M]

/-- The free blocks and the blocks `rest` beside them cover exactly the bytes obtained since
`allocator`, each byte once. -/
structure Pooled (allocator : PhysicalAllocator) (b : BuddyAllocator M) (ls : ℕ → List Usize)
    (rest : List (Block 64)) : Prop where
  rep : b.Rep ls
  grown : allocator.Grown b.allocator
  packed : Packed (freeBlocks ls ++ rest)
  bytes_eq : bytes (freeBlocks ls ++ rest) = allocator.obtained b.allocator
  aligned : PageAligned allocator.baseAddr.addr → AllAligned (freeBlocks ls)

namespace Pooled

variable {allocator : PhysicalAllocator} {b b' : BuddyAllocator M} {ls ls' : ℕ → List Usize}
  {rest rest' bs bs' : List (Block 64)} {p : Usize} {order : ℕ}

theorem new (allocator : PhysicalAllocator) (mem : M) :
    Pooled allocator (BuddyAllocator.new allocator mem) (fun _ => []) [] where
  rep := rep_new allocator mem
  grown := .refl allocator
  packed := by simp
  bytes_eq := by simp [BuddyAllocator.new]
  aligned _ := by simp [AllAligned]

theorem perm (h : Pooled allocator b ls rest) (hp : rest.Perm rest') :
    Pooled allocator b ls rest' where
  rep := h.rep
  grown := h.grown
  packed := h.packed.perm (hp.append_left _)
  bytes_eq := by rw [← h.bytes_eq, bytes_perm (hp.append_left _)]
  aligned := h.aligned

/-- The holder of blocks may re-cut them. -/
theorem recut (h : Pooled allocator b ls (bs ++ rest)) (hp : Packed bs')
    (hb : bytes bs' = bytes bs) :
    Pooled allocator b ls (bs' ++ rest) := by
  obtain ⟨h1, h2, h3⟩ := packed_append.1 h.packed
  have hsame : bytes (bs' ++ rest) = bytes (bs ++ rest) := by
    rw [bytes_append, bytes_append, hb]
  refine ⟨h.rep, h.grown, packed_append.2 ⟨h1, h2.replace hp hb.subset, hsame ▸ h3⟩, ?_, h.aligned⟩
  rw [bytes_append, hsame, ← bytes_append, h.bytes_eq]

/-- The holder of blocks may write to them. -/
theorem withMem (hfit : ∀ a : Usize, foot M a ⊆ region a pageSize)
    (h : Pooled allocator b ls rest) {mem : M} (hm : Keeps b.mem mem (bytes rest)) :
    Pooled allocator { b with mem := mem } ls rest := by
  refine ⟨fun k hk => hm.isList (h.rep k hk) fun a ha => ?_, h.grown, h.packed, h.bytes_eq,
    h.aligned⟩
  have hfree : (⟨a, blockBytes k⟩ : Block 64) ∈ freeBlocks ls := mem_pool.2 ⟨k, hk, a, ha, rfl⟩
  refine Set.disjoint_of_subset_left ?_ (packed_append.1 h.packed).2.2
  have hpage := region_mono a (pageSize_le_blockBytes k)
  exact ((hfit a).trans hpage).trans (region_subset_bytes hfree)

/-- Re-cutting the free blocks together with blocks handed in. -/
theorem recut_free (h : Pooled allocator b ls (bs ++ rest)) (hr : Recut b ls bs b' ls' bs')
    (ha : PageAligned allocator.baseAddr.addr → AllAligned bs) :
    Pooled allocator b' ls' (bs' ++ rest) := by
  have hin : (freeBlocks ls ++ (bs ++ rest)).Perm ((bs ++ freeBlocks ls) ++ rest) := by
    rw [← List.append_assoc]
    exact List.perm_append_comm.append_right rest
  have hout : ((bs' ++ freeBlocks ls') ++ rest).Perm (freeBlocks ls' ++ (bs' ++ rest)) := by
    rw [← List.append_assoc (freeBlocks ls')]
    exact List.perm_append_comm.append_right rest
  refine ⟨hr.rep, hr.allocator ▸ h.grown,
    ((h.packed.perm hin).replace hr.packed hr.bytes_eq.subset).perm hout, ?_, fun hbase => ?_⟩
  · rw [← bytes_perm hout, bytes_append, hr.bytes_eq, ← bytes_append, ← bytes_perm hin, h.bytes_eq,
      hr.allocator]
  · exact (allAligned_append.1
      (hr.aligned (allAligned_append.2 ⟨ha hbase, h.aligned hbase⟩))).2

/-- A refused call changes nothing. -/
theorem refuses (h : Pooled allocator b ls rest) {a' : PhysicalAllocator}
    (hr : b.allocator.Refuses a') : Pooled allocator { b with allocator := a' } ls rest where
  rep := h.rep
  grown := hr.grown h.grown
  packed := h.packed
  bytes_eq := h.bytes_eq.trans hr.obtained_eq.symm
  aligned := h.aligned

/-- Fresh pages come in beside the free blocks. -/
theorem grants (h : Pooled allocator b ls rest) {a' : PhysicalAllocator} {s : ℕ}
    (hg : b.allocator.Grants a' s (2 ^ order)) :
    Pooled allocator { b with allocator := a' } ls
      (⟨(b.allocator.pageAddr s).addr, blockBytes order⟩ :: rest) := by
  have hrange : (⟨(b.allocator.pageAddr s).addr, blockBytes order⟩ : Block 64).range =
      region (b.allocator.pageAddr s).addr (2 ^ order * pageSize) := by
    rw [pages_blockBytes]
    rfl
  refine ⟨h.rep, hg.grown h.grown, ?_, ?_, h.aligned⟩
  · refine Packed.perm (packed_cons.2 ⟨?_, h.packed⟩) List.perm_middle.symm
    rw [hrange, h.bytes_eq]
    exact hg.disjoint
  · rw [bytes_perm List.perm_middle, bytes_cons, hrange, h.bytes_eq]
    exact (hg.obtained_eq h.grown).symm

section Calls

variable (hfit : ∀ a : Usize, foot M a ⊆ region a pageSize)
include hfit

/-- What `alloc` does: hand out a block and write headers in free blocks only, refuse and change
nothing, or panic because the physical allocator's range exceeds its bitmap. -/
theorem alloc (h : Pooled allocator b ls rest) (ho : order < maxOrder) :
    (∃ p b' ls' ws, b.alloc order = some (.ok p, b') ∧
        Pooled allocator b' ls' (⟨p, blockBytes order⟩ :: rest) ∧
        (PageAligned allocator.baseAddr.addr → PageAligned p) ∧
        Stores b.mem ws b'.mem ∧ ∀ w ∈ ws, region w pageSize ⊆ bytes (freeBlocks ls)) ∨
      (∃ b', b.alloc order = some (.error (.memory .outOfMemory), b') ∧
        Pooled allocator b' ls rest ∧ b'.mem = b.mem) ∨
      (maxPages < allocator.totalPages.toNat ∧ b.alloc order = none) := by
  rcases alloc_cases hfit ho h.rep (packed_append.1 h.packed).1 with
    ⟨p, b', ls', hres, hrec⟩ | ⟨-, hres⟩
  · obtain ⟨ws, hs, hw⟩ := hrec.stores
    have hnone : Pooled allocator b ls ([] ++ rest) := h
    refine Or.inl ⟨p, b', ls', ws, hres, recut_free hnone hrec (by simp [AllAligned]),
      fun hbase => ?_, hs, fun w hmem => (hw w hmem).1⟩
    exact hrec.aligned (h.aligned hbase) _ (List.mem_cons_self ..)
  · rcases allocFresh_cases b order with ⟨hmax, hnone⟩ | ⟨a', href, herr⟩ | ⟨s, a', hgr, hok⟩
    · exact Or.inr (Or.inr ⟨by rw [← h.grown.total]; exact hmax, hres.trans hnone⟩)
    · exact Or.inr (Or.inl ⟨_, hres.trans herr, h.refuses href, rfl⟩)
    · refine Or.inl ⟨_, _, ls, [], hres.trans hok, h.grants hgr, fun hbase => ?_, .nil _, by simp⟩
      exact PhysicalAllocator.pageAligned_pageAddr (by rw [h.grown.base]; exact hbase) s

/-- What `free` does to a block that is handed in: it joins the free blocks, or, when it merges past
the top order, a merged block comes out on neither side. -/
theorem free (h : Pooled allocator b ls (⟨p, blockBytes order⟩ :: rest)) (ho : order < maxOrder)
    (ha : PageAligned allocator.baseAddr.addr → PageAligned p) :
    ∃ r b' ls' ws lost, b.free p order = some (r, b') ∧ Pooled allocator b' ls' (lost ++ rest) ∧
      Packed (lost ++ freeBlocks ls') ∧
      (b.mergesPastTop p order = false ∧ r = .ok () ∧ lost = [] ∨
        b.mergesPastTop p order = true ∧ r = .error (.memory .invalidSize) ∧
          ∃ q, lost = [⟨q, blockBytes maxOrder⟩]) ∧
      Stores b.mem ws b'.mem ∧
      ∀ w ∈ ws, region w pageSize ⊆ bytes (⟨p, blockBytes order⟩ :: freeBlocks ls) := by
  have hpack : Packed ([⟨p, blockBytes order⟩] ++ freeBlocks ls) :=
    (h.packed.perm List.perm_middle).sublist
      (List.Sublist.cons_cons _ (List.sublist_append_left _ rest))
  have hone : Pooled allocator b ls ([⟨p, blockBytes order⟩] ++ rest) := h
  have halign : PageAligned allocator.baseAddr.addr →
      AllAligned [(⟨p, blockBytes order⟩ : Block 64)] := by
    intro hbase B hB
    rw [List.mem_singleton.1 hB]
    exact ha hbase
  rcases free_cases hfit ho h.rep hpack with
    ⟨hno, b', ls', hres, hrec⟩ | ⟨hyes, b', ls', q, hres, hrec⟩
  · obtain ⟨ws, hs, hw⟩ := hrec.stores
    exact ⟨_, b', ls', ws, [], hres, recut_free hone hrec halign, hrec.packed,
      Or.inl ⟨hno, rfl, rfl⟩, hs, fun w hmem => (hw w hmem).1⟩
  · obtain ⟨ws, hs, hw⟩ := hrec.stores
    exact ⟨_, b', ls', ws, _, hres, recut_free hone hrec halign, hrec.packed,
      Or.inr ⟨hyes, rfl, q, rfl⟩, hs, fun w hmem => (hw w hmem).1⟩

end Calls

end Pooled

end StarOS
