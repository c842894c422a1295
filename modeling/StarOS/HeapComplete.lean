/-
Which layouts the heap serves while there is memory.

The physical allocator under the heap has other callers.  They may make any calls between those on
the heap, as long as they do not free pages the heap has drawn; which pages these are is recorded
beside the heap.  What the heap relies on is that its own blocks stay where they are, so a call of
another caller only moves the state its pages are counted from.

A run of free pages of a block's order is enough for the buddy allocator to hand out a block, and a
free page is enough for the slab allocator.  The classes of the slab allocator end at 2048 bytes and
the buddy allocator is asked from 4096 bytes on, so between the two no allocator serves a layout.

* `StarOS.SharedHeap`, `StarOS.sharedHeapSystem` — the heap beside other callers, and its runs;
* `StarOS.SharedHeap.Inv` — the invariant;
* `StarOS.PhysicalAllocator.HasRun`, `StarOS.PhysicalAllocator.AvoidsNull` — enough free pages, and
  a range without the address zero;
* `StarOS.heap_complete_iff` — with enough free pages a layout is served exactly if its size is in
  one of the two ranges;
* `StarOS.heap_refuses_three_thousand` — a layout between the two.
-/

import StarOS.HeapRuns
import StarOS.PhysicalRuns

set_option autoImplicit false

namespace StarOS

open Region Links LinkStore BuddyAllocator HeapAllocator

/-! ### Other callers of the physical allocator -/

namespace PhysicalAllocator

/-- The allocator with the pages of a set given back. -/
def without (a : PhysicalAllocator) (pages : ℕ → Bool) : PhysicalAllocator :=
  { a with
    bitmap := fun w => BitVec.ofNat 64 (Nat.ofBits fun i : Fin wordBits =>
      a.allocated (w * wordBits + i) && !pages (w * wordBits + i)) }

theorem allocated_without (a : PhysicalAllocator) (pages : ℕ → Bool) (p : ℕ) :
    (a.without pages).allocated p = (a.allocated p && !pages p) := by
  have hlt : p % wordBits < wordBits := Nat.mod_lt _ (by decide)
  have hp : p / wordBits * wordBits + p % wordBits = p := Nat.div_add_mod' p wordBits
  have hword : (a.without pages).allocated p =
      (BitVec.ofNat 64 (Nat.ofBits fun i : Fin wordBits =>
        a.allocated (p / wordBits * wordBits + i) &&
          !pages (p / wordBits * wordBits + i))).getLsbD (p % wordBits) := rfl
  rw [hword, BitVec.getLsbD_ofNat, decide_eq_true (show p % wordBits < 64 from hlt),
    Bool.true_and, Nat.testBit_ofBits_lt _ _ hlt]
  simp only [hp]

/-- The pages in range that are allocated in `a` and were not in `a₀` are these. -/
def Drew (a₀ a : PhysicalAllocator) (pages : ℕ → Bool) : Prop :=
  ∀ p < a.totalPages.toNat, pages p = (a.allocated p && !a₀.allocated p)

/-- The bytes obtained depend only on the pages drawn. -/
theorem Drew.obtained_eq {a₀ a a₀' a' : PhysicalAllocator} {pages : ℕ → Bool}
    (h : a₀.Drew a pages) (h' : a₀'.Drew a' pages) (hsame : a.SameRange a') :
    a₀'.obtained a' = a₀.obtained a := by
  have hpage : ∀ {b₀ b : PhysicalAllocator} {p : ℕ}, b₀.Drew b pages → p < b.totalPages.toNat →
      (b.allocated p = true ∧ b₀.allocated p = false ↔ pages p = true) := by
    intro b₀ b p hd hp
    rw [hd p hp, Bool.and_eq_true, Bool.not_eq_true']
  ext x
  simp only [obtained, Set.mem_ofPred_eq, hsame.pageAddr, hsame.total]
  refine exists_congr fun p => and_congr_right fun hp => and_congr_right fun _ => ?_
  rw [← and_assoc, ← and_assoc, hpage h' (by rw [hsame.total]; exact hp), hpage h hp]

/-- Another caller's call moves the state the pages drawn are counted from. -/
theorem drew_without {a : PhysicalAllocator} {pages : ℕ → Bool}
    (h : ∀ p < a.totalPages.toNat, pages p = true → a.allocated p = true) :
    (a.without pages).Drew a pages ∧ (a.without pages).Grown a := by
  refine ⟨fun p hp => ?_, ⟨rfl, rfl⟩, fun p _ h0 => ?_⟩
  · rw [allocated_without]
    cases hpages : pages p with
    | false => cases a.allocated p <;> rfl
    | true => rw [h p hp hpages]; rfl
  · rw [allocated_without, Bool.and_eq_true] at h0
    exact h0.1

/-! ### Enough free pages -/

/-- There are `n` consecutive free pages. -/
def HasRun (a : PhysicalAllocator) (n : ℕ) : Prop :=
  ∃ s, s + n ≤ a.totalPages.toNat ∧ s + n ≤ maxPages ∧ a.FreeRun s n

/-- No page of the range contains the address zero. -/
def AvoidsNull (a : PhysicalAllocator) : Prop :=
  ∀ p, p < a.totalPages.toNat → p < maxPages → 0#64 ∉ region (a.pageAddr p).addr pageSize

theorem AvoidsNull.of_sameRange {a a' : PhysicalAllocator} (h : a.AvoidsNull)
    (hsame : a.SameRange a') : a'.AvoidsNull := by
  intro p hp hmax
  rw [hsame.total] at hp
  rw [hsame.pageAddr]
  exact h p hp hmax

/-- With the books in order, a run of free pages is enough for a call. -/
theorem Bookkept.allocPages_of_hasRun {a : PhysicalAllocator} (h : a.Bookkept) {n : ℕ} (hn : 0 < n)
    (hrun : a.HasRun n) : ∃ s, a.allocPages n = some (a.claimRun s n) := by
  obtain ⟨s, hs, hmax, hfree⟩ := hrun
  rcases h.allocPages_cases n with ⟨hzero, -⟩ | ⟨hno, -⟩ | ⟨s', -, -, -, hres⟩
  · omega
  · exact absurd hfree (hno s hs hmax)
  · exact ⟨s', hres⟩

/-- A call of `alloc_pages` gives no page back. -/
theorem Bookkept.mono {a a' : PhysicalAllocator} (h : a.Bookkept) {n : ℕ}
    (hs : (PhysOp.allocPages n).step a a') {p : ℕ} (hp : a.allocated p = true) :
    a'.allocated p = true := by
  obtain ⟨r, hs⟩ := hs
  rcases h.allocPages_cases n with ⟨-, hres⟩ | ⟨-, hres | ⟨-, hres⟩⟩ | ⟨s, -, -, -, hres⟩
  · rw [hres] at hs; cases hs; exact hp
  · rw [hres] at hs; cases hs; exact hp
  · rw [hres] at hs; exact absurd hs (by simp)
  · obtain rfl : (a.claimRun s n).2 = a' := by simpa [hres] using congrArg (Option.map Prod.snd) hs
    rw [allocated_claimRun, hp, Bool.true_or]

end PhysicalAllocator

/-! ### What the heap asks of the physical allocator -/

/-- The physical allocator is left as it was, or called once for pages. -/
def Asks (a a' : PhysicalAllocator) : Prop := a' = a ∨ ∃ n, (PhysOp.allocPages n).step a a'

namespace BuddyAllocator

variable {M : Type} [LinkStore Usize M] {b b' : BuddyAllocator M}

theorem splitBlock_allocator {ptr : Usize} {toOrder : ℕ} {r : Except KernelError Usize} :
    ∀ {k : ℕ} {b : BuddyAllocator M}, b.splitBlock ptr toOrder k = some (r, b') →
      b'.allocator = b.allocator := by
  intro k
  induction k with
  | zero =>
      intro b h
      rw [splitBlock] at h
      split at h
      · cases h; rfl
      · cases h
  | succ k ih =>
      intro b h
      rw [splitBlock] at h
      split at h
      · cases h; rfl
      · exact (ih h).trans rfl

omit [LinkStore Usize M] in
theorem allocFresh_asks {order : ℕ} {r : Except KernelError Usize}
    (h : b.allocFresh order = some (r, b')) : Asks b.allocator b'.allocator := by
  rw [allocFresh] at h
  split at h
  · cases h
  · rename_i e a' hres
    cases h
    exact Or.inr ⟨_, _, hres⟩
  · rename_i phys a' hres
    cases h
    exact Or.inr ⟨_, _, hres⟩

theorem allocHigher_asks {order : ℕ} {r : Except KernelError Usize} :
    ∀ {n higherOrder : ℕ}, b.allocHigher order n higherOrder = some (r, b') →
      Asks b.allocator b'.allocator := by
  intro n
  induction n with
  | zero => exact fun h => allocFresh_asks h
  | succ n ih =>
      intro higherOrder h
      rw [allocHigher] at h
      split at h
      · exact Or.inl ((splitBlock_allocator h).trans rfl)
      · exact ih h

theorem alloc_asks {order : ℕ} {r : Except KernelError Usize} (h : b.alloc order = some (r, b')) :
    Asks b.allocator b'.allocator := by
  rw [alloc] at h
  split at h
  · cases h
    exact Or.inl rfl
  · split at h
    · cases h
      exact Or.inl rfl
    · exact allocHigher_asks h

theorem removeFromList_allocator {ptr : Usize} {order : ℕ}
    (h : b.removeFromList ptr order = some b') : b'.allocator = b.allocator := by
  have hloop : ∀ (n : ℕ) (hd : Option Usize), b.removeLoop ptr n hd = some b' →
      b'.allocator = b.allocator := by
    intro n
    induction n with
    | zero =>
        intro hd h
        cases hd with
        | none => cases h; rfl
        | some block => cases h
    | succ n ih =>
        intro hd h
        cases hd with
        | none => cases h; rfl
        | some block =>
            rw [removeLoop] at h
            split at h
            · cases h; rfl
            · exact ih _ h
  rw [removeFromList] at h
  split at h
  · cases h; rfl
  · exact hloop _ _ h

theorem freeAt_allocator {r : Except KernelError Unit} :
    ∀ {n : ℕ} {ptr : Usize} {order : ℕ} {b : BuddyAllocator M},
      b.freeAt n ptr order = some (r, b') → b'.allocator = b.allocator := by
  intro n
  induction n with
  | zero =>
      intro ptr order b h
      cases h; rfl
  | succ n ih =>
      intro ptr order b h
      rw [freeAt] at h
      split at h
      · cases h
      · split at h
        · cases h
        · rename_i b₁ hrem
          exact (ih h).trans (removeFromList_allocator hrem)
      · cases h; rfl

end BuddyAllocator

theorem SlabAllocator.alloc_asks {M : Type} [LinkStore Usize M] {s s' : SlabAllocator M} {size : ℕ}
    {r : Except KernelError Usize} (h : s.alloc size = some (r, s')) :
    Asks s.buddy.allocator s'.buddy.allocator := by
  rw [SlabAllocator.alloc] at h
  split at h
  · cases h
    exact Or.inl rfl
  · dsimp only at h
    split at h
    · cases h
      exact Or.inl rfl
    · split at h
      · cases h
      · rename_i e b hres
        cases h
        exact BuddyAllocator.alloc_asks hres
      · rename_i page b hres
        split at h
        · cases h
        · cases h
          exact (BuddyAllocator.alloc_asks hres : Asks s.buddy.allocator b.allocator)

namespace HeapAllocator

variable {M : Type} [LinkStore Usize M] {h h' : HeapAllocator M}

/-- The physical allocator the heap draws on. -/
def physical (h : HeapAllocator M) : PhysicalAllocator := h.slab.buddy.allocator

/-- The heap over another state of the physical allocator. -/
def withPhysical (h : HeapAllocator M) (a : PhysicalAllocator) : HeapAllocator M :=
  h.withBuddy { h.slab.buddy with allocator := a }

theorem alloc_asks {layout : Layout} {p : Usize} (hs : h.alloc layout = some (p, h')) :
    Asks h.physical h'.physical := by
  have hsame : Asks h.physical h.physical := Or.inl rfl
  rw [alloc] at hs
  dsimp only at hs
  split at hs
  · cases hs; exact hsame
  split at hs
  · cases hs; exact hsame
  split at hs
  · split at hs
    · cases hs; exact hsame
    · split at hs
      · cases hs
      all_goals
        rename_i hres
        cases hs
        exact SlabAllocator.alloc_asks hres
  split at hs
  · cases hs; exact hsame
  split at hs
  · cases hs; exact hsame
  split at hs
  · cases hs
  all_goals
    rename_i hres
    cases hs
    exact BuddyAllocator.alloc_asks hres

theorem dealloc_physical {ptr : Usize} {layout : Layout} (hs : h.dealloc ptr layout = some h') :
    h'.physical = h.physical := by
  rw [dealloc] at hs
  dsimp only at hs
  split at hs
  · cases hs; rfl
  split at hs
  · cases hs; rfl
  split at hs
  · cases hs
    rw [SlabAllocator.free]
    split <;> rfl
  split at hs
  · cases hs; rfl
  split at hs
  · cases hs
  · rename_i hres
    cases hs
    exact BuddyAllocator.freeAt_allocator hres

end HeapAllocator

theorem HeapOp.step_asks {s s' : HeapRun} {op : HeapOp} (h : op.step s s') :
    Asks s.heap.physical s'.heap.physical := by
  cases op with
  | alloc layout =>
      obtain ⟨p, hs, -⟩ := h
      exact HeapAllocator.alloc_asks hs
  | dealloc ptr layout => exact Or.inl (HeapAllocator.dealloc_physical h.2.1)

/-! ### The runs -/

/-- A heap with its live pointers, and the pages it has drawn from the physical allocator. -/
structure SharedHeap extends HeapRun where
  pages : ℕ → Bool

/-- A call on the heap, or another caller's call on the physical allocator. -/
inductive SharedOp where
  | heap (op : HeapOp)
  | physical (op : PhysOp)

/-- The state a call that returns leaves behind.  Other callers do not free the heap's pages. -/
def SharedOp.step (s : SharedHeap) : SharedOp → SharedHeap → Prop
  | heap op, s' =>
      op.step s.toHeapRun s'.toHeapRun ∧
        s'.pages = fun p =>
          s.pages p || (s'.heap.physical.allocated p && !s.heap.physical.allocated p)
  | physical op, s' =>
      ∃ a, op.step s.heap.physical a ∧ (∀ p, s.pages p = true → a.allocated p = true) ∧
        s' = { s with heap := s.heap.withPhysical a }

/-- The runs of a new heap over a new physical allocator. -/
def sharedHeapSystem (base : PhysAddr) (total : Usize) (links : SideLinks Usize) :
    Runs.System SharedHeap SharedOp where
  init := fun s => s =
    { heap := HeapAllocator.new (.new base total) links, live := [], pages := fun _ => false }
  step := fun s op s' => op.step s s'

/-! ### The invariant -/

section Rebase

variable {M : Type} [LinkStore Usize M] {a₀ a₀' a' : PhysicalAllocator} {rest : List (Block 64)}
  {ls fs : ℕ → List Usize}

/-- The blocks may be counted from another state that gives the same bytes. -/
theorem Pooled.rebase {b : BuddyAllocator M} (h : Pooled a₀ b ls rest) (hg : a₀'.Grown a')
    (hobtained : a₀'.obtained a' = a₀.obtained b.allocator) (hbase : a₀'.baseAddr = a₀.baseAddr) :
    Pooled a₀' { b with allocator := a' } ls rest where
  rep := h.rep
  grown := hg
  packed := h.packed
  bytes_eq := h.bytes_eq.trans hobtained.symm
  aligned := by rw [hbase]; exact h.aligned

theorem SlabPooled.rebase {s : SlabAllocator M} (h : SlabPooled a₀ s ls fs rest)
    (hg : a₀'.Grown a') (hobtained : a₀'.obtained a' = a₀.obtained s.buddy.allocator)
    (hbase : a₀'.baseAddr = a₀.baseAddr) :
    SlabPooled a₀' { s with buddy := { s.buddy with allocator := a' } } ls fs rest where
  pooled := h.pooled.rebase hg hobtained hbase
  sizes := h.sizes
  lists := h.lists
  fits := h.fits
  aligned := by rw [hbase]; exact h.aligned

theorem HeapPacked.rebase {s : HeapRun} (h : HeapPacked a₀ s) (hg : a₀'.Grown a')
    (hobtained : a₀'.obtained a' = a₀.obtained s.heap.physical)
    (hbase : a₀'.baseAddr = a₀.baseAddr) :
    HeapPacked a₀' { s with heap := s.heap.withPhysical a' } := by
  obtain ⟨ls, fs, lost, hp⟩ := h.pooled
  exact ⟨⟨ls, fs, lost, hp.rebase hg hobtained hbase⟩, h.served, h.nonnull,
    by rw [hbase]; exact h.aligned⟩

/-- The physical allocator has come from the state the blocks are counted from. -/
theorem HeapPacked.grown {s : HeapRun} (h : HeapPacked a₀ s) : a₀.Grown s.heap.physical := by
  obtain ⟨ls, fs, lost, hp⟩ := h.pooled
  exact hp.pooled.grown

end Rebase

/-- What holds of every state of a run: the books of the physical allocator are in order, and the
blocks of the heap cover the pages it has drawn. -/
structure SharedHeap.Inv (base : PhysAddr) (total : Usize) (s : SharedHeap) : Prop where
  books : s.heap.physical.Bookkept
  range : (PhysicalAllocator.new base total).SameRange s.heap.physical
  packed : ∃ a₀ : PhysicalAllocator, HeapPacked a₀ s.toHeapRun ∧ a₀.Drew s.heap.physical s.pages

namespace SharedHeap

variable {base : PhysAddr} {total : Usize} {s s' : SharedHeap}

theorem inv_new (base : PhysAddr) (total : Usize) (links : SideLinks Usize) :
    Inv base total
      { heap := HeapAllocator.new (.new base total) links, live := [],
        pages := fun _ => false } where
  books := PhysicalAllocator.bookkept_new base total
  range := ⟨rfl, rfl⟩
  packed := ⟨.new base total, heapPacked_new _ links, fun p _ => by
    rw [show (HeapAllocator.new (PhysicalAllocator.new base total) links).physical =
      .new base total from rfl, Bool.and_not_self]⟩

theorem Inv.heap {op : HeapOp} (h : Inv base total s) (hs : (SharedOp.heap op).step s s') :
    Inv base total s' := by
  obtain ⟨hs, hpages⟩ := hs
  obtain ⟨a₀, hpacked, hdrew⟩ := h.packed
  have hkept : s'.heap.physical.Bookkept ∧ s.heap.physical.SameRange s'.heap.physical ∧
      ∀ p, s.heap.physical.allocated p = true → s'.heap.physical.allocated p = true := by
    rcases HeapOp.step_asks hs with hsame | ⟨n, hcall⟩
    · rw [hsame]
      exact ⟨h.books, ⟨rfl, rfl⟩, fun _ hp => hp⟩
    · obtain ⟨hbooks, htotal, hbase⟩ := PhysOp.step_bookkept h.books hcall
      exact ⟨hbooks, ⟨hbase, htotal⟩, fun p hp => h.books.mono hcall hp⟩
  obtain ⟨hbooks, hrange, hmono⟩ := hkept
  refine ⟨hbooks, ⟨hrange.base.trans h.range.base, hrange.total.trans h.range.total⟩, a₀,
    hpacked.step hs, fun p hp => ?_⟩
  rw [hrange.total] at hp
  have hfrom := hpacked.grown.mono p (by rw [← hpacked.grown.total]; exact hp)
  have hto := hmono p
  rw [hpages]
  dsimp only
  rw [hdrew p hp]
  cases h0 : a₀.allocated p with
  | true => rw [hto (hfrom h0), hfrom h0]; rfl
  | false =>
      cases h1 : s.heap.physical.allocated p with
      | true => rw [hto h1]; rfl
      | false => cases s'.heap.physical.allocated p <;> rfl

theorem Inv.physical {op : PhysOp} (h : Inv base total s) (hs : (SharedOp.physical op).step s s') :
    Inv base total s' := by
  obtain ⟨a, hcall, hkeep, rfl⟩ := hs
  obtain ⟨a₀, hpacked, hdrew⟩ := h.packed
  obtain ⟨hbooks, htotal, hbase⟩ := PhysOp.step_bookkept h.books hcall
  obtain ⟨hdrew', hgrown⟩ := PhysicalAllocator.drew_without fun p _ hp => hkeep p hp
  have hsame : s.heap.physical.SameRange a := ⟨hbase, htotal⟩
  exact ⟨hbooks, ⟨hbase.trans h.range.base, htotal.trans h.range.total⟩, a.without s.pages,
    hpacked.rebase hgrown (hdrew.obtained_eq hdrew' hsame) (hbase.trans hpacked.grown.base), hdrew'⟩

end SharedHeap

theorem sharedHeapSystem_inv {base : PhysAddr} {total : Usize} {links : SideLinks Usize}
    {s : SharedHeap} (h : (sharedHeapSystem base total links).Reach Runs.anyStep s) :
    s.Inv base total := by
  refine h.invariant ?_ fun s op s' hinv _ hs => ?_
  · rintro _ rfl
    exact SharedHeap.inv_new base total links
  · cases op with
    | heap op => exact hinv.heap hs
    | physical op => exact hinv.physical hs

/-! ### Enough memory for a layout -/

section Serves

variable {M : Type} [LinkStore Usize M] {a₀ : PhysicalAllocator} {ls fs : ℕ → List Usize}
  {rest : List (Block 64)}

/-- A run of free pages of its order is enough for a call of the buddy allocator. -/
theorem BuddyAllocator.alloc_of_hasRun {b : BuddyAllocator M} {order : ℕ}
    (hfit : ∀ a : Usize, foot M a ⊆ region a pageSize) (ho : order < maxOrder) (hrep : b.Rep ls)
    (hpack : Packed (freeBlocks ls)) (hbooks : b.allocator.Bookkept)
    (hrun : b.allocator.HasRun (2 ^ order)) : ∃ p b', b.alloc order = some (.ok p, b') := by
  rcases BuddyAllocator.alloc_cases hfit ho hrep hpack with ⟨p, b', -, hres, -⟩ | ⟨-, hres⟩
  · exact ⟨p, b', hres⟩
  · obtain ⟨s, hcall⟩ := hbooks.allocPages_of_hasRun (Nat.two_pow_pos order) hrun
    have hpages : 1 <<< order = 2 ^ order := by rw [Nat.shiftLeft_eq, Nat.one_mul]
    refine ⟨(b.allocator.pageAddr s).addr,
      { b with allocator := (b.allocator.claimRun s (2 ^ order)).2 }, ?_⟩
    rw [hres, allocFresh]
    simp only [hpages, hcall, PhysicalAllocator.claimRun]

/-- A free page is enough for a call of the slab allocator. -/
theorem SlabPooled.alloc_of_hasRun {s : SlabAllocator M} {size : ℕ} (hfit : HeaderFits M pageSize)
    (h : SlabPooled a₀ s ls fs rest) (hlow : 0 < size) (hhigh : size ≤ 2048)
    (hbooks : s.buddy.allocator.Bookkept) (hrun : s.buddy.allocator.HasRun 1) :
    ∃ p s', s.alloc size = some (.ok p, s') := by
  cases hl : fs (SlabAllocator.sizeToSlab size) with
  | cons p l =>
      obtain ⟨s', hres, -⟩ := h.alloc_hit hlow hhigh hl
      exact ⟨p, s', hres⟩
  | nil =>
      have hi := (sizeToSlab_spec hhigh).1
      have hempty : (s.slabs (SlabAllocator.sizeToSlab size)).freeList = none := by
        have hlist := h.lists _ hi
        rwa [hl] at hlist
      obtain ⟨page, b', hpage⟩ := BuddyAllocator.alloc_of_hasRun hfit (show 0 < maxOrder by decide)
        h.pooled.rep (packed_append.1 h.pooled.packed).1 hbooks hrun
      exact ⟨page, _, SlabPooled.alloc_refill_eq hlow hhigh hempty (h.sizes _ hi) hpage⟩

/-- No block lies at the address zero if no page of the range does. -/
theorem SlabPooled.ne_zero {s : SlabAllocator M} {p : Usize} {n : ℕ} (hn : 0 < n)
    (h : SlabPooled a₀ s ls fs (⟨p, n⟩ :: rest)) (hnull : a₀.AvoidsNull) : p ≠ 0#64 := by
  have hblock : (⟨p, n⟩ : Block 64) ∈ freeBlocks ls ++ (freeSlots fs ++ ⟨p, n⟩ :: rest) :=
    List.mem_append_right _ (List.mem_append_right _ (List.mem_cons_self ..))
  have hmem := region_subset_bytes hblock (self_mem_region p hn)
  rw [h.pooled.bytes_eq] at hmem
  obtain ⟨page, hpage, hmax, -, -, hin⟩ := hmem
  rintro rfl
  exact (hnull.of_sameRange h.pooled.grown.toSameRange) page hpage hmax hin

namespace HeapAllocator

variable {h : HeapAllocator M} {layout : Layout}

/-- A layout up to the largest class is served if there is a free page. -/
theorem alloc_slab (hfit : ∀ n, 0 < n → HeaderFits M n) (hp : SlabPooled a₀ h.slab ls fs rest)
    (hbooks : h.physical.Bookkept) (hnull : a₀.AvoidsNull) (hrun : h.physical.HasRun 1)
    (hlow : 0 < layout.size) (hhigh : layout.size ≤ 2048) (halign : layout.align ≤ 4096)
    (hclass : layout.align ≤ nextPowerOfTwo (max layout.size 8)) :
    ∃ p h', h.alloc layout = some (p, h') ∧ p ≠ 0#64 := by
  obtain ⟨p, s', hres⟩ := hp.alloc_of_hasRun (hfit _ (by decide)) hlow hhigh hbooks hrun
  have hdef : h.alloc layout = some (p, { h with slab := s' }) := by
    simp only [alloc, hlow.ne', not_lt.2 halign, show layout.size < 4096 by omega,
      not_lt.2 hclass, hres, if_true, if_false]
  refine ⟨p, _, hdef, ?_⟩
  rcases hp.alloc hlow hhigh (hfit _ (by decide)) (hfit _ (slotBytes_pos _)) with
    ⟨p', s'', ls', fs', hres', hp', -⟩ | ⟨e, s'', hres', -⟩ | ⟨-, hres'⟩
  · rw [hres] at hres'
    cases hres'
    exact hp'.ne_zero (slotBytes_pos _) hnull
  · rw [hres] at hres'; cases hres'
  · rw [hres] at hres'; cases hres'

/-- A layout from the page size on is served if there is a run of free pages of its order. -/
theorem alloc_buddy (hfit : ∀ n, 0 < n → HeaderFits M n) (hp : SlabPooled a₀ h.slab ls fs rest)
    (hbooks : h.physical.Bookkept) (hnull : a₀.AvoidsNull)
    (hrun : h.physical.HasRun (2 ^ pagesOrder ((layout.size + 4095) / 4096)))
    (hsize : 4096 ≤ layout.size) (horder : pagesOrder ((layout.size + 4095) / 4096) < maxOrder)
    (halign : layout.align ≤ 4096) : ∃ p h', h.alloc layout = some (p, h') ∧ p ≠ 0#64 := by
  have hpage : HeaderFits M pageSize := hfit _ (by decide)
  have hbound := layout.size_le
  obtain ⟨p, b', hres⟩ := BuddyAllocator.alloc_of_hasRun hpage horder hp.pooled.rep
    (packed_append.1 hp.pooled.packed).1 hbooks hrun
  have hdef : h.alloc layout = some (p, h.withBuddy b') := by
    simp only [alloc, show layout.size ≠ 0 by omega, not_lt.2 halign, not_lt.2 hsize,
      show ¬2 ^ 64 ≤ layout.size + 4095 by omega,
      show ¬11 ≤ pagesOrder ((layout.size + 4095) / 4096) from not_le.2 horder, hres, if_false]
  refine ⟨p, _, hdef, ?_⟩
  rcases hp.buddyAlloc hpage horder with
    ⟨p', b'', ls', hres', hp', -⟩ | ⟨e, b'', hres', -⟩ | ⟨-, hres'⟩
  · rw [hres] at hres'
    cases hres'
    exact hp'.ne_zero (blockBytes_pos _) hnull
  · rw [hres] at hres'; cases hres'
  · rw [hres] at hres'; cases hres'

end HeapAllocator

end Serves

/-- The orders of layouts up to 4 MiB. -/
theorem pagesOrder_lt {layout : Layout} (h : layout.size ≤ 4 * 1024 * 1024) :
    pagesOrder ((layout.size + 4095) / 4096) < maxOrder := by
  have hbound := layout.size_le
  rw [pagesOrder_eq (by omega)]
  have hclog : Nat.clog 2 ((layout.size + 4095) / 4096) ≤ 10 := clog_le_of_le (by omega)
  exact Nat.lt_succ_of_le hclog

/-- The layouts between the two allocators are refused. -/
theorem alloc_between {h : HeapAllocator (SideLinks Usize)} {layout : Layout}
    (hlow : 2048 < layout.size) (hhigh : layout.size < 4096) : h.alloc layout = some (0#64, h) := by
  have hslab : h.slab.alloc layout.size = some (.error (.memory .invalidSize), h.slab) := by
    rw [SlabAllocator.alloc, if_pos (Or.inr hlow)]
  rw [HeapAllocator.alloc]
  simp only [show layout.size ≠ 0 by omega, hhigh, hslab, if_true, ite_self]

/-- **The heap serves every layout the two allocators know.**  In every state reached by calls on
the heap and calls of other callers on the physical allocator, whose range does not contain the
address zero, a layout of 1 byte to 4 MiB whose alignment is at most the page size and that of its
class, and for which there is a run of free pages, gets a non-null pointer exactly if its size is at
most 2048 bytes or at least 4096. -/
theorem heap_complete_iff {base : PhysAddr} {total : Usize} {links : SideLinks Usize}
    {s : SharedHeap} (h : (sharedHeapSystem base total links).Reach Runs.anyStep s)
    (hnull : (PhysicalAllocator.new base total).AvoidsNull) {layout : Layout}
    (hpos : 1 ≤ layout.size) (hsize : layout.size ≤ 4 * 1024 * 1024) (halign : layout.align ≤ 4096)
    (hclass : layout.size < 4096 → layout.align ≤ nextPowerOfTwo (max layout.size 8))
    (hrun : s.heap.physical.HasRun (2 ^ pagesOrder ((layout.size + 4095) / 4096))) :
    (∃ p heap, s.heap.alloc layout = some (p, heap) ∧ p ≠ 0#64) ↔
      layout.size ≤ 2048 ∨ 4096 ≤ layout.size := by
  obtain ⟨hbooks, hrange, a₀, hpacked, -⟩ := sharedHeapSystem_inv h
  have hgrown := hpacked.grown
  have hnull₀ : a₀.AvoidsNull := hnull.of_sameRange
    ⟨hgrown.base.symm.trans hrange.base, hgrown.total.symm.trans hrange.total⟩
  obtain ⟨ls, fs, lost, hp⟩ := hpacked.pooled
  constructor
  · rintro ⟨p, heap, hres, hne⟩
    by_contra hbetween
    rw [alloc_between (by omega) (by omega)] at hres
    cases hres
    exact hne rfl
  · rintro (hsmall | hlarge)
    · have hone : (layout.size + 4095) / 4096 = 1 := by omega
      have hzero : pagesOrder 1 = 0 := by decide
      rw [hone, hzero] at hrun
      exact alloc_slab headerFits_sideLinks hp hbooks hnull₀ hrun hpos hsmall halign
        (hclass (by omega))
    · exact alloc_buddy headerFits_sideLinks hp hbooks hnull₀ hrun hlarge (pagesOrder_lt hsize)
        halign

/-! ### Four pages -/

/-- The new heap over four pages has a free page. -/
theorem fourPageHeap_hasRun : fourPageHeap.physical.HasRun 1 :=
  ⟨0, by decide, by decide, fun i _ => PhysicalAllocator.allocated_new ..⟩

/-- Half a page. -/
theorem heap_complete_half_page :
    ∃ p heap, fourPageHeap.alloc halfPage = some (p, heap) ∧ p ≠ 0#64 := by
  have hinit : (sharedHeapSystem ⟨0x80000000#64⟩ 4#64 ⟨fun _ => none⟩).Reach Runs.anyStep
      ⟨⟨fourPageHeap, []⟩, fun _ => false⟩ := .init rfl
  have hnull : (PhysicalAllocator.new ⟨0x80000000#64⟩ 4#64).AvoidsNull := by
    intro p hp _
    have hlt : p < 4 := hp
    interval_cases p <;> decide
  exact (heap_complete_iff hinit hnull (show 1 ≤ halfPage.size by decide) (by decide) (by decide)
    (by decide) fourPageHeap_hasRun).2 (Or.inl (by decide))

/-- Over a range that starts at the address zero, the first page is handed out as a null pointer. -/
example : ((HeapAllocator.new (.new ⟨0#64⟩ 4#64) (⟨fun _ => none⟩ : SideLinks Usize)).alloc
    ⟨4096, 8, ⟨3, rfl⟩, by decide⟩).map Prod.fst = some 0#64 := by
  decide +kernel

/-- Three thousand bytes, aligned to eight. -/
def threeThousand : Layout := ⟨3000, 8, isPowerOfTwo_eight, by decide⟩

/-- A new heap over four free pages returns a null pointer for three thousand bytes. -/
theorem heap_refuses_three_thousand :
    (∃ s : SharedHeap,
      (sharedHeapSystem ⟨0x80000000#64⟩ 4#64 ⟨fun _ => none⟩).Reach Runs.anyStep s ∧
      s.heap.physical.HasRun (2 ^ pagesOrder ((threeThousand.size + 4095) / 4096)) ∧
      ¬∃ p heap, s.heap.alloc threeThousand = some (p, heap) ∧ p ≠ 0#64) ∧
      threeThousand.size ≤ 4 * 1024 * 1024 ∧
      threeThousand.align ≤ nextPowerOfTwo (max threeThousand.size 8) := by
  refine ⟨⟨⟨⟨fourPageHeap, []⟩, fun _ => false⟩, .init rfl, ?_, ?_⟩, by decide, by decide⟩
  · exact fourPageHeap_hasRun
  · rintro ⟨p, heap, hres, hne⟩
    rw [alloc_between (by decide) (by decide)] at hres
    cases hres
    exact hne rfl

end StarOS
