/-
The kernel heap of `memory/heap.rs`: small layouts go to the slab allocator, large ones to the buddy
allocator it draws on.

The slab allocator's buddy pointer is taken to designate the heap's own buddy allocator, so the heap
is its slab allocator with the buddy allocator in it.  A null pointer is the address zero; a block
that happens to lie there is handed out as a null pointer, and is lost.

* `StarOS.Layout` — layouts, with the conditions the language puts on them;
* `StarOS.HeapAllocator.alloc`, `StarOS.HeapAllocator.dealloc` — the operations;
* `StarOS.HeapAllocator.heapBlock` — the block that serves a layout;
* `StarOS.HeapAllocator.alloc_cases`, `StarOS.HeapAllocator.dealloc_cases` — what the operations do.
-/

import StarOS.Slab

set_option autoImplicit false

namespace StarOS

open Region Links LinkStore BuddyAllocator

/-- A `Layout`: the alignment is a power of two, and the size rounded up to it does not exceed
`isize::MAX`. -/
structure Layout where
  size : ℕ
  align : ℕ
  isPowerOfTwo : align.isPowerOfTwo
  size_le : size + align ≤ 2 ^ 63
  deriving DecidableEq

theorem isPowerOfTwo_eight : Nat.isPowerOfTwo 8 := ⟨3, rfl⟩

/-- The state of a `HeapAllocator`. -/
structure HeapAllocator (M : Type) where
  slab : SlabAllocator M

namespace HeapAllocator

variable {M : Type} [LinkStore Usize M]

/-- `HeapAllocator::new`, in a given memory. -/
def new (allocator : PhysicalAllocator) (mem : M) : HeapAllocator M where
  slab := (SlabAllocator.new (BuddyAllocator.new allocator mem)).init

/-- The order of a number of pages, `pages.next_power_of_two().trailing_zeros()`. -/
def pagesOrder (pages : ℕ) : ℕ := trailingZeros (BitVec.ofNat 64 (nextPowerOfTwo pages))

/-- The heap with another state of its buddy allocator. -/
def withBuddy (h : HeapAllocator M) (buddy : BuddyAllocator M) : HeapAllocator M :=
  { h with slab := { h.slab with buddy := buddy } }

/-- `alloc`. -/
def alloc (h : HeapAllocator M) (layout : Layout) : Option (Usize × HeapAllocator M) :=
  let size := layout.size
  let align := layout.align
  if size = 0 then some (0#64, h)
  else if 4096 < align then some (0#64, h)
  else if size < 4096 then
    if nextPowerOfTwo (max size 8) < align then some (0#64, h)
    else
      match h.slab.alloc size with
      | none => none
      | some (.ok ptr, slab) => some (ptr, { h with slab := slab })
      | some (.error _, slab) => some (0#64, { h with slab := slab })
  else if 2 ^ 64 ≤ size + 4095 then some (0#64, h)
  else
    let pages := (size + 4095) / 4096
    let order := pagesOrder pages
    if 11 ≤ order then some (0#64, h)
    else
      match h.slab.buddy.alloc order with
      | none => none
      | some (.ok ptr, buddy) => some (ptr, h.withBuddy buddy)
      | some (.error _, buddy) => some (0#64, h.withBuddy buddy)

/-- `dealloc`. -/
def dealloc (h : HeapAllocator M) (ptr : Usize) (layout : Layout) : Option (HeapAllocator M) :=
  if ptr = 0#64 then some h
  else
    let size := layout.size
    if size = 0 then some h
    else if size < 4096 then some { h with slab := (h.slab.free ptr size).2 }
    else
      let pages := (size + 4095) / 4096
      let order := pagesOrder pages
      if 11 ≤ order then some h
      else
        match h.slab.buddy.free ptr order with
        | none => none
        | some (_, buddy) => some (h.withBuddy buddy)

/-! ### The block that serves a layout -/

/-- The bytes of the block that serves a layout of a size. -/
def servedBytes (size : ℕ) : ℕ :=
  if size < 4096 then slotBytes (SlabAllocator.sizeToSlab size)
  else blockBytes (pagesOrder ((size + 4095) / 4096))

/-- The alignment of the block that serves a layout of a size. -/
def servedAlign (size : ℕ) : ℕ :=
  if size < 4096 then slotBytes (SlabAllocator.sizeToSlab size) else pageSize

/-- The block that serves a layout. -/
def heapBlock (e : Usize × Layout) : Block 64 := ⟨e.1, servedBytes e.2.size⟩

/-- The layouts `alloc` tries to serve. -/
structure Served (layout : Layout) : Prop where
  pos : 0 < layout.size
  small : layout.size < 4096 → layout.size ≤ 2048
  large : 4096 ≤ layout.size → pagesOrder ((layout.size + 4095) / 4096) < maxOrder
  align : layout.align ≤ servedAlign layout.size

theorem pagesOrder_eq {size : ℕ} (h : size ≤ 2 ^ 63) :
    pagesOrder ((size + 4095) / 4096) = Nat.clog 2 ((size + 4095) / 4096) := by
  have hclog : Nat.clog 2 ((size + 4095) / 4096) ≤ 52 := by
    refine clog_le_of_le ?_
    omega
  rw [pagesOrder, nextPowerOfTwo, trailingZeros_two_pow (by omega)]

/-- A layout fits the block that serves it. -/
theorem Served.size_le {layout : Layout} (h : Served layout) :
    layout.size ≤ servedBytes layout.size := by
  unfold servedBytes
  split
  · rename_i hsize
    exact le_slotBytes (h.small hsize)
  · have hbound := layout.size_le
    have hle := le_nextPowerOfTwo ((layout.size + 4095) / 4096)
    rw [pagesOrder_eq (by omega), blockBytes_eq, Nat.pow_add]
    rw [nextPowerOfTwo] at hle
    omega

/-- A block that is aligned as the ones that serve a layout is aligned to the layout. -/
theorem Served.dvd {layout : Layout} (h : Served layout) {n : ℕ}
    (hn : servedAlign layout.size ∣ n) : layout.align ∣ n := by
  refine dvd_trans ?_ hn
  obtain ⟨k, hk⟩ := layout.isPowerOfTwo
  obtain ⟨j, hj⟩ : ∃ j, servedAlign layout.size = 2 ^ j := by
    unfold servedAlign
    split
    · exact ⟨_, slotBytes_eq _⟩
    · exact ⟨12, rfl⟩
  have hle := h.align
  rw [hj, hk] at hle
  rw [hj, hk]
  exact Nat.pow_dvd_pow 2 ((Nat.pow_le_pow_iff_right (by decide)).1 hle)

/-! ### What the calls do -/

variable {allocator : PhysicalAllocator} {h : HeapAllocator M} {ls fs : ℕ → List Usize}
  {rest : List (Block 64)}

/-- The outcome of a call of `alloc`: a block beside the ones handed out, a null pointer, or a panic
because the physical allocator's range exceeds its bitmap. -/
def Allocates (allocator : PhysicalAllocator) (h : HeapAllocator M) (layout : Layout)
    (rest : List (Block 64)) : Prop :=
  (∃ p h' ls' fs', h.alloc layout = some (p, h') ∧ Served layout ∧
      SlabPooled allocator h'.slab ls' fs' (heapBlock (p, layout) :: rest) ∧
      (PageAligned allocator.baseAddr.addr → servedAlign layout.size ∣ p.toNat)) ∨
    (∃ h' ls' fs', h.alloc layout = some (0#64, h') ∧
      SlabPooled allocator h'.slab ls' fs' rest) ∨
    (maxPages < allocator.totalPages.toNat ∧ h.alloc layout = none)

/-- The outcome of a call of `dealloc`: the block joins the free ones, or a merged block is lost. -/
def Deallocates (allocator : PhysicalAllocator) (h : HeapAllocator M) (e : Usize × Layout)
    (rest : List (Block 64)) : Prop :=
  ∃ h' ls' fs' lost, h.dealloc e.1 e.2 = some h' ∧
    SlabPooled allocator h'.slab ls' fs' (lost ++ rest)

section Calls

variable (hfit : ∀ n, 0 < n → HeaderFits M n) {layout : Layout}
include hfit

/-- A layout below the page size goes to the slab allocator. -/
theorem alloc_small (hp : SlabPooled allocator h.slab ls fs rest) (hzero : layout.size ≠ 0)
    (halign : layout.align ≤ 4096) (hsize : layout.size < 4096)
    (hclass : layout.align ≤ nextPowerOfTwo (max layout.size 8)) :
    Allocates allocator h layout rest := by
  have hdef : h.alloc layout =
      match h.slab.alloc layout.size with
      | none => none
      | some (.ok ptr, slab) => some (ptr, { h with slab := slab })
      | some (.error _, slab) => some (0#64, { h with slab := slab }) := by
    simp only [alloc, hzero, not_lt.2 halign, hsize, not_lt.2 hclass, if_true, if_false]
  rcases Nat.lt_or_ge 2048 layout.size with hbig | hsmall
  · -- a size between the largest class and the page size is refused by the slab allocator
    have hres : h.slab.alloc layout.size = some (.error (.memory .invalidSize), h.slab) := by
      rw [SlabAllocator.alloc, if_pos (Or.inr hbig)]
    exact Or.inr (Or.inl ⟨h, ls, fs, by rw [hdef, hres], hp⟩)
  · have hpos := Nat.pos_of_ne_zero hzero
    rcases hp.alloc hpos hsmall (hfit _ (by decide)) (hfit _ (slotBytes_pos _)) with
      ⟨p, s', ls', fs', hres, hp', ha⟩ | ⟨e, s', hres, hp'⟩ | ⟨hmax, hres⟩
    · have hbytes : servedBytes layout.size =
          slotBytes (SlabAllocator.sizeToSlab layout.size) := if_pos hsize
      have hunit : servedAlign layout.size =
          slotBytes (SlabAllocator.sizeToSlab layout.size) := if_pos hsize
      refine Or.inl ⟨p, { h with slab := s' }, ls', fs', by rw [hdef, hres], ?_, ?_, ?_⟩
      · refine ⟨hpos, fun _ => hsmall, fun hge => by omega, ?_⟩
        rw [hunit, (sizeToSlab_spec hsmall).2]
        exact hclass
      · rw [heapBlock, hbytes]
        exact hp'
      · rw [hunit]
        exact ha
    · exact Or.inr (Or.inl ⟨{ h with slab := s' }, ls, fs, by rw [hdef, hres], hp'⟩)
    · exact Or.inr (Or.inr ⟨hmax, by rw [hdef, hres]⟩)

/-- A layout from the page size on goes to the buddy allocator. -/
theorem alloc_large (hp : SlabPooled allocator h.slab ls fs rest)
    (halign : layout.align ≤ 4096) (hsize : 4096 ≤ layout.size)
    (horder : pagesOrder ((layout.size + 4095) / 4096) < maxOrder) :
    Allocates allocator h layout rest := by
  have hbound := layout.size_le
  have hzero : layout.size ≠ 0 := by omega
  have hover : ¬2 ^ 64 ≤ layout.size + 4095 := by omega
  have hpage : HeaderFits M pageSize := hfit _ (by decide)
  have hdef : h.alloc layout =
      match h.slab.buddy.alloc (pagesOrder ((layout.size + 4095) / 4096)) with
      | none => none
      | some (.ok ptr, buddy) => some (ptr, h.withBuddy buddy)
      | some (.error _, buddy) => some (0#64, h.withBuddy buddy) := by
    simp only [alloc, hzero, not_lt.2 halign, not_lt.2 hsize, hover,
      show ¬11 ≤ pagesOrder ((layout.size + 4095) / 4096) from not_le.2 horder, if_false]
  rcases hp.buddyAlloc hpage horder with
    ⟨p, b', ls', hres, hp', ha⟩ | ⟨e, b', hres, hp'⟩ | ⟨hmax, hres⟩
  · have hbytes : servedBytes layout.size = blockBytes (pagesOrder ((layout.size + 4095) / 4096)) :=
      if_neg (not_lt.2 hsize)
    have hunit : servedAlign layout.size = pageSize := if_neg (not_lt.2 hsize)
    refine Or.inl ⟨p, h.withBuddy b', ls', fs, by rw [hdef, hres], ?_, ?_, ?_⟩
    · exact ⟨by omega, fun hlt => by omega, fun _ => horder, by rw [hunit]; exact halign⟩
    · rw [heapBlock, hbytes]
      exact hp'
    · rw [hunit]
      exact ha
  · exact Or.inr (Or.inl ⟨h.withBuddy b', ls, fs, by rw [hdef, hres], hp'⟩)
  · exact Or.inr (Or.inr ⟨hmax, by rw [hdef, hres]⟩)

/-- What `alloc` does. -/
theorem alloc_cases (hp : SlabPooled allocator h.slab ls fs rest) (layout : Layout) :
    Allocates allocator h layout rest := by
  have hnull : h.alloc layout = some (0#64, h) → Allocates allocator h layout rest :=
    fun hres => Or.inr (Or.inl ⟨h, ls, fs, hres, hp⟩)
  have hbound := layout.size_le
  by_cases hzero : layout.size = 0
  · exact hnull (by simp only [alloc, hzero, if_true])
  by_cases halign : 4096 < layout.align
  · exact hnull (by simp only [alloc, hzero, halign, if_true, if_false])
  by_cases hsize : layout.size < 4096
  · by_cases hclass : nextPowerOfTwo (max layout.size 8) < layout.align
    · exact hnull (by simp only [alloc, hzero, halign, hsize, hclass, if_true, if_false])
    · exact alloc_small hfit hp hzero (not_lt.1 halign) hsize (not_lt.1 hclass)
  · rcases Nat.lt_or_ge (pagesOrder ((layout.size + 4095) / 4096)) maxOrder with horder | horder
    · exact alloc_large hfit hp (not_lt.1 halign) (not_lt.1 hsize) horder
    · have hover : ¬2 ^ 64 ≤ layout.size + 4095 := by omega
      refine hnull ?_
      simp only [alloc, hzero, halign, hsize, hover,
        show 11 ≤ pagesOrder ((layout.size + 4095) / 4096) from horder, if_true, if_false]

/-- What `dealloc` does with a block that is handed in with its layout. -/
theorem dealloc_cases {e : Usize × Layout}
    (hp : SlabPooled allocator h.slab ls fs (heapBlock e :: rest)) (hserved : Served e.2)
    (hne : e.1 ≠ 0#64)
    (ha : PageAligned allocator.baseAddr.addr → servedAlign e.2.size ∣ e.1.toNat) :
    Deallocates allocator h e rest := by
  obtain ⟨p, layout⟩ := e
  have hzero : layout.size ≠ 0 := hserved.pos.ne'
  have hpage : HeaderFits M pageSize := hfit _ (by decide)
  rcases Nat.lt_or_ge layout.size 4096 with hsize | hsize
  · have hbytes : servedBytes layout.size =
        slotBytes (SlabAllocator.sizeToSlab layout.size) := if_pos hsize
    have hunit : servedAlign layout.size =
        slotBytes (SlabAllocator.sizeToSlab layout.size) := if_pos hsize
    rw [heapBlock, hbytes] at hp
    rw [hunit] at ha
    obtain ⟨s', hres, hp', -⟩ := hp.free hserved.pos (hserved.small hsize) hpage
      (hfit _ (slotBytes_pos _)) ha
    refine ⟨{ h with slab := s' }, _, _, [], ?_, hp'⟩
    simp only [dealloc, hne, hzero, hsize, hres, if_true, if_false]
  · have hbytes : servedBytes layout.size = blockBytes (pagesOrder ((layout.size + 4095) / 4096)) :=
      if_neg (not_lt.2 hsize)
    have hunit : servedAlign layout.size = pageSize := if_neg (not_lt.2 hsize)
    have horder := hserved.large hsize
    rw [heapBlock, hbytes] at hp
    rw [hunit] at ha
    obtain ⟨r, b', ls', lost, hres, hp'⟩ := hp.buddyFree hpage horder ha
    refine ⟨h.withBuddy b', ls', fs, lost, ?_, hp'⟩
    simp only [dealloc, hne, hzero, not_lt.2 hsize, hres,
      show ¬11 ≤ pagesOrder ((layout.size + 4095) / 4096) from not_le.2 horder, if_false]

end Calls

end HeapAllocator

end StarOS
