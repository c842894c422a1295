/-
The pool of small DMA blocks (`drivers/dma/pool.rs`).

A pool takes pages from `dma_alloc_coherent`, and hands out blocks from a free list that is threaded
through them.  `initialise_page` cuts a page into blocks, but `alloc` puts the page it got aside and
never calls it, so the free list of a pool stays empty: no call ever hands out a block, and what is
asked of the calls holds exactly as long as there is no page to take blocks from.  The cutting
itself is as it should be.

* `StarOS.DmaPool`, `StarOS.DmaPool.new`, `StarOS.DmaPool.alloc`, `StarOS.DmaPool.free` — the code;
* `StarOS.DmaPool.initialisePage` — cutting a page into blocks;
* `StarOS.DmaPool.BlockOk` — what is asked of a block;
* `StarOS.DmaPool.Carved`, `StarOS.DmaPool.initialisePage_spec` — the invariant of the cutting loop,
  and that it leaves a free list of such blocks;
* `StarOS.DmaRun`, `StarOS.DmaRun.next`, `StarOS.DmaRun.Served` — runs, and what is asked of a call;
* `StarOS.dmaPool_served_iff` — a run is served exactly if it is never given a page;
* `StarOS.dmaPool_alloc_null` — a first call that gets a page, and hands out no block.
-/

import StarOS.Links
import StarOS.Loops
import StarOS.Region
import StarOS.Runs
import StarOS.Word

set_option autoImplicit false

namespace StarOS

open Region Links LinkStore

/-! ### Data -/

/-- `DmaBlock`: the header of a free block. -/
structure DmaBlock where
  nextBlock : Option Usize
  dma : BitVec 64
  deriving DecidableEq, Repr

/-- The block headers in memory, by address. -/
abbrev DmaMem := Usize → DmaBlock

/-- `DmaPage`: a buffer of `dma_alloc_coherent`, with its address on the bus. -/
structure DmaPage where
  vaddr : Usize
  dma : BitVec 64
  deriving DecidableEq, Repr

/-- `core::mem::size_of::<DmaBlock>()`: an optional pointer takes two words. -/
def dmaBlockBytes : Usize := 24#64

/-- `DmaPool`.  The device, which is only passed on to `dma_alloc_coherent`, is left out. -/
structure DmaPool where
  name : String
  size : Usize
  allocation : Usize
  boundary : Usize
  pages : List DmaPage
  nextBlock : Option Usize
  nrBlocks : Usize
  nrActive : Usize
  nrPages : Usize
  deriving DecidableEq, Repr

namespace DmaPool

/-- The pool of `DmaPool::new` that passed the checks. -/
def ofSizes (name : String) (size allocation boundary : Usize) : DmaPool where
  name := name
  size := size
  allocation := allocation
  boundary := boundary
  pages := []
  nextBlock := none
  nrBlocks := 0#64
  nrActive := 0#64
  nrPages := 0#64

/-- The alignment of a pool: zero stands for one. -/
def alignOf (align : Usize) : Usize := if align = 0#64 then 1#64 else align

/-- The size of the blocks of a pool: room for a header, rounded up to the alignment.  The sum wraps
for a size close to the end of the address space. -/
def blockSize (size align : Usize) : Usize :=
  let size := if size < dmaBlockBytes then dmaBlockBytes else size
  (size + align - 1#64) &&& ~~~(align - 1#64)

/-- The length of the pages of a pool: `PAGE_SIZE`, or more for large blocks. -/
def pageBytes (size : Usize) : Usize := if size < 4096#64 then 4096#64 else size

/-- `DmaPool::new`. -/
def new (name : String) (size align boundary : Usize) : Option DmaPool :=
  if size = 0#64 then none
  else
    let align := alignOf align
    if align &&& (align - 1#64) ≠ 0#64 then none
    else
      let size := blockSize size align
      let allocation := pageBytes size
      if boundary = 0#64 then some (ofSizes name size allocation allocation)
      else if boundary < size ∨ boundary &&& (boundary - 1#64) ≠ 0#64 then none
      else
        let boundary := if allocation < boundary then allocation else boundary
        some (ofSizes name size allocation boundary)

/-- Taking the first block of the free list, with its bus address. -/
def popBlock (p : DmaPool) (mem : DmaMem) (block : Usize) : DmaPool × Usize × BitVec 64 :=
  ({ p with nextBlock := (mem block).nextBlock, nrActive := p.nrActive + 1#64 },
    block, (mem block).dma)

/-- `DmaPool::alloc`, where `coherent` is what `dma_alloc_coherent` returns if it is called: the
pool afterwards, the pointer, and the handle. -/
def alloc (p : DmaPool) (mem : DmaMem) (handle : BitVec 64) (coherent : Option DmaPage) :
    DmaPool × Usize × BitVec 64 :=
  match p.nextBlock with
  | some block => p.popBlock mem block
  | none =>
      match coherent with
      | none => (p, 0#64, handle)
      | some page =>
          -- the page is kept, but not passed to `initialise_page`
          let p := { p with pages := p.pages ++ [page] }
          match p.nextBlock with
          | some block => p.popBlock mem block
          | none => (p, 0#64, handle)

/-- `DmaPool::free`. -/
def free (p : DmaPool) (mem : DmaMem) (vaddr : Usize) (dma : BitVec 64) : DmaPool × DmaMem :=
  if vaddr = 0#64 then (p, mem)
  else
    ({ p with nextBlock := some vaddr, nrActive := p.nrActive - 1#64 },
      Function.update mem vaddr ⟨p.nextBlock, dma⟩)

/-- What is asked of a block of a pool that was created for blocks of `size` bytes with alignment
`align`: it lies in a page of the pool, with the bus address that belongs to its place there, is
large enough and aligned, and crosses no multiple of the boundary. -/
def BlockOk (p : DmaPool) (size align : Usize) (ptr : Usize) (handle : BitVec 64) : Prop :=
  ∃ page ∈ p.pages, ∃ offset : ℕ,
    ptr = page.vaddr + BitVec.ofNat 64 offset ∧ handle = page.dma + BitVec.ofNat 64 offset ∧
      offset + p.size.toNat ≤ p.allocation.toNat ∧ size.toNat ≤ p.size.toNat ∧
      (alignOf align).toNat ∣ ptr.toNat ∧
      offset / p.boundary.toNat = (offset + p.size.toNat - 1) / p.boundary.toNat

end DmaPool

/-! ### Cutting a page -/

/-- The block headers are a link store: blocks are far enough apart not to share a header. -/
instance dmaLinks : LinkStore Usize DmaMem where
  getNext m a := (m a).nextBlock
  setNext m a v := Function.update m a { m a with nextBlock := v }
  foot a := {a}
  getNext_setNext m a v := by simp
  getNext_setNext_of_disjoint m a b v h := by
    have hne : a ≠ b := by simpa using h
    simp [Function.update_of_ne hne]

/-- Where the loop of `initialise_page` is in a page. -/
structure DmaCarve where
  offset : Usize
  nextBoundary : Usize
  first : Option Usize
  last : Option Usize
  mem : DmaMem
  nrBlocks : Usize

namespace DmaPool

/-- The memory after a block has been laid out behind the last one. -/
def placeMem (mem : DmaMem) (last : Option Usize) (block : Usize) (dma : BitVec 64) : DmaMem :=
  let mem := Function.update mem block ⟨none, dma⟩
  match last with
  | some last => setNext mem last (some block)
  | none => mem

/-- One round of the loop of `initialise_page`. -/
def carveRound (p : DmaPool) (page : DmaPage) (s : DmaCarve) : Loops.Round DmaCarve DmaCarve :=
  if s.offset + p.size ≤ p.allocation then
    if s.nextBoundary < s.offset + p.size then
      .more { s with offset := s.nextBoundary, nextBoundary := s.nextBoundary + p.boundary }
    else
      let block := page.vaddr + s.offset
      .more
        { offset := s.offset + p.size
          nextBoundary := s.nextBoundary
          first := if s.last = none then some block else s.first
          last := some block
          mem := placeMem s.mem s.last block (page.dma + s.offset)
          nrBlocks := s.nrBlocks + 1#64 }
  else .done s

/-- The loop of `initialise_page` before its first round. -/
def carveStart (p : DmaPool) (mem : DmaMem) : DmaCarve :=
  ⟨0#64, p.boundary, none, none, mem, p.nrBlocks⟩

/-- `initialise_page` behind its loop: the new blocks go in front of the free list. -/
def linkCarved (p : DmaPool) (s : DmaCarve) : DmaPool × DmaMem :=
  match s.last with
  | some last =>
      ({ p with nextBlock := s.first, nrBlocks := s.nrBlocks, nrPages := p.nrPages + 1#64 },
        setNext s.mem last p.nextBlock)
  | none => ({ p with nrBlocks := s.nrBlocks, nrPages := p.nrPages + 1#64 }, s.mem)

/-- `DmaPool::initialise_page`, with a loop of at most the given number of rounds. -/
def initialisePage (p : DmaPool) (page : DmaPage) (mem : DmaMem) (rounds : ℕ) :
    Option (DmaPool × DmaMem) :=
  (Loops.run (p.carveRound page) rounds (p.carveStart mem)).map p.linkCarved

/-- The sizes of a pool for blocks that are aligned to `a`. -/
structure Sized (p : DmaPool) (a : ℕ) : Prop where
  size_pos : 0 < p.size.toNat
  size_le : p.size.toNat ≤ p.boundary.toNat
  boundary_le : p.boundary.toNat ≤ p.allocation.toNat
  align_size : a ∣ p.size.toNat
  align_boundary : a ∣ p.boundary.toNat
  small : p.allocation.toNat < 2 ^ 63

/-- What `DmaPool::new` has checked, and the pool that it returns. -/
theorem new_eq_some {name : String} {size align boundary : Usize} {p : DmaPool}
    (h : new name size align boundary = some p) :
    size ≠ 0#64 ∧ alignOf align &&& (alignOf align - 1#64) = 0#64 ∧
      ∃ b, p = ofSizes name (blockSize size (alignOf align))
          (pageBytes (blockSize size (alignOf align))) b ∧
        (b = pageBytes (blockSize size (alignOf align)) ∨
          b = boundary ∧ boundary ≠ 0#64 ∧ boundary &&& (boundary - 1#64) = 0#64 ∧
            ¬ boundary < blockSize size (alignOf align) ∧
            ¬ pageBytes (blockSize size (alignOf align)) < boundary) := by
  have hnew : new name size align boundary =
      if size = 0#64 then none
      else if alignOf align &&& (alignOf align - 1#64) ≠ 0#64 then none
      else if boundary = 0#64 then
        some (ofSizes name (blockSize size (alignOf align))
          (pageBytes (blockSize size (alignOf align)))
          (pageBytes (blockSize size (alignOf align))))
      else if boundary < blockSize size (alignOf align) ∨ boundary &&& (boundary - 1#64) ≠ 0#64 then
        none
      else some (ofSizes name (blockSize size (alignOf align))
        (pageBytes (blockSize size (alignOf align)))
        (if pageBytes (blockSize size (alignOf align)) < boundary then
          pageBytes (blockSize size (alignOf align)) else boundary)) := rfl
  generalize blockSize size (alignOf align) = n at hnew ⊢
  rw [hnew] at h
  split at h
  · cases h
  rename_i hsize
  split at h
  · cases h
  rename_i halign
  refine ⟨hsize, not_not.1 halign, ?_⟩
  split at h
  · exact ⟨_, (Option.some.inj h).symm, .inl rfl⟩
  rename_i hzero
  split at h
  · cases h
  rename_i hboundary
  rw [not_or, not_not] at hboundary
  refine ⟨_, (Option.some.inj h).symm, ?_⟩
  split
  · exact .inl rfl
  · exact .inr ⟨rfl, hzero, hboundary.2, hboundary.1, ‹_›⟩

/-- The rounded size is a multiple of the alignment that has room for a header and for the size. -/
theorem blockSize_spec {size a : Usize} {k : ℕ} (hk : a.toNat = 2 ^ k)
    (hsmall : size.toNat + 2 ^ k ≤ 2 ^ 62) :
    2 ^ k ∣ (blockSize size a).toNat ∧ 24 ≤ (blockSize size a).toNat ∧
      size.toNat ≤ (blockSize size a).toNat ∧
      (blockSize size a).toNat ≤ size.toNat + 24 + 2 ^ k := by
  have hpos := Nat.two_pow_pos k
  have hval : ∀ m : Usize, m.toNat + 2 ^ k ≤ 2 ^ 64 →
      ((m + a - 1#64) &&& ~~~(a - 1#64)).toNat = (m.toNat + 2 ^ k - 1) / 2 ^ k * 2 ^ k := by
    intro m hmk
    have hsum : (m + a - 1#64).toNat = m.toNat + 2 ^ k - 1 := by
      rw [BitVec.toNat_sub, BitVec.toNat_add, hk]
      simp only [BitVec.toNat_ofNat]
      omega
    rw [toNat_and_not_mask _ hk, hsum]
  obtain ⟨m, hm, hm24, hsize, hle⟩ : ∃ m : ℕ,
      (blockSize size a).toNat = (m + 2 ^ k - 1) / 2 ^ k * 2 ^ k ∧
        24 ≤ m ∧ size.toNat ≤ m ∧ m ≤ size.toNat + 24 := by
    rw [blockSize]
    split
    · rename_i hless
      refine ⟨24, hval _ ?_, le_rfl, ?_, by omega⟩
      · change 24 + 2 ^ k ≤ 2 ^ 64
        omega
      · exact (BitVec.lt_def.1 hless).le
    · rename_i hless
      refine ⟨size.toNat, hval _ (by omega), ?_, le_rfl, by omega⟩
      exact not_lt.1 fun hlt => hless (BitVec.lt_def.2 hlt)
  have hlow : m ≤ (blockSize size a).toNat := by
    have hdiv := Nat.div_add_mod (m + 2 ^ k - 1) (2 ^ k)
    have hmod := Nat.mod_lt (m + 2 ^ k - 1) hpos
    rw [hm, Nat.mul_comm]
    omega
  have hhigh : (blockSize size a).toNat ≤ m + 2 ^ k - 1 := hm ▸ Nat.div_mul_le_self _ _
  exact ⟨⟨_, hm.trans (Nat.mul_comm _ _)⟩, by omega, by omega, by omega⟩

theorem toNat_pageBytes (n : Usize) : (pageBytes n).toNat = max 4096 n.toNat := by
  rw [pageBytes]
  split
  · rename_i hless
    rw [BitVec.lt_def] at hless
    exact (max_eq_left hless.le).symm
  · rename_i hless
    exact (max_eq_right (not_lt.1 fun hlt => hless (BitVec.lt_def.2 hlt))).symm

/-- A page is a multiple of the alignment: both are powers of two, or the page is one block. -/
theorem dvd_pageBytes {n : Usize} {k : ℕ} (hpos : 0 < n.toNat) (hdvd : 2 ^ k ∣ n.toNat) :
    2 ^ k ∣ (pageBytes n).toNat := by
  rw [toNat_pageBytes]
  rcases le_total n.toNat 4096 with hle | hle
  · rw [max_eq_left hle]
    have hk12 : k ≤ 12 := by
      refine (Nat.pow_le_pow_iff_right (by decide : 1 < 2)).1 ?_
      exact (Nat.le_of_dvd hpos hdvd).trans hle
    exact pow_dvd_pow 2 hk12
  · rw [max_eq_right hle]
    exact hdvd

/-- The pools of `DmaPool::new`, as long as the rounded size does not wrap. -/
theorem new_sized {name : String} {size align boundary : Usize} {p : DmaPool}
    (h : new name size align boundary = some p)
    (hsmall : size.toNat + (alignOf align).toNat ≤ 2 ^ 62) :
    p.Sized (alignOf align).toNat ∧ size.toNat ≤ p.size.toNat := by
  obtain ⟨-, hpow, b, rfl, hb⟩ := new_eq_some h
  have hne : alignOf align ≠ 0#64 := by
    rw [alignOf]
    split
    · decide
    · assumption
  obtain ⟨k, -, hk⟩ := eq_two_pow_of_and_sub_one hne hpow
  rw [hk] at hsmall ⊢
  obtain ⟨hdvd, hn24, hsize, hhigh⟩ := blockSize_spec hk hsmall
  generalize blockSize size (alignOf align) = n at *
  have hpage := toNat_pageBytes n
  have hnpos : 0 < n.toNat := by omega
  have hpagedvd := dvd_pageBytes hnpos hdvd
  have hnpage : n.toNat ≤ (pageBytes n).toNat := hpage ▸ le_max_right _ _
  have hpagesmall : (pageBytes n).toNat < 2 ^ 63 := by
    rw [hpage]
    refine max_lt (by decide) ?_
    omega
  refine ⟨?_, hsize⟩
  rcases hb with rfl | ⟨rfl, hb0, hbpow, hble, hbpage⟩
  · exact ⟨hnpos, hnpage, le_rfl, hdvd, hpagedvd, hpagesmall⟩
  · obtain ⟨j, -, hj⟩ := eq_two_pow_of_and_sub_one hb0 hbpow
    have hnb : n.toNat ≤ b.toNat := not_lt.1 fun hlt => hble (BitVec.lt_def.2 hlt)
    have hbp : b.toNat ≤ (pageBytes n).toNat := not_lt.1 fun hlt => hbpage (BitVec.lt_def.2 hlt)
    refine ⟨hnpos, hnb, hbp, hdvd, ?_, hpagesmall⟩
    have hkj : k ≤ j := by
      refine (Nat.pow_le_pow_iff_right (by decide : 1 < 2)).1 ?_
      exact (Nat.le_of_dvd hnpos hdvd).trans (hnb.trans hj.le)
    change 2 ^ k ∣ b.toNat
    rw [hj]
    exact pow_dvd_pow 2 hkj

/-- The address of the block at an offset of a page. -/
def blockAt (page : DmaPage) (o : ℕ) : Usize := page.vaddr + BitVec.ofNat 64 o

theorem blockAt_injective (page : DmaPage) {o o' : ℕ} (ho : o < 2 ^ 64) (ho' : o' < 2 ^ 64)
    (h : blockAt page o = blockAt page o') : o = o' := by
  have heq : BitVec.ofNat 64 o = BitVec.ofNat 64 o' := add_left_cancel h
  have hnat := congrArg BitVec.toNat heq
  rwa [BitVec.toNat_ofNat, BitVec.toNat_ofNat, Nat.mod_eq_of_lt ho, Nat.mod_eq_of_lt ho'] at hnat

/-- The loop has laid out the blocks at the given offsets. -/
structure Carved (p : DmaPool) (page : DmaPage) (a : ℕ) (mem : DmaMem) (offs : List ℕ)
    (s : DmaCarve) : Prop where
  list : IsList s.mem s.first (offs.map (blockAt page))
  last : s.last = offs.getLast?.map (blockAt page)
  dma : ∀ o ∈ offs, (s.mem (blockAt page o)).dma = page.dma + BitVec.ofNat 64 o
  inside : ∀ o ∈ offs, o + p.size.toNat ≤ s.offset.toNat
  block : ∀ o ∈ offs, a ∣ o ∧ o / p.boundary.toNat = (o + p.size.toNat - 1) / p.boundary.toNat
  apart : offs.Pairwise fun o o' => o + p.size.toNat ≤ o'
  frame : ∀ x, x ∉ offs.map (blockAt page) → s.mem x = mem x
  cursor : ∃ k, s.nextBoundary.toNat = (k + 1) * p.boundary.toNat ∧
    k * p.boundary.toNat ≤ s.offset.toNat ∧ s.offset.toNat ≤ (k + 1) * p.boundary.toNat
  aligned : a ∣ s.offset.toNat
  bound : s.offset.toNat ≤ p.allocation.toNat
  started : offs = [] → s.offset.toNat = 0
  count : s.nrBlocks = p.nrBlocks + BitVec.ofNat 64 offs.length

section carve

variable {p : DmaPool} {page : DmaPage} {a : ℕ} {mem : DmaMem} {offs : List ℕ} {s : DmaCarve}

theorem carveStart_carved (p : DmaPool) (page : DmaPage) (a : ℕ) (mem : DmaMem) :
    p.Carved page a mem [] (p.carveStart mem) where
  list := rfl
  last := rfl
  dma _ h := absurd h List.not_mem_nil
  inside _ h := absurd h List.not_mem_nil
  block _ h := absurd h List.not_mem_nil
  apart := List.Pairwise.nil
  frame _ _ := rfl
  cursor := ⟨0, (Nat.one_mul _).symm, by simp, Nat.zero_le _⟩
  aligned := ⟨0, rfl⟩
  bound := Nat.zero_le _
  started _ := rfl
  count := by simp [carveStart]

/-- The sums that the loop computes do not wrap. -/
theorem Carved.toNat_offset_add (h : p.Carved page a mem offs s) (hp : p.Sized a) :
    (s.offset + p.size).toNat = s.offset.toNat + p.size.toNat := by
  have hsize := hp.size_le.trans hp.boundary_le
  have hbound := h.bound
  have hsmall := hp.small
  rw [BitVec.toNat_add]
  omega

/-- A round that moves on to the next boundary. -/
theorem Carved.skip (h : p.Carved page a mem offs s) (hp : p.Sized a)
    (hfit : s.offset.toNat + p.size.toNat ≤ p.allocation.toNat)
    (hcross : s.nextBoundary.toNat < s.offset.toNat + p.size.toNat) :
    p.Carved page a mem offs
      { s with offset := s.nextBoundary, nextBoundary := s.nextBoundary + p.boundary } := by
  obtain ⟨k, hk, hlow, hhigh⟩ := h.cursor
  have hnext : (s.nextBoundary + p.boundary).toNat = (k + 1 + 1) * p.boundary.toNat := by
    have hle := hp.boundary_le
    have hsmall := hp.small
    rw [BitVec.toNat_add, Nat.succ_mul (k + 1), ← hk]
    omega
  exact
    { list := h.list
      last := h.last
      dma := h.dma
      inside := fun o ho => (h.inside o ho).trans (by dsimp only; omega)
      block := h.block
      apart := h.apart
      frame := h.frame
      cursor := ⟨k + 1, hnext, hk.ge, hk.le.trans (Nat.mul_le_mul_right _ (Nat.le_succ _))⟩
      aligned := by dsimp only; rw [hk]; exact hp.align_boundary.mul_left _
      bound := by dsimp only; omega
      started := fun hnil => by
        -- the first block always fits
        have hzero := h.started hnil
        have hle := hp.size_le
        have hbelow : p.boundary.toNat ≤ s.nextBoundary.toNat := by
          rw [hk]
          exact Nat.le_mul_of_pos_left _ (Nat.succ_pos k)
        omega
      count := h.count }

/-- The offsets so far, and the new one, are offsets of different blocks. -/
theorem Carved.blockAt_ne (h : p.Carved page a mem offs s) (hp : p.Sized a) {o : ℕ}
    (ho : o ∈ offs) : blockAt page o ≠ page.vaddr + s.offset := by
  have hin := h.inside o ho
  have hpos := hp.size_pos
  have hlt := s.offset.isLt
  intro heq
  have hsame : blockAt page s.offset.toNat = page.vaddr + s.offset := by
    rw [blockAt, BitVec.ofNat_toNat, BitVec.setWidth_eq]
  have := blockAt_injective page (by omega) hlt (heq.trans hsame.symm)
  omega

/-- A block is laid out behind the last one of a list. -/
theorem placeMem_list {mem : DmaMem} {first last : Option Usize} {l : List Usize} {block : Usize}
    (hlist : IsList mem first l) (hlast : last = l.getLast?) (hnodup : l.Nodup) (hnew : block ∉ l)
    (dma : BitVec 64) :
    IsList (placeMem mem last block dma) (if last = none then some block else first)
      (l ++ [block]) := by
  have hkeep : IsList (Function.update mem block ⟨none, dma⟩) first l := by
    refine hlist.congr fun x hx => ?_
    have hne : x ≠ block := fun heq => hnew (heq ▸ hx)
    change (Function.update mem block _ x).nextBlock = (mem x).nextBlock
    rw [Function.update_of_ne hne]
  have hself : IsList (Function.update mem block ⟨none, dma⟩) (some block) [block] := by
    refine ⟨rfl, ?_⟩
    change (Function.update mem block _ block).nextBlock = none
    rw [Function.update_self]
  rcases List.eq_nil_or_concat l with rfl | ⟨l', x, rfl⟩
  · subst hlast
    exact hself
  · have hsome : last = some x := by rw [hlast, List.concat_eq_append, List.getLast?_concat]
    subst hsome
    rw [List.concat_eq_append] at *
    rw [placeMem, if_neg (Option.some_ne_none x), List.append_assoc]
    refine IsList.link hkeep hself fun y hy => ?_
    have hne : y ≠ x := by
      rintro rfl
      rcases List.mem_append.1 hy with hy | hy
      · exact List.disjoint_of_nodup_append hnodup hy (List.mem_singleton_self y)
      · exact hnew (by rw [← List.mem_singleton.1 hy]; simp)
    exact Set.disjoint_singleton.2 hne

/-- Laying out a block changes the links, but no other bus address. -/
theorem placeMem_dma (mem : DmaMem) (last : Option Usize) (block : Usize) (dma : BitVec 64)
    (x : Usize) :
    (placeMem mem last block dma x).dma = if x = block then dma else (mem x).dma := by
  have hdma : (Function.update mem block ⟨none, dma⟩ x).dma =
      if x = block then dma else (mem x).dma := by
    rw [Function.update_apply, apply_ite DmaBlock.dma]
  rw [← hdma]
  cases last with
  | none => rfl
  | some y =>
      change ((Function.update _ y _ : DmaMem) x).dma = _
      rw [Function.update_apply]
      split
      · rename_i hxy
        rw [hxy]
      · rfl

theorem placeMem_of_ne {mem : DmaMem} {last : Option Usize} {block : Usize} (dma : BitVec 64)
    {x : Usize} (hx : x ≠ block) (hlast : last ≠ some x) :
    placeMem mem last block dma x = mem x := by
  cases last with
  | none => exact Function.update_of_ne hx _ _
  | some y =>
      have hxy : x ≠ y := fun heq => hlast (congrArg some heq.symm)
      change (Function.update _ y _ : DmaMem) x = mem x
      rw [Function.update_of_ne hxy, Function.update_of_ne hx]

theorem Carved.nodup (h : p.Carved page a mem offs s) (hp : p.Sized a) :
    (offs.map (blockAt page)).Nodup := by
  refine List.pairwise_map.2 (h.apart.imp_of_mem fun ho ho' hapart heq => ?_)
  have hin := h.inside _ ho
  have hin' := h.inside _ ho'
  have hpos := hp.size_pos
  have hlt := s.offset.isLt
  have := blockAt_injective page (by omega) (by omega) heq
  omega

/-- A round that lays out a block. -/
theorem Carved.place (h : p.Carved page a mem offs s) (hp : p.Sized a)
    (hfit : s.offset.toNat + p.size.toNat ≤ p.allocation.toNat)
    (hroom : s.offset.toNat + p.size.toNat ≤ s.nextBoundary.toNat) {t : DmaCarve}
    (hround : p.carveRound page s = .more t) :
    p.Carved page a mem (offs ++ [s.offset.toNat]) t := by
  have hsum := h.toNat_offset_add hp
  have hpos := hp.size_pos
  have hblock : blockAt page s.offset.toNat = page.vaddr + s.offset := by
    rw [blockAt, BitVec.ofNat_toNat, BitVec.setWidth_eq]
  have hne := fun o ho => h.blockAt_ne hp (o := o) ho
  have hnew : page.vaddr + s.offset ∉ offs.map (blockAt page) := by
    intro hmem
    obtain ⟨o, ho, heq⟩ := List.mem_map.1 hmem
    exact hne o ho heq
  have hlast : s.last = (offs.map (blockAt page)).getLast? := by rw [h.last, List.getLast?_map]
  obtain ⟨k, hk, hlow, hhigh⟩ := h.cursor
  rw [carveRound, if_pos (by rw [BitVec.le_def, hsum]; exact hfit),
    if_neg (by rw [BitVec.lt_def, hsum]; omega)] at hround
  cases hround
  refine ⟨?_, ?_, ?_, ?_, ?_, ?_, ?_, ⟨k, hk, ?_, ?_⟩, ?_, ?_, ?_, ?_⟩
  · dsimp only
    rw [List.map_append, List.map_singleton, hblock]
    exact placeMem_list h.list hlast (h.nodup hp) hnew _
  · rw [List.getLast?_concat, Option.map_some, hblock]
  · intro o ho
    dsimp only
    rw [placeMem_dma]
    rcases List.mem_append.1 ho with ho | ho
    · rw [if_neg (hne o ho), h.dma o ho]
    · rw [List.mem_singleton.1 ho, hblock, if_pos rfl, BitVec.ofNat_toNat, BitVec.setWidth_eq]
  · intro o ho
    dsimp only
    rw [hsum]
    rcases List.mem_append.1 ho with ho | ho
    · exact (h.inside o ho).trans (Nat.le_add_right _ _)
    · rw [List.mem_singleton.1 ho]
  · intro o ho
    rcases List.mem_append.1 ho with ho | ho
    · exact h.block o ho
    · rw [List.mem_singleton.1 ho]
      have hfirst : s.offset.toNat / p.boundary.toNat = k :=
        Nat.div_eq_of_lt_le hlow (by omega)
      have hend : (s.offset.toNat + p.size.toNat - 1) / p.boundary.toNat = k :=
        Nat.div_eq_of_lt_le (by omega) (by omega)
      exact ⟨h.aligned, hfirst.trans hend.symm⟩
  · refine List.pairwise_append.2 ⟨h.apart, List.pairwise_singleton _ _, fun o ho o' ho' => ?_⟩
    rw [List.mem_singleton.1 ho']
    exact h.inside o ho
  · intro x hx
    rw [List.map_append, List.map_singleton, hblock, List.mem_append, not_or,
      List.mem_singleton] at hx
    dsimp only
    rw [placeMem_of_ne _ hx.2, h.frame x hx.1]
    intro heq
    rw [hlast] at heq
    exact hx.1 (List.mem_of_getLast? heq)
  · dsimp only; omega
  · dsimp only; omega
  · dsimp only
    rw [hsum]
    exact Nat.dvd_add h.aligned hp.align_size
  · dsimp only; omega
  · exact fun hnil => absurd hnil (by simp)
  · dsimp only
    rw [h.count, List.length_append, List.length_singleton, BitVec.ofNat_add, add_assoc]

/-- What is left of a page: every round moves on in it, or passes a boundary. -/
def carveLeft (p : DmaPool) (s : DmaCarve) : ℕ :=
  2 * (p.allocation.toNat - s.offset.toNat) + if s.nextBoundary = s.offset then 1 else 0

/-- A round of the loop goes on with what has been laid out, and with less of the page left. -/
theorem Carved.round (h : p.Carved page a mem offs s) (hp : p.Sized a) {t : DmaCarve}
    (hround : p.carveRound page s = .more t) :
    (∃ offs', p.Carved page a mem offs' t) ∧ p.carveLeft t < p.carveLeft s := by
  have hsum := h.toNat_offset_add hp
  have hpos := hp.size_pos
  have hsize := hp.size_le
  by_cases hfit : s.offset.toNat + p.size.toNat ≤ p.allocation.toNat
  · by_cases hcross : s.nextBoundary.toNat < s.offset.toNat + p.size.toNat
    · have hskip := h.skip hp hfit hcross
      obtain ⟨k, hk, hlow, hhigh⟩ := h.cursor
      obtain ⟨k', hk', -, -⟩ := hskip.cursor
      have hnext : s.nextBoundary + p.boundary ≠ s.nextBoundary := by
        intro heq
        have hzero : p.boundary = 0#64 := add_eq_left.1 heq
        rw [hzero] at hsize
        exact absurd hsize (by simp; omega)
      rw [carveRound, if_pos (by rw [BitVec.le_def, hsum]; exact hfit),
        if_pos (by rw [BitVec.lt_def, hsum]; exact hcross)] at hround
      cases hround
      refine ⟨⟨_, hskip⟩, ?_⟩
      rw [carveLeft, carveLeft, if_neg hnext]
      dsimp only
      split
      · rename_i heq
        rw [heq]
        omega
      · rename_i hne
        have hne' : s.nextBoundary.toNat ≠ s.offset.toNat :=
          fun heq => hne (BitVec.eq_of_toNat_eq heq)
        omega
    · refine ⟨⟨_, h.place hp hfit (not_lt.1 hcross) hround⟩, ?_⟩
      rw [carveRound, if_pos (by rw [BitVec.le_def, hsum]; exact hfit),
        if_neg (by rw [BitVec.lt_def, hsum]; exact hcross)] at hround
      cases hround
      rw [carveLeft, carveLeft]
      dsimp only
      rw [hsum]
      split <;> split <;> omega
  · rw [carveRound, if_neg (by rw [BitVec.le_def, hsum]; exact hfit)] at hround
    cases hround

/-- The loop ends, with at least one block laid out. -/
theorem carve_returns (hp : p.Sized a) (page : DmaPage) (mem : DmaMem) :
    ∃ rounds offs s, Loops.run (p.carveRound page) rounds (p.carveStart mem) = some s ∧
      p.Carved page a mem offs s ∧ offs ≠ [] := by
  have hinv : ∀ s t, (∃ offs, p.Carved page a mem offs s) → p.carveRound page s = .more t →
      ∃ offs, p.Carved page a mem offs t := fun s t ⟨_, h⟩ hround => (h.round hp hround).1
  have hstart : ∃ offs, p.Carved page a mem offs (p.carveStart mem) :=
    ⟨[], carveStart_carved p page a mem⟩
  have hsome := Loops.run_isSome_of (I := fun s => ∃ offs, p.Carved page a mem offs s) hinv
    (fun s t ⟨_, h⟩ hround => (h.round hp hround).2) hstart (Nat.lt_succ_self _)
  obtain ⟨s, hs⟩ := Option.isSome_iff_exists.1 hsome
  -- the loop stops where no block fits any more, so the first one has been laid out
  have hend := Loops.run_invariant (I := fun s => ∃ offs, p.Carved page a mem offs s)
    (P := fun s => ∃ offs, p.Carved page a mem offs s ∧ offs ≠ []) hinv ?_ hstart hs
  · obtain ⟨offs, h, hne⟩ := hend
    exact ⟨_, offs, s, hs, h, hne⟩
  · rintro s r ⟨offs, h⟩ hround
    have hsum := h.toNat_offset_add hp
    rw [carveRound] at hround
    split at hround
    · split at hround <;> cases hround
    · rename_i hfull
      cases hround
      refine ⟨offs, h, fun hnil => hfull ?_⟩
      rw [BitVec.le_def, hsum, h.started hnil, Nat.zero_add]
      exact hp.size_le.trans hp.boundary_le

end carve

/-- The loop of `initialise_page` cuts a page into blocks that are all as they should be, puts them
in front of the free list, and counts them. -/
theorem initialisePage_spec {p : DmaPool} {page : DmaPage} {size align : Usize} {mem : DmaMem}
    {l : List Usize} (hp : p.Sized (alignOf align).toNat) (hsize : size.toNat ≤ p.size.toNat)
    (halign : (alignOf align).toNat ∣ page.vaddr.toNat)
    (hend : page.vaddr.toNat + p.allocation.toNat ≤ 2 ^ 64) (hmem : page ∈ p.pages)
    (hfree : IsList mem p.nextBlock l)
    (hapart : ∀ b ∈ l, b ∉ region page.vaddr p.allocation.toNat) :
    ∃ rounds q mem' blocks, p.initialisePage page mem rounds = some (q, mem') ∧ blocks ≠ [] ∧
      IsList mem' q.nextBlock (blocks ++ l) ∧
      (∀ b ∈ blocks, q.BlockOk size align b (mem' b).dma) ∧
      (blocks.Pairwise fun b b' => Disjoint (region b p.size.toNat) (region b' p.size.toNat)) ∧
      q.nrBlocks = p.nrBlocks + BitVec.ofNat 64 blocks.length := by
  obtain ⟨rounds, offs, s, hrun, h, hne⟩ := carve_returns hp page mem
  obtain ⟨offs, o, rfl⟩ : ∃ offs' o, offs = offs' ++ [o] := by
    rcases List.eq_nil_or_concat offs with hnil | ⟨offs', o, hoffs⟩
    · exact absurd hnil hne
    · exact ⟨offs', o, by rw [hoffs, List.concat_eq_append]⟩
  have hlast : s.last = some (blockAt page o) := by
    rw [h.last, List.getLast?_concat, Option.map_some]
  have hbound : ∀ o' ∈ offs ++ [o], o' + p.size.toNat ≤ p.allocation.toNat :=
    fun o' ho' => (h.inside o' ho').trans h.bound
  have hpos := hp.size_pos
  have hsmall := hp.small
  have hregion : ∀ o' ∈ offs ++ [o], blockAt page o' ∈ region page.vaddr p.allocation.toNat := by
    intro o' ho'
    have hle := hbound o' ho'
    rw [mem_region, blockAt, add_sub_cancel_left, BitVec.toNat_ofNat, Nat.mod_eq_of_lt (by omega)]
    omega
  refine ⟨rounds,
    { p with nextBlock := s.first, nrBlocks := s.nrBlocks, nrPages := p.nrPages + 1#64 },
    setNext s.mem (blockAt page o) p.nextBlock, (offs ++ [o]).map (blockAt page), ?_, by simp, ?_,
    ?_, ?_, ?_⟩
  · rw [initialisePage, hrun, Option.map_some, linkCarved, hlast]
  · have hlist := h.list
    have hnodup := h.nodup hp
    rw [List.map_append, List.map_singleton] at hlist hnodup ⊢
    rw [List.append_assoc]
    have hold : IsList s.mem p.nextBlock l := by
      refine hfree.congr fun b hb => congrArg DmaBlock.nextBlock (h.frame b fun hmem => ?_)
      obtain ⟨o', ho', rfl⟩ := List.mem_map.1 hmem
      exact hapart _ hb (hregion o' ho')
    refine hlist.link hold fun x hx => Set.disjoint_singleton.2 ?_
    rintro rfl
    rcases List.mem_append.1 hx with hx | hx
    · exact List.disjoint_of_nodup_append hnodup hx (List.mem_singleton_self _)
    · exact hapart _ hx (hregion o (by simp))
  · intro b hb
    obtain ⟨o', ho', rfl⟩ := List.mem_map.1 hb
    have hle := hbound o' ho'
    have hdma : (setNext s.mem (blockAt page o) p.nextBlock (blockAt page o')).dma =
        (s.mem (blockAt page o')).dma := by
      change ((Function.update s.mem _ _ : DmaMem) _).dma = _
      rw [Function.update_apply]
      split
      · rename_i heq
        rw [heq]
      · rfl
    have htoNat : (blockAt page o').toNat = page.vaddr.toNat + o' := by
      rw [blockAt, BitVec.toNat_add, BitVec.toNat_ofNat, Nat.mod_eq_of_lt (by omega),
        Nat.mod_eq_of_lt (by omega)]
    refine ⟨page, hmem, o', rfl, hdma.trans (h.dma o' ho'), hle, hsize, ?_, (h.block o' ho').2⟩
    rw [htoNat]
    exact Nat.dvd_add halign (h.block o' ho').1
  · refine List.pairwise_map.2 (h.apart.imp_of_mem fun ho ho' hlt => ?_)
    have hle := hbound _ ho'
    exact disjoint_region_offset page.vaddr hlt (by omega)
  · rw [List.length_map]
    exact h.count

/-- A pool whose free list is not empty hands out the first block of the list. -/
theorem alloc_of_list {p : DmaPool} {mem : DmaMem} {b : Usize} {l : List Usize}
    (h : IsList mem p.nextBlock (b :: l)) (handle : BitVec 64) (coherent : Option DmaPage) :
    p.alloc mem handle coherent = p.popBlock mem b := by
  obtain ⟨name, size, allocation, boundary, pages, nextBlock, nrBlocks, nrActive, nrPages⟩ := p
  obtain rfl : nextBlock = some b := h.1
  rfl

/-- Behind `initialise_page`, which `alloc` does not call, a call would be served as it should. -/
theorem initialisePage_alloc {p : DmaPool} {page : DmaPage} {size align : Usize} {mem : DmaMem}
    {l : List Usize} (hp : p.Sized (alignOf align).toNat) (hsize : size.toNat ≤ p.size.toNat)
    (halign : (alignOf align).toNat ∣ page.vaddr.toNat)
    (hend : page.vaddr.toNat + p.allocation.toNat ≤ 2 ^ 64) (hmem : page ∈ p.pages)
    (hfree : IsList mem p.nextBlock l)
    (hapart : ∀ b ∈ l, b ∉ region page.vaddr p.allocation.toNat) :
    ∃ rounds q mem', p.initialisePage page mem rounds = some (q, mem') ∧
      ∀ handle coherent, q.BlockOk size align (q.alloc mem' handle coherent).2.1
        (q.alloc mem' handle coherent).2.2 := by
  obtain ⟨rounds, q, mem', blocks, hrun, hne, hlist, hok, -, -⟩ :=
    initialisePage_spec hp hsize halign hend hmem hfree hapart
  obtain ⟨b, blocks, rfl⟩ := List.exists_cons_of_ne_nil hne
  refine ⟨rounds, q, mem', hrun, fun handle coherent => ?_⟩
  rw [alloc_of_list hlist]
  exact hok b List.mem_cons_self

end DmaPool

/-! ### Runs -/

/-- A block that was handed out, and not freed since. -/
structure DmaLive where
  ptr : Usize
  handle : BitVec 64
  deriving DecidableEq, Repr

/-- A pool with the memory of its headers and its live blocks. -/
structure DmaRun where
  pool : DmaPool
  mem : DmaMem
  live : List DmaLive

/-- A call: of `alloc`, with what `dma_alloc_coherent` returns if it is called, or of `free`. -/
inductive DmaOp where
  | alloc (handle : BitVec 64) (coherent : Option DmaPage)
  | free (block : DmaLive)

namespace DmaRun

/-- A new pool. -/
def start (p : DmaPool) (mem : DmaMem) : DmaRun := ⟨p, mem, []⟩

/-- The state after a call. -/
def next (s : DmaRun) : DmaOp → DmaRun
  | .alloc handle coherent =>
      let (pool, ptr, handle) := s.pool.alloc s.mem handle coherent
      { s with
        pool := pool
        live := if ptr = 0#64 then s.live else ⟨ptr, handle⟩ :: s.live }
  | .free block =>
      let (pool, mem) := s.pool.free s.mem block.ptr block.handle
      { pool := pool, mem := mem, live := s.live.erase block }

/-- What may be assumed of a call: `dma_alloc_coherent` returns a fresh buffer of the requested
length, aligned to it, or null, and only live blocks are freed. -/
def Allowed (s : DmaRun) : DmaOp → Prop
  | .alloc _ coherent => ∀ page ∈ coherent,
      page.vaddr ≠ 0#64 ∧ page.vaddr.toNat + s.pool.allocation.toNat ≤ 2 ^ 64 ∧
        s.pool.allocation.toNat ∣ page.vaddr.toNat ∧
        ∀ other ∈ s.pool.pages, Disjoint (region page.vaddr s.pool.allocation.toNat)
          (region other.vaddr s.pool.allocation.toNat)
  | .free block => block ∈ s.live

/-- What is asked of a call on a pool for blocks of `size` bytes with alignment `align`: `alloc`
returns null only if `dma_alloc_coherent` does, and otherwise a block that is as it should be and
shares no byte with a live block; and the live blocks are counted. -/
def Served (size align : Usize) (s : DmaRun) (op : DmaOp) : Prop :=
  (match op with
    | .alloc handle coherent =>
        let (pool, ptr, handle) := s.pool.alloc s.mem handle coherent
        if ptr = 0#64 then coherent = none
        else pool.BlockOk size align ptr handle ∧
          ∀ other ∈ s.live,
            Disjoint (region ptr pool.size.toNat) (region other.ptr pool.size.toNat)
    | .free _ => True) ∧
  (s.next op).pool.nrActive.toNat = (s.next op).live.length

/-- No block has been handed out. -/
structure Idle (s : DmaRun) : Prop where
  nextBlock : s.pool.nextBlock = none
  nrActive : s.pool.nrActive = 0#64
  live : s.live = []

end DmaRun

/-- The page that a call is given. -/
def DmaOp.page : DmaOp → Option DmaPage
  | .alloc _ coherent => coherent
  | .free _ => none

namespace DmaPool

/-- An empty free list gives no block, with a page or without. -/
theorem alloc_of_empty {p : DmaPool} (h : p.nextBlock = none) (mem : DmaMem) (handle : BitVec 64)
    (coherent : Option DmaPage) :
    p.alloc mem handle coherent =
      ({ p with pages := p.pages ++ coherent.toList }, 0#64, handle) := by
  obtain ⟨name, size, allocation, boundary, pages, nextBlock, nrBlocks, nrActive, nrPages⟩ := p
  obtain rfl : nextBlock = none := h
  cases coherent with
  | none => simp [alloc]
  | some page => rfl

end DmaPool

namespace DmaRun

theorem start_idle {name : String} {size align boundary : Usize} {p : DmaPool}
    (h : DmaPool.new name size align boundary = some p) (mem : DmaMem) : (start p mem).Idle := by
  obtain ⟨-, -, _, rfl, -⟩ := DmaPool.new_eq_some h
  exact ⟨rfl, rfl, rfl⟩

theorem Idle.next_alloc {s : DmaRun} (h : s.Idle) (handle : BitVec 64)
    (coherent : Option DmaPage) : (s.next (.alloc handle coherent)).Idle := by
  have hlive : (s.next (.alloc handle coherent)).live = s.live := by
    simp only [next, DmaPool.alloc_of_empty h.nextBlock, if_true]
  refine ⟨?_, ?_, hlive.trans h.live⟩
  · simp only [next, DmaPool.alloc_of_empty h.nextBlock]
    exact h.nextBlock
  · simp only [next, DmaPool.alloc_of_empty h.nextBlock]
    exact h.nrActive

/-- As long as no block has been handed out, no block is freed. -/
theorem Idle.next {s : DmaRun} (h : s.Idle) {op : DmaOp} (hop : s.Allowed op) :
    (s.next op).Idle := by
  cases op with
  | alloc handle coherent => exact h.next_alloc handle coherent
  | free block =>
      have hmem : block ∈ s.live := hop
      rw [h.live] at hmem
      cases hmem

theorem Idle.served_iff {s : DmaRun} (h : s.Idle) {op : DmaOp} (hop : s.Allowed op)
    (size align : Usize) : s.Served size align op ↔ op.page = none := by
  have hidle := h.next hop
  have hcount : (s.next op).pool.nrActive.toNat = (s.next op).live.length := by
    rw [hidle.nrActive, hidle.live]
    rfl
  refine (and_iff_left hcount).trans ?_
  cases op with
  | alloc handle coherent =>
      dsimp only
      rw [DmaPool.alloc_of_empty h.nextBlock]
      exact Iff.of_eq (if_pos rfl)
  | free block => exact iff_of_true trivial rfl

end DmaRun

/-- A condition on the calls alone holds along a run exactly if all calls meet it. -/
theorem DmaRun.along_page_iff {s : DmaRun} {ops : List DmaOp} :
    Runs.Along DmaRun.next (fun _ op => op.page = none) s ops ↔ ∀ op ∈ ops, op.page = none := by
  induction ops generalizing s with
  | nil => exact iff_of_true trivial fun _ h => absurd h List.not_mem_nil
  | cons op ops ih => rw [Runs.Along, ih, List.forall_mem_cons]

/-- For every pool and every run of calls: all calls are served as they should exactly if
`dma_alloc_coherent` gives none of them a page. -/
theorem dmaPool_served_iff {name : String} {size align boundary : Usize} {p : DmaPool}
    (hnew : DmaPool.new name size align boundary = some p) (mem : DmaMem) (ops : List DmaOp)
    (hops : Runs.Along DmaRun.next DmaRun.Allowed (DmaRun.start p mem) ops) :
    Runs.Along DmaRun.next (DmaRun.Served size align) (DmaRun.start p mem) ops ↔
      ∀ op ∈ ops, op.page = none := by
  rw [← DmaRun.along_page_iff (s := DmaRun.start p mem)]
  exact Runs.along_iff (fun _ _ hidle hop => hidle.served_iff hop size align)
    (fun _ _ hidle hop _ => hidle.next hop) (DmaRun.start_idle hnew mem) hops

/-- The first page that a pool is given. -/
def firstDmaPage : DmaPage := ⟨0x10000#64, 0x10000#64⟩

/-- A pool for blocks of 64 bytes. -/
def blockPool : DmaPool := DmaPool.ofSizes "multi" 64#64 4096#64 4096#64

theorem blockPool_served :
    Runs.Along DmaRun.next (DmaRun.Served 64#64 64#64)
        (DmaRun.start blockPool fun _ => ⟨none, 0#64⟩) [.alloc 0#64 none] ↔
      ∀ op ∈ [DmaOp.alloc 0#64 none], op.page = none :=
  have hnew : DmaPool.new "multi" 64#64 64#64 0#64 = some blockPool := by decide
  dmaPool_served_iff hnew _ _ ⟨fun _ h => absurd h (Option.not_mem_none _), trivial⟩

/-- The first call on a pool for blocks of 64 bytes gets a page, and returns null. -/
theorem dmaPool_alloc_null :
    DmaPool.new "multi" 64#64 64#64 0#64 = some blockPool ∧
      Runs.Along DmaRun.next DmaRun.Allowed (DmaRun.start blockPool fun _ => ⟨none, 0#64⟩)
        [.alloc 0#64 (some firstDmaPage)] ∧
      (blockPool.alloc (fun _ => ⟨none, 0#64⟩) 0#64 (some firstDmaPage)).2.1 = 0#64 ∧
      ¬ Runs.Along DmaRun.next (DmaRun.Served 64#64 64#64)
        (DmaRun.start blockPool fun _ => ⟨none, 0#64⟩) [.alloc 0#64 (some firstDmaPage)] := by
  refine ⟨by decide, ⟨?_, trivial⟩, rfl, fun h => ?_⟩
  · intro page hpage
    cases hpage
    refine ⟨by decide, by decide, by decide, fun other hother => ?_⟩
    cases hother
  · cases h.1.1

end StarOS
