/-
The physical page allocator (`memory/physical.rs`), run by one caller at a time.

The allocator keeps one bit per 4 KiB page in an array of words and, apart from it, a counter of
free pages.  Every access to either is atomic; with one caller at a time an operation is the
composition of its accesses, which is what is modelled here; several callers at once are the subject
of `StarOS/PhysicalConcurrent.lean`.

Where the code indexes the bitmap past its end it panics, and the call does not return: such a
call is `none` here.

* `StarOS.PhysicalAllocator` — the bitmap, the counter, the number of pages and the base address;
* `StarOS.PhysicalAllocator.allocPage`, `StarOS.PhysicalAllocator.allocPages`,
  `StarOS.PhysicalAllocator.freePage`, `StarOS.PhysicalAllocator.freePages` — the operations;
* `StarOS.PhysicalAllocator.allocated` — the bit of a page;
* `StarOS.PhysicalAllocator.allocPage_cases`, `StarOS.PhysicalAllocator.allocPages_cases`,
  `StarOS.PhysicalAllocator.freePage_cases`, `StarOS.PhysicalAllocator.freePages_cases` — what
  each call can do, in terms of bits.
-/

import StarOS.Error
import StarOS.Word
import Mathlib.Tactic.Ring
import Mathlib.Tactic.Cases

set_option autoImplicit false

namespace StarOS

/-! ### Addresses and state -/

/-- `PAGE_SIZE`. -/
def pageSize : ℕ := 4096

/-- `MAX_PAGES`. -/
def maxPages : ℕ := 4 * 1024 * 1024

/-- `size_of::<usize>() * 8`. -/
def wordBits : ℕ := 64

/-- The length of the bitmap, `MAX_PAGES / (size_of::<usize>() * 8)`. -/
def bitmapWords : ℕ := maxPages / wordBits

/-- A physical address. -/
structure PhysAddr where
  /-- `as_usize`. -/
  addr : Usize
  deriving DecidableEq, Repr

/-- `PhysAddr::is_aligned`. -/
def PhysAddr.isAligned (a : PhysAddr) : Bool := a.addr.toNat % pageSize == 0

/-- The physical allocator.  Word `i` of the bitmap is `bitmap i`; only the words below
`bitmapWords` exist, and every access checks that. -/
structure PhysicalAllocator where
  /-- One bit per page. -/
  bitmap : ℕ → Usize
  /-- The number of pages managed. -/
  totalPages : Usize
  /-- The counter `free_pages`. -/
  freePagesCtr : Usize
  /-- The address of page `0`. -/
  baseAddr : PhysAddr

namespace PhysicalAllocator

/-- `PhysicalAllocator::new`. -/
def new (baseAddr : PhysAddr) (totalPages : Usize) : PhysicalAllocator where
  bitmap := fun _ => 0#64
  totalPages := totalPages
  freePagesCtr := totalPages
  baseAddr := baseAddr

/-- The address of a page, `base_addr + page_num * PAGE_SIZE` (wrapping). -/
def pageAddr (a : PhysicalAllocator) (page : ℕ) : PhysAddr :=
  ⟨a.baseAddr.addr + BitVec.ofNat 64 (page * pageSize)⟩

/-- The bit of a page: whether it is allocated. -/
def allocated (a : PhysicalAllocator) (page : ℕ) : Bool :=
  (a.bitmap (page / wordBits)).getLsbD (page % wordBits)

/-- Overwriting one word of the bitmap. -/
def setWord (a : PhysicalAllocator) (wordIdx : ℕ) (w : Usize) : PhysicalAllocator :=
  { a with bitmap := Function.update a.bitmap wordIdx w }

/-! ### The operations -/

/-- `is_page_free`. -/
def isPageFree (a : PhysicalAllocator) (page : ℕ) : Option Bool :=
  let wordIdx := page / wordBits
  let bitIdx := page % wordBits
  if wordIdx < bitmapWords then some (!testBit (a.bitmap wordIdx) bitIdx) else none

/-- `mark_page_allocated`. -/
def markPageAllocated (a : PhysicalAllocator) (page : ℕ) : Option PhysicalAllocator :=
  let wordIdx := page / wordBits
  let bitIdx := page % wordBits
  if wordIdx < bitmapWords then some (a.setWord wordIdx (setBit (a.bitmap wordIdx) bitIdx))
  else none

/-- `mark_page_free`. -/
def markPageFree (a : PhysicalAllocator) (page : ℕ) : Option PhysicalAllocator :=
  let wordIdx := page / wordBits
  let bitIdx := page % wordBits
  if wordIdx < bitmapWords then some (a.setWord wordIdx (clearBit (a.bitmap wordIdx) bitIdx))
  else none

/-- `addr_to_page`. -/
def addrToPage (a : PhysicalAllocator) (addr : PhysAddr) : Except KernelError ℕ :=
  if addr.addr < a.baseAddr.addr then .error (.memory .invalidAddress)
  else
    let offset := addr.addr.toNat - a.baseAddr.addr.toNat
    let page := offset / pageSize
    if a.totalPages.toNat ≤ page then .error (.memory .invalidAddress) else .ok page

/-- The word loop of `alloc_page`, with `n` words left from `wordIdx` on.  With one caller the
compare-exchange finds the word it loaded; a spurious failure retries it unchanged. -/
def allocPageLoop (a : PhysicalAllocator) : ℕ → ℕ → Except KernelError PhysAddr × PhysicalAllocator
  | 0, _ => (.error (.memory .outOfMemory), a)
  | n + 1, wordIdx =>
      let current := a.bitmap wordIdx
      if current = BitVec.allOnes 64 then allocPageLoop a n (wordIdx + 1)
      else
        let bitIdx := trailingOnes current
        if wordBits ≤ bitIdx then allocPageLoop a n (wordIdx + 1)
        else
          let a' := a.setWord wordIdx (setBit current bitIdx)
          let pageNum := wordIdx * wordBits + bitIdx
          if a.totalPages.toNat ≤ pageNum then (.error (.memory .outOfMemory), a')
          else (.ok (a.pageAddr pageNum), { a' with freePagesCtr := a.freePagesCtr - 1 })

/-- `alloc_page`. -/
def allocPage (a : PhysicalAllocator) : Except KernelError PhysAddr × PhysicalAllocator :=
  if a.freePagesCtr = 0 then (.error (.memory .outOfMemory), a)
  else allocPageLoop a bitmapWords 0

/-- The scan of `alloc_pages` for `count` consecutive free pages, with `n` pages left from `page`
on: `some (some start)` where the run found starts, `some none` when the range is exhausted. -/
def scanPages (a : PhysicalAllocator) (count : ℕ) : ℕ → ℕ → Option ℕ → ℕ → Option (Option ℕ)
  | 0, _, _, _ => some none
  | n + 1, page, startPage, consecutive =>
      match a.isPageFree page with
      | none => none
      | some true =>
          let startPage := if consecutive = 0 then some page else startPage
          if consecutive + 1 = count then startPage.map some
          else scanPages a count n (page + 1) startPage (consecutive + 1)
      | some false => scanPages a count n (page + 1) none 0

/-- `for i in 0..count { self.mark_page_allocated(start + i)? }`. -/
def markPagesAllocated (a : PhysicalAllocator) (start : ℕ) : ℕ → Option PhysicalAllocator
  | 0 => some a
  | n + 1 => (markPagesAllocated a start n).bind fun a' => a'.markPageAllocated (start + n)

/-- `for i in 0..count { self.mark_page_free(start + i)? }`. -/
def markPagesFree (a : PhysicalAllocator) (start : ℕ) : ℕ → Option PhysicalAllocator
  | 0 => some a
  | n + 1 => (markPagesFree a start n).bind fun a' => a'.markPageFree (start + n)

/-- `alloc_pages`. -/
def allocPages (a : PhysicalAllocator) (count : ℕ) :
    Option (Except KernelError PhysAddr × PhysicalAllocator) :=
  if count = 0 then some (.error (.invalidParameter "count must be > 0"), a)
  else if count = 1 then some a.allocPage
  else if a.freePagesCtr.toNat < count then some (.error (.memory .outOfMemory), a)
  else
    match a.scanPages count a.totalPages.toNat 0 none 0 with
    | none => none
    | some none => some (.error (.memory .outOfMemory), a)
    | some (some start) =>
        (a.markPagesAllocated start count).map fun a' =>
          (.ok (a.pageAddr start),
            { a' with freePagesCtr := a'.freePagesCtr - BitVec.ofNat 64 count })

/-- `free_page`. -/
def freePage (a : PhysicalAllocator) (addr : PhysAddr) :
    Option (Except KernelError Unit × PhysicalAllocator) :=
  if addr.isAligned = false then some (.error (.memory .invalidAlignment), a)
  else
    match a.addrToPage addr with
    | .error e => some (.error e, a)
    | .ok pageNum =>
        match a.isPageFree pageNum with
        | none => none
        | some true => some (.error (.memory .doubleFree), a)
        | some false =>
            (a.markPageFree pageNum).map fun a' =>
              (.ok (), { a' with freePagesCtr := a'.freePagesCtr + 1 })

/-- The check loop of `free_pages`, with `n` pages left from `page` on: whether a free page was
met. -/
def anyPageFree (a : PhysicalAllocator) : ℕ → ℕ → Option Bool
  | 0, _ => some false
  | n + 1, page =>
      match a.isPageFree page with
      | none => none
      | some true => some true
      | some false => anyPageFree a n (page + 1)

/-- `free_pages`. -/
def freePages (a : PhysicalAllocator) (addr : PhysAddr) (count : ℕ) :
    Option (Except KernelError Unit × PhysicalAllocator) :=
  if count = 0 then some (.error (.invalidParameter "count must be > 0"), a)
  else if addr.isAligned = false then some (.error (.memory .invalidAlignment), a)
  else
    match a.addrToPage addr with
    | .error e => some (.error e, a)
    | .ok startPage =>
        match a.anyPageFree count startPage with
        | none => none
        | some true => some (.error (.memory .doubleFree), a)
        | some false =>
            (a.markPagesFree startPage count).map fun a' =>
              (.ok (), { a' with freePagesCtr := a'.freePagesCtr + BitVec.ofNat 64 count })

/-! ### Bits -/

/-- Setting the bit of a page. -/
def mark (a : PhysicalAllocator) (page : ℕ) : PhysicalAllocator :=
  a.setWord (page / wordBits) (setBit (a.bitmap (page / wordBits)) (page % wordBits))

/-- Clearing the bit of a page. -/
def unmark (a : PhysicalAllocator) (page : ℕ) : PhysicalAllocator :=
  a.setWord (page / wordBits) (clearBit (a.bitmap (page / wordBits)) (page % wordBits))

@[simp] theorem allocated_new (base : PhysAddr) (total : Usize) (page : ℕ) :
    (new base total).allocated page = false := by
  simp [allocated, new]

@[simp] theorem mark_totalPages (a : PhysicalAllocator) (page : ℕ) :
    (a.mark page).totalPages = a.totalPages := rfl

@[simp] theorem mark_baseAddr (a : PhysicalAllocator) (page : ℕ) :
    (a.mark page).baseAddr = a.baseAddr := rfl

@[simp] theorem mark_freePagesCtr (a : PhysicalAllocator) (page : ℕ) :
    (a.mark page).freePagesCtr = a.freePagesCtr := rfl

@[simp] theorem unmark_totalPages (a : PhysicalAllocator) (page : ℕ) :
    (a.unmark page).totalPages = a.totalPages := rfl

@[simp] theorem unmark_baseAddr (a : PhysicalAllocator) (page : ℕ) :
    (a.unmark page).baseAddr = a.baseAddr := rfl

@[simp] theorem unmark_freePagesCtr (a : PhysicalAllocator) (page : ℕ) :
    (a.unmark page).freePagesCtr = a.freePagesCtr := rfl

/-- The counter is no part of a bit. -/
@[simp] theorem allocated_withCtr (a : PhysicalAllocator) (c : Usize) (page : ℕ) :
    ({ a with freePagesCtr := c } : PhysicalAllocator).allocated page = a.allocated page := rfl

theorem allocated_setWord (a : PhysicalAllocator) (i : ℕ) (w : Usize) (q : ℕ) :
    (a.setWord i w).allocated q =
      if q / wordBits = i then w.getLsbD (q % wordBits) else a.allocated q := by
  unfold allocated setWord
  by_cases h : q / wordBits = i
  · simp [h]
  · simp [h]

theorem wordOf_page (w : ℕ) {i : ℕ} (hi : i < wordBits) : (w * wordBits + i) / wordBits = w := by
  rw [Nat.mul_comm, Nat.mul_add_div (by decide), Nat.div_eq_of_lt hi, Nat.add_zero]

theorem bitOf_page (w : ℕ) {i : ℕ} (hi : i < wordBits) : (w * wordBits + i) % wordBits = i := by
  rw [Nat.mul_comm, Nat.mul_add_mod, Nat.mod_eq_of_lt hi]

/-- Bit `i` of word `w` is the bit of page `w * wordBits + i`. -/
theorem allocated_word (a : PhysicalAllocator) (w : ℕ) {i : ℕ} (hi : i < wordBits) :
    a.allocated (w * wordBits + i) = (a.bitmap w).getLsbD i := by
  rw [allocated, wordOf_page w hi, bitOf_page w hi]

theorem mark_word (a : PhysicalAllocator) (w : ℕ) {i : ℕ} (hi : i < wordBits) :
    a.mark (w * wordBits + i) = a.setWord w (setBit (a.bitmap w) i) := by
  rw [mark, wordOf_page w hi, bitOf_page w hi]

/-- Two pages in a word have the same bit only if they are the same. -/
theorem bitOf_eq_iff {p q : ℕ} (h : q / wordBits = p / wordBits) :
    q % wordBits = p % wordBits ↔ q = p := by
  constructor
  · intro hm
    have h1 := Nat.div_add_mod q wordBits
    have h2 := Nat.div_add_mod p wordBits
    rw [h, hm] at h1
    omega
  · rintro rfl
    rfl

/-- Setting a bit sets that bit and no other. -/
@[simp] theorem allocated_mark (a : PhysicalAllocator) (p q : ℕ) :
    (a.mark p).allocated q = (a.allocated q || decide (q = p)) := by
  have hlt : p % wordBits < 64 := Nat.mod_lt _ (by decide)
  rw [mark, allocated_setWord]
  by_cases h : q / wordBits = p / wordBits
  · have heq := bitOf_eq_iff h
    rw [if_pos h, setBit_getLsbD hlt, allocated, h, decide_eq_decide.2 heq]
  · have hne : q ≠ p := fun e => h (by rw [e])
    rw [if_neg h, decide_eq_false hne, Bool.or_false]

/-- Clearing a bit clears that bit and no other. -/
@[simp] theorem allocated_unmark (a : PhysicalAllocator) (p q : ℕ) :
    (a.unmark p).allocated q = (a.allocated q && !decide (q = p)) := by
  have hlt : p % wordBits < 64 := Nat.mod_lt _ (by decide)
  rw [unmark, allocated_setWord]
  by_cases h : q / wordBits = p / wordBits
  · have heq := bitOf_eq_iff h
    rw [if_pos h, clearBit_getLsbD hlt, allocated, h, decide_eq_decide.2 heq]
  · have hne : q ≠ p := fun e => h (by rw [e])
    rw [if_neg h, decide_eq_false hne, Bool.not_false, Bool.and_true]

/-- A page's word exists exactly when the page is below `MAX_PAGES`. -/
theorem div_wordBits_lt_iff (page : ℕ) : page / wordBits < bitmapWords ↔ page < maxPages := by
  have h : bitmapWords * wordBits = maxPages := by decide
  rw [← h, Nat.div_lt_iff_lt_mul (by decide)]

theorem isPageFree_eq (a : PhysicalAllocator) (page : ℕ) :
    a.isPageFree page = if page < maxPages then some (!a.allocated page) else none := by
  have hlt : page % wordBits < 64 := Nat.mod_lt _ (by decide)
  simp only [isPageFree, div_wordBits_lt_iff, testBit_eq hlt, allocated]

theorem markPageAllocated_eq (a : PhysicalAllocator) (page : ℕ) :
    a.markPageAllocated page = if page < maxPages then some (a.mark page) else none := by
  simp only [markPageAllocated, div_wordBits_lt_iff, mark]

theorem markPageFree_eq (a : PhysicalAllocator) (page : ℕ) :
    a.markPageFree page = if page < maxPages then some (a.unmark page) else none := by
  simp only [markPageFree, div_wordBits_lt_iff, unmark]

/-- Setting the bits of `n` pages from `start` on. -/
def markRun (a : PhysicalAllocator) (start : ℕ) : ℕ → PhysicalAllocator
  | 0 => a
  | n + 1 => (markRun a start n).mark (start + n)

/-- Clearing the bits of `n` pages from `start` on. -/
def unmarkRun (a : PhysicalAllocator) (start : ℕ) : ℕ → PhysicalAllocator
  | 0 => a
  | n + 1 => (unmarkRun a start n).unmark (start + n)

@[simp] theorem markRun_fields (a : PhysicalAllocator) (start n : ℕ) :
    (a.markRun start n).totalPages = a.totalPages ∧ (a.markRun start n).baseAddr = a.baseAddr ∧
      (a.markRun start n).freePagesCtr = a.freePagesCtr := by
  induction n with
  | zero => exact ⟨rfl, rfl, rfl⟩
  | succ n ih => exact ih

@[simp] theorem unmarkRun_fields (a : PhysicalAllocator) (start n : ℕ) :
    (a.unmarkRun start n).totalPages = a.totalPages ∧
      (a.unmarkRun start n).baseAddr = a.baseAddr ∧
      (a.unmarkRun start n).freePagesCtr = a.freePagesCtr := by
  induction n with
  | zero => exact ⟨rfl, rfl, rfl⟩
  | succ n ih => exact ih

@[simp] theorem allocated_markRun (a : PhysicalAllocator) (start n q : ℕ) :
    (a.markRun start n).allocated q =
      (a.allocated q || decide (start ≤ q ∧ q < start + n)) := by
  induction n with
  | zero =>
      have h : ¬(start ≤ q ∧ q < start + 0) := by omega
      rw [markRun, decide_eq_false h, Bool.or_false]
  | succ n ih =>
      rw [markRun, allocated_mark, ih, Bool.or_assoc, ← Bool.decide_or]
      congr 2
      rw [eq_iff_iff]
      omega

@[simp] theorem allocated_unmarkRun (a : PhysicalAllocator) (start n q : ℕ) :
    (a.unmarkRun start n).allocated q =
      (a.allocated q && !decide (start ≤ q ∧ q < start + n)) := by
  induction n with
  | zero =>
      have h : ¬(start ≤ q ∧ q < start + 0) := by omega
      rw [unmarkRun, decide_eq_false h, Bool.not_false, Bool.and_true]
  | succ n ih =>
      rw [unmarkRun, allocated_unmark, ih, Bool.and_assoc, ← Bool.not_or, ← Bool.decide_or]
      congr 3
      rw [eq_iff_iff]
      omega

theorem markPagesAllocated_eq {a : PhysicalAllocator} {start n : ℕ} (h : start + n ≤ maxPages) :
    a.markPagesAllocated start n = some (a.markRun start n) := by
  induction n with
  | zero => rfl
  | succ n ih =>
      have hlt : start + n < maxPages := by omega
      rw [markPagesAllocated, ih (by omega), Option.bind_some, markPageAllocated_eq, if_pos hlt,
        markRun]

theorem markPagesFree_eq {a : PhysicalAllocator} {start n : ℕ} (h : start + n ≤ maxPages) :
    a.markPagesFree start n = some (a.unmarkRun start n) := by
  induction n with
  | zero => rfl
  | succ n ih =>
      have hlt : start + n < maxPages := by omega
      rw [markPagesFree, ih (by omega), Option.bind_some, markPageFree_eq, if_pos hlt, unmarkRun]

/-! ### What the calls do -/

/-- The outcome of `alloc_page` once the compare-exchange has claimed the bit of a page. -/
def claim (a : PhysicalAllocator) (page : ℕ) : Except KernelError PhysAddr × PhysicalAllocator :=
  if a.totalPages.toNat ≤ page then (.error (.memory .outOfMemory), a.mark page)
  else (.ok (a.pageAddr page), { a.mark page with freePagesCtr := a.freePagesCtr - 1 })

/-- The pages `start, …, start + n - 1` are all free. -/
def FreeRun (a : PhysicalAllocator) (start n : ℕ) : Prop :=
  ∀ i < n, a.allocated (start + i) = false

/-- The word loop claims the first clear bit of the words it is given, if there is one. -/
theorem allocPageLoop_cases (a : PhysicalAllocator) (n w : ℕ) :
    ((∀ p, w * wordBits ≤ p → p < (w + n) * wordBits → a.allocated p = true) ∧
        a.allocPageLoop n w = (.error (.memory .outOfMemory), a)) ∨
      ∃ p, w * wordBits ≤ p ∧ p < (w + n) * wordBits ∧ a.allocated p = false ∧
        (∀ q, w * wordBits ≤ q → q < p → a.allocated q = true) ∧
        a.allocPageLoop n w = a.claim p := by
  induction n generalizing w with
  | zero => exact Or.inl ⟨fun p h1 h2 => absurd h2 (by simpa using h1), rfl⟩
  | succ n ih =>
      have hsucc : (w + (n + 1)) * wordBits = (w + 1 + n) * wordBits := by
        congr 1; omega
      have hnext : (w + 1) * wordBits = w * wordBits + wordBits := Nat.succ_mul _ _
      by_cases hfull : a.bitmap w = BitVec.allOnes 64
      · -- a full word: the loop moves on, and every page of this word is allocated
        have hall : ∀ p, w * wordBits ≤ p → p < (w + 1) * wordBits → a.allocated p = true := by
          intro p h1 h2
          obtain ⟨i, rfl⟩ := Nat.exists_eq_add_of_le h1
          have hi : i < wordBits := by omega
          rw [a.allocated_word w hi]
          exact eq_allOnes_iff.1 hfull i hi
        have hrec : a.allocPageLoop (n + 1) w = a.allocPageLoop n (w + 1) := by
          rw [allocPageLoop]; simp only [hfull, if_true]
        rcases ih (w + 1) with ⟨hrest, hres⟩ | ⟨p, h1, h2, hfree, hmin, hres⟩
        · refine Or.inl ⟨fun p h1 h2 => ?_, hrec.trans hres⟩
          rcases Nat.lt_or_ge p ((w + 1) * wordBits) with hlt | hge
          · exact hall p h1 hlt
          · exact hrest p hge (hsucc ▸ h2)
        · refine Or.inr ⟨p, by omega, hsucc ▸ h2, hfree, fun q hq1 hq2 => ?_, hrec.trans hres⟩
          rcases Nat.lt_or_ge q ((w + 1) * wordBits) with hlt | hge
          · exact hall q hq1 hlt
          · exact hmin q hge hq2
      · -- the word has a clear bit, and the loop claims the first one
        have hbit : trailingOnes (a.bitmap w) < wordBits := trailingOnes_lt_iff.2 hfull
        set b := trailingOnes (a.bitmap w) with hb
        have hle : (w + 1) * wordBits ≤ (w + (n + 1)) * wordBits :=
          Nat.mul_le_mul_right _ (by omega)
        refine Or.inr ⟨w * wordBits + b, by omega, by omega, ?_, ?_, ?_⟩
        · rw [a.allocated_word w hbit]
          exact getLsbD_trailingOnes hbit
        · intro q h1 h2
          obtain ⟨i, rfl⟩ := Nat.exists_eq_add_of_le h1
          rw [a.allocated_word w (by omega)]
          exact getLsbD_of_lt_trailingOnes (by omega)
        · rw [allocPageLoop, claim, a.mark_word w hbit]
          simp only [hfull, if_false, ← hb, not_le.2 hbit]

/-- What `alloc_page` can do: refuse on an empty counter, find no clear bit in the bitmap, or claim
the first clear bit. -/
theorem allocPage_cases (a : PhysicalAllocator) :
    (a.freePagesCtr = 0 ∧ a.allocPage = (.error (.memory .outOfMemory), a)) ∨
      (a.freePagesCtr ≠ 0 ∧ (∀ p < maxPages, a.allocated p = true) ∧
        a.allocPage = (.error (.memory .outOfMemory), a)) ∨
      (a.freePagesCtr ≠ 0 ∧ ∃ p < maxPages, a.allocated p = false ∧
        (∀ q < p, a.allocated q = true) ∧ a.allocPage = a.claim p) := by
  have hmax : (0 + bitmapWords) * wordBits = maxPages := by decide
  by_cases h : a.freePagesCtr = 0
  · exact Or.inl ⟨h, by rw [allocPage, if_pos h]⟩
  · have hrun : a.allocPage = a.allocPageLoop bitmapWords 0 := by rw [allocPage, if_neg h]
    have hcases := a.allocPageLoop_cases bitmapWords 0
    rw [Nat.zero_mul, hmax] at hcases
    rcases hcases with ⟨hall, hres⟩ | ⟨p, -, hlt, hfree, hmin, hres⟩
    · exact Or.inr (Or.inl ⟨h, fun p hp => hall p (Nat.zero_le p) hp, hrun.trans hres⟩)
    · exact Or.inr (Or.inr
        ⟨h, p, hlt, hfree, fun q hq => hmin q (Nat.zero_le q) hq, hrun.trans hres⟩)

/-- Where the scan of `alloc_pages` stands in front of `page`: the last `consecutive` pages are free
and begin at `startPage`, the page in front of them is not free, and no run has ended so far. -/
structure Streak (a : PhysicalAllocator) (count page consecutive : ℕ) (startPage : Option ℕ) :
    Prop where
  le : consecutive ≤ page
  lt : consecutive < count
  start : consecutive ≠ 0 → startPage = some (page - consecutive)
  free : a.FreeRun (page - consecutive) consecutive
  left : consecutive = page ∨ a.allocated (page - consecutive - 1) = true
  first : ∀ s, s + count ≤ page → ¬a.FreeRun s count

section Streak

variable {a : PhysicalAllocator} {count page consecutive : ℕ} {startPage : Option ℕ}

theorem streak_zero (a : PhysicalAllocator) (hcount : 0 < count) : a.Streak count 0 0 none where
  le := le_rfl
  lt := hcount
  start h := absurd rfl h
  free i hi := absurd hi (Nat.not_lt_zero i)
  left := Or.inl rfl
  first s hs := by omega

/-- Behind an allocated page the streak starts again. -/
theorem Streak.restart (h : a.Streak count page consecutive startPage)
    (hp : a.allocated page = true) : a.Streak count (page + 1) 0 none where
  le := Nat.zero_le _
  lt := (Nat.zero_le _).trans_lt h.lt
  start hne := absurd rfl hne
  free i hi := absurd hi (Nat.not_lt_zero i)
  left := Or.inr (by simpa using hp)
  first s hs hfr := by
    have hlt := h.lt
    rcases Nat.lt_or_ge page (s + count) with h1 | h1
    · have hpage := hfr (page - s) (by omega)
      rw [Nat.add_sub_cancel' (by omega), hp] at hpage
      cases hpage
    · exact h.first s h1 hfr

/-- A free page is part of the streak. -/
theorem Streak.free_succ (h : a.Streak count page consecutive startPage)
    (hp : a.allocated page = false) : a.FreeRun (page - consecutive) (consecutive + 1) := by
  intro i hi
  rcases Nat.lt_or_ge i consecutive with h1 | h1
  · exact h.free i h1
  · have hle := h.le
    have hpage : page - consecutive + i = page := by omega
    rw [hpage, hp]

/-- With a free page the streak grows, and still starts where it started. -/
theorem Streak.grow (h : a.Streak count page consecutive startPage)
    (hp : a.allocated page = false) (hlt : consecutive + 1 < count) :
    a.Streak count (page + 1) (consecutive + 1) (some (page - consecutive)) := by
  have hle := h.le
  have hsub : page + 1 - (consecutive + 1) = page - consecutive := by omega
  refine ⟨by omega, hlt, fun _ => by rw [hsub], by rw [hsub]; exact h.free_succ hp,
    by rw [hsub]; exact h.left.imp (by omega) id, fun s hs hfr => ?_⟩
  rcases Nat.lt_or_ge page (s + count) with h1 | h1
  · -- a run ending here would start before the streak, on an allocated page
    rcases h.left with h2 | h2
    · omega
    · have hpage := hfr (page - consecutive - 1 - s) (by omega)
      rw [Nat.add_sub_cancel' (by omega), h2] at hpage
      cases hpage
  · exact h.first s h1 hfr

theorem scanPages_allocated (n : ℕ) (hmax : page < maxPages) (hp : a.allocated page = true) :
    a.scanPages count (n + 1) page startPage consecutive =
      a.scanPages count n (page + 1) none 0 := by
  have hfree : a.isPageFree page = some false := by
    rw [isPageFree_eq, if_pos hmax, hp]
    rfl
  rw [scanPages]
  simp only [hfree]

theorem Streak.scanPages_free (h : a.Streak count page consecutive startPage) (n : ℕ)
    (hmax : page < maxPages) (hp : a.allocated page = false) :
    a.scanPages count (n + 1) page startPage consecutive =
      if consecutive + 1 = count then some (some (page - consecutive))
      else a.scanPages count n (page + 1) (some (page - consecutive)) (consecutive + 1) := by
  have hfree : a.isPageFree page = some true := by
    rw [isPageFree_eq, if_pos hmax, hp]
    rfl
  have hstart : (if consecutive = 0 then some page else startPage) =
      some (page - consecutive) := by
    by_cases h0 : consecutive = 0
    · simp [h0]
    · rw [if_neg h0, h.start h0]
  rw [scanPages]
  simp only [hfree, hstart, Option.map_some]

end Streak

/-- The scan of `alloc_pages` panics past a bitmap without a run, finds no run, or finds the first
one. -/
theorem Streak.scanPages_cases {a : PhysicalAllocator} {count page consecutive : ℕ}
    {startPage : Option ℕ} (n : ℕ) (h : a.Streak count page consecutive startPage) :
    (maxPages < page + n ∧ (∀ s, s + count ≤ maxPages → ¬a.FreeRun s count) ∧
      a.scanPages count n page startPage consecutive = none) ∨
    (a.scanPages count n page startPage consecutive = some none ∧
      ∀ s, s + count ≤ page + n → ¬a.FreeRun s count) ∨
    ∃ s, a.scanPages count n page startPage consecutive = some (some s) ∧
      s + count ≤ page + n ∧ s + count ≤ maxPages ∧ a.FreeRun s count ∧
      ∀ s' < s, ¬a.FreeRun s' count := by
  induction n generalizing page startPage consecutive with
  | zero => exact Or.inr (Or.inl ⟨rfl, h.first⟩)
  | succ n ih =>
      have hsum : page + (n + 1) = page + 1 + n := by omega
      rw [hsum]
      by_cases hmax : page < maxPages
      · cases hp : a.allocated page with
        | true =>
            rw [scanPages_allocated n hmax hp]
            exact ih (h.restart hp)
        | false =>
            rw [h.scanPages_free n hmax hp]
            have hle := h.le
            have hlt := h.lt
            by_cases hdone : consecutive + 1 = count
            · -- the streak is long enough, and it is the first such run
              rw [if_pos hdone]
              refine Or.inr (Or.inr ⟨page - consecutive, rfl, by omega, by omega,
                hdone ▸ h.free_succ hp, fun s hs hfr => ?_⟩)
              exact h.first s (by omega) hfr
            · rw [if_neg hdone]
              exact ih (h.grow hp (by omega))
      · have hfree : a.isPageFree page = none := by rw [isPageFree_eq, if_neg hmax]
        refine Or.inl ⟨by omega, fun s hs => h.first s (hs.trans (not_lt.1 hmax)), ?_⟩
        rw [scanPages]
        simp only [hfree]

/-- The outcome of `alloc_pages` once the scan has found a run. -/
def claimRun (a : PhysicalAllocator) (start count : ℕ) :
    Except KernelError PhysAddr × PhysicalAllocator :=
  (.ok (a.pageAddr start),
    { a.markRun start count with freePagesCtr := a.freePagesCtr - BitVec.ofNat 64 count })

@[simp] theorem claimRun_totalPages (a : PhysicalAllocator) (s n : ℕ) :
    (a.claimRun s n).2.totalPages = a.totalPages := (a.markRun_fields s n).1

@[simp] theorem claimRun_baseAddr (a : PhysicalAllocator) (s n : ℕ) :
    (a.claimRun s n).2.baseAddr = a.baseAddr := (a.markRun_fields s n).2.1

@[simp] theorem claimRun_freePagesCtr (a : PhysicalAllocator) (s n : ℕ) :
    (a.claimRun s n).2.freePagesCtr = a.freePagesCtr - BitVec.ofNat 64 n := rfl

@[simp] theorem allocated_claimRun (a : PhysicalAllocator) (s n q : ℕ) :
    (a.claimRun s n).2.allocated q = (a.allocated q || decide (s ≤ q ∧ q < s + n)) :=
  a.allocated_markRun s n q

/-- What `alloc_pages` can do for at least two pages: panic past a bitmap without a run, refuse on
the counter, find no run of consecutive free pages, or claim the first one. -/
theorem allocPages_cases (a : PhysicalAllocator) {count : ℕ} (hcount : 2 ≤ count) :
    (maxPages < a.totalPages.toNat ∧ (∀ s, s + count ≤ maxPages → ¬a.FreeRun s count) ∧
        a.allocPages count = none) ∨
      (a.freePagesCtr.toNat < count ∧
        a.allocPages count = some (.error (.memory .outOfMemory), a)) ∨
      ((∀ s, s + count ≤ a.totalPages.toNat → ¬a.FreeRun s count) ∧
        a.allocPages count = some (.error (.memory .outOfMemory), a)) ∨
      (count ≤ a.freePagesCtr.toNat ∧ ∃ s, s + count ≤ a.totalPages.toNat ∧
        s + count ≤ maxPages ∧ a.FreeRun s count ∧ (∀ s' < s, ¬a.FreeRun s' count) ∧
        a.allocPages count = some (a.claimRun s count)) := by
  by_cases hctr : a.freePagesCtr.toNat < count
  · refine Or.inr (Or.inl ⟨hctr, ?_⟩)
    rw [allocPages, if_neg (by omega), if_neg (by omega), if_pos hctr]
  · have hdef : a.allocPages count =
        (match a.scanPages count a.totalPages.toNat 0 none 0 with
        | none => none
        | some none => some (.error (.memory .outOfMemory), a)
        | some (some start) =>
            (a.markPagesAllocated start count).map fun a' =>
              (.ok (a.pageAddr start),
                { a' with freePagesCtr := a'.freePagesCtr - BitVec.ofNat 64 count })) := by
      rw [allocPages, if_neg (by omega), if_neg (by omega), if_neg hctr]
    have hscan :=
      (a.streak_zero (show 0 < count by omega)).scanPages_cases a.totalPages.toNat
    rw [Nat.zero_add] at hscan
    rcases hscan with ⟨hmax, hno, hres⟩ | ⟨hres, hno⟩ | ⟨s, hres, htot, hmax, hfree, hmin⟩
    · exact Or.inl ⟨hmax, hno, by rw [hdef, hres]⟩
    · exact Or.inr (Or.inr (Or.inl ⟨hno, by rw [hdef, hres]⟩))
    · refine Or.inr (Or.inr (Or.inr ⟨not_lt.1 hctr, s, htot, hmax, hfree, hmin, ?_⟩))
      rw [hdef, hres]
      simp only [markPagesAllocated_eq hmax, Option.map_some, claimRun,
        (a.markRun_fields s count).2.2]

/-- `alloc_pages` is first-fit. -/
theorem allocPages_eq_claimRun {a : PhysicalAllocator} {count s : ℕ} (hcount : 2 ≤ count)
    (hctr : count ≤ a.freePagesCtr.toNat) (hs : s + count ≤ a.totalPages.toNat)
    (htotal : a.totalPages.toNat ≤ maxPages) (hfree : a.FreeRun s count)
    (hmin : ∀ s' < s, ¬a.FreeRun s' count) : a.allocPages count = some (a.claimRun s count) := by
  rcases a.allocPages_cases hcount with
    ⟨h, -⟩ | ⟨h, -⟩ | ⟨h, -⟩ | ⟨-, s', -, -, hfree', hmin', hres⟩
  · omega
  · omega
  · exact absurd hfree (h s hs)
  · obtain rfl : s' = s := by
      rcases Nat.lt_trichotomy s' s with h | h | h
      · exact absurd hfree' (hmin s' h)
      · exact h
      · exact absurd hfree (hmin' s h)
    exact hres

/-- What `addr_to_page` accepts. -/
theorem addrToPage_cases (a : PhysicalAllocator) (addr : PhysAddr) :
    a.addrToPage addr = .error (.memory .invalidAddress) ∨
      ∃ p < a.totalPages.toNat, a.addrToPage addr = .ok p := by
  unfold addrToPage
  split
  · exact Or.inl rfl
  · dsimp only
    split
    · exact Or.inl rfl
    · exact Or.inr ⟨_, by omega, rfl⟩

/-- The address of a page in range is read back as that page, unless the address wrapped. -/
theorem addrToPage_pageAddr {a : PhysicalAllocator} {p q : ℕ} (hp : p < maxPages)
    (h : a.addrToPage (a.pageAddr p) = .ok q) : q = p := by
  unfold addrToPage at h
  split at h
  · exact absurd h (by simp)
  · rename_i hlt
    dsimp only at h
    split at h
    · exact absurd h (by simp)
    · simp only [Except.ok.injEq] at h
      have hm : maxPages = 4194304 := rfl
      have hs : pageSize = 4096 := rfl
      have hb := a.baseAddr.addr.isLt
      rw [BitVec.lt_def, not_lt, pageAddr, BitVec.toNat_add, BitVec.toNat_ofNat, hs] at hlt
      rw [pageAddr, BitVec.toNat_add, BitVec.toNat_ofNat, hs] at h
      omega

/-- What `free_page` can do: panic past the bitmap, refuse, or clear the bit of an allocated page in
range. -/
theorem freePage_cases (a : PhysicalAllocator) (addr : PhysAddr) :
    (maxPages < a.totalPages.toNat ∧ a.freePage addr = none) ∨
      (∃ e, a.freePage addr = some (.error e, a)) ∨
      ∃ p < a.totalPages.toNat, p < maxPages ∧ a.addrToPage addr = .ok p ∧
        a.allocated p = true ∧
        a.freePage addr =
          some (.ok (), { a.unmark p with freePagesCtr := a.freePagesCtr + 1 }) := by
  by_cases hal : addr.isAligned = false
  · exact Or.inr (Or.inl ⟨_, by rw [freePage, if_pos hal]⟩)
  · rcases a.addrToPage_cases addr with he | ⟨p, hp, he⟩
    · refine Or.inr (Or.inl ⟨.memory .invalidAddress, ?_⟩)
      rw [freePage, if_neg hal]; simp only [he]
    · have hdef : a.freePage addr =
          (match a.isPageFree p with
          | none => none
          | some true => some (.error (.memory .doubleFree), a)
          | some false =>
              (a.markPageFree p).map fun a' =>
                (.ok (), { a' with freePagesCtr := a'.freePagesCtr + 1 })) := by
        rw [freePage, if_neg hal]; simp only [he]
      rw [isPageFree_eq, markPageFree_eq] at hdef
      by_cases hmax : p < maxPages
      · simp only [if_pos hmax] at hdef
        cases hb : a.allocated p with
        | false =>
            rw [hb] at hdef
            exact Or.inr (Or.inl ⟨_, hdef⟩)
        | true =>
            rw [hb] at hdef
            exact Or.inr (Or.inr ⟨p, hp, hmax, he, hb, hdef⟩)
      · simp only [if_neg hmax] at hdef
        exact Or.inl ⟨by omega, hdef⟩

/-- The check loop of `free_pages`: it panics past the bitmap, meets a free page, or finds every
page allocated. -/
theorem anyPageFree_cases (a : PhysicalAllocator) (n page : ℕ) :
    (maxPages < page + n ∧ a.anyPageFree n page = none) ∨
      (a.anyPageFree n page = some true ∧
        ∃ q, page ≤ q ∧ q < page + n ∧ a.allocated q = false) ∨
      (a.anyPageFree n page = some false ∧ (page + n ≤ maxPages ∨ n = 0) ∧
        ∀ q, page ≤ q → q < page + n → a.allocated q = true) := by
  induction n generalizing page with
  | zero => exact Or.inr (Or.inr ⟨rfl, Or.inr rfl, fun q h1 h2 => by omega⟩)
  | succ n ih =>
      have hsum : page + (n + 1) = page + 1 + n := by omega
      by_cases hmax : page < maxPages
      · have hfree : a.isPageFree page = some (!a.allocated page) := by
          rw [isPageFree_eq, if_pos hmax]
        cases hp : a.allocated page with
        | false =>
            refine Or.inr (Or.inl ⟨?_, page, le_rfl, by omega, hp⟩)
            rw [anyPageFree, hfree, hp]; rfl
        | true =>
            have hrec : a.anyPageFree (n + 1) page = a.anyPageFree n (page + 1) := by
              rw [anyPageFree, hfree, hp]; rfl
            rw [hrec, hsum]
            rcases ih (page + 1) with h | ⟨h, q, h1, h2, hq⟩ | ⟨h, hb, hall⟩
            · exact Or.inl h
            · exact Or.inr (Or.inl ⟨h, q, by omega, h2, hq⟩)
            · refine Or.inr (Or.inr ⟨h, Or.inl (by omega), fun q h1 h2 => ?_⟩)
              rcases Nat.eq_or_lt_of_le h1 with rfl | h1
              · exact hp
              · exact hall q h1 h2
      · refine Or.inl ⟨by omega, ?_⟩
        rw [anyPageFree, isPageFree_eq, if_neg hmax]

/-- What `free_pages` can do: panic past the bitmap with nothing changed, refuse, or clear the bits
of a run of allocated pages. -/
theorem freePages_cases (a : PhysicalAllocator) (addr : PhysAddr) (count : ℕ) :
    (∃ p < a.totalPages.toNat, maxPages < p + count ∧ a.freePages addr count = none) ∨
      (∃ e, a.freePages addr count = some (.error e, a)) ∨
      (0 < count ∧ ∃ p < a.totalPages.toNat, p + count ≤ maxPages ∧ a.addrToPage addr = .ok p ∧
        (∀ q, p ≤ q → q < p + count → a.allocated q = true) ∧
        a.freePages addr count =
          some (.ok (), { a.unmarkRun p count with
            freePagesCtr := a.freePagesCtr + BitVec.ofNat 64 count })) := by
  by_cases h0 : count = 0
  · exact Or.inr (Or.inl ⟨_, by rw [freePages, if_pos h0]⟩)
  by_cases hal : addr.isAligned = false
  · exact Or.inr (Or.inl ⟨_, by rw [freePages, if_neg h0, if_pos hal]⟩)
  rcases a.addrToPage_cases addr with he | ⟨p, hp, he⟩
  · refine Or.inr (Or.inl ⟨.memory .invalidAddress, ?_⟩)
    rw [freePages, if_neg h0, if_neg hal]; simp only [he]
  · have hdef : a.freePages addr count =
        (match a.anyPageFree count p with
        | none => none
        | some true => some (.error (.memory .doubleFree), a)
        | some false =>
            (a.markPagesFree p count).map fun a' =>
              (.ok (), { a' with
                freePagesCtr := a'.freePagesCtr + BitVec.ofNat 64 count })) := by
      rw [freePages, if_neg h0, if_neg hal]; simp only [he]
    rcases a.anyPageFree_cases count p with ⟨hmax, hres⟩ | ⟨hres, -⟩ | ⟨hres, hmax, hall⟩
    · exact Or.inl ⟨p, hp, hmax, by rw [hdef, hres]⟩
    · exact Or.inr (Or.inl ⟨_, by rw [hdef, hres]⟩)
    · have hle : p + count ≤ maxPages := hmax.resolve_right h0
      refine Or.inr (Or.inr ⟨Nat.pos_of_ne_zero h0, p, hp, hle, he, hall, ?_⟩)
      rw [hdef, hres]
      simp only [markPagesFree_eq hle, Option.map_some, (a.unmarkRun_fields p count).2.2]

end PhysicalAllocator

end StarOS
