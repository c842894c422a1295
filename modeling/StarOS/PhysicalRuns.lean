/-
Sequential runs of the physical page allocator: the counter and the bitmap tell the same story.

`alloc_page` finds its page by scanning words, `alloc_pages` by scanning pages, and both decide
from the counter whether to look at all.  They agree because the counter is kept equal to the
number of clear bits in range, and no bit past the range is ever set; this module proves that both
hold after every sequence of calls with arbitrary arguments, whatever the calls return.

* `StarOS.PhysicalAllocator.allocatedCount` — the number of allocated pages;
* `StarOS.PhysicalAllocator.Bookkept` — the invariant;
* `StarOS.PhysOp`, `StarOS.physicalSystem` — the calls of a run, and the runs from a new allocator;
* `StarOS.physicalAllocator_bookkeeping` — the invariant in every reachable state, with what it
  gives for the two ways of allocating.
-/

import StarOS.Physical
import StarOS.Runs
import Mathlib.Order.Interval.Finset.Nat

set_option autoImplicit false

namespace StarOS

namespace PhysicalAllocator

/-! ### Counting pages -/

/-- The number of allocated pages among the first `totalPages`. -/
def allocatedCount (a : PhysicalAllocator) : ℕ :=
  ((Finset.range a.totalPages.toNat).filter fun p => a.allocated p = true).card

theorem allocatedCount_le (a : PhysicalAllocator) : a.allocatedCount ≤ a.totalPages.toNat := by
  simpa [allocatedCount] using
    Finset.card_filter_le (Finset.range a.totalPages.toNat) fun p => a.allocated p = true

/-- Two allocators whose bits differ exactly on a run of pages in range, all clear in the first and
all set in the second, differ by the length of the run in their counts. -/
theorem allocatedCount_of_run {a b : PhysicalAllocator} {start n : ℕ}
    (htot : b.totalPages = a.totalPages) (hle : start + n ≤ a.totalPages.toNat)
    (hfree : a.FreeRun start n)
    (hbits : ∀ q, b.allocated q = (a.allocated q || decide (start ≤ q ∧ q < start + n))) :
    b.allocatedCount = a.allocatedCount + n := by
  have hdisj : Disjoint ((Finset.range a.totalPages.toNat).filter fun p => a.allocated p = true)
      (Finset.Ico start (start + n)) := by
    rw [Finset.disjoint_left]
    intro p hp hI
    rw [Finset.mem_filter] at hp
    rw [Finset.mem_Ico] at hI
    have := hfree (p - start) (by omega)
    rw [Nat.add_sub_cancel' hI.1, hp.2] at this
    exact absurd this (by decide)
  have hunion : (Finset.range b.totalPages.toNat).filter (fun p => b.allocated p = true) =
      ((Finset.range a.totalPages.toNat).filter fun p => a.allocated p = true) ∪
        Finset.Ico start (start + n) := by
    ext p
    simp only [Finset.mem_filter, Finset.mem_union, Finset.mem_range, Finset.mem_Ico, htot,
      hbits, Bool.or_eq_true, decide_eq_true_eq]
    constructor
    · rintro ⟨hp, h | h⟩
      · exact Or.inl ⟨hp, h⟩
      · exact Or.inr h
    · rintro (⟨hp, h⟩ | h)
      · exact ⟨hp, Or.inl h⟩
      · exact ⟨by omega, Or.inr h⟩
  rw [allocatedCount, hunion, Finset.card_union_of_disjoint hdisj, Nat.card_Ico, allocatedCount]
  omega

theorem allocatedCount_markRun {a : PhysicalAllocator} {start n : ℕ}
    (hle : start + n ≤ a.totalPages.toNat) (hfree : a.FreeRun start n) :
    (a.markRun start n).allocatedCount = a.allocatedCount + n :=
  allocatedCount_of_run (a.markRun_fields start n).1 hle hfree (a.allocated_markRun start n)

theorem allocatedCount_unmarkRun {a : PhysicalAllocator} {start n : ℕ}
    (hle : start + n ≤ a.totalPages.toNat)
    (hall : ∀ q, start ≤ q → q < start + n → a.allocated q = true) :
    a.allocatedCount = (a.unmarkRun start n).allocatedCount + n := by
  have htot := (a.unmarkRun_fields start n).1
  have hfree : (a.unmarkRun start n).FreeRun start n := by
    intro i hi
    have h : start ≤ start + i ∧ start + i < start + n := by omega
    rw [allocated_unmarkRun, decide_eq_true h, Bool.not_true, Bool.and_false]
  refine allocatedCount_of_run htot.symm (htot ▸ hle) hfree ?_
  intro q
  rw [allocated_unmarkRun]
  by_cases h : start ≤ q ∧ q < start + n
  · simp [h, hall q h.1 h.2]
  · rw [decide_eq_false h, Bool.not_false, Bool.and_true, Bool.or_false]

/-- A run of free pages in range fits beside the allocated ones. -/
theorem FreeRun.add_allocatedCount_le {a : PhysicalAllocator} {start n : ℕ}
    (h : a.FreeRun start n) (hle : start + n ≤ a.totalPages.toNat) :
    a.allocatedCount + n ≤ a.totalPages.toNat := by
  rw [← allocatedCount_markRun hle h, ← (a.markRun_fields start n).1]
  exact allocatedCount_le _

/-- If every page in range counts, every page in range is allocated. -/
theorem allocated_of_count_eq {a : PhysicalAllocator}
    (h : a.allocatedCount = a.totalPages.toNat) {p : ℕ} (hp : p < a.totalPages.toNat) :
    a.allocated p = true := by
  have heq : (Finset.range a.totalPages.toNat).filter (fun p => a.allocated p = true) =
      Finset.range a.totalPages.toNat :=
    Finset.eq_of_subset_of_card_le (Finset.filter_subset _ _)
      (by rw [Finset.card_range]; exact h.ge)
  have hmem : p ∈ Finset.range a.totalPages.toNat := Finset.mem_range.2 hp
  rw [← heq] at hmem
  exact (Finset.mem_filter.1 hmem).2

/-! ### The invariant -/

/-- The bookkeeping invariant: the counter is the number of clear bits in range, and no bit past
the range is set. -/
structure Bookkept (a : PhysicalAllocator) : Prop where
  /-- The counter counts the free pages. -/
  ctr : a.freePagesCtr.toNat + a.allocatedCount = a.totalPages.toNat
  /-- No bit at or past `totalPages` is set. -/
  tail : ∀ p, a.totalPages.toNat ≤ p → a.allocated p = false

theorem bookkept_new (base : PhysAddr) (total : Usize) : (new base total).Bookkept := by
  constructor
  · simp [new, allocatedCount, allocated]
  · intro p _
    simp

/-- Claiming a run of free pages keeps the books. -/
theorem Bookkept.markRun {a : PhysicalAllocator} (h : a.Bookkept) {start n : ℕ}
    (hle : start + n ≤ a.totalPages.toNat) (hfree : a.FreeRun start n) :
    ({ a.markRun start n with freePagesCtr := a.freePagesCtr - BitVec.ofNat 64 n } :
      PhysicalAllocator).Bookkept := by
  have hroom := hfree.add_allocatedCount_le hle
  have hctr := h.ctr
  have hlt := a.freePagesCtr.isLt
  obtain ⟨htot, -, -⟩ := a.markRun_fields start n
  constructor
  · change (a.freePagesCtr - BitVec.ofNat 64 n).toNat + (a.markRun start n).allocatedCount =
      (a.markRun start n).totalPages.toNat
    rw [allocatedCount_markRun hle hfree, htot, BitVec.toNat_sub, BitVec.toNat_ofNat]
    omega
  · intro p hp
    change (a.markRun start n).allocated p = false
    change (a.markRun start n).totalPages.toNat ≤ p at hp
    rw [htot] at hp
    have hout : ¬(start ≤ p ∧ p < start + n) := by omega
    rw [allocated_markRun, h.tail p hp, decide_eq_false hout, Bool.or_false]

/-- Clearing a run of allocated pages keeps the books. -/
theorem Bookkept.unmarkRun {a : PhysicalAllocator} (h : a.Bookkept) {start n : ℕ}
    (hle : start + n ≤ a.totalPages.toNat)
    (hall : ∀ q, start ≤ q → q < start + n → a.allocated q = true) :
    ({ a.unmarkRun start n with freePagesCtr := a.freePagesCtr + BitVec.ofNat 64 n } :
      PhysicalAllocator).Bookkept := by
  have hcount := allocatedCount_unmarkRun hle hall
  have hctr := h.ctr
  have hlt := a.totalPages.isLt
  obtain ⟨htot, -, -⟩ := a.unmarkRun_fields start n
  constructor
  · change (a.freePagesCtr + BitVec.ofNat 64 n).toNat + (a.unmarkRun start n).allocatedCount =
      (a.unmarkRun start n).totalPages.toNat
    rw [htot, BitVec.toNat_add, BitVec.toNat_ofNat]
    omega
  · intro p hp
    change (a.unmarkRun start n).allocated p = false
    change (a.unmarkRun start n).totalPages.toNat ≤ p at hp
    rw [htot] at hp
    rw [allocated_unmarkRun, h.tail p hp, Bool.false_and]

/-- A run of allocated pages lies in range. -/
theorem Bookkept.run_le {a : PhysicalAllocator} (h : a.Bookkept) {start n : ℕ}
    (hstart : start < a.totalPages.toNat)
    (hall : ∀ q, start ≤ q → q < start + n → a.allocated q = true) :
    start + n ≤ a.totalPages.toNat := by
  by_contra hgt
  have := hall a.totalPages.toNat (by omega) (by omega)
  rw [h.tail _ le_rfl] at this
  exact absurd this (by decide)

/-- With the books in order, `alloc_page` either finds every page allocated, or claims the first
free page, which is in range. -/
theorem Bookkept.allocPage_cases {a : PhysicalAllocator} (h : a.Bookkept) :
    ((∀ p < a.totalPages.toNat, p < maxPages → a.allocated p = true) ∧
        a.allocPage = (.error (.memory .outOfMemory), a)) ∨
      ∃ p < a.totalPages.toNat, p < maxPages ∧ a.FreeRun p 1 ∧ a.allocPage = a.claimRun p 1 := by
  have hctr := h.ctr
  rcases a.allocPage_cases with ⟨h0, hres⟩ | ⟨-, hall, hres⟩ | ⟨h0, p, hp, hfree, hmin, hres⟩
  · refine Or.inl ⟨fun p hp _ => allocated_of_count_eq ?_ hp, hres⟩
    rw [h0] at hctr
    simpa using hctr
  · exact Or.inl ⟨fun p _ hp => hall p hp, hres⟩
  · -- a positive counter leaves a clear bit in range, and the first clear bit is no later
    have hlt : p < a.totalPages.toNat := by
      by_contra hge
      have hcount : a.allocatedCount = a.totalPages.toNat := by
        rw [allocatedCount, Finset.filter_true_of_mem, Finset.card_range]
        intro q hq
        exact hmin q (by rw [Finset.mem_range] at hq; omega)
      have hz : a.freePagesCtr.toNat = 0 := by omega
      exact h0 (BitVec.eq_of_toNat_eq (by simpa using hz))
    refine Or.inr ⟨p, hlt, hp, fun i hi => ?_, ?_⟩
    · obtain rfl : i = 0 := by omega
      exact hfree
    · rw [hres, claim, if_neg (not_le.2 hlt)]
      rfl

/-- With the books in order, `alloc_pages` refuses a zero count, finds no run of free pages, and
then refuses or panics, or claims one. -/
theorem Bookkept.allocPages_cases {a : PhysicalAllocator} (h : a.Bookkept) (count : ℕ) :
    (count = 0 ∧ a.allocPages count =
        some (.error (.invalidParameter "count must be > 0"), a)) ∨
      ((∀ s, s + count ≤ a.totalPages.toNat → s + count ≤ maxPages → ¬a.FreeRun s count) ∧
        (a.allocPages count = some (.error (.memory .outOfMemory), a) ∨
          maxPages < a.totalPages.toNat ∧ a.allocPages count = none)) ∨
      ∃ s, s + count ≤ a.totalPages.toNat ∧ s + count ≤ maxPages ∧ a.FreeRun s count ∧
        a.allocPages count = some (a.claimRun s count) := by
  rcases Nat.lt_or_ge count 2 with hlt | hge
  · obtain rfl | rfl : count = 0 ∨ count = 1 := by omega
    · exact Or.inl ⟨rfl, by rw [allocPages, if_pos rfl]⟩
    · have hone : a.allocPages 1 = some a.allocPage := by
        rw [allocPages, if_neg (by decide), if_pos rfl]
      rcases h.allocPage_cases with ⟨hall, hres⟩ | ⟨p, hp, hmax, hfree, hres⟩
      · refine Or.inr (Or.inl ⟨fun s hs hmax hfr => ?_, Or.inl (by rw [hone, hres])⟩)
        have := hfr 0 (by decide)
        rw [Nat.add_zero, hall s (by omega) (by omega)] at this
        exact absurd this (by decide)
      · exact Or.inr (Or.inr ⟨p, hp, hmax, hfree, by rw [hone, hres]⟩)
  · rcases PhysicalAllocator.allocPages_cases a hge with
      ⟨hmax, hno, hres⟩ | ⟨hctr, hres⟩ | ⟨hno, hres⟩ | ⟨-, s, hs, hmax, hfree, -, hres⟩
    · exact Or.inr (Or.inl ⟨fun s _ hs => hno s hs, Or.inr ⟨hmax, hres⟩⟩)
    · refine Or.inr (Or.inl ⟨fun s hs _ hfr => ?_, Or.inl hres⟩)
      have := hfr.add_allocatedCount_le hs
      have := h.ctr
      omega
    · exact Or.inr (Or.inl ⟨fun s hs _ => hno s hs, Or.inl hres⟩)
    · exact Or.inr (Or.inr ⟨s, hs, hmax, hfree, hres⟩)

end PhysicalAllocator

/-! ### Runs -/

/-- A call on the physical allocator. -/
inductive PhysOp where
  | allocPage
  | allocPages (count : ℕ)
  | freePage (addr : PhysAddr)
  | freePages (addr : PhysAddr) (count : ℕ)

/-- The state a call that returns leaves behind. -/
def PhysOp.step (a : PhysicalAllocator) : PhysOp → PhysicalAllocator → Prop
  | allocPage, a' => a.allocPage.2 = a'
  | allocPages count, a' => ∃ r, a.allocPages count = some (r, a')
  | freePage addr, a' => ∃ r, a.freePage addr = some (r, a')
  | freePages addr count, a' => ∃ r, a.freePages addr count = some (r, a')

/-- The sequential runs of a new allocator. -/
def physicalSystem (base : PhysAddr) (total : Usize) :
    Runs.System PhysicalAllocator PhysOp where
  init := fun a => a = PhysicalAllocator.new base total
  step := fun a op a' => op.step a a'

/-- One call keeps the books, and never moves the range. -/
theorem PhysOp.step_bookkept {a a' : PhysicalAllocator} {op : PhysOp} (h : a.Bookkept)
    (hs : op.step a a') :
    a'.Bookkept ∧ a'.totalPages = a.totalPages ∧ a'.baseAddr = a.baseAddr := by
  have hclaim : ∀ s n, s + n ≤ a.totalPages.toNat → a.FreeRun s n →
      (a.claimRun s n).2.Bookkept ∧ (a.claimRun s n).2.totalPages = a.totalPages ∧
        (a.claimRun s n).2.baseAddr = a.baseAddr := fun s n hle hfree =>
    ⟨h.markRun hle hfree, (a.markRun_fields s n).1, (a.markRun_fields s n).2.1⟩
  cases op with
  | allocPage =>
      rcases h.allocPage_cases with ⟨-, hres⟩ | ⟨p, hp, -, hfree, hres⟩
      · obtain rfl : a = a' := by simpa [PhysOp.step, hres] using hs
        exact ⟨h, rfl, rfl⟩
      · obtain rfl : (a.claimRun p 1).2 = a' := by simpa [PhysOp.step, hres] using hs
        exact hclaim p 1 hp hfree
  | allocPages count =>
      obtain ⟨r, hs⟩ := hs
      rcases h.allocPages_cases count with
        ⟨-, hres⟩ | ⟨-, hres | ⟨-, hres⟩⟩ | ⟨s, hle, -, hfree, hres⟩
      · rw [hres] at hs; cases hs; exact ⟨h, rfl, rfl⟩
      · rw [hres] at hs; cases hs; exact ⟨h, rfl, rfl⟩
      · rw [hres] at hs; exact absurd hs (by simp)
      · rw [hres] at hs; cases hs; exact hclaim s count hle hfree
  | freePage addr =>
      obtain ⟨r, hs⟩ := hs
      rcases a.freePage_cases addr with ⟨-, hres⟩ | ⟨e, hres⟩ | ⟨p, hp, -, -, hbit, hres⟩
      · rw [hres] at hs; exact absurd hs (by simp)
      · rw [hres] at hs; cases hs; exact ⟨h, rfl, rfl⟩
      · rw [hres] at hs
        cases hs
        have hall : ∀ q, p ≤ q → q < p + 1 → a.allocated q = true := by
          intro q h1 h2
          obtain rfl : q = p := by omega
          exact hbit
        exact ⟨h.unmarkRun hp hall, rfl, rfl⟩
  | freePages addr count =>
      obtain ⟨r, hs⟩ := hs
      rcases a.freePages_cases addr count with
        ⟨-, -, -, hres⟩ | ⟨e, hres⟩ | ⟨-, p, hp, -, -, hall, hres⟩
      · rw [hres] at hs; exact absurd hs (by simp)
      · rw [hres] at hs; cases hs; exact ⟨h, rfl, rfl⟩
      · rw [hres] at hs
        cases hs
        exact ⟨h.unmarkRun (h.run_le hp hall) hall, (a.unmarkRun_fields p count).1,
          (a.unmarkRun_fields p count).2.1⟩

/-- The books are in order in every reachable state. -/
theorem physicalSystem_bookkept {base : PhysAddr} {total : Usize} {a : PhysicalAllocator}
    (h : (physicalSystem base total).Reach Runs.anyStep a) :
    a.Bookkept ∧ a.totalPages = total ∧ a.baseAddr = base := by
  refine h.invariant (P := fun a => a.Bookkept ∧ a.totalPages = total ∧ a.baseAddr = base) ?_ ?_
  · rintro _ rfl
    exact ⟨PhysicalAllocator.bookkept_new base total, rfl, rfl⟩
  · rintro a op a' ⟨hb, htot, hbase⟩ - hs
    obtain ⟨hb', htot', hbase'⟩ := PhysOp.step_bookkept hb hs
    exact ⟨hb', htot'.trans htot, hbase'.trans hbase⟩

/-- The bookkeeping of the physical allocator: in every state of every run from a new allocator,
the counter is the number of clear bits in range, no bit past the range is set, what is handed out
was free and in range, and memory is refused only when there is none. -/
theorem physicalAllocator_bookkeeping {base : PhysAddr} {total : Usize}
    (htotal : total.toNat ≤ maxPages) {a : PhysicalAllocator}
    (h : (physicalSystem base total).Reach Runs.anyStep a) :
    a.freePagesCtr.toNat = total.toNat - a.allocatedCount ∧
      (∀ p, total.toNat ≤ p → a.allocated p = false) ∧
      (∀ addr a', a.allocPage = (.ok addr, a') → ∃ p < total.toNat,
        addr = (PhysicalAllocator.new base total).pageAddr p ∧ a.allocated p = false ∧
          ∀ q, a'.allocated q = (a.allocated q || decide (q = p))) ∧
      (∀ n addr a', a.allocPages n = some (.ok addr, a') → ∃ s, s + n ≤ total.toNat ∧
        addr = (PhysicalAllocator.new base total).pageAddr s ∧
          (∀ i < n, a.allocated (s + i) = false) ∧
          ∀ q, a'.allocated q = (a.allocated q || decide (s ≤ q ∧ q < s + n))) ∧
      (∀ e a', a.allocPage = (.error e, a') →
        e = .memory .outOfMemory ∧ ∀ p < total.toNat, a.allocated p = true) ∧
      (∀ n, ∃ r a', a.allocPages n = some (r, a') ∧
        (r = .error (.memory .outOfMemory) →
          ∀ s, s + n ≤ total.toNat → ∃ i < n, a.allocated (s + i) = true)) := by
  obtain ⟨hb, rfl, rfl⟩ := physicalSystem_bookkept h
  refine ⟨?_, hb.tail, ?_, ?_, ?_, ?_⟩
  · have := hb.ctr
    omega
  · intro addr a' hres
    rcases hb.allocPage_cases with ⟨-, he⟩ | ⟨p, hp, -, hfree, hc⟩
    · rw [he] at hres; exact absurd hres (by simp)
    · rw [hc] at hres
      cases hres
      exact ⟨p, hp, rfl, hfree 0 (by decide), a.allocated_mark p⟩
  · intro n addr a' hres
    rcases hb.allocPages_cases n with ⟨-, he⟩ | ⟨-, he | ⟨-, he⟩⟩ | ⟨s, hs, -, hfree, hc⟩
    · rw [he] at hres; exact absurd hres (by simp)
    · rw [he] at hres; exact absurd hres (by simp)
    · rw [he] at hres; exact absurd hres (by simp)
    · rw [hc] at hres
      cases hres
      exact ⟨s, hs, rfl, hfree, a.allocated_markRun s n⟩
  · intro e a' hres
    rcases hb.allocPage_cases with ⟨hall, he⟩ | ⟨p, hp, -, hfree, hc⟩
    · rw [he] at hres
      cases hres
      exact ⟨rfl, fun p hp => hall p hp (by omega)⟩
    · rw [hc] at hres; exact absurd hres (by simp [PhysicalAllocator.claimRun])
  · intro n
    rcases hb.allocPages_cases n with
      ⟨-, he⟩ | ⟨hno, he | ⟨hmax, -⟩⟩ | ⟨s, hs, -, hfree, hc⟩
    · exact ⟨_, _, he, fun h => absurd h (by simp)⟩
    · refine ⟨_, _, he, fun _ s hs => ?_⟩
      have := hno s hs (by omega)
      simpa [PhysicalAllocator.FreeRun] using this
    · omega
    · exact ⟨_, _, hc, fun h => absurd h (by simp)⟩

/-- The bookkeeping of a four-page range after one page has been allocated. -/
theorem physicalAllocator_bookkeeping_four :
    (((PhysicalAllocator.new ⟨0x80000000#64⟩ 4#64).allocPage).2.freePagesCtr).toNat =
      (4#64).toNat - ((PhysicalAllocator.new ⟨0x80000000#64⟩ 4#64).allocPage).2.allocatedCount := by
  have hinit : (physicalSystem ⟨0x80000000#64⟩ 4#64).Reach Runs.anyStep
      (PhysicalAllocator.new ⟨0x80000000#64⟩ 4#64) := .init rfl
  have hstep : (physicalSystem ⟨0x80000000#64⟩ 4#64).Reach Runs.anyStep
      (PhysicalAllocator.new ⟨0x80000000#64⟩ 4#64).allocPage.2 :=
    hinit.step (a := .allocPage) trivial rfl
  exact (physicalAllocator_bookkeeping (by decide) hstep).1

end StarOS
