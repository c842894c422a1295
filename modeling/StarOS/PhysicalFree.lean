/-
Freeing a range of pages, all or nothing (`memory/physical.rs`).

`free_pages` looks at every page of its range before it frees the first one, so that a free page in
the range is found in time.  But only the first page is compared with `total_pages`.  Behind the
range that is managed the bits are clear, and a longer range is refused there as a double free, if
the bitmap goes on: an allocator of `MAX_PAGES` pages that are all allocated up to the last has no
clear bit to stop at, and the call runs out of the bitmap.

The page of an address counts from the base, while the address itself is compared with multiples of
the page size.  Over a base that is not page-aligned no page starts at an address that is accepted.

* `StarOS.PhysicalAllocator.AllOrNothing`, `StarOS.PhysicalAllocator.FindsEnd` — the law, and the
  condition on the state before the call;
* `StarOS.PhysicalAllocator.anyPageFree_eq_true_iff`, `StarOS.PhysicalAllocator.addrToPage_eq_ok` —
  what the check loop and the address check say;
* `StarOS.freePages_allOrNothing_iff` — in a reachable state a call keeps the law exactly if it
  meets the condition;
* `StarOS.freePages_past_bitmap` — an allocator of `MAX_PAGES` pages, and a range that is one page
  too long.
-/

import StarOS.PhysicalRuns
import StarOS.PhysicalPages

set_option autoImplicit false

namespace StarOS

namespace PhysicalAllocator

variable {a : PhysicalAllocator} {addr : PhysAddr} {count p : ℕ}

/-! ### The law and the condition -/

/-- What `free_pages` should do: it frees the pages that start at the address, all of which were
allocated and in range, and no other, and counts them; or it returns an error and changes nothing.
-/
def AllOrNothing (a : PhysicalAllocator) (addr : PhysAddr) (count : ℕ) : Prop :=
  (∃ p a', a.freePages addr count = some (.ok (), a') ∧ a.pageAddr p = addr ∧
      p + count ≤ a.totalPages.toNat ∧ (∀ q, p ≤ q → q < p + count → a.allocated q = true) ∧
      (∀ q, a'.allocated q = (a.allocated q && !decide (p ≤ q ∧ q < p + count))) ∧
      a'.freePagesCtr.toNat = a.freePagesCtr.toNat + count) ∨
    ∃ e, a.freePages addr count = some (.error e, a)

/-- The arguments are refused by themselves, or there is a free page in the range, at which the
check loop ends; or the range ends inside the bitmap, and pages start at page-aligned addresses. -/
def FindsEnd (a : PhysicalAllocator) (addr : PhysAddr) (count : ℕ) : Prop :=
  count ≠ 0 → addr.isAligned = true → ∀ p, a.addrToPage addr = .ok p →
    (∃ q, p ≤ q ∧ q < p + count ∧ q < maxPages ∧ a.allocated q = false) ∨
      (p + count ≤ maxPages ∧ PageAligned a.baseAddr.addr)

/-! ### The checks -/

/-- The check loop stops at a free page, if it meets one inside the bitmap. -/
theorem anyPageFree_eq_true_iff (a : PhysicalAllocator) (n page : ℕ) :
    a.anyPageFree n page = some true ↔
      ∃ q, page ≤ q ∧ q < page + n ∧ q < maxPages ∧ a.allocated q = false := by
  induction n generalizing page with
  | zero =>
      refine iff_of_false (by simp [anyPageFree]) ?_
      rintro ⟨q, h1, h2, -⟩
      omega
  | succ n ih =>
      rw [anyPageFree, isPageFree_eq]
      by_cases hmax : page < maxPages
      · rw [if_pos hmax]
        cases hp : a.allocated page with
        | false => exact iff_of_true rfl ⟨page, le_rfl, by omega, hmax, hp⟩
        | true =>
            refine (ih (page + 1)).trans ⟨?_, ?_⟩
            · rintro ⟨q, h1, h2, hq, hfree⟩
              exact ⟨q, by omega, by omega, hq, hfree⟩
            · rintro ⟨q, h1, h2, hq, hfree⟩
              have hne : q ≠ page := by
                rintro rfl
                rw [hp] at hfree
                cases hfree
              exact ⟨q, by omega, by omega, hq, hfree⟩
      · rw [if_neg hmax]
        refine iff_of_false (by simp) ?_
        rintro ⟨q, h1, -, hq, -⟩
        omega

/-- The page of an address. -/
theorem addrToPage_eq_ok (h : a.addrToPage addr = .ok p) :
    a.baseAddr.addr.toNat ≤ addr.addr.toNat ∧
      p = (addr.addr.toNat - a.baseAddr.addr.toNat) / pageSize ∧ p < a.totalPages.toNat := by
  unfold addrToPage at h
  split at h
  · cases h
  · rename_i hbase
    dsimp only at h
    split at h
    · cases h
    · rename_i hpage
      obtain rfl := Except.ok.inj h
      exact ⟨not_lt.1 hbase, rfl, not_le.1 hpage⟩

/-- The page of a page-aligned address starts there exactly if the base is page-aligned. -/
theorem pageAddr_addrToPage (h : a.addrToPage addr = .ok p) (haligned : addr.isAligned = true) :
    a.pageAddr p = addr ↔ PageAligned a.baseAddr.addr := by
  obtain ⟨hle, hp, -⟩ := addrToPage_eq_ok h
  have hlt := addr.addr.isLt
  have hsize : pageSize = 4096 := rfl
  have hmod : addr.addr.toNat % 4096 = 0 := beq_iff_eq.1 haligned
  have hsum : (a.pageAddr p).addr.toNat =
      (a.baseAddr.addr.toNat + p * 4096) % 2 ^ 64 := by
    rw [pageAddr, BitVec.toNat_add, BitVec.toNat_ofNat, hsize, Nat.add_mod_mod]
  have heq : a.pageAddr p = addr ↔ (a.pageAddr p).addr.toNat = addr.addr.toNat :=
    ⟨fun hpage => by rw [hpage], fun hnat => congrArg PhysAddr.mk (BitVec.eq_of_toNat_eq hnat)⟩
  rw [heq, hsum, PageAligned, hsize, Nat.dvd_iff_mod_eq_zero]
  rw [hsize] at hp
  omega

/-! ### One call -/

/-- What is left of `free_pages` when the arguments have passed. -/
theorem freePages_eq (hcount : count ≠ 0) (haligned : addr.isAligned = true)
    (hpage : a.addrToPage addr = .ok p) :
    a.freePages addr count =
      match a.anyPageFree count p with
      | none => none
      | some true => some (.error (.memory .doubleFree), a)
      | some false =>
          (a.markPagesFree p count).map fun a' =>
            (.ok (), { a' with freePagesCtr := a'.freePagesCtr + BitVec.ofNat 64 count }) := by
  rw [freePages, if_neg hcount, if_neg (by rw [haligned]; decide)]
  exact hpage ▸ rfl

/-- Arguments that are refused by themselves. -/
theorem freePages_refused
    (h : count = 0 ∨ addr.isAligned = false ∨ ∃ e, a.addrToPage addr = .error e) :
    ∃ e, a.freePages addr count = some (.error e, a) := by
  rw [freePages]
  by_cases hcount : count = 0
  · exact ⟨_, if_pos hcount⟩
  rw [if_neg hcount]
  cases haligned : addr.isAligned with
  | false => exact ⟨_, if_pos rfl⟩
  | true =>
      obtain ⟨e, he⟩ := (h.resolve_left hcount).resolve_left (by rw [haligned]; decide)
      rw [if_neg (by decide), he]
      exact ⟨e, rfl⟩

/-- A run of allocated pages that is freed is the run of the call. -/
theorem run_unique {a' : PhysicalAllocator} {s t : ℕ} (hcount : count ≠ 0)
    (hs : ∀ q, s ≤ q → q < s + count → a.allocated q = true)
    (hs' : ∀ q, a'.allocated q = (a.allocated q && !decide (s ≤ q ∧ q < s + count)))
    (ht : ∀ q, t ≤ q → q < t + count → a.allocated q = true)
    (ht' : ∀ q, a'.allocated q = (a.allocated q && !decide (t ≤ q ∧ q < t + count))) : s = t := by
  have hfirst : ∀ {u v : ℕ}, (∀ q, u ≤ q → q < u + count → a.allocated q = true) →
      (∀ q, a'.allocated q = (a.allocated q && !decide (u ≤ q ∧ q < u + count))) →
      (∀ q, a'.allocated q = (a.allocated q && !decide (v ≤ q ∧ q < v + count))) → v ≤ u := by
    intro u v hu hu' hv'
    have hbit := hu' u
    rw [hv' u, hu u le_rfl (by omega), decide_eq_true (show u ≤ u ∧ u < u + count by omega)] at hbit
    by_contra hlt
    rw [decide_eq_false (by omega)] at hbit
    cases hbit
  exact le_antisymm (hfirst ht ht' hs') (hfirst hs hs' ht')

/-- A run of allocated pages ends where pages are managed, and can be counted as free. -/
theorem Bookkept.run_counted (h : a.Bookkept) (hp : p ≤ a.totalPages.toNat)
    (hall : ∀ q, p ≤ q → q < p + count → a.allocated q = true) :
    p + count ≤ a.totalPages.toNat ∧
      (a.freePagesCtr + BitVec.ofNat 64 count).toNat = a.freePagesCtr.toNat + count := by
  have hrange : p + count ≤ a.totalPages.toNat := by
    by_contra hover
    have hbit := hall a.totalPages.toNat hp (not_le.1 hover)
    rw [h.tail _ le_rfl] at hbit
    cases hbit
  have hroom : a.freePagesCtr.toNat + count ≤ a.totalPages.toNat := by
    have hctr := h.ctr
    have hcounted := allocatedCount_unmarkRun hrange hall
    omega
  have htotal := a.totalPages.isLt
  refine ⟨hrange, ?_⟩
  rw [BitVec.toNat_add, BitVec.toNat_ofNat]
  omega

/-- With the books in order, a call keeps the law exactly if it meets the condition. -/
theorem Bookkept.allOrNothing_iff (h : a.Bookkept) (addr : PhysAddr) (count : ℕ) :
    a.AllOrNothing addr count ↔ a.FindsEnd addr count := by
  by_cases hcount : count = 0
  · exact iff_of_true (Or.inr (freePages_refused (Or.inl hcount))) fun hne => absurd hcount hne
  cases haligned : addr.isAligned with
  | false =>
      refine iff_of_true (Or.inr (freePages_refused (Or.inr (Or.inl haligned)))) fun _ htrue => ?_
      rw [haligned] at htrue
      cases htrue
  | true =>
  cases hpage : a.addrToPage addr with
  | error e =>
      refine iff_of_true (Or.inr (freePages_refused (Or.inr (Or.inr ⟨e, hpage⟩)))) ?_
      intro _ _ p hp
      rw [hpage] at hp
      cases hp
  | ok p =>
  have hends : a.FindsEnd addr count ↔
      (∃ q, p ≤ q ∧ q < p + count ∧ q < maxPages ∧ a.allocated q = false) ∨
        (p + count ≤ maxPages ∧ PageAligned a.baseAddr.addr) := by
    refine ⟨fun hc => hc hcount haligned p hpage, fun hc _ _ p' hp' => ?_⟩
    rw [hpage] at hp'
    cases hp'
    exact hc
  have hcall := freePages_eq hcount haligned hpage
  rw [hends, ← anyPageFree_eq_true_iff, ← pageAddr_addrToPage hpage haligned]
  rcases a.anyPageFree_cases count p with ⟨hmax, hres⟩ | ⟨hres, -⟩ | ⟨hres, hmax, hall⟩
  · -- the loop runs out of the bitmap
    rw [hres] at hcall
    refine iff_of_false ?_ ?_
    · rintro (⟨p', a', hok, -⟩ | ⟨e, herr⟩)
      · rw [hcall] at hok
        cases hok
      · rw [hcall] at herr
        cases herr
    · rintro (htrue | ⟨hle, -⟩)
      · rw [hres] at htrue
        cases htrue
      · omega
  · rw [hres] at hcall
    exact iff_of_true (Or.inr ⟨_, hcall⟩) (Or.inl hres)
  · have hle := hmax.resolve_right hcount
    obtain ⟨-, -, hfirst⟩ := addrToPage_eq_ok hpage
    obtain ⟨hrange, hctr⟩ := h.run_counted hfirst.le hall
    have hbits := a.allocated_unmarkRun p count
    rw [hres] at hcall
    simp only [markPagesFree_eq hle, Option.map_some, (a.unmarkRun_fields p count).2.2] at hcall
    constructor
    · rintro (⟨p', a', hok, haddr, -, hall', hbits', -⟩ | ⟨e, herr⟩)
      · rw [hcall] at hok
        cases hok
        obtain rfl := run_unique hcount hall hbits hall' hbits'
        exact Or.inr ⟨hle, haddr⟩
      · rw [hcall] at herr
        cases herr
    · rintro (htrue | ⟨-, haddr⟩)
      · rw [hres] at htrue
        cases htrue
      · exact Or.inl ⟨p, _, hcall, haddr, hrange, hall, hbits, hctr⟩

end PhysicalAllocator

/-- **Freeing pages is all or nothing exactly if the check loop finds an end.**  In every reachable
state of an allocator, for every address and every count, `free_pages` frees exactly the pages that
start at the address, all of them allocated and in range, or returns an error and changes nothing,
if and only if the arguments are refused by themselves, or a page of the range is free, or the range
ends inside the bitmap and the base is page-aligned. -/
theorem freePages_allOrNothing_iff {base : PhysAddr} {total : Usize} {a : PhysicalAllocator}
    (h : (physicalSystem base total).Reach Runs.anyStep a) (addr : PhysAddr) (count : ℕ) :
    a.AllOrNothing addr count ↔ a.FindsEnd addr count :=
  (physicalSystem_bookkept h).1.allOrNothing_iff addr count

/-- The one page that is allocated can be freed. -/
theorem freePages_allOrNothing_one :
    (PhysicalAllocator.new ⟨0x80000000#64⟩ 4#64).allocPage.2.AllOrNothing ⟨0x80000000#64⟩ 1 := by
  have hinit : (physicalSystem ⟨0x80000000#64⟩ 4#64).Reach Runs.anyStep
      (PhysicalAllocator.new ⟨0x80000000#64⟩ 4#64) := .init rfl
  have hstep : (physicalSystem ⟨0x80000000#64⟩ 4#64).Reach Runs.anyStep
      (PhysicalAllocator.new ⟨0x80000000#64⟩ 4#64).allocPage.2 :=
    hinit.step (a := .allocPage) trivial rfl
  refine (freePages_allOrNothing_iff hstep _ _).2 fun _ _ p hp => Or.inr ⟨?_, ?_⟩
  · obtain ⟨-, -, hlt⟩ := PhysicalAllocator.addrToPage_eq_ok hp
    have htotal : (PhysicalAllocator.new ⟨0x80000000#64⟩ 4#64).allocPage.2.totalPages = 4#64 := by
      decide +kernel
    have hmax : maxPages = 4194304 := rfl
    rw [htotal, BitVec.toNat_ofNat] at hlt
    omega
  · have hbase : (PhysicalAllocator.new ⟨0x80000000#64⟩ 4#64).allocPage.2.baseAddr.addr =
        0x80000000#64 := by decide +kernel
    rw [hbase]
    exact ⟨0x80000, rfl⟩

/-- One call can allocate every page of a new allocator. -/
theorem allocPages_all (base : PhysAddr) (total : Usize) (hpages : 2 ≤ total.toNat)
    (htotal : total.toNat ≤ maxPages) :
    ∃ r a, (PhysicalAllocator.new base total).allocPages total.toNat = some (r, a) ∧
      a.baseAddr = base ∧ a.totalPages = total ∧ ∀ q < total.toNat, a.allocated q = true := by
  have hcall := PhysicalAllocator.allocPages_eq_claimRun (a := .new base total) (s := 0) hpages
    le_rfl (Nat.zero_add _).le htotal (fun i _ => PhysicalAllocator.allocated_new ..)
    fun s hs => absurd hs (Nat.not_lt_zero s)
  refine ⟨_, ((PhysicalAllocator.new base total).claimRun 0 total.toNat).2, hcall,
    PhysicalAllocator.claimRun_baseAddr .., PhysicalAllocator.claimRun_totalPages ..,
    fun q hq => ?_⟩
  rw [PhysicalAllocator.allocated_claimRun, decide_eq_true (by omega), Bool.or_true]

/-- All pages of an allocator of `MAX_PAGES` pages are allocated with one call, and then the last
page and one more are freed: the call runs out of the bitmap. -/
theorem freePages_past_bitmap :
    ∃ a, (physicalSystem ⟨0x40000000#64⟩ 0x400000#64).Reach Runs.anyStep a ∧
      a.freePages ⟨0x43ffff000#64⟩ 2 = none ∧ ¬ a.AllOrNothing ⟨0x43ffff000#64⟩ 2 := by
  obtain ⟨r, a, hcall, hbase, htotal, hall⟩ :=
    allocPages_all ⟨0x40000000#64⟩ 0x400000#64 (by decide) (by decide)
  have hinit : (physicalSystem ⟨0x40000000#64⟩ 0x400000#64).Reach Runs.anyStep
      (.new ⟨0x40000000#64⟩ 0x400000#64) := .init rfl
  have hreach : (physicalSystem ⟨0x40000000#64⟩ 0x400000#64).Reach Runs.anyStep a :=
    hinit.step (a := .allocPages (0x400000#64 : Usize).toNat) trivial ⟨r, hcall⟩
  have hpage : a.addrToPage ⟨0x43ffff000#64⟩ = .ok 0x3fffff := by
    rw [PhysicalAllocator.addrToPage, hbase, htotal]
    rfl
  have hnone : a.freePages ⟨0x43ffff000#64⟩ 2 = none := by
    rw [PhysicalAllocator.freePages_eq (by decide) (by decide) hpage,
      PhysicalAllocator.anyPageFree, PhysicalAllocator.isPageFree_eq, hall _ (by decide),
      if_pos (by decide), PhysicalAllocator.anyPageFree, PhysicalAllocator.isPageFree_eq,
      if_neg (by decide)]
    rfl
  refine ⟨a, hreach, hnone, ?_⟩
  rintro (⟨p, a', hok, -⟩ | ⟨e, herr⟩)
  · rw [hnone] at hok
    cases hok
  · rw [hnone] at herr
    cases herr

end StarOS
