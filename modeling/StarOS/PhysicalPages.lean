/-
The memory behind the pages of the physical allocator.

A caller that asked for pages owns the addresses behind them.  The bytes obtained since some earlier
state are those of the pages in range that are allocated now and were not then; a granted run adds
one region to them, disjoint from all bytes obtained before, and a refusal changes nothing, although
it may leave a stray bit behind the range.

* `StarOS.PhysicalAllocator.obtained` — the bytes obtained since an earlier state;
* `StarOS.PhysicalAllocator.Grants`, `StarOS.PhysicalAllocator.Refuses` — what a granted and a
  refused call do to the bitmap;
* `StarOS.PhysicalAllocator.allocPage_outcome`, `StarOS.PhysicalAllocator.allocPages_outcome` —
  `alloc_page` refuses or grants, `alloc_pages` panics, refuses or grants;
* `StarOS.PhysicalAllocator.Keeps` — an address that is not a free page, which a grant is not;
* `StarOS.PhysicalAllocator.Grants.obtained_eq`, `StarOS.PhysicalAllocator.Grants.disjoint` — the
  bytes a grant adds.
-/

import StarOS.Physical
import StarOS.Region

set_option autoImplicit false

namespace StarOS

open Region

/-- The address is a multiple of the page size. -/
def PageAligned (a : Usize) : Prop := pageSize ∣ a.toNat

/-- Moving a page-aligned address by pages keeps it page-aligned. -/
theorem PageAligned.add {a : Usize} (h : PageAligned a) {n : ℕ} (hn : pageSize ∣ n) :
    PageAligned (a + BitVec.ofNat 64 n) := by
  have hsum : pageSize ∣ a.toNat + n := Nat.dvd_add h hn
  have hpow : pageSize ∣ 2 ^ 64 := by decide
  rw [PageAligned, BitVec.toNat_add, BitVec.toNat_ofNat, Nat.add_mod_mod]
  exact (Nat.dvd_mod_iff hpow).2 hsum

namespace PhysicalAllocator

/-! ### Pages as regions -/

/-- Different pages have different addresses. -/
theorem pageAddr_inj {a : PhysicalAllocator} {p q : ℕ} (hp : p < maxPages) (hq : q < maxPages)
    (h : a.pageAddr p = a.pageAddr q) : p = q := by
  have hofs : BitVec.ofNat 64 (p * pageSize) = BitVec.ofNat 64 (q * pageSize) :=
    (BitVec.add_right_inj _).1 (congrArg PhysAddr.addr h)
  have hnat := congrArg BitVec.toNat hofs
  rw [BitVec.toNat_ofNat, BitVec.toNat_ofNat] at hnat
  unfold pageSize maxPages at *
  omega

theorem pageAligned_pageAddr {a : PhysicalAllocator} (h : PageAligned a.baseAddr.addr) (p : ℕ) :
    PageAligned (a.pageAddr p).addr := h.add (Nat.dvd_mul_left _ _)

/-- Different pages have no byte in common. -/
theorem disjoint_pages (a : PhysicalAllocator) {p q : ℕ} (hp : p < maxPages) (hq : q < maxPages)
    (hne : p ≠ q) :
    Disjoint (region (a.pageAddr p).addr pageSize) (region (a.pageAddr q).addr pageSize) := by
  have horder : ∀ {i j : ℕ}, i < j → j < maxPages →
      i * pageSize + pageSize ≤ j * pageSize ∧ j * pageSize + pageSize ≤ 2 ^ 64 := by
    unfold pageSize maxPages
    omega
  rcases Nat.lt_or_gt_of_ne hne with h | h
  · exact disjoint_region_offset _ (horder h hq).1 (horder h hq).2
  · exact (disjoint_region_offset _ (horder h hp).1 (horder h hp).2).symm

/-- The bytes of a run of pages are one region. -/
theorem mem_region_run (a : PhysicalAllocator) {s n : ℕ} (h : s + n ≤ maxPages) {x : Usize} :
    x ∈ region (a.pageAddr s).addr (n * pageSize) ↔
      ∃ p, s ≤ p ∧ p < s + n ∧ x ∈ region (a.pageAddr p).addr pageSize := by
  induction n with
  | zero =>
      constructor
      · intro hx
        rw [Nat.zero_mul] at hx
        exact absurd hx (Nat.not_lt_zero _)
      · rintro ⟨p, h1, h2, -⟩
        omega
  | succ n ih =>
      have haddr : (a.pageAddr s).addr + BitVec.ofNat 64 (n * pageSize) =
          (a.pageAddr (s + n)).addr := by
        rw [pageAddr, pageAddr, Nat.add_mul, BitVec.ofNat_add, ← BitVec.add_assoc]
      have hroom : n * pageSize + pageSize ≤ 2 ^ 64 := by
        unfold pageSize maxPages at *
        omega
      rw [Nat.succ_mul, region_add _ hroom, Set.mem_union, ih (by omega), haddr]
      constructor
      · rintro (⟨p, h1, h2, hx⟩ | hx)
        · exact ⟨p, h1, by omega, hx⟩
        · exact ⟨s + n, by omega, by omega, hx⟩
      · rintro ⟨p, h1, h2, hx⟩
        rcases Nat.lt_or_ge p (s + n) with h3 | h3
        · exact Or.inl ⟨p, h1, h3, hx⟩
        · obtain rfl : p = s + n := by omega
          exact Or.inr hx

/-! ### Granting and refusing -/

/-- The range is where it was. -/
structure SameRange (a a' : PhysicalAllocator) : Prop where
  base : a'.baseAddr = a.baseAddr
  total : a'.totalPages = a.totalPages

theorem SameRange.pageAddr {a a' : PhysicalAllocator} (h : a.SameRange a') (p : ℕ) :
    a'.pageAddr p = a.pageAddr p := by
  rw [PhysicalAllocator.pageAddr, PhysicalAllocator.pageAddr, h.base]

/-- A refused call: no bit in range has changed. -/
structure Refuses (a a' : PhysicalAllocator) : Prop extends SameRange a a' where
  bits : ∀ p < a.totalPages.toNat, a'.allocated p = a.allocated p

/-- A granted call: the `n` pages from `s` on were free, and their bits are set. -/
structure Grants (a a' : PhysicalAllocator) (s n : ℕ) : Prop extends SameRange a a' where
  inRange : s + n ≤ a.totalPages.toNat
  inBitmap : s + n ≤ maxPages
  free : a.FreeRun s n
  bits : ∀ q, a'.allocated q = (a.allocated q || decide (s ≤ q ∧ q < s + n))

/-- What `alloc_page` can do. -/
theorem allocPage_outcome (a : PhysicalAllocator) :
    (∃ a', a.allocPage = (.error (.memory .outOfMemory), a') ∧ a.Refuses a') ∨
      ∃ p a', a.allocPage = (.ok (a.pageAddr p), a') ∧ a.Grants a' p 1 := by
  have hsame : a.Refuses a := ⟨⟨rfl, rfl⟩, fun _ _ => rfl⟩
  rcases a.allocPage_cases with ⟨-, hres⟩ | ⟨-, -, hres⟩ | ⟨-, p, hmax, hfree, -, hres⟩
  · exact Or.inl ⟨a, hres, hsame⟩
  · exact Or.inl ⟨a, hres, hsame⟩
  · rcases Nat.lt_or_ge p a.totalPages.toNat with hp | hp
    · have hclaim : a.claim p =
          (.ok (a.pageAddr p), { a.mark p with freePagesCtr := a.freePagesCtr - 1 }) := by
        rw [claim, if_neg (not_le.2 hp)]
      refine Or.inr ⟨p, { a.mark p with freePagesCtr := a.freePagesCtr - 1 },
        by rw [hres, hclaim], ⟨rfl, rfl⟩, hp, hmax, fun i hi => ?_, fun q => ?_⟩
      · obtain rfl : i = 0 := by omega
        exact hfree
      · rw [allocated_withCtr, allocated_mark]
        congr 2
        rw [eq_iff_iff]
        omega
    · -- the first clear bit lies behind the range: the call sets it and refuses
      refine Or.inl ⟨a.mark p, by rw [hres, claim, if_pos hp], ⟨rfl, rfl⟩, ?_⟩
      intro q hq
      rw [allocated_mark, decide_eq_false (by omega), Bool.or_false]

/-- What `alloc_pages` can do when it is asked for pages. -/
theorem allocPages_outcome (a : PhysicalAllocator) {n : ℕ} (hn : 0 < n) :
    (maxPages < a.totalPages.toNat ∧ a.allocPages n = none) ∨
      (∃ a', a.allocPages n = some (.error (.memory .outOfMemory), a') ∧ a.Refuses a') ∨
      ∃ s a', a.allocPages n = some (.ok (a.pageAddr s), a') ∧ a.Grants a' s n := by
  rcases Nat.lt_or_ge 1 n with h1 | h1
  · have hsame : a.Refuses a := ⟨⟨rfl, rfl⟩, fun _ _ => rfl⟩
    rcases a.allocPages_cases h1 with
      ⟨h, -, hres⟩ | ⟨-, hres⟩ | ⟨-, hres⟩ | ⟨-, s, hs, hmax, hfree, -, hres⟩
    · exact Or.inl ⟨h, hres⟩
    · exact Or.inr (Or.inl ⟨a, hres, hsame⟩)
    · exact Or.inr (Or.inl ⟨a, hres, hsame⟩)
    · obtain ⟨htot, hbase, -⟩ := a.markRun_fields s n
      exact Or.inr (Or.inr ⟨s, _, hres, ⟨hbase, htot⟩, hs, hmax, hfree, a.allocated_markRun s n⟩)
  · obtain rfl : n = 1 := by omega
    have hone : a.allocPages 1 = some a.allocPage := rfl
    rcases a.allocPage_outcome with ⟨a', hres, hout⟩ | ⟨p, a', hres, hout⟩
    · exact Or.inr (Or.inl ⟨a', by rw [hone, hres], hout⟩)
    · exact Or.inr (Or.inr ⟨p, a', by rw [hone, hres], hout⟩)

/-! ### Addresses that are not free -/

/-- The address is not one of the free pages. -/
def Keeps (a : PhysicalAllocator) (t : PhysAddr) : Prop :=
  ∀ p, p < a.totalPages.toNat → p < maxPages → a.pageAddr p = t → a.allocated p = true

theorem Refuses.keeps {a a' : PhysicalAllocator} (h : a.Refuses a') {t : PhysAddr}
    (ht : a.Keeps t) : a'.Keeps t := by
  intro p hp hmax haddr
  rw [h.total] at hp
  rw [h.bits p hp]
  exact ht p hp hmax (by rw [← h.pageAddr]; exact haddr)

theorem Grants.keeps {a a' : PhysicalAllocator} {s n : ℕ} (h : a.Grants a' s n) {t : PhysAddr}
    (ht : a.Keeps t) : a'.Keeps t := by
  intro p hp hmax haddr
  rw [h.total] at hp
  rw [h.bits p, ht p hp hmax (by rw [← h.pageAddr]; exact haddr), Bool.true_or]

/-- A granted page is no longer free. -/
theorem Grants.keeps_granted {a a' : PhysicalAllocator} {s : ℕ} (h : a.Grants a' s 1) :
    a'.Keeps (a.pageAddr s) := by
  intro p _ hmax haddr
  have hs := h.inBitmap
  obtain rfl : p = s := pageAddr_inj hmax (by omega) (by rw [← h.pageAddr]; exact haddr)
  rw [h.bits p, decide_eq_true (by omega), Bool.or_true]

/-- A granted page is none of the addresses kept. -/
theorem Grants.ne_of_keeps {a a' : PhysicalAllocator} {s : ℕ} (h : a.Grants a' s 1)
    {t : PhysAddr} (ht : a.Keeps t) : t ≠ a.pageAddr s := by
  rintro rfl
  have hin := h.inRange
  have hmax := h.inBitmap
  have hfree : a.allocated s = false := h.free 0 (by omega)
  rw [ht s (by omega) (by omega) rfl] at hfree
  exact absurd hfree (by decide)

/-! ### The bytes obtained -/

/-- The bytes of the pages in range that are allocated in `a` and were not in `a₀`. -/
def obtained (a₀ a : PhysicalAllocator) : Set Usize :=
  {x | ∃ p, p < a.totalPages.toNat ∧ p < maxPages ∧ a.allocated p = true ∧
    a₀.allocated p = false ∧ x ∈ region (a.pageAddr p).addr pageSize}

/-- `a` has come from `a₀` by allocation: no page in range has been given back. -/
structure Grown (a₀ a : PhysicalAllocator) : Prop extends SameRange a₀ a where
  mono : ∀ p < a₀.totalPages.toNat, a₀.allocated p = true → a.allocated p = true

theorem Grown.refl (a : PhysicalAllocator) : a.Grown a := ⟨⟨rfl, rfl⟩, fun _ _ h => h⟩

@[simp] theorem obtained_self (a : PhysicalAllocator) : a.obtained a = ∅ := by
  ext x
  simp only [obtained, Set.mem_ofPred_eq, Set.mem_empty_iff_false, iff_false]
  rintro ⟨p, -, -, h1, h2, -⟩
  rw [h1] at h2
  exact absurd h2 (by decide)

theorem Refuses.grown {a₀ a a' : PhysicalAllocator} (h : a.Refuses a') (hg : a₀.Grown a) :
    a₀.Grown a' := by
  refine ⟨⟨h.base.trans hg.base, h.total.trans hg.total⟩, fun p hp h0 => ?_⟩
  rw [h.bits p (by rw [hg.total]; exact hp)]
  exact hg.mono p hp h0

theorem Refuses.obtained_eq {a₀ a a' : PhysicalAllocator} (h : a.Refuses a') :
    a₀.obtained a' = a₀.obtained a := by
  ext x
  simp only [obtained, Set.mem_ofPred_eq, h.total, h.pageAddr]
  refine exists_congr fun p => and_congr_right fun hp => ?_
  rw [h.bits p hp]

theorem Grants.grown {a₀ a a' : PhysicalAllocator} {s n : ℕ} (h : a.Grants a' s n)
    (hg : a₀.Grown a) : a₀.Grown a' := by
  refine ⟨⟨h.base.trans hg.base, h.total.trans hg.total⟩, fun p hp h0 => ?_⟩
  rw [h.bits p, hg.mono p hp h0, Bool.true_or]

/-- A grant adds the bytes of its run. -/
theorem Grants.obtained_eq {a₀ a a' : PhysicalAllocator} {s n : ℕ} (h : a.Grants a' s n)
    (hg : a₀.Grown a) :
    a₀.obtained a' = region (a.pageAddr s).addr (n * pageSize) ∪ a₀.obtained a := by
  ext x
  rw [Set.mem_union, a.mem_region_run h.inBitmap]
  simp only [obtained, Set.mem_ofPred_eq, h.total, h.pageAddr, h.bits, Bool.or_eq_true,
    decide_eq_true_eq]
  constructor
  · rintro ⟨p, h1, h2, h3 | h3, h4, hx⟩
    · exact Or.inr ⟨p, h1, h2, h3, h4, hx⟩
    · exact Or.inl ⟨p, h3.1, h3.2, hx⟩
  · rintro (⟨p, h1, h2, hx⟩ | ⟨p, h1, h2, h3, h4, hx⟩)
    · have hin := h.inRange
      have hmax := h.inBitmap
      -- a page of the run was free, so it was free at the start as well
      have hnow : a.allocated p = false := by
        have := h.free (p - s) (by omega)
        rwa [Nat.add_sub_cancel' h1] at this
      have hthen : a₀.allocated p = false := by
        cases h0 : a₀.allocated p with
        | false => rfl
        | true =>
            rw [hg.mono p (by rw [← hg.total]; omega) h0] at hnow
            exact absurd hnow (by decide)
      exact ⟨p, by omega, by omega, Or.inr ⟨h1, h2⟩, hthen, hx⟩
    · exact ⟨p, h1, h2, Or.inl h3, h4, hx⟩

/-- The bytes of a grant are new. -/
theorem Grants.disjoint {a₀ a a' : PhysicalAllocator} {s n : ℕ} (h : a.Grants a' s n) :
    Disjoint (region (a.pageAddr s).addr (n * pageSize)) (a₀.obtained a) := by
  rw [Set.disjoint_left]
  rintro x hx ⟨q, -, hq, hbit, -, hxq⟩
  obtain ⟨p, h1, h2, hxp⟩ := (a.mem_region_run h.inBitmap).1 hx
  have hfree := h.free (p - s) (by omega)
  rw [Nat.add_sub_cancel' h1] at hfree
  have hmax := h.inBitmap
  have hne : p ≠ q := by
    rintro rfl
    rw [hfree] at hbit
    exact absurd hbit (by decide)
  exact Set.disjoint_left.1 (a.disjoint_pages (by omega) hq hne) hxp hxq

end PhysicalAllocator

end StarOS
