/-
The physical page allocator called by several callers at once.

Every access to a bitmap word or to the counter is one atomic step, and the steps of different
callers interleave in any order.  `alloc_page` claims a bit by compare-exchange, `alloc_pages`
checks a run of bits in one pass and sets them in another, and both touch the counter only
afterwards, so a caller's local state between two accesses matters: it is a program counter here.

Two of these windows are real.  Between the scan of `alloc_pages` and its marking pass another
caller may claim a page of the run; and between `alloc_page`'s look at the counter and its
compare-exchange the range may fill up, in which case it claims a bit past the end.  A run in which
no step goes through either window keeps every page with one owner and the counter exact.

* `StarOS.CallerPc`, `StarOS.Caller`, `StarOS.Caller.next` — the atomic steps of one caller;
* `StarOS.concurrentSystem` — any number of callers on one allocator;
* `StarOS.ConcState.Sound` — the invariant, which counts claimed pages and the counter updates still
  owed;
* `StarOS.concurrent_exclusive` — exclusive ownership and exact counting in runs that avoid both
  windows;
* `StarOS.concurrent_double_alloc` — a run through the first window that hands out a page twice.
-/

import StarOS.PhysicalRuns
import Mathlib.Algebra.BigOperators.Group.Finset.Piecewise
import Mathlib.Data.BitVec
import Mathlib.Data.Fintype.Basic

set_option autoImplicit false

namespace StarOS

/-! ### One caller -/

/-- Where a caller stands: the atomic access it is about to make, with what it has loaded. -/
inductive CallerPc where
  /-- No call in flight. -/
  | idle
  /-- `alloc_page`, before the load of the counter. -/
  | pageLoad
  /-- `alloc_page`, before the load of a bitmap word. -/
  | pageWord (wordIdx : ℕ)
  /-- `alloc_page`, before the compare-exchange of a bitmap word. -/
  | pageCas (wordIdx : ℕ) (current : Usize)
  /-- `alloc_page`, before the `fetch_sub` for the page it has claimed. -/
  | pageSub (page : ℕ)
  /-- `alloc_pages`, before the load of the counter. -/
  | pagesLoad (count : ℕ)
  /-- `alloc_pages`, before the check of a page. -/
  | pagesScan (count page : ℕ) (startPage : Option ℕ) (consecutive : ℕ)
  /-- `alloc_pages`, before the `fetch_or` of page `start + i`. -/
  | pagesMark (count start i : ℕ)
  /-- `alloc_pages`, before the `fetch_sub` for the run it has marked. -/
  | pagesSub (count start : ℕ)
  /-- `free_page`, before the check of the page. -/
  | freeCheck (page : ℕ)
  /-- `free_page`, before the `fetch_and` of the page. -/
  | freeMark (page : ℕ)
  /-- `free_page`, before the `fetch_add`. -/
  | freeAdd
  deriving DecidableEq

/-- A caller: where it stands, and the pages it owns. -/
structure Caller where
  pc : CallerPc
  owned : List ℕ

/-- What a caller can do next: start a call, make its next access, or have its weak compare-exchange
fail although the word has not changed. -/
inductive CallerAct where
  | callAllocPage
  | callAllocPages (count : ℕ)
  | callFreePage (page : ℕ)
  | access
  | spuriousFailure

namespace Caller

open PhysicalAllocator

/-- The next access of a call in flight. -/
def access (a : PhysicalAllocator) (c : Caller) : Option (PhysicalAllocator × Caller) :=
  match c.pc with
  | .idle => none
  | .pageLoad =>
      if a.freePagesCtr = 0 then some (a, { c with pc := .idle })
      else some (a, { c with pc := .pageWord 0 })
  | .pageWord wordIdx =>
      if bitmapWords ≤ wordIdx then some (a, { c with pc := .idle })
      else if a.bitmap wordIdx = BitVec.allOnes 64 then
        some (a, { c with pc := .pageWord (wordIdx + 1) })
      else some (a, { c with pc := .pageCas wordIdx (a.bitmap wordIdx) })
  | .pageCas wordIdx current =>
      let bitIdx := trailingOnes current
      if wordBits ≤ bitIdx then some (a, { c with pc := .pageWord (wordIdx + 1) })
      else if a.bitmap wordIdx = current then
        let a' := a.setWord wordIdx (setBit current bitIdx)
        let pageNum := wordIdx * wordBits + bitIdx
        if a.totalPages.toNat ≤ pageNum then some (a', { c with pc := .idle })
        else some (a', { c with pc := .pageSub pageNum })
      else some (a, { c with pc := .pageCas wordIdx (a.bitmap wordIdx) })
  | .pageSub page =>
      some ({ a with freePagesCtr := a.freePagesCtr - 1 },
        { pc := .idle, owned := page :: c.owned })
  | .pagesLoad count =>
      if a.freePagesCtr.toNat < count then some (a, { c with pc := .idle })
      else some (a, { c with pc := .pagesScan count 0 none 0 })
  | .pagesScan count page startPage consecutive =>
      if a.totalPages.toNat ≤ page then some (a, { c with pc := .idle })
      else
        match a.isPageFree page with
        | none => none
        | some true =>
            let startPage := if consecutive = 0 then some page else startPage
            if consecutive + 1 = count then
              startPage.map fun start => (a, { c with pc := .pagesMark count start 0 })
            else some (a, { c with pc := .pagesScan count (page + 1) startPage (consecutive + 1) })
        | some false => some (a, { c with pc := .pagesScan count (page + 1) none 0 })
  | .pagesMark count start i =>
      (a.markPageAllocated (start + i)).map fun a' =>
        (a', { c with pc := if i + 1 = count then .pagesSub count start
                            else .pagesMark count start (i + 1) })
  | .pagesSub count start =>
      some ({ a with freePagesCtr := a.freePagesCtr - BitVec.ofNat 64 count },
        { pc := .idle, owned := List.range' start count ++ c.owned })
  | .freeCheck page =>
      match a.isPageFree page with
      | none => none
      | some true => some (a, { c with pc := .idle })
      | some false => some (a, { c with pc := .freeMark page })
  | .freeMark page =>
      (a.markPageFree page).map fun a' => (a', { pc := .freeAdd, owned := c.owned.erase page })
  | .freeAdd => some ({ a with freePagesCtr := a.freePagesCtr + 1 }, { c with pc := .idle })

/-- One step of a caller.  A call that fails its argument checks returns at once. -/
def next (a : PhysicalAllocator) (c : Caller) : CallerAct → Option (PhysicalAllocator × Caller)
  | .callAllocPage => if c.pc = .idle then some (a, { c with pc := .pageLoad }) else none
  | .callAllocPages count =>
      if c.pc = .idle then
        if count = 0 then some (a, c)
        else if count = 1 then some (a, { c with pc := .pageLoad })
        else some (a, { c with pc := .pagesLoad count })
      else none
  | .callFreePage page =>
      if c.pc = .idle ∧ page ∈ c.owned then
        if (a.pageAddr page).isAligned = false then some (a, c)
        else
          match a.addrToPage (a.pageAddr page) with
          | .error _ => some (a, c)
          | .ok pageNum => some (a, { c with pc := .freeCheck pageNum })
      else none
  | .access => c.access a
  | .spuriousFailure =>
      match c.pc with
      | .pageCas wordIdx current =>
          if wordBits ≤ trailingOnes current then none
          else some (a, { c with pc := .pageCas wordIdx (a.bitmap wordIdx) })
      | _ => none

end Caller

/-! ### Any number of callers -/

/-- One allocator and its callers. -/
structure ConcState (ι : Type) where
  alloc : PhysicalAllocator
  callers : ι → Caller

variable {ι : Type} [DecidableEq ι]

/-- One step of one caller. -/
def ConcState.next (s : ConcState ι) (e : ι × CallerAct) : Option (ConcState ι) :=
  ((s.callers e.1).next s.alloc e.2).map fun r =>
    { alloc := r.1, callers := Function.update s.callers e.1 r.2 }

/-- The state before any call. -/
def ConcState.start (ι : Type) (base : PhysAddr) (total : Usize) : ConcState ι where
  alloc := PhysicalAllocator.new base total
  callers := fun _ => { pc := .idle, owned := [] }

/-- The interleavings of any number of callers on a new allocator. -/
def concurrentSystem (ι : Type) [DecidableEq ι] (base : PhysAddr) (total : Usize) :
    Runs.System (ConcState ι) (ι × CallerAct) where
  init := fun s => s = .start ι base total
  step := fun s e s' => s.next e = some s'

/-- The steps outside the two windows: a compare-exchange that succeeds claims a bit in range, and
`alloc_pages` marks a page that is still free. -/
def avoidsWindows (s : ConcState ι) (e : ι × CallerAct) : Bool :=
  match e.2, (s.callers e.1).pc with
  | .access, .pageCas wordIdx current =>
      decide (wordBits ≤ trailingOnes current) || s.alloc.bitmap wordIdx != current ||
        decide (wordIdx * wordBits + trailingOnes current < s.alloc.totalPages.toNat)
  | .access, .pagesMark _ start i => s.alloc.isPageFree (start + i) == some true
  | _, _ => true

/-! ### The invariant -/

/-- The pages a call in flight has claimed and not yet handed to its caller. -/
def CallerPc.claimed : CallerPc → List ℕ
  | .pageSub page => [page]
  | .pagesMark _ start i => List.range' start i
  | .pagesSub count start => List.range' start count
  | _ => []

/-- The decrement of the counter a call in flight still owes. -/
def CallerPc.owes : CallerPc → Usize
  | .pageSub _ => 1
  | .pagesMark _ _ i => BitVec.ofNat 64 i
  | .pagesSub count _ => BitVec.ofNat 64 count
  | .freeAdd => -1
  | _ => 0

/-- What the local state of a caller promises. -/
def Caller.LocalOk (total : ℕ) (c : Caller) : Prop :=
  match c.pc with
  | .pageCas wordIdx _ => wordIdx < bitmapWords
  | .pagesLoad count => 0 < count
  | .pagesScan count page startPage consecutive =>
      consecutive < count ∧ consecutive ≤ page ∧
        (consecutive ≠ 0 → startPage = some (page - consecutive))
  | .pagesMark count start i => i < count ∧ start + count ≤ total
  | .freeCheck page => page ∈ c.owned
  | .freeMark page => page ∈ c.owned
  | _ => True

/-- Every page a caller owns or has claimed. -/
def Caller.claimed (c : Caller) : List ℕ := c.owned ++ c.pc.claimed

/-- The invariant of the windows' complement: claimed pages are pairwise different, allocated and in
range, no bit past the range is set, and the counter is exact up to what the calls in flight still
owe. -/
structure ConcState.Sound [Fintype ι] (s : ConcState ι) : Prop where
  nodup : ∀ i, (s.callers i).claimed.Nodup
  apart : ∀ i j, i ≠ j → ∀ p ∈ (s.callers i).claimed, p ∉ (s.callers j).claimed
  bits : ∀ i, ∀ p ∈ (s.callers i).claimed,
    s.alloc.allocated p = true ∧ p < s.alloc.totalPages.toNat ∧ p < maxPages
  tail : ∀ p, s.alloc.totalPages.toNat ≤ p → s.alloc.allocated p = false
  ctr : s.alloc.freePagesCtr + BitVec.ofNat 64 s.alloc.allocatedCount =
    s.alloc.totalPages + ∑ i, (s.callers i).pc.owes
  localOk : ∀ i, (s.callers i).LocalOk s.alloc.totalPages.toNat

/-! ### The effect of a step outside the windows -/

/-- What a step outside the windows does to the allocator and to the claims of its caller: nothing;
pay part of what is owed; claim a free page in range; or release a claimed page. -/
inductive Effect (a : PhysicalAllocator) (c : Caller) : PhysicalAllocator → Caller → Prop
  | silent {c' : Caller} (hc : c'.claimed = c.claimed) (ho : c'.pc.owes = c.pc.owes) :
      Effect a c a c'
  | pay {c' : Caller} (d : Usize) (hc : c'.claimed.Perm c.claimed)
      (ho : c'.pc.owes = c.pc.owes - d) :
      Effect a c { a with freePagesCtr := a.freePagesCtr - d } c'
  | claim {c' : Caller} (p : ℕ) (hfree : a.allocated p = false) (hlt : p < a.totalPages.toNat)
      (hmax : p < maxPages) (hc : c'.claimed.Perm (p :: c.claimed))
      (ho : c'.pc.owes = c.pc.owes + 1) : Effect a c (a.mark p) c'
  | release {c' : Caller} (p : ℕ) (hp : p ∈ c.claimed) (hc : c'.claimed = c.claimed.erase p)
      (ho : c'.pc.owes = c.pc.owes - 1) : Effect a c (a.unmark p) c'

/-- A call in flight that has claimed nothing and owes nothing may move to another such state, or
return. -/
theorem Effect.move (a : PhysicalAllocator) {c : Caller} {pc : CallerPc}
    (h1 : c.pc.claimed = []) (h2 : c.pc.owes = 0) (h3 : pc.claimed = []) (h4 : pc.owes = 0) :
    Effect a c a { c with pc := pc } :=
  .silent (by simp [Caller.claimed, h1, h3]) (by simp [h2, h4])

/-- The exchange of a word claims the page that was found, or nothing. -/
theorem Caller.access_pageCas {a a' : PhysicalAllocator} {c' : Caller} {w : ℕ} {cur : Usize}
    {owned : List ℕ} (hw : w < bitmapWords)
    (hcas : trailingOnes cur < wordBits → a.bitmap w = cur →
      w * wordBits + trailingOnes cur < a.totalPages.toNat)
    (hs : Caller.access a ⟨.pageCas w cur, owned⟩ = some (a', c')) :
    Effect a ⟨.pageCas w cur, owned⟩ a' c' ∧ c'.LocalOk a.totalPages.toNat := by
  simp only [Caller.access] at hs
  split at hs
  · cases hs; exact ⟨.move a rfl rfl rfl rfl, trivial⟩
  · rename_i hbit
    split at hs
    · rename_i hcur
      subst hcur
      have hlt := hcas (not_le.1 hbit) rfl
      rw [if_neg (not_le.2 hlt), ← a.mark_word w (not_le.1 hbit)] at hs
      cases hs
      have hmax : w * wordBits + trailingOnes (a.bitmap w) < maxPages := by
        rw [← PhysicalAllocator.div_wordBits_lt_iff, Nat.mul_comm,
          Nat.mul_add_div (by decide), Nat.div_eq_of_lt (not_le.1 hbit)]
        exact hw
      refine ⟨.claim _ ?_ hlt hmax ?_ ?_, trivial⟩
      · rw [a.allocated_word w (not_le.1 hbit)]
        exact getLsbD_trailingOnes (not_le.1 hbit)
      · simp only [Caller.claimed, CallerPc.claimed, List.append_nil]
        exact List.perm_append_singleton _ _
      · simp [CallerPc.owes]
    · cases hs; exact ⟨.move a rfl rfl rfl rfl, hw⟩

/-- A step of the scan for a run leads on, to the run that was found, or out of the call. -/
theorem Caller.access_pagesScan {a a' : PhysicalAllocator} {c' : Caller} {n page : ℕ}
    {startPage : Option ℕ} {consecutive : ℕ} {owned : List ℕ}
    (hok : Caller.LocalOk a.totalPages.toNat ⟨.pagesScan n page startPage consecutive, owned⟩)
    (hs : Caller.access a ⟨.pagesScan n page startPage consecutive, owned⟩ = some (a', c')) :
    Effect a ⟨.pagesScan n page startPage consecutive, owned⟩ a' c' ∧
      c'.LocalOk a.totalPages.toNat := by
  obtain ⟨hlt, hle, hstart⟩ : consecutive < n ∧ consecutive ≤ page ∧
      (consecutive ≠ 0 → startPage = some (page - consecutive)) := hok
  simp only [Caller.access] at hs
  split at hs
  · cases hs; exact ⟨.move a rfl rfl rfl rfl, trivial⟩
  · rename_i hpage
    have hstart' : (if consecutive = 0 then some page else startPage) =
        some (page - consecutive) := by
      by_cases h0 : consecutive = 0
      · simp [h0]
      · rw [if_neg h0, hstart h0]
    rw [hstart'] at hs
    split at hs
    · exact absurd hs (by simp)
    · split at hs
      · -- the run is complete, and ends at a page in range
        cases hs
        refine ⟨.move a rfl rfl rfl rfl, ?_⟩
        simp only [Caller.LocalOk]
        omega
      · cases hs
        refine ⟨.move a rfl rfl rfl rfl, by omega, by omega, fun _ => ?_⟩
        congr 1
        omega
    · cases hs
      exact ⟨.move a rfl rfl rfl rfl, by omega, Nat.zero_le _, fun h => absurd rfl h⟩

/-- Marking a page of the run claims it. -/
theorem Caller.access_pagesMark {a a' : PhysicalAllocator} {c' : Caller} {n start i : ℕ}
    {owned : List ℕ} (hok : Caller.LocalOk a.totalPages.toNat ⟨.pagesMark n start i, owned⟩)
    (hfree : a.isPageFree (start + i) = some true)
    (hs : Caller.access a ⟨.pagesMark n start i, owned⟩ = some (a', c')) :
    Effect a ⟨.pagesMark n start i, owned⟩ a' c' ∧ c'.LocalOk a.totalPages.toNat := by
  obtain ⟨hi, hle⟩ : i < n ∧ start + n ≤ a.totalPages.toNat := hok
  rw [PhysicalAllocator.isPageFree_eq] at hfree
  split at hfree
  · rename_i hmax
    have hbit : a.allocated (start + i) = false := by simpa using hfree
    simp only [Caller.access, PhysicalAllocator.markPageAllocated_eq, if_pos hmax,
      Option.map_some] at hs
    cases hs
    have hperm : (owned ++ List.range' start (i + 1)).Perm
        ((start + i) :: (owned ++ List.range' start i)) := by
      rw [List.range'_concat, ← List.append_assoc, Nat.one_mul]
      exact List.perm_append_singleton _ _
    by_cases hdone : i + 1 = n
    · subst hdone
      refine ⟨.claim _ hbit (by omega) hmax ?_ ?_, ?_⟩
      · simpa [Caller.claimed, CallerPc.claimed] using hperm
      · simp [CallerPc.owes, BitVec.ofNat_add]
      · simp [Caller.LocalOk]
    · refine ⟨.claim _ hbit (by omega) hmax ?_ ?_, ?_⟩
      · simpa [Caller.claimed, CallerPc.claimed, if_neg hdone] using hperm
      · simp [CallerPc.owes, BitVec.ofNat_add, if_neg hdone]
      · simp only [Caller.LocalOk, if_neg hdone]
        omega
  · exact absurd hfree (by simp)

/-- Every access outside the windows has one of the four effects and keeps the local promise. -/
theorem Caller.access_effect {a a' : PhysicalAllocator} {c c' : Caller}
    (hok : c.LocalOk a.totalPages.toNat)
    (hcas : ∀ w cur, c.pc = .pageCas w cur → trailingOnes cur < wordBits → a.bitmap w = cur →
      w * wordBits + trailingOnes cur < a.totalPages.toNat)
    (hmark : ∀ n start i, c.pc = .pagesMark n start i → a.isPageFree (start + i) = some true)
    (hs : c.access a = some (a', c')) :
    Effect a c a' c' ∧ c'.LocalOk a.totalPages.toNat := by
  obtain ⟨pc, owned⟩ := c
  cases pc with
  | idle => simp [Caller.access] at hs
  | pageLoad =>
      simp only [Caller.access] at hs
      split at hs <;> cases hs <;> exact ⟨.move a rfl rfl rfl rfl, trivial⟩
  | pageWord w =>
      simp only [Caller.access] at hs
      split at hs
      · cases hs; exact ⟨.move a rfl rfl rfl rfl, trivial⟩
      · split at hs
        · cases hs; exact ⟨.move a rfl rfl rfl rfl, trivial⟩
        · cases hs; exact ⟨.move a rfl rfl rfl rfl, by simp only [Caller.LocalOk]; omega⟩
  | pageCas w cur => exact Caller.access_pageCas hok (hcas w cur rfl) hs
  | pageSub page =>
      simp only [Caller.access] at hs
      cases hs
      refine ⟨.pay 1 ?_ (by simp [CallerPc.owes]), trivial⟩
      simp only [Caller.claimed, CallerPc.claimed, List.append_nil]
      exact (List.perm_append_singleton _ _).symm
  | pagesLoad n =>
      have hn : 0 < n := hok
      simp only [Caller.access] at hs
      split at hs
      · cases hs; exact ⟨.move a rfl rfl rfl rfl, trivial⟩
      · cases hs
        exact ⟨.move a rfl rfl rfl rfl, hn, le_rfl, fun h => absurd rfl h⟩
  | pagesScan n page startPage consecutive => exact Caller.access_pagesScan hok hs
  | pagesMark n start i => exact Caller.access_pagesMark hok (hmark n start i rfl) hs
  | pagesSub n start =>
      simp only [Caller.access] at hs
      cases hs
      refine ⟨.pay (BitVec.ofNat 64 n) ?_ (by simp [CallerPc.owes]), trivial⟩
      simp only [Caller.claimed, CallerPc.claimed, List.append_nil]
      exact List.perm_append_comm
  | freeCheck page =>
      have hmem : page ∈ owned := hok
      simp only [Caller.access] at hs
      split at hs
      · exact absurd hs (by simp)
      · cases hs; exact ⟨.move a rfl rfl rfl rfl, trivial⟩
      · cases hs; exact ⟨.move a rfl rfl rfl rfl, hmem⟩
  | freeMark page =>
      have hmem : page ∈ owned := hok
      simp only [Caller.access, PhysicalAllocator.markPageFree_eq] at hs
      split at hs
      · simp only [Option.map_some] at hs
        cases hs
        refine ⟨.release page ?_ ?_ (by simp [CallerPc.owes]), trivial⟩
        · simpa [Caller.claimed, CallerPc.claimed] using hmem
        · simp [Caller.claimed, CallerPc.claimed]
      · exact absurd hs (by simp)
  | freeAdd =>
      simp only [Caller.access] at hs
      cases hs
      have hadd : a.freePagesCtr + 1 = a.freePagesCtr - (-1) := by ring
      rw [hadd]
      exact ⟨.pay (-1) (by simp [Caller.claimed, CallerPc.claimed])
        (by simp [CallerPc.owes]), trivial⟩

/-- Every step of a caller outside the windows has one of the four effects. -/
theorem Caller.next_effect {a a' : PhysicalAllocator} {c c' : Caller} {act : CallerAct}
    (hok : c.LocalOk a.totalPages.toNat) (hmax : ∀ p ∈ c.claimed, p < maxPages)
    (hcas : ∀ w cur, act = .access → c.pc = .pageCas w cur → trailingOnes cur < wordBits →
      a.bitmap w = cur → w * wordBits + trailingOnes cur < a.totalPages.toNat)
    (hmark : ∀ n start i, act = .access → c.pc = .pagesMark n start i →
      a.isPageFree (start + i) = some true)
    (hs : c.next a act = some (a', c')) :
    Effect a c a' c' ∧ c'.LocalOk a.totalPages.toNat := by
  cases act with
  | access =>
      exact c.access_effect hok (fun w cur => hcas w cur rfl) (fun n st i => hmark n st i rfl) hs
  | callAllocPage =>
      simp only [Caller.next] at hs
      split at hs
      · rename_i hidle
        cases hs
        exact ⟨.move a (by rw [hidle]; rfl) (by rw [hidle]; rfl) rfl rfl, trivial⟩
      · exact absurd hs (by simp)
  | callAllocPages count =>
      simp only [Caller.next] at hs
      split at hs
      · rename_i hidle
        split at hs
        · cases hs; exact ⟨.silent rfl rfl, hok⟩
        · split at hs
          · cases hs
            exact ⟨.move a (by rw [hidle]; rfl) (by rw [hidle]; rfl) rfl rfl, trivial⟩
          · cases hs
            refine ⟨.move a (by rw [hidle]; rfl) (by rw [hidle]; rfl) rfl rfl, ?_⟩
            simp only [Caller.LocalOk]
            omega
      · exact absurd hs (by simp)
  | callFreePage page =>
      simp only [Caller.next] at hs
      split at hs
      · rename_i hcall
        obtain ⟨hidle, hmem⟩ := hcall
        split at hs
        · cases hs; exact ⟨.silent rfl rfl, hok⟩
        · split at hs
          · cases hs; exact ⟨.silent rfl rfl, hok⟩
          · rename_i q hq
            cases hs
            -- the address of an owned page leads back to that page
            obtain rfl : q = page := PhysicalAllocator.addrToPage_pageAddr
              (hmax page (List.mem_append_left _ hmem)) hq
            exact ⟨.move a (by rw [hidle]; rfl) (by rw [hidle]; rfl) rfl rfl, hmem⟩
      · exact absurd hs (by simp)
  | spuriousFailure =>
      obtain ⟨pc, owned⟩ := c
      cases pc with
      | pageCas w cur =>
          simp only [Caller.next] at hs
          split at hs
          · exact absurd hs (by simp)
          · cases hs
            exact ⟨.move a rfl rfl rfl rfl, hok⟩
      | _ => exact absurd hs (by simp [Caller.next])

/-! ### Preservation -/

section Preservation

variable [Fintype ι]

/-- Replacing one caller changes what the calls in flight owe by the difference of the two. -/
theorem sum_owes_update (f : ι → Caller) (i : ι) (c : Caller) :
    ∑ j, (Function.update f i c j).pc.owes = ∑ j, (f j).pc.owes + (c.pc.owes - (f i).pc.owes) := by
  have hfun : (fun j => (Function.update f i c j).pc.owes) =
      Function.update (fun j => (f j).pc.owes) i c.pc.owes := by
    funext j
    by_cases h : j = i
    · subst h; simp
    · simp [h]
  rw [hfun, Finset.sum_update_of_mem (Finset.mem_univ i),
    Finset.sum_eq_add_sum_sdiff_singleton_of_mem (Finset.mem_univ i) fun j => (f j).pc.owes]
  ring

/-- The invariant carries over a step of caller `i` that claims only free pages, keeps the bits of
everything still claimed, and moves the counter, the count and the debt together. -/
theorem ConcState.Sound.replace {s : ConcState ι} (h : s.Sound) {i : ι}
    {a' : PhysicalAllocator} {c' : Caller}
    (htot : a'.totalPages = s.alloc.totalPages) (hnodup : c'.claimed.Nodup)
    (hnew : ∀ p ∈ c'.claimed, p ∈ (s.callers i).claimed ∨ s.alloc.allocated p = false)
    (hbits : ∀ p ∈ c'.claimed, a'.allocated p = true ∧ p < s.alloc.totalPages.toNat ∧ p < maxPages)
    (hkeep : ∀ p, s.alloc.allocated p = true → p ∉ (s.callers i).claimed →
      a'.allocated p = true)
    (htail : ∀ p, s.alloc.totalPages.toNat ≤ p → a'.allocated p = false)
    (hctr : a'.freePagesCtr + BitVec.ofNat 64 a'.allocatedCount =
      s.alloc.freePagesCtr + BitVec.ofNat 64 s.alloc.allocatedCount +
        (c'.pc.owes - (s.callers i).pc.owes))
    (hok : c'.LocalOk s.alloc.totalPages.toNat) :
    ({ alloc := a', callers := Function.update s.callers i c' } : ConcState ι).Sound := by
  -- what another caller claims is neither claimed nor cleared by this step
  have hother : ∀ j, j ≠ i → ∀ p ∈ (s.callers j).claimed, p ∉ c'.claimed := by
    intro j hj p hp hp'
    rcases hnew p hp' with hold | hfree
    · exact h.apart j i hj p hp hold
    · rw [(h.bits j p hp).1] at hfree
      exact absurd hfree (by decide)
  constructor
  · intro j
    by_cases hj : j = i
    · subst hj; simpa using hnodup
    · simpa [hj] using h.nodup j
  · intro j k hjk p hp
    by_cases hj : j = i
    · subst hj
      have hk : k ≠ j := fun e => hjk e.symm
      simp only [Function.update_self] at hp
      simp only [Function.update_of_ne hk]
      exact fun hp' => hother k hk p hp' hp
    · simp only [Function.update_of_ne hj] at hp
      by_cases hk : k = i
      · subst hk
        simpa using hother j hj p hp
      · simpa [hk] using h.apart j k hjk p hp
  · intro j p hp
    change a'.allocated p = true ∧ p < a'.totalPages.toNat ∧ p < maxPages
    rw [htot]
    by_cases hj : j = i
    · subst hj
      exact hbits p (by simpa using hp)
    · simp only [Function.update_of_ne hj] at hp
      obtain ⟨hb, hlt⟩ := h.bits j p hp
      exact ⟨hkeep p hb (h.apart j i hj p hp), hlt⟩
  · intro p hp
    change a'.totalPages.toNat ≤ p at hp
    rw [htot] at hp
    exact htail p hp
  · change a'.freePagesCtr + BitVec.ofNat 64 a'.allocatedCount = a'.totalPages +
      ∑ j, (Function.update s.callers i c' j).pc.owes
    rw [sum_owes_update, hctr, h.ctr, htot]
    ring
  · intro j
    change Caller.LocalOk a'.totalPages.toNat _
    rw [htot]
    by_cases hj : j = i
    · subst hj; simpa using hok
    · simpa [hj] using h.localOk j

/-- Each of the four effects keeps the invariant. -/
theorem ConcState.Sound.effect {s : ConcState ι} (h : s.Sound) {i : ι} {a' : PhysicalAllocator}
    {c' : Caller} (he : Effect s.alloc (s.callers i) a' c')
    (hok : c'.LocalOk s.alloc.totalPages.toNat) :
    ({ alloc := a', callers := Function.update s.callers i c' } : ConcState ι).Sound := by
  have hnd := h.nodup i
  have hbits := h.bits i
  cases he with
  | silent hc ho =>
      refine h.replace rfl (hc ▸ hnd) (fun p hp => Or.inl (hc ▸ hp)) (fun p hp => hbits p (hc ▸ hp))
        (fun p hp _ => hp) h.tail ?_ hok
      rw [ho]; ring
  | pay d hc ho =>
      refine h.replace rfl (hc.nodup_iff.2 hnd) (fun p hp => Or.inl (hc.subset hp))
        (fun p hp => hbits p (hc.subset hp)) (fun p hp _ => hp) h.tail ?_ hok
      change s.alloc.freePagesCtr - d + BitVec.ofNat 64 s.alloc.allocatedCount = _
      rw [ho]; ring
  | claim p hfree hlt hmax hc ho =>
      have hcount : (s.alloc.mark p).allocatedCount = s.alloc.allocatedCount + 1 := by
        refine s.alloc.allocatedCount_markRun (n := 1) hlt fun k hk => ?_
        obtain rfl : k = 0 := by omega
        exact hfree
      have hnot : p ∉ (s.callers i).claimed := by
        intro hp
        rw [(hbits p hp).1] at hfree
        exact absurd hfree (by decide)
      refine h.replace rfl (hc.nodup_iff.2 (List.nodup_cons.2 ⟨hnot, hnd⟩)) ?_ ?_ ?_ ?_ ?_ hok
      · intro q hq
        rcases List.mem_cons.1 (hc.subset hq) with rfl | hq
        · exact Or.inr hfree
        · exact Or.inl hq
      · intro q hq
        rcases List.mem_cons.1 (hc.subset hq) with rfl | hq
        · exact ⟨by simp, hlt, hmax⟩
        · obtain ⟨hb, hrange⟩ := hbits q hq
          exact ⟨by simp [hb], hrange⟩
      · intro q hq _
        simp [hq]
      · intro q hq
        have hne : q ≠ p := by omega
        simp [h.tail q hq, hne]
      · rw [hcount, ho, PhysicalAllocator.mark_freePagesCtr, BitVec.ofNat_add,
          show BitVec.ofNat 64 1 = 1 from rfl]
        ring
  | release p hp hc ho =>
      obtain ⟨hb, hlt, -⟩ := hbits p hp
      have hcount : s.alloc.allocatedCount = (s.alloc.unmark p).allocatedCount + 1 := by
        refine s.alloc.allocatedCount_unmarkRun (n := 1) hlt fun q h1 h2 => ?_
        obtain rfl : q = p := by omega
        exact hb
      refine h.replace rfl (hc ▸ hnd.erase p) ?_ ?_ ?_ ?_ ?_ hok
      · intro q hq
        exact Or.inl (List.mem_of_mem_erase (hc ▸ hq))
      · intro q hq
        rw [hc] at hq
        obtain ⟨hne, hq⟩ := hnd.mem_erase_iff.1 hq
        obtain ⟨hb', hrange⟩ := hbits q hq
        exact ⟨by simp [hb', hne], hrange⟩
      · intro q hq hnot
        have hne : q ≠ p := fun e => hnot (e ▸ hp)
        simp [hq, hne]
      · intro q hq
        simp [h.tail q hq]
      · rw [hcount, ho, PhysicalAllocator.unmark_freePagesCtr, BitVec.ofNat_add,
          show BitVec.ofNat 64 1 = 1 from rfl]
        ring

omit [DecidableEq ι] in
theorem ConcState.sound_start (base : PhysAddr) (total : Usize) :
    (ConcState.start ι base total).Sound := by
  constructor
  · intro i; simp [ConcState.start, Caller.claimed, CallerPc.claimed]
  · intro i j _ p hp; simp [ConcState.start, Caller.claimed, CallerPc.claimed] at hp
  · intro i p hp; simp [ConcState.start, Caller.claimed, CallerPc.claimed] at hp
  · intro p _; simp [ConcState.start]
  · simp [ConcState.start, CallerPc.owes, PhysicalAllocator.allocatedCount, PhysicalAllocator.new,
      PhysicalAllocator.allocated]
  · intro i; trivial

/-- A step outside the windows keeps the invariant. -/
theorem ConcState.Sound.next {s s' : ConcState ι} {e : ι × CallerAct} (h : s.Sound)
    (hg : avoidsWindows s e = true) (hs : s.next e = some s') :
    s'.Sound ∧ s'.alloc.totalPages = s.alloc.totalPages := by
  obtain ⟨i, act⟩ := e
  simp only [ConcState.next, Option.map_eq_some_iff] at hs
  obtain ⟨⟨a', c'⟩, hn, rfl⟩ := hs
  have hcas : ∀ w cur, act = .access → (s.callers i).pc = .pageCas w cur →
      trailingOnes cur < wordBits → s.alloc.bitmap w = cur →
      w * wordBits + trailingOnes cur < s.alloc.totalPages.toNat := by
    rintro w cur rfl hpc hlt hcur
    simpa [avoidsWindows, hpc, hcur, not_le.2 hlt] using hg
  have hmark : ∀ n start k, act = .access → (s.callers i).pc = .pagesMark n start k →
      s.alloc.isPageFree (start + k) = some true := by
    rintro n start k rfl hpc
    simpa [avoidsWindows, hpc] using hg
  obtain ⟨heff, hok⟩ := (s.callers i).next_effect (h.localOk i)
    (fun p hp => (h.bits i p hp).2.2) hcas hmark hn
  refine ⟨h.effect heff hok, ?_⟩
  cases heff <;> rfl

theorem concurrentSystem_sound {base : PhysAddr} {total : Usize} {s : ConcState ι}
    (h : (concurrentSystem ι base total).Reach (fun s e => avoidsWindows s e = true) s) :
    s.Sound ∧ s.alloc.totalPages = total := by
  refine h.invariant (P := fun s => s.Sound ∧ s.alloc.totalPages = total) ?_ ?_
  · rintro _ rfl
    exact ⟨ConcState.sound_start base total, rfl⟩
  · rintro s e s' ⟨hs, htot⟩ hg hn
    obtain ⟨hs', htot'⟩ := hs.next hg hn
    exact ⟨hs', htot'.trans htot⟩

/-- Exclusive allocation: in every run whose steps stay outside both windows, no page has two
owners, and whenever no call is in flight the counter is the number of clear bits in range and no
bit past the range is set. -/
theorem concurrent_exclusive {base : PhysAddr} {total : Usize} {s : ConcState ι}
    (h : (concurrentSystem ι base total).Reach (fun s e => avoidsWindows s e = true) s) :
    (∀ i, (s.callers i).owned.Nodup) ∧
      (∀ i j, i ≠ j → ∀ p ∈ (s.callers i).owned, p ∉ (s.callers j).owned) ∧
      ((∀ i, (s.callers i).pc = .idle) →
        s.alloc.freePagesCtr.toNat =
            ((Finset.range total.toNat).filter fun p => s.alloc.allocated p = false).card ∧
          ∀ p, total.toNat ≤ p → s.alloc.allocated p = false) := by
  obtain ⟨hs, rfl⟩ := concurrentSystem_sound h
  refine ⟨fun i => (hs.nodup i).of_append_left, fun i j hij p hp hp' => ?_, fun hidle => ?_⟩
  · exact hs.apart i j hij p (List.mem_append_left _ hp) (List.mem_append_left _ hp')
  · refine ⟨?_, hs.tail⟩
    have hdebt : ∑ i, (s.callers i).pc.owes = 0 :=
      Finset.sum_eq_zero fun i _ => by rw [hidle i]; rfl
    have hctr := hs.ctr
    rw [hdebt, add_zero] at hctr
    have hcount : s.alloc.allocatedCount +
        ((Finset.range s.alloc.totalPages.toNat).filter
          fun p => s.alloc.allocated p = false).card = s.alloc.totalPages.toNat := by
      have := Finset.card_filter_add_card_filter_not
        (s := Finset.range s.alloc.totalPages.toNat) fun p => s.alloc.allocated p = true
      simpa [PhysicalAllocator.allocatedCount] using this
    have hnat := congrArg BitVec.toNat hctr
    rw [BitVec.toNat_add, BitVec.toNat_ofNat] at hnat
    have h1 := s.alloc.freePagesCtr.isLt
    have h2 := s.alloc.totalPages.isLt
    have h3 := s.alloc.allocatedCount_le
    omega

end Preservation

/-- The trace of two callers taking one page each, their accesses alternating. -/
def sharedTrace : List (Bool × CallerAct) :=
  (false, .callAllocPage) :: (true, .callAllocPage) ::
    (List.replicate 4 [(false, .access), (true, .access)]).flatten ++ [(true, .access)]

/-- Two callers that take one page each own different pages in the end. -/
theorem concurrent_exclusive_two :
    ∃ s : ConcState Bool, (s.callers false).owned = [0] ∧ (s.callers true).owned = [1] ∧
      ∀ p ∈ (s.callers false).owned, p ∉ (s.callers true).owned := by
  have hrun : ∃ s, Runs.replay ConcState.next avoidsWindows
      (ConcState.start Bool ⟨0x80000000#64⟩ 2#64) sharedTrace = some s ∧
        (s.callers false).owned = [0] ∧ (s.callers true).owned = [1] :=
    ⟨_, rfl, rfl, rfl⟩
  obtain ⟨s, hs, h0, h1⟩ := hrun
  have hreach := Runs.System.Reach.replay
    (M := concurrentSystem Bool ⟨0x80000000#64⟩ 2#64) (fun _ _ _ h => h) (.init rfl) hs
  exact ⟨s, h0, h1, (concurrent_exclusive hreach).2.1 false true (by decide)⟩

/-! ### A run through the first window -/

/-- The trace of two callers that each ask for both pages of a two-page range: each scans before
the other marks. -/
def doubleAllocTrace : List (Bool × CallerAct) :=
  (false, .callAllocPages 2) :: List.replicate 3 (false, .access) ++
    (true, .callAllocPages 2) :: List.replicate 3 (true, .access) ++
    List.replicate 3 (false, .access) ++ List.replicate 3 (true, .access)

/-- Two concurrent calls of `alloc_pages` hand out the same pages: both callers end up owning page
`0`. -/
theorem concurrent_double_alloc :
    ∃ s, (concurrentSystem Bool ⟨0x80000000#64⟩ 2#64).Reach Runs.anyStep s ∧
      0 ∈ (s.callers false).owned ∧ 0 ∈ (s.callers true).owned := by
  have hrun : ∃ s, Runs.replay ConcState.next (fun _ _ => true)
      (ConcState.start Bool ⟨0x80000000#64⟩ 2#64) doubleAllocTrace = some s ∧
        0 ∈ (s.callers false).owned ∧ 0 ∈ (s.callers true).owned :=
    ⟨_, rfl, by decide, by decide⟩
  obtain ⟨s, hs, h0, h1⟩ := hrun
  exact ⟨s, (Runs.System.Reach.replay (fun _ _ _ h => h) (.init rfl) hs).free, h0, h1⟩

end StarOS
