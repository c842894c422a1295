/-
The kernel's global allocator (`kernel_alloc` in `lib.rs`): a bump allocator over a static heap,
until `activate_heap_allocator` hands over to the `HeapAllocator`.

Any number of threads allocate at a time.  The bump allocator's loop is taken in its atomic steps,
the load of `HEAP_POS` and the exchange, so that the switch can also come in the middle of an
`alloc`.  What the `HeapAllocator` answers is a label of the step, and what it is relied on for is a
condition on these labels.

`dealloc` goes by `HEAP_READY` at the time of the call, not by where the pointer came from: a block
of the bump heap that is freed after the switch is given to the `HeapAllocator`.

* `StarOS.KernelAllocator`, `StarOS.KernelAllocator.bumpPass`, `StarOS.globalAlloc` — the code;
* `StarOS.AllocRun`, `StarOS.AllocRun.next` — runs, with the live allocations and what the
  `HeapAllocator` has returned;
* `StarOS.AllocRun.HeapSound`, `StarOS.AllocRun.SwitchSafe` — what is relied on, and what is claimed
  of a step;
* `StarOS.switch_safe_iff` — when a run is safe.
-/

import StarOS.Heap
import StarOS.Runs
import Mathlib.Logic.Function.Basic

set_option autoImplicit false

namespace StarOS

open Region Links

/-! ### The bump allocator -/

/-- `HEAP_SIZE`. -/
def kernelHeapSize : ℕ := 1024 * 1024

/-- The address of `HEAP`, whose alignment is 4096. -/
structure HeapStorage where
  base : Usize
  aligned : 4096 ∣ base.toNat

/-- The addresses of the static heap. -/
def HeapStorage.range (heap : HeapStorage) : Set Usize := region heap.base kernelHeapSize

/-- A layout with an alignment of at most 4096. -/
def KernelLayout := { layout : Layout // layout.align ≤ 4096 }
  deriving DecidableEq

namespace KernelLayout

/-- `layout.size()`. -/
def size (layout : KernelLayout) : ℕ := layout.1.size

/-- `layout.align()`. -/
def align (layout : KernelLayout) : ℕ := layout.1.align

theorem align_eq (layout : KernelLayout) : ∃ k ≤ 12, layout.align = 2 ^ k := by
  obtain ⟨k, hk⟩ := layout.1.isPowerOfTwo
  have hle : (2 : ℕ) ^ k ≤ 2 ^ 12 := hk ▸ layout.2
  exact ⟨k, (Nat.pow_le_pow_iff_right (by decide)).1 hle, hk⟩

theorem size_le (layout : KernelLayout) : layout.size ≤ 2 ^ 63 :=
  le_trans (Nat.le_add_right _ _) layout.1.size_le

end KernelLayout

/-- `HEAP_POS` and `HEAP_READY`. -/
structure KernelAllocator where
  heapPos : Usize
  heapReady : Bool
  deriving DecidableEq

namespace KernelAllocator

/-- Both statics at the start. -/
def new : KernelAllocator := ⟨0#64, false⟩

/-- `activate_heap_allocator`. -/
def activateHeapAllocator (s : KernelAllocator) : KernelAllocator := { s with heapReady := true }

/-- `(pos + align - 1) & !(align - 1)`. -/
def alignUp (pos align : Usize) : Usize := (pos + align - 1#64) &&& ~~~(align - 1#64)

/-- The loop body of `alloc` after it has loaded `pos`: what it returns, if it does not go round
again.  `compare_exchange_weak` may fail without reason. -/
def bumpPass (s : KernelAllocator) (heap : HeapStorage) (layout : KernelLayout) (pos : Usize)
    (spurious : Bool) : Option Usize × KernelAllocator :=
  let size := BitVec.ofNat 64 layout.size
  let align := BitVec.ofNat 64 layout.align
  let aligned := alignUp pos align
  let newPos := aligned + size
  if BitVec.ofNat 64 kernelHeapSize < newPos then (some 0#64, s)
  else if s.heapPos = pos ∧ spurious = false then
    (some (heap.base + aligned), { s with heapPos := newPos })
  else (none, s)

end KernelAllocator

/-- `HeapAllocator::global_alloc`, with what the registered heap answers to a layout that passes its
first checks; without a heap the answer is null. -/
def globalAlloc (layout : KernelLayout) (answer : Usize) : Usize :=
  if layout.size = 0 then 0#64
  else if 4096 < layout.align then 0#64
  else answer

/-- The heap of `memory/heap.rs` answers through these checks. -/
theorem HeapAllocator.alloc_eq_globalAlloc {M : Type} [LinkStore Usize M] {h h' : HeapAllocator M}
    {layout : KernelLayout} {p : Usize} (hres : h.alloc layout.1 = some (p, h')) :
    globalAlloc layout p = p := by
  unfold HeapAllocator.alloc at hres
  dsimp only at hres
  unfold globalAlloc KernelLayout.size KernelLayout.align
  split at hres
  · rename_i hzero
    rw [if_pos hzero]
    cases hres
    rfl
  · rename_i hzero
    rw [if_neg hzero, if_neg (not_lt.2 layout.2)]

/-! ### Rounding up -/

theorem toNat_alignUp {pos : Usize} {layout : KernelLayout} (hpos : pos.toNat ≤ kernelHeapSize) :
    ∃ m, (KernelAllocator.alignUp pos (BitVec.ofNat 64 layout.align)).toNat = m * layout.align ∧
      pos.toNat ≤ m * layout.align ∧ m * layout.align < pos.toNat + layout.align := by
  obtain ⟨k, hk, halign⟩ := layout.align_eq
  have hle : (2 : ℕ) ^ k ≤ 2 ^ 12 := Nat.pow_le_pow_right (by decide) hk
  have hone : 0 < 2 ^ k := Nat.two_pow_pos k
  have hsize : kernelHeapSize = 2 ^ 20 := rfl
  have hword : (BitVec.ofNat 64 (2 ^ k)).toNat = 2 ^ k :=
    Nat.mod_eq_of_lt (by omega)
  have hsum : (pos + BitVec.ofNat 64 (2 ^ k) - 1#64).toNat = pos.toNat + 2 ^ k - 1 := by
    rw [BitVec.toNat_sub, BitVec.toNat_add, hword]
    simp only [BitVec.toNat_ofNat]
    omega
  refine ⟨(pos.toNat + 2 ^ k - 1) / 2 ^ k, ?_, ?_, ?_⟩
  · rw [KernelAllocator.alignUp, halign, toNat_and_not_mask _ hword, hsum]
  · have hdiv := Nat.div_add_mod (pos.toNat + 2 ^ k - 1) (2 ^ k)
    have hmod := Nat.mod_lt (pos.toNat + 2 ^ k - 1) hone
    rw [halign, Nat.mul_comm]
    omega
  · have hdiv := Nat.div_mul_le_self (pos.toNat + 2 ^ k - 1) (2 ^ k)
    rw [halign]
    omega

/-- What a pass of the loop does: it gives up, it goes round again, or it takes the next bytes of
the static heap. -/
theorem KernelAllocator.bumpPass_cases (s : KernelAllocator) (heap : HeapStorage)
    (layout : KernelLayout) (pos : Usize) (spurious : Bool)
    (hpos : s.heapPos.toNat ≤ kernelHeapSize) :
    s.bumpPass heap layout pos spurious = (some 0#64, s) ∨
      s.bumpPass heap layout pos spurious = (none, s) ∨
      ∃ off newPos, s.bumpPass heap layout pos spurious =
          (some (heap.base + BitVec.ofNat 64 off), { s with heapPos := newPos }) ∧
        layout.align ∣ (heap.base + BitVec.ofNat 64 off).toNat ∧
        s.heapPos.toNat ≤ off ∧ off + layout.size = newPos.toNat ∧
        newPos.toNat ≤ kernelHeapSize := by
  unfold bumpPass
  dsimp only
  split
  · exact Or.inl rfl
  · rename_i hfull
    split
    · rename_i hok
      obtain ⟨rfl, -⟩ := hok
      obtain ⟨m, hm, hlow, hhigh⟩ := @toNat_alignUp s.heapPos layout hpos
      obtain ⟨k, hk, halign⟩ := layout.align_eq
      have hle : (2 : ℕ) ^ k ≤ 2 ^ 12 := Nat.pow_le_pow_right (by decide) hk
      have hsize : kernelHeapSize = 2 ^ 20 := rfl
      have hbound := layout.size_le
      -- nothing wraps
      have hnew : (alignUp s.heapPos (BitVec.ofNat 64 layout.align) +
          BitVec.ofNat 64 layout.size).toNat = m * layout.align + layout.size := by
        rw [BitVec.toNat_add, hm, BitVec.toNat_ofNat]
        omega
      have hofNat : BitVec.ofNat 64 (m * layout.align) =
          alignUp s.heapPos (BitVec.ofNat 64 layout.align) := by
        rw [← hm, BitVec.ofNat_toNat, BitVec.setWidth_eq]
      refine Or.inr (Or.inr ⟨m * layout.align, _, by rw [hofNat], ?_, hlow, hnew.symm, ?_⟩)
      · -- the static heap starts at a multiple of every such alignment
        have hpow : layout.align ∣ 4096 := halign ▸ Nat.pow_dvd_pow 2 hk
        have hword : layout.align ∣ 2 ^ 64 := hpow.trans (by decide)
        rw [hofNat, BitVec.toNat_add, hm]
        exact (Nat.dvd_mod_iff hword).2
          (Nat.dvd_add (hpow.trans heap.aligned) (Nat.dvd_mul_left _ _))
      · rw [BitVec.lt_def, not_lt] at hfull
        exact hfull
    · exact Or.inr (Or.inl rfl)

/-! ### Runs -/

/-- An `alloc` that has found the heap allocator not to be ready, with what it has loaded from
`HEAP_POS` in this pass of its loop. -/
structure BumpCall where
  layout : KernelLayout
  pos : Option Usize
  deriving DecidableEq

/-- A live allocation; `early` tells that it is the bump allocator's. -/
structure Allocation where
  ptr : Usize
  layout : KernelLayout
  early : Bool
  deriving DecidableEq

/-- The bytes of an allocation. -/
def Allocation.range (e : Allocation) : Set Usize := region e.ptr e.layout.size

/-- The steps of a run: `alloc` up to the load of `HEAP_READY`, with the answer of the
`HeapAllocator` if that is asked; the two steps of the bump allocator's loop; a call of `dealloc`
for the `k`-th live allocation; and the switch. -/
inductive AllocStep where
  | alloc (thread : ℕ) (layout : KernelLayout) (answer : Usize)
  | load (thread : ℕ)
  | exchange (thread : ℕ) (spurious : Bool)
  | dealloc (k : ℕ)
  | activate

/-- A state of a run: the statics, the calls in the bump allocator's loop, the live allocations,
what `global_alloc` has returned so far, and whether `global_dealloc` was given anything else. -/
structure AllocRun where
  allocator : KernelAllocator
  calls : ℕ → Option BumpCall
  live : List Allocation
  returned : List (Usize × KernelLayout)
  misused : Bool

namespace AllocRun

variable (heap : HeapStorage)

/-- Nothing is allocated. -/
def new : AllocRun := ⟨KernelAllocator.new, fun _ => none, [], [], false⟩

/-- An `alloc` returns. -/
def finish (s : AllocRun) (e : Allocation) : AllocRun :=
  if e.ptr = 0#64 then s
  else
    { s with
      live := e :: s.live
      returned := if e.early then s.returned else (e.ptr, e.layout) :: s.returned }

/-- What `global_dealloc` is given by the `dealloc` of an allocation. -/
def given (s : AllocRun) (e : Allocation) : Option (Usize × KernelLayout) :=
  if s.allocator.heapReady then some (e.ptr, e.layout) else none

/-- The allocation that a step returns, if it is the end of an `alloc`. -/
def result (s : AllocRun) : AllocStep → Option Allocation
  | .alloc t layout answer =>
      if s.calls t = none ∧ s.allocator.heapReady then
        some ⟨globalAlloc layout answer, layout, false⟩
      else none
  | .exchange t spurious =>
      match s.calls t with
      | some ⟨layout, some pos⟩ =>
          (s.allocator.bumpPass heap layout pos spurious).1.map fun ptr => ⟨ptr, layout, true⟩
      | _ => none
  | _ => none

/-- The step without what it returns. -/
def act (s : AllocRun) : AllocStep → AllocRun
  | .alloc t layout _ =>
      if s.calls t = none ∧ s.allocator.heapReady = false then
        { s with calls := Function.update s.calls t (some ⟨layout, none⟩) }
      else s
  | .load t =>
      match s.calls t with
      | some ⟨layout, none⟩ =>
          { s with calls := Function.update s.calls t (some ⟨layout, some s.allocator.heapPos⟩) }
      | _ => s
  | .exchange t spurious =>
      match s.calls t with
      | some ⟨layout, some pos⟩ =>
          let pass := s.allocator.bumpPass heap layout pos spurious
          { s with
            allocator := pass.2
            calls := Function.update s.calls t
              (match pass.1 with
              | some _ => none
              | none => some ⟨layout, none⟩) }
      | _ => s
  | .dealloc k =>
      match s.live[k]? with
      | some e =>
          { s with
            live := s.live.eraseIdx k
            misused := s.misused || (s.given e).any fun p => decide (p ∉ s.returned) }
      | none => s
  | .activate => { s with allocator := s.allocator.activateHeapAllocator }

/-- A step. -/
def next (s : AllocRun) (a : AllocStep) : AllocRun :=
  match s.result heap a with
  | some e => (s.act heap a).finish e
  | none => s.act heap a

/-- What the `HeapAllocator` is relied on for, as long as it was only given back what it had
returned: a pointer it hands out is aligned, and its block lies outside the static heap and beside
the blocks that it has handed out and not got back. -/
def HeapSound (s : AllocRun) (a : AllocStep) : Prop :=
  s.misused = false → ∀ e ∈ s.result heap a, e.early = false → e.ptr ≠ 0#64 →
    e.layout.align ∣ e.ptr.toNat ∧ Disjoint e.range heap.range ∧
      ∀ f ∈ s.live, f.early = false → Disjoint e.range f.range

/-- What is claimed of a step: a pointer that an `alloc` returns is null, or it is aligned and its
block lies beside all the live ones; and a pointer that `global_dealloc` is given, with its layout,
was returned by `global_alloc`. -/
def SwitchSafe (s : AllocRun) (a : AllocStep) : Prop :=
  (∀ e ∈ s.result heap a, e.ptr ≠ 0#64 →
    e.layout.align ∣ e.ptr.toNat ∧ ∀ f ∈ s.live, Disjoint e.range f.range) ∧
  ∀ k, a = .dealloc k → ∀ e ∈ s.live[k]?, ∀ p ∈ s.given e, p ∈ s.returned

/-- The step is not the `dealloc`, after the switch, of an allocation of the bump allocator. -/
def KeepsEarly (s : AllocRun) (a : AllocStep) : Prop :=
  s.allocator.heapReady = true → ∀ k, a = .dealloc k → ∀ e ∈ s.live[k]?, e.early = false

/-! ### The invariant -/

/-- The invariant of the runs that keep the early allocations. -/
structure Inv (s : AllocRun) : Prop where
  pos_le : s.allocator.heapPos.toNat ≤ kernelHeapSize
  early : ∀ e ∈ s.live, e.early = true → ∃ off, e.ptr = heap.base + BitVec.ofNat 64 off ∧
    off + e.layout.size ≤ s.allocator.heapPos.toNat
  late : ∀ e ∈ s.live, e.early = false → (e.ptr, e.layout) ∈ s.returned
  outside : ∀ r ∈ s.returned, 0 < r.2.size ∧ Disjoint (region r.1 r.2.size) heap.range
  sound : s.misused = false

variable {heap} {s : AllocRun}

theorem inv_new : new.Inv heap where
  pos_le := Nat.zero_le _
  early := fun _ he => by cases he
  late := fun _ he => by cases he
  outside := fun _ hr => by cases hr
  sound := rfl

namespace Inv

/-- The bytes of the early allocations belong to the static heap. -/
theorem early_range (h : s.Inv heap) {e : Allocation} (he : e ∈ s.live) (hearly : e.early = true) :
    e.range ⊆ heap.range := by
  obtain ⟨off, hptr, hle⟩ := h.early e he hearly
  have hpos := h.pos_le
  have hsize : kernelHeapSize = 2 ^ 20 := rfl
  rw [Allocation.range, hptr]
  exact region_subset heap.base (by omega) (by omega)

/-- `global_alloc` has never returned an early allocation. -/
theorem not_returned (h : s.Inv heap) {e : Allocation} (he : e ∈ s.live)
    (hearly : e.early = true) : (e.ptr, e.layout) ∉ s.returned := by
  intro hmem
  obtain ⟨hpos, hdisj⟩ := h.outside _ hmem
  have hself := self_mem_region e.ptr hpos
  exact Set.disjoint_left.1 hdisj hself (h.early_range he hearly hself)

/-- A pointer of the `HeapAllocator` is as it is relied on for, so it lies beside all the live
allocations. -/
theorem beside_late (h : s.Inv heap) {e : Allocation} (hout : Disjoint e.range heap.range)
    (hlate : ∀ f ∈ s.live, f.early = false → Disjoint e.range f.range) :
    ∀ f ∈ s.live, Disjoint e.range f.range := by
  intro f hf
  cases hearly : f.early with
  | true => exact Set.disjoint_of_subset_right (h.early_range hf hearly) hout
  | false => exact hlate f hf hearly

/-- The next bytes of the static heap lie beside all the live allocations. -/
theorem beside_early (h : s.Inv heap) {layout : KernelLayout} {off : ℕ}
    (hlow : s.allocator.heapPos.toNat ≤ off) (hhigh : off + layout.size ≤ kernelHeapSize) :
    ∀ f ∈ s.live, Disjoint (region (heap.base + BitVec.ofNat 64 off) layout.size) f.range := by
  have hsize : kernelHeapSize = 2 ^ 20 := rfl
  intro f hf
  cases hearly : f.early with
  | true =>
      obtain ⟨k, hptr, hle⟩ := h.early f hf hearly
      rw [Allocation.range, hptr]
      exact (disjoint_region_offset heap.base (by omega) (by omega)).symm
  | false =>
      have hsub : region (heap.base + BitVec.ofNat 64 off) layout.size ⊆ heap.range :=
        region_subset heap.base hhigh (by omega)
      have hdisj : Disjoint f.range heap.range := (h.outside _ (h.late f hf hearly)).2
      exact (Set.disjoint_of_subset_right hsub hdisj).symm

/-- The bump allocator's position moves on. -/
theorem advance (h : s.Inv heap) {newPos : Usize} (hle : s.allocator.heapPos.toNat ≤ newPos.toNat)
    (hbound : newPos.toNat ≤ kernelHeapSize) (calls : ℕ → Option BumpCall) :
    { s with allocator := { s.allocator with heapPos := newPos }, calls := calls }.Inv heap where
  pos_le := hbound
  early := by
    intro e he hearly
    obtain ⟨off, hptr, hend⟩ := h.early e he hearly
    exact ⟨off, hptr, hend.trans hle⟩
  late := h.late
  outside := h.outside
  sound := h.sound

/-- Another state of the calls in progress. -/
theorem withCalls (h : s.Inv heap) (calls : ℕ → Option BumpCall) :
    { s with calls := calls }.Inv heap :=
  ⟨h.pos_le, h.early, h.late, h.outside, h.sound⟩

/-- The bump allocator returns. -/
theorem finish_early (h : s.Inv heap) {layout : KernelLayout} {off : ℕ}
    (hle : off + layout.size ≤ s.allocator.heapPos.toNat) :
    (s.finish ⟨heap.base + BitVec.ofNat 64 off, layout, true⟩).Inv heap := by
  unfold finish
  split
  · exact h
  · refine ⟨h.pos_le, ?_, ?_, h.outside, h.sound⟩
    · intro e he hearly
      rcases List.mem_cons.1 he with rfl | he
      · exact ⟨off, rfl, hle⟩
      · exact h.early e he hearly
    · intro e he hlate
      rcases List.mem_cons.1 he with rfl | he
      · exact absurd hlate (by simp)
      · exact h.late e he hlate

/-- The `HeapAllocator` returns. -/
theorem finish_late (h : s.Inv heap) {e : Allocation} (hlate : e.early = false)
    (hsize : e.ptr ≠ 0#64 → 0 < e.layout.size ∧ Disjoint e.range heap.range) :
    (s.finish e).Inv heap := by
  unfold finish
  split
  · exact h
  · rename_i hne
    rw [if_neg (by rw [hlate]; exact Bool.false_ne_true)]
    refine ⟨h.pos_le, ?_, ?_, ?_, h.sound⟩
    · intro f hf hearly
      rcases List.mem_cons.1 hf with rfl | hf
      · exact absurd (hlate.symm.trans hearly) Bool.false_ne_true
      · exact h.early f hf hearly
    · intro f hf hlate'
      rcases List.mem_cons.1 hf with rfl | hf
      · exact List.mem_cons_self
      · exact List.mem_cons_of_mem _ (h.late f hf hlate')
    · intro r hr
      rcases List.mem_cons.1 hr with rfl | hr
      · exact hsize hne
      · exact h.outside r hr

end Inv

/-! ### One step -/

section Step

variable {a : AllocStep} {t k : ℕ}

theorem next_of_none (hres : s.result heap a = none) : s.next heap a = s.act heap a := by
  rw [next, hres]

theorem next_of_some {e : Allocation} (hres : s.result heap a = some e) :
    s.next heap a = (s.act heap a).finish e := by
  rw [next, hres]

/-- A step that returns nothing is safe as far as returned pointers go. -/
theorem safe_of_none (hres : s.result heap a = none) :
    ∀ e ∈ s.result heap a, e.ptr ≠ 0#64 →
      e.layout.align ∣ e.ptr.toNat ∧ ∀ f ∈ s.live, Disjoint e.range f.range := by
  intro e he
  rw [hres] at he
  cases he

/-- Nothing is relied on in a step in which the `HeapAllocator` returns nothing. -/
theorem heapSound_of_none (hres : s.result heap a = none) : s.HeapSound heap a := by
  intro _ e he
  rw [hres] at he
  cases he

theorem heapSound_of_early {e : Allocation} (hres : s.result heap a = some e)
    (hearly : e.early = true) : s.HeapSound heap a := by
  intro _ f hf hlate
  rw [hres] at hf
  cases hf
  exact absurd (hearly.symm.trans hlate) (by simp)

/-- A call of `alloc`, up to the load of `HEAP_READY`. -/
theorem Inv.alloc (h : s.Inv heap) {layout : KernelLayout} {answer : Usize}
    (hsound : s.HeapSound heap (.alloc t layout answer)) :
    (s.next heap (.alloc t layout answer)).Inv heap ∧
      ∀ e ∈ s.result heap (.alloc t layout answer), e.ptr ≠ 0#64 →
        e.layout.align ∣ e.ptr.toNat ∧ ∀ f ∈ s.live, Disjoint e.range f.range := by
  by_cases hcall : s.calls t = none ∧ s.allocator.heapReady = true
  · have hres : s.result heap (.alloc t layout answer) =
        some ⟨globalAlloc layout answer, layout, false⟩ := if_pos hcall
    have hact : s.act heap (.alloc t layout answer) = s := by
      refine if_neg fun hc => ?_
      rw [hcall.2] at hc
      exact absurd hc.2 (by simp)
    have hgives := hsound h.sound _ hres rfl
    constructor
    · rw [next_of_some hres, hact]
      refine h.finish_late rfl fun hne => ⟨?_, (hgives hne).2.1⟩
      -- a layout of size zero is refused
      by_contra hzero
      exact hne (if_pos (Nat.eq_zero_of_not_pos hzero))
    · intro e he hne
      rw [hres] at he
      cases he
      obtain ⟨halign, hout, hlate⟩ := hgives hne
      exact ⟨halign, h.beside_late hout hlate⟩
  · have hres : s.result heap (.alloc t layout answer) = none := if_neg hcall
    refine ⟨?_, safe_of_none hres⟩
    rw [next_of_none hres, act]
    split
    · exact h.withCalls _
    · exact h

/-- The load of the bump allocator's position. -/
theorem Inv.load (h : s.Inv heap) : (s.next heap (.load t)).Inv heap := by
  rw [next_of_none rfl]
  unfold act
  dsimp only
  split
  · exact h.withCalls _
  · exact h

/-- Without a loaded position the exchange does nothing. -/
theorem exchange_idle (s : AllocRun) (heap : HeapStorage) (t : ℕ) (spurious : Bool)
    (hcall : ∀ layout pos, s.calls t ≠ some ⟨layout, some pos⟩) :
    s.result heap (.exchange t spurious) = none ∧ s.act heap (.exchange t spurious) = s := by
  unfold result act
  dsimp only
  split
  · rename_i layout pos hsome
    exact absurd hsome (hcall layout pos)
  · exact ⟨rfl, rfl⟩

/-- The exchange of the bump allocator's position. -/
theorem Inv.exchange (h : s.Inv heap) (spurious : Bool) :
    (s.next heap (.exchange t spurious)).Inv heap ∧
      ∀ e ∈ s.result heap (.exchange t spurious), e.ptr ≠ 0#64 →
        e.layout.align ∣ e.ptr.toNat ∧ ∀ f ∈ s.live, Disjoint e.range f.range := by
  rcases hcall : s.calls t with _ | ⟨layout, _ | pos⟩
  · obtain ⟨hres, hact⟩ := s.exchange_idle heap t spurious
      fun layout pos hsome => by rw [hcall] at hsome; cases hsome
    exact ⟨by rwa [next_of_none hres, hact], safe_of_none hres⟩
  · obtain ⟨hres, hact⟩ := s.exchange_idle heap t spurious
      fun layout pos hsome => by rw [hcall] at hsome; cases hsome
    exact ⟨by rwa [next_of_none hres, hact], safe_of_none hres⟩
  · have hres : s.result heap (.exchange t spurious) =
        (s.allocator.bumpPass heap layout pos spurious).1.map fun ptr => ⟨ptr, layout, true⟩ := by
      unfold result
      dsimp only
      rw [hcall]
    have hact : s.act heap (.exchange t spurious) =
        { s with
          allocator := (s.allocator.bumpPass heap layout pos spurious).2
          calls := Function.update s.calls t
            (match (s.allocator.bumpPass heap layout pos spurious).1 with
            | some _ => none
            | none => some ⟨layout, none⟩) } := by
      unfold act
      dsimp only
      rw [hcall]
    rcases s.allocator.bumpPass_cases heap layout pos spurious h.pos_le with
      hp | hp | ⟨off, newPos, hp, halign, hlow, hend, hbound⟩
    · rw [hp] at hres hact
      refine ⟨?_, fun e he hne => ?_⟩
      · rw [next_of_some hres, finish, if_pos rfl, hact]
        exact h.withCalls _
      · rw [hres] at he
        cases he
        exact absurd rfl hne
    · rw [hp] at hres hact
      refine ⟨?_, safe_of_none hres⟩
      rw [next_of_none hres, hact]
      exact h.withCalls _
    · rw [hp] at hres hact
      constructor
      · rw [next_of_some hres, hact]
        exact (h.advance (by omega) hbound _).finish_early (Nat.le_of_eq hend)
      · intro e he _
        rw [hres] at he
        cases he
        exact ⟨halign, h.beside_early hlow (hend ▸ hbound)⟩

/-- A call of `dealloc` that keeps the early allocations. -/
theorem Inv.dealloc (h : s.Inv heap) (hkeep : s.KeepsEarly (.dealloc k)) :
    (s.next heap (.dealloc k)).Inv heap := by
  rw [next_of_none rfl]
  unfold act
  dsimp only
  split
  · rename_i e he
    have hmem : e ∈ s.live := List.mem_of_getElem? he
    have hsub : ∀ f ∈ s.live.eraseIdx k, f ∈ s.live := fun f hf => List.mem_of_mem_eraseIdx hf
    refine ⟨h.pos_le, fun f hf => h.early f (hsub f hf), fun f hf => h.late f (hsub f hf),
      h.outside, ?_⟩
    dsimp only
    rw [h.sound, Bool.false_or, given]
    split
    · rename_i hready
      have hin := h.late e hmem (hkeep hready k rfl e he)
      simp [hin]
    · rfl
  · exact h

/-- What `dealloc` passes on was returned, exactly if the allocation is not an early one. -/
theorem Inv.given_iff (h : s.Inv heap) {e : Allocation} (he : e ∈ s.live) :
    (∀ p ∈ s.given e, p ∈ s.returned) ↔ (s.allocator.heapReady = true → e.early = false) := by
  unfold given
  constructor
  · intro hgiven hready
    rw [if_pos hready] at hgiven
    cases hearly : e.early with
    | false => rfl
    | true => exact absurd (hgiven _ rfl) (h.not_returned he hearly)
  · intro hlate p hp
    split at hp
    · rename_i hready
      cases hp
      exact h.late e he (hlate hready)
    · cases hp

/-- A pointer that is returned is as claimed, and a step keeps the invariant if it keeps the early
allocations. -/
theorem Inv.step (h : s.Inv heap) (hsound : s.HeapSound heap a) :
    (s.KeepsEarly a → (s.next heap a).Inv heap) ∧
      ∀ e ∈ s.result heap a, e.ptr ≠ 0#64 →
        e.layout.align ∣ e.ptr.toNat ∧ ∀ f ∈ s.live, Disjoint e.range f.range := by
  cases a with
  | alloc t layout answer =>
      obtain ⟨hinv, hsafe⟩ := h.alloc hsound
      exact ⟨fun _ => hinv, hsafe⟩
  | load t => exact ⟨fun _ => h.load, safe_of_none rfl⟩
  | exchange t spurious =>
      obtain ⟨hinv, hsafe⟩ := @Inv.exchange heap s t h spurious
      exact ⟨fun _ => hinv, hsafe⟩
  | dealloc k => exact ⟨h.dealloc, safe_of_none rfl⟩
  | activate =>
      refine ⟨fun _ => ?_, safe_of_none rfl⟩
      rw [next_of_none rfl]
      exact ⟨h.pos_le, h.early, h.late, h.outside, h.sound⟩

/-- A step is safe exactly if it keeps the early allocations. -/
theorem Inv.switchSafe_iff (h : s.Inv heap) (hsound : s.HeapSound heap a) :
    s.SwitchSafe heap a ↔ s.KeepsEarly a := by
  constructor
  · rintro ⟨-, hgiven⟩ hready k hk e he
    exact (h.given_iff (List.mem_of_getElem? he)).1 (hgiven k hk e he) hready
  · intro hkeep
    refine ⟨(h.step hsound).2, fun k hk e he => ?_⟩
    exact (h.given_iff (List.mem_of_getElem? he)).2 fun hready => hkeep hready k hk e he

end Step

end AllocRun

/-! ### The claim -/

open AllocRun

/-- As long as the `HeapAllocator` does what it is relied on for, a run is safe exactly if no
allocation of the bump allocator is freed after the switch. -/
theorem switch_safe_iff (heap : HeapStorage) (steps : List AllocStep)
    (hsound : Runs.Along (AllocRun.next heap) (HeapSound heap) AllocRun.new steps) :
    Runs.Along (AllocRun.next heap) (SwitchSafe heap) AllocRun.new steps ↔
      Runs.Along (AllocRun.next heap) KeepsEarly AllocRun.new steps :=
  Runs.along_iff (fun _ _ h hs => h.switchSafe_iff hs) (fun _ _ h hs => (h.step hs).1) inv_new
    hsound

/-- A static heap at `0x4000_0000`. -/
def exampleHeap : HeapStorage := ⟨0x40000000#64, by decide⟩

/-- `Layout::from_size_align(8, 8)`. -/
def exampleLayout : KernelLayout := ⟨⟨8, 8, isPowerOfTwo_eight, by decide⟩, by decide⟩

/-- An allocation before the switch and one after it, of which the second is freed. -/
theorem switch_safe_late :
    Runs.Along (AllocRun.next exampleHeap) (SwitchSafe exampleHeap) AllocRun.new
      [.alloc 0 exampleLayout 0#64, .load 0, .exchange 0 false, .activate,
        .alloc 1 exampleLayout 0x50000000#64, .dealloc 0] := by
  have hapart : Disjoint (region 0x50000000#64 8) exampleHeap.range :=
    (@disjoint_region_offset 64 exampleHeap.base 0 kernelHeapSize 0x10000000 8 (by decide)
      (by decide)).symm
  refine (switch_safe_iff exampleHeap [.alloc 0 exampleLayout 0#64, .load 0, .exchange 0 false,
    .activate, .alloc 1 exampleLayout 0x50000000#64, .dealloc 0]
    ⟨heapSound_of_none rfl, heapSound_of_none rfl, heapSound_of_early rfl rfl,
      heapSound_of_none rfl, ?_, heapSound_of_none rfl, trivial⟩).2
    ⟨(fun _ _ hk => by cases hk), (fun _ _ hk => by cases hk), (fun _ _ hk => by cases hk),
      (fun _ _ hk => by cases hk), (fun _ _ hk => by cases hk), ?_, trivial⟩
  · intro _ e he _ _
    cases he
    refine ⟨by decide, hapart, fun f hf hearly => ?_⟩
    cases hf with
    | head => cases hearly
    | tail _ hf => cases hf
  · intro _ k hk e he
    cases hk
    cases he
    rfl

/-- An allocation made before the switch and freed after it: the `HeapAllocator` is given a pointer
that it has not returned. -/
theorem switch_frees_early :
    let steps : List AllocStep :=
      [.alloc 0 exampleLayout 0#64, .load 0, .exchange 0 false, .activate, .dealloc 0]
    Runs.Along (AllocRun.next exampleHeap) (HeapSound exampleHeap) AllocRun.new steps ∧
      ¬Runs.Along (AllocRun.next exampleHeap) (SwitchSafe exampleHeap) AllocRun.new steps := by
  refine ⟨⟨heapSound_of_none rfl, heapSound_of_none rfl, heapSound_of_early rfl rfl,
    heapSound_of_none rfl, heapSound_of_none rfl, trivial⟩, fun h => ?_⟩
  have hgiven := h.2.2.2.2.1.2 0 rfl ⟨0x40000000#64, exampleLayout, true⟩ rfl
  cases hgiven (0x40000000#64, exampleLayout) rfl

end StarOS
