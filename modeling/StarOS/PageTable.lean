/-
The data of the four-level page tables (`memory/virtual_mem.rs`): virtual addresses, access flags,
entries and tables.

An entry is one word.  Bits 12 to 47 hold the address of a page, the bits below and above hold
flags, and both are stored by an unchecked `|`; the lemmas say what is read back, and from which
bits.

* `StarOS.VirtAddr`, `StarOS.VirtAddr.tableIndex` — virtual addresses and their index at a level;
* `StarOS.VirtAddr.page`, `StarOS.VirtAddr.page_eq_iff` — the page of an address is its four
  indices;
* `StarOS.Flags`, `StarOS.validateWx` — access flags and the W^X check;
* `StarOS.PageTableEntry`, `StarOS.PageTable` — entries and tables;
* `StarOS.PageTableEntry.setAddr_physAddr`, `StarOS.PageTableEntry.setFlags_eq_setAddr` — an address
  that fits is read back, and new flags leave it;
* `StarOS.PageTableEntry.wxSafe_setAddr`, `StarOS.PageTableEntry.wxSafe_setFlags` — checked flags
  give an entry that is not both writable and executable, whatever the address bits are;
* `StarOS.page_entry_round_trip_iff` — the flags that are read back: all but those with `DIRTY`,
  whose bit neither `flags` nor `phys_addr` reads.
-/

import StarOS.Physical
import StarOS.Runs

set_option autoImplicit false

namespace StarOS

/-! ### Virtual addresses -/

/-- A virtual address. -/
structure VirtAddr where
  /-- `as_usize`. -/
  addr : Usize
  deriving DecidableEq, Repr

/-- The number of entries of a page table. -/
def tableEntries : ℕ := 512

namespace VirtAddr

/-- `VirtAddr::new`: masks to 48 bits. -/
def new (addr : Usize) : VirtAddr := ⟨addr &&& 0xFFFFFFFFFFFF#64⟩

/-- `VirtAddr::is_aligned`. -/
def isAligned (v : VirtAddr) : Bool := v.addr.toNat % pageSize == 0

/-- `VirtAddr::page_offset`. -/
def pageOffset (v : VirtAddr) : Usize := v.addr &&& BitVec.ofNat 64 (pageSize - 1)

/-- `VirtAddr::table_index`, the index of the address in its table at a level. -/
def tableIndex (v : VirtAddr) (level : ℕ) : Usize :=
  let shift := 12 + (3 - level) * 9
  (v.addr >>> shift) &&& 0x1FF#64

/-- `VirtAddr::align_down`. -/
def alignDown (v : VirtAddr) : VirtAddr := ⟨v.addr &&& ~~~BitVec.ofNat 64 (pageSize - 1)⟩

/-- The page of an address, bits 12 to 47. -/
def page (v : VirtAddr) : BitVec 36 := v.addr.extractLsb' 12 36

theorem tableIndex_toNat (v : VirtAddr) (level : ℕ) :
    (v.tableIndex level).toNat = v.addr.toNat / 2 ^ (12 + (3 - level) * 9) % 2 ^ 9 := by
  have hmask : (0x1FF#64 : Usize).toNat = 2 ^ 9 - 1 := rfl
  rw [tableIndex, BitVec.toNat_and, BitVec.toNat_ushiftRight, hmask,
    Nat.and_two_pow_sub_one_eq_mod, Nat.shiftRight_eq_div_pow]

theorem tableIndex_lt (v : VirtAddr) (level : ℕ) : (v.tableIndex level).toNat < tableEntries := by
  rw [tableIndex_toNat]
  exact Nat.mod_lt _ (by decide)

/-- The index at a level as an index of a table. -/
def index (v : VirtAddr) (level : ℕ) : Fin tableEntries :=
  ⟨(v.tableIndex level).toNat, v.tableIndex_lt level⟩

/-- The indices at the levels below `level`, from the root down. -/
def path (v : VirtAddr) (level : ℕ) : List (Fin tableEntries) := (List.range level).map v.index

@[simp] theorem path_length (v : VirtAddr) (level : ℕ) : (v.path level).length = level := by
  rw [path, List.length_map, List.length_range]

@[simp] theorem path_zero (v : VirtAddr) : v.path 0 = [] := rfl

theorem path_succ (v : VirtAddr) (level : ℕ) :
    v.path (level + 1) = v.path level ++ [v.index level] := by
  rw [path, List.range_succ, List.map_append]
  rfl

/-- A longer path goes on from a shorter one. -/
theorem path_add (v : VirtAddr) (level n : ℕ) :
    v.path (level + n) = v.path level ++ (List.range n).map fun k => v.index (level + k) := by
  rw [path, List.range_add, List.map_append, List.map_map]
  rfl

theorem page_toNat (v : VirtAddr) : v.page.toNat = v.addr.toNat / 2 ^ 12 % 2 ^ 36 := by
  rw [page, BitVec.extractLsb'_toNat, Nat.shiftRight_eq_div_pow]

/-- Two addresses are in the same page exactly when they have the same indices. -/
theorem page_eq_iff {v w : VirtAddr} :
    v.page = w.page ↔ v.path 3 = w.path 3 ∧ v.index 3 = w.index 3 := by
  have hindex : ∀ l, v.index l = w.index l ↔
      v.addr.toNat / 2 ^ (12 + (3 - l) * 9) % 2 ^ 9 =
        w.addr.toNat / 2 ^ (12 + (3 - l) * 9) % 2 ^ 9 := by
    intro l
    rw [← tableIndex_toNat, ← tableIndex_toNat]
    exact Fin.ext_iff
  have hpath : v.path 3 = w.path 3 ↔
      v.index 0 = w.index 0 ∧ v.index 1 = w.index 1 ∧ v.index 2 = w.index 2 := by
    have hlist : ∀ u : VirtAddr, u.path 3 = [u.index 0, u.index 1, u.index 2] := fun _ => rfl
    rw [hlist, hlist]
    simp only [List.cons.injEq, and_true]
  rw [hpath, hindex, hindex, hindex, hindex, BitVec.toNat_inj.symm, page_toNat, page_toNat]
  -- the page number, written to base 512
  omega

/-- Rounding down to a page does not change the indices. -/
theorem alignDown_toNat (v : VirtAddr) :
    v.alignDown.addr.toNat / 2 ^ 12 = v.addr.toNat / 2 ^ 12 := by
  rw [← Nat.shiftRight_eq_div_pow, ← Nat.shiftRight_eq_div_pow, ← BitVec.toNat_ushiftRight,
    ← BitVec.toNat_ushiftRight]
  congr 1
  refine BitVec.eq_of_getLsbD_eq fun i _ => ?_
  have hmask : ∀ j, 12 ≤ j → (BitVec.ofNat 64 (pageSize - 1)).getLsbD j = false := by
    intro j hj
    have hlt : pageSize - 1 < 2 ^ j := by
      calc pageSize - 1 < 2 ^ 12 := by decide
        _ ≤ 2 ^ j := Nat.pow_le_pow_right (by decide) hj
    rw [BitVec.getLsbD_ofNat, Nat.testBit_lt_two_pow hlt, Bool.and_false]
  rw [BitVec.getLsbD_ushiftRight, BitVec.getLsbD_ushiftRight, alignDown, BitVec.getLsbD_and,
    BitVec.getLsbD_not, hmask _ (by omega)]
  by_cases hi : 12 + i < 64
  · simp [hi]
  · simp [BitVec.getLsbD_of_ge v.addr (12 + i) (by omega)]

theorem index_alignDown (v : VirtAddr) (level : ℕ) : v.alignDown.index level = v.index level := by
  refine Fin.ext ?_
  change (v.alignDown.tableIndex level).toNat = (v.tableIndex level).toNat
  rw [tableIndex_toNat, tableIndex_toNat, Nat.pow_add, ← Nat.div_div_eq_div_mul,
    ← Nat.div_div_eq_div_mul, alignDown_toNat]

end VirtAddr

/-! ### Flags -/

/-- Memory access flags. -/
structure Flags where
  /-- `bits`. -/
  bits : Usize
  deriving DecidableEq, Repr

namespace Flags

/-- `Flags::NONE`. -/
def none : Flags := ⟨0#64⟩

/-- `Flags::VALID`: the entry is valid. -/
def valid : Flags := ⟨1#64 <<< 0⟩

/-- `Flags::TABLE`: the entry is a table, not a block. -/
def table : Flags := ⟨1#64 <<< 1⟩

/-- `Flags::USER`. -/
def user : Flags := ⟨1#64 <<< 6⟩

/-- `Flags::READ_ONLY`. -/
def readOnly : Flags := ⟨1#64 <<< 7⟩

/-- `Flags::ACCESSED`. -/
def accessed : Flags := ⟨1#64 <<< 10⟩

/-- `Flags::DIRTY`. -/
def dirty : Flags := ⟨1#64 <<< 51⟩

/-- `Flags::COW`. -/
def cow : Flags := ⟨1#64 <<< 52⟩

/-- `Flags::EXECUTE`. -/
def execute : Flags := ⟨1#64 <<< 53⟩

/-- `Flags::contains`. -/
def contains (f other : Flags) : Bool := (f.bits &&& other.bits) == other.bits

/-- `Flags::union`. -/
def union (f other : Flags) : Flags := ⟨f.bits ||| other.bits⟩

/-- `Flags::remove`. -/
def remove (f other : Flags) : Flags := ⟨f.bits &&& ~~~other.bits⟩

/-- The unions of the declared constants. -/
inductive Declared : Flags → Prop
  | const {f : Flags} :
      f ∈ [none, valid, table, user, readOnly, accessed, dirty, cow, execute] → Declared f
  | union {f g : Flags} : Declared f → Declared g → Declared (f.union g)

/-- A flag of one bit is contained exactly when the bit is set. -/
theorem contains_bit (f : Flags) {i : ℕ} (hi : i < 64) :
    f.contains ⟨1#64 <<< i⟩ = f.bits.getLsbD i := by
  have hbit : ∀ j, (f.bits &&& (1#64 <<< i)).getLsbD j = (f.bits.getLsbD j && decide (j = i)) := by
    intro j
    rw [BitVec.getLsbD_and, getLsbD_one_shiftLeft hi]
  rw [contains, Bool.eq_iff_iff, beq_iff_eq]
  constructor
  · intro h
    have := hbit i
    rw [h, getLsbD_one_shiftLeft hi] at this
    simpa using this.symm
  · intro h
    refine BitVec.eq_of_getLsbD_eq fun j _ => ?_
    rw [hbit, getLsbD_one_shiftLeft hi]
    by_cases hj : j = i
    · rw [hj, h, Bool.true_and]
    · rw [decide_eq_false hj, Bool.and_false]

end Flags

/-- `validate_wx`: a page cannot be both writable and executable. -/
def validateWx (flags : Flags) : Except KernelError Unit :=
  let writable := !flags.contains Flags.readOnly
  let executable := flags.contains Flags.execute
  if writable && executable then .error (.security .permissionDenied) else .ok ()

theorem validateWx_eq_ok {flags : Flags} :
    validateWx flags = .ok () ↔
      flags.contains Flags.execute = false ∨ flags.contains Flags.readOnly = true := by
  unfold validateWx
  cases flags.contains Flags.execute <;> cases flags.contains Flags.readOnly <;> simp

theorem validateWx_error {flags : Flags} {e : KernelError} (h : validateWx flags = .error e) :
    e = .security .permissionDenied := by
  unfold validateWx at h
  dsimp only at h
  split at h
  · exact (Except.error.inj h).symm
  · exact absurd h (by simp)

/-! ### Entries -/

/-- A page table entry. -/
structure PageTableEntry where
  /-- `raw`. -/
  raw : Usize
  deriving DecidableEq, Repr

/-- The bits of an entry that hold an address. -/
def addrMask : Usize := 0x0000FFFFFFFFF000#64

/-- The bits of an entry that `flags` reads. -/
def flagsMask : Usize := 0xFFF0000000000FFF#64

namespace PageTableEntry

/-- `PageTableEntry::new`. -/
def new : PageTableEntry := ⟨0#64⟩

/-- `PageTableEntry::is_valid`. -/
def isValid (e : PageTableEntry) : Bool := (e.raw &&& Flags.valid.bits) != 0#64

/-- `PageTableEntry::is_table`. -/
def isTable (e : PageTableEntry) : Bool := (e.raw &&& Flags.table.bits) != 0#64

/-- `PageTableEntry::is_block`. -/
def isBlock (e : PageTableEntry) : Bool := e.isValid && !e.isTable

/-- `PageTableEntry::flags`. -/
def flags (e : PageTableEntry) : Flags := ⟨e.raw &&& flagsMask⟩

/-- `PageTableEntry::phys_addr`. -/
def physAddr (e : PageTableEntry) : PhysAddr := ⟨e.raw &&& addrMask⟩

/-- `PageTableEntry::set_addr`. -/
def setAddr (_ : PageTableEntry) (addr : PhysAddr) (flags : Flags) : PageTableEntry :=
  ⟨(addr.addr &&& addrMask) ||| flags.bits⟩

/-- `PageTableEntry::set_flags`. -/
def setFlags (e : PageTableEntry) (flags : Flags) : PageTableEntry :=
  ⟨(e.raw &&& addrMask) ||| flags.bits⟩

/-- `PageTableEntry::clear`. -/
def clear (_ : PageTableEntry) : PageTableEntry := ⟨0#64⟩

theorem isValid_eq (e : PageTableEntry) : e.isValid = e.raw.getLsbD 0 := testBit_eq (by decide)

theorem isTable_eq (e : PageTableEntry) : e.isTable = e.raw.getLsbD 1 := testBit_eq (by decide)

@[simp] theorem isValid_clear (e : PageTableEntry) : e.clear.isValid = false := by
  rw [isValid_eq, clear, BitVec.getLsbD_zero]

/-- New flags keep the address that is there. -/
theorem setFlags_eq_setAddr (e : PageTableEntry) (f : Flags) :
    e.setFlags f = e.setAddr e.physAddr f := by
  rw [setFlags, setAddr, physAddr, BitVec.and_assoc, BitVec.and_self]

end PageTableEntry

theorem addrMask_getLsbD {i : ℕ} (hi : i < 64) :
    addrMask.getLsbD i = decide (12 ≤ i ∧ i < 48) := by
  have h : ∀ i < 64, addrMask.getLsbD i = decide (12 ≤ i ∧ i < 48) := by decide +kernel
  exact h i hi

/-- An address whose bits an entry can hold: page-aligned and below `2 ^ 48`. -/
def PhysAddr.Fits (a : PhysAddr) : Prop := a.addr &&& addrMask = a.addr

theorem PhysAddr.fits_of_aligned {a : PhysAddr} (ha : a.isAligned = true)
    (hlt : a.addr.toNat < 2 ^ 48) : a.Fits := by
  have hmod : a.addr.toNat % 2 ^ 12 = 0 := by simpa [PhysAddr.isAligned, pageSize] using ha
  refine BitVec.eq_of_getLsbD_eq fun i hi => ?_
  rw [BitVec.getLsbD_and, addrMask_getLsbD hi]
  by_cases h12 : 12 ≤ i
  · by_cases h48 : i < 48
    · rw [decide_eq_true ⟨h12, h48⟩, Bool.and_true]
    · have hbit : a.addr.getLsbD i = false := by
        refine Nat.testBit_lt_two_pow (lt_of_lt_of_le hlt ?_)
        exact Nat.pow_le_pow_right (by decide) (by omega)
      rw [hbit, Bool.false_and]
  · have hbit : a.addr.getLsbD i = false := by
      have hlow := Nat.testBit_mod_two_pow a.addr.toNat 12 i
      rw [hmod, Nat.zero_testBit, decide_eq_true (by omega), Bool.true_and] at hlow
      exact hlow.symm
    rw [hbit, Bool.false_and]

namespace Flags

/-- No bit of the flags lies where an entry holds its address. -/
def Apart (f : Flags) : Prop := f.bits &&& addrMask = 0#64

theorem Apart.union {f g : Flags} (hf : f.Apart) (hg : g.Apart) : (f.union g).Apart := by
  rw [Apart, Flags.union, BitVec.and_or_distrib_right, hf, hg, BitVec.or_zero]

theorem apart_valid : valid.Apart := by unfold Apart; decide

theorem apart_table : table.Apart := by unfold Apart; decide

/-- The declared flags stay off the address. -/
theorem Declared.apart {f : Flags} (h : f.Declared) : f.Apart := by
  induction h with
  | const hf =>
      have hall : ∀ g ∈ [none, valid, table, user, readOnly, accessed, dirty, cow, execute],
          g.bits &&& addrMask = 0#64 := by decide
      exact hall _ hf
  | union _ _ ihf ihg => exact ihf.union ihg

/-- All bits of the flags are read by `flags`. -/
def Kept (f : Flags) : Prop := f.bits &&& flagsMask = f.bits

theorem kept_iff_bits {f : Flags} :
    f.Kept ↔ ∀ i, f.bits.getLsbD i = true → flagsMask.getLsbD i = true := by
  constructor
  · intro h i hi
    rw [← h, BitVec.getLsbD_and, Bool.and_eq_true] at hi
    exact hi.2
  · intro h
    refine BitVec.eq_of_getLsbD_eq fun i _ => ?_
    rw [BitVec.getLsbD_and]
    cases hi : f.bits.getLsbD i with
    | false => rfl
    | true => rw [h i hi, Bool.and_self]

theorem kept_union {f g : Flags} : (f.union g).Kept ↔ f.Kept ∧ g.Kept := by
  simp only [kept_iff_bits, Flags.union, BitVec.getLsbD_or, Bool.or_eq_true]
  exact ⟨fun h => ⟨fun i hi => h i (.inl hi), fun i hi => h i (.inr hi)⟩,
    fun h i hi => hi.elim (h.1 i) (h.2 i)⟩

/-- Of the declared flags, `DIRTY` alone is not read. -/
theorem Declared.kept_iff {f : Flags} (h : f.Declared) :
    f.Kept ↔ f.contains Flags.dirty = false := by
  induction h with
  | const hf =>
      have hall : ∀ g ∈ [none, valid, table, user, readOnly, accessed, dirty, cow, execute],
          (g.bits &&& flagsMask = g.bits) = (g.contains Flags.dirty = false) := by decide
      exact Iff.of_eq (hall _ hf)
  | @union f g _ _ ihf ihg =>
      have hbits : (f.union g).contains Flags.dirty =
          (f.contains Flags.dirty || g.contains Flags.dirty) := by
        rw [Flags.dirty, contains_bit _ (by decide), contains_bit _ (by decide),
          contains_bit _ (by decide), Flags.union, BitVec.getLsbD_or]
      rw [kept_union, ihf, ihg, hbits, Bool.or_eq_false_iff]

end Flags

namespace PageTableEntry

/-- An address that fits is read back from the entry it was stored in. -/
theorem setAddr_physAddr (e : PageTableEntry) {a : PhysAddr} {f : Flags} (ha : a.Fits)
    (hf : f.Apart) : (e.setAddr a f).physAddr = a := by
  have haddr : ((a.addr &&& addrMask) ||| f.bits) &&& addrMask = a.addr := by
    rw [BitVec.and_or_distrib_right, hf, BitVec.or_zero, ha, ha]
  rw [setAddr, physAddr, haddr]

/-- Outside the address, an entry has the bits of its flags. -/
theorem setAddr_getLsbD (e : PageTableEntry) (a : PhysAddr) (f : Flags) {i : ℕ} (hi : i < 64)
    (hout : ¬ (12 ≤ i ∧ i < 48)) : (e.setAddr a f).raw.getLsbD i = f.bits.getLsbD i := by
  rw [setAddr, BitVec.getLsbD_or, BitVec.getLsbD_and, addrMask_getLsbD hi, decide_eq_false hout,
    Bool.and_false, Bool.false_or]

/-- An entry stored with the flag `VALID` is valid. -/
@[simp] theorem isValid_setAddr (e : PageTableEntry) (a : PhysAddr) (f : Flags) :
    (e.setAddr a (f.union Flags.valid)).isValid = true := by
  rw [isValid_eq, setAddr_getLsbD e a _ (by decide) (by decide), Flags.union, BitVec.getLsbD_or,
    Flags.valid, getLsbD_one_shiftLeft (by decide), decide_eq_true rfl, Bool.or_true]

/-- An entry stored with the flag `TABLE` is a table. -/
theorem isTable_setAddr (e : PageTableEntry) (a : PhysAddr) (f : Flags) :
    (e.setAddr a (Flags.table.union f)).isTable = true := by
  rw [isTable_eq, setAddr_getLsbD e a _ (by decide) (by decide), Flags.union, BitVec.getLsbD_or,
    Flags.table, getLsbD_one_shiftLeft (by decide), decide_eq_true rfl, Bool.true_or]

/-! ### Entries that are read back -/

/-- An address and flags are read from the entry. -/
structure ReadsBack (e : PageTableEntry) (a : PhysAddr) (f : Flags) : Prop where
  physAddr : e.physAddr = a
  flags : e.flags = f

theorem physAddr_fits (e : PageTableEntry) : e.physAddr.Fits := by
  rw [PhysAddr.Fits, physAddr, BitVec.and_assoc, BitVec.and_self]

theorem readsBack_setAddr_iff (e : PageTableEntry) {a : PhysAddr} (ha : a.Fits) (f : Flags) :
    (e.setAddr a f).ReadsBack a f ↔ f.Kept := by
  have hmasks : addrMask &&& flagsMask = 0#64 := by decide
  have hread : (e.setAddr a f).flags = ⟨f.bits &&& flagsMask⟩ := by
    rw [setAddr, flags, BitVec.and_or_distrib_right, BitVec.and_assoc, hmasks, BitVec.and_zero,
      BitVec.zero_or]
  constructor
  · intro h
    exact congrArg Flags.bits (hread.symm.trans h.flags)
  · intro h
    -- flags that are kept are off the address
    have hapart : f.Apart := by
      rw [Flags.Apart, ← h, BitVec.and_assoc, BitVec.and_comm flagsMask, hmasks, BitVec.and_zero]
    exact ⟨setAddr_physAddr e ha hapart, hread.trans (congrArg Flags.mk h)⟩

theorem readsBack_setFlags_iff {e : PageTableEntry} {a : PhysAddr} (h : e.physAddr = a)
    (g : Flags) : (e.setFlags g).ReadsBack a g ↔ g.Kept := by
  rw [setFlags_eq_setAddr, h]
  exact readsBack_setAddr_iff e (h ▸ e.physAddr_fits) g

/-- New flags one after the other. -/
theorem along_readsBack_iff {e : PageTableEntry} {a : PhysAddr} (h : e.physAddr = a)
    (gs : List Flags) :
    Runs.Along setFlags (fun e g => (e.setFlags g).ReadsBack a g) e gs ↔ ∀ g ∈ gs, g.Kept := by
  induction gs generalizing e with
  | nil => exact iff_of_true trivial fun g hg => absurd hg List.not_mem_nil
  | cons g gs ih =>
      rw [List.forall_mem_cons]
      constructor
      · rintro ⟨hread, hrest⟩
        exact ⟨(readsBack_setFlags_iff h g).1 hread, (ih hread.physAddr).1 hrest⟩
      · rintro ⟨hkept, hrest⟩
        have hread := (readsBack_setFlags_iff h g).2 hkept
        exact ⟨hread, (ih hread.physAddr).2 hrest⟩

/-! ### W^X of an entry -/

/-- The page of the entry is not executable, or it is read-only. -/
def WxSafe (e : PageTableEntry) : Prop :=
  e.flags.contains Flags.execute = false ∨ e.flags.contains Flags.readOnly = true

/-- The two flags of the check lie outside the address and inside what `flags` reads. -/
theorem wxSafe_iff {e : PageTableEntry} :
    e.WxSafe ↔ e.raw.getLsbD 53 = false ∨ e.raw.getLsbD 7 = true := by
  have hflags : ∀ i, flagsMask.getLsbD i = true → e.flags.bits.getLsbD i = e.raw.getLsbD i := by
    intro i hi
    rw [flags, BitVec.getLsbD_and, hi, Bool.and_true]
  rw [WxSafe, Flags.execute, Flags.readOnly, Flags.contains_bit _ (by decide),
    Flags.contains_bit _ (by decide), hflags 53 (by decide), hflags 7 (by decide)]

/-- Flags that pass the check make an entry that is not both writable and executable. -/
theorem wxSafe_setAddr (e : PageTableEntry) (a : PhysAddr) {f : Flags}
    (h : validateWx f = .ok ()) : (e.setAddr a (f.union Flags.valid)).WxSafe := by
  have hbit : ∀ i, i < 64 → ¬ (12 ≤ i ∧ i < 48) → i ≠ 0 →
      (e.setAddr a (f.union Flags.valid)).raw.getLsbD i = f.bits.getLsbD i := by
    intro i hi hout h0
    rw [setAddr_getLsbD e a _ hi hout, Flags.union, BitVec.getLsbD_or, Flags.valid,
      getLsbD_one_shiftLeft (by decide), decide_eq_false h0, Bool.or_false]
  rw [wxSafe_iff, hbit 53 (by decide) (by decide) (by decide),
    hbit 7 (by decide) (by decide) (by decide)]
  rw [validateWx_eq_ok, Flags.execute, Flags.readOnly, Flags.contains_bit f (by decide),
    Flags.contains_bit f (by decide)] at h
  exact h

theorem wxSafe_setFlags (e : PageTableEntry) {f : Flags} (h : validateWx f = .ok ()) :
    (e.setFlags (f.union Flags.valid)).WxSafe := by
  rw [setFlags_eq_setAddr]
  exact wxSafe_setAddr e _ h

end PageTableEntry

/-- **Which flags are read back.**  An address and flags are read from the entry that they were
stored in, and after any further calls of `set_flags`, exactly if all bits of the flags are among
those that `flags` reads; for declared flags, if `DIRTY` is not one of them. -/
theorem page_entry_round_trip_iff (e : PageTableEntry) {a : PhysAddr} (ha : a.isAligned = true)
    (hlt : a.addr.toNat < 2 ^ 48) :
    (∀ (f : Flags) (gs : List Flags),
      ((e.setAddr a f).ReadsBack a f ∧
        Runs.Along PageTableEntry.setFlags (fun e g => (e.setFlags g).ReadsBack a g)
          (e.setAddr a f) gs) ↔ f.Kept ∧ ∀ g ∈ gs, g.Kept) ∧
      ∀ f : Flags, f.Declared → (f.Kept ↔ f.contains Flags.dirty = false) := by
  refine ⟨fun f gs => ?_, fun f hf => hf.kept_iff⟩
  have hfirst := PageTableEntry.readsBack_setAddr_iff e (PhysAddr.fits_of_aligned ha hlt) f
  constructor
  · rintro ⟨hread, hrest⟩
    exact ⟨hfirst.1 hread, (PageTableEntry.along_readsBack_iff hread.physAddr gs).1 hrest⟩
  · rintro ⟨hkept, hrest⟩
    have hread := hfirst.2 hkept
    exact ⟨hread, (PageTableEntry.along_readsBack_iff hread.physAddr gs).2 hrest⟩

/-- A page and the flags for reading and writing by the kernel, then also for reading only. -/
theorem page_entry_round_trip_kernel :
    (((PageTableEntry.new.setAddr ⟨0x80000000#64⟩ Flags.valid).ReadsBack ⟨0x80000000#64⟩
        Flags.valid ∧
      Runs.Along PageTableEntry.setFlags (fun e g => (e.setFlags g).ReadsBack ⟨0x80000000#64⟩ g)
        (PageTableEntry.new.setAddr ⟨0x80000000#64⟩ Flags.valid)
        [Flags.valid.union Flags.readOnly]) ↔
      Flags.valid.Kept ∧ ∀ g ∈ [Flags.valid.union Flags.readOnly], g.Kept) ∧
      (Flags.valid.Kept ↔ Flags.valid.contains Flags.dirty = false) := by
  have h := page_entry_round_trip_iff PageTableEntry.new (a := ⟨0x80000000#64⟩) (by decide)
    (by decide)
  exact ⟨h.1 _ _, h.2 _ (.const (by decide))⟩

/-- The flag `DIRTY` is stored and not read. -/
theorem page_entry_dirty_lost :
    Flags.dirty.Declared ∧ (⟨0x80000000#64⟩ : PhysAddr).isAligned = true ∧
      (PageTableEntry.new.setAddr ⟨0x80000000#64⟩ Flags.dirty).raw = 0x8000080000000#64 ∧
        (PageTableEntry.new.setAddr ⟨0x80000000#64⟩ Flags.dirty).flags = Flags.none ∧
          ¬ (PageTableEntry.new.setAddr ⟨0x80000000#64⟩ Flags.dirty).ReadsBack ⟨0x80000000#64⟩
            Flags.dirty :=
  ⟨.const (by decide), by decide, by decide, by decide,
    fun h => absurd (congrArg Flags.bits h.flags) (by decide)⟩

/-! ### Tables -/

/-- A page table: 512 entries. -/
structure PageTable where
  /-- `entries`. -/
  entries : Fin tableEntries → PageTableEntry

namespace PageTable

/-- `PageTable::new`: all entries invalid. -/
def new : PageTable := ⟨fun _ => PageTableEntry.new⟩

/-- `PageTable::entry`, and the entry that `entry_mut` gives access to. -/
def entry (t : PageTable) (index : Usize) : Option PageTableEntry :=
  if h : index.toNat < tableEntries then some (t.entries ⟨index.toNat, h⟩) else none

/-- Writing through the reference that `PageTable::entry_mut` returns. -/
def setEntry (t : PageTable) (index : Usize) (e : PageTableEntry) : PageTable :=
  if h : index.toNat < tableEntries then ⟨Function.update t.entries ⟨index.toNat, h⟩ e⟩ else t

/-- `PageTable::clear`. -/
def clear (t : PageTable) : PageTable := ⟨fun i => (t.entries i).clear⟩

@[simp] theorem clear_entries (t : PageTable) (i : Fin tableEntries) :
    t.clear.entries i = (t.entries i).clear := rfl

/-- The index of an address is always in bounds. -/
@[simp] theorem entry_tableIndex (t : PageTable) (v : VirtAddr) (level : ℕ) :
    t.entry (v.tableIndex level) = some (t.entries (v.index level)) := by
  rw [entry, dif_pos (v.tableIndex_lt level)]
  rfl

@[simp] theorem setEntry_tableIndex (t : PageTable) (v : VirtAddr) (level : ℕ)
    (e : PageTableEntry) :
    t.setEntry (v.tableIndex level) e = ⟨Function.update t.entries (v.index level) e⟩ := by
  rw [setEntry, dif_pos (v.tableIndex_lt level)]
  rfl

end PageTable

end StarOS
