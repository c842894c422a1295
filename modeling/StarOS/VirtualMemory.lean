/-
The virtual memory manager (`memory/virtual_mem.rs`): `map`, `unmap`, `translate` and `protect` over
a four-level tree of page tables.

The tables are pages of memory that the physical allocator hands out, and a walk follows addresses
stored in entries, so that nothing but an invariant keeps two walks from meeting.  The invariant is
that the tables form a tree without sharing down to the last level, that none of them is a free page
of the allocator, and that every valid entry above the last level points to a table.  The operations
are then described by what they do to the *leaves*, the valid entries of the tables of the last
level: creating tables changes none, and each operation changes at most one.

The barriers and TLB instructions of the code are left out; they change no table.

* `StarOS.VirtualMemory` — the root, the allocator, and memory read as page tables;
* `StarOS.VirtualMemory.map`, `StarOS.VirtualMemory.unmap`, `StarOS.VirtualMemory.translate`,
  `StarOS.VirtualMemory.protect` — the operations;
* `StarOS.VirtualMemory.leafAt` — the leaf of a virtual address;
* `StarOS.VirtualMemory.Tree` — the invariant;
* `StarOS.VirtualMemory.Tree.hang`, `StarOS.VirtualMemory.Tree.withLeaf` — it survives a new table
  and a new leaf;
* `StarOS.VirtualMemory.Tree.mapWalk` — what the walk of `map` does;
* `StarOS.VirtualMemory.Tree.map_cases`, `StarOS.VirtualMemory.Tree.unmap_cases`,
  `StarOS.VirtualMemory.Tree.protect_cases`, `StarOS.VirtualMemory.Tree.translate_eq` — what each
  operation does, in terms of leaves.
-/

import StarOS.PageTable
import StarOS.PhysicalPages
import StarOS.Radix

set_option autoImplicit false

namespace StarOS

/-- The virtual memory manager with what its pointers lead to: the allocator, and the page table
that starts at each address. -/
structure VirtualMemory where
  /-- `root_table`. -/
  rootTable : PhysAddr
  /-- The physical allocator. -/
  allocator : PhysicalAllocator
  /-- Memory, read as page tables. -/
  tables : PhysAddr → PageTable

namespace VirtualMemory

/-! ### The operations -/

/-- Writing a table to memory. -/
def setTable (vm : VirtualMemory) (addr : PhysAddr) (t : PageTable) : VirtualMemory :=
  { vm with tables := Function.update vm.tables addr t }

/-- Writing an entry of the table at an address. -/
def setEntry (vm : VirtualMemory) (addr : PhysAddr) (index : Usize) (e : PageTableEntry) :
    VirtualMemory :=
  vm.setTable addr ((vm.tables addr).setEntry index e)

/-- What `map` does where a table is missing, once the allocator has granted `new_table_phys`: clear
the new table and set the entry to point to it. -/
def newTable (vm : VirtualMemory) (addr : PhysAddr) (index : Usize) (entry : PageTableEntry)
    (newTablePhys : PhysAddr) : VirtualMemory :=
  (vm.setTable newTablePhys (vm.tables newTablePhys).clear).setEntry addr index
    (entry.setAddr newTablePhys (Flags.table.union Flags.valid))

/-- The loop of `map`, with `n` levels left from `level` on: walks the tables and creates the
missing ones. -/
def mapWalk (vm : VirtualMemory) (virt : VirtAddr) :
    ℕ → ℕ → PhysAddr → Except KernelError PhysAddr × VirtualMemory
  | 0, _, current => (.ok current, vm)
  | n + 1, level, current =>
      let index := virt.tableIndex level
      match (vm.tables current).entry index with
      | none => (.error (.memory .invalidAddress), vm)
      | some entry =>
          if entry.isValid then mapWalk vm virt n (level + 1) entry.physAddr
          else
            match vm.allocator.allocPage with
            | (.error e, allocator) => (.error e, { vm with allocator := allocator })
            | (.ok newTablePhys, allocator) =>
                mapWalk
                  (({ vm with allocator := allocator } : VirtualMemory).newTable current index
                    entry newTablePhys) virt n (level + 1)
                  (entry.setAddr newTablePhys (Flags.table.union Flags.valid)).physAddr

/-- `map`. -/
def map (vm : VirtualMemory) (virt : VirtAddr) (phys : PhysAddr) (flags : Flags) :
    Except KernelError Unit × VirtualMemory :=
  if !virt.isAligned || !phys.isAligned then (.error (.memory .invalidAlignment), vm)
  else
    match validateWx flags with
    | .error e => (.error e, vm)
    | .ok () =>
        match vm.mapWalk virt 3 0 vm.rootTable with
        | (.error e, vm') => (.error e, vm')
        | (.ok current, vm') =>
            match (vm'.tables current).entry (virt.tableIndex 3) with
            | none => (.error (.memory .invalidAddress), vm')
            | some entry =>
                if entry.isValid then (.error (.memory .alreadyMapped), vm')
                else
                  (.ok (), vm'.setEntry current (virt.tableIndex 3)
                    (entry.setAddr phys (flags.union Flags.valid)))

/-- The loop of `unmap` and `protect`, with `n` levels left from `level` on. -/
def walk (vm : VirtualMemory) (virt : VirtAddr) : ℕ → ℕ → PhysAddr → Except KernelError PhysAddr
  | 0, _, current => .ok current
  | n + 1, level, current =>
      match (vm.tables current).entry (virt.tableIndex level) with
      | none => .error (.memory .invalidAddress)
      | some entry =>
          if !entry.isValid then .error (.memory .notMapped)
          else walk vm virt n (level + 1) entry.physAddr

/-- `unmap`. -/
def unmap (vm : VirtualMemory) (virt : VirtAddr) : Except KernelError PhysAddr × VirtualMemory :=
  if !virt.isAligned then (.error (.memory .invalidAlignment), vm)
  else
    match vm.walk virt 3 0 vm.rootTable with
    | .error e => (.error e, vm)
    | .ok current =>
        match (vm.tables current).entry (virt.tableIndex 3) with
        | none => (.error (.memory .invalidAddress), vm)
        | some entry =>
            if !entry.isValid then (.error (.memory .notMapped), vm)
            else (.ok entry.physAddr, vm.setEntry current (virt.tableIndex 3) entry.clear)

/-- The loop of `translate`, with `n` levels left from `level` on. -/
def translateWalk (vm : VirtualMemory) (aligned : VirtAddr) (offset : Usize) :
    ℕ → ℕ → PhysAddr → Except KernelError PhysAddr
  | 0, _, _ => .error (.memory .notMapped)
  | n + 1, level, current =>
      match (vm.tables current).entry (aligned.tableIndex level) with
      | none => .error (.memory .invalidAddress)
      | some entry =>
          if !entry.isValid then .error (.memory .notMapped)
          else if level == 3 || entry.isBlock then .ok ⟨entry.physAddr.addr + offset⟩
          else translateWalk vm aligned offset n (level + 1) entry.physAddr

/-- `translate`. -/
def translate (vm : VirtualMemory) (virt : VirtAddr) : Except KernelError PhysAddr :=
  vm.translateWalk virt.alignDown virt.pageOffset 4 0 vm.rootTable

/-- `protect`. -/
def protect (vm : VirtualMemory) (virt : VirtAddr) (flags : Flags) :
    Except KernelError Unit × VirtualMemory :=
  if !virt.isAligned then (.error (.memory .invalidAlignment), vm)
  else
    match validateWx flags with
    | .error e => (.error e, vm)
    | .ok () =>
        match vm.walk virt 3 0 vm.rootTable with
        | .error e => (.error e, vm)
        | .ok current =>
            match (vm.tables current).entry (virt.tableIndex 3) with
            | none => (.error (.memory .invalidAddress), vm)
            | some entry =>
                if !entry.isValid then (.error (.memory .notMapped), vm)
                else
                  (.ok (), vm.setEntry current (virt.tableIndex 3)
                    (entry.setFlags (flags.union Flags.valid)))

/-! ### Tables and leaves -/

/-- The valid entry at an index of the table at an address. -/
def validEntry (vm : VirtualMemory) (t : PhysAddr) (i : Fin tableEntries) : Option PageTableEntry :=
  if ((vm.tables t).entries i).isValid then some ((vm.tables t).entries i) else none

/-- The table that a valid entry points to. -/
def child (vm : VirtualMemory) (t : PhysAddr) (i : Fin tableEntries) : Option PhysAddr :=
  (vm.validEntry t i).map PageTableEntry.physAddr

/-- The table that a path of indices leads to from the root. -/
def tableOn (vm : VirtualMemory) (p : List (Fin tableEntries)) : Option PhysAddr :=
  Radix.descend vm.child vm.rootTable p

/-- The leaf at an index of the table that a path leads to. -/
def leaf (vm : VirtualMemory) (p : List (Fin tableEntries)) (i : Fin tableEntries) :
    Option PageTableEntry :=
  (vm.tableOn p).bind fun t => vm.validEntry t i

/-- The leaf of a virtual address. -/
def leafAt (vm : VirtualMemory) (v : VirtAddr) : Option PageTableEntry :=
  vm.leaf (v.path 3) (v.index 3)

theorem validEntry_eq_some {vm : VirtualMemory} {t : PhysAddr} {i : Fin tableEntries}
    {e : PageTableEntry} :
    vm.validEntry t i = some e ↔ (vm.tables t).entries i = e ∧ e.isValid = true := by
  unfold validEntry
  constructor
  · intro h
    split at h
    · rename_i hv
      cases h
      exact ⟨rfl, hv⟩
    · exact absurd h (by simp)
  · rintro ⟨rfl, hv⟩
    rw [if_pos hv]

theorem validEntry_eq_none {vm : VirtualMemory} {t : PhysAddr} {i : Fin tableEntries} :
    vm.validEntry t i = none ↔ ((vm.tables t).entries i).isValid = false := by
  unfold validEntry
  cases ((vm.tables t).entries i).isValid <;> simp

theorem child_eq_none {vm : VirtualMemory} {t : PhysAddr} {i : Fin tableEntries} :
    vm.child t i = none ↔ ((vm.tables t).entries i).isValid = false := by
  rw [child, Option.map_eq_none_iff, validEntry_eq_none]

theorem child_of_isValid {vm : VirtualMemory} {t : PhysAddr} {i : Fin tableEntries}
    (h : ((vm.tables t).entries i).isValid = true) :
    vm.child t i = some ((vm.tables t).entries i).physAddr := by
  rw [child, validEntry_eq_some.2 ⟨rfl, h⟩, Option.map_some]

/-- A table and what hangs on it are read off that table alone. -/
theorem validEntry_congr {vm vm' : VirtualMemory} {t : PhysAddr}
    (h : vm'.tables t = vm.tables t) : vm'.validEntry t = vm.validEntry t := by
  funext i
  rw [validEntry, validEntry, h]

theorem child_congr {vm vm' : VirtualMemory} {t : PhysAddr} (h : vm'.tables t = vm.tables t) :
    vm'.child t = vm.child t := by
  funext i
  rw [child, child, validEntry_congr h]

theorem tableOn_concat (vm : VirtualMemory) (p : List (Fin tableEntries)) (i : Fin tableEntries) :
    vm.tableOn (p ++ [i]) = (vm.tableOn p).bind fun t => vm.child t i :=
  Radix.descend_concat ..

theorem leafAt_of_tableOn {vm : VirtualMemory} {v : VirtAddr} {t : PhysAddr}
    (h : vm.tableOn (v.path 3) = some t) : vm.leafAt v = vm.validEntry t (v.index 3) := by
  rw [leafAt, leaf, h, Option.bind_some]

theorem leafAt_of_no_table {vm : VirtualMemory} {v : VirtAddr}
    (h : vm.tableOn (v.path 3) = none) : vm.leafAt v = none := by
  rw [leafAt, leaf, h, Option.bind_none]

/-- Where a walk to a deeper level breaks off, there is no table. -/
theorem tableOn_path_eq_none {vm : VirtualMemory} {v : VirtAddr} {level n : ℕ} {t : PhysAddr}
    (ht : vm.tableOn (v.path level) = some t) (hi : vm.child t (v.index level) = none) :
    vm.tableOn (v.path (level + (n + 1))) = none := by
  rw [v.path_add, List.range_succ_eq_map, List.map_cons]
  exact Radix.descend_eq_none ht hi

/-- Reading the loop of `unmap` and `protect` as a descent. -/
theorem walk_eq (vm : VirtualMemory) (v : VirtAddr) (n level : ℕ) {t : PhysAddr}
    (ht : vm.tableOn (v.path level) = some t) :
    vm.walk v n level t =
      match vm.tableOn (v.path (level + n)) with
      | some t' => .ok t'
      | none => .error (.memory .notMapped) := by
  induction n generalizing level t with
  | zero => rw [walk, Nat.add_zero, ht]
  | succ n ih =>
      rw [walk, PageTable.entry_tableIndex]
      dsimp only
      cases hv : ((vm.tables t).entries (v.index level)).isValid with
      | false =>
          rw [tableOn_path_eq_none ht (child_eq_none.2 hv)]
          rfl
      | true =>
          have hnext : vm.tableOn (v.path (level + 1)) =
              some ((vm.tables t).entries (v.index level)).physAddr := by
            rw [v.path_succ, tableOn_concat, ht, Option.bind_some, child_of_isValid hv]
          rw [Bool.not_true, if_neg Bool.false_ne_true, ih (level + 1) hnext, Nat.add_assoc,
            Nat.add_comm 1 n]

/-! ### The invariant -/

/-- The tables form a tree: nothing is shared, no table is a free page, and every valid entry above
the last level points to a table.  The allocator's pages fit into the address bits of an entry. -/
structure Tree (vm : VirtualMemory) : Prop where
  pages : ∀ p < vm.allocator.totalPages.toNat, (vm.allocator.pageAddr p).Fits
  unshared : Radix.Unshared vm.child vm.rootTable 3
  keeps : ∀ p t, p.length ≤ 3 → vm.tableOn p = some t → vm.allocator.Keeps t
  isTable : ∀ p t i e, p.length < 3 → vm.tableOn p = some t → vm.validEntry t i = some e →
    e.isTable = true

/-- All leaves are as before. -/
def SameLeaves (vm vm' : VirtualMemory) : Prop :=
  ∀ p i, p.length = 3 → vm'.leaf p i = vm.leaf p i

/-- The leaf of `v` is now `o`, and all other leaves are as before. -/
def SetsLeaf (vm : VirtualMemory) (v : VirtAddr) (o : Option PageTableEntry)
    (vm' : VirtualMemory) : Prop :=
  ∀ p i, p.length = 3 →
    vm'.leaf p i = if p = v.path 3 ∧ i = v.index 3 then o else vm.leaf p i

theorem SameLeaves.refl (vm : VirtualMemory) : vm.SameLeaves vm := fun _ _ _ => rfl

theorem SameLeaves.trans {vm vm' vm'' : VirtualMemory} (h : vm.SameLeaves vm')
    (h' : vm'.SameLeaves vm'') : vm.SameLeaves vm'' :=
  fun p i hp => (h' p i hp).trans (h p i hp)

theorem SameLeaves.leafAt {vm vm' : VirtualMemory} (h : vm.SameLeaves vm') (v : VirtAddr) :
    vm'.leafAt v = vm.leafAt v := h _ _ (v.path_length 3)

theorem SameLeaves.setsLeaf {vm vm' vm'' : VirtualMemory} {v : VirtAddr}
    {o : Option PageTableEntry} (h : vm.SameLeaves vm') (h' : vm'.SetsLeaf v o vm'') :
    vm.SetsLeaf v o vm'' := by
  intro p i hp
  rw [h' p i hp, h p i hp]

theorem SetsLeaf.leafAt_self {vm vm' : VirtualMemory} {v w : VirtAddr}
    {o : Option PageTableEntry} (h : vm.SetsLeaf v o vm') (hw : w.page = v.page) :
    vm'.leafAt w = o :=
  (h _ _ (w.path_length 3)).trans (if_pos (VirtAddr.page_eq_iff.1 hw))

theorem SetsLeaf.leafAt_of_ne {vm vm' : VirtualMemory} {v w : VirtAddr}
    {o : Option PageTableEntry} (h : vm.SetsLeaf v o vm') (hw : w.page ≠ v.page) :
    vm'.leafAt w = vm.leafAt w :=
  (h _ _ (w.path_length 3)).trans (if_neg fun he => hw (VirtAddr.page_eq_iff.2 he))

/-- The allocator is no part of what a walk reads. -/
theorem Tree.withAllocator {vm : VirtualMemory} (h : vm.Tree) {a : PhysicalAllocator}
    (ha : vm.allocator.Refuses a) : ({ vm with allocator := a } : VirtualMemory).Tree where
  pages := by
    intro p hp
    rw [ha.pageAddr]
    exact h.pages p (ha.total ▸ hp)
  unshared := h.unshared
  keeps := fun p t hp ht => ha.keeps (h.keeps p t hp ht)
  isTable := h.isTable

/-! ### A new table -/

section NewTable

variable {vm : VirtualMemory} {v : VirtAddr} {level s : ℕ} {t : PhysAddr} {a : PhysicalAllocator}

theorem newTable_tables {n : PhysAddr} (htn : t ≠ n) (e : PageTableEntry) :
    (vm.newTable t (v.tableIndex level) e n).tables =
      Function.update (Function.update vm.tables n (vm.tables n).clear) t
        ⟨Function.update (vm.tables t).entries (v.index level)
          (e.setAddr n (Flags.table.union Flags.valid))⟩ := by
  rw [newTable, setEntry, setTable, setTable, PageTable.setEntry_tableIndex]
  dsimp only
  rw [Function.update_of_ne htn]

theorem newTable_entries {n : PhysAddr} (htn : t ≠ n) (e : PageTableEntry) :
    ((vm.newTable t (v.tableIndex level) e n).tables t).entries =
      Function.update (vm.tables t).entries (v.index level)
        (e.setAddr n (Flags.table.union Flags.valid)) := by
  rw [newTable_tables htn, Function.update_self]

theorem newTable_of_ne {n b : PhysAddr} (htn : t ≠ n) (hbt : b ≠ t) (hbn : b ≠ n)
    (e : PageTableEntry) : (vm.newTable t (v.tableIndex level) e n).tables b = vm.tables b := by
  rw [newTable_tables htn, Function.update_of_ne hbt, Function.update_of_ne hbn]

/-- The new table has no valid entry. -/
theorem newTable_cleared {n : PhysAddr} (htn : t ≠ n) (e : PageTableEntry)
    (i : Fin tableEntries) : (vm.newTable t (v.tableIndex level) e n).validEntry n i = none := by
  rw [validEntry_eq_none, newTable_tables htn, Function.update_of_ne htn.symm,
    Function.update_self, PageTable.clear_entries, PageTableEntry.isValid_clear]

/-- A new table is grafted into the tree. -/
theorem newTable_child {n : PhysAddr} (htn : t ≠ n) (hn : n.Fits) (e : PageTableEntry) :
    (vm.newTable t (v.tableIndex level) e n).child =
      Radix.graft vm.child t (v.index level) n := by
  funext b i
  by_cases hbt : b = t
  · subst hbt
    rw [Radix.graft, Function.update_self]
    by_cases hi : i = v.index level
    · subst hi
      have hself : ((vm.newTable b (v.tableIndex level) e n).tables b).entries (v.index level) =
          e.setAddr n (Flags.table.union Flags.valid) := by
        rw [newTable_entries htn, Function.update_self]
      have hvalid : (e.setAddr n (Flags.table.union Flags.valid)).isValid = true :=
        PageTableEntry.isValid_setAddr e n Flags.table
      rw [child_of_isValid (by rw [hself]; exact hvalid), hself, Function.update_self,
        PageTableEntry.setAddr_physAddr e hn (Flags.apart_table.union Flags.apart_valid)]
    · rw [Function.update_of_ne hi, child, child, validEntry, validEntry, newTable_entries htn,
        Function.update_of_ne hi]
  · rw [Radix.graft, Function.update_of_ne hbt]
    by_cases hbn : b = n
    · rw [hbn, Function.update_self, child, newTable_cleared htn, Option.map_none]
    · rw [Function.update_of_ne hbn, child_congr (newTable_of_ne htn hbt hbn e)]

/-- Where a table is missing, creating it keeps the invariant, leads the walk into the new table,
and changes no leaf. -/
theorem Tree.hang (h : vm.Tree) (hlevel : level < 3) (ht : vm.tableOn (v.path level) = some t)
    (hi : vm.child t (v.index level) = none) (hg : vm.allocator.Grants a s 1)
    (e : PageTableEntry) :
    let vm' := ({ vm with allocator := a } : VirtualMemory).newTable t (v.tableIndex level) e
      (vm.allocator.pageAddr s)
    vm'.Tree ∧ vm.SameLeaves vm' ∧
      vm'.tableOn (v.path (level + 1)) = some (vm.allocator.pageAddr s) := by
  intro vm'
  have hlen : (v.path level).length < 3 := by rw [v.path_length]; exact hlevel
  have hs := hg.inRange
  -- the page granted is fresh: no table is at its address
  have hfresh : ∀ p, p.length ≤ 3 → vm.tableOn p ≠ some (vm.allocator.pageAddr s) :=
    fun p hp hn => hg.ne_of_keeps (h.keeps p _ hp hn) rfl
  have htn : t ≠ vm.allocator.pageAddr s := hg.ne_of_keeps (h.keeps _ t (by omega) ht)
  have hchild : vm'.child = Radix.graft vm.child t (v.index level) (vm.allocator.pageAddr s) :=
    newTable_child htn (h.pages s (by omega)) e
  have hon : ∀ p, p.length ≤ 3 → vm'.tableOn p =
      if p = v.path level ++ [v.index level] then some (vm.allocator.pageAddr s)
      else vm.tableOn p := by
    intro p hp
    have hgraft := Radix.descend_graft h.unshared ht hlen hi hfresh hp
    rw [← hchild] at hgraft
    exact hgraft
  have hother : ∀ b, b ≠ t → b ≠ vm.allocator.pageAddr s → vm'.tables b = vm.tables b :=
    fun b hbt hbn => newTable_of_ne htn hbt hbn e
  have hempty : ∀ i, vm'.validEntry (vm.allocator.pageAddr s) i = none :=
    newTable_cleared htn e
  refine ⟨⟨fun p hp => ?_, ?_, fun p b hp hb => ?_, fun p b i e' hp hb he' => ?_⟩,
    fun p i hp => ?_, ?_⟩
  · have hpage : vm'.allocator.pageAddr p = vm.allocator.pageAddr p := hg.pageAddr p
    rw [hpage]
    exact h.pages p (hg.total ▸ hp)
  · rw [hchild]
    exact h.unshared.graft ht hlen hi hfresh
  · rw [hon p hp] at hb
    split at hb
    · cases hb
      exact hg.keeps_granted
    · exact hg.keeps (h.keeps p b hp hb)
  · rw [hon p (by omega)] at hb
    split at hb
    · cases hb
      rw [hempty] at he'
      exact absurd he' (by simp)
    · by_cases hbt : b = t
      · -- the table the new one is hung into: one entry is new, and it is a table entry
        subst hbt
        obtain ⟨rfl, hvalid⟩ := validEntry_eq_some.1 he'
        have hent : (vm'.tables b).entries = Function.update (vm.tables b).entries (v.index level)
            (e.setAddr (vm.allocator.pageAddr s) (Flags.table.union Flags.valid)) :=
          newTable_entries htn e
        by_cases hil : i = v.index level
        · rw [hent, hil, Function.update_self]
          exact PageTableEntry.isTable_setAddr e _ _
        · rw [hent, Function.update_of_ne hil] at hvalid ⊢
          exact h.isTable p b i _ hp hb (validEntry_eq_some.2 ⟨rfl, hvalid⟩)
      · have hbn : b ≠ vm.allocator.pageAddr s := fun hn => hfresh p (by omega) (hn ▸ hb)
        rw [validEntry_congr (hother b hbt hbn)] at he'
        exact h.isTable p b i e' hp hb he'
  · rw [leaf, leaf, hon p (by omega)]
    split
    · rename_i hp'
      rw [Option.bind_some, hempty, hp', tableOn_concat, ht, Option.bind_some, hi,
        Option.bind_none]
    · cases hb : vm.tableOn p with
      | none => rfl
      | some b =>
          have hbn : b ≠ vm.allocator.pageAddr s := fun hn => hfresh p (by omega) (hn ▸ hb)
          have hbt : b ≠ t := by
            rintro rfl
            have hpp := h.unshared p (v.path level) b (by omega) (by omega) hb ht
            rw [hpp, v.path_length] at hp
            omega
          rw [Option.bind_some, Option.bind_some, validEntry_congr (hother b hbt hbn)]
  · rw [v.path_succ, hon _ (by rw [List.length_append, v.path_length]; exact hlevel), if_pos rfl]

end NewTable

/-! ### A new leaf -/

/-- Writing an entry of a table of the last level keeps the invariant and sets one leaf. -/
theorem Tree.withLeaf {vm : VirtualMemory} (h : vm.Tree) {v : VirtAddr} {t : PhysAddr}
    (ht : vm.tableOn (v.path 3) = some t) (e : PageTableEntry) :
    (vm.setEntry t (v.tableIndex 3) e).Tree ∧
      vm.SetsLeaf v (if e.isValid then some e else none) (vm.setEntry t (v.tableIndex 3) e) := by
  have hlen := v.path_length 3
  have hother : ∀ b, b ≠ t → (vm.setEntry t (v.tableIndex 3) e).tables b = vm.tables b := by
    intro b hb
    rw [setEntry, setTable]
    exact Function.update_of_ne hb _ _
  have hself : ((vm.setEntry t (v.tableIndex 3) e).tables t).entries =
      Function.update (vm.tables t).entries (v.index 3) e := by
    rw [setEntry, setTable, PageTable.setEntry_tableIndex]
    dsimp only
    rw [Function.update_self]
  have hon : ∀ p, p.length ≤ 3 →
      (vm.setEntry t (v.tableIndex 3) e).tableOn p = vm.tableOn p := fun p hp =>
    Radix.descend_of_bottom h.unshared ht hlen (fun c hc => child_congr (hother c hc)) hp
  -- on the way to a table, no table of the last level is read
  have hne : ∀ p b, p.length < 3 → vm.tableOn p = some b → b ≠ t := by
    rintro p b hp hb rfl
    rw [h.unshared p (v.path 3) b (by omega) (by omega) hb ht] at hp
    omega
  refine ⟨⟨h.pages, fun p q b hp hq hpb hqb => ?_, fun p b hp hb => ?_,
    fun p b i e' hp hb he' => ?_⟩, fun p i hp => ?_⟩
  · have hp' := hon p hp
    have hq' := hon q hq
    exact h.unshared p q b hp hq (hp'.symm.trans hpb) (hq'.symm.trans hqb)
  · rw [hon p hp] at hb
    exact h.keeps p b hp hb
  · rw [hon p (by omega)] at hb
    rw [validEntry_congr (hother b (hne p b hp hb))] at he'
    exact h.isTable p b i e' hp hb he'
  · rw [leaf, leaf, hon p (by omega)]
    cases hb : vm.tableOn p with
    | none =>
        have hpne : ¬ (p = v.path 3 ∧ i = v.index 3) := by
          rintro ⟨rfl, -⟩
          rw [ht] at hb
          exact absurd hb (by simp)
        rw [if_neg hpne, Option.bind_none, Option.bind_none]
    | some b =>
        rw [Option.bind_some, Option.bind_some]
        by_cases hbt : b = t
        · subst hbt
          obtain rfl : p = v.path 3 := h.unshared p (v.path 3) b (by omega) (by omega) hb ht
          by_cases hi : i = v.index 3
          · subst hi
            have hat : v.path 3 = v.path 3 ∧ v.index 3 = v.index 3 := ⟨rfl, rfl⟩
            rw [if_pos hat, validEntry, hself, Function.update_self]
          · have hat : ¬ (v.path 3 = v.path 3 ∧ i = v.index 3) := fun hpi => hi hpi.2
            rw [if_neg hat, validEntry, hself, Function.update_of_ne hi]
            rfl
        · have hpne : ¬ (p = v.path 3 ∧ i = v.index 3) := by
            rintro ⟨rfl, -⟩
            exact hbt (Option.some.inj (hb.symm.trans ht))
          rw [if_neg hpne, validEntry_congr (hother b hbt)]

/-! ### What the operations do -/

theorem tableOn_zero (vm : VirtualMemory) (v : VirtAddr) :
    vm.tableOn (v.path 0) = some vm.rootTable := rfl

/-- The walk of `map` ends in the table of the last level, or the allocator refuses a page; the
tables it creates on the way change no leaf. -/
theorem Tree.mapWalk {vm : VirtualMemory} (h : vm.Tree) (v : VirtAddr) {n level : ℕ}
    {t : PhysAddr} (hn : level + n = 3) (ht : vm.tableOn (v.path level) = some t) :
    ∃ vm', vm'.Tree ∧ vm.SameLeaves vm' ∧
      ((vm.mapWalk v n level t = (.error (.memory .outOfMemory), vm') ∧ vm'.leafAt v = none) ∨
        ∃ t', vm.mapWalk v n level t = (.ok t', vm') ∧ vm'.tableOn (v.path 3) = some t') := by
  induction n generalizing vm level t with
  | zero =>
      obtain rfl : level = 3 := by omega
      exact ⟨vm, h, .refl vm, Or.inr ⟨t, rfl, ht⟩⟩
  | succ n ih =>
      rw [VirtualMemory.mapWalk, PageTable.entry_tableIndex]
      dsimp only
      cases hv : ((vm.tables t).entries (v.index level)).isValid with
      | true =>
          have hnext : vm.tableOn (v.path (level + 1)) =
              some ((vm.tables t).entries (v.index level)).physAddr := by
            rw [v.path_succ, tableOn_concat, ht, Option.bind_some, child_of_isValid hv]
          rw [if_pos rfl]
          exact ih h (by omega) hnext
      | false =>
          have hi : vm.child t (v.index level) = none := child_eq_none.2 hv
          rw [if_neg Bool.false_ne_true]
          rcases vm.allocator.allocPage_outcome with ⟨a, hres, href⟩ | ⟨s, a, hres, hg⟩
          · -- no page: the walk stops where the table is missing
            have hnone : vm.leafAt v = none := by
              refine leafAt_of_no_table ?_
              rw [← hn]
              exact tableOn_path_eq_none ht hi
            rw [hres]
            exact ⟨_, h.withAllocator href, fun _ _ _ => rfl, Or.inl ⟨rfl, hnone⟩⟩
          · have hs := hg.inRange
            have hpage : (((vm.tables t).entries (v.index level)).setAddr
                (vm.allocator.pageAddr s) (Flags.table.union Flags.valid)).physAddr =
                vm.allocator.pageAddr s :=
              PageTableEntry.setAddr_physAddr _ (h.pages s (by omega))
                (Flags.apart_table.union Flags.apart_valid)
            obtain ⟨htree, hsame, hnext⟩ := h.hang (by omega) ht hi hg
              ((vm.tables t).entries (v.index level))
            rw [hres]
            dsimp only
            rw [hpage]
            obtain ⟨vm', htree', hsame', hend⟩ := ih htree (by omega) hnext
            exact ⟨vm', htree', hsame.trans hsame', hend⟩

/-- What `map` can do, in the order of its checks. -/
theorem Tree.map_cases {vm : VirtualMemory} (h : vm.Tree) (v : VirtAddr) (phys : PhysAddr)
    (flags : Flags) :
    ((v.isAligned && phys.isAligned) = false ∧
        vm.map v phys flags = (.error (.memory .invalidAlignment), vm)) ∨
      (v.isAligned && phys.isAligned) = true ∧
        ((validateWx flags ≠ .ok () ∧
            vm.map v phys flags = (.error (.security .permissionDenied), vm)) ∨
          validateWx flags = .ok () ∧ ∃ vm', vm'.Tree ∧
            ((vm.SameLeaves vm' ∧ vm.leafAt v = none ∧
                vm.map v phys flags = (.error (.memory .outOfMemory), vm')) ∨
              (vm.SameLeaves vm' ∧ vm.leafAt v ≠ none ∧
                vm.map v phys flags = (.error (.memory .alreadyMapped), vm')) ∨
              (vm.SetsLeaf v
                  (some (PageTableEntry.new.setAddr phys (flags.union Flags.valid))) vm' ∧
                vm.leafAt v = none ∧ vm.map v phys flags = (.ok (), vm')))) := by
  unfold VirtualMemory.map
  cases halign : v.isAligned && phys.isAligned with
  | false =>
      have hcheck : (!v.isAligned || !phys.isAligned) = true := by
        rw [← Bool.not_and, halign, Bool.not_false]
      rw [if_pos hcheck]
      exact Or.inl ⟨rfl, rfl⟩
  | true =>
      have hcheck : (!v.isAligned || !phys.isAligned) = false := by
        rw [← Bool.not_and, halign, Bool.not_true]
      rw [if_neg (by rw [hcheck]; exact Bool.false_ne_true)]
      refine Or.inr ⟨rfl, ?_⟩
      cases hwx : validateWx flags with
      | error e =>
          rw [validateWx_error hwx]
          exact Or.inl ⟨by simp, rfl⟩
      | ok u =>
          refine Or.inr ⟨rfl, ?_⟩
          obtain ⟨vm₁, htree, hsame, hend⟩ := h.mapWalk v (n := 3) rfl (vm.tableOn_zero v)
          rcases hend with ⟨hwalk, hnone⟩ | ⟨t, hwalk, ht⟩
          · rw [hwalk]
            exact ⟨vm₁, htree, Or.inl ⟨hsame, (hsame.leafAt v).symm.trans hnone, rfl⟩⟩
          · have hleaf : vm.leafAt v = vm₁.validEntry t (v.index 3) :=
              (hsame.leafAt v).symm.trans (leafAt_of_tableOn ht)
            rw [hwalk]
            dsimp only
            rw [PageTable.entry_tableIndex]
            dsimp only
            cases hv : ((vm₁.tables t).entries (v.index 3)).isValid with
            | true =>
                have hsome : vm.leafAt v ≠ none := by
                  rw [hleaf, validEntry_eq_some.2 ⟨rfl, hv⟩]
                  simp
                exact ⟨vm₁, htree, Or.inr (Or.inl ⟨hsame, hsome, if_pos rfl⟩)⟩
            | false =>
                obtain ⟨htree', hset⟩ := htree.withLeaf ht
                  (((vm₁.tables t).entries (v.index 3)).setAddr phys (flags.union Flags.valid))
                rw [PageTableEntry.isValid_setAddr, if_pos rfl] at hset
                rw [if_neg Bool.false_ne_true]
                refine ⟨_, htree', Or.inr (Or.inr ⟨hsame.setsLeaf hset, ?_, rfl⟩)⟩
                rw [hleaf, validEntry_eq_none, hv]

/-- What the walk of `unmap` and `protect` finds. -/
theorem walk_cases (vm : VirtualMemory) (v : VirtAddr) :
    (vm.walk v 3 0 vm.rootTable = .error (.memory .notMapped) ∧ vm.leafAt v = none) ∨
      ∃ t, vm.walk v 3 0 vm.rootTable = .ok t ∧ vm.tableOn (v.path 3) = some t ∧
        vm.leafAt v = vm.validEntry t (v.index 3) := by
  have hwalk := vm.walk_eq v 3 0 (vm.tableOn_zero v)
  cases ht : vm.tableOn (v.path 3) with
  | none =>
      rw [Nat.zero_add, ht] at hwalk
      exact Or.inl ⟨hwalk, leafAt_of_no_table ht⟩
  | some t =>
      rw [Nat.zero_add, ht] at hwalk
      exact Or.inr ⟨t, hwalk, rfl, leafAt_of_tableOn ht⟩

/-- What `unmap` can do. -/
theorem Tree.unmap_cases {vm : VirtualMemory} (h : vm.Tree) (v : VirtAddr) :
    (v.isAligned = false ∧ vm.unmap v = (.error (.memory .invalidAlignment), vm)) ∨
      (v.isAligned = true ∧ vm.leafAt v = none ∧
        vm.unmap v = (.error (.memory .notMapped), vm)) ∨
      v.isAligned = true ∧ ∃ e vm', vm.leafAt v = some e ∧ vm'.Tree ∧ vm.SetsLeaf v none vm' ∧
        vm.unmap v = (.ok e.physAddr, vm') := by
  unfold VirtualMemory.unmap
  cases halign : v.isAligned with
  | false => exact Or.inl ⟨rfl, if_pos rfl⟩
  | true =>
      rw [Bool.not_true, if_neg Bool.false_ne_true]
      rcases vm.walk_cases v with ⟨hwalk, hnone⟩ | ⟨t, hwalk, ht, hleaf⟩
      · rw [hwalk]
        exact Or.inr (Or.inl ⟨rfl, hnone, rfl⟩)
      · rw [hwalk]
        dsimp only
        rw [PageTable.entry_tableIndex]
        dsimp only
        cases hv : ((vm.tables t).entries (v.index 3)).isValid with
        | false =>
            rw [validEntry_eq_none.2 hv] at hleaf
            exact Or.inr (Or.inl ⟨rfl, hleaf, if_pos rfl⟩)
        | true =>
            obtain ⟨htree, hset⟩ := h.withLeaf ht ((vm.tables t).entries (v.index 3)).clear
            rw [PageTableEntry.isValid_clear, if_neg Bool.false_ne_true] at hset
            rw [validEntry_eq_some.2 ⟨rfl, hv⟩] at hleaf
            exact Or.inr (Or.inr ⟨rfl, _, _, hleaf, htree, hset, if_neg (by simp)⟩)

/-- What `protect` can do. -/
theorem Tree.protect_cases {vm : VirtualMemory} (h : vm.Tree) (v : VirtAddr) (flags : Flags) :
    (v.isAligned = false ∧ vm.protect v flags = (.error (.memory .invalidAlignment), vm)) ∨
      v.isAligned = true ∧
        ((validateWx flags ≠ .ok () ∧
            vm.protect v flags = (.error (.security .permissionDenied), vm)) ∨
          validateWx flags = .ok () ∧
            ((vm.leafAt v = none ∧ vm.protect v flags = (.error (.memory .notMapped), vm)) ∨
              ∃ e vm', vm.leafAt v = some e ∧ vm'.Tree ∧
                vm.SetsLeaf v (some (e.setFlags (flags.union Flags.valid))) vm' ∧
                vm.protect v flags = (.ok (), vm'))) := by
  unfold VirtualMemory.protect
  cases halign : v.isAligned with
  | false => exact Or.inl ⟨rfl, if_pos rfl⟩
  | true =>
      rw [Bool.not_true, if_neg Bool.false_ne_true]
      refine Or.inr ⟨rfl, ?_⟩
      cases hwx : validateWx flags with
      | error e =>
          rw [validateWx_error hwx]
          exact Or.inl ⟨by simp, rfl⟩
      | ok u =>
          refine Or.inr ⟨rfl, ?_⟩
          rcases vm.walk_cases v with ⟨hwalk, hnone⟩ | ⟨t, hwalk, ht, hleaf⟩
          · rw [hwalk]
            exact Or.inl ⟨hnone, rfl⟩
          · rw [hwalk]
            dsimp only
            rw [PageTable.entry_tableIndex]
            dsimp only
            cases hv : ((vm.tables t).entries (v.index 3)).isValid with
            | false =>
                rw [validEntry_eq_none.2 hv] at hleaf
                exact Or.inl ⟨hleaf, if_pos rfl⟩
            | true =>
                obtain ⟨htree, hset⟩ := h.withLeaf ht
                  (((vm.tables t).entries (v.index 3)).setFlags (flags.union Flags.valid))
                rw [PageTableEntry.setFlags_eq_setAddr, PageTableEntry.isValid_setAddr,
                  if_pos rfl, ← PageTableEntry.setFlags_eq_setAddr] at hset
                rw [validEntry_eq_some.2 ⟨rfl, hv⟩] at hleaf
                exact Or.inr ⟨_, _, hleaf, htree, hset, if_neg (by simp)⟩

/-- The loop of `translate` passes through tables down to the last level. -/
theorem Tree.translateWalk_eq {vm : VirtualMemory} (h : vm.Tree) (v : VirtAddr) (offset : Usize)
    {n level : ℕ} {t : PhysAddr} (hn : level + n = 3)
    (ht : vm.tableOn (v.path level) = some t) :
    vm.translateWalk v offset (n + 1) level t =
      match vm.leafAt v with
      | some e => .ok ⟨e.physAddr.addr + offset⟩
      | none => .error (.memory .notMapped) := by
  induction n generalizing level t with
  | zero =>
      obtain rfl : level = 3 := by omega
      rw [translateWalk, PageTable.entry_tableIndex, leafAt_of_tableOn ht]
      dsimp only
      cases hv : ((vm.tables t).entries (v.index 3)).isValid with
      | false =>
          rw [validEntry_eq_none.2 hv]
          rfl
      | true =>
          rw [validEntry_eq_some.2 ⟨rfl, hv⟩]
          rfl
  | succ n ih =>
      have hlevel : (level == 3) = false := beq_eq_false_iff_ne.2 (by omega)
      rw [translateWalk, PageTable.entry_tableIndex]
      dsimp only
      cases hv : ((vm.tables t).entries (v.index level)).isValid with
      | false =>
          have hnone : vm.leafAt v = none := by
            refine leafAt_of_no_table ?_
            rw [← hn]
            exact tableOn_path_eq_none ht (child_eq_none.2 hv)
          rw [hnone]
          rfl
      | true =>
          have hlen : (v.path level).length < 3 := by rw [v.path_length]; omega
          have htable := h.isTable _ t _ _ hlen ht (validEntry_eq_some.2 ⟨rfl, hv⟩)
          have hnext : vm.tableOn (v.path (level + 1)) =
              some ((vm.tables t).entries (v.index level)).physAddr := by
            rw [v.path_succ, tableOn_concat, ht, Option.bind_some, child_of_isValid hv]
          rw [Bool.not_true, if_neg Bool.false_ne_true, hlevel, Bool.false_or,
            PageTableEntry.isBlock, hv, htable, Bool.true_and, Bool.not_true,
            if_neg Bool.false_ne_true]
          exact ih (by omega) hnext

theorem leafAt_alignDown (vm : VirtualMemory) (v : VirtAddr) :
    vm.leafAt v.alignDown = vm.leafAt v := by
  have hpath : v.alignDown.path 3 = v.path 3 := by
    rw [VirtAddr.path, VirtAddr.path, funext v.index_alignDown]
  rw [leafAt, leafAt, hpath, v.index_alignDown]

/-- **What `translate` returns**: the address in the leaf plus the page offset. -/
theorem Tree.translate_eq {vm : VirtualMemory} (h : vm.Tree) (v : VirtAddr) :
    vm.translate v =
      match vm.leafAt v with
      | some e => .ok ⟨e.physAddr.addr + v.pageOffset⟩
      | none => .error (.memory .notMapped) := by
  rw [translate, h.translateWalk_eq v.alignDown v.pageOffset (n := 3) rfl (vm.tableOn_zero _),
    leafAt_alignDown]

end VirtualMemory

end StarOS
