/-
Runs of the virtual memory manager: what it is for, and what no run of it can break.

A virtual memory manager keeps a partial map from pages to physical pages and flags.  That map is
written down here as a machine of its own, and every run of the code with physical addresses that an
entry can hold and flags from the declared constants is shown to be a run of it, except that the
code may run out of pages for its tables.  Under arbitrary addresses and flags the code still keeps
every page from being both writable and executable.

* `StarOS.PageMap` — the partial map, with the operations on it;
* `StarOS.VmCall`, `StarOS.vmSystem`, `StarOS.pageMapSystem` — the calls of a run with their
  results, and the two machines;
* `StarOS.VirtualMemory.Tree.step` — what a call does to the tree and its leaves;
* `StarOS.Shows` — the leaves of the tree spell out the map;
* `StarOS.virtualMemory_refines` — the code refines the map;
* `StarOS.virtualMemory_wx` — no run maps a page both writable and executable.
-/

import StarOS.Runs
import StarOS.VirtualMemory

set_option autoImplicit false

namespace StarOS

/-! ### The map -/

/-- What a page is mapped to. -/
structure Mapping where
  /-- The physical page. -/
  phys : PhysAddr
  /-- The flags it was mapped or last protected with. -/
  flags : Flags
  deriving DecidableEq, Repr

/-- A partial map from the pages of the 48-bit address space. -/
abbrev PageMap := BitVec 36 → Option Mapping

namespace PageMap

/-- Nothing is mapped. -/
def empty : PageMap := fun _ => none

/-- Mapping a page that is not mapped. -/
def map (m : PageMap) (v : VirtAddr) (phys : PhysAddr) (flags : Flags) :
    Except KernelError Unit × PageMap :=
  if (v.isAligned && phys.isAligned) = false then (.error (.memory .invalidAlignment), m)
  else
    match validateWx flags with
    | .error e => (.error e, m)
    | .ok () =>
        match m v.page with
        | some _ => (.error (.memory .alreadyMapped), m)
        | none => (.ok (), Function.update m v.page (some ⟨phys, flags⟩))

/-- Removing a page from the map. -/
def unmap (m : PageMap) (v : VirtAddr) : Except KernelError PhysAddr × PageMap :=
  if v.isAligned = false then (.error (.memory .invalidAlignment), m)
  else
    match m v.page with
    | some x => (.ok x.phys, Function.update m v.page none)
    | none => (.error (.memory .notMapped), m)

/-- Changing the flags of a mapped page. -/
def protect (m : PageMap) (v : VirtAddr) (flags : Flags) : Except KernelError Unit × PageMap :=
  if v.isAligned = false then (.error (.memory .invalidAlignment), m)
  else
    match validateWx flags with
    | .error e => (.error e, m)
    | .ok () =>
        match m v.page with
        | some x => (.ok (), Function.update m v.page (some ⟨x.phys, flags⟩))
        | none => (.error (.memory .notMapped), m)

/-- The physical page of an address plus the page offset. -/
def translate (m : PageMap) (v : VirtAddr) : Except KernelError PhysAddr :=
  match m v.page with
  | some x => .ok ⟨x.phys.addr + v.pageOffset⟩
  | none => .error (.memory .notMapped)

end PageMap

/-! ### Calls and machines -/

/-- A call with its result. -/
inductive VmCall where
  | map (v : VirtAddr) (phys : PhysAddr) (flags : Flags) (r : Except KernelError Unit)
  | unmap (v : VirtAddr) (r : Except KernelError PhysAddr)
  | protect (v : VirtAddr) (flags : Flags) (r : Except KernelError Unit)
  | translate (v : VirtAddr) (r : Except KernelError PhysAddr)

namespace VmCall

/-- The address the call is about. -/
def target : VmCall → VirtAddr
  | map v _ _ _ => v
  | unmap v _ => v
  | protect v _ _ => v
  | translate v _ => v

/-- Whether the call returned `Ok`. -/
def succeeded : VmCall → Bool
  | map _ _ _ r => r.isOk
  | unmap _ r => r.isOk
  | protect _ _ r => r.isOk
  | translate _ r => r.isOk

end VmCall

namespace VirtualMemory

/-- The state after a call with this result. -/
def step (vm : VirtualMemory) (c : VmCall) (vm' : VirtualMemory) : Prop :=
  match c with
  | .map v phys flags r => vm.map v phys flags = (r, vm')
  | .unmap v r => vm.unmap v = (r, vm')
  | .protect v flags r => vm.protect v flags = (r, vm')
  | .translate v r => vm.translate v = r ∧ vm' = vm

/-- What `VirtualMemory::new` is given: an empty, page-aligned root table that is not a free page of
the allocator, and an allocator whose pages lie below `2 ^ 48`. -/
structure Fresh (vm : VirtualMemory) : Prop where
  rootEmpty : vm.tables vm.rootTable = PageTable.new
  rootAligned : vm.rootTable.isAligned = true
  rootKept : vm.allocator.Keeps vm.rootTable
  baseAligned : vm.allocator.baseAddr.isAligned = true
  room : vm.allocator.baseAddr.addr.toNat + vm.allocator.totalPages.toNat * pageSize ≤ 2 ^ 48

/-- A new root has no valid entries, so it is a tree. -/
theorem Fresh.tree {vm : VirtualMemory} (h : vm.Fresh) : vm.Tree := by
  have hinvalid : ∀ i, vm.validEntry vm.rootTable i = none := by
    intro i
    rw [validEntry_eq_none, h.rootEmpty]
    exact PageTableEntry.isValid_clear PageTableEntry.new
  have hchild : ∀ i, vm.child vm.rootTable i = none := by
    intro i
    rw [child, hinvalid, Option.map_none]
  have hroot : ∀ p t, vm.tableOn p = some t → p = [] ∧ t = vm.rootTable := by
    intro p t ht
    cases p with
    | nil => exact ⟨rfl, (Option.some.inj ht).symm⟩
    | cons i p =>
        rw [tableOn, Radix.descend, hchild] at ht
        exact absurd ht (by simp)
  refine ⟨fun p hp => ?_, Radix.unshared_of_childless hchild, ?_, ?_⟩
  · -- `base + p * 4096` does not wrap, so it is aligned and below the room
    have hroom := h.room
    have hbase : vm.allocator.baseAddr.addr.toNat % pageSize = 0 := by
      simpa [PhysAddr.isAligned] using h.baseAligned
    have haddr : (vm.allocator.pageAddr p).addr.toNat =
        vm.allocator.baseAddr.addr.toNat + p * pageSize := by
      rw [PhysicalAllocator.pageAddr, BitVec.toNat_add, BitVec.toNat_ofNat]
      unfold pageSize at *
      omega
    refine PhysAddr.fits_of_aligned ?_ ?_
    · rw [PhysAddr.isAligned, haddr, Nat.add_mul_mod_self_right, hbase]
      rfl
    · rw [haddr]
      unfold pageSize at *
      omega
  · intro p t _ ht
    rw [(hroot p t ht).2]
    exact h.rootKept
  · intro p t i e _ ht he
    rw [(hroot p t ht).2, hinvalid] at he
    exact absurd he (by simp)

theorem Fresh.leaf {vm : VirtualMemory} (h : vm.Fresh) {p : List (Fin tableEntries)}
    {i : Fin tableEntries} (hp : p.length = 3) : vm.leaf p i = none := by
  cases p with
  | nil => exact absurd hp (by decide)
  | cons j p =>
      have hnone : vm.child vm.rootTable j = none := by
        rw [child_eq_none, h.rootEmpty]
        exact PageTableEntry.isValid_clear PageTableEntry.new
      rw [VirtualMemory.leaf, tableOn, Radix.descend, hnone, Option.bind_none, Option.bind_none]

/-- What a call does to the tree: it keeps the invariant, and either changes no leaf or succeeds and
sets the leaf of its target, to nothing or to an entry whose flags passed the check. -/
theorem Tree.step {vm vm' : VirtualMemory} {c : VmCall} (h : vm.Tree) (hs : vm.step c vm') :
    vm'.Tree ∧ (vm.SameLeaves vm' ∨
      c.succeeded = true ∧ ∃ o, vm.SetsLeaf c.target o vm' ∧ ∀ e, o = some e → e.WxSafe) := by
  cases c with
  | map v phys flags r =>
      rw [VirtualMemory.step] at hs
      rcases h.map_cases v phys flags with ⟨-, hres⟩ | ⟨-, ⟨-, hres⟩ | ⟨hwx, vm₁, htree, hend⟩⟩
      · rw [hres] at hs
        cases hs
        exact ⟨h, Or.inl (.refl vm)⟩
      · rw [hres] at hs
        cases hs
        exact ⟨h, Or.inl (.refl vm)⟩
      · rcases hend with ⟨hsame, -, hres⟩ | ⟨hsame, -, hres⟩ | ⟨hset, -, hres⟩
        · rw [hres] at hs
          cases hs
          exact ⟨htree, Or.inl hsame⟩
        · rw [hres] at hs
          cases hs
          exact ⟨htree, Or.inl hsame⟩
        · rw [hres] at hs
          cases hs
          refine ⟨htree, Or.inr ⟨rfl, _, hset, ?_⟩⟩
          rintro e he
          cases he
          exact PageTableEntry.wxSafe_setAddr _ phys hwx
  | unmap v r =>
      rw [VirtualMemory.step] at hs
      rcases h.unmap_cases v with ⟨-, hres⟩ | ⟨-, -, hres⟩ | ⟨-, e, vm₁, -, htree, hset, hres⟩
      · rw [hres] at hs
        cases hs
        exact ⟨h, Or.inl (.refl vm)⟩
      · rw [hres] at hs
        cases hs
        exact ⟨h, Or.inl (.refl vm)⟩
      · rw [hres] at hs
        cases hs
        exact ⟨htree, Or.inr ⟨rfl, none, hset, fun e he => absurd he (by simp)⟩⟩
  | protect v flags r =>
      rw [VirtualMemory.step] at hs
      rcases h.protect_cases v flags with ⟨-, hres⟩ | ⟨-, ⟨-, hres⟩ | ⟨hwx, hend⟩⟩
      · rw [hres] at hs
        cases hs
        exact ⟨h, Or.inl (.refl vm)⟩
      · rw [hres] at hs
        cases hs
        exact ⟨h, Or.inl (.refl vm)⟩
      · rcases hend with ⟨-, hres⟩ | ⟨e, vm₁, -, htree, hset, hres⟩
        · rw [hres] at hs
          cases hs
          exact ⟨h, Or.inl (.refl vm)⟩
        · rw [hres] at hs
          cases hs
          refine ⟨htree, Or.inr ⟨rfl, _, hset, ?_⟩⟩
          rintro e' he'
          cases he'
          exact PageTableEntry.wxSafe_setFlags e hwx
  | translate v r =>
      obtain ⟨-, rfl⟩ := hs
      exact ⟨h, Or.inl (.refl _)⟩

end VirtualMemory

/-- The runs of a fresh virtual memory manager. -/
def vmSystem : Runs.System VirtualMemory VmCall where
  init := VirtualMemory.Fresh
  step := VirtualMemory.step

/-- A step of the map.  The map itself never runs out of room, but a `map` that it would perform may
be refused for lack of memory. -/
def PageMap.step (m : PageMap) (c : VmCall) (m' : PageMap) : Prop :=
  match c with
  | .map v phys flags r =>
      m.map v phys flags = (r, m') ∨
        (m.map v phys flags).1 = .ok () ∧ r = .error (.memory .outOfMemory) ∧ m' = m
  | .unmap v r => m.unmap v = (r, m')
  | .protect v flags r => m.protect v flags = (r, m')
  | .translate v r => m.translate v = r ∧ m' = m

/-- The runs of the map from the empty map. -/
def pageMapSystem : Runs.System PageMap VmCall where
  init := fun m => m = PageMap.empty
  step := PageMap.step

/-- The calls with physical addresses below `2 ^ 48` and unions of the declared flags. -/
def InScope (_ : VirtualMemory) : VmCall → Prop
  | .map _ phys flags _ => phys.addr.toNat < 2 ^ 48 ∧ flags.Declared
  | .protect _ flags _ => flags.Declared
  | _ => True

/-! ### The code refines the map -/

/-- The entry that stands for a mapping. -/
def Mapping.entry (x : Mapping) : PageTableEntry :=
  PageTableEntry.new.setAddr x.phys (x.flags.union Flags.valid)

/-- The physical page and the flags do not overlap in the entry. -/
def Mapping.Packs (x : Mapping) : Prop := x.phys.Fits ∧ x.flags.Apart

theorem Mapping.Packs.physAddr {x : Mapping} (h : x.Packs) : x.entry.physAddr = x.phys :=
  PageTableEntry.setAddr_physAddr _ h.1 (h.2.union Flags.apart_valid)

/-- The leaves of the tree spell out the map. -/
structure Shows (vm : VirtualMemory) (m : PageMap) : Prop where
  tree : vm.Tree
  leafAt : ∀ v, vm.leafAt v = (m v.page).map Mapping.entry
  packs : ∀ pg x, m pg = some x → x.Packs

namespace Shows

variable {vm vm' : VirtualMemory} {m : PageMap}

theorem same (h : Shows vm m) (htree : vm'.Tree) (hsame : vm.SameLeaves vm') : Shows vm' m :=
  ⟨htree, fun v => (hsame.leafAt v).trans (h.leafAt v), h.packs⟩

/-- Setting a leaf updates the map at its page. -/
theorem update (h : Shows vm m) (htree : vm'.Tree) {v : VirtAddr} {o : Option Mapping}
    (hset : vm.SetsLeaf v (o.map Mapping.entry) vm') (ho : ∀ x, o = some x → x.Packs) :
    Shows vm' (Function.update m v.page o) := by
  refine ⟨htree, fun w => ?_, fun pg x hx => ?_⟩
  · by_cases hw : w.page = v.page
    · rw [hset.leafAt_self hw, hw, Function.update_self]
    · rw [hset.leafAt_of_ne hw, h.leafAt, Function.update_of_ne hw]
  · by_cases hpg : pg = v.page
    · rw [hpg, Function.update_self] at hx
      exact ho x hx
    · rw [Function.update_of_ne hpg] at hx
      exact h.packs pg x hx

theorem unmapped (h : Shows vm m) {v : VirtAddr} (hnone : vm.leafAt v = none) :
    m v.page = none := by
  rw [h.leafAt, Option.map_eq_none_iff] at hnone
  exact hnone

theorem mapped (h : Shows vm m) {v : VirtAddr} {e : PageTableEntry}
    (he : vm.leafAt v = some e) : ∃ x, m v.page = some x ∧ x.entry = e ∧ x.Packs := by
  rw [h.leafAt, Option.map_eq_some_iff] at he
  obtain ⟨x, hx, rfl⟩ := he
  exact ⟨x, hx, rfl, h.packs _ x hx⟩

theorem translate_eq (h : Shows vm m) (v : VirtAddr) : vm.translate v = m.translate v := by
  rw [h.tree.translate_eq, PageMap.translate, h.leafAt]
  cases hx : m v.page with
  | none => rfl
  | some x =>
      rw [Option.map_some]
      dsimp only
      rw [(h.packs _ x hx).physAddr]

end Shows

/-- `map` does to the tree what it does to the map, or runs out of memory. -/
theorem Shows.map {vm vm' : VirtualMemory} {m : PageMap} (h : Shows vm m) {v : VirtAddr}
    {phys : PhysAddr} {flags : Flags} {r : Except KernelError Unit}
    (hlt : phys.addr.toNat < 2 ^ 48) (hflags : flags.Declared)
    (hs : vm.step (.map v phys flags r) vm') :
    ∃ m', m.step (.map v phys flags r) m' ∧ Shows vm' m' := by
  rw [VirtualMemory.step] at hs
  rcases h.tree.map_cases v phys flags with
    ⟨halign, hres⟩ | ⟨halign, ⟨hwx, hres⟩ | ⟨hwx, vm₁, htree, hend⟩⟩
  · rw [hres] at hs
    cases hs
    exact ⟨m, Or.inl (if_pos halign), h⟩
  · rw [hres] at hs
    cases hs
    refine ⟨m, Or.inl ?_, h⟩
    rw [PageMap.map, if_neg (by rw [halign]; decide)]
    cases hv : validateWx flags with
    | error e => rw [validateWx_error hv]
    | ok u => exact absurd hv hwx
  · -- the checks pass: what the map does is decided by whether the page is mapped
    have hmap : m.map v phys flags =
        match m v.page with
        | some _ => (.error (.memory .alreadyMapped), m)
        | none => (.ok (), Function.update m v.page (some ⟨phys, flags⟩)) := by
      rw [PageMap.map, if_neg (by rw [halign]; decide), hwx]
    rcases hend with ⟨hsame, hnone, hres⟩ | ⟨hsame, hsome, hres⟩ | ⟨hset, hnone, hres⟩
    · rw [hres] at hs
      cases hs
      refine ⟨m, Or.inr ⟨?_, rfl, rfl⟩, h.same htree hsame⟩
      rw [hmap, h.unmapped hnone]
    · rw [hres] at hs
      cases hs
      obtain ⟨e, he⟩ := Option.ne_none_iff_exists'.1 hsome
      obtain ⟨x, hx, -, -⟩ := h.mapped he
      refine ⟨m, Or.inl ?_, h.same htree hsame⟩
      rw [hmap, hx]
    · rw [hres] at hs
      cases hs
      have hphys : phys.isAligned = true := by
        cases hp : phys.isAligned with
        | true => rfl
        | false => rw [hp, Bool.and_false] at halign; exact absurd halign (by decide)
      refine ⟨Function.update m v.page (some ⟨phys, flags⟩), Or.inl ?_,
        h.update htree (o := some ⟨phys, flags⟩) hset ?_⟩
      · rw [hmap, h.unmapped hnone]
      · rintro x hx
        cases hx
        exact ⟨PhysAddr.fits_of_aligned hphys hlt, hflags.apart⟩

theorem Shows.unmap {vm vm' : VirtualMemory} {m : PageMap} (h : Shows vm m) {v : VirtAddr}
    {r : Except KernelError PhysAddr} (hs : vm.step (.unmap v r) vm') :
    ∃ m', m.step (.unmap v r) m' ∧ Shows vm' m' := by
  rw [VirtualMemory.step] at hs
  rcases h.tree.unmap_cases v with
    ⟨halign, hres⟩ | ⟨halign, hnone, hres⟩ | ⟨halign, e, vm₁, he, htree, hset, hres⟩
  · rw [hres] at hs
    cases hs
    exact ⟨m, if_pos halign, h⟩
  · rw [hres] at hs
    cases hs
    refine ⟨m, ?_, h⟩
    rw [PageMap.step, PageMap.unmap, if_neg (by rw [halign]; decide), h.unmapped hnone]
  · rw [hres] at hs
    cases hs
    obtain ⟨x, hx, rfl, hpacks⟩ := h.mapped he
    refine ⟨Function.update m v.page none, ?_,
      h.update htree (o := none) hset fun x hx => absurd hx (by simp)⟩
    rw [PageMap.step, PageMap.unmap, if_neg (by rw [halign]; decide), hx, hpacks.physAddr]

theorem Shows.protect {vm vm' : VirtualMemory} {m : PageMap} (h : Shows vm m) {v : VirtAddr}
    {flags : Flags} {r : Except KernelError Unit} (hflags : flags.Declared)
    (hs : vm.step (.protect v flags r) vm') :
    ∃ m', m.step (.protect v flags r) m' ∧ Shows vm' m' := by
  rw [VirtualMemory.step] at hs
  rcases h.tree.protect_cases v flags with
    ⟨halign, hres⟩ | ⟨halign, ⟨hwx, hres⟩ | ⟨hwx, hend⟩⟩
  · rw [hres] at hs
    cases hs
    exact ⟨m, if_pos halign, h⟩
  · rw [hres] at hs
    cases hs
    refine ⟨m, ?_, h⟩
    rw [PageMap.step, PageMap.protect, if_neg (by rw [halign]; decide)]
    cases hv : validateWx flags with
    | error e => rw [validateWx_error hv]
    | ok u => exact absurd hv hwx
  · have hprotect : m.protect v flags =
        match m v.page with
        | some x => (.ok (), Function.update m v.page (some ⟨x.phys, flags⟩))
        | none => (.error (.memory .notMapped), m) := by
      rw [PageMap.protect, if_neg (by rw [halign]; decide), hwx]
    rcases hend with ⟨hnone, hres⟩ | ⟨e, vm₁, he, htree, hset, hres⟩
    · rw [hres] at hs
      cases hs
      refine ⟨m, ?_, h⟩
      rw [PageMap.step, hprotect, h.unmapped hnone]
    · rw [hres] at hs
      cases hs
      obtain ⟨x, hx, rfl, hpacks⟩ := h.mapped he
      -- new flags leave the address, so the entry is that of the new mapping
      have hentry : x.entry.setFlags (flags.union Flags.valid) =
          Mapping.entry ⟨x.phys, flags⟩ := by
        rw [PageTableEntry.setFlags_eq_setAddr, hpacks.physAddr]
        rfl
      rw [hentry] at hset
      refine ⟨Function.update m v.page (some ⟨x.phys, flags⟩), ?_,
        h.update htree (o := some ⟨x.phys, flags⟩) hset ?_⟩
      · rw [PageMap.step, hprotect, hx]
      · rintro y hy
        cases hy
        exact ⟨hpacks.1, hflags.apart⟩

/-- One step: a call in scope is a step of the map. -/
theorem Shows.step {vm vm' : VirtualMemory} {m : PageMap} {c : VmCall} (h : Shows vm m)
    (hc : InScope vm c) (hs : vm.step c vm') : ∃ m', m.step c m' ∧ Shows vm' m' := by
  cases c with
  | map v phys flags r => exact h.map hc.1 hc.2 hs
  | unmap v r => exact h.unmap hs
  | protect v flags r => exact h.protect hc hs
  | translate v r =>
      obtain ⟨hres, rfl⟩ := hs
      exact ⟨m, ⟨(h.translate_eq v).symm.trans hres, rfl⟩, h⟩

theorem VirtualMemory.Fresh.shows {vm : VirtualMemory} (h : vm.Fresh) :
    Shows vm PageMap.empty where
  tree := h.tree
  leafAt := fun v => h.leaf (v.path_length 3)
  packs := fun _ _ hx => absurd hx (by simp [PageMap.empty])

/-- **The virtual memory manager refines the partial map.**  Every run in scope has the trace of a
run of the map, after which translation is lookup in the map and the leaves are the entries of the
map; a call that succeeds changes at most the leaf of its own page, and a call that fails changes no
translation. -/
theorem virtualMemory_refines {tr : List VmCall} {vm : VirtualMemory}
    (h : vmSystem.Exec InScope tr vm) :
    (∃ m, pageMapSystem.Exec Runs.anyStep tr m ∧ (∀ v, vm.translate v = m.translate v) ∧
        ∀ v, vm.leafAt v = (m v.page).map Mapping.entry) ∧
      ∀ c vm', InScope vm c → vmSystem.step vm c vm' →
        (c.succeeded = true → ∀ w, w.page ≠ c.target.page → vm'.leafAt w = vm.leafAt w) ∧
          (c.succeeded = false → ∀ w, vm'.translate w = vm.translate w) := by
  obtain ⟨m, hm, hshows⟩ := h.simulates (N := pageMapSystem) (R := Shows)
    (fun vm₀ (h₀ : vm₀.Fresh) => ⟨PageMap.empty, rfl, h₀.shows⟩)
    (fun _ _ _ _ hr hg hs => hr.step hg hs)
  refine ⟨⟨m, hm, hshows.translate_eq, hshows.leafAt⟩, fun c vm' _ hs => ?_⟩
  obtain ⟨htree, hleaves⟩ := hshows.tree.step hs
  refine ⟨fun _ w hw => ?_, fun hfail w => ?_⟩
  · rcases hleaves with hsame | ⟨-, o, hset, -⟩
    · exact hsame.leafAt w
    · exact hset.leafAt_of_ne hw
  · rcases hleaves with hsame | ⟨hok, -⟩
    · rw [htree.translate_eq, hshows.tree.translate_eq, hsame.leafAt]
    · rw [hfail] at hok
      exact absurd hok (by decide)

/-- A manager whose root table is the first of eight pages. -/
def VirtualMemory.eightPages : VirtualMemory where
  rootTable := ⟨0x40000000#64⟩
  allocator := (PhysicalAllocator.new ⟨0x40000000#64⟩ 8#64).allocPage.2
  tables := fun _ => PageTable.new

theorem VirtualMemory.fresh_eightPages : VirtualMemory.eightPages.Fresh where
  rootEmpty := rfl
  rootAligned := by decide
  rootKept := by
    have hall : ∀ p < 8, eightPages.allocator.pageAddr p = ⟨0x40000000#64⟩ →
        eightPages.allocator.allocated p = true := by decide +kernel
    intro p hp _ haddr
    exact hall p hp haddr
  baseAligned := by decide +kernel
  room := by decide +kernel

/-- Mapping one page of the eight-page manager is a run of the map. -/
theorem virtualMemory_refines_onePage :
    ∃ m, pageMapSystem.Exec Runs.anyStep
        [.map ⟨0x1000#64⟩ ⟨0x80000000#64⟩ Flags.user (.ok ())] m ∧
      ∀ v, (VirtualMemory.eightPages.map ⟨0x1000#64⟩ ⟨0x80000000#64⟩ Flags.user).2.translate v =
        m.translate v := by
  have hok : (VirtualMemory.eightPages.map ⟨0x1000#64⟩ ⟨0x80000000#64⟩ Flags.user).1 = .ok () := by
    decide +kernel
  have hflags : Flags.user.Declared := .const (by decide)
  have hrun : vmSystem.Exec InScope [.map ⟨0x1000#64⟩ ⟨0x80000000#64⟩ Flags.user (.ok ())]
      (VirtualMemory.eightPages.map ⟨0x1000#64⟩ ⟨0x80000000#64⟩ Flags.user).2 := by
    have hstart : vmSystem.Exec InScope [] VirtualMemory.eightPages :=
      .init VirtualMemory.fresh_eightPages
    refine hstart.step ⟨by decide, hflags⟩ ?_
    change VirtualMemory.eightPages.map ⟨0x1000#64⟩ ⟨0x80000000#64⟩ Flags.user = (.ok (), _)
    rw [← hok]
  obtain ⟨⟨m, hm, htranslate, -⟩, -⟩ := virtualMemory_refines hrun
  exact ⟨m, hm, htranslate⟩

/-! ### W^X -/

/-- No leaf is both writable and executable. -/
def VirtualMemory.WxSafe (vm : VirtualMemory) : Prop :=
  ∀ p i e, p.length = 3 → vm.leaf p i = some e → e.WxSafe

theorem VirtualMemory.WxSafe.step {vm vm' : VirtualMemory} {c : VmCall} (h : vm.WxSafe)
    (htree : vm.Tree) (hs : vm.step c vm') : vm'.WxSafe := by
  intro p i e hp he
  rcases (htree.step hs).2 with hsame | ⟨-, o, hset, ho⟩
  · rw [hsame p i hp] at he
    exact h p i e hp he
  · rw [hset p i hp] at he
    split at he
    · exact ho e he
    · exact h p i e hp he

/-- **W^X over whole runs.**  Whatever addresses and flags a run passes, every valid entry of a
table of the last level that is reached from the root is not executable or is read-only. -/
theorem virtualMemory_wx {vm : VirtualMemory} (h : vmSystem.Reach Runs.anyStep vm)
    {p : List (Fin tableEntries)} {t : PhysAddr} {i : Fin tableEntries} (hp : p.length = 3)
    (ht : vm.tableOn p = some t) (hvalid : ((vm.tables t).entries i).isValid = true) :
    ((vm.tables t).entries i).flags.contains Flags.execute = false ∨
      ((vm.tables t).entries i).flags.contains Flags.readOnly = true := by
  have hinv : vm.Tree ∧ vm.WxSafe := by
    refine h.invariant (P := fun vm => vm.Tree ∧ vm.WxSafe)
      (fun vm₀ (h₀ : vm₀.Fresh) => ⟨h₀.tree, ?_⟩)
      fun vm₁ c vm₂ h₁ _ hs => ⟨(h₁.1.step hs).1, h₁.2.step h₁.1 hs⟩
    intro p i e hp he
    rw [h₀.leaf hp] at he
    exact absurd he (by simp)
  refine hinv.2 p i _ hp ?_
  rw [VirtualMemory.leaf, ht, Option.bind_some, VirtualMemory.validEntry_eq_some]
  exact ⟨rfl, hvalid⟩

/-- The entry of a page mapped read-only and executable. -/
theorem virtualMemory_wx_onePage :
    let vm := (VirtualMemory.eightPages.map ⟨0x1000#64⟩ ⟨0x80000000#64⟩
      (Flags.readOnly.union Flags.execute)).2
    let e := (vm.tables ⟨0x40003000#64⟩).entries (VirtAddr.index ⟨0x1000#64⟩ 3)
    e.flags.contains Flags.execute = false ∨ e.flags.contains Flags.readOnly = true := by
  intro vm e
  have hinit : vmSystem.Reach Runs.anyStep VirtualMemory.eightPages :=
    .init VirtualMemory.fresh_eightPages
  have hrun : vmSystem.Reach Runs.anyStep vm :=
    hinit.step (a := .map ⟨0x1000#64⟩ ⟨0x80000000#64⟩ (Flags.readOnly.union Flags.execute) _)
      trivial rfl
  have htable : vm.tableOn (VirtAddr.path ⟨0x1000#64⟩ 3) = some ⟨0x40003000#64⟩ := by
    decide +kernel
  exact virtualMemory_wx hrun (VirtAddr.path_length _ 3) htable (by decide +kernel)

end StarOS
