/-
The memory map of a device tree (`MemoryMap::from_device_tree`).

The walk for `memory@` nodes takes the first property that it meets behind the beginning of such a
node to be its `reg`, whatever its name is, and of its value the first entry only.  If the node has
no property of its own, this is a property of a subnode, since the beginnings of subnodes are passed
over word by word.  The walk for `reserved-memory` nodes collects nothing.  So the map reflects the
tree exactly if, outside the built-in regions, these first entries have the addresses of the `reg`
entries of the `memory@` nodes and none of a reserved region.

* `StarOS.MemoryMap.fromDeviceTree` — the function, by `StarOS.MemoryMap.memoryRound` and
  `StarOS.MemoryMap.reservedRound`;
* `StarOS.FdtNode.firstMet` — the property that is met first in a node;
* `StarOS.FdtNode.IsMemory`, `StarOS.MemoryAt`, `StarOS.ReservedAt` — what the tree says of an
  address;
* `StarOS.CollectedAt` — the first entries of the properties that are met first;
* `StarOS.MemoryMap.fromDeviceTree_safe` — an address is safe if it is in one of these and in no
  built-in region;
* `StarOS.Reflects`, `StarOS.FirstEntriesSuffice` — the map reflects the tree, and the condition on
  the tree;
* `StarOS.fromDeviceTree_reflects_iff` — the one holds exactly if the other does;
* `StarOS.fromDeviceTree_misses_memory` — a tree whose memory is missed, with a reserved region that
  is not forbidden.
-/

import StarOS.BigEndian
import StarOS.FdtLookup
import StarOS.MemoryMap

set_option autoImplicit false

namespace StarOS

open Loops

/-! ### Collecting regions -/

/-- The length of a name, given up behind 256 bytes, with how often the loop may still go round. -/
def rawNameLen (mem : Mem) (a : ℕ) : ℕ → ℕ → ℕ
  | 0, len => len
  | left + 1, len => if mem (a + len) = 0#8 then len else rawNameLen mem a left (len + 1)

/-- A name, as the walks of the memory map read it. -/
def rawName (mem : Mem) (a : ℕ) : Bytes := bytesAt mem a (rawNameLen mem a 257 0)

/-- `memory@`. -/
def memoryPrefix : Bytes := [0x6d#8, 0x65#8, 0x6d#8, 0x6f#8, 0x72#8, 0x79#8, 0x40#8]

/-- `reserved-memory`. -/
def reservedPrefix : Bytes :=
  [0x72#8, 0x65#8, 0x73#8, 0x65#8, 0x72#8, 0x76#8, 0x65#8, 0x64#8, 0x2d#8, 0x6d#8, 0x65#8, 0x6d#8,
    0x6f#8, 0x72#8, 0x79#8]

namespace MemoryMap

/-- The region in the first 16 bytes of a value, if it is not empty and smaller than 4 GiB. -/
def regRegion (value : Bytes) : Option MemoryRegion :=
  if 16 ≤ value.length then
    let addr := beNat (value.take 8)
    let size := beNat ((value.drop 8).take 8)
    if 0 < size ∧ size < 0x100000000 then
      some ⟨BitVec.ofNat 64 addr, BitVec.ofNat 64 size, true, "ram"⟩
    else none
  else none

/-- Adding the region of a value. -/
def addReg (m : MemoryMap) (value : Bytes) : MemoryMap :=
  match regRegion value with
  | some r => m.addSafeRegion r.start r.size r.name
  | none => m

/-- The state of `parse_memory_nodes`: in the inner loop, `saved` is `saved_offset`. -/
structure MemoryWalk where
  offset : ℕ
  saved : Option ℕ
  map : MemoryMap

/-- One round of the outer loop of `parse_memory_nodes`. -/
def outerRound (mem : Mem) (structStart offset : ℕ) (m : MemoryMap) : Round MemoryWalk MemoryMap :=
  let token := beRead mem (structStart + offset) 4
  let offset := offset + 4
  if token = fdtBeginNode then
    let name := rawName mem (structStart + offset)
    let offset := offset + align4 (name.length + 1)
    if memoryPrefix.isPrefixOf name then .more ⟨offset, some offset, m⟩ else .more ⟨offset, none, m⟩
  else if token = fdtEnd then .done m
  else if token = fdtProp then
    let len := beRead mem (structStart + offset) 4
    .more ⟨offset + (8 + align4 len), none, m⟩
  else .more ⟨offset, none, m⟩

/-- One round of its inner loop. -/
def innerRound (mem : Mem) (structStart offset saved : ℕ) (m : MemoryMap) :
    Round MemoryWalk MemoryMap :=
  let token := beRead mem (structStart + offset) 4
  let offset := offset + 4
  if token = fdtProp then
    let len := beRead mem (structStart + offset) 4
    let dataOffset := offset + 8
    .more ⟨dataOffset + align4 len, none, m.addReg (bytesAt mem (structStart + dataOffset) len)⟩
  else if token = fdtEndNode then .more ⟨saved, none, m⟩
  else .more ⟨offset, some saved, m⟩

/-- One round of `parse_memory_nodes`, in whichever loop it is. -/
def memoryRound (mem : Mem) (structStart : ℕ) (c : MemoryWalk) : Round MemoryWalk MemoryMap :=
  match c.saved with
  | none => outerRound mem structStart c.offset c.map
  | some saved => innerRound mem structStart c.offset saved c.map

/-- One round of `parse_reserved_memory`.  The branch for `reserved-memory` nodes is empty. -/
def reservedRound (mem : Mem) (structStart offset : ℕ) (m : MemoryMap) :
    Round (ℕ × MemoryMap) MemoryMap :=
  let token := beRead mem (structStart + offset) 4
  let offset := offset + 4
  if token = fdtBeginNode then
    let name := rawName mem (structStart + offset)
    let offset := offset + align4 (name.length + 1)
    if reservedPrefix.isPrefixOf name then .more (offset, m) else .more (offset, m)
  else if token = fdtEnd then .done m
  else if token = fdtProp then
    let len := beRead mem (structStart + offset) 4
    .more (offset + (8 + align4 len), m)
  else .more (offset, m)

/-- The map with the built-in forbidden regions. -/
def builtIn : MemoryMap :=
  ((new.addForbiddenRegion 0x00000000#64 0x00100000#64 "bootloader").addForbiddenRegion
    0x86000000#64 0x02000000#64 "secure_world").addForbiddenRegion
    0x86200000#64 0x02E00000#64 "trustzone"

/-- `MemoryMap::from_device_tree`, unless one of its walks does not end. -/
def fromDeviceTree (mem : Mem) (fuel fdtAddr : ℕ) : Option (Except KernelError MemoryMap) :=
  if beRead mem fdtAddr 4 ≠ fdtMagic then some (.error .invalidAddress)
  else
    let structStart := fdtAddr + beRead mem (fdtAddr + 8) 4
    (run (memoryRound mem structStart) fuel ⟨0, none, builtIn⟩).bind fun m =>
      (run (fun c => reservedRound mem structStart c.1 c.2) fuel (0, m)).map .ok

end MemoryMap

/-! ### What the tree says -/

/-- `reg`. -/
def regName : Bytes := [0x72#8, 0x65#8, 0x67#8]

/-- The entries of a `reg` value with two address and two size cells: addresses and sizes. -/
def regEntries (value : Bytes) : List (ℕ × ℕ) :=
  (List.range (value.length / 16)).map fun i =>
    (beNat ((value.drop (16 * i)).take 8), beNat ((value.drop (16 * i + 8)).take 8))

/-- An address lies in an entry. -/
def InEntry (a : ℕ) (e : ℕ × ℕ) : Prop := e.1 ≤ a ∧ a < e.1 + e.2

namespace FdtNode

/-- A `memory@` node. -/
def IsMemory (n : FdtNode) : Prop := memoryPrefix.isPrefixOf n.name = true

/-- The entries of the `reg` of a node. -/
def reg (n : FdtNode) : List (ℕ × ℕ) :=
  match n.props.find? fun q => q.name == regName with
  | some q => regEntries q.value
  | none => []

mutual

/-- The property that is met first behind the beginning of a node and before any end: its first one,
or else the one that is met first in its first subnode. -/
def firstMet : FdtNode → Option FdtProp
  | .node _ (q :: _) _ => some q
  | .node _ [] children => firstMetAll children

/-- The property that is met first in the first of some nodes. -/
def firstMetAll : List FdtNode → Option FdtProp
  | [] => none
  | c :: _ => c.firstMet

end

end FdtNode

/-- An address lies in the `reg` of a `memory@` node. -/
def MemoryAt (root : FdtNode) (a : ℕ) : Prop :=
  ∃ e ∈ root.nodes, e.2.IsMemory ∧ ∃ r ∈ e.2.reg, InEntry a r

/-- An address lies in the `reg` of a subnode of `reserved-memory`. -/
def ReservedAt (root : FdtNode) (a : ℕ) : Prop :=
  ∃ e ∈ root.nodes, e.2.name = reservedPrefix ∧ ∃ c ∈ e.2.children, ∃ r ∈ c.reg, InEntry a r

/-- An address lies in the first entry of the property that is met first in a `memory@` node. -/
def CollectedAt (root : FdtNode) (a : Usize) : Prop :=
  ∃ e ∈ root.nodes, e.2.IsMemory ∧ ∃ q, e.2.firstMet = some q ∧
    ∃ r, MemoryMap.regRegion q.value = some r ∧ r.contains a = true

/-! ### The items that the walk collects -/

/-- The property that is met first in some items, before any end. -/
def nextProp : List FdtItem → Option FdtProp
  | [] => none
  | .beginNode _ :: is => nextProp is
  | .prop q :: _ => some q
  | .endNode :: _ => none

/-- A property is met first behind the beginning of a `memory@` node among some items. -/
def Met (q : FdtProp) : List FdtItem → Prop
  | [] => False
  | .beginNode name :: is =>
      (memoryPrefix.isPrefixOf name = true ∧ nextProp is = some q) ∨ Met q is
  | .prop _ :: is => Met q is
  | .endNode :: is => Met q is

variable {q : FdtProp} {rest : List FdtItem}

theorem met_props (props : List FdtProp) : Met q (props.map .prop ++ rest) ↔ Met q rest := by
  induction props with
  | nil => rfl
  | cons _ _ ih => exact ih

namespace FdtNode

/-- The property that is met first in a node is that of its items behind the beginning. -/
theorem nextProp_items (n : FdtNode) (rest : List FdtItem) :
    nextProp (n.props.map .prop ++ (itemsAll n.children ++ .endNode :: rest)) = n.firstMet := by
  induction n using induct generalizing rest with
  | node name props children ih =>
      cases props with
      | cons q props =>
          rw [firstMet]
          rfl
      | nil =>
          rw [firstMet]
          cases children with
          | nil => rfl
          | cons c l =>
              obtain ⟨cname, cprops, cchildren⟩ := c
              have hfirst := ih _ List.mem_cons_self (itemsAll l ++ .endNode :: rest)
              rw [firstMetAll, ← hfirst]
              simp only [children, props, itemsAll, items, List.map_nil, List.nil_append,
                List.cons_append, List.append_assoc, nextProp]

/-- The items of some nodes contribute what is met in the nodes of some list. -/
def Contributes (q : FdtProp) (items : List FdtItem) (nodes : List (List Bytes × FdtNode)) : Prop :=
  ∀ rest, Met q (items ++ rest) ↔
    (∃ e ∈ nodes, e.2.IsMemory ∧ e.2.firstMet = some q) ∨ Met q rest

theorem contributes_itemsAll {l : List FdtNode} {cs : List Bytes}
    (h : ∀ c ∈ l, Contributes q c.items (c.located cs)) :
    Contributes q (itemsAll l) (locatedAll cs l) := by
  induction l with
  | nil =>
      intro rest
      simp [itemsAll, locatedAll]
  | cons c l ih =>
      intro rest
      have hrest := ih fun d hd => h d (List.mem_cons_of_mem _ hd)
      rw [itemsAll, locatedAll, List.append_assoc, h c List.mem_cons_self, hrest, ← or_assoc]
      refine or_congr_left ?_
      simp only [List.mem_append, or_and_right, exists_or]

/-- A node contributes what is met in it, besides its subnodes. -/
theorem contributes_node {n : FdtNode} {ds : List Bytes} {nodes : List (List Bytes × FdtNode)}
    (h : Contributes q (itemsAll n.children) nodes) : Contributes q n.items ((ds, n) :: nodes) := by
  intro rest
  have hitems : n.items ++ rest = .beginNode n.name ::
      (n.props.map .prop ++ (itemsAll n.children ++ .endNode :: rest)) := by
    obtain ⟨nodeName, nodeProps, nodeChildren⟩ := n
    simp only [items, name, props, children, List.cons_append, List.append_assoc, List.nil_append]
  rw [hitems, Met, nextProp_items, met_props, h, Met, ← or_assoc]
  refine or_congr_left ?_
  simp only [List.exists_mem_cons_iff]
  rfl

theorem contributes (n : FdtNode) (cs : List Bytes) : Contributes q n.items (n.located cs) := by
  induction n using induct generalizing cs with
  | node name props children ih =>
      rw [located_eq]
      exact contributes_node (contributes_itemsAll fun c hc => ih c hc _)

/-- In the items of a tree those properties are met that are met first in its `memory@` nodes. -/
theorem met_items {root : FdtNode} :
    Met q root.items ↔ ∃ e ∈ root.nodes, e.2.IsMemory ∧ e.2.firstMet = some q := by
  have hbelow : Contributes q (itemsAll root.children) (locatedAll [] root.children) :=
    contributes_itemsAll fun c _ => contributes c []
  have h : Met q (root.items ++ []) ↔
      (∃ e ∈ root.nodes, e.2.IsMemory ∧ e.2.firstMet = some q) ∨ _ := contributes_node hbelow []
  rw [List.append_nil] at h
  exact h.trans (or_iff_left id)

end FdtNode

/-! ### The regions that the walk collects -/

namespace MemoryMap

variable {m : MemoryMap} {value : Bytes} {r : MemoryRegion} {a : Usize}

theorem regRegion_writable (h : regRegion value = some r) : r.writable = true ∧ r.name = "ram" := by
  rw [regRegion] at h
  split at h
  · dsimp only at h
    split at h
    · cases h
      exact ⟨rfl, rfl⟩
    · exact absurd h.symm (Option.some_ne_none _)
  · exact absurd h.symm (Option.some_ne_none _)

/-- Adding the region of a value makes its addresses safe, unless they are forbidden. -/
theorem addReg_safe : (m.addReg value).isSafeToWrite a = true ↔ m.isSafeToWrite a = true ∨
    (m.isForbidden a = false ∧ ∃ r, regRegion value = some r ∧ r.contains a = true) := by
  rw [addReg]
  cases hr : regRegion value with
  | none => simp
  | some r =>
      obtain ⟨hw, hname⟩ := regRegion_writable hr
      obtain ⟨start, size, writable, name⟩ := r
      obtain rfl : writable = true := hw
      simp only [isSafeToWrite_iff, addSafeRegion, isForbidden, List.mem_append, List.mem_singleton,
        Option.some.injEq, exists_eq_left', or_and_right, exists_or, exists_eq_left, true_and,
        MemoryRegion.contains]
      exact and_or_left

theorem addReg_forbidden : (m.addReg value).isForbidden a = m.isForbidden a := by
  rw [addReg]
  split <;> rfl

/-- Adding the regions of some properties. -/
theorem foldl_addReg_safe {qs : List FdtProp} :
    (qs.foldl (fun m q => m.addReg q.value) m).isSafeToWrite a = true ↔
      m.isSafeToWrite a = true ∨ (m.isForbidden a = false ∧
        ∃ q ∈ qs, ∃ r, regRegion q.value = some r ∧ r.contains a = true) := by
  induction qs generalizing m with
  | nil => simp
  | cons q qs ih =>
      rw [List.foldl_cons, ih, addReg_safe, addReg_forbidden, List.exists_mem_cons_iff, or_assoc,
        ← and_or_left]

/-- Nothing is safe but what is collected. -/
theorem builtIn_safe : builtIn.isSafeToWrite a = false := by
  rw [isSafeToWrite]
  split <;> rfl

end MemoryMap

/-! ### The walks -/

section walks

variable {p : FdtParser} {mem : Mem} {a off n left len : ℕ} {name : Bytes}
  {records : List FdtRecord}

theorem rawNameLen_of_zero (hne : ∀ i < n, mem (a + i) ≠ 0#8) (hzero : mem (a + n) = 0#8)
    (hlen : len ≤ n) (hleft : n < len + left) : rawNameLen mem a left len = n := by
  induction left generalizing len with
  | zero => exact absurd hleft (by omega)
  | succ left ih =>
      rw [rawNameLen]
      by_cases hlast : len = n
      · rw [hlast, if_pos hzero]
      · rw [if_neg (hne len (by omega))]
        exact ih (by omega) (by omega)

/-- A name that lies in memory is read. -/
theorem rawName_of_holds (h : Holds mem a (name ++ [0#8])) (hname : IsName name) :
    rawName mem a = name := by
  obtain ⟨hholds, hne, hzero⟩ := holds_name h hname.2.1
  have hlen : rawNameLen mem a 257 0 = name.length :=
    rawNameLen_of_zero hne hzero (Nat.zero_le _) (by have := hname.1; omega)
  rw [rawName, hlen, hholds]

namespace FdtParser.Ahead

/-- The word at a record. -/
theorem code_eq {r : FdtRecord} (h : p.Ahead mem off (r :: records)) :
    beRead mem (p.structStart + off) 4 = r.code := by
  have hbytes := h.bytes
  rw [List.flatMap_cons, List.append_assoc, holds_append] at hbytes
  have hword : Holds mem (p.structStart + off) (beBytes 4 r.code) := by
    cases r with
    | beginNode name => exact (holds_append.1 hbytes.1).1
    | prop nameoff q => exact (holds_append.1 hbytes.1).1
    | endNode => exact hbytes.1
    | nop => exact hbytes.1
  rw [beRead_of_holds hword]
  cases r <;> rfl

theorem code_nil (h : p.Ahead mem off []) : beRead mem (p.structStart + off) 4 = fdtEnd :=
  beRead_of_holds h.bytes

theorem name_holds (h : p.Ahead mem off (.beginNode name :: records)) :
    Holds mem (p.structStart + (off + 4)) (pad4 (name ++ [0#8])) := by
  have hbytes := h.bytes
  rw [List.flatMap_cons, List.append_assoc, holds_append, FdtRecord.bytes, holds_append,
    length_beBytes, Nat.add_assoc] at hbytes
  exact hbytes.1.2

theorem rawName_eq (h : p.Ahead mem off (.beginNode name :: records)) :
    rawName mem (p.structStart + (off + 4)) = name := by
  have hholds := h.name_holds
  rw [pad4, holds_append] at hholds
  exact rawName_of_holds hholds.1 (h.fits _ List.mem_cons_self)

theorem len_eq {nameoff : ℕ} {q : FdtProp} (h : p.Ahead mem off (.prop nameoff q :: records)) :
    beRead mem (p.structStart + (off + 4)) 4 = q.value.length := by
  have hbytes := h.bytes
  have hfits := h.fits _ List.mem_cons_self
  rw [List.flatMap_cons, List.append_assoc, holds_append, FdtRecord.bytes, holds_append,
    length_beBytes, holds_append, Nat.add_assoc] at hbytes
  rw [beRead_of_holds hbytes.1.2.1]
  exact Nat.mod_eq_of_lt hfits.1

end FdtParser.Ahead

namespace MemoryMap

variable {m : MemoryMap} {saved : ℕ} {r : FdtRecord}

theorem prop_offset (nameoff : ℕ) :
    off + 4 + (8 + align4 n) = off + (FdtToken.prop n nameoff).size := by
  rw [FdtToken.size]
  omega

theorem outerRound_begin (h : p.Ahead mem off (.beginNode name :: records)) :
    outerRound mem p.structStart off m =
      .more ⟨off + (FdtToken.beginNode name).size,
        if memoryPrefix.isPrefixOf name then some (off + (FdtToken.beginNode name).size) else none,
        m⟩ := by
  rw [outerRound, h.code_eq, FdtRecord.code, if_pos rfl, h.rawName_eq]
  dsimp only
  rw [Nat.add_assoc]
  split <;> rfl

/-- The outer loop passes over every other record. -/
theorem outerRound_other (h : p.Ahead mem off (r :: records)) (hr : ∀ name, r ≠ .beginNode name) :
    outerRound mem p.structStart off m = .more ⟨off + r.token.size, none, m⟩ := by
  rw [outerRound, h.code_eq]
  cases r with
  | beginNode name => exact absurd rfl (hr name)
  | prop nameoff q =>
      rw [FdtRecord.code, if_neg (by decide), if_neg (by decide), if_pos rfl, h.len_eq]
      dsimp only
      rw [prop_offset nameoff, FdtRecord.token]
  | endNode => rfl
  | nop => rfl

theorem outerRound_end (h : p.Ahead mem off []) : outerRound mem p.structStart off m = .done m := by
  rw [outerRound, h.code_nil]
  rfl

theorem reservedRound_record (h : p.Ahead mem off (r :: records)) :
    reservedRound mem p.structStart off m = .more (off + r.token.size, m) := by
  rw [reservedRound, h.code_eq]
  cases r with
  | beginNode name =>
      rw [FdtRecord.code, if_pos rfl, h.rawName_eq]
      dsimp only
      rw [ite_self, Nat.add_assoc]
      rfl
  | prop nameoff q =>
      rw [FdtRecord.code, if_neg (by decide), if_neg (by decide), if_pos rfl, h.len_eq]
      dsimp only
      rw [prop_offset nameoff, FdtRecord.token]
  | endNode => rfl
  | nop => rfl

/-- `parse_reserved_memory` returns and has collected nothing. -/
theorem reserved_returns (h : p.Ahead mem off records) :
    Returns (fun c => reservedRound mem p.structStart c.1 c.2) (off, m) m := by
  induction records generalizing off with
  | nil =>
      refine .done ?_
      rw [reservedRound, h.code_nil]
      rfl
  | cons r records ih => exact .more (reservedRound_record h) (ih h.tail)

/-! ### The inner loop -/

/-- The words of a name with its zeros are not taken for a property or an end. -/
theorem name_word {k : ℕ} (h : Holds mem a (pad4 (name ++ [0#8]))) (hname : 0#8 ∉ name)
    (hk : 4 * k < align4 (name.length + 1)) :
    beRead mem (a + 4 * k) 4 ≠ fdtProp ∧ beRead mem (a + 4 * k) 4 ≠ fdtEndNode := by
  rw [pad4, holds_append] at h
  obtain ⟨_, hne, hzero⟩ := holds_name h.1 hname
  have hword : beRead mem (a + 4 * k) 4 =
      (((0 * 256 + (mem (a + 4 * k + 0)).toNat) * 256 + (mem (a + 4 * k + 1)).toNat) * 256 +
        (mem (a + 4 * k + 2)).toNat) * 256 + (mem (a + 4 * k + 3)).toNat := rfl
  rw [hword, fdtProp, fdtEndNode]
  by_cases hin : 4 * k < name.length
  · -- the first byte is one of the name
    have hfirst : (mem (a + 4 * k + 0)).toNat ≠ 0 := fun h0 =>
      hne (4 * k) hin (BitVec.eq_of_toNat_eq h0)
    omega
  · -- all bytes are zeros behind the name
    have hpad : ∀ i < 4, mem (a + 4 * k + i) = 0#8 := by
      intro i hi
      by_cases hlast : 4 * k + i = name.length
      · rw [Nat.add_assoc, hlast]
        exact hzero
      · have hfill := h.2
        rw [List.length_append, List.length_singleton] at hfill
        have hlt : 4 * k + i - (name.length + 1) <
            align4 (name.length + 1) - (name.length + 1) := by
          rw [align4] at hk ⊢
          omega
        have hmem : mem (a + (name.length + 1) + (4 * k + i - (name.length + 1))) ∈
            bytesAt mem (a + (name.length + 1)) (align4 (name.length + 1) - (name.length + 1)) :=
          List.mem_map.2 ⟨_, List.mem_range.2 hlt, rfl⟩
        rw [Holds, List.length_replicate] at hfill
        rw [hfill] at hmem
        have heq := List.eq_of_mem_replicate hmem
        rwa [Nat.add_assoc, Nat.add_sub_cancel' (by omega), ← Nat.add_assoc] at heq
    rw [hpad 0 (by decide), hpad 1 (by decide), hpad 2 (by decide), hpad 3 (by decide)]
    decide

/-- The inner loop passes over the beginning of a subnode word by word. -/
theorem inner_begin (h : p.Ahead mem off (.beginNode name :: records)) :
    Visits (memoryRound mem p.structStart) ⟨off, some saved, m⟩
      ⟨off + (FdtToken.beginNode name).size, some saved, m⟩ := by
  have hfirst : memoryRound mem p.structStart ⟨off, some saved, m⟩ =
      .more ⟨off + 4, some saved, m⟩ := by
    rw [memoryRound]
    dsimp only
    rw [innerRound, h.code_eq]
    rfl
  have hholds := h.name_holds
  have hname := (h.fits _ List.mem_cons_self).2.1
  have hwords : ∀ k, 4 * k ≤ align4 (name.length + 1) →
      Visits (memoryRound mem p.structStart) ⟨off + 4, some saved, m⟩
        ⟨off + 4 + 4 * k, some saved, m⟩ := by
    intro k
    induction k with
    | zero => exact fun _ => .refl
    | succ k ih =>
        intro hk
        obtain ⟨hprop, hend⟩ := name_word hholds hname (k := k) (by omega)
        rw [Nat.add_assoc] at hprop hend
        refine (ih (by omega)).more ?_
        rw [memoryRound]
        dsimp only
        rw [innerRound, if_neg hprop, if_neg hend]
        congr 2
  have hall := hwords (align4 (name.length + 1) / 4) (by omega)
  have hsize : off + 4 + 4 * (align4 (name.length + 1) / 4) =
      off + (FdtToken.beginNode name).size := by
    rw [FdtToken.size, align4]
    omega
  rw [hsize] at hall
  exact .head hfirst hall

/-- What the inner loop leads to: it comes to an end and goes back, or takes the property that is
met first and leaves, past nothing that would be met otherwise. -/
def InnerResult (p : FdtParser) (mem : Mem) (records : List FdtRecord) (off saved : ℕ)
    (m : MemoryMap) : Prop :=
  (nextProp (records.filterMap FdtRecord.item) = none ∧
    Visits (memoryRound mem p.structStart) ⟨off, some saved, m⟩ ⟨saved, none, m⟩) ∨
  ∃ q off' rest, nextProp (records.filterMap FdtRecord.item) = some q ∧
    Visits (memoryRound mem p.structStart) ⟨off, some saved, m⟩ ⟨off', none, m.addReg q.value⟩ ∧
    p.Ahead mem off' rest ∧ rest <:+ records ∧ rest.length < records.length ∧
    (∀ q', Met q' (rest.filterMap FdtRecord.item) → Met q' (records.filterMap FdtRecord.item)) ∧
    ∀ q', Met q' (records.filterMap FdtRecord.item) →
      q' = q ∨ Met q' (rest.filterMap FdtRecord.item)

/-- A record that the inner loop passes over. -/
theorem InnerResult.cons {off' : ℕ} (h : InnerResult p mem records off' saved m)
    (hvisits : Visits (memoryRound mem p.structStart) ⟨off, some saved, m⟩ ⟨off', some saved, m⟩)
    (hr : (∃ name, r = .beginNode name) ∨ r = .nop) :
    InnerResult p mem (r :: records) off saved m := by
  rcases h with ⟨hnone, hback⟩ | ⟨q, off'', rest, hnext, htake, hahead, hsuffix, hlt, hsub, hmet⟩
  · refine Or.inl ⟨?_, hvisits.trans hback⟩
    rcases hr with ⟨name, rfl⟩ | rfl <;> exact hnone
  · refine Or.inr ⟨q, off'', rest, ?_, hvisits.trans htake, hahead,
      hsuffix.trans (List.suffix_cons r records), Nat.lt_succ_of_lt hlt, fun q' hq' => ?_,
      fun q' hq' => ?_⟩
    · rcases hr with ⟨name, rfl⟩ | rfl <;> exact hnext
    · rcases hr with ⟨name, rfl⟩ | rfl
      · exact Or.inr (hsub q' hq')
      · exact hsub q' hq'
    · rcases hr with ⟨name, rfl⟩ | rfl
      · rcases hq' with ⟨_, hfirst⟩ | hlater
        · -- what is met first behind this beginning is what is taken
          exact Or.inl (Option.some.inj (hfirst.symm.trans hnext))
        · exact hmet q' hlater
      · exact hmet q' hq'

theorem inner_result (h : p.Ahead mem off records) (hend : .endNode ∈ records) :
    InnerResult p mem records off saved m := by
  induction records generalizing off with
  | nil => exact absurd hend List.not_mem_nil
  | cons r records ih =>
      have hround : memoryRound mem p.structStart ⟨off, some saved, m⟩ =
          innerRound mem p.structStart off saved m := rfl
      rw [innerRound, h.code_eq] at hround
      cases r with
      | beginNode name =>
          have hmem : .endNode ∈ records :=
            (List.mem_cons.1 hend).resolve_left FdtRecord.noConfusion
          exact (ih h.tail hmem).cons (inner_begin h) (Or.inl ⟨name, rfl⟩)
      | nop =>
          have hmem : .endNode ∈ records :=
            (List.mem_cons.1 hend).resolve_left FdtRecord.noConfusion
          exact (ih h.tail hmem).cons (.head hround .refl) (Or.inr rfl)
      | endNode => exact Or.inl ⟨rfl, .head hround .refl⟩
      | prop nameoff q =>
          rw [FdtRecord.code, if_pos rfl, h.len_eq] at hround
          have hdata : bytesAt mem (p.structStart + (off + 4 + 8)) q.value.length = q.value :=
            h.data
          have hoff : off + 4 + 8 + align4 q.value.length =
              off + (FdtRecord.prop nameoff q).token.size := by
            rw [FdtRecord.token, FdtToken.size]
            omega
          dsimp only at hround
          rw [hdata, hoff] at hround
          exact Or.inr ⟨q, _, records, rfl, .head hround .refl, h.tail, List.suffix_cons _ _,
            Nat.lt_succ_self _, fun _ => id, fun _ => Or.inr⟩

/-! ### The whole walk -/

/-- Every node that begins among some records has an end behind it. -/
def Closes (records : List FdtRecord) : Prop :=
  ∀ name rest, .beginNode name :: rest <:+ records → .endNode ∈ rest

/-- From here on `parse_memory_nodes` returns and collects the regions of the properties that are
met first. -/
def Collects (p : FdtParser) (mem : Mem) (records : List FdtRecord) (off : ℕ) (m : MemoryMap) :
    Prop :=
  ∃ qs : List FdtProp, (∀ q, q ∈ qs ↔ Met q (records.filterMap FdtRecord.item)) ∧
    Returns (memoryRound mem p.structStart) ⟨off, none, m⟩
      (qs.foldl (fun m q => m.addReg q.value) m)

/-- A record at which nothing is met. -/
theorem Collects.cons {off' : ℕ} (h : Collects p mem records off' m)
    (hround : memoryRound mem p.structStart ⟨off, none, m⟩ = .more ⟨off', none, m⟩)
    (hmet : ∀ q, Met q ((r :: records).filterMap FdtRecord.item) ↔
      Met q (records.filterMap FdtRecord.item)) : Collects p mem (r :: records) off m := by
  obtain ⟨qs, hqs, hreturns⟩ := h
  exact ⟨qs, fun q => (hqs q).trans (hmet q).symm, .more hround hreturns⟩

theorem collects (h : p.Ahead mem off records) (hcloses : Closes records) :
    Collects p mem records off m := by
  -- the inner loop may take several records at once
  induction hn : records.length using Nat.strong_induction_on generalizing records off m with
  | _ n ih =>
    cases records with
    | nil => exact ⟨[], fun _ => iff_of_false List.not_mem_nil id, .done (outerRound_end h)⟩
    | cons r records =>
        have hshorter : ∀ {rest off m}, rest.length ≤ records.length → p.Ahead mem off rest →
            Closes rest → Collects p mem rest off m := fun hlen hahead hc =>
          ih _ (by rw [← hn]; exact Nat.lt_succ_of_le hlen) hahead hc rfl
        have hcloses' : Closes records := fun name rest hs =>
          hcloses name rest (hs.trans (List.suffix_cons r records))
        have hrest : Collects p mem records (off + r.token.size) m :=
          hshorter le_rfl h.tail hcloses'
        cases r with
        | endNode =>
            exact hrest.cons (outerRound_other h fun _ => FdtRecord.noConfusion) fun _ => Iff.rfl
        | nop =>
            exact hrest.cons (outerRound_other h fun _ => FdtRecord.noConfusion) fun _ => Iff.rfl
        | prop nameoff q =>
            exact hrest.cons (outerRound_other h fun _ => FdtRecord.noConfusion) fun _ => Iff.rfl
        | beginNode name =>
            have hround : memoryRound mem p.structStart ⟨off, none, m⟩ = _ := outerRound_begin h
            by_cases hname : memoryPrefix.isPrefixOf name = true
            · rw [if_pos hname] at hround
              have hin : .endNode ∈ records := hcloses name records List.suffix_rfl
              have hinner : InnerResult p mem records _ (off + (FdtToken.beginNode name).size) m :=
                inner_result h.tail hin
              rcases hinner with ⟨hnone, hback⟩ |
                ⟨q, off', rest, hnext, htake, hahead, hsuffix, hlt, hsub, hmet⟩
              · obtain ⟨qs, hqs, hreturns⟩ := hrest
                refine ⟨qs, fun q => ?_, .more hround (hback.returns hreturns)⟩
                rw [hqs]
                refine ⟨Or.inr, fun hq => hq.resolve_left fun hfirst => ?_⟩
                rw [hnone] at hfirst
                exact absurd hfirst.2.symm (Option.some_ne_none _)
              · obtain ⟨qs, hqs, hreturns⟩ := hshorter (m := m.addReg q.value) hlt.le hahead
                  fun name rest' hs => hcloses' name rest' (hs.trans hsuffix)
                refine ⟨q :: qs, fun q' => ?_, .more hround (htake.returns hreturns)⟩
                rw [List.mem_cons, hqs]
                constructor
                · rintro (rfl | hlater)
                  · exact Or.inl ⟨hname, hnext⟩
                  · exact Or.inr (hsub q' hlater)
                · rintro (⟨_, hfirst⟩ | hlater)
                  · exact Or.inl (Option.some.inj (hfirst.symm.trans hnext))
                  · exact hmet q' hlater
            · rw [if_neg hname] at hround
              exact hrest.cons hround fun q => or_iff_right fun hfirst => hname hfirst.1

/-- The items of a tree close every node that begins among its records. -/
theorem closes_of_items {root : FdtNode} (h : records.filterMap FdtRecord.item = root.items) :
    Closes records := by
  rintro name rest ⟨front, rfl⟩
  obtain ⟨items, hitems⟩ : ∃ items, root.items = items ++ [.endNode] := by
    obtain ⟨rootName, rootProps, rootChildren⟩ := root
    exact ⟨.beginNode rootName :: (rootProps.map .prop ++ FdtNode.itemsAll rootChildren), by
      rw [FdtNode.items, List.cons_append, List.append_assoc]⟩
  rw [hitems, List.filterMap_append, List.filterMap_cons] at h
  dsimp only [FdtRecord.item] at h
  -- the last item is an end, and it stands behind the beginning
  have hlast := congrArg List.getLast? h
  rw [List.getLast?_append, List.getLast?_concat, List.getLast?_cons] at hlast
  have hmem : .endNode ∈ rest.filterMap FdtRecord.item := by
    cases hrest : (rest.filterMap FdtRecord.item).getLast? with
    | none =>
        rw [hrest] at hlast
        exact absurd (Option.some.inj hlast) FdtItem.noConfusion
    | some it =>
        rw [hrest] at hlast
        have hit : it = .endNode := Option.some.inj hlast
        exact List.mem_of_getLast? (hit ▸ hrest)
  obtain ⟨r, hr, hit⟩ := List.mem_filterMap.1 hmem
  cases r with
  | endNode => exact hr
  | beginNode name => cases hit
  | prop nameoff q => cases hit
  | nop => cases hit

end MemoryMap

end walks

/-- `from_device_tree` returns a map in which an address is safe exactly if it is in the first entry
of a property that is met first in a `memory@` node, and in no built-in region. -/
theorem MemoryMap.fromDeviceTree_safe {mem : Mem} {addr : ℕ} {root : FdtNode}
    {records : List FdtRecord} (hlaid : LaidOut mem addr root records) (hroot : root.WellFormed) :
    ∃ map n, (∀ fuel, n ≤ fuel → fromDeviceTree mem fuel addr = some (.ok map)) ∧
      ∀ a, map.isSafeToWrite a = true ↔ builtIn.isForbidden a = false ∧ CollectedAt root a := by
  have hahead := hlaid.ahead hroot
  obtain ⟨qs, hqs, n, hn⟩ := collects (m := builtIn) hahead (closes_of_items hlaid.items)
  obtain ⟨n', hn'⟩ := reserved_returns (m := qs.foldl (fun m q => m.addReg q.value) builtIn) hahead
  refine ⟨qs.foldl (fun m q => m.addReg q.value) builtIn, max n n', fun fuel hfuel => ?_,
    fun a => ?_⟩
  · have hmagic : beRead mem addr 4 = fdtMagic := hlaid.magic
    rw [fromDeviceTree, if_neg (not_not.2 hmagic)]
    have hrun := run_mono (le_trans (le_max_left n n') hfuel) hn
    have hrun' := run_mono (le_trans (le_max_right n n') hfuel) hn'
    dsimp only [FdtParser.structStart, FdtHeader.read] at hrun hrun'
    dsimp only
    rw [hrun, Option.bind_some, hrun']
    rfl
  · have hmet : ∀ q, q ∈ qs ↔ ∃ e ∈ root.nodes, e.2.IsMemory ∧ e.2.firstMet = some q := fun q => by
      rw [hqs, hlaid.items, FdtNode.met_items]
    rw [foldl_addReg_safe, builtIn_safe]
    simp only [hmet, CollectedAt]
    constructor
    · rintro (h | ⟨hfree, q, ⟨e, he, hmemory, hfirst⟩, hr⟩)
      · exact absurd h (by decide)
      · exact ⟨hfree, e, he, hmemory, q, hfirst, hr⟩
    · rintro ⟨hfree, e, he, hmemory, q, hfirst, hr⟩
      exact Or.inr ⟨hfree, q, ⟨e, he, hmemory, hfirst⟩, hr⟩

/-- With enough rounds, `from_device_tree` returns one map. -/
theorem MemoryMap.fromDeviceTree_unique {mem : Mem} {addr n n' : ℕ} {map map' : MemoryMap}
    (h : ∀ fuel, n ≤ fuel → fromDeviceTree mem fuel addr = some (.ok map))
    (h' : ∀ fuel, n' ≤ fuel → fromDeviceTree mem fuel addr = some (.ok map')) : map = map' := by
  have hboth := h _ (le_max_left n n')
  rw [h' _ (le_max_right n n')] at hboth
  cases hboth
  rfl

/-- The map of a tree reflects it: an address is safe exactly if it lies in the `reg` of a `memory@`
node, in no built-in region, and in the `reg` of no subnode of `reserved-memory`. -/
def Reflects (mem : Mem) (addr : ℕ) (root : FdtNode) : Prop :=
  ∃ map n, (∀ fuel, n ≤ fuel → MemoryMap.fromDeviceTree mem fuel addr = some (.ok map)) ∧
    ∀ a : Usize, map.isSafeToWrite a = true ↔ MemoryAt root a.toNat ∧
      MemoryMap.builtIn.isForbidden a = false ∧ ¬ ReservedAt root a.toNat

/-- Outside the built-in regions, the first entries of the properties that are met first in the
`memory@` nodes have no address but of their `reg`, none that is reserved, and all others of it. -/
structure FirstEntriesSuffice (root : FdtNode) : Prop where
  memory : ∀ a : Usize, MemoryMap.builtIn.isForbidden a = false → CollectedAt root a →
    MemoryAt root a.toNat
  free : ∀ a : Usize, MemoryMap.builtIn.isForbidden a = false → CollectedAt root a →
    ¬ ReservedAt root a.toNat
  all : ∀ a : Usize, MemoryMap.builtIn.isForbidden a = false → MemoryAt root a.toNat →
    ¬ ReservedAt root a.toNat → CollectedAt root a

/-- The map reflects the tree exactly if the first entries suffice. -/
theorem fromDeviceTree_reflects_iff {mem : Mem} {addr : ℕ} {root : FdtNode}
    {records : List FdtRecord} (hlaid : LaidOut mem addr root records) (hroot : root.WellFormed) :
    Reflects mem addr root ↔ FirstEntriesSuffice root := by
  obtain ⟨map, n, hmap, hsafe⟩ := MemoryMap.fromDeviceTree_safe hlaid hroot
  constructor
  · rintro ⟨map', n', hmap', hsafe'⟩
    obtain rfl := MemoryMap.fromDeviceTree_unique hmap' hmap
    refine ⟨fun a hfree hc => ?_, fun a hfree hc => ?_, fun a hfree hm hr => ?_⟩
    · exact ((hsafe' a).1 ((hsafe a).2 ⟨hfree, hc⟩)).1
    · exact ((hsafe' a).1 ((hsafe a).2 ⟨hfree, hc⟩)).2.2
    · exact ((hsafe a).1 ((hsafe' a).2 ⟨hm, hfree, hr⟩)).2
  · rintro ⟨hmemory, hfreeR, hall⟩
    refine ⟨map, n, hmap, fun a => (hsafe a).trans ⟨fun h => ?_, fun h => ?_⟩⟩
    · exact ⟨hmemory a h.1 h.2, h.1, hfreeR a h.1 h.2⟩
    · exact ⟨h.2.1, hall a h.2.1 h.1 h.2.2⟩

/-! ### Boards -/

/-- The `reg` entries of the `memory@` nodes. -/
def memoryEntries (root : FdtNode) : List (ℕ × ℕ) :=
  root.nodes.flatMap fun e => if memoryPrefix.isPrefixOf e.2.name then e.2.reg else []

/-- The `reg` entries of the subnodes of `reserved-memory`. -/
def reservedEntries (root : FdtNode) : List (ℕ × ℕ) :=
  root.nodes.flatMap fun e =>
    if e.2.name = reservedPrefix then e.2.children.flatMap FdtNode.reg else []

/-- The regions that are collected, up to order and repetition. -/
def collectedRegions (root : FdtNode) : List MemoryRegion :=
  root.nodes.filterMap fun e =>
    if memoryPrefix.isPrefixOf e.2.name then
      e.2.firstMet.bind fun q => MemoryMap.regRegion q.value
    else none

variable {root : FdtNode} {a : ℕ}

theorem memoryAt_iff : MemoryAt root a ↔ ∃ r ∈ memoryEntries root, InEntry a r := by
  simp only [MemoryAt, memoryEntries, FdtNode.IsMemory, List.mem_flatMap, List.mem_ite_nil_right]
  exact ⟨fun ⟨e, he, hname, r, hr, hin⟩ => ⟨r, ⟨e, he, hname, hr⟩, hin⟩,
    fun ⟨r, ⟨e, he, hname, hr⟩, hin⟩ => ⟨e, he, hname, r, hr, hin⟩⟩

theorem reservedAt_iff : ReservedAt root a ↔ ∃ r ∈ reservedEntries root, InEntry a r := by
  simp only [ReservedAt, reservedEntries, List.mem_flatMap, List.mem_ite_nil_right]
  exact ⟨fun ⟨e, he, hname, c, hc, r, hr, hin⟩ => ⟨r, ⟨e, he, hname, c, hc, hr⟩, hin⟩,
    fun ⟨r, ⟨e, he, hname, c, hc, hr⟩, hin⟩ => ⟨e, he, hname, c, hc, r, hr, hin⟩⟩

theorem collectedAt_iff {a : Usize} :
    CollectedAt root a ↔ ∃ r ∈ collectedRegions root, r.contains a = true := by
  simp only [CollectedAt, collectedRegions, FdtNode.IsMemory, List.mem_filterMap,
    Option.ite_none_right_eq_some, Option.bind_eq_some_iff]
  exact ⟨fun ⟨e, he, hname, q, hq, r, hr, hin⟩ => ⟨r, ⟨e, he, hname, q, hq, hr⟩, hin⟩,
    fun ⟨r, ⟨e, he, hname, q, hq, hr⟩, hin⟩ => ⟨e, he, hname, q, hq, r, hr, hin⟩⟩

/-- The value of a `reg` with one entry. -/
def oneEntry (addr size : ℕ) : Bytes := beBytes 8 addr ++ beBytes 8 size

/-- A board with 4 KiB of memory at 1 GiB, and a reserved region elsewhere. -/
def board : FdtNode :=
  .node [] []
    [.node (memoryPrefix ++ [0x30#8]) [⟨regName, oneEntry 0x40000000 0x1000⟩] [],
      .node reservedPrefix [] [.node [0x61#8] [⟨regName, oneEntry 0x50000000 0x1000⟩] []]]

/-- Its records. -/
def boardRecords : List FdtRecord :=
  [.beginNode [], .beginNode (memoryPrefix ++ [0x30#8]),
    .prop 0 ⟨regName, oneEntry 0x40000000 0x1000⟩, .endNode, .beginNode reservedPrefix,
    .beginNode [0x61#8], .prop 0 ⟨regName, oneEntry 0x50000000 0x1000⟩, .endNode, .endNode,
    .endNode]

theorem laidOut_board :
    LaidOut (memOf 4096 (fdtBlob boardRecords (regName ++ [0#8]))) 4096 board boardRecords :=
  laidOut_fdtBlob (by decide +kernel) (by decide +kernel) (by decide +kernel)

theorem wellFormed_board : board.WellFormed := by decide +kernel

theorem firstEntriesSuffice_board : FirstEntriesSuffice board := by
  have hmemory : memoryEntries board = [(0x40000000, 0x1000)] := by decide +kernel
  have hreserved : reservedEntries board = [(0x50000000, 0x1000)] := by decide +kernel
  have hcollected : collectedRegions board = [⟨0x40000000#64, 0x1000#64, true, "ram"⟩] := by
    decide +kernel
  have hcontains : ∀ a : Usize, CollectedAt board a ↔ InEntry a.toNat (0x40000000, 0x1000) := by
    intro a
    simp only [collectedAt_iff, hcollected, List.mem_singleton, exists_eq_left]
    exact MemoryMap.contains_iff (by decide)
  refine ⟨fun a _ hc => ?_, fun a _ hc hr => ?_, fun a _ hm _ => ?_⟩
  · simp only [memoryAt_iff, hmemory, List.mem_singleton, exists_eq_left]
    exact (hcontains a).1 hc
  · simp only [reservedAt_iff, hreserved, List.mem_singleton, exists_eq_left] at hr
    have hin := (hcontains a).1 hc
    rw [InEntry] at hr hin
    omega
  · simp only [memoryAt_iff, hmemory, List.mem_singleton, exists_eq_left] at hm
    exact (hcontains a).2 hm

/-- The map of the board reflects it. -/
theorem fromDeviceTree_reflects_board :
    Reflects (memOf 4096 (fdtBlob boardRecords (regName ++ [0#8]))) 4096 board :=
  (fromDeviceTree_reflects_iff laidOut_board wellFormed_board).2 firstEntriesSuffice_board

/-- `device_type`, with the value `memory`. -/
def deviceType : FdtProp :=
  ⟨[0x64#8, 0x65#8, 0x76#8, 0x69#8, 0x63#8, 0x65#8, 0x5f#8, 0x74#8, 0x79#8, 0x70#8, 0x65#8],
    [0x6d#8, 0x65#8, 0x6d#8, 0x6f#8, 0x72#8, 0x79#8, 0#8]⟩

/-- A board with a `memory@` node whose `reg` is its second property, and one whose second half is
reserved. -/
def secondBoard : FdtNode :=
  .node [] []
    [.node (memoryPrefix ++ [0x30#8]) [deviceType, ⟨regName, oneEntry 0x40000000 0x1000⟩] [],
      .node (memoryPrefix ++ [0x31#8]) [⟨regName, oneEntry 0x60000000 0x2000⟩] [],
      .node reservedPrefix [] [.node [0x61#8] [⟨regName, oneEntry 0x60001000 0x1000⟩] []]]

/-- Its records. -/
def secondRecords : List FdtRecord :=
  [.beginNode [], .beginNode (memoryPrefix ++ [0x30#8]), .prop 4 deviceType,
    .prop 0 ⟨regName, oneEntry 0x40000000 0x1000⟩, .endNode, .beginNode (memoryPrefix ++ [0x31#8]),
    .prop 0 ⟨regName, oneEntry 0x60000000 0x2000⟩, .endNode, .beginNode reservedPrefix,
    .beginNode [0x61#8], .prop 0 ⟨regName, oneEntry 0x60001000 0x1000⟩, .endNode, .endNode,
    .endNode]

/-- The memory that holds its blob. -/
def secondMem : Mem :=
  memOf 4096 (fdtBlob secondRecords (regName ++ [0#8] ++ deviceType.name ++ [0#8]))

theorem laidOut_secondBoard : LaidOut secondMem 4096 secondBoard secondRecords :=
  laidOut_fdtBlob (by decide +kernel) (by decide +kernel) (by decide +kernel)

theorem wellFormed_secondBoard : secondBoard.WellFormed := by decide +kernel

/-- Its first memory is not safe, and its reserved region is. -/
theorem fromDeviceTree_misses_memory : ∃ mem addr root records, LaidOut mem addr root records ∧
    root.WellFormed ∧
    (∃ map, MemoryMap.fromDeviceTree mem 300 addr = some (.ok map) ∧
      (MemoryAt root 0x40000000 ∧ map.isSafeToWrite 0x40000000#64 = false) ∧
      ReservedAt root 0x60001000 ∧ map.isSafeToWrite 0x60001000#64 = true) ∧
    ¬ Reflects mem addr root := by
  have hmap : MemoryMap.fromDeviceTree secondMem 300 4096 =
      some (.ok (MemoryMap.builtIn.addReg (oneEntry 0x60000000 0x2000))) := by decide +kernel
  have hmemory : memoryEntries secondBoard = [(0x40000000, 0x1000), (0x60000000, 0x2000)] := by
    decide +kernel
  have hreserved : reservedEntries secondBoard = [(0x60001000, 0x1000)] := by decide +kernel
  have hcollected : collectedRegions secondBoard = [⟨0x60000000#64, 0x2000#64, true, "ram"⟩] := by
    decide +kernel
  have hat : MemoryAt secondBoard 0x40000000 := by
    rw [memoryAt_iff, hmemory]
    exact ⟨_, List.mem_cons_self, by decide, by decide⟩
  have hrat : ReservedAt secondBoard 0x60001000 := by
    rw [reservedAt_iff, hreserved]
    exact ⟨_, List.mem_cons_self, by decide, by decide⟩
  refine ⟨secondMem, 4096, secondBoard, secondRecords, laidOut_secondBoard, wellFormed_secondBoard,
    ⟨_, hmap, ⟨hat, by decide +kernel⟩, hrat, by decide +kernel⟩, ?_⟩
  rintro ⟨map, n, hn, hsafe⟩
  obtain ⟨map', n', hn', hsafe'⟩ :=
    MemoryMap.fromDeviceTree_safe laidOut_secondBoard wellFormed_secondBoard
  obtain rfl := MemoryMap.fromDeviceTree_unique hn' hn
  -- the reserved address is collected, so the map takes it to be safe
  have hcoll : CollectedAt secondBoard 0x60001000#64 := by
    rw [collectedAt_iff, hcollected]
    exact ⟨_, List.mem_cons_self, by decide⟩
  exact ((hsafe _).1 ((hsafe' _).2 ⟨by decide +kernel, hcoll⟩)).2.2 hrat

end StarOS
