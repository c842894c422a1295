/-
Translation of device addresses (`drivers/of/address.rs`).

A device's address is given in the cells of the bus that it is on, and every bus up to the root has
a `ranges` property that maps its addresses to those of the bus above.  The walk maps the address
through every bus as it should (`StarOS.ofTranslateOne_bus`), but then it asks for the `ranges` of
the root as well, which has none, and fails.  It would start from the wrong entry, too:
`of_get_address` reads `reg` with the cells of the bus above the device's bus.

* `StarOS.ofGetAddress`, `StarOS.ofTranslateOne`, `StarOS.ofTranslateAddress`,
  `StarOS.ofAddressToResource` — the code; a panic or a loop that does not end is `none`;
* `StarOS.AddressSpace`, `StarOS.AddressSpace.map` — the addresses of a bus, and how they are mapped
  to the root;
* `StarOS.DeviceNode.Describes`, `StarOS.DeviceNode.IsDevice` — the trees that describe them;
* `StarOS.AddressSpace.Blocks` — the addresses that are not mapped;
* `StarOS.of_address_iff` — when the code finds what the tree says.
-/

import StarOS.Loops
import StarOS.OfCells
import StarOS.Word

set_option autoImplicit false

namespace StarOS

open Loops

/-! ### The code -/

/-- `AddrError`. -/
inductive AddrError
  | invalid | translateFailed | noParent | badCellCount
  deriving DecidableEq, Repr

/-- `OF_BAD_ADDR`. -/
def ofBadAddr : BitVec 64 := BitVec.allOnes 64

/-- `OF_MAX_ADDR_CELLS`. -/
def ofMaxAddrCells : ℕ := 4

/-- `of_get_address`: the address and the size of an entry of `reg`. -/
def ofGetAddress (dev : Option DeviceNode) (index : Usize) : Option (Option (Bytes × BitVec 64)) :=
  match ofGetParent dev, ofGetProperty dev "reg" with
  | some parent, some reg =>
      let na := ofNAddrCells (some parent)
      let ns := ofNSizeCells (some parent)
      let onesize := BitVec.ofNat 64 ((na + ns) * 4)
      if reg.length < ((index + 1#64) * onesize).toNat then some none
      else
        let offset := index * onesize
        let sizeOffset := offset + BitVec.ofNat 64 (na * 4)
        match byteSlice reg offset.toNat sizeOffset.toNat,
          byteSlice reg sizeOffset.toNat reg.length with
        | some addr, some rest => some (some (addr, ofReadNumber rest ns))
        | _, _ => none
  | _, _ => some none

/-- A round of the loop over the entries of `ranges`, from a cell on.  Its guard keeps the slices
inside. -/
def rangesRound (ranges : Bytes) (na ns pna : ℕ) (childAddr : BitVec 64) (offset : ℕ) :
    Round ℕ (Option (BitVec 64)) :=
  let rone := na + pna + ns
  if offset + rone ≤ ranges.length / 4 then
    let rangeStart := offset * 4
    let rangeChild := ofReadNumber (ranges.drop rangeStart) na
    let parentStart := rangeStart + na * 4
    let rangeParent := ofReadNumber (ranges.drop parentStart) pna
    let sizeStart := parentStart + pna * 4
    let rangeSize := ofReadNumber (ranges.drop sizeStart) ns
    if rangeChild ≤ childAddr ∧ childAddr < rangeChild + rangeSize then
      .done (some (rangeParent + (childAddr - rangeChild)))
    else .more (offset + rone)
  else .done none

/-- `of_translate_one`: the translated address, or nothing if it returns 1. -/
def ofTranslateOne (parent : DeviceNode) (addr : Bytes) (na ns pna : ℕ) : Option (Option Bytes) :=
  match ofGetProperty (some parent) "ranges" with
  | none => some none
  | some ranges =>
      match byteSlice addr 0 (na * 4) with
      | none => none
      | some cells =>
          if ranges = [] then
            let offset := ofReadNumber cells na
            (copyAt addr (List.replicate (pna * 4) 0#8) 0).bind fun addr =>
              (writeNumber addr offset pna).map some
          else
            match run (rangesRound ranges na ns pna (ofReadNumber cells na))
              (ranges.length / 4 + 1) 0 with
            | none => none
            | some none => some none
            | some (some translated) => (writeNumber addr translated pna).map some

/-- The loop of `of_translate_address`. -/
def ofTranslateLoop (parent : DeviceNode) (addr : Bytes) (na ns : ℕ) : Option (BitVec 64) :=
  let pna := ofNAddrCells (some parent)
  let pns := ofNSizeCells (some parent)
  match ofTranslateOne parent addr na ns pna with
  | none => none
  | some none => some ofBadAddr
  | some (some addr) =>
      match parent with
      | .root _ => (byteSlice addr 0 (pna * 4)).map fun cells => ofReadNumber cells pna
      | .child next _ => ofTranslateLoop next addr pna pns

/-- `of_translate_address`. -/
def ofTranslateAddress (dev : Option DeviceNode) (inAddr : Bytes) : Option (BitVec 64) :=
  match dev with
  | none => some ofBadAddr
  | some dev =>
      match ofGetParent (some dev) with
      | none => some (ofReadNumber inAddr (ofNAddrCells (some dev)))
      | some parent =>
          let na := ofNAddrCells (some dev)
          let ns := ofNSizeCells (some dev)
          let addr := List.replicate (ofMaxAddrCells * 4) 0#8
          let addrLen := min (min (na * 4) inAddr.length) addr.length
          (copyAt addr (inAddr.take addrLen) 0).bind fun addr => ofTranslateLoop parent addr na ns

/-- `of_address_to_resource`. -/
def ofAddressToResource (dev : Option DeviceNode) (index : Usize) :
    Option (Except AddrError (BitVec 64 × BitVec 64)) :=
  match ofGetAddress dev index with
  | none => none
  | some none => some (.error .invalid)
  | some (some (addr, size)) =>
      match ofTranslateAddress dev addr with
      | none => none
      | some physAddr =>
          if physAddr = ofBadAddr then some (.error .translateFailed)
          else some (.ok (physAddr, size))

/-! ### Address spaces -/

/-- An entry of the `ranges` of a bus, whose addresses and sizes have the cells `c`, while the
addresses of the bus above have the cells `up`. -/
structure RangeEntry (c up : CellCounts) where
  child : ℕ
  parent : ℕ
  size : ℕ
  size_lt : size < 2 ^ (32 * c.size)
  child_lt : child + size < 2 ^ (32 * c.addr)
  parent_lt : parent + size < 2 ^ (32 * up.addr)

/-- An entry of the `reg` of a device on a bus with the cells `c`. -/
structure RegEntry (c : CellCounts) where
  addr : ℕ
  size : ℕ
  addr_lt : addr < 2 ^ (32 * c.addr)
  size_lt : size < 2 ^ (32 * c.size)

section Entries

variable {c up : CellCounts}

/-- The cells of an entry of `ranges`. -/
def RangeEntry.bytes (e : RangeEntry c up) : Bytes :=
  beBytes (4 * c.addr) e.child ++ (beBytes (4 * up.addr) e.parent ++ beBytes (4 * c.size) e.size)

/-- The cells of an entry of `reg`. -/
def RegEntry.bytes (e : RegEntry c) : Bytes :=
  beBytes (4 * c.addr) e.addr ++ beBytes (4 * c.size) e.size

/-- The entry is for this address. -/
def RangeEntry.contains (e : RangeEntry c up) (x : ℕ) : Bool :=
  decide (e.child ≤ x ∧ x < e.child + e.size)

/-- Where the entry maps an address. -/
def RangeEntry.apply (e : RangeEntry c up) (x : ℕ) : ℕ := e.parent + (x - e.child)

/-- How a bus maps an address: by the first entry for it; and if there are no entries at all, the
address stays as it is. -/
def busMap (ranges : List (RangeEntry c up)) (x : ℕ) : Option ℕ :=
  if ranges.isEmpty then some x else (ranges.find? fun e => e.contains x).map fun e => e.apply x

end Entries

/-- The addresses of a bus, with all that is above the bus.  Without entries, they are as wide as
the ones of the bus above at the most. -/
inductive AddressSpace : CellCounts → Type
  | root (c : CellCounts) : AddressSpace c
  | bus (c up : CellCounts) (ranges : List (RangeEntry c up))
      (wide : ranges = [] → c.addr ≤ up.addr) (parent : AddressSpace up) : AddressSpace c

namespace AddressSpace

/-- Mapping an address to the root. -/
def map {c : CellCounts} : AddressSpace c → ℕ → Option ℕ
  | .root _, x => some x
  | .bus _ _ ranges _ parent, x => (busMap ranges x).bind parent.map

/-- On its way to the root, the address comes to a bus that has entries, but none for it. -/
def Blocks {c : CellCounts} : AddressSpace c → ℕ → Prop
  | .root _, _ => False
  | .bus _ _ ranges _ parent, x =>
      (ranges ≠ [] ∧ ∀ e ∈ ranges, e.contains x = false) ∨
        ∃ y, busMap ranges x = some y ∧ parent.Blocks y

/-- The cells of the bus above, or those of the root. -/
def outer {c : CellCounts} : AddressSpace c → CellCounts
  | .root c => c
  | .bus _ up _ _ _ => up

end AddressSpace

/-- The resource that the tree gives for the `i`-th entry of `reg`. -/
def resource {c : CellCounts} (space : AddressSpace c) (reg : List (RegEntry c)) (i : ℕ) :
    Option (ℕ × ℕ) :=
  reg[i]?.bind fun e => (space.map e.addr).map fun a => (a, e.size)

/-- A node above the devices, and what is above it, describe an address space. -/
inductive DeviceNode.Describes : {c : CellCounts} → DeviceNode → AddressSpace c → Prop
  | root {node : DeviceNode} {c : CellCounts} (parent : node.parent = none) (gives : node.Gives c)
      (ranges : ofGetProperty (some node) "ranges" = none) : Describes node (.root c)
  | bus {node p : DeviceNode} {c up : CellCounts} {ranges : List (RangeEntry c up)}
      {wide : ranges = [] → c.addr ≤ up.addr} {space : AddressSpace up}
      (parent : node.parent = some p) (gives : node.Gives c)
      (value : ofGetProperty (some node) "ranges" = some (ranges.flatMap RangeEntry.bytes))
      (above : Describes p space) : Describes node (.bus c up ranges wide space)

/-- A node above the devices gives the cells of its bus. -/
theorem DeviceNode.Describes.gives {c : CellCounts} {node : DeviceNode} {space : AddressSpace c}
    (h : node.Describes space) : node.Gives c := by
  cases h with
  | root _ gives _ => exact gives
  | bus _ gives _ _ => exact gives

/-- A device with the entries `reg` on a bus with the given addresses. -/
structure DeviceNode.IsDevice {c : CellCounts} (dev : DeviceNode) (space : AddressSpace c)
    (reg : List (RegEntry c)) : Prop where
  parent : ∃ p, dev.parent = some p ∧ p.Describes space
  value : ofGetProperty (some dev) "reg" = some (reg.flatMap RegEntry.bytes)

/-- What is claimed of the result: it is the resource that the tree gives, and an error if there is
none. -/
def Resolves (result : Option (Except AddrError (BitVec 64 × BitVec 64))) :
    Option (ℕ × ℕ) → Prop
  | some (a, s) => result = some (.ok (BitVec.ofNat 64 a, BitVec.ofNat 64 s))
  | none => ∃ e, result = some (.error e)

namespace AddressSpace

variable {c up : CellCounts}

/-- A bus does not map an address if it has entries, but none for it. -/
theorem busMap_eq_none {ranges : List (RangeEntry c up)} {x : ℕ} :
    busMap ranges x = none ↔ ranges ≠ [] ∧ ∀ e ∈ ranges, e.contains x = false := by
  unfold busMap
  split
  · rename_i hempty
    have hnil : ranges = [] := List.isEmpty_iff.1 hempty
    exact ⟨(by intro h; cases h), fun h => absurd hnil h.1⟩
  · rename_i hempty
    have hne : ranges ≠ [] := fun hnil => hempty (List.isEmpty_iff.2 hnil)
    rw [Option.map_eq_none_iff, List.find?_eq_none]
    simp only [Bool.not_eq_true, ne_eq, hne, not_false_eq_true, true_and]

/-- The blocked addresses are the ones that are not mapped to the root. -/
theorem map_eq_none (space : AddressSpace c) (x : ℕ) : space.map x = none ↔ space.Blocks x := by
  induction space generalizing x with
  | root c => exact ⟨(by intro h; cases h), False.elim⟩
  | bus c up ranges wide parent ih =>
      rw [map, Blocks, Option.bind_eq_none_iff]
      constructor
      · intro h
        cases hbus : busMap ranges x with
        | none => exact Or.inl (busMap_eq_none.1 hbus)
        | some y => exact Or.inr ⟨y, rfl, (ih y).1 (h y hbus)⟩
      · rintro (hnone | ⟨z, hz, hblocks⟩) y hy
        · rw [busMap_eq_none.2 hnone] at hy
          cases hy
        · rw [hz] at hy
          cases hy
          exact (ih z).2 hblocks

end AddressSpace

/-! ### Numbers of cells -/

section Cells

variable {n : ℕ}

theorem pow_cells (n : ℕ) : 256 ^ (4 * n) = 2 ^ (32 * n) := by
  have hbyte : (256 : ℕ) = 2 ^ 8 := rfl
  rw [hbyte, ← Nat.pow_mul, ← Nat.mul_assoc]

/-- One or two cells hold numbers of 64 bits at the most. -/
theorem pow_cells_le (hn : n = 1 ∨ n = 2) : 2 ^ (32 * n) ≤ 2 ^ 64 := by
  rcases hn with rfl | rfl
  · exact Nat.pow_le_pow_right (by decide) (by decide)
  · exact Nat.le_refl _

/-- The number at the beginning of a string of cells. -/
theorem ofReadNumber_beBytes {v : ℕ} (hv : v < 2 ^ (32 * n)) (rest : Bytes) :
    ofReadNumber (beBytes (4 * n) v ++ rest) n = BitVec.ofNat 64 v := by
  have hlen : 4 * n ≤ (beBytes (4 * n) v ++ rest).length := by
    rw [List.length_append, length_beBytes]
    exact Nat.le_add_right _ _
  rw [ofReadNumber_eq hlen, List.take_left' length_beBytes, beNat_beBytes, pow_cells,
    Nat.mod_eq_of_lt hv]

end Cells

section Ranges

variable {c up : CellCounts}

theorem RangeEntry.length_bytes (e : RangeEntry c up) :
    e.bytes.length = (c.addr + up.addr + c.size) * 4 := by
  rw [RangeEntry.bytes, List.length_append, List.length_append, length_beBytes, length_beBytes,
    length_beBytes]
  omega

/-- The test whether an entry is for an address, on words. -/
theorem RangeEntry.contains_iff (e : RangeEntry c up) {x : ℕ} (hx : x < 2 ^ 64) :
    (BitVec.ofNat 64 e.child ≤ BitVec.ofNat 64 x ∧
      BitVec.ofNat 64 x < BitVec.ofNat 64 e.child + BitVec.ofNat 64 e.size) ↔
        e.contains x = true := by
  have hbound := Nat.lt_of_lt_of_le e.child_lt (pow_cells_le c.addr_eq)
  rw [← BitVec.ofNat_add, BitVec.le_def, BitVec.lt_def, BitVec.toNat_ofNat, BitVec.toNat_ofNat,
    BitVec.toNat_ofNat, Nat.mod_eq_of_lt (by omega : e.child < 2 ^ 64), Nat.mod_eq_of_lt hx,
    Nat.mod_eq_of_lt hbound, RangeEntry.contains, decide_eq_true_iff]

/-- A translated address, on words. -/
theorem RangeEntry.apply_eq (e : RangeEntry c up) {x : ℕ} (hx : e.contains x = true) :
    BitVec.ofNat 64 e.parent + (BitVec.ofNat 64 x - BitVec.ofNat 64 e.child) =
      BitVec.ofNat 64 (e.apply x) := by
  obtain ⟨hlow, -⟩ := of_decide_eq_true hx
  rw [RangeEntry.apply, BitVec.ofNat_add, BitVec.ofNat_sub_ofNat_of_le x e.child ?_ hlow]
  have hbound := Nat.lt_of_lt_of_le e.child_lt (pow_cells_le c.addr_eq)
  omega

/-- A translated address fits the cells of the bus above. -/
theorem RangeEntry.apply_lt (e : RangeEntry c up) {x : ℕ} (hx : e.contains x = true) :
    e.apply x < 2 ^ (32 * up.addr) := by
  obtain ⟨hlow, hhigh⟩ := of_decide_eq_true hx
  have hbound := e.parent_lt
  rw [RangeEntry.apply]
  omega

/-- One round of the loop over `ranges`, at an entry. -/
theorem rangesRound_entry (front back : Bytes) (e : RangeEntry c up) {offset x : ℕ}
    (hfront : front.length = offset * 4) (hx : x < 2 ^ 64) :
    rangesRound (front ++ (e.bytes ++ back)) c.addr c.size up.addr (BitVec.ofNat 64 x) offset =
      if e.contains x then .done (some (BitVec.ofNat 64 (e.apply x)))
      else .more (offset + (c.addr + up.addr + c.size)) := by
  have hlen := e.length_bytes
  have hguard : offset + (c.addr + up.addr + c.size) ≤
      (front ++ (e.bytes ++ back)).length / 4 := by
    rw [List.length_append, List.length_append]
    omega
  have hparent : e.parent < 2 ^ (32 * up.addr) :=
    Nat.lt_of_le_of_lt (Nat.le_add_right _ _) e.parent_lt
  have hchild : e.child < 2 ^ (32 * c.addr) :=
    Nat.lt_of_le_of_lt (Nat.le_add_right _ _) e.child_lt
  -- the cells of the entry, behind each other
  have hdrop : (front ++ (e.bytes ++ back)).drop (offset * 4) =
      beBytes (4 * c.addr) e.child ++
        (beBytes (4 * up.addr) e.parent ++ (beBytes (4 * c.size) e.size ++ back)) := by
    rw [List.drop_left' hfront, RangeEntry.bytes, List.append_assoc, List.append_assoc]
  have hdrop' : (front ++ (e.bytes ++ back)).drop (offset * 4 + c.addr * 4) =
      beBytes (4 * up.addr) e.parent ++ (beBytes (4 * c.size) e.size ++ back) := by
    rw [← List.drop_drop, hdrop, List.drop_left' (by rw [length_beBytes, Nat.mul_comm])]
  have hdrop'' : (front ++ (e.bytes ++ back)).drop (offset * 4 + c.addr * 4 + up.addr * 4) =
      beBytes (4 * c.size) e.size ++ back := by
    rw [← List.drop_drop, hdrop', List.drop_left' (by rw [length_beBytes, Nat.mul_comm])]
  unfold rangesRound
  dsimp only
  rw [if_pos hguard, hdrop, hdrop', hdrop'', ofReadNumber_beBytes hchild,
    ofReadNumber_beBytes hparent, ofReadNumber_beBytes e.size_lt]
  cases hcontains : e.contains x with
  | true => rw [if_pos ((e.contains_iff hx).2 hcontains), if_pos rfl, e.apply_eq hcontains]
  | false =>
      have hnot : ¬(BitVec.ofNat 64 e.child ≤ BitVec.ofNat 64 x ∧
          BitVec.ofNat 64 x < BitVec.ofNat 64 e.child + BitVec.ofNat 64 e.size) := by
        rw [e.contains_iff hx, hcontains]
        exact Bool.false_ne_true
      rw [if_neg hnot, if_neg Bool.false_ne_true]

/-- The loop over `ranges` finds the first entry for an address. -/
theorem ranges_returns (front : Bytes) (ranges : List (RangeEntry c up)) {offset x : ℕ}
    (hfront : front.length = offset * 4) (hx : x < 2 ^ 64) :
    Returns (rangesRound (front ++ ranges.flatMap RangeEntry.bytes) c.addr c.size up.addr
      (BitVec.ofNat 64 x)) offset
      ((ranges.find? fun e => e.contains x).map fun e => BitVec.ofNat 64 (e.apply x)) := by
  induction ranges generalizing front offset with
  | nil =>
      have hpos := c.addr_pos
      refine Returns.done ?_
      have hguard : ¬offset + (c.addr + up.addr + c.size) ≤
          (front ++ ([] : List (RangeEntry c up)).flatMap RangeEntry.bytes).length / 4 := by
        rw [List.flatMap_nil, List.append_nil, hfront]
        omega
      unfold rangesRound
      dsimp only
      rw [if_neg hguard]
      rfl
  | cons e ranges ih =>
      have hround := rangesRound_entry front (ranges.flatMap RangeEntry.bytes) e hfront hx
      rw [List.flatMap_cons]
      cases hcontains : e.contains x with
      | true =>
          rw [hcontains, if_pos rfl] at hround
          rw [List.find?_cons, hcontains]
          exact Returns.done hround
      | false =>
          rw [hcontains, if_neg Bool.false_ne_true] at hround
          rw [List.find?_cons, hcontains]
          refine Returns.more hround ?_
          have hlen : (front ++ e.bytes).length = (offset + (c.addr + up.addr + c.size)) * 4 := by
            rw [List.length_append, hfront, e.length_bytes]
            omega
          have hnext := ih (front ++ e.bytes) hlen
          rwa [List.append_assoc] at hnext

/-- The loop over `ranges` ends. -/
theorem ranges_run (ranges : List (RangeEntry c up)) {x : ℕ} (hx : x < 2 ^ 64) :
    run (rangesRound (ranges.flatMap RangeEntry.bytes) c.addr c.size up.addr (BitVec.ofNat 64 x))
      ((ranges.flatMap RangeEntry.bytes).length / 4 + 1) 0 =
      some ((ranges.find? fun e => e.contains x).map fun e => BitVec.ofNat 64 (e.apply x)) := by
  have hpos := c.addr_pos
  have hsome : (run (rangesRound (ranges.flatMap RangeEntry.bytes) c.addr c.size up.addr
      (BitVec.ofNat 64 x)) ((ranges.flatMap RangeEntry.bytes).length / 4 + 1) 0).isSome = true := by
    refine @run_isSome _ _ _ 0 _
      (fun offset => (ranges.flatMap RangeEntry.bytes).length / 4 - offset) ?_ (by omega)
    intro s t hround
    unfold rangesRound at hround
    dsimp only at hround
    split at hround
    · split at hround
      · cases hround
      · cases hround
        omega
    · cases hround
  obtain ⟨r, hr⟩ := Option.isSome_iff_exists.1 hsome
  have hreturns := @ranges_returns c up [] ranges 0 x rfl hx
  rw [hr, hreturns.eq hr]

end Ranges

/-! ### The walk -/

/-- The buffer of `of_translate_address` holds an address in its first cells. -/
structure AddrHolds (addr : Bytes) (c : CellCounts) (x : ℕ) : Prop where
  length : addr.length = ofMaxAddrCells * 4
  number : beNat (addr.take (4 * c.addr)) = x

section Walk

variable {c up : CellCounts} {addr : Bytes} {x : ℕ}

namespace AddrHolds

theorem take_length (h : AddrHolds addr c x) : (addr.take (4 * c.addr)).length = 4 * c.addr := by
  have hlen : addr.length = 16 := h.length
  have hc := c.addr_le
  rw [List.length_take, hlen]
  omega

theorem lt (h : AddrHolds addr c x) : x < 2 ^ (32 * c.addr) := by
  rw [← pow_cells, ← h.number]
  have hlt := beNat_lt (addr.take (4 * c.addr))
  rwa [h.take_length] at hlt

/-- The cells of the buffer that are read. -/
theorem slice (h : AddrHolds addr c x) :
    byteSlice addr 0 (c.addr * 4) = some (addr.take (4 * c.addr)) := by
  have hlen : addr.length = 16 := h.length
  have hc := c.addr_le
  have hle : c.addr * 4 ≤ addr.length := by omega
  rw [byteSlice, if_pos ⟨Nat.zero_le _, hle⟩, List.drop_zero, Nat.mul_comm]

/-- The address, as it is read. -/
theorem read (h : AddrHolds addr c x) :
    ofReadNumber (addr.take (4 * c.addr)) c.addr = BitVec.ofNat 64 x := by
  rw [ofReadNumber_eq (Nat.le_of_eq h.take_length.symm), List.take_take, Nat.min_self, h.number]

end AddrHolds

/-- The buffer after an address is written to it. -/
theorem writeNumber_holds {y : ℕ} (hlen : addr.length = ofMaxAddrCells * 4)
    (hy : y < 2 ^ (32 * up.addr)) :
    ∃ addr', writeNumber addr (BitVec.ofNat 64 y) up.addr = some addr' ∧ AddrHolds addr' up y := by
  have hlen' : addr.length = 16 := hlen
  have hc := up.addr_le
  have hle : 4 * up.addr ≤ addr.length := by omega
  have hword : (BitVec.ofNat 64 y).toNat = y :=
    Nat.mod_eq_of_lt (Nat.lt_of_lt_of_le hy (pow_cells_le up.addr_eq))
  refine ⟨_, writeNumber_eq (BitVec.ofNat 64 y) up.addr_eq hle, ?_, ?_⟩
  · rw [List.length_append, length_beBytes, List.length_drop]
    change 4 * up.addr + (addr.length - 4 * up.addr) = 16
    omega
  · rw [List.take_left' length_beBytes, beNat_beBytes, hword, pow_cells, Nat.mod_eq_of_lt hy]

theorem flatMap_bytes_eq_nil {ranges : List (RangeEntry c up)} :
    ranges.flatMap RangeEntry.bytes = [] ↔ ranges = [] := by
  cases ranges with
  | nil => exact ⟨fun _ => rfl, fun _ => rfl⟩
  | cons e ranges =>
      have hpos := c.addr_pos
      have hlen := e.length_bytes
      refine ⟨fun h => ?_, (by intro h; cases h)⟩
      rw [List.flatMap_cons, List.append_eq_nil_iff] at h
      rw [h.1, List.length_nil] at hlen
      omega

/-- Going through a bus maps the address as the bus does. -/
theorem ofTranslateOne_bus {node : DeviceNode} {ranges : List (RangeEntry c up)}
    (hvalue : ofGetProperty (some node) "ranges" = some (ranges.flatMap RangeEntry.bytes))
    (hwide : ranges = [] → c.addr ≤ up.addr) (h : AddrHolds addr c x) :
    (busMap ranges x = none ∧ ofTranslateOne node addr c.addr c.size up.addr = some none) ∨
      ∃ y addr', busMap ranges x = some y ∧
        ofTranslateOne node addr c.addr c.size up.addr = some (some addr') ∧
          AddrHolds addr' up y := by
  have hword := Nat.lt_of_lt_of_le h.lt (pow_cells_le c.addr_eq)
  unfold ofTranslateOne busMap
  rw [hvalue, h.slice]
  dsimp only
  rw [h.read]
  by_cases hnil : ranges = []
  · -- no entries: the address is copied into the cells of the bus above
    have hlen : addr.length = 16 := h.length
    have hc := up.addr_le
    have hcopy : 0 + (List.replicate (up.addr * 4) 0#8).length ≤ addr.length := by
      rw [List.length_replicate]
      omega
    have hzero : copyAt addr (List.replicate (up.addr * 4) 0#8) 0 = some (addr.take 0 ++
        (List.replicate (up.addr * 4) 0#8 ++
          addr.drop (0 + (List.replicate (up.addr * 4) 0#8).length))) := if_pos hcopy
    have hzlen : (addr.take 0 ++ (List.replicate (up.addr * 4) 0#8 ++
        addr.drop (0 + (List.replicate (up.addr * 4) 0#8).length))).length =
          ofMaxAddrCells * 4 := by
      rw [List.take_zero, List.nil_append, List.length_append, List.length_drop]
      change _ = 16
      omega
    have hx : x < 2 ^ (32 * up.addr) :=
      Nat.lt_of_lt_of_le h.lt
        (Nat.pow_le_pow_right (by decide) (Nat.mul_le_mul_left 32 (hwide hnil)))
    obtain ⟨addr', hwrite, hholds⟩ := @writeNumber_holds up _ x hzlen hx
    refine Or.inr ⟨x, addr', ?_, ?_, hholds⟩
    · rw [hnil]
      rfl
    · rw [if_pos (flatMap_bytes_eq_nil.2 hnil), hzero, Option.bind_some, hwrite]
      rfl
  · have hempty : ¬ranges.isEmpty = true := fun he => hnil (List.isEmpty_iff.1 he)
    rw [if_neg hempty, if_neg (fun he => hnil (flatMap_bytes_eq_nil.1 he)), ranges_run ranges hword]
    cases hfind : ranges.find? fun e => e.contains x with
    | none => exact Or.inl ⟨rfl, rfl⟩
    | some e =>
        have hcontains : e.contains x = true :=
          List.find?_some (p := fun e : RangeEntry c up => e.contains x) hfind
        obtain ⟨addr', hwrite, hholds⟩ :=
          @writeNumber_holds up addr _ h.length (e.apply_lt hcontains)
        refine Or.inr ⟨e.apply x, addr', rfl, ?_, hholds⟩
        rw [Option.map_some]
        dsimp only
        rw [hwrite]
        rfl

/-- The walk fails: in a bus that does not map the address, or else in the root. -/
theorem ofTranslateLoop_bad {node : DeviceNode} {space : AddressSpace c}
    (h : node.Describes space) (hx : AddrHolds addr c x) :
    ofTranslateLoop node addr c.addr c.size = some ofBadAddr := by
  induction h generalizing addr x with
  | @root node c _ _ hranges =>
      have hone :
          ofTranslateOne node addr c.addr c.size (ofNAddrCells (some node)) = some none := by
        unfold ofTranslateOne
        rw [hranges]
      unfold ofTranslateLoop
      dsimp only
      rw [hone]
  | @bus node p c up ranges wide space hparent _ hvalue habove ih =>
      -- the cells of the bus above are what its own node gives
      have hcells := habove.gives.child hparent
      cases node with
      | root properties => cases hparent
      | child next properties =>
          cases hparent
          unfold ofTranslateLoop
          dsimp only
          rw [hcells.1, hcells.2]
          rcases ofTranslateOne_bus hvalue wide hx with ⟨-, hone⟩ | ⟨y, addr', -, hone, hholds⟩
          · rw [hone]
          · rw [hone]
            exact ih hholds

end Walk

/-! ### The resource of a device -/

section Resource

variable {c : CellCounts} {dev : DeviceNode} {space : AddressSpace c} {reg : List (RegEntry c)}

/-- The cell counts that hold for a node are those of the bus above it, or of the root. -/
theorem DeviceNode.Describes.cells {p : DeviceNode} (h : p.Describes space) :
    ofNAddrCells (some p) = space.outer.addr ∧ ofNSizeCells (some p) = space.outer.size := by
  cases h with
  | root hnode gives _ => exact gives.root hnode
  | bus hparent _ _ above => exact above.gives.child hparent

/-- `of_get_address` does not panic. -/
theorem ofGetAddress_isSome (h : dev.IsDevice space reg) {index : Usize}
    (hindex : index.toNat < 2 ^ 32) : ∃ r, ofGetAddress (some dev) index = some r := by
  obtain ⟨p, hp, hdescribes⟩ := h.parent
  obtain ⟨hna, hns⟩ := hdescribes.cells
  have hparent : ofGetParent (some dev) = some p := hp
  have haddr := space.outer.addr_le
  have hsize := space.outer.size_le
  unfold ofGetAddress
  rw [hparent, h.value]
  dsimp only
  rw [hna, hns]
  generalize hone : (space.outer.addr + space.outer.size) * 4 = onesize
  have hle : onesize ≤ 16 := by omega
  have hword : (BitVec.ofNat 64 onesize).toNat = onesize := Nat.mod_eq_of_lt (by omega)
  have hmul : index.toNat * onesize ≤ 2 ^ 32 * 16 :=
    Nat.mul_le_mul (Nat.le_of_lt hindex) hle
  split
  · exact ⟨none, rfl⟩
  · rename_i hbound
    -- nothing wraps
    have hsucc : ((index + 1#64) * BitVec.ofNat 64 onesize).toNat =
        index.toNat * onesize + onesize := by
      have hone : (index + 1#64).toNat = index.toNat + 1 := by
        rw [BitVec.toNat_add]
        exact Nat.mod_eq_of_lt (by change index.toNat + 1 < 2 ^ 64; omega)
      rw [BitVec.toNat_mul, hone, hword, Nat.succ_mul, Nat.mod_eq_of_lt (by omega)]
    have hoffset : (index * BitVec.ofNat 64 onesize).toNat = index.toNat * onesize := by
      rw [BitVec.toNat_mul, hword, Nat.mod_eq_of_lt (by omega)]
    have hstop : (index * BitVec.ofNat 64 onesize + BitVec.ofNat 64 (space.outer.addr * 4)).toNat =
        index.toNat * onesize + space.outer.addr * 4 := by
      rw [BitVec.toNat_add, hoffset, BitVec.toNat_ofNat]
      omega
    rw [hsucc] at hbound
    rw [hoffset, hstop, byteSlice, if_pos ⟨by omega, by omega⟩, byteSlice,
      if_pos ⟨by omega, Nat.le_refl _⟩]
    exact ⟨_, rfl⟩

/-- Translating an address of a device fails. -/
theorem ofTranslateAddress_bad (h : dev.IsDevice space reg) (inAddr : Bytes) :
    ofTranslateAddress (some dev) inAddr = some ofBadAddr := by
  obtain ⟨p, hp, hdescribes⟩ := h.parent
  have hparent : ofGetParent (some dev) = some p := hp
  have hcells := hdescribes.gives.child hp
  unfold ofTranslateAddress
  dsimp only
  rw [hparent]
  dsimp only
  rw [hcells.1, hcells.2]
  generalize hlen : min (min (c.addr * 4) inAddr.length)
    (List.replicate (ofMaxAddrCells * 4) 0#8).length = addrLen
  have hzero : (List.replicate (ofMaxAddrCells * 4) 0#8).length = 16 := rfl
  have htake : (inAddr.take addrLen).length = addrLen := by
    rw [List.length_take]
    omega
  have hfits : 0 + (inAddr.take addrLen).length ≤
      (List.replicate (ofMaxAddrCells * 4) 0#8).length := by
    rw [htake]
    omega
  rw [copyAt, if_pos hfits, Option.bind_some]
  refine ofTranslateLoop_bad hdescribes ⟨?_, rfl⟩
  rw [List.take_zero, List.nil_append, List.length_append, List.length_drop, htake]
  change addrLen + (16 - (0 + addrLen)) = 16
  omega

/-- The code never finds the resource of a device. -/
theorem ofAddressToResource_error (h : dev.IsDevice space reg) {index : Usize}
    (hindex : index.toNat < 2 ^ 32) :
    ∃ e, ofAddressToResource (some dev) index = some (.error e) := by
  obtain ⟨r, hr⟩ := ofGetAddress_isSome h hindex
  unfold ofAddressToResource
  rw [hr]
  cases r with
  | none => exact ⟨.invalid, rfl⟩
  | some entry =>
      dsimp only
      rw [ofTranslateAddress_bad h entry.1]
      dsimp only
      exact ⟨.translateFailed, if_pos rfl⟩

/-- There is no resource if `reg` has no such entry, or the address of the entry is blocked. -/
theorem resource_eq_none {i : ℕ} :
    resource space reg i = none ↔ reg.length ≤ i ∨ ∃ e, reg[i]? = some e ∧ space.Blocks e.addr := by
  rw [resource, Option.bind_eq_none_iff]
  constructor
  · intro h
    rcases Nat.lt_or_ge i reg.length with hlt | hge
    · have hget : reg[i]? = some reg[i] := List.getElem?_eq_getElem hlt
      have hmap := h reg[i] hget
      rw [Option.map_eq_none_iff] at hmap
      exact Or.inr ⟨reg[i], hget, (space.map_eq_none _).1 hmap⟩
    · exact Or.inl hge
  · rintro (hge | ⟨e, he, hblocks⟩) f hf
    · rw [List.getElem?_eq_none hge] at hf
      cases hf
    · rw [he] at hf
      cases hf
      rw [(space.map_eq_none e.addr).2 hblocks]
      rfl

/-- An error is what is claimed if the tree gives no resource. -/
theorem resolves_error (e : AddrError) (want : Option (ℕ × ℕ)) :
    Resolves (some (.error e)) want ↔ want = none := by
  cases want with
  | none => exact ⟨fun _ => rfl, fun _ => ⟨e, rfl⟩⟩
  | some p => exact ⟨(by rintro ⟨⟩), (by intro h; cases h)⟩

end Resource

/-! ### The claim -/

/-- The code finds what the tree gives exactly if this is nothing: `reg` has no such entry, or a bus
above the device has entries, but none for the address that the buses below it make of it. -/
theorem of_address_iff {c : CellCounts} {dev : DeviceNode} {space : AddressSpace c}
    {reg : List (RegEntry c)} (h : dev.IsDevice space reg) (index : Usize)
    (hindex : index.toNat < 2 ^ 32) :
    Resolves (ofAddressToResource (some dev) index) (resource space reg index.toNat) ↔
      reg.length ≤ index.toNat ∨
        ∃ e, reg[index.toNat]? = some e ∧ space.Blocks e.addr := by
  obtain ⟨e, he⟩ := ofAddressToResource_error h hindex
  rw [he, resolves_error, resource_eq_none]

/-- One cell for addresses, and one for sizes. -/
def oneCell : CellCounts := ⟨1, 1, Or.inl rfl, Or.inl rfl⟩

/-- The properties that give these counts. -/
def oneCellProperties : List OfProperty :=
  [⟨"#address-cells", beBytes 4 1⟩, ⟨"#size-cells", beBytes 4 1⟩]

/-- The bus maps its first 256 MiB to `0x4000_0000`. -/
def exampleRange : RangeEntry oneCell oneCell :=
  ⟨0, 0x40000000, 0x10000000, by decide, by decide, by decide⟩

/-- A device with 256 bytes at `0x1000`. -/
def exampleEntry : RegEntry oneCell := ⟨0x1000, 0x100, by decide, by decide⟩

/-- A bus below the root. -/
def exampleSpace : AddressSpace oneCell :=
  .bus oneCell oneCell [exampleRange] (by intro h; cases h) (.root oneCell)

/-- A device on a bus below the root. -/
def exampleDevice : DeviceNode :=
  .child (.child (.root oneCellProperties) (oneCellProperties ++ [⟨"ranges", exampleRange.bytes⟩]))
    [⟨"reg", exampleEntry.bytes⟩]

theorem exampleDevice_isDevice : exampleDevice.IsDevice exampleSpace [exampleEntry] where
  parent := ⟨_, rfl, .bus rfl ⟨by decide, by decide⟩ (by decide)
    (.root rfl ⟨by decide, by decide⟩ (by decide))⟩
  value := by decide

/-- The device has no second entry. -/
theorem of_address_second : Resolves (ofAddressToResource (some exampleDevice) 1#64) none :=
  (of_address_iff exampleDevice_isDevice 1#64 (by decide)).2 (Or.inl (by decide))

/-- The device's first entry is at `0x4000_1000`, but the code fails to translate it. -/
theorem of_address_fails :
    exampleDevice.IsDevice exampleSpace [exampleEntry] ∧
      resource exampleSpace [exampleEntry] 0 = some (0x40001000, 0x100) ∧
      ofAddressToResource (some exampleDevice) 0#64 = some (.error .translateFailed) ∧
      ¬Resolves (ofAddressToResource (some exampleDevice) 0#64)
        (resource exampleSpace [exampleEntry] 0) := by
  have hcode : ofAddressToResource (some exampleDevice) 0#64 = some (.error .translateFailed) := by
    decide +kernel
  refine ⟨exampleDevice_isDevice, by decide, hcode, ?_⟩
  rw [hcode, resolves_error]
  decide

end StarOS
