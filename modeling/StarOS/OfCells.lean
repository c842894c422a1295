/-
Nodes of the device tree and their cells (`drivers/of/base.rs` and the first half of
`drivers/of/address.rs`).

A node is what is read of it here: its properties and its parent, with all that is above it.

* `StarOS.DeviceNode`, `StarOS.ofGetProperty`, `StarOS.ofGetParent`, `StarOS.ofPropertyReadU32` —
  nodes, and what is asked of them;
* `StarOS.ofNAddrCells`, `StarOS.ofNSizeCells` — the cell counts that hold for a node;
* `StarOS.ofReadNumber`, `StarOS.writeNumber` — numbers in cells;
* `StarOS.ofReadNumber_eq`, `StarOS.writeNumber_eq` — they are big-endian numbers;
* `StarOS.CellCounts`, `StarOS.DeviceNode.Gives` — the counts that a node gives for its children,
  with `StarOS.DeviceNode.Gives.child` and `StarOS.DeviceNode.Gives.root`.
-/

import StarOS.BigEndian

set_option autoImplicit false

namespace StarOS

/-! ### Nodes and properties -/

/-- `Property`. -/
structure OfProperty where
  name : String
  value : Bytes

/-- `DeviceNode`: one without a parent, or one with. -/
inductive DeviceNode
  | root (properties : List OfProperty)
  | child (parent : DeviceNode) (properties : List OfProperty)

/-- The list behind `properties`. -/
def DeviceNode.properties : DeviceNode → List OfProperty
  | .root properties => properties
  | .child _ properties => properties

/-- `parent`. -/
def DeviceNode.parent : DeviceNode → Option DeviceNode
  | .root _ => none
  | .child parent _ => some parent

/-- `of_find_property`. -/
def ofFindProperty (np : Option DeviceNode) (name : String) : Option OfProperty :=
  np.bind fun np => np.properties.find? fun prop => prop.name == name

/-- `of_get_property`. -/
def ofGetProperty (np : Option DeviceNode) (name : String) : Option Bytes :=
  (ofFindProperty np name).map fun prop => prop.value

/-- `of_get_parent`. -/
def ofGetParent (node : Option DeviceNode) : Option DeviceNode := node.bind DeviceNode.parent

/-- The cases of `FdtError` that `of_property_read_u32` returns. -/
inductive OfPropertyError
  | notFound
  | invalidValue
  deriving DecidableEq, Repr

/-- `of_property_read_u32`. -/
def ofPropertyReadU32 (np : Option DeviceNode) (propname : String) : Except OfPropertyError ℕ :=
  match ofGetProperty np propname with
  | none => .error .notFound
  | some value => if value.length < 4 then .error .invalidValue else .ok (beNat (value.take 4))

/-- The count of cells that holds for a node, from its parent, and for a node without a parent from
itself. -/
def cellCount (propname : String) (default : ℕ) : Option DeviceNode → ℕ
  | none => default
  | some np =>
      match ofPropertyReadU32 (some (np.parent.getD np)) propname with
      | .ok v => v
      | .error _ => default

/-- `of_n_addr_cells`. -/
def ofNAddrCells (np : Option DeviceNode) : ℕ := cellCount "#address-cells" 2 np

/-- `of_n_size_cells`. -/
def ofNSizeCells (np : Option DeviceNode) : ℕ := cellCount "#size-cells" 1 np

/-! ### Numbers in cells -/

/-- `of_read_number`. -/
def ofReadNumber (cell : Bytes) (size : ℕ) : BitVec 64 :=
  (List.range size).foldl (fun result i =>
    if i * 4 + 4 ≤ cell.length then
      (result <<< 32) ||| BitVec.ofNat 64 (beNat ((cell.drop (i * 4)).take 4))
    else result) 0#64

/-- `dest[offset..offset + src.len()].copy_from_slice(src)`. -/
def copyAt (dest src : Bytes) (offset : ℕ) : Option Bytes :=
  if offset + src.length ≤ dest.length then
    some (dest.take offset ++ (src ++ dest.drop (offset + src.length)))
  else none

/-- `write_number`. -/
def writeNumber (addr : Bytes) (value : BitVec 64) (size : ℕ) : Option Bytes :=
  if size = 1 then copyAt addr (beBytes 4 value.toNat) 0
  else if size = 2 then
    (copyAt addr (beBytes 4 (value >>> 32).toNat) 0).bind fun addr =>
      copyAt addr (beBytes 4 (value &&& 0xFFFFFFFF#64).toNat) 4
  else
    some ((List.range size).foldl (fun addr i =>
      -- the shift count is taken modulo 64
      let shift := (size - 1 - i) * 32 % 64
      (copyAt addr (beBytes 4 (value >>> shift).toNat) (i * 4)).getD addr) addr)

/-- Shifting a number by a cell and adding the next cell. -/
theorem shift_or_cell (a : ℕ) {b : ℕ} (hb : b < 2 ^ 32) :
    (BitVec.ofNat 64 a <<< 32) ||| BitVec.ofNat 64 b = BitVec.ofNat 64 (a * 2 ^ 32 + b) := by
  refine BitVec.eq_of_toNat_eq ?_
  have hshift : (BitVec.ofNat 64 a <<< 32).toNat = 2 ^ 32 * (a % 2 ^ 32) := by
    rw [BitVec.toNat_shiftLeft, BitVec.toNat_ofNat, Nat.shiftLeft_eq]
    omega
  rw [BitVec.toNat_or, hshift, BitVec.toNat_ofNat, BitVec.toNat_ofNat,
    Nat.mod_eq_of_lt (by omega : b < 2 ^ 64), ← Nat.two_pow_add_eq_or_of_lt hb]
  omega

/-- The number in the first cells. -/
theorem ofReadNumber_eq {cell : Bytes} {size : ℕ} (h : 4 * size ≤ cell.length) :
    ofReadNumber cell size = BitVec.ofNat 64 (beNat (cell.take (4 * size))) := by
  induction size with
  | zero => rfl
  | succ size ih =>
      have hlen : ((cell.drop (4 * size)).take 4).length = 4 := by
        rw [List.length_take, List.length_drop]
        omega
      have hcell : beNat ((cell.drop (4 * size)).take 4) < 2 ^ 32 := by
        have hlt := beNat_lt ((cell.drop (4 * size)).take 4)
        rwa [hlen] at hlt
      have hsplit : cell.take (4 * (size + 1)) =
          cell.take (4 * size) ++ (cell.drop (4 * size)).take 4 := by
        rw [Nat.mul_succ, List.take_add]
      rw [ofReadNumber, List.range_succ, List.foldl_append]
      change (if size * 4 + 4 ≤ cell.length then
        (ofReadNumber cell size <<< 32) |||
          BitVec.ofNat 64 (beNat ((cell.drop (size * 4)).take 4))
        else ofReadNumber cell size) = _
      have hpow : (256 : ℕ) ^ 4 = 2 ^ 32 := by decide
      rw [if_pos (by omega), ih (by omega), Nat.mul_comm size 4, shift_or_cell _ hcell, hsplit,
        beNat_append, hlen, hpow]

theorem beBytes_add (m n v : ℕ) : beBytes (m + n) v = beBytes m (v / 256 ^ n) ++ beBytes n v := by
  induction n generalizing v with
  | zero => rw [Nat.pow_zero, Nat.div_one, beBytes, List.append_nil, Nat.add_zero]
  | succ n ih =>
      rw [← Nat.add_assoc, beBytes, beBytes, ih, List.append_assoc, Nat.div_div_eq_div_mul,
        Nat.pow_succ, Nat.mul_comm 256]

/-- The bytes of a number depend on as much of it only. -/
theorem beBytes_mod (n v : ℕ) : beBytes n (v % 256 ^ n) = beBytes n v := by
  induction n generalizing v with
  | zero => rfl
  | succ n ih =>
      have hdiv : v % 256 ^ (n + 1) / 256 = v / 256 % 256 ^ n := by
        rw [Nat.pow_succ, Nat.mul_comm, Nat.mod_mul_right_div_self]
      have hlast : BitVec.ofNat 8 (v % 256 ^ (n + 1)) = BitVec.ofNat 8 v := by
        refine BitVec.eq_of_toNat_eq ?_
        rw [BitVec.toNat_ofNat, BitVec.toNat_ofNat, Nat.pow_succ, Nat.mul_comm]
        exact Nat.mod_mul_right_mod _ _ _
      rw [beBytes, beBytes, hdiv, ih, hlast]

/-- One or two cells are overwritten with a number. -/
theorem writeNumber_eq {addr : Bytes} (value : BitVec 64) {size : ℕ} (hsize : size = 1 ∨ size = 2)
    (h : 4 * size ≤ addr.length) :
    writeNumber addr value size =
      some (beBytes (4 * size) value.toNat ++ addr.drop (4 * size)) := by
  rcases hsize with rfl | rfl
  · have hcopy : 0 + (beBytes 4 value.toNat).length ≤ addr.length := by
      rw [length_beBytes]
      omega
    rw [writeNumber, if_pos rfl, copyAt, if_pos hcopy, length_beBytes]
    rfl
  · have hhigh : 0 + (beBytes 4 (value >>> 32).toNat).length ≤ addr.length := by
      rw [length_beBytes]
      omega
    have hlow : (value &&& 0xFFFFFFFF#64).toNat = value.toNat % 256 ^ 4 := by
      rw [BitVec.toNat_and]
      exact Nat.and_two_pow_sub_one_eq_mod value.toNat 32
    have hcopy : 4 + (beBytes 4 (value &&& 0xFFFFFFFF#64).toNat).length ≤
        (beBytes 4 (value >>> 32).toNat ++ addr.drop 4).length := by
      rw [length_beBytes, List.length_append, length_beBytes, List.length_drop]
      omega
    have htake : (beBytes 4 (value >>> 32).toNat ++ addr.drop 4).take 4 =
        beBytes 4 (value >>> 32).toNat := List.take_left' length_beBytes
    have hdrop : (beBytes 4 (value >>> 32).toNat ++ addr.drop 4).drop 8 = addr.drop 8 := by
      rw [List.drop_append, length_beBytes, List.drop_drop,
        List.drop_of_length_le (by rw [length_beBytes]; omega), List.nil_append]
    have hshift : (value >>> 32).toNat = value.toNat / 256 ^ 4 := by
      have hpow : (256 : ℕ) ^ 4 = 2 ^ 32 := by decide
      rw [BitVec.toNat_ushiftRight, Nat.shiftRight_eq_div_pow, hpow]
    have hbytes : beBytes (4 * 2) value.toNat =
        beBytes 4 (value.toNat / 256 ^ 4) ++ beBytes 4 value.toNat := beBytes_add 4 4 value.toNat
    rw [writeNumber, if_neg (by decide), if_pos rfl, copyAt, if_pos hhigh, length_beBytes,
      Option.bind_some]
    change copyAt (beBytes 4 (value >>> 32).toNat ++ addr.drop 4) _ 4 = _
    rw [copyAt, if_pos hcopy, htake, length_beBytes, hdrop, hlow, beBytes_mod, hshift, hbytes,
      List.append_assoc]

/-! ### Cell counts -/

/-- Counts of cells for addresses and sizes, one or two each. -/
structure CellCounts where
  addr : ℕ
  size : ℕ
  addr_eq : addr = 1 ∨ addr = 2
  size_eq : size = 1 ∨ size = 2

theorem CellCounts.addr_pos (c : CellCounts) : 0 < c.addr := by
  rcases c.addr_eq with h | h <;> omega

theorem CellCounts.addr_le (c : CellCounts) : c.addr ≤ 2 := by
  rcases c.addr_eq with h | h <;> omega

theorem CellCounts.size_le (c : CellCounts) : c.size ≤ 2 := by
  rcases c.size_eq with h | h <;> omega

/-- A node gives cell counts for its children. -/
structure DeviceNode.Gives (node : DeviceNode) (c : CellCounts) : Prop where
  addr : ofGetProperty (some node) "#address-cells" = some (beBytes 4 c.addr)
  size : ofGetProperty (some node) "#size-cells" = some (beBytes 4 c.size)

namespace DeviceNode

variable {node p : DeviceNode} {c : CellCounts}

theorem cellCount_of {propname : String} {default n : ℕ} (hn : n = 1 ∨ n = 2)
    (h : ofGetProperty (some (node.parent.getD node)) propname = some (beBytes 4 n)) :
    cellCount propname default (some node) = n := by
  have htake : (beBytes 4 n).take 4 = beBytes 4 n :=
    List.take_of_length_le (by rw [length_beBytes])
  have hlt : ¬(beBytes 4 n).length < 4 := by
    rw [length_beBytes]
    omega
  have hread : ofPropertyReadU32 (some (node.parent.getD node)) propname = .ok n := by
    unfold ofPropertyReadU32
    rw [h]
    dsimp only
    rw [if_neg hlt, htake, beNat_beBytes, Nat.mod_eq_of_lt (by omega)]
  unfold cellCount
  dsimp only
  rw [hread]

/-- The counts that hold for a node are the ones that its parent gives. -/
theorem Gives.child (h : p.Gives c) (hp : node.parent = some p) :
    ofNAddrCells (some node) = c.addr ∧ ofNSizeCells (some node) = c.size := by
  have hnode : node.parent.getD node = p := by rw [hp]; rfl
  exact ⟨cellCount_of c.addr_eq (by rw [hnode]; exact h.addr),
    cellCount_of c.size_eq (by rw [hnode]; exact h.size)⟩

/-- A node without a parent is asked itself. -/
theorem Gives.root (h : node.Gives c) (hnode : node.parent = none) :
    ofNAddrCells (some node) = c.addr ∧ ofNSizeCells (some node) = c.size := by
  have hself : node.parent.getD node = node := by rw [hnode]; rfl
  exact ⟨cellCount_of c.addr_eq (by rw [hself]; exact h.addr),
    cellCount_of c.size_eq (by rw [hself]; exact h.size)⟩

end DeviceNode

end StarOS
