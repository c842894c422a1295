/-
Device trees and how they lie in a blob.

A node has a name, properties and subnodes.  Its items are its beginning, its properties, the items
of its subnodes and its end.  In the structure of a blob they stand one after another, each a token
with what belongs to it, filled up with zeros to a multiple of four bytes; tokens without meaning
may stand between them, and the name of a property is in the strings of the blob.

* `StarOS.FdtProp`, `StarOS.FdtNode`, `StarOS.FdtNode.items` — trees and their items;
* `StarOS.FdtNode.nodes` — the nodes of a tree with their path components;
* `StarOS.FdtNode.WellFormed` — what the names of a tree must be like;
* `StarOS.FdtRecord`, `StarOS.FdtRecord.bytes` — the records of the structure;
* `StarOS.Holds` — bytes that lie in memory, with `StarOS.holds_append`;
* `StarOS.LaidOut` — a tree that is laid out in a blob;
* `StarOS.FdtParser.readToken_record` — the parser reads the token of a record.
-/

import StarOS.FdtBounds
import Mathlib.Data.List.Basic

set_option autoImplicit false

namespace StarOS

/-! ### Trees -/

/-- A property. -/
structure FdtProp where
  name : Bytes
  value : Bytes
  deriving DecidableEq, Repr

/-- A node with its subnodes. -/
inductive FdtNode where
  | node (name : Bytes) (props : List FdtProp) (children : List FdtNode)

namespace FdtNode

/-- The name of a node. -/
def name : FdtNode → Bytes
  | .node name _ _ => name

/-- The properties of a node. -/
def props : FdtNode → List FdtProp
  | .node _ props _ => props

/-- The subnodes of a node. -/
def children : FdtNode → List FdtNode
  | .node _ _ children => children

/-- Induction over a tree: what holds of a node if it holds of its subnodes holds of all nodes. -/
@[elab_as_elim]
theorem induct {P : FdtNode → Prop}
    (node : ∀ name props children, (∀ c ∈ children, P c) → P (.node name props children))
    (n : FdtNode) : P n :=
  FdtNode.rec (motive_1 := P) (motive_2 := fun l => ∀ c ∈ l, P c) node
    (fun _ hc => absurd hc List.not_mem_nil)
    (fun _ _ hhead htail c hc => (List.mem_cons.1 hc).elim (fun h => h ▸ hhead) (htail c)) n

end FdtNode

/-- An item of a tree. -/
inductive FdtItem where
  | beginNode (name : Bytes)
  | prop (q : FdtProp)
  | endNode
  deriving DecidableEq, Repr

namespace FdtNode

mutual

/-- The items of a node. -/
def items : FdtNode → List FdtItem
  | .node name props children =>
      .beginNode name :: (props.map .prop ++ (itemsAll children ++ [.endNode]))

/-- The items of some nodes. -/
def itemsAll : List FdtNode → List FdtItem
  | [] => []
  | c :: l => c.items ++ itemsAll l

end

mutual

/-- A node below the components of a path, and the nodes below it, with their components. -/
def located (cs : List Bytes) : FdtNode → List (List Bytes × FdtNode)
  | .node name props children =>
      (cs ++ [name], .node name props children) :: locatedAll (cs ++ [name]) children

/-- Some nodes below the components of a path, and the nodes below them. -/
def locatedAll (cs : List Bytes) : List FdtNode → List (List Bytes × FdtNode)
  | [] => []
  | c :: l => c.located cs ++ locatedAll cs l

end

/-- The nodes of a tree, each with the components of its path below the root. -/
def nodes (root : FdtNode) : List (List Bytes × FdtNode) :=
  ([], root) :: locatedAll [] root.children

end FdtNode

/-- A name that can be read back: at most 256 bytes of UTF-8 without NUL. -/
def IsName (name : Bytes) : Prop := name.length ≤ 256 ∧ 0#8 ∉ name ∧ validUtf8 name = true

instance (name : Bytes) : Decidable (IsName name) := inferInstanceAs (Decidable (_ ∧ _ ∧ _))

/-- The name of a node below the root: not empty and without `/`. -/
def IsComponent (name : Bytes) : Prop := IsName name ∧ name ≠ [] ∧ slash ∉ name

instance (name : Bytes) : Decidable (IsComponent name) := inferInstanceAs (Decidable (_ ∧ _ ∧ _))

/-- The root has the empty name, and every node has subnodes of different names and properties whose
names can be read back. -/
structure FdtNode.WellFormed (root : FdtNode) : Prop where
  rootName : root.name = []
  siblings : ∀ e ∈ root.nodes, (e.2.children.map FdtNode.name).Nodup
  components : ∀ e ∈ root.nodes, ∀ c ∈ e.2.children, IsComponent c.name
  propNames : ∀ e ∈ root.nodes, ∀ q ∈ e.2.props, IsName q.name

instance (root : FdtNode) : Decidable root.WellFormed :=
  decidable_of_iff (root.name = [] ∧ (∀ e ∈ root.nodes, (e.2.children.map FdtNode.name).Nodup) ∧
      (∀ e ∈ root.nodes, ∀ c ∈ e.2.children, IsComponent c.name) ∧
      ∀ e ∈ root.nodes, ∀ q ∈ e.2.props, IsName q.name)
    ⟨fun h => ⟨h.1, h.2.1, h.2.2.1, h.2.2.2⟩,
      fun h => ⟨h.rootName, h.siblings, h.components, h.propNames⟩⟩

/-! ### Records -/

/-- Bytes filled up to a multiple of four. -/
def pad4 (bytes : Bytes) : Bytes :=
  bytes ++ List.replicate (align4 bytes.length - bytes.length) 0#8

/-- A record of the structure of a blob. -/
inductive FdtRecord where
  | beginNode (name : Bytes)
  | prop (nameoff : ℕ) (q : FdtProp)
  | endNode
  | nop
  deriving DecidableEq, Repr

namespace FdtRecord

/-- The bytes of a record. -/
def bytes : FdtRecord → Bytes
  | .beginNode name => beBytes 4 fdtBeginNode ++ pad4 (name ++ [0#8])
  | .prop nameoff q =>
      beBytes 4 fdtProp ++ (beBytes 4 q.value.length ++ (beBytes 4 nameoff ++ pad4 q.value))
  | .endNode => beBytes 4 fdtEndNode
  | .nop => beBytes 4 fdtNop

/-- The item of a record. -/
def item : FdtRecord → Option FdtItem
  | .beginNode name => some (.beginNode name)
  | .prop _ q => some (.prop q)
  | .endNode => some .endNode
  | .nop => none

/-- The word that a record begins with. -/
def code : FdtRecord → ℕ
  | .beginNode _ => fdtBeginNode
  | .prop _ _ => fdtProp
  | .endNode => fdtEndNode
  | .nop => fdtNop

/-- The token that the parser reads from a record. -/
def token : FdtRecord → FdtToken
  | .beginNode name => .beginNode name
  | .prop nameoff q => .prop q.value.length nameoff
  | .endNode => .endNode
  | .nop => .nop

end FdtRecord

/-! ### Bytes in memory -/

/-- The memory holds the bytes from an address on. -/
def Holds (mem : Mem) (a : ℕ) (bytes : Bytes) : Prop := bytesAt mem a bytes.length = bytes

instance (mem : Mem) (a : ℕ) (bytes : Bytes) : Decidable (Holds mem a bytes) :=
  inferInstanceAs (Decidable (_ = _))

variable {mem : Mem} {a n v : ℕ} {bs cs : Bytes}

@[simp] theorem length_bytesAt : (bytesAt mem a n).length = n := by
  rw [bytesAt, List.length_map, List.length_range]

theorem bytesAt_add (m : ℕ) : bytesAt mem a (n + m) = bytesAt mem a n ++ bytesAt mem (a + n) m := by
  rw [bytesAt, List.range_add, List.map_append, List.map_map]
  refine congrArg _ (List.map_congr_left fun i _ => ?_)
  rw [Function.comp_apply, Nat.add_assoc]

theorem holds_append : Holds mem a (bs ++ cs) ↔ Holds mem a bs ∧ Holds mem (a + bs.length) cs := by
  rw [Holds, List.length_append, bytesAt_add]
  constructor
  · exact fun h => List.append_inj h length_bytesAt
  · rintro ⟨h, h'⟩
    rw [h, h']

/-- A name with a NUL behind it ends at the first NUL. -/
theorem holds_name {name : Bytes} (h : Holds mem a (name ++ [0#8])) (hname : 0#8 ∉ name) :
    Holds mem a name ∧ (∀ i < name.length, mem (a + i) ≠ 0#8) ∧ mem (a + name.length) = 0#8 := by
  rw [holds_append] at h
  refine ⟨h.1, fun i hi heq => ?_, ?_⟩
  · have hmem : mem (a + i) ∈ bytesAt mem a name.length :=
      List.mem_map.2 ⟨i, List.mem_range.2 hi, rfl⟩
    rw [h.1, heq] at hmem
    exact hname hmem
  · have hlast := h.2
    rw [Holds] at hlast
    simpa [bytesAt] using hlast

@[simp] theorem length_beBytes : (beBytes n v).length = n := by
  induction n generalizing v with
  | zero => rfl
  | succ n ih => rw [beBytes, List.length_append, ih, List.length_singleton]

/-- A number that lies in memory is read. -/
theorem beRead_of_holds (h : Holds mem a (beBytes n v)) : beRead mem a n = v % 256 ^ n := by
  induction n generalizing v with
  | zero => exact (Nat.mod_one v).symm
  | succ n ih =>
      rw [beBytes, holds_append, length_beBytes] at h
      have hlast : mem (a + n) = BitVec.ofNat 8 v := by
        have := h.2
        rw [Holds] at this
        simpa [bytesAt] using this
      rw [beRead, ih h.1, hlast, BitVec.toNat_ofNat]
      have hpow : (256 : ℕ) ^ (n + 1) = 256 * 256 ^ n := by rw [Nat.pow_succ, Nat.mul_comm]
      rw [hpow, Nat.mod_mul]
      omega

/-- Words that lie in memory one after another are read. -/
theorem beRead_words {vs : List ℕ} (h : Holds mem a (vs.flatMap (beBytes 4)))
    (hvs : ∀ v ∈ vs, v < 2 ^ 32) (i : ℕ) (hv : vs[i]? = some v) : beRead mem (a + 4 * i) 4 = v := by
  induction vs generalizing a i with
  | nil => exact absurd hv (by simp)
  | cons w vs ih =>
      rw [List.flatMap_cons, holds_append, length_beBytes] at h
      cases i with
      | zero =>
          obtain rfl : w = v := Option.some.inj hv
          exact (beRead_of_holds h.1).trans (Nat.mod_eq_of_lt (hvs w List.mem_cons_self))
      | succ i =>
          have hrest := ih h.2 (fun v hv => hvs v (List.mem_cons_of_mem _ hv)) i hv
          rwa [Nat.add_assoc, Nat.add_comm 4, ← Nat.mul_succ] at hrest

/-- What stands somewhere in the bytes that lie in memory lies there. -/
theorem holds_of_prefix_drop (h : Holds mem a bs) (hcs : cs <+: bs.drop n) (hn : n ≤ bs.length) :
    Holds mem (a + n) cs := by
  obtain ⟨rest, hrest⟩ := hcs
  rw [← List.take_append_drop n bs, holds_append, List.length_take_of_le hn, ← hrest,
    holds_append] at h
  exact h.2.1

theorem holds_memOf (a : ℕ) (bs : Bytes) : Holds (memOf a bs) a bs := by
  refine List.ext_getElem length_bytesAt fun i hi hi' => ?_
  simp only [bytesAt, memOf, List.getElem_map, List.getElem_range, Nat.add_sub_cancel_left]
  rw [List.getD_eq_getElem?_getD, List.getElem?_eq_getElem hi', Option.getD_some]

theorem beRead_lt : beRead mem a n < 256 ^ n := by
  induction n with
  | zero => exact Nat.one_pos
  | succ n ih =>
      have hbyte := (mem (a + n)).isLt
      rw [beRead, Nat.pow_succ]
      omega

theorem align4_le (n : ℕ) : n ≤ align4 n := by
  rw [align4]
  omega

@[simp] theorem length_pad4 : (pad4 bs).length = align4 bs.length := by
  have hle := align4_le bs.length
  rw [pad4, List.length_append, List.length_replicate]
  omega

/-- A record takes as many bytes as its token. -/
theorem FdtRecord.length_bytes (r : FdtRecord) : r.bytes.length = r.token.size := by
  cases r with
  | beginNode name =>
      rw [bytes, token, FdtToken.size, List.length_append, length_beBytes, length_pad4,
        List.length_append, List.length_singleton]
  | prop nameoff q =>
      rw [bytes, token, FdtToken.size]
      simp only [List.length_append, length_beBytes, length_pad4]
      omega
  | endNode => rfl
  | nop => rfl

/-! ### Trees in a blob -/

/-- The name of a property lies in the strings, with a NUL behind it. -/
def FdtRecord.Named (mem : Mem) (strings size : ℕ) : FdtRecord → Prop
  | .prop nameoff q =>
      nameoff + q.name.length < size ∧ Holds mem (strings + nameoff) (q.name ++ [0#8])
  | _ => True

instance (strings size : ℕ) (r : FdtRecord) : Decidable (r.Named mem strings size) :=
  match r with
  | .prop _ _ => inferInstanceAs (Decidable (_ ∧ _))
  | .beginNode _ | .endNode | .nop => .isTrue trivial

/-- A tree is laid out in the blob at an address: its items are the records of the structure, and
the structure and the strings lie in the blob where its header says. -/
structure LaidOut (mem : Mem) (base : ℕ) (root : FdtNode) (records : List FdtRecord) : Prop where
  magic : (FdtHeader.read mem base).magic = fdtMagic
  items : records.filterMap FdtRecord.item = root.items
  bytes : Holds mem (base + (FdtHeader.read mem base).offDtStruct)
    (records.flatMap FdtRecord.bytes ++ beBytes 4 fdtEnd)
  size : (FdtHeader.read mem base).sizeDtStruct = (records.flatMap FdtRecord.bytes).length + 4
  structInside : (FdtHeader.read mem base).offDtStruct + (FdtHeader.read mem base).sizeDtStruct ≤
    (FdtHeader.read mem base).totalsize
  stringsInside : (FdtHeader.read mem base).offDtStrings + (FdtHeader.read mem base).sizeDtStrings ≤
    (FdtHeader.read mem base).totalsize
  names : ∀ r ∈ records, r.Named mem (base + (FdtHeader.read mem base).offDtStrings)
    (FdtHeader.read mem base).sizeDtStrings

/-- A blob of version 17 with these records and strings behind its header. -/
def fdtBlob (records : List FdtRecord) (strings : Bytes) : Bytes :=
  let structure_ := records.flatMap FdtRecord.bytes ++ beBytes 4 fdtEnd
  [fdtMagic, 40 + structure_.length + strings.length, 40, 40 + structure_.length, 0, 17, 16, 0,
    strings.length, structure_.length].flatMap (beBytes 4) ++ (structure_ ++ strings)

/-- The name of a property is in the strings. -/
def FdtRecord.NamedIn (strings : Bytes) : FdtRecord → Prop
  | .prop nameoff q => q.name ++ [0#8] <+: strings.drop nameoff
  | _ => True

instance (strings : Bytes) (r : FdtRecord) : Decidable (r.NamedIn strings) :=
  match r with
  | .prop nameoff q => inferInstanceAs (Decidable (q.name ++ [0#8] <+: strings.drop nameoff))
  | .beginNode _ | .endNode | .nop => .isTrue trivial

theorem FdtRecord.NamedIn.named {strings : Bytes} {r : FdtRecord} (hr : r.NamedIn strings)
    (h : Holds mem a strings) : r.Named mem a strings.length := by
  cases r with
  | prop nameoff q =>
      have hlen := hr.length_le
      rw [List.length_append, List.length_singleton, List.length_drop] at hlen
      exact ⟨by omega, holds_of_prefix_drop h hr (by omega)⟩
  | _ => trivial

section blob

variable {base : ℕ} {root : FdtNode} {records : List FdtRecord} {strings : Bytes}

theorem length_fdtBlob : (fdtBlob records strings).length =
    40 + (records.flatMap FdtRecord.bytes ++ beBytes 4 fdtEnd).length + strings.length := by
  simp only [fdtBlob, List.flatMap_cons, List.flatMap_nil, List.length_append, length_beBytes,
    List.length_nil]
  omega

/-- The header of a blob that is made of records. -/
theorem FdtHeader.read_fdtBlob (base : ℕ) (hsize : (fdtBlob records strings).length < 2 ^ 32) :
    FdtHeader.read (memOf base (fdtBlob records strings)) base =
      ⟨fdtMagic, 40 + (records.flatMap FdtRecord.bytes ++ beBytes 4 fdtEnd).length + strings.length,
        40, 40 + (records.flatMap FdtRecord.bytes ++ beBytes 4 fdtEnd).length, 0, 17, 16, 0,
        strings.length, (records.flatMap FdtRecord.bytes ++ beBytes 4 fdtEnd).length⟩ := by
  rw [length_fdtBlob] at hsize
  have hholds := (holds_append.1 (holds_memOf base (fdtBlob records strings))).1
  have hword := fun i v => @beRead_words _ _ v _ hholds (fun w hw => by
    simp only [List.mem_cons, List.not_mem_nil, or_false, fdtMagic] at hw
    omega) i
  rw [FdtHeader.read, FdtHeader.mk.injEq]
  exact ⟨hword 0 _ rfl, hword 1 _ rfl, hword 2 _ rfl, hword 3 _ rfl, hword 4 _ rfl, hword 5 _ rfl,
    hword 6 _ rfl, hword 7 _ rfl, hword 8 _ rfl, hword 9 _ rfl⟩

/-- A tree is laid out in a blob that is made of records with its items. -/
theorem laidOut_fdtBlob (hitems : records.filterMap FdtRecord.item = root.items)
    (hsize : (fdtBlob records strings).length < 2 ^ 32)
    (hnames : ∀ r ∈ records, r.NamedIn strings) :
    LaidOut (memOf base (fdtBlob records strings)) base root records := by
  have hheader := FdtHeader.read_fdtBlob base hsize
  have hblob := (holds_append.1 (holds_memOf base (fdtBlob records strings))).2
  obtain ⟨hstructure, hstrings⟩ := holds_append.1 hblob
  refine ⟨?_, hitems, ?_, ?_, ?_, ?_, fun r hr => ?_⟩
  · rw [hheader]
  · rw [hheader]
    exact hstructure
  · rw [hheader, List.length_append, length_beBytes]
  · rw [hheader]
    dsimp only
    omega
  · rw [hheader]
  · rw [hheader]
    refine (hnames r hr).named ?_
    rw [← Nat.add_assoc]
    exact hstrings

end blob

/-! ### Reading records -/

/-- The numbers of a record fit in 32 bits, and the name of a node can be read back. -/
def FdtRecord.Fits : FdtRecord → Prop
  | .beginNode name => IsName name
  | .prop nameoff q => q.value.length < 2 ^ 32 ∧ nameoff < 2 ^ 32
  | _ => True

namespace FdtParser

open Reads

variable {p : FdtParser} {off left len : ℕ} {name : Bytes}

theorem readU32_of_holds (h : Holds mem a (beBytes 4 v)) (hv : v < 2 ^ 32) (hbase : p.base ≤ a)
    (hend : a + 4 ≤ p.blobEnd) : (p.readU32 mem a).1 = .ok v := by
  have hread : beRead mem a 4 = v := (beRead_of_holds h).trans (Nat.mod_eq_of_lt hv)
  rw [readU32, if_neg (by omega), ofSpan, hread]

theorem scanString_of_zero (hne : ∀ i < n, mem (a + i) ≠ 0#8) (hzero : mem (a + n) = 0#8)
    (hend : a + n < p.blobEnd) (hlen : len ≤ n) (hleft : n ≤ len + left) :
    (p.scanString mem a left len).1 = .ok n := by
  have hbyte : (p.readByte mem (a + len)).1 = .ok (mem (a + len)) := by
    rw [readByte, if_neg (by omega), ofSpan]
  induction left generalizing len with
  | zero =>
      obtain rfl : len = n := by omega
      rw [scanString]
      refine bind_eq_ok.2 ⟨_, hbyte, ?_⟩
      rw [if_pos hzero, Reads.pure]
  | succ left ih =>
      rw [scanString]
      refine bind_eq_ok.2 ⟨_, hbyte, ?_⟩
      by_cases hlast : len = n
      · rw [hlast, if_pos hzero, Reads.pure]
      · rw [if_neg (hne len (by omega))]
        refine ih (by omega) (by omega) ?_
        rw [readByte, if_neg (by omega), ofSpan]

/-- A name that lies in memory is read. -/
theorem readString_of_holds (h : Holds mem a (name ++ [0#8])) (hname : IsName name)
    (hbase : p.base ≤ a) (hend : a + name.length < p.blobEnd) :
    (p.readString mem a).1 = .ok name := by
  obtain ⟨hholds, hne, hzero⟩ := holds_name h hname.2.1
  rw [readString, if_neg (by omega)]
  refine bind_eq_ok.2 ⟨name.length, scanString_of_zero hne hzero hend (Nat.zero_le _) ?_, ?_⟩
  · rw [Nat.zero_add]
    exact hname.1
  · refine bind_eq_ok.2 ⟨_, rfl, ?_⟩
    rw [hholds, if_pos hname.2.2, Reads.pure]

/-- The parser reads the token of a record that lies in the structure. -/
theorem readToken_record {r : FdtRecord} (h : Holds mem (p.structStart + off) r.bytes)
    (hfits : r.Fits) (hend : p.structStart + off + r.bytes.length ≤ p.blobEnd) :
    (p.readToken mem off).1 = .ok r.token := by
  have hbase : p.base ≤ p.structStart := Nat.le_add_right _ _
  rw [FdtRecord.length_bytes] at hend
  have hsize := four_le_size r.token
  cases r with
  | beginNode name =>
      rw [FdtRecord.bytes, holds_append, length_beBytes, pad4, holds_append] at h
      have hlong := align4_le (name.length + 1)
      rw [FdtRecord.token, FdtToken.size] at hend
      refine bind_eq_ok.2 ⟨_, readU32_of_holds h.1 (by decide) (by omega) (by omega), ?_⟩
      rw [if_pos rfl]
      refine bind_eq_ok.2 ⟨name, readString_of_holds ?_ hfits (by omega) (by omega), rfl⟩
      rw [← Nat.add_assoc]
      exact h.2.1
  | prop nameoff q =>
      rw [FdtRecord.bytes, holds_append, length_beBytes, holds_append, length_beBytes, holds_append]
        at h
      rw [FdtRecord.token, FdtToken.size] at hend
      refine bind_eq_ok.2 ⟨_, readU32_of_holds h.1 (by decide) (by omega) (by omega), ?_⟩
      rw [if_neg (by decide), if_neg (by decide), if_pos rfl, ← Nat.add_assoc]
      refine bind_eq_ok.2 ⟨_, readU32_of_holds h.2.1 hfits.1 (by omega) (by omega), ?_⟩
      exact bind_eq_ok.2 ⟨_, readU32_of_holds h.2.2.1 hfits.2 (by omega) (by omega), rfl⟩
  | endNode =>
      exact bind_eq_ok.2 ⟨_, readU32_of_holds h (by decide) (by omega) (by omega), rfl⟩
  | nop =>
      exact bind_eq_ok.2 ⟨_, readU32_of_holds h (by decide) (by omega) (by omega), rfl⟩

/-- It reads the end of the structure. -/
theorem readToken_end (h : Holds mem (p.structStart + off) (beBytes 4 fdtEnd))
    (hend : p.structStart + off + 4 ≤ p.blobEnd) : (p.readToken mem off).1 = .ok .fin :=
  bind_eq_ok.2 ⟨_, readU32_of_holds h (by decide)
    (Nat.le_add_right_of_le (Nat.le_add_right _ _)) hend, rfl⟩

end FdtParser

end StarOS
