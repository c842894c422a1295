/-
The parser of flattened device trees (`devicetree/parser.rs`).

A blob lies in memory at `base` and says in its header how long it is and where its structure and
its strings are.  The structure is a sequence of tokens; three walkers go through it, each with the
offset of the next token, the path of the node it is in and its depth.  Every token, node name and
property name is read by a helper that first compares its address with the end of the blob, and each
of these reads is logged here.  The data of a property is not read by a helper: `read_property` and
`get_all_properties` make a slice of it from the length in its record.

The fields of a blob are 32 bits wide, so no address computed from them is more than 2^34 behind its
base; addresses are natural numbers and do not wrap.

* `StarOS.FdtHeader`, `StarOS.FdtParser`, `StarOS.FdtParser.new` — the data and the checks of the
  header;
* `StarOS.Reads` — results with the spans of memory read for them;
* `StarOS.FdtParser.readU32`, `StarOS.FdtParser.readString`, `StarOS.FdtParser.readToken` — the
  helpers;
* `StarOS.FdtParser.walkNodes`, `StarOS.FdtParser.readProperty`, `StarOS.FdtParser.getAllProperties`
  — the walkers, the last two by `StarOS.FdtParser.seekRound`;
* `StarOS.FdtParser.walkNodes_isSome`, `StarOS.FdtParser.seek_isSome` — the walks end.
-/

import StarOS.Error
import StarOS.Loops
import Mathlib.Algebra.Group.Nat.Defs
import Mathlib.Order.Nat

set_option autoImplicit false

namespace StarOS

open Loops

/-! ### Memory -/

/-- A string of bytes. -/
abbrev Bytes := List (BitVec 8)

/-- Memory, by address. -/
abbrev Mem := ℕ → BitVec 8

/-- A span of memory: its first address and its length. -/
structure Span where
  addr : ℕ
  len : ℕ
  deriving DecidableEq, Repr

/-- The big-endian number in the `n` bytes from an address on. -/
def beRead (mem : Mem) (a : ℕ) : ℕ → ℕ
  | 0 => 0
  | n + 1 => beRead mem a n * 256 + (mem (a + n)).toNat

/-- The `n` bytes from an address on. -/
def bytesAt (mem : Mem) (a n : ℕ) : Bytes := (List.range n).map fun i => mem (a + i)

/-- The bytes of a span. -/
def Span.bytes (mem : Mem) (s : Span) : Bytes := bytesAt mem s.addr s.len

/-- The `n` bytes of a number, big-endian. -/
def beBytes : ℕ → ℕ → Bytes
  | 0, _ => []
  | n + 1, v => beBytes n (v / 256) ++ [BitVec.ofNat 8 v]

/-- Memory that holds some bytes from an address on, and zeros elsewhere. -/
def memOf (base : ℕ) (bytes : Bytes) : Mem := fun a => bytes.getD (a - base) 0#8

/-- `(n + 3) & !3`. -/
def align4 (n : ℕ) : ℕ := (n + 3) / 4 * 4

/-! ### UTF-8 -/

/-- The ranges of the bytes that must follow a first byte of UTF-8; `none` if it cannot be one. -/
def utf8Tail (b : ℕ) : Option (List (ℕ × ℕ)) :=
  if b < 0x80 then some []
  else if 0xC2 ≤ b ∧ b ≤ 0xDF then some [(0x80, 0xBF)]
  else if b = 0xE0 then some [(0xA0, 0xBF), (0x80, 0xBF)]
  else if b = 0xED then some [(0x80, 0x9F), (0x80, 0xBF)]
  else if 0xE1 ≤ b ∧ b ≤ 0xEF then some [(0x80, 0xBF), (0x80, 0xBF)]
  else if b = 0xF0 then some [(0x90, 0xBF), (0x80, 0xBF), (0x80, 0xBF)]
  else if 0xF1 ≤ b ∧ b ≤ 0xF3 then some [(0x80, 0xBF), (0x80, 0xBF), (0x80, 0xBF)]
  else if b = 0xF4 then some [(0x80, 0x8F), (0x80, 0xBF), (0x80, 0xBF)]
  else none

/-- Checking UTF-8 with the ranges that the next bytes must be in. -/
def utf8Go : List (ℕ × ℕ) → Bytes → Bool
  | pending, [] => pending.isEmpty
  | [], b :: rest =>
      match utf8Tail b.toNat with
      | some pending => utf8Go pending rest
      | none => false
  | (lo, hi) :: pending, b :: rest =>
      decide (lo ≤ b.toNat) && decide (b.toNat ≤ hi) && utf8Go pending rest

/-- Whether `core::str::from_utf8` takes the bytes. -/
def validUtf8 (bytes : Bytes) : Bool := utf8Go [] bytes

/-! ### The header -/

/-- `FDT_MAGIC`. -/
def fdtMagic : ℕ := 0xd00dfeed

/-- `FDT_BEGIN_NODE`. -/
def fdtBeginNode : ℕ := 1

/-- `FDT_END_NODE`. -/
def fdtEndNode : ℕ := 2

/-- `FDT_PROP`. -/
def fdtProp : ℕ := 3

/-- `FDT_NOP`. -/
def fdtNop : ℕ := 4

/-- `FDT_END`. -/
def fdtEnd : ℕ := 9

/-- `MAX_DT_DEPTH`. -/
def maxDtDepth : ℕ := 32

/-- The header of a blob. -/
structure FdtHeader where
  magic : ℕ
  totalsize : ℕ
  offDtStruct : ℕ
  offDtStrings : ℕ
  offMemRsvmap : ℕ
  version : ℕ
  lastCompVersion : ℕ
  bootCpuidPhys : ℕ
  sizeDtStrings : ℕ
  sizeDtStruct : ℕ
  deriving DecidableEq, Repr

/-- Reading the fields of a header. -/
def FdtHeader.read (mem : Mem) (addr : ℕ) : FdtHeader where
  magic := beRead mem addr 4
  totalsize := beRead mem (addr + 4) 4
  offDtStruct := beRead mem (addr + 8) 4
  offDtStrings := beRead mem (addr + 12) 4
  offMemRsvmap := beRead mem (addr + 16) 4
  version := beRead mem (addr + 20) 4
  lastCompVersion := beRead mem (addr + 24) 4
  bootCpuidPhys := beRead mem (addr + 28) 4
  sizeDtStrings := beRead mem (addr + 32) 4
  sizeDtStruct := beRead mem (addr + 36) 4

/-- A parser: the address of a blob and its header. -/
structure FdtParser where
  base : ℕ
  header : FdtHeader
  deriving DecidableEq, Repr

namespace FdtParser

/-- `FdtParser::parse_header`. -/
def parseHeader (mem : Mem) (addr : ℕ) : Except KernelError FdtHeader :=
  let h := FdtHeader.read mem addr
  if h.magic ≠ fdtMagic then .error .invalidAddress
  else if h.version < 16 ∨ 17 < h.version then .error .invalidAddress
  else if h.totalsize ≤ h.offDtStruct ∨ h.totalsize ≤ h.offDtStrings then .error .invalidAddress
  else if h.totalsize < h.offDtStruct + h.sizeDtStruct then .error .invalidAddress
  else if h.totalsize < h.offDtStrings + h.sizeDtStrings then .error .invalidAddress
  else .ok h

/-- `FdtParser::new`. -/
def new (mem : Mem) (addr : ℕ) : Except KernelError FdtParser :=
  if addr = 0 ∨ addr % 4 ≠ 0 then .error .invalidAddress
  else
    match parseHeader mem addr with
    | .error e => .error e
    | .ok h => if 0x1000000 < h.totalsize then .error .invalidAddress else .ok ⟨addr, h⟩

/-- `struct_start`. -/
def structStart (p : FdtParser) : ℕ := p.base + p.header.offDtStruct

/-- `struct_end`. -/
def structEnd (p : FdtParser) : ℕ := p.structStart + p.header.sizeDtStruct

/-- `strings_base`. -/
def stringsBase (p : FdtParser) : ℕ := p.base + p.header.offDtStrings

/-- The end of the blob. -/
def blobEnd (p : FdtParser) : ℕ := p.base + p.header.totalsize

/-- A span lies inside the blob. -/
def Inside (p : FdtParser) (s : Span) : Prop := p.base ≤ s.addr ∧ s.addr + s.len ≤ p.blobEnd

end FdtParser

/-! ### Reading helpers -/

/-- A result together with the spans of memory that were read for it. -/
def Reads (α : Type) : Type := Except KernelError α × List Span

namespace Reads

variable {α β : Type}

/-- A value that needs no reading. -/
def pure (a : α) : Reads α := (.ok a, [])

/-- An error. -/
def fail (e : KernelError) : Reads α := (.error e, [])

/-- Going on with a result, with `?` for the errors. -/
def bind (x : Reads α) (f : α → Reads β) : Reads β :=
  match x.1 with
  | .ok a => ((f a).1, x.2 ++ (f a).2)
  | .error e => (.error e, x.2)

instance : Monad Reads where
  pure := Reads.pure
  bind := Reads.bind

/-- A value that a span was read for. -/
def ofSpan (s : Span) (a : α) : Reads α := (.ok a, [s])

end Reads

namespace FdtParser

/-- `FdtParser::read_u32`. -/
def readU32 (p : FdtParser) (mem : Mem) (addr : ℕ) : Reads ℕ :=
  if addr < p.base ∨ p.blobEnd < addr + 4 then .fail .invalidAddress
  else .ofSpan ⟨addr, 4⟩ (beRead mem addr 4)

/-- Reading a byte of a string. -/
def readByte (p : FdtParser) (mem : Mem) (addr : ℕ) : Reads (BitVec 8) :=
  if p.blobEnd ≤ addr then .fail .invalidAddress else .ofSpan ⟨addr, 1⟩ (mem addr)

/-- The loop of `read_string`, with the number of bytes that the string may still grow by. -/
def scanString (p : FdtParser) (mem : Mem) (addr : ℕ) : ℕ → ℕ → Reads ℕ
  | 0, len => do
      let byte ← p.readByte mem (addr + len)
      if byte = 0#8 then .pure len else .fail .invalidAddress
  | left + 1, len => do
      let byte ← p.readByte mem (addr + len)
      if byte = 0#8 then .pure len else p.scanString mem addr left (len + 1)

/-- `FdtParser::read_string`. -/
def readString (p : FdtParser) (mem : Mem) (addr : ℕ) : Reads Bytes :=
  if addr < p.base then .fail .invalidAddress
  else do
    let len ← p.scanString mem addr 256 0
    let bytes ← Reads.ofSpan ⟨addr, len⟩ (bytesAt mem addr len)
    if validUtf8 bytes then .pure bytes else .fail .invalidAddress

end FdtParser

/-- A token of the structure, with what the walkers read behind it. -/
inductive FdtToken where
  | beginNode (name : Bytes)
  | endNode
  | prop (len nameoff : ℕ)
  | nop
  | fin
  | unknown
  deriving DecidableEq, Repr

/-- How many bytes a token takes, with its padding. -/
def FdtToken.size : FdtToken → ℕ
  | .beginNode name => 4 + align4 (name.length + 1)
  | .prop len _ => 12 + align4 len
  | _ => 4

/-- Reading the token at an offset, and the name or the two words behind it. -/
def FdtParser.readToken (p : FdtParser) (mem : Mem) (offset : ℕ) : Reads FdtToken := do
  let token ← p.readU32 mem (p.structStart + offset)
  if token = fdtBeginNode then
    let name ← p.readString mem (p.structStart + (offset + 4))
    .pure (.beginNode name)
  else if token = fdtEndNode then .pure .endNode
  else if token = fdtProp then
    let len ← p.readU32 mem (p.structStart + (offset + 4))
    let nameoff ← p.readU32 mem (p.structStart + (offset + 4) + 4)
    .pure (.prop len nameoff)
  else if token = fdtNop then .pure .nop
  else if token = fdtEnd then .pure .fin
  else .pure .unknown

/-! ### Paths -/

/-- The byte of `/`. -/
def slash : BitVec 8 := 0x2F#8

/-- The path after the beginning of a node. -/
def pushName (path : Bytes) (depth : ℕ) (name : Bytes) : Bytes :=
  if path ≠ [] ∧ 0 < depth then path ++ [slash] ++ name else path ++ name

/-- `str::rfind` for `/`. -/
def rfindSlash (path : Bytes) : Option ℕ :=
  (path.reverse.findIdx? fun b => b == slash).map fun i => path.length - 1 - i

/-- The path after the end of a node. -/
def popName (path : Bytes) : Bytes :=
  match rfindSlash path with
  | some pos => path.take pos
  | none => []

/-- Where a walk is: the offset of the next token, the path and the depth of the node, and whether a
property there is one of that node. -/
structure FdtPos where
  offset : ℕ
  path : Bytes
  depth : ℕ
  inNode : Bool
  deriving DecidableEq, Repr

/-- Where a walk is after a token, if it goes on. -/
def FdtPos.next (pos : FdtPos) (t : FdtToken) : Option FdtPos :=
  match t with
  | .beginNode name =>
      some ⟨pos.offset + t.size, pushName pos.path pos.depth name, pos.depth + 1, true⟩
  | .endNode =>
      if pos.depth = 0 then none
      else some ⟨pos.offset + t.size, popName pos.path, pos.depth - 1, false⟩
  | .prop _ _ => some { pos with offset := pos.offset + t.size }
  | .nop => some { pos with offset := pos.offset + t.size }
  | .fin => none
  | .unknown => none

namespace FdtParser

/-! ### Walking all nodes -/

/-- The state of `walk_nodes`, with that of its callback. -/
structure WalkState (σ : Type) where
  offset : ℕ
  depth : ℕ
  path : Bytes
  callback : σ

variable {σ α ρ : Type}

/-- What `walk_nodes` does at a token. -/
def walkToken (p : FdtParser) (callback : σ → Bytes → ℕ → ℕ → Except KernelError Bool × σ)
    (c : WalkState σ) : FdtToken → Round (WalkState σ) (Except KernelError Unit × σ)
  | .beginNode name =>
      let offset := c.offset + (FdtToken.beginNode name).size
      let path := pushName c.path c.depth name
      let depth := c.depth + 1
      if maxDtDepth < depth then .done (.error .invalidAddress, c.callback)
      else
        match callback c.callback path (p.structStart + offset) depth with
        | (.error e, s) => .done (.error e, s)
        | (.ok false, s) => .done (.ok (), s)
        | (.ok true, s) => .more ⟨offset, depth, path, s⟩
  | .endNode =>
      if c.depth = 0 then .done (.error .invalidAddress, c.callback)
      else .more ⟨c.offset + 4, c.depth - 1, popName c.path, c.callback⟩
  | .prop len nameoff => .more { c with offset := c.offset + (FdtToken.prop len nameoff).size }
  | .nop => .more { c with offset := c.offset + 4 }
  | .fin => .done (if c.depth ≠ 0 then .error .invalidAddress else .ok (), c.callback)
  | .unknown => .done (.error .invalidAddress, c.callback)

/-- One round of the loop of `walk_nodes`. -/
def walkRound (p : FdtParser) (mem : Mem)
    (callback : σ → Bytes → ℕ → ℕ → Except KernelError Bool × σ) (c : WalkState σ) :
    Round (WalkState σ) (Except KernelError Unit × σ) × List Span :=
  if p.structStart + c.offset < p.structEnd then
    let token := p.readToken mem c.offset
    match token.1 with
    | .error e => (.done (.error e, c.callback), token.2)
    | .ok t => (p.walkToken callback c t, token.2)
  else (.done (if c.depth ≠ 0 then .error .invalidAddress else .ok (), c.callback), [])

/-- `FdtParser::walk_nodes`, with the spans read. -/
def walkNodes (p : FdtParser) (mem : Mem) (fuel : ℕ)
    (callback : σ → Bytes → ℕ → ℕ → Except KernelError Bool × σ) (s : σ) :
    Option ((Except KernelError Unit × σ) × List Span) :=
  run (logged (p.walkRound mem callback)) fuel (⟨0, 0, [], s⟩, [])

/-! ### Looking into one node -/

/-- The state of the two walkers that look for a node. -/
structure SeekState (α : Type) where
  offset : ℕ
  path : Bytes
  depth : ℕ
  inTarget : Bool
  acc : α

/-- A walk that looks for a node is at a position. -/
def SeekState.At (c : SeekState α) (pos : FdtPos) : Prop :=
  c.offset = pos.offset ∧ c.path = pos.path ∧ c.depth = pos.depth

/-- It takes the properties at the position for those of the node exactly if they are. -/
def SeekState.Aims (c : SeekState α) (nodePath : Bytes) (pos : FdtPos) : Prop :=
  c.inTarget = (pos.inNode && pos.path == nodePath)

section seek

variable (p : FdtParser) (mem : Mem) (nodePath : Bytes)
  (onProp : α → Bytes → Span → Round α ρ × List Span) (finish : α → ρ)

/-- What the two walkers do at a property: nothing unless it is one of the node, with a name that
can be read. -/
def seekProp (c : SeekState α) (len nameoff : ℕ) : Round (SeekState α) ρ × List Span :=
  let next := c.offset + (FdtToken.prop len nameoff).size
  if c.inTarget then
    let name := p.readString mem (p.stringsBase + nameoff)
    match name.1 with
    | .error _ => (.more { c with offset := next }, name.2)
    | .ok found =>
        let out := onProp c.acc found ⟨p.structStart + (c.offset + 12), len⟩
        match out.1 with
        | .more acc => (.more { c with offset := next, acc := acc }, name.2 ++ out.2)
        | .done r => (.done r, name.2 ++ out.2)
  else (.more { c with offset := next }, [])

/-- What the two walkers do at a token. -/
def seekToken (c : SeekState α) : FdtToken → Round (SeekState α) ρ × List Span
  | .beginNode name =>
      let path := pushName c.path c.depth name
      (.more ⟨c.offset + (FdtToken.beginNode name).size, path, c.depth + 1, path == nodePath,
        c.acc⟩, [])
  | .endNode =>
      if c.depth = 0 then (.done (finish c.acc), [])
      else (.more ⟨c.offset + 4, popName c.path, c.depth - 1, false, c.acc⟩, [])
  | .prop len nameoff => p.seekProp mem onProp c len nameoff
  | .nop => (.more { c with offset := c.offset + 4 }, [])
  | .fin => (.done (finish c.acc), [])
  | .unknown => (.done (finish c.acc), [])

/-- One round of the loop of the two walkers that look for the node of a path: `onProp` says what
happens at a property of the node, and `finish` what is returned at the end or where the structure
is broken. -/
def seekRound (c : SeekState α) : Round (SeekState α) ρ × List Span :=
  if p.structStart + c.offset < p.structEnd then
    let token := p.readToken mem c.offset
    match token.1 with
    | .error _ => (.done (finish c.acc), token.2)
    | .ok t =>
        let out := p.seekToken mem nodePath onProp finish c t
        (out.1, token.2 ++ out.2)
  else (.done (finish c.acc), [])

end seek

/-- At a property of the node, `read_property` makes a slice of its data if it has the name. -/
def takeProperty (propName : Bytes) (_ : Unit) (name : Bytes) (data : Span) :
    Round Unit (Option Span) × List Span :=
  if name = propName then (.done (some data), []) else (.more (), [])

/-- `FdtParser::read_property`: the slice of the data, with the spans read. -/
def readProperty (p : FdtParser) (mem : Mem) (fuel : ℕ) (nodePath propName : Bytes) :
    Option (Option Span × List Span) :=
  run (logged (p.seekRound mem nodePath (takeProperty propName) fun _ => none)) fuel
    (⟨0, [], 0, false, ()⟩, [])

/-- At a property of the node, `get_all_properties` copies its data. -/
def copyProperty (mem : Mem) (properties : List (Bytes × Bytes)) (name : Bytes) (data : Span) :
    Round (List (Bytes × Bytes)) (List (Bytes × Bytes)) × List Span :=
  (.more (properties ++ [(name, data.bytes mem)]), [data])

/-- `FdtParser::get_all_properties`, with the spans read and copied. -/
def getAllProperties (p : FdtParser) (mem : Mem) (fuel : ℕ) (nodePath : Bytes) :
    Option (List (Bytes × Bytes) × List Span) :=
  run (logged (p.seekRound mem nodePath (copyProperty mem) id)) fuel (⟨0, [], 0, false, []⟩, [])

/-! ### The walks end -/

theorem four_le_size (t : FdtToken) : 4 ≤ t.size := by
  cases t <;> simp only [FdtToken.size] <;> omega

section rounds

variable {p : FdtParser} {mem : Mem} {nodePath : Bytes}
  {onProp : α → Bytes → Span → Round α ρ × List Span} {finish : α → ρ}
  {callback : σ → Bytes → ℕ → ℕ → Except KernelError Bool × σ}

/-- A round of `walk_nodes` that goes on has read a token and moved behind it. -/
theorem walkRound_more {c c' : WalkState σ} (h : (p.walkRound mem callback c).1 = .more c') :
    p.structStart + c.offset < p.structEnd ∧ ∃ t, (p.readToken mem c.offset).1 = .ok t ∧
      c'.offset = c.offset + t.size := by
  rw [walkRound] at h
  split at h
  · rename_i hlt
    refine ⟨hlt, ?_⟩
    dsimp only at h
    split at h
    · cases h
    · rename_i t ht
      refine ⟨t, ht, ?_⟩
      dsimp only at h
      cases t with
      | beginNode name =>
          rw [walkToken] at h
          split at h
          · cases h
          · split at h <;> cases h
            rfl
      | endNode =>
          rw [walkToken] at h
          split at h <;> cases h
          rfl
      | prop len nameoff => cases h; rfl
      | nop => cases h; rfl
      | fin => cases h
      | unknown => cases h
  · cases h

/-- `walk_nodes` returns. -/
theorem walkNodes_isSome (s : σ) {fuel : ℕ} (hfuel : p.header.sizeDtStruct < fuel) :
    (p.walkNodes mem fuel callback s).isSome = true := by
  have hrun : (run (fun c => (p.walkRound mem callback c).1) fuel ⟨0, 0, [], s⟩).isSome = true :=
    run_isSome (μ := fun c => p.header.sizeDtStruct - c.offset) (fun c c' h => by
      obtain ⟨hlt, t, _, ht⟩ := walkRound_more h
      have hsize := four_le_size t
      rw [structEnd] at hlt
      omega) hfuel
  rw [← run_logged _ _ _ [], Option.isSome_map] at hrun
  exact hrun

/-- Going on behind a property changes only the offset and what has been found. -/
theorem seekProp_more {c c' : SeekState α} {len nameoff : ℕ}
    (h : (p.seekProp mem onProp c len nameoff).1 = .more c') :
    ∃ acc, c' = { c with offset := c.offset + (FdtToken.prop len nameoff).size, acc := acc } := by
  rw [seekProp] at h
  split at h
  · dsimp only at h
    split at h
    · cases h
      exact ⟨c.acc, rfl⟩
    · split at h
      · rename_i acc _
        cases h
        exact ⟨acc, rfl⟩
      · cases h
  · cases h
    exact ⟨c.acc, rfl⟩

/-- A round of the other two that goes on has read a token and moved to the position after it. -/
theorem seekRound_more {c c' : SeekState α} {pos : FdtPos} (hc : c.At pos)
    (h : (p.seekRound mem nodePath onProp finish c).1 = .more c') :
    p.structStart + c.offset < p.structEnd ∧ ∃ t pos', (p.readToken mem c.offset).1 = .ok t ∧
      pos.next t = some pos' ∧ c'.At pos' ∧ (c.Aims nodePath pos → c'.Aims nodePath pos') := by
  obtain ⟨hoffset, hpath, hdepth⟩ := hc
  rw [seekRound] at h
  split at h
  · rename_i hlt
    refine ⟨hlt, ?_⟩
    dsimp only at h
    split at h
    · cases h
    · rename_i t ht
      refine ⟨t, ?_⟩
      cases t with
      | beginNode name =>
          cases h
          exact ⟨_, ht, rfl, ⟨by rw [hoffset], by rw [hpath, hdepth], by rw [hdepth]⟩,
            fun _ => by rw [SeekState.Aims, hpath, hdepth, Bool.true_and]⟩
      | endNode =>
          rw [seekToken] at h
          split at h <;> cases h
          rename_i hpos
          rw [hdepth] at hpos
          exact ⟨_, ht, if_neg hpos, ⟨by rw [hoffset]; rfl, by rw [hpath], by rw [hdepth]⟩,
            fun _ => rfl⟩
      | prop len nameoff =>
          obtain ⟨acc, rfl⟩ := seekProp_more h
          exact ⟨_, ht, rfl, ⟨by rw [hoffset], hpath, hdepth⟩, id⟩
      | nop =>
          cases h
          exact ⟨_, ht, rfl, ⟨by rw [hoffset]; rfl, hpath, hdepth⟩, id⟩
      | fin => cases h
      | unknown => cases h
  · cases h

theorem FdtPos.next_offset {pos pos' : FdtPos} {t : FdtToken} (h : pos.next t = some pos') :
    pos'.offset = pos.offset + t.size := by
  cases t with
  | endNode =>
      rw [FdtPos.next] at h
      split at h
      · exact absurd h.symm (Option.some_ne_none _)
      · cases h
        rfl
  | fin => exact absurd h.symm (Option.some_ne_none _)
  | unknown => exact absurd h.symm (Option.some_ne_none _)
  | beginNode name => cases h; rfl
  | prop len nameoff => cases h; rfl
  | nop => cases h; rfl

/-- The walks that look for a node return. -/
theorem seek_isSome (acc : α) {fuel : ℕ} (hfuel : p.header.sizeDtStruct < fuel) :
    (run (logged (p.seekRound mem nodePath onProp finish)) fuel
      (⟨0, [], 0, false, acc⟩, [])).isSome = true := by
  have hrun : (run (fun c => (p.seekRound mem nodePath onProp finish c).1) fuel
      ⟨0, [], 0, false, acc⟩).isSome = true :=
    run_isSome (μ := fun c => p.header.sizeDtStruct - c.offset) (fun c c' h => by
      have hat : c.At ⟨c.offset, c.path, c.depth, c.inTarget⟩ := ⟨rfl, rfl, rfl⟩
      obtain ⟨hlt, t, pos', _, hnext, hc', _⟩ := seekRound_more hat h
      have hsize := four_le_size t
      have hmove : c'.offset = c.offset + t.size := hc'.1.trans (FdtPos.next_offset hnext)
      rw [structEnd] at hlt
      omega) hfuel
  rw [← run_logged _ _ _ [], Option.isSome_map] at hrun
  exact hrun

end rounds

end FdtParser

end StarOS
