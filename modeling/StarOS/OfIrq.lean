/-
Interrupts in the device tree (`drivers/of/irq.rs`): from the cells that describe an interrupt to
its number in the kernel.

An interrupt controller has a range of numbers, and an interrupt of a device gets the number in the
range of its controller that the first cell of its description says.  For a controller with three
cells the first one is the type of the line, and the line is in the second: all lines of a type get
the same number.

* `StarOS.OfTree`, `StarOS.OfIrq`, `StarOS.IrqDomains` — the tree, a parsed interrupt, and the
  ranges;
* `StarOS.OfTree.ofIrqParseRaw`, `StarOS.OfTree.ofIrqParseOne`, `StarOS.OfTree.ofIrqGet` — the code;
* `StarOS.IrqDomains.Inv` — the ranges of different controllers have no number in common;
* `StarOS.OfTree.Described`, `StarOS.OfTree.Described.ofIrqGet` — an interrupt that is described by
  an `interrupts` entry, and its number;
* `StarOS.of_irq_unique_iff` — when two interrupts have one number exactly if they are one line.
-/

import StarOS.Loops
import StarOS.OfCells
import StarOS.Shifts
import StarOS.Word

set_option autoImplicit false

namespace StarOS

open Loops

/-! ### The tree -/

/-- The nodes of a device tree, as they are read here, and `PHANDLE_CACHE`. -/
structure OfTree (ι : Type) where
  properties : ι → List OfProperty
  parent : ι → Option ι
  phandles : ℕ → Option ι

/-- The `IrqError` of the device tree. -/
inductive OfIrqError where
  | invalid
  | noData
  | notFound
  | parseFailed
  deriving DecidableEq, Repr

/-- `MAX_PHANDLE_ARGS`. -/
def maxPhandleArgs : ℕ := 16

/-- `OfIrq`. -/
structure OfIrq (ι : Type) where
  controller : Option ι
  args : List (BitVec 32)
  argsCount : ℕ
  deriving DecidableEq, Repr

/-- `OfIrq::new`. -/
def OfIrq.new (ι : Type) : OfIrq ι := ⟨none, List.replicate maxPhandleArgs 0#32, 0⟩

/-- The cell of a property at an offset; reading outside it is a panic. -/
def readCell (data : Bytes) (offset : ℕ) : Option (BitVec 32) :=
  (byteSlice data offset (offset + 4)).map fun bytes => BitVec.ofNat 32 (beNat bytes)

variable {ι : Type}

namespace OfTree

variable (t : OfTree ι)

/-- `of_get_property`. -/
def getProperty (node : ι) (name : String) : Option Bytes :=
  ofGetProperty (some (.root (t.properties node))) name

/-- `of_property_read_u32`. -/
def readU32 (node : ι) (name : String) : Except OfPropertyError ℕ :=
  ofPropertyReadU32 (some (.root (t.properties node))) name

/-- A round of `of_irq_find_parent`. -/
def findParentRound (child : ι) : Round ι (Option ι) :=
  match t.readU32 child "interrupt-parent" with
  | .ok phandle => .done (t.phandles phandle)
  | .error _ =>
      match t.parent child with
      | none => .done none
      | some parent =>
          match t.readU32 parent "#interrupt-cells" with
          | .ok _ => .done (some parent)
          | .error _ => .more parent

/-- `of_irq_find_parent`, for a number of rounds. -/
def ofIrqFindParent (rounds : ℕ) (child : ι) : Option (Option ι) :=
  run t.findParentRound rounds child

/-! ### Interrupt maps -/

/-- Where `of_irq_parse_raw` stands. -/
structure RawWalk (ι : Type) where
  ipar : ι
  intsize : ℕ
  addrsize : ℕ
  matchArray : List (BitVec 32)
  outIrq : OfIrq ι

/-- The loop that applies `interrupt-map-mask`. -/
def maskMatch (mask : Bytes) : ℕ → List (BitVec 32) → Option (List (BitVec 32))
  | 0, cells => some cells
  | n + 1, cells =>
      (maskMatch mask n cells).bind fun cells =>
        (readCell mask (n * 4)).bind fun m =>
          cells[n]?.bind fun c => Shifts.setCell cells n (c &&& m)

/-- The loop that compares the cells with an entry of the map, from one cell on. -/
def entryMatches (cells : List (BitVec 32)) (imap : Bytes) (offset : ℕ) :
    ℕ → ℕ → Option Bool
  | _, 0 => some true
  | i, n + 1 =>
      (readCell imap (offset + i * 4)).bind fun v =>
        cells[i]?.bind fun c =>
          if c ≠ v then some false else entryMatches cells imap offset (i + 1) n

/-- A round of the search for an entry, with its offset; it ends with the offset of the entry found.
-/
def findEntryRound (cells : List (BitVec 32)) (imap : Bytes) (keysize : ℕ) (offset : ℕ) :
    Round ℕ (Option (Option ℕ)) :=
  if offset + (keysize + 1) * 4 ≤ imap.length then
    match entryMatches cells imap offset 0 keysize with
    | none => .done none
    | some true => .done (some (some offset))
    | some false =>
        match readCell imap (offset + keysize * 4) with
        | none => .done none
        | some phandle =>
            match t.phandles phandle.toNat with
            | none => .done (some none)
            | some parent =>
                let parentIntsize :=
                  match t.readU32 parent "#interrupt-cells" with
                  | .ok v => v
                  | .error _ => 1
                .more (offset + (keysize + 1 + parentIntsize) * 4)
  else .done (some none)

/-- The search for an entry: the offset grows by a cell at least in every round. -/
def findEntry (cells : List (BitVec 32)) (imap : Bytes) (keysize : ℕ) : Option (Option ℕ) :=
  (run (t.findEntryRound cells imap keysize) (imap.length + 1) 0).join

/-- Copying the arguments of an entry, as far as the map goes. -/
def entryArgs (imap : Bytes) (offset : ℕ) : ℕ → List (BitVec 32) → Option (List (BitVec 32))
  | 0, args => some args
  | n + 1, args =>
      (entryArgs imap offset n args).bind fun args =>
        if offset + n * 4 + 4 ≤ imap.length then
          (readCell imap (offset + n * 4)).bind fun v => Shifts.setCell args n v
        else some args

/-- Going on with the parent of the entry found at an offset. -/
def enterParent (s : RawWalk ι) (imap : Bytes) (offset : ℕ) :
    Option (Except OfIrqError (RawWalk ι)) :=
  let phandleOffset := offset + (s.addrsize + s.intsize) * 4
  (readCell imap phandleOffset).bind fun phandle =>
    match t.phandles phandle.toNat with
    | none => some (.error .notFound)
    | some parent =>
        match t.readU32 parent "#interrupt-cells" with
        | .error _ => some (.error .invalid)
        | .ok parentIntsize =>
            (entryArgs imap (phandleOffset + 4) (min parentIntsize maxPhandleArgs)
              s.outIrq.args).bind fun args =>
                let addrsize :=
                  match t.readU32 parent "#address-cells" with
                  | .ok v => v
                  | .error _ => 0
                (Shifts.load (fun i => args[i]?) addrsize parentIntsize s.matchArray).map
                  fun matchArray =>
                    .ok { ipar := parent
                          intsize := parentIntsize
                          addrsize := addrsize
                          matchArray := matchArray
                          outIrq := ⟨some parent, args, parentIntsize⟩ }

/-- A round of the walk of `of_irq_parse_raw`. -/
def rawRound (rounds : ℕ) (s : RawWalk ι) :
    Round (RawWalk ι) (Option (Except OfIrqError (OfIrq ι))) :=
  let isIntc := (t.getProperty s.ipar "interrupt-controller").isSome
  match t.getProperty s.ipar "interrupt-map" with
  | none =>
      if isIntc then .done (some (.ok s.outIrq))
      else
        match t.ofIrqFindParent rounds s.ipar with
        | none => .done none
        | some none => .done (some (.error .notFound))
        | some (some ipar) =>
            match t.readU32 ipar "#interrupt-cells" with
            | .error _ => .done (some (.error .invalid))
            | .ok intsize => .more { s with ipar := ipar, intsize := intsize }
  | some imap =>
      let masked :=
        match t.getProperty s.ipar "interrupt-map-mask" with
        | none => some s.matchArray
        | some mask =>
            maskMatch mask (min (s.addrsize + s.intsize) (mask.length / 4)) s.matchArray
      match masked.bind fun cells => t.findEntry cells imap (s.addrsize + s.intsize) with
      | none => .done none
      | some none => .done (some (.error .notFound))
      | some (some offset) =>
          match t.enterParent s imap offset with
          | none => .done none
          | some (.error e) => .done (some (.error e))
          | some (.ok s') => .more s'

/-- `of_irq_parse_raw`, with at most so many rounds of each of its loops.  There is no result after
a panic or too few rounds. -/
def ofIrqParseRaw (rounds : ℕ) (device : ι) (addr : Bytes) (outIrq : OfIrq ι) :
    Option (Except OfIrqError (OfIrq ι)) :=
  (t.ofIrqFindParent rounds device).bind fun ipar =>
    match ipar with
    | none => some (.error .notFound)
    | some ipar =>
        match t.readU32 ipar "#interrupt-cells" with
        | .error _ => some (.error .invalid)
        | .ok intsize =>
            let addrsize :=
              match t.readU32 ipar "#address-cells" with
              | .ok v => v
              | .error _ => 2
            (Shifts.load (fun i => readCell addr (i * 4)) 0 (min addrsize (addr.length / 4))
              (List.replicate maxPhandleArgs 0#32)).bind fun matchArray =>
                (Shifts.load (fun i => outIrq.args[i]?) addrsize (min intsize outIrq.argsCount)
                  matchArray).bind fun matchArray =>
                    (run (t.rawRound rounds) rounds
                      ⟨ipar, intsize, addrsize, matchArray, outIrq⟩).join

/-! ### Interrupts of a device -/

/-- A round of the walk through `interrupts-extended`, with the offset and the index.  It ends with
the interrupt asked for, before any map was applied. -/
def extendedRound (ext : Bytes) (index : Usize) (s : ℕ × ℕ) :
    Round (ℕ × ℕ) (Option (Except OfIrqError (OfIrq ι))) :=
  if s.1 < ext.length ∧ s.2 ≤ index.toNat ∧ s.1 + 4 ≤ ext.length then
    match readCell ext s.1 with
    | none => .done none
    | some phandle =>
        match t.phandles phandle.toNat with
        | none => .done (some (.error .notFound))
        | some controller =>
            match t.readU32 controller "#interrupt-cells" with
            | .error _ => .done (some (.error .invalid))
            | .ok intsize =>
                if s.2 = index.toNat then
                  let n := min intsize maxPhandleArgs
                  if s.1 + 4 + n * 4 ≤ ext.length then
                    .done ((Shifts.load (fun i => readCell ext (s.1 + 4 + i * 4)) 0 n
                      (OfIrq.new ι).args).map fun args => .ok ⟨some controller, args, intsize⟩)
                  else .done (some (.error .invalid))
                else .more (s.1 + 4 + intsize * 4, s.2 + 1)
  else .done (some (.error .invalid))

/-- `of_irq_parse_one`.  The arithmetic on the index wraps. -/
def ofIrqParseOne (rounds : ℕ) (device : Option ι) (index : Usize) :
    Option (Except OfIrqError (OfIrq ι)) :=
  match device with
  | none => some (.error .invalid)
  | some device =>
      let addr := (t.getProperty device "reg").getD []
      match t.getProperty device "interrupts-extended" with
      | some ext =>
          (run (t.extendedRound ext index) (ext.length + 1) (0, 0)).join.bind fun res =>
            match res with
            | .error e => some (.error e)
            | .ok outIrq => t.ofIrqParseRaw rounds device addr outIrq
      | none =>
          (t.ofIrqFindParent rounds device).bind fun parent =>
            match parent with
            | none => some (.error .notFound)
            | some parent =>
                match t.readU32 parent "#interrupt-cells" with
                | .error _ => some (.error .invalid)
                | .ok intsize =>
                    if maxPhandleArgs < intsize then some (.error .invalid)
                    else
                      match t.getProperty device "interrupts" with
                      | none => some (.error .noData)
                      | some interrupts =>
                          let offset := index.toNat * intsize * 4 % 2 ^ 64
                          if interrupts.length < (offset + intsize * 4) % 2 ^ 64 then
                            some (.error .invalid)
                          else
                            (Shifts.load (fun i => readCell interrupts ((offset + i * 4) % 2 ^ 64))
                              0 intsize (OfIrq.new ι).args).bind fun args =>
                                t.ofIrqParseRaw rounds device addr ⟨some parent, args, intsize⟩

end OfTree

/-! ### Domains -/

/-- `IrqDomain`. -/
structure IrqDomain where
  baseIrq : BitVec 32
  size : BitVec 32
  deriving DecidableEq, Repr

/-- `IRQ_DOMAIN_COUNTER` and `IRQ_DOMAINS`. -/
structure IrqDomains (ι : Type) where
  counter : BitVec 32
  domains : ι → Option IrqDomain

variable [DecidableEq ι]

namespace IrqDomains

/-- No domain is registered. -/
def new (ι : Type) : IrqDomains ι := ⟨1#32, fun _ => none⟩

/-- `irq_domain_add`, without the number that it returns: the counter before. -/
def irqDomainAdd (s : IrqDomains ι) (controller : ι) (size : BitVec 32) : IrqDomains ι where
  counter := s.counter + size
  domains := Function.update s.domains controller (some ⟨s.counter, size⟩)

omit [DecidableEq ι] in
/-- `irq_domain_map`. -/
def irqDomainMap (s : IrqDomains ι) (controller : ι) (hwirq : BitVec 32) : Option (BitVec 32) :=
  (s.domains controller).bind fun domain =>
    if domain.size ≤ hwirq then none else some (domain.baseIrq + hwirq)

/-- A run of `irq_domain_add`. -/
def addAll (adds : List (ι × BitVec 32)) : IrqDomains ι :=
  adds.foldl (fun s a => s.irqDomainAdd a.1 a.2) (new ι)

end IrqDomains

omit [DecidableEq ι] in
/-- `of_irq_get`. -/
def OfTree.ofIrqGet (t : OfTree ι) (s : IrqDomains ι) (rounds : ℕ) (dev : Option ι)
    (index : Usize) : Option (Except OfIrqError (BitVec 32)) :=
  (t.ofIrqParseOne rounds dev index).bind fun res =>
    match res with
    | .error e => some (.error e)
    | .ok oirq =>
        match oirq.controller with
        | none => some (.error .invalid)
        | some controller =>
            if 0 < oirq.argsCount then
              oirq.args[0]?.map fun hwirq =>
                match s.irqDomainMap controller hwirq with
                | none => .error .notFound
                | some irq => .ok irq
            else some (.error .noData)

/-! ### Enough rounds -/

namespace OfTree

variable (t : OfTree ι)

omit [DecidableEq ι]

/-- The search for an entry comes to an end. -/
theorem findEntry_isSome (cells : List (BitVec 32)) (imap : Bytes) (keysize : ℕ) :
    (run (t.findEntryRound cells imap keysize) (imap.length + 1) 0).isSome = true := by
  refine run_isSome (μ := fun offset => imap.length - offset) (fun s s' hround => ?_) (by simp)
  rw [findEntryRound] at hround
  split at hround
  · rename_i hle
    split at hround
    · cases hround
    · cases hround
    · split at hround
      · cases hround
      · split at hround
        · cases hround
        · cases hround
          omega
  · cases hround

/-- The walk through `interrupts-extended` comes to an end. -/
theorem extended_isSome (ext : Bytes) (index : Usize) :
    (run (t.extendedRound ext index) (ext.length + 1) (0, 0)).isSome = true := by
  refine run_isSome (μ := fun s => ext.length - s.1) (fun s s' hround => ?_) (by simp)
  rw [extendedRound] at hround
  split at hround
  · rename_i hle
    split at hround
    · cases hround
    · split at hround
      · cases hround
      · split at hround
        · cases hround
        · split at hround
          · dsimp only at hround
            split at hround <;> cases hround
          · cases hround
            omega
  · cases hround

end OfTree

/-! ### Ranges of numbers -/

namespace IrqDomains

variable {s : IrqDomains ι} {total : ℕ} {c c' : ι} {d d' : IrqDomain}

/-- The numbers that were handed out are below the counter, and those of different controllers are
different.  The counter itself may have wrapped with the last range. -/
structure Inv (s : IrqDomains ι) (total : ℕ) : Prop where
  lt : total < 2 ^ 32
  counter : s.counter = BitVec.ofNat 32 (total + 1)
  bound : ∀ c d, s.domains c = some d → ∀ k < d.size.toNat, d.baseIrq.toNat + k ≤ total
  disjoint : ∀ c c' d d', s.domains c = some d → s.domains c' = some d' → c ≠ c' →
    ∀ k < d.size.toNat, ∀ k' < d'.size.toNat, d.baseIrq.toNat + k ≠ d'.baseIrq.toNat + k'

omit [DecidableEq ι] in
theorem inv_new : (new ι).Inv 0 where
  lt := by decide
  counter := rfl
  bound := fun c d h => by simp [new] at h
  disjoint := fun c c' d d' h => by simp [new] at h

/-- A new range is behind those before. -/
theorem Inv.add (h : s.Inv total) (c : ι) (size : BitVec 32)
    (hlt : total + size.toNat < 2 ^ 32) :
    (s.irqDomainAdd c size).Inv (total + size.toNat) := by
  -- a range that is not empty does not begin where the counter has wrapped
  have hbase : ∀ k < size.toNat, s.counter.toNat + k = total + 1 + k := by
    intro k hk
    rw [h.counter, BitVec.toNat_ofNat, Nat.mod_eq_of_lt (by omega)]
  have hget : ∀ c₁ d₁, (s.irqDomainAdd c size).domains c₁ = some d₁ →
      (c₁ = c ∧ d₁ = ⟨s.counter, size⟩) ∨ (c₁ ≠ c ∧ s.domains c₁ = some d₁) := by
    intro c₁ d₁ hd
    simp only [irqDomainAdd] at hd
    by_cases hc : c₁ = c
    · subst hc
      rw [Function.update_self] at hd
      exact Or.inl ⟨rfl, (Option.some.inj hd).symm⟩
    · rw [Function.update_of_ne hc] at hd
      exact Or.inr ⟨hc, hd⟩
  refine ⟨hlt, ?_, fun c₁ d₁ hd k hk => ?_, fun c₁ c₂ d₁ d₂ hd₁ hd₂ hne k hk k' hk' => ?_⟩
  · rw [irqDomainAdd, h.counter]
    refine BitVec.eq_of_toNat_eq ?_
    rw [BitVec.toNat_add, BitVec.toNat_ofNat, BitVec.toNat_ofNat]
    omega
  · rcases hget c₁ d₁ hd with ⟨-, rfl⟩ | ⟨-, hd⟩
    · have heq := hbase k hk
      dsimp only at hk ⊢
      omega
    · exact (h.bound c₁ d₁ hd k hk).trans (Nat.le_add_right _ _)
  · rcases hget c₁ d₁ hd₁ with ⟨rfl, rfl⟩ | ⟨-, hold₁⟩
    · rcases hget c₂ d₂ hd₂ with ⟨rfl, -⟩ | ⟨-, hold₂⟩
      · exact absurd rfl hne
      · have heq := hbase k hk
        have hle := h.bound c₂ d₂ hold₂ k' hk'
        dsimp only
        omega
    · rcases hget c₂ d₂ hd₂ with ⟨rfl, rfl⟩ | ⟨-, hold₂⟩
      · have heq := hbase k' hk'
        have hle := h.bound c₁ d₁ hold₁ k hk
        dsimp only
        omega
      · exact h.disjoint c₁ c₂ d₁ d₂ hold₁ hold₂ hne k hk k' hk'

theorem inv_foldl {adds : List (ι × BitVec 32)} (h : s.Inv total)
    (hlt : total + (adds.map fun a => a.2.toNat).sum < 2 ^ 32) :
    (adds.foldl (fun s a => s.irqDomainAdd a.1 a.2) s).Inv
      (total + (adds.map fun a => a.2.toNat).sum) := by
  induction adds generalizing s total with
  | nil => simpa using h
  | cons a adds ih =>
      rw [List.map_cons, List.sum_cons] at hlt
      have hnext := ih (h.add a.1 a.2 (by omega)) (by omega)
      rw [List.map_cons, List.sum_cons, List.foldl_cons, ← Nat.add_assoc]
      exact hnext

omit [DecidableEq ι] in
/-- Two numbers are equal if the controllers and the hardware numbers are. -/
theorem Inv.map_inj (h : s.Inv total) {hw hw' n n' : BitVec 32}
    (hmap : s.irqDomainMap c hw = some n) (hmap' : s.irqDomainMap c' hw' = some n') :
    n = n' ↔ c = c' ∧ hw = hw' := by
  constructor
  · rintro rfl
    obtain ⟨d, hd, hmap⟩ := Option.bind_eq_some_iff.1 hmap
    obtain ⟨hlt, hn⟩ := Option.ite_none_left_eq_some.1 hmap
    obtain ⟨d', hd', hmap'⟩ := Option.bind_eq_some_iff.1 hmap'
    obtain ⟨hlt', hn'⟩ := Option.ite_none_left_eq_some.1 hmap'
    have hk : hw.toNat < d.size.toNat := Nat.lt_of_not_le hlt
    have hk' : hw'.toNat < d'.size.toNat := Nat.lt_of_not_le hlt'
    have hle := h.bound c d hd hw.toNat hk
    have hle' := h.bound c' d' hd' hw'.toNat hk'
    have htotal := h.lt
    have heq : d.baseIrq.toNat + hw.toNat = d'.baseIrq.toNat + hw'.toNat := by
      have hnat := congrArg BitVec.toNat ((Option.some.inj hn).trans (Option.some.inj hn').symm)
      rw [BitVec.toNat_add, BitVec.toNat_add, Nat.mod_eq_of_lt (by omega),
        Nat.mod_eq_of_lt (by omega)] at hnat
      exact hnat
    by_cases hc : c = c'
    · subst hc
      rw [hd] at hd'
      cases hd'
      exact ⟨rfl, BitVec.eq_of_toNat_eq (Nat.add_left_cancel heq)⟩
    · exact absurd heq (h.disjoint c c' d d' hd hd' hc _ hk _ hk')
  · rintro ⟨rfl, rfl⟩
    rw [hmap] at hmap'
    exact Option.some.inj hmap'

end IrqDomains

/-! ### Described interrupts -/

namespace OfTree

omit [DecidableEq ι]

variable {t : OfTree ι} {s : IrqDomains ι} {rounds : ℕ} {dev controller : ι} {index : Usize}
  {cells : List (BitVec 32)} {n : BitVec 32}

/-- An interrupt that an `interrupts` entry of a device describes: the controller, which has no
`interrupt-map`, and the cells of the entry.  The length of a property fits a `usize`. -/
structure Described (t : OfTree ι) (dev : ι) (index : Usize) (controller : ι)
    (cells : List (BitVec 32)) : Prop where
  noExtended : t.getProperty dev "interrupts-extended" = none
  parent : Returns t.findParentRound dev (some controller)
  isIntc : (t.getProperty controller "interrupt-controller").isSome = true
  noMap : t.getProperty controller "interrupt-map" = none
  intsize : t.readU32 controller "#interrupt-cells" = .ok cells.length
  pos : 0 < cells.length
  le : cells.length ≤ 3
  entry : ∃ interrupts, t.getProperty dev "interrupts" = some interrupts ∧
    interrupts.length < 2 ^ 64 ∧ (index.toNat + 1) * cells.length * 4 ≤ interrupts.length ∧
      ∀ i < cells.length,
        readCell interrupts ((index.toNat * cells.length + i) * 4) = cells[i]?

/-- The line that the cells name: the type and the number of three cells, and else the first cell.
-/
def line (cells : List (BitVec 32)) : List (BitVec 32) :=
  if cells.length = 3 then cells.take 2 else cells.take 1

/-- Two entries of one size name one line if they agree in the first cell, and of three cells also
in the second. -/
theorem line_eq_iff {cells cells' : List (BitVec 32)} (hlen : cells.length = cells'.length) :
    line cells = line cells' ↔
      cells[0]? = cells'[0]? ∧ (cells.length = 3 → cells[1]? = cells'[1]?) := by
  by_cases h3 : cells.length = 3
  · obtain ⟨a, b, c, rfl⟩ := List.length_eq_three.1 h3
    obtain ⟨a', b', c', rfl⟩ := List.length_eq_three.1 (hlen.symm.trans h3)
    simp [line]
  · rw [line, line, if_neg h3, if_neg (hlen ▸ h3)]
    cases cells <;> cases cells' <;> simp_all

/-- At an interrupt controller without `interrupt-map` the interrupt is left as it is. -/
theorem Described.ofIrqParseRaw (h : t.Described dev index controller cells) {addr : Bytes}
    {out out' : OfIrq ι} (hok : t.ofIrqParseRaw rounds dev addr out = some (.ok out')) :
    out' = out := by
  obtain ⟨ipar, hpar, hrest⟩ := Option.bind_eq_some_iff.1 hok
  obtain rfl := h.parent.eq hpar
  dsimp only at hrest
  rw [h.intsize] at hrest
  dsimp only at hrest
  obtain ⟨first, -, hrest⟩ := Option.bind_eq_some_iff.1 hrest
  obtain ⟨second, -, hrest⟩ := Option.bind_eq_some_iff.1 hrest
  have hrun := Option.join_eq_some_iff.1 hrest
  have hround : ∀ w : RawWalk ι, w.ipar = controller →
      t.rawRound rounds w = .done (some (.ok w.outIrq)) := by
    rintro w rfl
    simp only [rawRound, h.noMap, h.isIntc, if_true]
  have heq := (Returns.done (hround _ rfl)).eq hrun
  exact Except.ok.inj (Option.some.inj heq)

/-- What is parsed of a described interrupt. -/
theorem Described.ofIrqParseOne (h : t.Described dev index controller cells) {out : OfIrq ι}
    (hok : t.ofIrqParseOne rounds (some dev) index = some (.ok out)) :
    out.controller = some controller ∧ out.argsCount = cells.length ∧
      out.args[0]? = cells[0]? := by
  obtain ⟨interrupts, hdata, hfits, hlen, hentry⟩ := h.entry
  have hpos := h.pos
  have hle := h.le
  rw [OfTree.ofIrqParseOne] at hok
  simp only [h.noExtended] at hok
  obtain ⟨parent, hpar, hrest⟩ := Option.bind_eq_some_iff.1 hok
  obtain rfl := h.parent.eq hpar
  dsimp only at hrest
  rw [h.intsize, hdata] at hrest
  dsimp only at hrest
  -- an entry that exists is where the wrapped arithmetic finds it
  have hsplit : (index.toNat + 1) * cells.length * 4 =
      index.toNat * cells.length * 4 + cells.length * 4 := by
    rw [Nat.add_mul, Nat.add_mul, Nat.one_mul]
  have hoffset : index.toNat * cells.length * 4 % 2 ^ 64 = index.toNat * cells.length * 4 :=
    Nat.mod_eq_of_lt (by omega)
  rw [if_neg (by simp only [maxPhandleArgs]; omega), hoffset,
    if_neg (by rw [Nat.mod_eq_of_lt (by omega)]; omega)] at hrest
  obtain ⟨args, hload, hraw⟩ := Option.bind_eq_some_iff.1 hrest
  rw [h.ofIrqParseRaw hraw]
  refine ⟨rfl, rfl, ?_⟩
  have hfirst := Shifts.getElem?_load hload 0
  rw [if_pos (by omega)] at hfirst
  have hread := hentry 0 hpos
  rw [Nat.add_zero] at hread
  rw [hfirst, ← hread, Nat.sub_self, Nat.zero_mul, Nat.add_zero, Nat.mod_eq_of_lt (by omega)]

/-- The number of a described interrupt is that of its first cell. -/
theorem Described.ofIrqGet (h : t.Described dev index controller cells)
    (hok : t.ofIrqGet s rounds (some dev) index = some (.ok n)) :
    ∃ hwirq, cells[0]? = some hwirq ∧ s.irqDomainMap controller hwirq = some n := by
  obtain ⟨res, hparse, hrest⟩ := Option.bind_eq_some_iff.1 hok
  cases res with
  | error e => cases hrest
  | ok oirq =>
      obtain ⟨hcontroller, hcount, hargs⟩ := h.ofIrqParseOne hparse
      simp only [hcontroller, hcount, if_pos h.pos, hargs] at hrest
      obtain ⟨hwirq, hcell, hmap⟩ := Option.map_eq_some_iff.1 hrest
      refine ⟨hwirq, hcell, ?_⟩
      cases hdomain : s.irqDomainMap controller hwirq with
      | none => simp [hdomain] at hmap
      | some irq =>
          simp only [hdomain, Except.ok.injEq] at hmap
          rw [hmap]

end OfTree

/-- **When the numbers of interrupts are unique.**  After any run of `irq_domain_add` with sizes
that sum below 2^32, two described interrupts have one number exactly if they are one line of one
controller, unless they are lines of one type, but different numbers, of a controller with three
cells. -/
theorem of_irq_unique_iff (t : OfTree ι) (adds : List (ι × BitVec 32))
    (hsum : (adds.map fun a => a.2.toNat).sum < 2 ^ 32) {dev dev' controller controller' : ι}
    {index index' : Usize} {cells cells' : List (BitVec 32)} {rounds rounds' : ℕ}
    {n n' : BitVec 32} (h : t.Described dev index controller cells)
    (h' : t.Described dev' index' controller' cells')
    (hok : t.ofIrqGet (IrqDomains.addAll adds) rounds (some dev) index = some (.ok n))
    (hok' : t.ofIrqGet (IrqDomains.addAll adds) rounds' (some dev') index' = some (.ok n')) :
    (n = n' ↔ controller = controller' ∧ OfTree.line cells = OfTree.line cells') ↔
      ¬ (controller = controller' ∧ cells.length = 3 ∧ cells[0]? = cells'[0]? ∧
        cells[1]? ≠ cells'[1]?) := by
  have hinv : (IrqDomains.addAll adds).Inv (0 + (adds.map fun a => a.2.toNat).sum) :=
    IrqDomains.inv_foldl IrqDomains.inv_new (by omega)
  obtain ⟨hw, hcell, hmap⟩ := h.ofIrqGet hok
  obtain ⟨hw', hcell', hmap'⟩ := h'.ofIrqGet hok'
  rw [hinv.map_inj hmap hmap']
  by_cases hc : controller = controller'
  · subst hc
    have hlen : cells.length = cells'.length := by
      have heq := h.intsize.symm.trans h'.intsize
      exact Except.ok.inj heq
    have hfirst : hw = hw' ↔ cells[0]? = cells'[0]? := by
      rw [hcell, hcell', Option.some.injEq]
    rw [hfirst, OfTree.line_eq_iff hlen]
    tauto
  · simp [hc]

/-- A controller `true` with three cells, and a device `false` below it with two interrupts of type
0, 42 and 43. -/
def gicTree : OfTree Bool where
  properties := fun node =>
    if node then [⟨"interrupt-controller", []⟩, ⟨"#interrupt-cells", [0, 0, 0, 3]⟩]
    else [⟨"interrupts",
      [0, 0, 0, 0, 0, 0, 0, 42, 0, 0, 0, 4, 0, 0, 0, 0, 0, 0, 0, 43, 0, 0, 0, 4]⟩]
  parent := fun node => if node then none else some true
  phandles := fun _ => none

/-- The cells of an interrupt of type 0. -/
def spiCells (number : BitVec 32) : List (BitVec 32) := [0, number, 4]

/-- The interrupts of the device are described. -/
theorem gicTree_described :
    gicTree.Described false 0 true (spiCells 42) ∧
      gicTree.Described false 1 true (spiCells 43) := by
  have hpar : Returns gicTree.findParentRound false (some true) := Returns.done rfl
  refine ⟨⟨rfl, hpar, rfl, rfl, rfl, by decide, by decide, _, rfl, by decide, by decide, ?_⟩,
    ⟨rfl, hpar, rfl, rfl, rfl, by decide, by decide, _, rfl, by decide, by decide, ?_⟩⟩ <;>
  decide

/-- They have the number that the controller starts with. -/
theorem gicTree_ofIrqGet :
    gicTree.ofIrqGet (IrqDomains.addAll [(true, 96)]) 2 (some false) 0 = some (.ok 1) ∧
      gicTree.ofIrqGet (IrqDomains.addAll [(true, 96)]) 2 (some false) 1 = some (.ok 1) := by
  decide +kernel

/-- The condition excludes the two interrupts of the device. -/
theorem of_irq_unique_two :
    (1#32 = 1#32 ↔ true = true ∧ OfTree.line (spiCells 42) = OfTree.line (spiCells 43)) ↔
      ¬ (true = true ∧ (spiCells 42).length = 3 ∧ (spiCells 42)[0]? = (spiCells 43)[0]? ∧
        (spiCells 42)[1]? ≠ (spiCells 43)[1]?) :=
  of_irq_unique_iff gicTree [(true, 96)] (by decide) gicTree_described.1 gicTree_described.2
    gicTree_ofIrqGet.1 gicTree_ofIrqGet.2

/-- Two lines of one type have one number. -/
theorem of_irq_lines_collide :
    gicTree.Described false 0 true (spiCells 42) ∧ gicTree.Described false 1 true (spiCells 43) ∧
      gicTree.ofIrqGet (IrqDomains.addAll [(true, 96)]) 2 (some false) 0 = some (.ok 1) ∧
        gicTree.ofIrqGet (IrqDomains.addAll [(true, 96)]) 2 (some false) 1 = some (.ok 1) ∧
          OfTree.line (spiCells 42) ≠ OfTree.line (spiCells 43) :=
  ⟨gicTree_described.1, gicTree_described.2, gicTree_ofIrqGet.1, gicTree_ofIrqGet.2, by decide⟩

end StarOS
