/-
When the interrupts of a device are parsed at all (`of_irq_parse_one`, `of_irq_get` and
`of_irq_count` in `drivers/of/irq.rs`).

From the interrupt parent of the device the parser walks to the controller, through the entries of
interrupt maps, and the cells that it looks for are kept in an array of 16.  The tree says where it
goes and how many cells there are: the walk may come to the same state again, the cells may not fit
into the array, and the count of the interrupts is a division by the number of their cells.

* `StarOS.OfTree.Forest` — the trees;
* `StarOS.OfTree.ofIrqCount` — the count; the rest of the code is in `StarOS.OfIrq`;
* `StarOS.OfTree.irqParent`, `StarOS.OfTree.ofIrqFindParent_eq` — the interrupt parent;
* `StarOS.OfTree.specifier`, `StarOS.OfTree.startWalk`, `StarOS.OfTree.hop` — the parts of the
  parser;
* `StarOS.OfTree.IrqSound` — the condition, with `StarOS.OfTree.StateFits` for the states of the
  walk;
* `StarOS.OfTree.hop_eq_panic_iff`, `StarOS.OfTree.walk_iff` — a round of the walk, and the walk;
* `StarOS.OfTree.Orderly`, `StarOS.OfTree.Forest.irqSound_of_orderly` — trees in which the walk
  ends;
* `StarOS.of_irq_returns_iff` — when the interrupts of a device are parsed.
-/

import StarOS.LoopCycles
import StarOS.OfIrq
import Mathlib.Data.Set.Finite.Lattice
import Mathlib.Data.Set.Finite.List
import Mathlib.Order.WellFounded

set_option autoImplicit false

namespace StarOS

open Loops

variable {ι : Type}

namespace OfTree

variable (t : OfTree ι)

/-! ### The code -/

/-- `of_irq_count`, for a number of rounds. -/
def ofIrqCount (rounds : ℕ) (dev : Option ι) : Option ℕ :=
  match dev with
  | none => some 0
  | some dev =>
      (t.ofIrqFindParent rounds dev).bind fun parent =>
        match parent with
        | none => some 0
        | some parent =>
            match t.readU32 parent "#interrupt-cells" with
            | .error _ => some 0
            | .ok intsize =>
                match t.getProperty dev "interrupts" with
                | none => some 0
                | some interrupts =>
                    -- a division by zero is a panic
                    if intsize = 0 then none else some (interrupts.length / 4 / intsize)

/-- A forest: going up from a node comes to an end.  A slice is shorter than 2^63 bytes. -/
structure Forest : Prop where
  wf : WellFounded fun p c => t.parent c = some p
  length_lt : ∀ node name data, t.getProperty node name = some data → data.length < 2 ^ 63

/-- The law: the three functions return. -/
def IrqReturns (s : IrqDomains ι) (dev : Option ι) (index : Usize) : Prop :=
  (∃ res, Settles (fun rounds => t.ofIrqParseOne rounds dev index) res) ∧
    (∃ res, Settles (fun rounds => t.ofIrqGet s rounds dev index) res) ∧
      ∃ n, Settles (fun rounds => t.ofIrqCount rounds dev) n

/-! ### The parts of the parser -/

variable [Fintype ι]

/-- What `of_irq_find_parent` returns: as many rounds as there are nodes are enough. -/
def irqParent (child : ι) : Option ι := (t.ofIrqFindParent (Fintype.card ι) child).join

/-- A round of the walk of `of_irq_parse_raw`. -/
def hop : RawWalk ι → Round (RawWalk ι) (Option (Except OfIrqError (OfIrq ι))) :=
  t.rawRound (Fintype.card ι)

omit [Fintype ι] in
/-- `#address-cells`, or a default. -/
def addressCells (node : ι) (default : ℕ) : ℕ :=
  match t.readU32 node "#address-cells" with
  | .ok v => v
  | .error _ => default

/-- The first half of `of_irq_parse_one`: the interrupt that is asked for, before any map was
applied. -/
def specifier (device : ι) (index : Usize) : Option (Except OfIrqError (OfIrq ι)) :=
  match t.getProperty device "interrupts-extended" with
  | some ext => (run (t.extendedRound ext index) (ext.length + 1) (0, 0)).join
  | none =>
      match t.irqParent device with
      | none => some (.error .notFound)
      | some parent =>
          match t.readU32 parent "#interrupt-cells" with
          | .error _ => some (.error .invalid)
          | .ok intsize =>
              if maxPhandleArgs < intsize then some (.error .invalid)
              else
                match t.getProperty device "interrupts" with
                | none => some (.error .noData)
                | some interrupts =>
                    let offset := index.toNat * intsize * 4 % 2 ^ 64
                    if interrupts.length < (offset + intsize * 4) % 2 ^ 64 then
                      some (.error .invalid)
                    else
                      (Shifts.load (fun i => readCell interrupts ((offset + i * 4) % 2 ^ 64))
                        0 intsize (OfIrq.new ι).args).map fun args =>
                          .ok ⟨some parent, args, intsize⟩

/-- The first half of `of_irq_parse_raw`: where the walk begins. -/
def startWalk (device : ι) (addr : Bytes) (outIrq : OfIrq ι) :
    Option (Except OfIrqError (RawWalk ι)) :=
  match t.irqParent device with
  | none => some (.error .notFound)
  | some ipar =>
      match t.readU32 ipar "#interrupt-cells" with
      | .error _ => some (.error .invalid)
      | .ok intsize =>
          let addrsize := t.addressCells ipar 2
          (Shifts.load (fun i => readCell addr (i * 4)) 0 (min addrsize (addr.length / 4))
            (List.replicate maxPhandleArgs 0#32)).bind fun matchArray =>
              (Shifts.load (fun i => outIrq.args[i]?) addrsize (min intsize outIrq.argsCount)
                matchArray).map fun matchArray =>
                  .ok ⟨ipar, intsize, addrsize, matchArray, outIrq⟩

omit [Fintype ι] in
/-- The `reg` of a device. -/
def reg (device : ι) : Bytes := (t.getProperty device "reg").getD []

omit [Fintype ι] in
/-- The cells that are looked for in the map of a node, behind its mask. -/
def maskedKey (s : RawWalk ι) : Option (List (BitVec 32)) :=
  match t.getProperty s.ipar "interrupt-map-mask" with
  | none => some s.matchArray
  | some mask => maskMatch mask (min (s.addrsize + s.intsize) (mask.length / 4)) s.matchArray

/-! ### The condition -/

/-- The interrupt parent of a device with `interrupts` does not have 0 cells to an interrupt. -/
def CountFits (device : ι) : Prop :=
  ∀ parent interrupts, t.irqParent device = some parent →
    t.getProperty device "interrupts" = some interrupts →
      t.readU32 parent "#interrupt-cells" ≠ .ok 0

/-- The end of an entry of `interrupts` does not wrap around into the property. -/
def IndexFits (device : ι) (index : Usize) : Prop :=
  ∀ parent intsize interrupts, t.getProperty device "interrupts-extended" = none →
    t.irqParent device = some parent → t.readU32 parent "#interrupt-cells" = .ok intsize →
      intsize ≤ maxPhandleArgs → t.getProperty device "interrupts" = some interrupts →
        index.toNat * intsize * 4 % 2 ^ 64 + intsize * 4 < 2 ^ 64 ∨
          interrupts.length < (index.toNat * intsize * 4 % 2 ^ 64 + intsize * 4) % 2 ^ 64

/-- The cells of the address and of the interrupt fit into the array at the interrupt parent. -/
def StartFits (device : ι) (addr : Bytes) (outIrq : OfIrq ι) : Prop :=
  ∀ ipar intsize, t.irqParent device = some ipar →
    t.readU32 ipar "#interrupt-cells" = .ok intsize →
      min (t.addressCells ipar 2) (addr.length / 4) ≤ maxPhandleArgs ∧
        (min intsize outIrq.argsCount = 0 ∨
          t.addressCells ipar 2 + min intsize outIrq.argsCount ≤ maxPhandleArgs)

omit [Fintype ι] in
/-- The cells fit into the array at a node with a map: those that are masked; those of the entries
that are looked at, up to the first one that differs; and those of the entry that is found. -/
structure StateFits (s : RawWalk ι) : Prop where
  mask : ∀ imap mask, t.getProperty s.ipar "interrupt-map" = some imap →
    t.getProperty s.ipar "interrupt-map-mask" = some mask →
      min (s.addrsize + s.intsize) (mask.length / 4) ≤ maxPhandleArgs
  key : ∀ imap cells offset, t.getProperty s.ipar "interrupt-map" = some imap →
    t.maskedKey s = some cells → maxPhandleArgs < s.addrsize + s.intsize →
      Visits (t.findEntryRound cells imap (s.addrsize + s.intsize)) 0 offset →
        offset + (s.addrsize + s.intsize + 1) * 4 ≤ imap.length →
          ∃ i < maxPhandleArgs, cells[i]? ≠ readCell imap (offset + i * 4)
  entry : ∀ imap cells offset phandle parent parentIntsize,
    t.getProperty s.ipar "interrupt-map" = some imap → t.maskedKey s = some cells →
      t.findEntry cells imap (s.addrsize + s.intsize) = some (some offset) →
        readCell imap (offset + (s.addrsize + s.intsize) * 4) = some phandle →
          t.phandles phandle.toNat = some parent →
            t.readU32 parent "#interrupt-cells" = .ok parentIntsize →
              parentIntsize = 0 ∨ t.addressCells parent 0 + parentIntsize ≤ maxPhandleArgs

/-- The condition: the count, the index and the first cells fit; and so do the cells in all states
that the walk comes to, none of which comes again. -/
structure IrqSound (device : ι) (index : Usize) : Prop where
  countFits : t.CountFits device
  indexFits : t.IndexFits device index
  startFits : ∀ outIrq, t.specifier device index = some (.ok outIrq) →
    t.StartFits device (t.reg device) outIrq
  walkFits : ∀ outIrq w s, t.specifier device index = some (.ok outIrq) →
    t.startWalk device (t.reg device) outIrq = some (.ok w) → Visits t.hop w s →
      t.StateFits s ∧ ¬ Recurs t.hop s

/-! ### The interrupt parent -/

variable {t}

omit [Fintype ι] in
theorem findParentRound_more {child p : ι} (h : t.findParentRound child = .more p) :
    t.parent child = some p := by
  rw [findParentRound] at h
  split at h
  · cases h
  split at h
  · cases h
  · rename_i parent hparent
    split at h
    · cases h
    · cases h
      exact hparent

omit [Fintype ι] in
/-- Going up does not come back. -/
theorem Forest.not_recurs (ht : t.Forest) (child : ι) : ¬ Recurs t.findParentRound child :=
  not_recurs_of_wf ht.wf id (fun _ _ => findParentRound_more) child

/-- The interrupt parent is found in as many rounds as there are nodes. -/
theorem Forest.ofIrqFindParent_eq (ht : t.Forest) {n : ℕ} (hn : Fintype.card ι ≤ n) (child : ι) :
    t.ofIrqFindParent n child = some (t.irqParent child) := by
  have hcard : {c | Visits t.findParentRound child c}.ncard ≤ Fintype.card ι := by
    rw [← Nat.card_eq_fintype_card]
    exact Set.ncard_le_card _
  obtain ⟨p, hp⟩ := Option.isSome_iff_exists.1 (run_isSome_of_finite
    (Set.toFinite {c | Visits t.findParentRound child c}) (fun c _ => ht.not_recurs c) hcard)
  have hparent : t.irqParent child = p := by
    rw [irqParent, ofIrqFindParent, hp]
    rfl
  rw [ofIrqFindParent, run_mono hn hp, hparent]

/-- With enough rounds for a parent, the rounds of the walk are the same. -/
theorem Forest.rawRound_eq (ht : t.Forest) {n : ℕ} (hn : Fintype.card ι ≤ n) :
    t.rawRound n = t.hop := by
  funext s
  rw [hop, rawRound, rawRound, ht.ofIrqFindParent_eq hn, ht.ofIrqFindParent_eq (Nat.le_refl _)]

/-! ### The functions, with enough rounds -/

/-- `of_irq_parse_raw`, in two halves. -/
theorem Forest.ofIrqParseRaw_eq (ht : t.Forest) {n : ℕ} (hn : Fintype.card ι ≤ n) (device : ι)
    (addr : Bytes) (outIrq : OfIrq ι) :
    t.ofIrqParseRaw n device addr outIrq = (t.startWalk device addr outIrq).bind fun res =>
      match res with
      | .error e => some (.error e)
      | .ok w => (run t.hop n w).join := by
  rw [ofIrqParseRaw, startWalk, ht.ofIrqFindParent_eq hn, Option.bind_some, ht.rawRound_eq hn]
  cases t.irqParent device with
  | none => rfl
  | some ipar =>
      dsimp only
      cases t.readU32 ipar "#interrupt-cells" with
      | error e => rfl
      | ok intsize =>
          dsimp only
          rw [Option.bind_assoc]
          refine Option.bind_congr fun cells _ => ?_
          rw [Option.bind_map]
          rfl

/-- `of_irq_parse_one`, in two halves. -/
theorem Forest.ofIrqParseOne_eq (ht : t.Forest) {n : ℕ} (hn : Fintype.card ι ≤ n) (device : ι)
    (index : Usize) :
    t.ofIrqParseOne n (some device) index = (t.specifier device index).bind fun res =>
      match res with
      | .error e => some (.error e)
      | .ok outIrq => t.ofIrqParseRaw n device (t.reg device) outIrq := by
  rw [ofIrqParseOne, specifier, ht.ofIrqFindParent_eq hn]
  dsimp only
  cases t.getProperty device "interrupts-extended" with
  | some ext => rfl
  | none =>
      dsimp only
      rw [Option.bind_some]
      cases t.irqParent device with
      | none => rfl
      | some parent =>
          dsimp only
          cases t.readU32 parent "#interrupt-cells" with
          | error e => rfl
          | ok intsize =>
              dsimp only
              by_cases hsize : maxPhandleArgs < intsize
              · rw [if_pos hsize, if_pos hsize]
                rfl
              rw [if_neg hsize, if_neg hsize]
              cases t.getProperty device "interrupts" with
              | none => rfl
              | some interrupts =>
                  dsimp only
                  split
                  · rfl
                  · rw [Option.bind_map]
                    rfl

/-! ### Cells that are loaded -/

omit [Fintype ι] in
theorem readCell_isSome {data : Bytes} {offset : ℕ} :
    (readCell data offset).isSome = true ↔ offset + 4 ≤ data.length := by
  rw [readCell, Option.isSome_map, byteSlice]
  split
  · rename_i h
    exact iff_of_true rfl h.2
  · rename_i h
    exact iff_of_false (by simp) fun hle => h ⟨Nat.le_add_right _ _, hle⟩

omit [Fintype ι] in
/-- As many cells are masked as the mask and the array have. -/
theorem exists_maskMatch_iff {mask : Bytes} {n : ℕ} (hmask : n ≤ mask.length / 4)
    (cells : List (BitVec 32)) :
    ((∃ cells', maskMatch mask n cells = some cells') ↔ n ≤ cells.length) ∧
      ∀ cells', maskMatch mask n cells = some cells' → cells'.length = cells.length := by
  induction n with
  | zero =>
      refine ⟨iff_of_true ⟨cells, rfl⟩ (Nat.zero_le _), fun cells' h => ?_⟩
      rw [Option.some.inj h]
  | succ n ih =>
      obtain ⟨hiff, hlen⟩ := ih (by omega)
      refine ⟨⟨fun ⟨cells', h⟩ => ?_, fun hle => ?_⟩, fun cells' h => ?_⟩
      · obtain ⟨mid, hmid, hrest⟩ := Option.bind_eq_some_iff.1 h
        obtain ⟨m, -, hrest⟩ := Option.bind_eq_some_iff.1 hrest
        obtain ⟨c, hc, -⟩ := Option.bind_eq_some_iff.1 hrest
        have hlt := (List.getElem?_eq_some_iff.1 hc).1
        rw [hlen mid hmid] at hlt
        exact hlt
      · obtain ⟨mid, hmid⟩ := hiff.2 (by omega)
        have hlt : n < mid.length := by
          rw [hlen mid hmid]
          exact hle
        obtain ⟨m, hm⟩ := Option.isSome_iff_exists.1
          (readCell_isSome.2 (show n * 4 + 4 ≤ mask.length by omega))
        exact ⟨_, by rw [maskMatch, hmid, Option.bind_some, hm, Option.bind_some,
          List.getElem?_eq_getElem hlt, Option.bind_some, Shifts.setCell, if_pos hlt]⟩
      · obtain ⟨mid, hmid, hrest⟩ := Option.bind_eq_some_iff.1 h
        obtain ⟨m, -, hrest⟩ := Option.bind_eq_some_iff.1 hrest
        obtain ⟨c, -, hset⟩ := Option.bind_eq_some_iff.1 hrest
        rw [Shifts.length_setCell hset, hlen mid hmid]

omit [Fintype ι] in
/-- The arguments of an entry are copied. -/
theorem exists_entryArgs (imap : Bytes) (offset : ℕ) {n : ℕ} {args : List (BitVec 32)}
    (hn : n ≤ args.length) :
    ∃ args', entryArgs imap offset n args = some args' ∧ args'.length = args.length := by
  induction n with
  | zero => exact ⟨args, rfl, rfl⟩
  | succ n ih =>
      obtain ⟨mid, hmid, hlen⟩ := ih (by omega)
      rw [entryArgs, hmid, Option.bind_some]
      split
      · rename_i hle
        obtain ⟨v, hv⟩ := Option.isSome_iff_exists.1 (readCell_isSome.2 hle)
        have hlt : n < mid.length := by omega
        refine ⟨_, by rw [hv, Option.bind_some, Shifts.setCell, if_pos hlt], ?_⟩
        rw [List.length_set, hlen]
      · exact ⟨mid, rfl, hlen⟩

omit [Fintype ι] in
/-- Comparing with an entry goes out of the array if there are more cells than the array has, and
those that it has agree. -/
theorem entryMatches_eq_none_iff (cells : List (BitVec 32)) (imap : Bytes) (offset : ℕ) {i n : ℕ}
    (himap : offset + (i + n) * 4 ≤ imap.length) (hi : i ≤ cells.length) :
    entryMatches cells imap offset i n = none ↔
      cells.length < i + n ∧
        ∀ k, i ≤ k → k < cells.length → cells[k]? = readCell imap (offset + k * 4) := by
  induction n generalizing i with
  | zero =>
      rw [entryMatches]
      exact iff_of_false (Option.some_ne_none true) fun h => by omega
  | succ n ih =>
      obtain ⟨v, hv⟩ := Option.isSome_iff_exists.1
        (readCell_isSome.2 (show offset + i * 4 + 4 ≤ imap.length by omega))
      rw [entryMatches, hv, Option.bind_some]
      obtain hlt | rfl := Nat.lt_or_eq_of_le hi
      · rw [List.getElem?_eq_getElem hlt, Option.bind_some]
        by_cases hne : cells[i] ≠ v
        · rw [if_pos hne]
          refine iff_of_false (Option.some_ne_none false) fun h => hne ?_
          have heq := h.2 i (Nat.le_refl i) hlt
          rw [hv, List.getElem?_eq_getElem hlt] at heq
          exact Option.some.inj heq
        · rw [if_neg hne, ih (by omega) hlt]
          refine ⟨fun h => ⟨by omega, fun k hik hk => ?_⟩, fun h => ⟨by omega, fun k hik hk => ?_⟩⟩
          · obtain rfl | hlt' := Nat.eq_or_lt_of_le hik
            · rw [hv, List.getElem?_eq_getElem hk, not_not.1 hne]
            · exact h.2 k hlt' hk
          · exact h.2 k (by omega) hk
      · rw [List.getElem?_eq_none (Nat.le_refl _), Option.bind_none]
        exact iff_of_true rfl ⟨by omega, fun k hik hk => by omega⟩

omit [Fintype ι] in
/-- Cells of an array of 16 are loaded into another one if they fit behind the cells before them. -/
theorem load_args_ne_none_iff {args cells : List (BitVec 32)} (hargs : args.length = maxPhandleArgs)
    (hcells : cells.length = maxPhandleArgs) (pos n : ℕ) :
    Shifts.load (fun i => args[i]?) pos n cells ≠ none ↔ n = 0 ∨ pos + n ≤ maxPhandleArgs := by
  rw [Option.ne_none_iff_exists', Shifts.exists_load_iff, hcells]
  simp only [Option.isSome_iff_ne_none, Ne, List.getElem?_eq_none_iff, hargs, Nat.not_le]
  constructor
  · intro h
    cases n with
    | zero => exact .inl rfl
    | succ m =>
        have hlast := (h m (Nat.lt_succ_self m)).2
        exact .inr (by omega)
  · rintro (rfl | hle) i hi
    · exact absurd hi (Nat.not_lt_zero i)
    · omega

/-! ### The search for an entry -/

omit [Fintype ι] in
/-- Where the search for an entry stops. -/
theorem findEntry_eq_some_iff {cells : List (BitVec 32)} {imap : Bytes} {keysize : ℕ}
    {res : Option (Option ℕ)} :
    run (t.findEntryRound cells imap keysize) (imap.length + 1) 0 = some res ↔
      ∃ offset, Visits (t.findEntryRound cells imap keysize) 0 offset ∧
        t.findEntryRound cells imap keysize offset = .done res := by
  constructor
  · intro h
    exact Returns.exists_done ⟨_, h⟩
  · rintro ⟨offset, hvisit, hdone⟩
    obtain ⟨res', hres'⟩ := Option.isSome_iff_exists.1 (t.findEntry_isSome cells imap keysize)
    rw [hres', (hvisit.returns (.done hdone)).eq hres']

omit [Fintype ι] in
/-- The search goes out of the array at an entry that it comes to. -/
theorem findEntry_eq_none_iff {cells : List (BitVec 32)} {imap : Bytes} {keysize : ℕ} :
    t.findEntry cells imap keysize = none ↔
      ∃ offset, Visits (t.findEntryRound cells imap keysize) 0 offset ∧
        offset + (keysize + 1) * 4 ≤ imap.length ∧ cells.length < keysize ∧
          ∀ i < cells.length, cells[i]? = readCell imap (offset + i * 4) := by
  have hround : ∀ offset, t.findEntryRound cells imap keysize offset = .done none ↔
      offset + (keysize + 1) * 4 ≤ imap.length ∧ cells.length < keysize ∧
        ∀ i < cells.length, cells[i]? = readCell imap (offset + i * 4) := by
    intro offset
    rw [findEntryRound]
    by_cases hle : offset + (keysize + 1) * 4 ≤ imap.length
    · have hmatch := entryMatches_eq_none_iff cells imap offset
        (i := 0) (n := keysize) (by omega) (Nat.zero_le _)
      obtain ⟨phandle, hphandle⟩ := Option.isSome_iff_exists.1
        (readCell_isSome.2 (show offset + keysize * 4 + 4 ≤ imap.length by omega))
      rw [if_pos hle, hphandle]
      simp only [Nat.zero_add, Nat.zero_le, forall_const] at hmatch
      rw [and_iff_right hle, ← hmatch]
      cases hres : entryMatches cells imap offset 0 keysize with
      | none => exact iff_of_true rfl rfl
      | some b =>
          cases b with
          | true => exact iff_of_false (fun h => by cases h) (Option.some_ne_none true)
          | false =>
              refine iff_of_false (fun h => ?_) (Option.some_ne_none false)
              dsimp only at h
              split at h <;> cases h
    · rw [if_neg hle]
      exact iff_of_false (fun h => by cases h) fun h => hle h.1
  have hjoin : t.findEntry cells imap keysize = none ↔
      run (t.findEntryRound cells imap keysize) (imap.length + 1) 0 = some none := by
    obtain ⟨res, hres⟩ := Option.isSome_iff_exists.1 (t.findEntry_isSome cells imap keysize)
    rw [findEntry, hres, Option.join_some, Option.some.injEq]
  rw [hjoin, findEntry_eq_some_iff]
  simp only [hround]

omit [Fintype ι] in
/-- If the search does not go out of the array, every entry that it comes to differs in the array,
unless the array has all cells. -/
theorem searchFits_of_ne_none {cells : List (BitVec 32)} {imap : Bytes} {keysize : ℕ}
    (hcells : cells.length = maxPhandleArgs) (h : t.findEntry cells imap keysize ≠ none)
    {offset : ℕ} (hlt : maxPhandleArgs < keysize)
    (hvisit : Visits (t.findEntryRound cells imap keysize) 0 offset)
    (hle : offset + (keysize + 1) * 4 ≤ imap.length) :
    ∃ i < maxPhandleArgs, cells[i]? ≠ readCell imap (offset + i * 4) := by
  by_contra hno
  refine h (findEntry_eq_none_iff.2 ⟨offset, hvisit, hle, hcells.trans_lt hlt, fun i hi => ?_⟩)
  by_contra hne
  exact hno ⟨i, hcells ▸ hi, hne⟩

omit [Fintype ι] in
/-- The entry that is found is whole. -/
theorem findEntry_le {cells : List (BitVec 32)} {imap : Bytes} {keysize offset : ℕ}
    (h : t.findEntry cells imap keysize = some (some offset)) :
    offset + (keysize + 1) * 4 ≤ imap.length := by
  obtain ⟨offset', -, hround⟩ := findEntry_eq_some_iff.1 (Option.join_eq_some_iff.1 h)
  rw [findEntryRound] at hround
  split at hround
  · rename_i hle
    split at hround
    · cases hround
    · cases hround
      exact hle
    · split at hround
      · cases hround
      · split at hround <;> cases hround
  · cases hround

/-! ### A round of the walk -/

omit [Fintype ι] in
/-- The arrays of a state of the walk have 16 cells, and the counts are numbers of 32 bits. -/
structure Bounded (s : RawWalk ι) : Prop where
  matchArray : s.matchArray.length = maxPhandleArgs
  args : s.outIrq.args.length = maxPhandleArgs
  intsize : s.intsize < 2 ^ 32
  addrsize : s.addrsize < 2 ^ 32
  argsCount : s.outIrq.argsCount < 2 ^ 32

omit [Fintype ι] in
theorem readU32_lt {node : ι} {name : String} {v : ℕ} (h : t.readU32 node name = .ok v) :
    v < 2 ^ 32 := by
  rw [readU32, ofPropertyReadU32] at h
  split at h
  · cases h
  split at h
  · cases h
  · rename_i value _ hlen
    have hlt := beNat_lt (value.take 4)
    rw [List.length_take, Nat.min_eq_left (Nat.not_lt.1 hlen)] at hlt
    rwa [← Except.ok.inj h]

omit [Fintype ι] in
theorem addressCells_lt (node : ι) {default : ℕ} (h : default < 2 ^ 32) :
    t.addressCells node default < 2 ^ 32 := by
  rw [addressCells]
  split
  · rename_i v hv
    exact readU32_lt hv
  · exact h

omit [Fintype ι] in
/-- Going on with the parent of an entry, which has so many cells. -/
theorem enterParent_eq {s : RawWalk ι} {imap : Bytes} {offset n : ℕ} {phandle : BitVec 32}
    {parent : ι} {args : List (BitVec 32)}
    (hphandle : readCell imap (offset + (s.addrsize + s.intsize) * 4) = some phandle)
    (hparent : t.phandles phandle.toNat = some parent)
    (hsize : t.readU32 parent "#interrupt-cells" = .ok n)
    (hargs : entryArgs imap (offset + (s.addrsize + s.intsize) * 4 + 4) (min n maxPhandleArgs)
      s.outIrq.args = some args) :
    t.enterParent s imap offset =
      (Shifts.load (fun i => args[i]?) (t.addressCells parent 0) n s.matchArray).map
        fun matchArray =>
          .ok ⟨parent, n, t.addressCells parent 0, matchArray, ⟨some parent, args, n⟩⟩ := by
  rw [enterParent]
  dsimp only
  rw [hphandle, Option.bind_some, hparent]
  dsimp only
  rw [hsize]
  dsimp only
  rw [hargs, Option.bind_some]
  rfl

omit [Fintype ι] in
/-- Going on with the parent of an entry. -/
theorem enterParent_spec {s : RawWalk ι} (hs : Bounded s) {imap : Bytes} {offset : ℕ}
    (hle : offset + (s.addrsize + s.intsize + 1) * 4 ≤ imap.length) :
    (t.enterParent s imap offset ≠ none ↔ ∀ phandle parent parentIntsize,
      readCell imap (offset + (s.addrsize + s.intsize) * 4) = some phandle →
        t.phandles phandle.toNat = some parent →
          t.readU32 parent "#interrupt-cells" = .ok parentIntsize →
            parentIntsize = 0 ∨ t.addressCells parent 0 + parentIntsize ≤ maxPhandleArgs) ∧
      ∀ s', t.enterParent s imap offset = some (.ok s') → Bounded s' := by
  obtain ⟨phandle, hphandle⟩ := Option.isSome_iff_exists.1 (readCell_isSome.2
    (show offset + (s.addrsize + s.intsize) * 4 + 4 ≤ imap.length by omega))
  have hfirst : t.enterParent s imap offset =
      match t.phandles phandle.toNat with
      | none => some (.error .notFound)
      | some parent =>
          match t.readU32 parent "#interrupt-cells" with
          | .error _ => some (.error .invalid)
          | .ok _ => t.enterParent s imap offset := by
    rw [enterParent]
    dsimp only
    rw [hphandle, Option.bind_some]
    cases t.phandles phandle.toNat with
    | none => rfl
    | some parent =>
        dsimp only
        cases t.readU32 parent "#interrupt-cells" <;> rfl
  cases hparent : t.phandles phandle.toNat with
  | none =>
      rw [hparent] at hfirst
      rw [hfirst]
      refine ⟨iff_of_true (fun h => by cases h) ?_, fun s' h => by cases h⟩
      intro _ _ _ hread hnode _
      obtain rfl := Option.some.inj (hphandle.symm.trans hread)
      rw [hparent] at hnode
      cases hnode
  | some parent =>
      cases hsize : t.readU32 parent "#interrupt-cells" with
      | error e =>
          simp only [hparent, hsize] at hfirst
          rw [hfirst]
          refine ⟨iff_of_true (fun h => by cases h) ?_, fun s' h => by cases h⟩
          intro _ _ _ hread hnode hcells
          obtain rfl := Option.some.inj (hphandle.symm.trans hread)
          obtain rfl := Option.some.inj (hparent.symm.trans hnode)
          rw [hsize] at hcells
          cases hcells
      | ok n =>
          obtain ⟨args, hargs, hlen⟩ := exists_entryArgs imap
            (offset + (s.addrsize + s.intsize) * 4 + 4)
            (show min n maxPhandleArgs ≤ s.outIrq.args.length by
              rw [hs.args]; exact Nat.min_le_right _ _)
          rw [hs.args] at hlen
          rw [enterParent_eq hphandle hparent hsize hargs]
          refine ⟨?_, fun s' h => ?_⟩
          · rw [Ne, Option.map_eq_none_iff, ← Ne, load_args_ne_none_iff hlen hs.matchArray]
            constructor
            · intro hfits _ _ _ hread hnode hcells
              obtain rfl := Option.some.inj (hphandle.symm.trans hread)
              obtain rfl := Option.some.inj (hparent.symm.trans hnode)
              obtain rfl := Except.ok.inj (hsize.symm.trans hcells)
              exact hfits
            · intro hall
              exact hall _ _ _ hphandle hparent hsize
          · obtain ⟨matchArray, hmatch, hs'⟩ := Option.map_eq_some_iff.1 h
            obtain rfl := Except.ok.inj hs'
            exact ⟨(Shifts.length_load hmatch).trans hs.matchArray, hlen, readU32_lt hsize,
              addressCells_lt parent (by decide), readU32_lt hsize⟩

omit [Fintype ι] in
/-- The key is masked if the cells that are masked are in the array. -/
theorem maskedKey_spec {s : RawWalk ι} (hs : Bounded s) :
    (t.maskedKey s ≠ none ↔ ∀ mask, t.getProperty s.ipar "interrupt-map-mask" = some mask →
      min (s.addrsize + s.intsize) (mask.length / 4) ≤ maxPhandleArgs) ∧
      ∀ cells, t.maskedKey s = some cells → cells.length = maxPhandleArgs := by
  rw [maskedKey]
  cases t.getProperty s.ipar "interrupt-map-mask" with
  | none =>
      refine ⟨iff_of_true (Option.some_ne_none _) fun mask h => (by cases h), fun cells h => ?_⟩
      rw [← Option.some.inj h, hs.matchArray]
  | some mask =>
      obtain ⟨hiff, hlen⟩ := exists_maskMatch_iff
        (Nat.min_le_right (s.addrsize + s.intsize) (mask.length / 4)) s.matchArray
      rw [hs.matchArray] at hiff
      refine ⟨?_, fun cells h => (hlen cells h).trans hs.matchArray⟩
      rw [Option.ne_none_iff_exists', hiff]
      exact ⟨fun h _ hmask => Option.some.inj hmask ▸ h, fun h => h mask rfl⟩

/-- A round at a node with a map. -/
theorem hop_of_map {s : RawWalk ι} {imap : Bytes}
    (himap : t.getProperty s.ipar "interrupt-map" = some imap) :
    t.hop s =
      match (t.maskedKey s).bind fun cells => t.findEntry cells imap (s.addrsize + s.intsize) with
      | none => .done none
      | some none => .done (some (.error .notFound))
      | some (some offset) =>
          match t.enterParent s imap offset with
          | none => .done none
          | some (.error e) => .done (some (.error e))
          | some (.ok s') => .more s' := by
  rw [hop, rawRound]
  dsimp only
  rw [himap]
  rfl

/-- A round at a node without a map. -/
theorem Forest.hop_of_no_map (ht : t.Forest) {s : RawWalk ι}
    (himap : t.getProperty s.ipar "interrupt-map" = none) :
    t.hop s =
      if (t.getProperty s.ipar "interrupt-controller").isSome then .done (some (.ok s.outIrq))
      else
        match t.irqParent s.ipar with
        | none => .done (some (.error .notFound))
        | some ipar =>
            match t.readU32 ipar "#interrupt-cells" with
            | .error _ => .done (some (.error .invalid))
            | .ok intsize => .more { s with ipar := ipar, intsize := intsize } := by
  rw [hop, rawRound, ht.ofIrqFindParent_eq (Nat.le_refl _)]
  dsimp only
  rw [himap]
  dsimp only
  split
  · rfl
  · cases t.irqParent s.ipar <;> rfl

omit [Fintype ι] in
/-- When the search for an entry comes to an end, it is left that the cells of the entry fit. -/
theorem stateFits_iff {s : RawWalk ι} {imap : Bytes} {cells : List (BitVec 32)} {found : Option ℕ}
    (himap : t.getProperty s.ipar "interrupt-map" = some imap)
    (hcells : t.maskedKey s = some cells)
    (hmask : ∀ mask, t.getProperty s.ipar "interrupt-map-mask" = some mask →
      min (s.addrsize + s.intsize) (mask.length / 4) ≤ maxPhandleArgs)
    (hlen : cells.length = maxPhandleArgs)
    (hfound : t.findEntry cells imap (s.addrsize + s.intsize) = some found) :
    t.StateFits s ↔ ∀ offset, found = some offset → ∀ phandle parent parentIntsize,
      readCell imap (offset + (s.addrsize + s.intsize) * 4) = some phandle →
        t.phandles phandle.toNat = some parent →
          t.readU32 parent "#interrupt-cells" = .ok parentIntsize →
            parentIntsize = 0 ∨ t.addressCells parent 0 + parentIntsize ≤ maxPhandleArgs := by
  have hsearch : t.findEntry cells imap (s.addrsize + s.intsize) ≠ none := by
    rw [hfound]
    exact Option.some_ne_none found
  constructor
  · rintro h offset rfl
    exact fun phandle parent parentIntsize =>
      h.entry imap cells offset phandle parent parentIntsize himap hcells hfound
  · intro hentry
    refine ⟨fun _ mask _ => hmask mask, ?_, ?_⟩
    · intro imap' cells' offset himap' hcells'
      obtain rfl := Option.some.inj (himap.symm.trans himap')
      obtain rfl := Option.some.inj (hcells.symm.trans hcells')
      exact searchFits_of_ne_none hlen hsearch
    · intro imap' cells' offset phandle parent parentIntsize himap' hcells' hfound'
      obtain rfl := Option.some.inj (himap.symm.trans himap')
      obtain rfl := Option.some.inj (hcells.symm.trans hcells')
      exact hentry offset (Option.some.inj (hfound.symm.trans hfound')) phandle parent
        parentIntsize

/-- A round goes out of the arrays exactly if the cells do not fit. -/
theorem Forest.hop_ne_panic_iff (ht : t.Forest) {s : RawWalk ι} (hs : Bounded s) :
    t.hop s ≠ .done none ↔ t.StateFits s := by
  cases himap : t.getProperty s.ipar "interrupt-map" with
  | none =>
      rw [ht.hop_of_no_map himap]
      refine iff_of_true (fun h => ?_) ⟨?_, ?_, ?_⟩
      · split at h
        · cases h
        split at h
        · cases h
        split at h <;> cases h
      all_goals
        intros
        simp_all
  | some imap =>
      rw [hop_of_map himap]
      obtain ⟨hmask, hlen⟩ := maskedKey_spec (t := t) hs
      cases hcells : t.maskedKey s with
      | none =>
          refine iff_of_false (fun h => h rfl) fun hfits => ?_
          exact hmask.2 (fun mask h => hfits.mask imap mask himap h) hcells
      | some cells =>
          have hmaskFits := hmask.1 (by rw [hcells]; exact Option.some_ne_none cells)
          rw [Option.bind_some]
          cases hfound : t.findEntry cells imap (s.addrsize + s.intsize) with
          | none =>
              refine iff_of_false (fun h => h rfl) fun hfits => ?_
              obtain ⟨offset, hvisit, hle, hlt, hall⟩ := findEntry_eq_none_iff.1 hfound
              rw [hlen cells hcells] at hlt hall
              obtain ⟨i, hi, hne⟩ := hfits.key imap cells offset himap hcells hlt hvisit hle
              exact hne (hall i hi)
          | some found =>
              rw [stateFits_iff himap hcells hmaskFits (hlen cells hcells) hfound]
              cases found with
              | none => exact iff_of_true (fun h => by cases h) fun offset h => by cases h
              | some offset =>
                  have henter := (enterParent_spec (t := t) hs (findEntry_le hfound)).1
                  simp only [Option.some.injEq, forall_eq']
                  rw [← henter]
                  cases t.enterParent s imap offset with
                  | none => exact iff_of_false (fun h => h rfl) fun h => h rfl
                  | some res =>
                      refine iff_of_true (fun h => ?_) (Option.some_ne_none res)
                      cases res <;> cases h

/-- A round that goes on keeps the arrays and the counts bounded. -/
theorem Forest.bounded_of_hop (ht : t.Forest) {s s' : RawWalk ι} (hs : Bounded s)
    (h : t.hop s = .more s') : Bounded s' := by
  cases himap : t.getProperty s.ipar "interrupt-map" with
  | none =>
      rw [ht.hop_of_no_map himap] at h
      split at h
      · cases h
      split at h
      · cases h
      split at h
      · cases h
      · rename_i intsize hsize
        cases h
        exact ⟨hs.matchArray, hs.args, readU32_lt hsize, hs.addrsize, hs.argsCount⟩
  | some imap =>
      rw [hop_of_map himap] at h
      split at h
      · cases h
      · cases h
      · rename_i offset hfound
        obtain ⟨cells, -, hfound⟩ := Option.bind_eq_some_iff.1 hfound
        split at h
        · cases h
        · cases h
        · rename_i s'' henter
          cases h
          exact (enterParent_spec (t := t) hs (findEntry_le hfound)).2 _ henter

/-- A walk that stops with an interrupt stops with that of its last state. -/
theorem Forest.hop_eq_ok (ht : t.Forest) {s : RawWalk ι} {out : OfIrq ι}
    (h : t.hop s = .done (some (.ok out))) : out = s.outIrq := by
  cases himap : t.getProperty s.ipar "interrupt-map" with
  | none =>
      rw [ht.hop_of_no_map himap] at h
      split at h
      · cases h
        rfl
      split at h
      · cases h
      split at h <;> cases h
  | some imap =>
      rw [hop_of_map himap] at h
      split at h
      · cases h
      · cases h
      · split at h <;> cases h

/-! ### The walk -/

theorem Forest.bounded_of_visits (ht : t.Forest) {w s : RawWalk ι} (hw : Bounded w)
    (h : Visits t.hop w s) : Bounded s := by
  induction h with
  | refl => exact hw
  | more _ hnext ih => exact ht.bounded_of_hop ih hnext

/-- There are finitely many bounded states. -/
theorem finite_bounded : {s : RawWalk ι | Bounded s}.Finite := by
  have : Finite (BitVec 32) := Finite.of_injective BitVec.toFin fun _ _ h => BitVec.toFin_inj.1 h
  have hlists : {l : List (BitVec 32) | l.length = maxPhandleArgs}.Finite :=
    List.finite_length_eq _ _
  have hcounts : {n : ℕ | n < 2 ^ 32}.Finite := Set.finite_lt_nat _
  have hprod := (Set.finite_univ (α := ι × Option ι)).prod
    ((hlists.prod hlists).prod (hcounts.prod (hcounts.prod hcounts)))
  have hinj : Function.Injective fun s : RawWalk ι =>
      ((s.ipar, s.outIrq.controller), (s.matchArray, s.outIrq.args),
        s.intsize, s.addrsize, s.outIrq.argsCount) := by
    rintro ⟨ipar, intsize, addrsize, matchArray, controller, args, argsCount⟩
      ⟨ipar', intsize', addrsize', matchArray', controller', args', argsCount'⟩ h
    simp only [Prod.mk.injEq] at h
    obtain ⟨⟨rfl, rfl⟩, ⟨rfl, rfl⟩, rfl, rfl, rfl⟩ := h
    rfl
  exact (hprod.preimage hinj.injOn).subset fun s hs =>
    ⟨Set.mem_univ _, ⟨hs.matchArray, hs.args⟩, hs.intsize, hs.addrsize, hs.argsCount⟩

/-- The walk returns exactly if the cells fit in all states that it comes to, and none of them comes
again. -/
theorem Forest.walk_iff (ht : t.Forest) {w : RawWalk ι} (hw : Bounded w) :
    (∃ res, Returns t.hop w (some res)) ↔
      ∀ s, Visits t.hop w s → t.StateFits s ∧ ¬ Recurs t.hop s := by
  -- The states that are visited are bounded, so there are finitely many.
  have hfin : {s | Visits t.hop w s}.Finite :=
    finite_bounded.subset fun s hs => ht.bounded_of_visits hw hs
  have hreturns := returns_iff_of_finite hfin fun r => r ≠ none
  have hleft : (∃ res, Returns t.hop w (some res)) ↔ ∃ r, r ≠ none ∧ Returns t.hop w r := by
    constructor
    · rintro ⟨res, hres⟩
      exact ⟨some res, Option.some_ne_none res, hres⟩
    · rintro ⟨r, hne, hr⟩
      obtain ⟨res, rfl⟩ := Option.ne_none_iff_exists'.1 hne
      exact ⟨res, hr⟩
  rw [hleft, hreturns]
  refine forall₂_congr fun s hvisit => and_congr_left fun _ => ?_
  rw [← ht.hop_ne_panic_iff (ht.bounded_of_visits hw hvisit)]
  exact ⟨fun h hpanic => h none hpanic rfl, fun h r hr hnone => h (hnone ▸ hr)⟩

/-- What the walk returns has its arguments in an array of 16. -/
theorem Forest.args_of_returns (ht : t.Forest) {w : RawWalk ι} (hw : Bounded w) {out : OfIrq ι}
    (h : Returns t.hop w (some (.ok out))) : out.args.length = maxPhandleArgs := by
  obtain ⟨s, hvisit, hs⟩ := h.exists_done
  rw [ht.hop_eq_ok hs]
  exact (ht.bounded_of_visits hw hvisit).args

/-! ### The first halves -/

theorem startFits_iff {device ipar : ι} {addr : Bytes} {out : OfIrq ι} {intsize : ℕ}
    (hparent : t.irqParent device = some ipar)
    (hsize : t.readU32 ipar "#interrupt-cells" = .ok intsize) :
    t.StartFits device addr out ↔
      min (t.addressCells ipar 2) (addr.length / 4) ≤ maxPhandleArgs ∧
        (min intsize out.argsCount = 0 ∨
          t.addressCells ipar 2 + min intsize out.argsCount ≤ maxPhandleArgs) := by
  constructor
  · exact fun h => h ipar intsize hparent hsize
  · intro h ipar' intsize' hipar hcells
    obtain rfl := Option.some.inj (hparent.symm.trans hipar)
    obtain rfl := Except.ok.inj (hsize.symm.trans hcells)
    exact h

/-- The walk begins if the first cells fit. -/
theorem startWalk_spec (t : OfTree ι) (device : ι) (addr : Bytes) {out : OfIrq ι}
    (hargs : out.args.length = maxPhandleArgs) (hcount : out.argsCount < 2 ^ 32) :
    (t.startWalk device addr out ≠ none ↔ t.StartFits device addr out) ∧
      ∀ w, t.startWalk device addr out = some (.ok w) → Bounded w := by
  rw [startWalk]
  cases hparent : t.irqParent device with
  | none =>
      refine ⟨iff_of_true (fun h => by cases h) fun ipar _ hipar => ?_, fun w h => by cases h⟩
      rw [hparent] at hipar
      cases hipar
  | some ipar =>
      dsimp only
      cases hsize : t.readU32 ipar "#interrupt-cells" with
      | error e =>
          refine ⟨iff_of_true (fun h => by cases h) fun ipar' _ hipar hcells => ?_,
            fun w h => by cases h⟩
          obtain rfl := Option.some.inj (hparent.symm.trans hipar)
          rw [hsize] at hcells
          cases hcells
      | ok intsize =>
          dsimp only
          have hfirst : (∃ cells, Shifts.load (fun i => readCell addr (i * 4)) 0
              (min (t.addressCells ipar 2) (addr.length / 4))
              (List.replicate maxPhandleArgs 0#32) = some cells) ↔
                min (t.addressCells ipar 2) (addr.length / 4) ≤ maxPhandleArgs := by
            rw [Shifts.exists_load_iff, List.length_replicate]
            constructor
            · intro h
              by_contra hlt
              have hlast := (h maxPhandleArgs (Nat.not_le.1 hlt)).2
              omega
            · intro hle i hi
              exact ⟨readCell_isSome.2 (by omega), by omega⟩
          rw [startFits_iff hparent hsize, ← hfirst]
          cases hload : Shifts.load (fun i => readCell addr (i * 4)) 0
              (min (t.addressCells ipar 2) (addr.length / 4))
              (List.replicate maxPhandleArgs 0#32) with
          | none =>
              rw [Option.bind_none]
              refine ⟨iff_of_false (fun h => h rfl) ?_, fun w h => by cases h⟩
              rintro ⟨⟨cells, hcells⟩, -⟩
              cases hcells
          | some cells =>
              have hlen := (Shifts.length_load hload).trans List.length_replicate
              rw [Option.bind_some, Ne, Option.map_eq_none_iff, ← Ne,
                load_args_ne_none_iff hargs hlen]
              refine ⟨(and_iff_right ⟨cells, rfl⟩).symm, fun w h => ?_⟩
              obtain ⟨matchArray, hmatch, hw⟩ := Option.map_eq_some_iff.1 h
              obtain rfl := Except.ok.inj hw
              exact ⟨(Shifts.length_load hmatch).trans hlen, hargs, readU32_lt hsize,
                addressCells_lt ipar (by decide), hcount⟩

/-- The condition of `of_irq_parse_raw`. -/
def RawFits (t : OfTree ι) (device : ι) (addr : Bytes) (out : OfIrq ι) : Prop :=
  t.StartFits device addr out ∧ ∀ w s, t.startWalk device addr out = some (.ok w) →
    Visits t.hop w s → t.StateFits s ∧ ¬ Recurs t.hop s

/-- When `of_irq_parse_raw` returns. -/
theorem Forest.ofIrqParseRaw_iff (ht : t.Forest) (device : ι) (addr : Bytes) {out : OfIrq ι}
    (hargs : out.args.length = maxPhandleArgs) (hcount : out.argsCount < 2 ^ 32) :
    ((∃ res, Settles (fun n => t.ofIrqParseRaw n device addr out) res) ↔
      t.RawFits device addr out) ∧
      ∀ out', Settles (fun n => t.ofIrqParseRaw n device addr out) (.ok out') →
        out'.args.length = maxPhandleArgs := by
  obtain ⟨hstart, hbounded⟩ := startWalk_spec t device addr hargs hcount
  simp only [Settles.congr_of_le fun n hn => ht.ofIrqParseRaw_eq hn device addr out]
  rw [RawFits, ← hstart]
  cases hwalk : t.startWalk device addr out with
  | none =>
      simp only [Option.bind_none]
      exact ⟨iff_of_false (fun ⟨_, h⟩ => not_settles_none h) fun h => h.1 rfl,
        fun _ h => absurd h not_settles_none⟩
  | some res =>
      cases res with
      | error e =>
          simp only [Option.bind_some]
          refine ⟨iff_of_true ⟨_, Settles.const _⟩ ⟨Option.some_ne_none _, fun w s h => by cases h⟩,
            fun out' h => ?_⟩
          cases h.unique (Settles.const _)
      | ok w =>
          have hw := hbounded w hwalk
          simp only [Option.bind_some, settles_join_iff]
          rw [ht.walk_iff hw]
          refine ⟨⟨fun h => ⟨Option.some_ne_none _, fun w' s hw' => ?_⟩, fun h s => h.2 w s rfl⟩,
            fun out' h => ht.args_of_returns hw h⟩
          cases hw'
          exact h s

omit [Fintype ι] in
/-- The walk through `interrupts-extended` stops with an error, or with arguments in an array of
16. -/
theorem extendedRound_done {ext : Bytes} {index : Usize} {s : ℕ × ℕ}
    {r : Option (Except OfIrqError (OfIrq ι))} (h : t.extendedRound ext index s = .done r) :
    ∃ res, r = some res ∧ ∀ out, res = .ok out →
      out.args.length = maxPhandleArgs ∧ out.argsCount < 2 ^ 32 := by
  have herr : ∀ e : OfIrqError, ∃ res, some (Except.error e) = some res ∧
      ∀ out : OfIrq ι, res = .ok out → out.args.length = maxPhandleArgs ∧ out.argsCount < 2 ^ 32 :=
    fun e => ⟨_, rfl, fun out hout => by cases hout⟩
  rw [extendedRound] at h
  split at h
  swap
  · cases h
    exact herr _
  rename_i hin
  obtain ⟨phandle, hphandle⟩ := Option.isSome_iff_exists.1 (readCell_isSome.2 hin.2.2)
  rw [hphandle] at h
  dsimp only at h
  split at h
  · cases h
    exact herr _
  split at h
  · cases h
    exact herr _
  rename_i intsize hsize
  split at h
  swap
  · cases h
  split at h
  swap
  · cases h
    exact herr _
  rename_i hle
  have hnew : (OfIrq.new ι).args.length = maxPhandleArgs := List.length_replicate
  obtain ⟨args, hargs⟩ := (Shifts.exists_load_iff (fun i => readCell ext (s.1 + 4 + i * 4)) 0
    (min intsize maxPhandleArgs) (OfIrq.new ι).args).2 fun i hi => by
      rw [hnew]
      exact ⟨readCell_isSome.2 (by omega), by omega⟩
  rw [hargs] at h
  cases h
  refine ⟨_, rfl, fun out hout => ?_⟩
  cases hout
  exact ⟨(Shifts.length_load hargs).trans hnew, readU32_lt hsize⟩

omit [Fintype ι] in
/-- The cells of an entry of `interrupts` are read, if its end does not wrap around. -/
theorem load_interrupts_ne_none_iff {interrupts : Bytes} {offset intsize : ℕ}
    {args : List (BitVec 32)} (hargs : args.length = maxPhandleArgs)
    (hlen : interrupts.length < 2 ^ 63) (hoffset : offset < 2 ^ 64)
    (hsize : intsize ≤ maxPhandleArgs)
    (hend : (offset + intsize * 4) % 2 ^ 64 ≤ interrupts.length) :
    Shifts.load (fun i => readCell interrupts ((offset + i * 4) % 2 ^ 64)) 0 intsize args ≠ none ↔
      offset + intsize * 4 < 2 ^ 64 := by
  rw [maxPhandleArgs] at hargs hsize
  rw [Option.ne_none_iff_exists', Shifts.exists_load_iff, hargs]
  constructor
  · intro h
    by_contra hwrap
    have hfirst := readCell_isSome.1 (h 0 (by omega)).1
    omega
  · intro hfits i hi
    exact ⟨readCell_isSome.2 (by omega), by omega⟩

theorem indexFits_iff {device parent : ι} {index : Usize} {intsize : ℕ} {interrupts : Bytes}
    (hext : t.getProperty device "interrupts-extended" = none)
    (hparent : t.irqParent device = some parent)
    (hcells : t.readU32 parent "#interrupt-cells" = .ok intsize) (hsize : intsize ≤ maxPhandleArgs)
    (hdata : t.getProperty device "interrupts" = some interrupts) :
    t.IndexFits device index ↔ index.toNat * intsize * 4 % 2 ^ 64 + intsize * 4 < 2 ^ 64 ∨
      interrupts.length < (index.toNat * intsize * 4 % 2 ^ 64 + intsize * 4) % 2 ^ 64 := by
  constructor
  · exact fun h => h parent intsize interrupts hext hparent hcells hsize hdata
  · intro h parent' intsize' interrupts' _ hp hc _ hd
    obtain rfl := Option.some.inj (hparent.symm.trans hp)
    obtain rfl := Except.ok.inj (hcells.symm.trans hc)
    obtain rfl := Option.some.inj (hdata.symm.trans hd)
    exact h

/-- The interrupt that is asked for is found, or is not there, if the end of its entry does not wrap
around. -/
theorem Forest.specifier_spec (ht : t.Forest) (device : ι) (index : Usize) :
    (t.specifier device index ≠ none ↔ t.IndexFits device index) ∧
      ∀ out, t.specifier device index = some (.ok out) →
        out.args.length = maxPhandleArgs ∧ out.argsCount < 2 ^ 32 := by
  rw [specifier]
  cases hext : t.getProperty device "interrupts-extended" with
  | some ext =>
      dsimp only
      obtain ⟨r, hr⟩ := Option.isSome_iff_exists.1 (t.extended_isSome ext index)
      obtain ⟨s, -, hs⟩ := Returns.exists_done ⟨_, hr⟩
      obtain ⟨res, rfl, hres⟩ := extendedRound_done hs
      rw [hr, Option.join_some]
      refine ⟨iff_of_true (Option.some_ne_none res) fun _ _ _ hnone => ?_, fun out hout => ?_⟩
      · rw [hext] at hnone
        cases hnone
      · exact hres out (Option.some.inj hout)
  | none =>
      dsimp only
      have hvacuous : ∀ {e : OfIrqError}, (∀ parent intsize interrupts,
          t.irqParent device = some parent → t.readU32 parent "#interrupt-cells" = .ok intsize →
            intsize ≤ maxPhandleArgs → t.getProperty device "interrupts" ≠ some interrupts) →
          ((some (Except.error e) : Option (Except OfIrqError (OfIrq ι))) ≠ none ↔
            t.IndexFits device index) ∧ ∀ out : OfIrq ι, some (Except.error e) = some (.ok out) →
              out.args.length = maxPhandleArgs ∧ out.argsCount < 2 ^ 32 := by
        intro e hno
        refine ⟨iff_of_true (Option.some_ne_none _) ?_, fun out hout => by cases hout⟩
        intro parent intsize interrupts _ hparent hcells hsize hdata
        exact absurd hdata (hno parent intsize interrupts hparent hcells hsize)
      cases hparent : t.irqParent device with
      | none => exact hvacuous fun _ _ _ h => by rw [hparent] at h; cases h
      | some parent =>
          dsimp only
          cases hcells : t.readU32 parent "#interrupt-cells" with
          | error e =>
              refine hvacuous fun _ _ _ hp hc => ?_
              obtain rfl := Option.some.inj (hparent.symm.trans hp)
              rw [hcells] at hc
              cases hc
          | ok intsize =>
              dsimp only
              by_cases hsize : maxPhandleArgs < intsize
              · rw [if_pos hsize]
                refine hvacuous fun _ _ _ hp hc hle => ?_
                obtain rfl := Option.some.inj (hparent.symm.trans hp)
                obtain rfl := Except.ok.inj (hcells.symm.trans hc)
                exact absurd hsize (Nat.not_lt.2 hle)
              rw [if_neg hsize]
              cases hdata : t.getProperty device "interrupts" with
              | none => exact hvacuous fun _ _ _ _ _ _ h => by rw [hdata] at h; cases h
              | some interrupts =>
                  dsimp only
                  rw [indexFits_iff hext hparent hcells (Nat.not_lt.1 hsize) hdata]
                  split
                  · rename_i hlt
                    exact ⟨iff_of_true (Option.some_ne_none _) (.inr hlt), fun out h => by cases h⟩
                  · rename_i hend
                    have hnew : (OfIrq.new ι).args.length = maxPhandleArgs :=
                      List.length_replicate
                    rw [Ne, Option.map_eq_none_iff, ← Ne, load_interrupts_ne_none_iff hnew
                      (ht.length_lt _ _ _ hdata) (Nat.mod_lt _ (Nat.two_pow_pos 64))
                      (Nat.not_lt.1 hsize) (Nat.not_lt.1 hend), or_iff_left hend]
                    refine ⟨Iff.rfl, fun out h => ?_⟩
                    obtain ⟨args, hargs, hout⟩ := Option.map_eq_some_iff.1 h
                    obtain rfl := Except.ok.inj hout
                    exact ⟨(Shifts.length_load hargs).trans hnew, readU32_lt hcells⟩

/-! ### When the functions return -/

/-- When `of_irq_parse_one` returns. -/
theorem Forest.ofIrqParseOne_iff (ht : t.Forest) (device : ι) (index : Usize) :
    ((∃ res, Settles (fun n => t.ofIrqParseOne n (some device) index) res) ↔
      t.IndexFits device index ∧ ∀ out, t.specifier device index = some (.ok out) →
        t.RawFits device (t.reg device) out) ∧
      ∀ out, Settles (fun n => t.ofIrqParseOne n (some device) index) (.ok out) →
        out.args.length = maxPhandleArgs := by
  obtain ⟨hindex, hok⟩ := ht.specifier_spec device index
  simp only [Settles.congr_of_le fun n hn => ht.ofIrqParseOne_eq hn device index]
  rw [← hindex]
  cases hspec : t.specifier device index with
  | none =>
      simp only [Option.bind_none]
      exact ⟨iff_of_false (fun ⟨_, h⟩ => not_settles_none h) fun h => h.1 rfl,
        fun _ h => absurd h not_settles_none⟩
  | some res =>
      cases res with
      | error e =>
          simp only [Option.bind_some]
          refine ⟨iff_of_true ⟨_, Settles.const _⟩ ⟨Option.some_ne_none _, fun out h => by cases h⟩,
            fun out' h => ?_⟩
          cases h.unique (Settles.const _)
      | ok out =>
          obtain ⟨hargs, hcount⟩ := hok out hspec
          obtain ⟨hraw, hlen⟩ := ht.ofIrqParseRaw_iff device (t.reg device) hargs hcount
          simp only [Option.bind_some]
          rw [hraw]
          refine ⟨⟨fun h => ⟨Option.some_ne_none _, fun out' hout => ?_⟩, fun h => h.2 out rfl⟩,
            hlen⟩
          cases hout
          exact h

/-- `of_irq_get` returns if `of_irq_parse_one` does. -/
theorem Forest.ofIrqGet_settles (ht : t.Forest) (s : IrqDomains ι) {device : ι} {index : Usize}
    {res : Except OfIrqError (OfIrq ι)}
    (h : Settles (fun n => t.ofIrqParseOne n (some device) index) res) :
    ∃ res', Settles (fun n => t.ofIrqGet s n (some device) index) res' := by
  have hargs := (ht.ofIrqParseOne_iff device index).2
  cases res with
  | error e => exact ⟨.error e, h.bind (Settles.const _)⟩
  | ok oirq =>
      have hlen := hargs oirq h
      cases hcontroller : oirq.controller with
      | none =>
          refine ⟨.error .invalid, h.bind ?_⟩
          simp only [hcontroller]
          exact Settles.const _
      | some controller =>
          by_cases hcount : 0 < oirq.argsCount
          · have hpos : 0 < oirq.args.length := hlen.symm ▸ by decide
            cases hmap : s.irqDomainMap controller oirq.args[0] with
            | none =>
                refine ⟨.error .notFound, h.bind ?_⟩
                simp only [hcontroller, if_pos hcount, List.getElem?_eq_getElem hpos,
                  Option.map_some, hmap]
                exact Settles.const _
            | some irq =>
                refine ⟨.ok irq, h.bind ?_⟩
                simp only [hcontroller, if_pos hcount, List.getElem?_eq_getElem hpos,
                  Option.map_some, hmap]
                exact Settles.const _
          · refine ⟨.error .noData, h.bind ?_⟩
            simp only [hcontroller, if_neg hcount]
            exact Settles.const _

/-- When `of_irq_count` returns. -/
theorem Forest.ofIrqCount_iff (ht : t.Forest) (device : ι) :
    (∃ n, Settles (fun rounds => t.ofIrqCount rounds (some device)) n) ↔ t.CountFits device := by
  have hcount : ∀ n ≥ Fintype.card ι, t.ofIrqCount n (some device) =
      match t.irqParent device with
      | none => some 0
      | some parent =>
          match t.readU32 parent "#interrupt-cells" with
          | .error _ => some 0
          | .ok intsize =>
              match t.getProperty device "interrupts" with
              | none => some 0
              | some interrupts =>
                  if intsize = 0 then none else some (interrupts.length / 4 / intsize) := by
    intro n hn
    rw [ofIrqCount, ht.ofIrqFindParent_eq hn]
    rfl
  simp only [Settles.congr_of_le hcount]
  rw [CountFits]
  cases t.irqParent device with
  | none => exact iff_of_true ⟨0, Settles.const 0⟩ fun _ _ h => by cases h
  | some parent =>
      dsimp only
      cases hcells : t.readU32 parent "#interrupt-cells" with
      | error e =>
          refine iff_of_true ⟨0, Settles.const 0⟩ fun parent' _ hp _ h => ?_
          obtain rfl := Option.some.inj hp
          rw [hcells] at h
          cases h
      | ok intsize =>
          dsimp only
          cases t.getProperty device "interrupts" with
          | none => exact iff_of_true ⟨0, Settles.const 0⟩ fun _ _ _ h => by cases h
          | some interrupts =>
              dsimp only
              by_cases hzero : intsize = 0
              · rw [hzero] at hcells
                simp only [if_pos hzero]
                exact iff_of_false (fun ⟨_, h⟩ => not_settles_none h) fun h =>
                  h parent interrupts rfl rfl hcells
              · simp only [if_neg hzero]
                refine iff_of_true ⟨_, Settles.const _⟩ fun parent' _ hp _ h => hzero ?_
                obtain rfl := Option.some.inj hp
                exact Except.ok.inj (hcells.symm.trans h)

/-! ### Orderly trees -/

/-- Where the walk may go on from a node: at its interrupt parent or, if it has a map, at the node
of a phandle in the map. -/
def IrqLink (t : OfTree ι) (n m : ι) : Prop :=
  match t.getProperty n "interrupt-map" with
  | none => t.irqParent n = some m
  | some imap => ∃ offset phandle,
      readCell imap offset = some phandle ∧ t.phandles phandle.toNat = some m

/-- Interrupt parents and maps do not lead in a circle.  The cells of an address and those of an
interrupt fit into the array together, whichever nodes they are counted at: on the way to an
interrupt parent the walk keeps the former and takes the latter from there. -/
structure Orderly (t : OfTree ι) : Prop where
  wf : WellFounded fun m n => t.IrqLink n m
  cells : ∀ n m intsize, t.readU32 m "#interrupt-cells" = .ok intsize →
    t.addressCells n 2 + intsize ≤ maxPhandleArgs

omit [Fintype ι] in
theorem addressCells_le (t : OfTree ι) (node : ι) :
    t.addressCells node 0 ≤ t.addressCells node 2 := by
  rw [addressCells, addressCells]
  cases t.readU32 node "#address-cells" with
  | ok v => exact Nat.le_refl v
  | error e => exact Nat.zero_le 2

/-- A round that goes on does so at a node that is linked, with its interrupt cells, and with its
address cells or those from before. -/
theorem Forest.hop_more (ht : t.Forest) {s s' : RawWalk ι} (h : t.hop s = .more s') :
    t.IrqLink s.ipar s'.ipar ∧ t.readU32 s'.ipar "#interrupt-cells" = .ok s'.intsize ∧
      (s'.addrsize = s.addrsize ∨ s'.addrsize = t.addressCells s'.ipar 0) := by
  rw [IrqLink]
  cases himap : t.getProperty s.ipar "interrupt-map" with
  | none =>
      rw [ht.hop_of_no_map himap] at h
      split at h
      · cases h
      split at h
      · cases h
      rename_i ipar hparent
      split at h
      · cases h
      · rename_i intsize hsize
        cases h
        exact ⟨hparent, hsize, .inl rfl⟩
  | some imap =>
      rw [hop_of_map himap] at h
      split at h
      · cases h
      · cases h
      split at h
      · cases h
      · cases h
      rename_i offset hfound s'' henter
      cases h
      rw [enterParent] at henter
      obtain ⟨phandle, hphandle, henter⟩ := Option.bind_eq_some_iff.1 henter
      split at henter
      · cases henter
      rename_i parent hparent
      split at henter
      · cases henter
      rename_i n hsize
      obtain ⟨args, -, henter⟩ := Option.bind_eq_some_iff.1 henter
      obtain ⟨matchArray, -, hs'⟩ := Option.map_eq_some_iff.1 henter
      obtain rfl := Except.ok.inj hs'
      exact ⟨⟨_, phandle, hphandle, hparent⟩, hsize, .inr rfl⟩

/-- The counts of a state are those of nodes. -/
structure CountsRead (t : OfTree ι) (s : RawWalk ι) : Prop where
  addrsize : ∃ n, s.addrsize ≤ t.addressCells n 2
  intsize : ∃ n, t.readU32 n "#interrupt-cells" = .ok s.intsize

theorem Forest.countsRead_of_visits (ht : t.Forest) {w s : RawWalk ι} (hw : t.CountsRead w)
    (h : Visits t.hop w s) : t.CountsRead s := by
  induction h with
  | refl => exact hw
  | @more s s' _ hnext ih =>
      obtain ⟨-, hsize, haddr | haddr⟩ := ht.hop_more hnext
      · exact ⟨haddr ▸ ih.addrsize, s'.ipar, hsize⟩
      · exact ⟨⟨s'.ipar, haddr ▸ t.addressCells_le s'.ipar⟩, s'.ipar, hsize⟩

/-- In a tree that is orderly the cells fit. -/
theorem Orderly.stateFits (ho : t.Orderly) {s : RawWalk ι} (hs : t.CountsRead s) :
    t.StateFits s := by
  obtain ⟨⟨n, haddr⟩, m, hsize⟩ := hs
  have hsum := ho.cells n m s.intsize hsize
  refine ⟨fun _ _ _ _ => ?_, fun _ _ _ _ _ hlt => ?_, fun _ _ _ _ parent v _ _ _ _ _ hv => ?_⟩
  · exact (Nat.min_le_left _ _).trans (by omega)
  · omega
  · have hparent := ho.cells parent parent v hv
    have hle := t.addressCells_le parent
    exact .inr (by omega)

/-- In a forest that is orderly, the interrupts of a device are parsed if its count and the index
fit. -/
theorem Forest.irqSound_of_orderly (ht : t.Forest) (ho : t.Orderly) {device : ι} {index : Usize}
    (hcount : t.CountFits device) (hindex : t.IndexFits device index) :
    t.IrqSound device index := by
  refine ⟨hcount, hindex, fun out _ ipar intsize _ hsize => ?_, fun out w s _ hw hs => ?_⟩
  · have hsum := ho.cells ipar ipar intsize hsize
    exact ⟨by omega, .inr (by omega)⟩
  · have hread : t.CountsRead w := by
      rw [startWalk] at hw
      split at hw
      · cases hw
      rename_i ipar hparent
      split at hw
      · cases hw
      rename_i intsize hsize
      obtain ⟨cells, -, hw⟩ := Option.bind_eq_some_iff.1 hw
      obtain ⟨matchArray, -, hw⟩ := Option.map_eq_some_iff.1 hw
      obtain rfl := Except.ok.inj hw
      exact ⟨⟨ipar, Nat.le_refl _⟩, ipar, hsize⟩
    exact ⟨ho.stateFits (ht.countsRead_of_visits hread hs),
      not_recurs_of_wf ho.wf RawWalk.ipar (fun s s' h => (ht.hop_more h).1) s⟩

end OfTree

/-- The three functions return exactly if the counts and the index fit, and the walk does not come
to a state in which the cells do not fit, or that comes again. -/
theorem of_irq_returns_iff [Fintype ι] (t : OfTree ι) (ht : t.Forest) (s : IrqDomains ι)
    (dev : Option ι) (index : Usize) :
    t.IrqReturns s dev index ↔ ∀ device, dev = some device → t.IrqSound device index := by
  cases dev with
  | none =>
      refine iff_of_true ⟨⟨_, Settles.const _⟩, ⟨_, Settles.const _⟩, _, Settles.const _⟩ ?_
      intro device h
      cases h
  | some device =>
      have hparse := (ht.ofIrqParseOne_iff device index).1
      have hcount := ht.ofIrqCount_iff device
      simp only [Option.some.injEq, forall_eq']
      constructor
      · rintro ⟨hone, -, hn⟩
        obtain ⟨hindex, hraw⟩ := hparse.1 hone
        exact ⟨hcount.1 hn, hindex, fun out hout => (hraw out hout).1,
          fun out w s hout hw hs => (hraw out hout).2 w s hw hs⟩
      · intro h
        obtain ⟨res, hres⟩ := hparse.2 ⟨h.indexFits, fun out hout => ⟨h.startFits out hout,
          fun w s hw hs => h.walkFits out w s hout hw hs⟩⟩
        exact ⟨⟨res, hres⟩, ht.ofIrqGet_settles s hres, hcount.2 h.countFits⟩

/-! ### Small trees -/

/-- A tree of a device `false` below a node `true`, with short properties, is a forest. -/
theorem OfTree.forest_bool {t : OfTree Bool}
    (hparent : ∀ c p, t.parent c = some p → c = false ∧ p = true)
    (hlen : ∀ node, ∀ p ∈ t.properties node, p.value.length < 2 ^ 63) : t.Forest where
  wf := by
    refine Subrelation.wf (r := fun p c : Bool => (!p).toNat < (!c).toNat) (fun h => ?_)
      (measure fun b : Bool => (!b).toNat).wf
    obtain ⟨rfl, rfl⟩ := hparent _ _ h
    decide
  length_lt := by
    intro node name data h
    obtain ⟨prop, hprop, rfl⟩ := Option.map_eq_some_iff.1 h
    exact hlen node prop (List.mem_of_find?_eq_some hprop)

/-- The walk goes from the device to the controller; the controller has no interrupt parent. -/
theorem gicTree_orderly : gicTree.Orderly where
  wf := by
    have hnomap : ∀ n, gicTree.getProperty n "interrupt-map" = none := by decide
    have hparent : ∀ n m, gicTree.irqParent n = some m → (!m).toNat < (!n).toNat := by decide
    refine Subrelation.wf (fun {m n} h => ?_) (measure fun b : Bool => (!b).toNat).wf
    rw [OfTree.IrqLink, hnomap n] at h
    exact hparent n m h
  cells := by
    have haddr : ∀ n, gicTree.addressCells n 2 + 3 ≤ maxPhandleArgs := by decide
    intro n m intsize h
    cases m with
    | false => cases h
    | true =>
        obtain rfl : intsize = 3 := (Except.ok.inj h).symm
        exact haddr n

/-- The interrupts of a device below a controller without a map are parsed. -/
theorem of_irq_returns_gic :
    gicTree.IrqReturns (IrqDomains.addAll [(true, 96)]) (some false) 0 := by
  have hforest : gicTree.Forest := OfTree.forest_bool (by decide) (by decide)
  have hparent : gicTree.irqParent false = some true := by decide
  have hcells : gicTree.readU32 true "#interrupt-cells" = .ok 3 := by decide
  refine (of_irq_returns_iff gicTree hforest _ (some false) 0).2 fun device hdevice => ?_
  obtain rfl := Option.some.inj hdevice
  refine hforest.irqSound_of_orderly gicTree_orderly (fun parent _ hp _ h => ?_)
    fun parent intsize interrupts _ hp hc _ _ => ?_
  · obtain rfl := Option.some.inj (hparent.symm.trans hp)
    rw [hcells] at h
    cases h
  · obtain rfl := Option.some.inj (hparent.symm.trans hp)
    obtain rfl := Except.ok.inj (hcells.symm.trans hc)
    exact .inl (by decide)

/-- A device with `interrupts` below a node with 0 cells to an interrupt. -/
def zeroCellsTree : OfTree Bool where
  properties := fun node =>
    if node then [⟨"#interrupt-cells", [0, 0, 0, 0]⟩] else [⟨"interrupts", [0, 0, 0, 5]⟩]
  parent := fun node => if node then none else some true
  phandles := fun _ => none

/-- A device below a node that is its own interrupt parent. -/
def selfParentTree : OfTree Bool where
  properties := fun node =>
    if node then [⟨"#interrupt-cells", [0, 0, 0, 1]⟩, ⟨"interrupt-parent", [0, 0, 0, 7]⟩]
    else [⟨"interrupts", [0, 0, 0, 5]⟩]
  parent := fun node => if node then none else some true
  phandles := fun phandle => if phandle = 7 then some true else none

/-- The count of its interrupts is a division by zero. -/
theorem zeroCellsTree_ofIrqCount (rounds : ℕ) :
    zeroCellsTree.ofIrqCount rounds (some false) = none := by
  cases rounds with
  | zero => rfl
  | succ n =>
      have hparent : zeroCellsTree.ofIrqFindParent (n + 1) false = some (some true) :=
        run_done rfl
      have hcells : zeroCellsTree.readU32 true "#interrupt-cells" = .ok 0 := by decide
      have hdata : zeroCellsTree.getProperty false "interrupts" = some [0, 0, 0, 5] := by decide
      rw [OfTree.ofIrqCount, hparent, Option.bind_some]
      dsimp only
      rw [hcells, hdata]
      exact if_pos rfl

/-- The walk does not end. -/
theorem selfParentTree_ofIrqParseOne (rounds : ℕ) :
    selfParentTree.ofIrqParseOne rounds (some false) 0 = none := by
  cases rounds with
  | zero => rfl
  | succ n =>
      have hchild : selfParentTree.ofIrqFindParent (n + 1) false = some (some true) :=
        run_done rfl
      have hphandle : selfParentTree.readU32 true "interrupt-parent" = .ok 7 := by decide
      have hself : selfParentTree.ofIrqFindParent (n + 1) true = some (some true) :=
        run_done (by rw [OfTree.findParentRound, hphandle]; rfl)
      have hcells : selfParentTree.readU32 true "#interrupt-cells" = .ok 1 := by decide
      have hnomap : selfParentTree.getProperty true "interrupt-map" = none := by decide
      have hnointc : selfParentTree.getProperty true "interrupt-controller" = none := by decide
      have hdata : selfParentTree.getProperty false "interrupts" = some [0, 0, 0, 5] := by decide
      have hnoext : selfParentTree.getProperty false "interrupts-extended" = none := by decide
      have hmore : ∀ w : OfTree.RawWalk Bool, w.ipar = true → w.intsize = 1 →
          selfParentTree.rawRound (n + 1) w = .more w := by
        rintro ⟨_, _, addrsize, matchArray, outIrq⟩ rfl rfl
        rw [OfTree.rawRound, hself]
        dsimp only
        rw [hnomap, hnointc]
        dsimp only
        rw [hcells]
        exact if_neg Bool.false_ne_true
      have hraw : ∀ addr out, selfParentTree.ofIrqParseRaw (n + 1) false addr out = none := by
        intro addr out
        rw [OfTree.ofIrqParseRaw, hchild, Option.bind_some]
        dsimp only
        rw [hcells]
        dsimp only
        cases Shifts.load _ _ _ _ with
        | none => rfl
        | some cells =>
            rw [Option.bind_some]
            cases Shifts.load _ _ _ _ with
            | none => rfl
            | some matchArray =>
                rw [Option.bind_some, Recurs.run_eq_none ⟨_, hmore _ rfl rfl, .refl⟩]
                rfl
      rw [OfTree.ofIrqParseOne]
      dsimp only
      rw [hnoext, hchild]
      dsimp only
      rw [Option.bind_some]
      dsimp only
      rw [hcells, hdata]
      have hsize : ¬ maxPhandleArgs < 1 := by decide
      have hend : ¬ ([0, 0, 0, 5] : Bytes).length <
          ((0 : Usize).toNat * 1 * 4 % 2 ^ 64 + 1 * 4) % 2 ^ 64 := by decide
      dsimp only
      rw [if_neg hsize, if_neg hend]
      cases Shifts.load _ _ _ _ with
      | none => rfl
      | some args =>
          rw [Option.bind_some]
          exact hraw _ _

/-- With 0 cells to an interrupt the count is a division by zero, and at a node that is its own
interrupt parent the walk does not end. -/
theorem of_irq_zero_cells_and_self_parent :
    (zeroCellsTree.Forest ∧ (∀ rounds, zeroCellsTree.ofIrqCount rounds (some false) = none) ∧
      ¬ zeroCellsTree.IrqReturns (IrqDomains.new Bool) (some false) 0) ∧
      (selfParentTree.Forest ∧
        (∀ rounds, selfParentTree.ofIrqParseOne rounds (some false) 0 = none) ∧
          ¬ selfParentTree.IrqReturns (IrqDomains.new Bool) (some false) 0) := by
  refine ⟨⟨OfTree.forest_bool (by decide) (by decide), zeroCellsTree_ofIrqCount, ?_⟩,
    OfTree.forest_bool (by decide) (by decide), selfParentTree_ofIrqParseOne, ?_⟩
  · rintro ⟨-, -, n, N, hN⟩
    cases (zeroCellsTree_ofIrqCount N).symm.trans (hN N (Nat.le_refl N))
  · rintro ⟨⟨res, N, hN⟩, -⟩
    cases (selfParentTree_ofIrqParseOne N).symm.trans (hN N (Nat.le_refl N))

end StarOS
