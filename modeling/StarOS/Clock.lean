/-
The clock framework (`drivers/clk/core.rs`): the registry of clocks, and the links between them.

A clock is registered in the first free slot of the registry, and its identifier is the number of
the slot.  It names its parent by identifier, and its depth is computed once, when it is registered.
Everything else follows the parent links: the chains of ancestors that are prepared and enabled, and
the propagation of a rate to the clocks below.

* `StarOS.ClkCore`, `StarOS.ClkRegistry` — a clock, and the registry;
* `StarOS.ClkRegistry.clkRegister`, `StarOS.ClkRegistry.clkUnregister` — registration;
* `StarOS.ClkRegistry.parentChain` — the chain of ancestors;
* `StarOS.ClkRegistry.propagateRate` — the propagation of a rate;
* `StarOS.ClkRegistry.Forested` — the parent links form a forest, with `parentChain_eq`;
* `StarOS.ClkRegistry.propagateRate_isSome` — then the propagation ends.
-/

import StarOS.Forest
import Mathlib.Data.BitVec
import Mathlib.Data.List.FinRange

set_option autoImplicit false

namespace StarOS

/-! ### Data -/

/-- `ClkId`. -/
abbrev ClkId := BitVec 32

/-- `CLK_NO_PARENT`. -/
def clkNoParent : ClkId := 0xFFFFFFFF#32

/-- `MAX_CLOCKS`. -/
def maxClocks : ℕ := 512

instance neZero_maxClocks : NeZero maxClocks := ⟨by decide⟩

/-- `MAX_CLK_DEPTH`. -/
def maxClkDepth : ℕ := 15

/-- `ClkError`. -/
inductive ClkError where
  | registryFull | invalidId | notFound | fixedRate | notPrepared | stillEnabled | hwError
  | noParent | rateOutOfRange | treeTooDeep
  deriving DecidableEq, Repr

namespace ClkFlags

/-- `clk_flags::FIXED_RATE`. -/
def fixedRate : BitVec 32 := 0x01#32

/-- `clk_flags::IS_CRITICAL`. -/
def isCritical : BitVec 32 := 0x08#32

/-- `clk_flags::PREPARED`. -/
def prepared : BitVec 32 := 0x10#32

/-- `clk_flags::ENABLED`. -/
def enabled : BitVec 32 := 0x20#32

end ClkFlags

/-- `ClkOps`: the operations of a provider.  Of those that return nothing only the presence counts;
those that may fail return what they do in the call that is looked at. -/
structure ClkOps where
  prepare : Option (BitVec 64 → Except ClkError Unit)
  unprepare : Bool
  enable : Option (BitVec 64 → Except ClkError Unit)
  disable : Bool
  setRate : Option (BitVec 64 → BitVec 64 → BitVec 64 → Except ClkError (BitVec 64))
  roundRate : Option (BitVec 64 → BitVec 64 → BitVec 64 → BitVec 64)
  recalcRate : Option (BitVec 64 → BitVec 64 → BitVec 64)

/-- `ClkOps::empty`. -/
def ClkOps.empty : ClkOps := ⟨none, false, none, false, none, none, none⟩

/-- `AtomicU64Wrapper`: the two halves of a number. -/
@[ext] structure AtomicU64 where
  hi : BitVec 32
  lo : BitVec 32

namespace AtomicU64

/-- `AtomicU64Wrapper::new`, and what `AtomicU64Wrapper::store` leaves. -/
def new (v : BitVec 64) : AtomicU64 := ⟨(v >>> 32).setWidth 32, v.setWidth 32⟩

/-- `AtomicU64Wrapper::load`. -/
def load (a : AtomicU64) : BitVec 64 := (a.hi.setWidth 64 <<< 32) ||| a.lo.setWidth 64

@[simp] theorem load_new (v : BitVec 64) : (new v).load = v := by
  refine BitVec.eq_of_getLsbD_eq fun i hi => ?_
  rw [load, new, BitVec.getLsbD_or, BitVec.getLsbD_shiftLeft]
  by_cases hlow : i < 32
  · simp [hlow, hi]
  · have hsub : i - 32 < 32 := by omega
    have hsum : 32 + (i - 32) = i := by omega
    have hwide : i - 32 < 64 := by omega
    simp [hlow, hi, hsub, hsum, hwide]

end AtomicU64

/-- `ClkCore`: a clock.  Its name and the count of references, which only the lookup by name uses,
are left out. -/
structure ClkCore where
  hw : BitVec 64
  ops : ClkOps
  flags : BitVec 32
  rate : AtomicU64
  parent : ClkId
  depth : BitVec 32
  prepareCount : BitVec 32
  enableCount : BitVec 32

/-- `ClkCore::fixed`. -/
def ClkCore.fixed (rateHz : BitVec 64) : ClkCore where
  hw := 0#64
  ops := .empty
  flags := ClkFlags.fixedRate
  rate := .new rateHz
  parent := clkNoParent
  depth := 0#32
  prepareCount := 0#32
  enableCount := 0#32

/-- `ClkCore::new`. -/
def ClkCore.new (hw : BitVec 64) (ops : ClkOps) (parent : ClkId) (flags : BitVec 32) : ClkCore where
  hw := hw
  ops := ops
  flags := flags
  rate := .new 0#64
  parent := parent
  depth := 0#32
  prepareCount := 0#32
  enableCount := 0#32

/-- `ClkRegistry`. -/
structure ClkRegistry where
  clocks : Fin maxClocks → Option ClkCore
  count : ℕ

/-- The identifier of a slot. -/
def clkIdOf (i : Fin maxClocks) : ClkId := BitVec.ofNat 32 i

theorem clkIdOf_toNat (i : Fin maxClocks) : (clkIdOf i).toNat = i := by
  have hlt : i.val < 512 := i.isLt
  rw [clkIdOf, BitVec.toNat_ofNat]
  omega

theorem clkIdOf_ofNat {id : ClkId} (h : id.toNat < maxClocks) :
    clkIdOf (Fin.ofNat maxClocks id.toNat) = id := by
  refine BitVec.eq_of_toNat_eq ?_
  rw [clkIdOf_toNat]
  exact Nat.mod_eq_of_lt h

theorem clkIdOf_injective {i j : Fin maxClocks} (h : clkIdOf i = clkIdOf j) : i = j := by
  refine Fin.ext ?_
  rw [← clkIdOf_toNat i, h, clkIdOf_toNat]

namespace ClkRegistry

/-- `ClkRegistry::new`. -/
def new : ClkRegistry := ⟨fun _ => none, 0⟩

/-- `reg.clocks.get(id).and_then(..)`: the clock with an identifier. -/
def get (reg : ClkRegistry) (id : ClkId) : Option ClkCore :=
  if h : id.toNat < maxClocks then reg.clocks ⟨id.toNat, h⟩ else none

/-- Changing the clock with an identifier, if there is one. -/
def modify (reg : ClkRegistry) (id : ClkId) (f : ClkCore → ClkCore) : ClkRegistry :=
  { reg with clocks := fun i => if clkIdOf i = id then (reg.clocks i).map f else reg.clocks i }

/-- The parent of a clock. -/
def parentOf (reg : ClkRegistry) (id : ClkId) : Option ClkId :=
  (reg.get id).bind fun c => if c.parent = clkNoParent then none else some c.parent

@[simp] theorem get_clkIdOf (reg : ClkRegistry) (i : Fin maxClocks) :
    reg.get (clkIdOf i) = reg.clocks i := by
  have hlt : (clkIdOf i).toNat < maxClocks := by
    rw [clkIdOf_toNat]
    exact i.isLt
  rw [get, dif_pos hlt]
  exact congrArg reg.clocks (Fin.ext (clkIdOf_toNat i))

theorem get_of_le {reg : ClkRegistry} {id : ClkId} (h : maxClocks ≤ id.toNat) :
    reg.get id = none := dif_neg (Nat.not_lt.2 h)

/-- The slot of a registered clock. -/
theorem exists_of_get {reg : ClkRegistry} {id : ClkId} {c : ClkCore} (h : reg.get id = some c) :
    ∃ i, id = clkIdOf i ∧ reg.clocks i = some c := by
  rw [get] at h
  split at h
  · rename_i hlt
    refine ⟨⟨id.toNat, hlt⟩, ?_, h⟩
    refine BitVec.eq_of_toNat_eq ?_
    rw [clkIdOf_toNat]
  · cases h

/-- An identifier is that of a slot, or is out of bounds. -/
theorem clkId_cases (id : ClkId) : (∃ i, id = clkIdOf i) ∨ maxClocks ≤ id.toNat := by
  rcases Nat.lt_or_ge id.toNat maxClocks with h | h
  · refine .inl ⟨⟨id.toNat, h⟩, BitVec.eq_of_toNat_eq ?_⟩
    rw [clkIdOf_toNat]
  · exact .inr h

/-- The clocks after a slot has been overwritten. -/
theorem get_update (reg : ClkRegistry) (i : Fin maxClocks) (x : Option ClkCore) (n : ℕ)
    (id : ClkId) :
    (⟨Function.update reg.clocks i x, n⟩ : ClkRegistry).get id =
      if id = clkIdOf i then x else reg.get id := by
  rcases clkId_cases id with ⟨j, rfl⟩ | hid
  · rw [get_clkIdOf, get_clkIdOf]
    dsimp only
    rw [Function.update_apply]
    exact if_congr ⟨fun h => h ▸ rfl, clkIdOf_injective⟩ rfl rfl
  · rw [get_of_le hid, get_of_le hid, if_neg]
    rintro rfl
    rw [clkIdOf_toNat] at hid
    exact absurd i.isLt (Nat.not_lt.2 hid)

theorem get_noParent (reg : ClkRegistry) : reg.get clkNoParent = none := get_of_le (by decide)

/-- A registered clock has an identifier of its own. -/
theorem ne_noParent {reg : ClkRegistry} {id : ClkId} {c : ClkCore} (h : reg.get id = some c) :
    id ≠ clkNoParent := by
  rintro rfl
  rw [get_noParent] at h
  cases h

theorem get_modify (reg : ClkRegistry) (id j : ClkId) (f : ClkCore → ClkCore) :
    (reg.modify id f).get j = if j = id then (reg.get j).map f else reg.get j := by
  rcases clkId_cases j with ⟨i, rfl⟩ | hj
  · rw [get_clkIdOf, get_clkIdOf]
    rfl
  · rw [get_of_le hj, get_of_le hj]
    split <;> rfl

theorem get_modify_self (reg : ClkRegistry) (id : ClkId) (f : ClkCore → ClkCore) :
    (reg.modify id f).get id = (reg.get id).map f := by
  rw [get_modify, if_pos rfl]

theorem get_modify_of_ne (reg : ClkRegistry) {id j : ClkId} (f : ClkCore → ClkCore) (h : j ≠ id) :
    (reg.modify id f).get j = reg.get j := by
  rw [get_modify, if_neg h]

theorem parentOf_eq_some {reg : ClkRegistry} {id p : ClkId} :
    reg.parentOf id = some p ↔
      ∃ c, reg.get id = some c ∧ c.parent ≠ clkNoParent ∧ c.parent = p := by
  rw [parentOf, Option.bind_eq_some_iff]
  refine exists_congr fun c => and_congr_right fun _ => ?_
  split
  · rename_i h
    exact iff_of_false (by simp) fun hne => hne.1 h
  · rename_i h
    rw [Option.some.injEq]
    exact (and_iff_right h).symm

theorem parentOf_of_get {reg : ClkRegistry} {id : ClkId} {c : ClkCore} (h : reg.get id = some c) :
    reg.parentOf id = if c.parent = clkNoParent then none else some c.parent := by
  rw [parentOf, h, Option.bind_some]

theorem parentOf_of_none {reg : ClkRegistry} {id : ClkId} (h : reg.get id = none) :
    reg.parentOf id = none := by
  rw [parentOf, h, Option.bind_none]

/-! ### Registration -/

/-- The first free slot. -/
def freeSlot (reg : ClkRegistry) : Option (Fin maxClocks) :=
  (List.finRange maxClocks).find? fun i => (reg.clocks i).isNone

theorem clocks_freeSlot {reg : ClkRegistry} {i : Fin maxClocks} (h : reg.freeSlot = some i) :
    reg.clocks i = none := by
  have hnone := List.find?_some h
  exact Option.isNone_iff_eq_none.1 hnone

/-- The end of `clk_register`: the clock gets its first rate, and goes to the first free slot. -/
def takeSlot (reg : ClkRegistry) (clk : ClkCore) (parentRate : BitVec 64) :
    Except ClkError ClkId × ClkRegistry :=
  match reg.freeSlot with
  | some i =>
      let rate :=
        if clk.flags &&& ClkFlags.fixedRate = 0#32 then
          match clk.ops.recalcRate with
          | some recalc => .new (recalc clk.hw parentRate)
          | none => clk.rate
        else clk.rate
      (.ok (clkIdOf i),
        { clocks := Function.update reg.clocks i (some { clk with rate := rate })
          count := reg.count + 1 })
  | none => (.error .registryFull, reg)

/-- `clk_register`: the result, with the registry afterwards.  There is none if the parent's index
is out of bounds. -/
def clkRegister (reg : ClkRegistry) (clk : ClkCore) :
    Option (Except ClkError ClkId × ClkRegistry) :=
  if maxClocks ≤ reg.count then some (.error .registryFull, reg)
  else if clk.parent = clkNoParent then some (reg.takeSlot clk 0#64)
  else if maxClocks ≤ clk.parent.toNat then none
  else
    match reg.get clk.parent with
    | none => some (.error .noParent, reg)
    | some p =>
        let depth := p.depth + 1#32
        if maxClkDepth < depth.toNat then some (.error .treeTooDeep, reg)
        else some (reg.takeSlot { clk with depth := depth } p.rate.load)

/-- `clk_unregister`: the result, with the registry afterwards. -/
def clkUnregister (reg : ClkRegistry) (id : ClkId) : Except ClkError Unit × ClkRegistry :=
  if maxClocks ≤ id.toNat then (.error .invalidId, reg)
  else
    match reg.get id with
    | none => (.error .notFound, reg)
    | some c =>
        if 0 < c.enableCount.toInt then (.error .stillEnabled, reg)
        else
          let i := Fin.ofNat maxClocks id.toNat
          (.ok (), ⟨Function.update reg.clocks i none, reg.count - 1⟩)

/-! ### Chains of ancestors -/

/-- The loop that builds the chain of a clock and its ancestors, with room for `n` more of them.
There is no result if an index is out of bounds. -/
def parentChain (reg : ClkRegistry) : ℕ → ClkId → Option (List ClkId)
  | 0, _ => some []
  | n + 1, current =>
      if current = clkNoParent then some []
      else if maxClocks ≤ current.toNat then none
      else
        let next := ((reg.get current).map ClkCore.parent).getD clkNoParent
        (parentChain reg n next).map fun chain => current :: chain

/-! ### Propagation of a rate -/

/-- Storing the rate of a clock. -/
def storeRate (reg : ClkRegistry) (id : ClkId) (rate : BitVec 64) : ClkRegistry :=
  reg.modify id fun c => { c with rate := .new rate }

/-- The length of the buffer for the children of a clock. -/
def maxChildren : ℕ := 32

/-- The rate of a child after a change of its parent's rate. -/
def childRate (child : ClkCore) (parentRate : BitVec 64) : BitVec 64 :=
  match child.ops.recalcRate with
  | some recalc => recalc child.hw parentRate
  | none => child.rate.load

/-- The loop of `clk_propagate_rate` over the slots: the children of a clock are collected, as many
as the buffer takes, and their rates are stored. -/
def collectChildren (parent : ClkId) (newParentRate : BitVec 64) :
    List (Fin maxClocks) → ClkRegistry → List (ClkId × BitVec 64) →
      ClkRegistry × List (ClkId × BitVec 64)
  | [], reg, children => (reg, children)
  | i :: rest, reg, children =>
      match reg.clocks i with
      | some child =>
          if child.parent = parent ∧ children.length < maxChildren then
            let newRate := childRate child newParentRate
            collectChildren parent newParentRate rest (reg.storeRate (clkIdOf i) newRate)
              (children ++ [(clkIdOf i, newRate)])
          else collectChildren parent newParentRate rest reg children
      | none => collectChildren parent newParentRate rest reg children

/-- `clk_propagate_rate`, to a depth of at most `n`.  It does not return if the caller holds the
lock of the registry. -/
def propagateRate (locked : Bool) : ℕ → ClkRegistry → ClkId → BitVec 64 → Option ClkRegistry
  | 0, _, _, _ => none
  | n + 1, reg, parent, newParentRate =>
      if locked then none
      else
        let (reg, children) :=
          collectChildren parent newParentRate (List.finRange maxClocks) reg []
        children.foldlM (fun reg child => propagateRate locked n reg child.1 child.2) reg

/-! ### Forests -/

/-- The parent links form a forest of registered clocks, of depth at most `MAX_CLK_DEPTH`. -/
structure Forested (reg : ClkRegistry) (rank : ClkId → ℕ) : Prop where
  ranked : Forest.Ranked reg.parentOf rank
  rank_le : ∀ id, rank id ≤ maxClkDepth
  registered : ∀ id p, reg.parentOf id = some p → ∃ c, reg.get p = some c

/-- The parent links form a forest. -/
def IsForest (reg : ClkRegistry) : Prop := ∃ rank, reg.Forested rank

/-- Two registries have the same clocks with the same parents. -/
def SameLinks (reg reg' : ClkRegistry) : Prop :=
  ∀ id, (reg'.get id).map ClkCore.parent = (reg.get id).map ClkCore.parent

theorem SameLinks.refl (reg : ClkRegistry) : reg.SameLinks reg := fun _ => rfl

theorem SameLinks.trans {reg reg' reg'' : ClkRegistry} (h : reg.SameLinks reg')
    (h' : reg'.SameLinks reg'') : reg.SameLinks reg'' := fun id => (h' id).trans (h id)

/-- A change that keeps the parent keeps the links. -/
theorem sameLinks_modify (reg : ClkRegistry) (id : ClkId) {f : ClkCore → ClkCore}
    (hf : ∀ c, (f c).parent = c.parent) : reg.SameLinks (reg.modify id f) := by
  intro j
  rw [get_modify]
  split
  · rw [Option.map_map]
    exact congrArg (fun g => (reg.get j).map g) (funext hf)
  · rfl

theorem SameLinks.get {reg reg' : ClkRegistry} (h : reg.SameLinks reg') {id : ClkId} {c : ClkCore}
    (hc : reg.get id = some c) : ∃ c', reg'.get id = some c' ∧ c'.parent = c.parent := by
  have hid := h id
  rw [hc, Option.map_some, Option.map_eq_some_iff] at hid
  exact hid

theorem SameLinks.parentOf {reg reg' : ClkRegistry} (h : reg.SameLinks reg') :
    reg'.parentOf = reg.parentOf := by
  have hlinks : ∀ (r : ClkRegistry) id, r.parentOf id = ((r.get id).map ClkCore.parent).bind
      fun p => if p = clkNoParent then none else some p := by
    intro r id
    rw [ClkRegistry.parentOf]
    cases r.get id <;> rfl
  funext id
  rw [hlinks, hlinks, h id]

theorem Forested.congr {reg reg' : ClkRegistry} {rank : ClkId → ℕ} (h : reg.Forested rank)
    (hlinks : reg.SameLinks reg') : reg'.Forested rank where
  ranked := hlinks.parentOf ▸ h.ranked
  rank_le := h.rank_le
  registered id p hp := by
    rw [hlinks.parentOf] at hp
    obtain ⟨c, hc⟩ := h.registered id p hp
    obtain ⟨c', hc', -⟩ := hlinks.get hc
    exact ⟨c', hc'⟩

theorem parentChain_noParent (reg : ClkRegistry) (n : ℕ) :
    reg.parentChain n clkNoParent = some [] := by
  cases n with
  | zero => rfl
  | succ n => rw [parentChain, if_pos rfl]

/-- In a forest the chain of an identifier is that of the clock, its parent, and so on. -/
theorem Forested.parentChain_eq {reg : ClkRegistry} {rank : ClkId → ℕ} (h : reg.Forested rank)
    {id : ClkId} (hid : id.toNat < maxClocks) (n : ℕ) :
    reg.parentChain n id = some (Forest.chain reg.parentOf n id) := by
  induction n generalizing id with
  | zero => rfl
  | succ n ih =>
      have hne : id ≠ clkNoParent := by
        rintro rfl
        exact absurd hid (by decide)
      rw [parentChain, if_neg hne, if_neg (Nat.not_le.2 hid)]
      cases hp : reg.parentOf id with
      | some p =>
          obtain ⟨c, hc, -, rfl⟩ := parentOf_eq_some.1 hp
          obtain ⟨p, hget⟩ := h.registered _ _ hp
          obtain ⟨i, hi, -⟩ := exists_of_get hget
          have hlt : c.parent.toNat < maxClocks := by
            rw [hi, clkIdOf_toNat]
            exact i.isLt
          rw [Forest.chain_of_some hp, hc, Option.map_some, Option.getD_some]
          dsimp only
          rw [ih hlt, Option.map_some]
      | none =>
          have hnext : ((reg.get id).map ClkCore.parent).getD clkNoParent = clkNoParent := by
            cases hc : reg.get id with
            | none => rfl
            | some c =>
                rw [parentOf_of_get hc] at hp
                split at hp
                · assumption
                · cases hp
          rw [Forest.chain_of_none hp, hnext]
          dsimp only
          rw [parentChain_noParent, Option.map_some]

/-! ### The propagation ends -/

theorem sameLinks_storeRate (reg : ClkRegistry) (id : ClkId) (rate : BitVec 64) :
    reg.SameLinks (reg.storeRate id rate) := reg.sameLinks_modify id fun _ => rfl

/-- The children that are collected name the clock as their parent, and no link changes. -/
theorem collectChildren_links (parent : ClkId) (rate : BitVec 64) (l : List (Fin maxClocks))
    (reg : ClkRegistry) (children : List (ClkId × BitVec 64)) :
    reg.SameLinks (collectChildren parent rate l reg children).1 ∧
      ∀ child ∈ (collectChildren parent rate l reg children).2,
        child ∈ children ∨ ∃ c, reg.get child.1 = some c ∧ c.parent = parent := by
  induction l generalizing reg children with
  | nil => exact ⟨.refl reg, fun _ h => .inl h⟩
  | cons i l ih =>
      rw [collectChildren]
      cases hi : reg.clocks i with
      | none => exact ih reg children
      | some c =>
          dsimp only
          split
          · rename_i hchild
            have hstore := reg.sameLinks_storeRate (clkIdOf i) (childRate c rate)
            obtain ⟨hlinks, hall⟩ := ih (reg.storeRate (clkIdOf i) (childRate c rate))
              (children ++ [(clkIdOf i, childRate c rate)])
            have hget : reg.get (clkIdOf i) = some c := by rw [get_clkIdOf, hi]
            refine ⟨hstore.trans hlinks, fun child hmem => ?_⟩
            rcases hall child hmem with hold | ⟨c', hc', hp'⟩
            · rcases List.mem_append.1 hold with hold | hnew
              · exact .inl hold
              · rw [List.mem_singleton.1 hnew]
                exact .inr ⟨c, hget, hchild.1⟩
            · have hsame := hstore child.1
              rw [hc', Option.map_some] at hsame
              obtain ⟨c'', hc'', hp''⟩ := Option.map_eq_some_iff.1 hsame.symm
              exact .inr ⟨c'', hc'', hp''.trans hp'⟩
          · exact ih reg children

/-- No link changes. -/
theorem propagateRate_links {n : ℕ} {reg reg' : ClkRegistry} {parent : ClkId} {rate : BitVec 64}
    (h : propagateRate false n reg parent rate = some reg') : reg.SameLinks reg' := by
  induction n generalizing reg reg' parent rate with
  | zero => cases h
  | succ n ih =>
      rw [propagateRate, if_neg Bool.false_ne_true] at h
      obtain ⟨hlinks, -⟩ := collectChildren_links parent rate (List.finRange maxClocks) reg []
      generalize collectChildren parent rate (List.finRange maxClocks) reg [] = start at h hlinks
      obtain ⟨reg₁, children⟩ := start
      dsimp only at h hlinks
      refine hlinks.trans ?_
      clear hlinks
      induction children generalizing reg₁ with
      | nil =>
          cases h
          exact .refl _
      | cons child rest ihc =>
          rw [List.foldlM_cons] at h
          obtain ⟨reg₂, h₂, hrest⟩ := Option.bind_eq_some_iff.1 h
          exact (ih h₂).trans (ihc reg₂ hrest)

/-- In a forest the propagation from a clock ends, within as many levels as lie below it. -/
theorem Forested.propagateRate_isSome {reg : ClkRegistry} {rank : ClkId → ℕ}
    (h : reg.Forested rank) {parent : ClkId} (hparent : parent ≠ clkNoParent) (rate : BitVec 64)
    {n : ℕ} (hn : maxClkDepth < n + rank parent) :
    ∃ reg', propagateRate false n reg parent rate = some reg' := by
  induction n generalizing reg parent rate with
  | zero =>
      have hle := h.rank_le parent
      omega
  | succ n ih =>
      rw [propagateRate, if_neg Bool.false_ne_true]
      obtain ⟨hlinks, hall⟩ := collectChildren_links parent rate (List.finRange maxClocks) reg []
      generalize collectChildren parent rate (List.finRange maxClocks) reg [] = start at hlinks hall
      obtain ⟨reg₁, children⟩ := start
      dsimp only at hlinks hall ⊢
      have hforest := h.congr hlinks
      -- every child lies one level deeper
      have hdeep : ∀ child ∈ children, child.1 ≠ clkNoParent ∧ maxClkDepth < n + rank child.1 := by
        intro child hmem
        obtain hnil | ⟨c, hc, hp⟩ := hall child hmem
        · cases hnil
        · have hlt := h.ranked child.1 parent (parentOf_eq_some.2 ⟨c, hc, hp ▸ hparent, hp⟩)
          exact ⟨ne_noParent hc, by omega⟩
      clear hall hlinks h
      induction children generalizing reg₁ with
      | nil => exact ⟨reg₁, rfl⟩
      | cons child rest ihc =>
          rw [List.forall_mem_cons] at hdeep
          obtain ⟨reg₂, h₂⟩ := ih hforest hdeep.1.1 child.2 hdeep.1.2
          rw [List.foldlM_cons, h₂]
          exact ihc reg₂ (hforest.congr (propagateRate_links h₂)) hdeep.2

end ClkRegistry

end StarOS
