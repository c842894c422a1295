/-
Registering and unregistering clocks: whether the clocks stay a forest.

The depth of a clock is computed when it is registered, from the depth of its parent.  Unregistering
looks only at whether the clock is enabled, so a clock can go while others name it as their parent:
these are left without a parent, and their chains grow again, or close to a cycle, when the slot is
taken by another clock.

* `StarOS.ClkTreeRun`, `StarOS.ClkTreeRun.next` — the runs;
* `StarOS.ClkRegistry.TreeOk` — what is asked of the registry;
* `StarOS.ClkRegistry.Linked` — the invariant;
* `StarOS.clk_tree_iff` — the registry is as it should be along a run exactly if no clock is
  unregistered that is the parent of another one;
* `StarOS.clk_tree_cycle` — a run that leaves two clocks each the parent of the other.
-/

import StarOS.Clock
import StarOS.Runs

set_option autoImplicit false

namespace StarOS

/-! ### Runs -/

/-- A call: of `clk_register`, with a clock of `ClkCore::new` or `ClkCore::fixed`, or of
`clk_unregister`. -/
inductive ClkTreeOp where
  | registerNew (hw : BitVec 64) (ops : ClkOps) (parent : ClkId) (flags : BitVec 32)
  | registerFixed (rateHz : BitVec 64)
  | unregister (id : ClkId)

/-- The registry, with the identifiers that `clk_register` has returned. -/
structure ClkTreeRun where
  reg : ClkRegistry
  returned : List ClkId

namespace ClkTreeRun

/-- The empty registry. -/
def start : ClkTreeRun := ⟨.new, []⟩

/-- The state after a call of `clk_register`. -/
def register (s : ClkTreeRun) (clk : ClkCore) : ClkTreeRun :=
  match s.reg.clkRegister clk with
  | some (.ok id, reg) => ⟨reg, id :: s.returned⟩
  | some (.error _, reg) => ⟨reg, s.returned⟩
  | none => s

/-- The state after a call. -/
def next (s : ClkTreeRun) : ClkTreeOp → ClkTreeRun
  | .registerNew hw ops parent flags => s.register (.new hw ops parent flags)
  | .registerFixed rateHz => s.register (.fixed rateHz)
  | .unregister id => { s with reg := (s.reg.clkUnregister id).2 }

/-- What may be assumed of a call: the parent of a new clock is none, or was returned earlier. -/
def Allowed (s : ClkTreeRun) : ClkTreeOp → Prop
  | .registerNew _ _ parent _ => parent = clkNoParent ∨ parent ∈ s.returned
  | _ => True

end ClkTreeRun

/-! ### The law -/

/-- What is asked of the registry: every clock is a root of depth zero, or lies one deeper than its
parent, which is registered; the parents of every clock end at a root within fifteen steps; and the
propagation of a rate from every clock ends. -/
structure ClkRegistry.TreeOk (reg : ClkRegistry) : Prop where
  linked : ∀ id c, reg.get id = some c →
    (c.parent = clkNoParent ∧ c.depth.toNat = 0) ∨
      ∃ p, reg.get c.parent = some p ∧ c.depth.toNat = p.depth.toNat + 1
  rooted : ∀ id c, reg.get id = some c → ∃ k ≤ maxClkDepth, ∃ r,
    Forest.climb reg.parentOf k id = some r ∧ ∃ c', reg.get r = some c' ∧ c'.parent = clkNoParent
  ends : ∀ id c, reg.get id = some c → ∀ rate, ∃ n reg',
    ClkRegistry.propagateRate false n reg id rate = some reg'

namespace ClkTreeRun

/-- A call that leaves the registry as it should be. -/
def Keeps (s : ClkTreeRun) (op : ClkTreeOp) : Prop := (s.next op).reg.TreeOk

/-- No clock that is unregistered is the parent of another one. -/
def Childless (s : ClkTreeRun) : ClkTreeOp → Prop
  | .unregister id => ∀ c, s.reg.get id = some c → c.enableCount.toInt ≤ 0 →
      ∀ j c', s.reg.get j = some c' → c'.parent ≠ id
  | _ => True

end ClkTreeRun

/-! ### The invariant -/

/-- Every clock is a root of depth zero, or lies one deeper than its parent, and none lies too deep.
-/
structure ClkRegistry.Linked (reg : ClkRegistry) : Prop where
  linked : ∀ id c, reg.get id = some c →
    (c.parent = clkNoParent ∧ c.depth.toNat = 0) ∨
      ∃ p, reg.get c.parent = some p ∧ c.depth.toNat = p.depth.toNat + 1
  depth_le : ∀ id c, reg.get id = some c → c.depth.toNat ≤ maxClkDepth

namespace ClkRegistry

/-- The depths that the clocks were registered with. -/
def depthOf (reg : ClkRegistry) (id : ClkId) : ℕ :=
  ((reg.get id).map fun c => c.depth.toNat).getD 0

theorem depthOf_of_get {reg : ClkRegistry} {id : ClkId} {c : ClkCore} (h : reg.get id = some c) :
    reg.depthOf id = c.depth.toNat := by
  rw [depthOf, h]
  rfl

/-- A linked registry is a forest, ranked by the depths. -/
theorem Linked.forested {reg : ClkRegistry} (h : reg.Linked) : reg.Forested reg.depthOf := by
  have hparent : ∀ id p, reg.parentOf id = some p → ∃ c c', reg.get id = some c ∧
      reg.get p = some c' ∧ c.depth.toNat = c'.depth.toNat + 1 := by
    intro id p hp
    obtain ⟨c, hc, hne, rfl⟩ := parentOf_eq_some.1 hp
    rcases h.linked id c hc with ⟨hroot, -⟩ | ⟨c', hc', hdepth⟩
    · exact absurd hroot hne
    · exact ⟨c, c', hc, hc', hdepth⟩
  refine ⟨fun id p hp => ?_, fun id => ?_, fun id p hp => ?_⟩
  · obtain ⟨c, c', hc, hc', hdepth⟩ := hparent id p hp
    rw [depthOf_of_get hc, depthOf_of_get hc', hdepth]
    exact Nat.lt_succ_self _
  · cases hc : reg.get id with
    | none =>
        rw [depthOf, hc]
        exact Nat.zero_le _
    | some c =>
        rw [depthOf_of_get hc]
        exact h.depth_le id c hc
  · obtain ⟨c, c', hc, hc', hdepth⟩ := hparent id p hp
    exact ⟨c', hc'⟩

/-- The root that a registered clock leads to is registered. -/
theorem Forested.get_climb {reg : ClkRegistry} {rank : ClkId → ℕ} (h : reg.Forested rank) {k : ℕ}
    {id r : ClkId} {c : ClkCore} (hc : reg.get id = some c)
    (hr : Forest.climb reg.parentOf k id = some r) : ∃ c', reg.get r = some c' := by
  induction k generalizing id c with
  | zero =>
      cases hr
      exact ⟨c, hc⟩
  | succ k ih =>
      obtain ⟨p, hp, hr⟩ := Option.bind_eq_some_iff.1 hr
      obtain ⟨c', hc'⟩ := h.registered id p hp
      exact ih hc' hr

theorem Linked.treeOk {reg : ClkRegistry} (h : reg.Linked) : reg.TreeOk where
  linked := h.linked
  rooted id c hc := by
    obtain ⟨k, hk, r, hr, hroot⟩ := h.forested.ranked.exists_root id
    obtain ⟨c', hc'⟩ := h.forested.get_climb hc hr
    refine ⟨k, hk.trans (h.forested.rank_le id), r, hr, c', hc', ?_⟩
    rw [parentOf_of_get hc'] at hroot
    by_contra hne
    rw [if_neg hne] at hroot
    cases hroot
  ends id c hc rate :=
    ⟨maxClkDepth + 1, h.forested.propagateRate_isSome (ne_noParent hc) rate (by omega)⟩

/-! ### What the calls do -/

theorem takeSlot_cases (reg : ClkRegistry) (clk : ClkCore) (parentRate : BitVec 64) :
    reg.takeSlot clk parentRate = (.error .registryFull, reg) ∨
      ∃ i c reg', reg.takeSlot clk parentRate = (.ok (clkIdOf i), reg') ∧ reg.clocks i = none ∧
        (∀ id, reg'.get id = if id = clkIdOf i then some c else reg.get id) ∧
        c.parent = clk.parent ∧ c.depth = clk.depth := by
  unfold takeSlot
  split
  · rename_i i hfree
    exact .inr ⟨i, _, _, rfl, clocks_freeSlot hfree, reg.get_update i _ _, rfl, rfl⟩
  · exact .inl rfl

/-- `clk_register` fails and changes nothing, or takes a free slot for a root, or for a clock that
lies one deeper than its parent. -/
theorem clkRegister_cases {reg reg' : ClkRegistry} {clk : ClkCore} {r : Except ClkError ClkId}
    (h : reg.clkRegister clk = some (r, reg')) :
    (∃ e, r = .error e ∧ reg' = reg) ∨
      ∃ i c, r = .ok (clkIdOf i) ∧ reg.clocks i = none ∧
        (∀ id, reg'.get id = if id = clkIdOf i then some c else reg.get id) ∧
        c.parent = clk.parent ∧
        ((clk.parent = clkNoParent ∧ c.depth = clk.depth) ∨
          ∃ p, reg.get clk.parent = some p ∧ c.depth = p.depth + 1#32 ∧
            c.depth.toNat ≤ maxClkDepth) := by
  rw [clkRegister] at h
  split at h
  · cases h
    exact .inl ⟨_, rfl, rfl⟩
  split at h
  · rename_i hroot
    obtain hfull | ⟨i, c, reg'', htake, hfree, hget, hp, hd⟩ := reg.takeSlot_cases clk 0#64
    · rw [hfull] at h
      cases h
      exact .inl ⟨_, rfl, rfl⟩
    · rw [htake] at h
      cases h
      exact .inr ⟨i, c, rfl, hfree, hget, hp, .inl ⟨hroot, hd⟩⟩
  split at h
  · cases h
  cases hparent : reg.get clk.parent with
  | none =>
      rw [hparent] at h
      cases h
      exact .inl ⟨_, rfl, rfl⟩
  | some p =>
      rw [hparent] at h
      dsimp only at h
      split at h
      · cases h
        exact .inl ⟨_, rfl, rfl⟩
      · rename_i hdeep
        obtain hfull | ⟨i, c, reg'', htake, hfree, hget, hp, hd⟩ :=
          reg.takeSlot_cases { clk with depth := p.depth + 1#32 } p.rate.load
        · rw [hfull] at h
          cases h
          exact .inl ⟨_, rfl, rfl⟩
        · rw [htake] at h
          cases h
          exact .inr ⟨i, c, rfl, hfree, hget, hp, .inr ⟨p, rfl, hd, hd ▸ Nat.not_lt.1 hdeep⟩⟩

/-- `clk_unregister` frees the slot of a clock that is not enabled. -/
theorem clkUnregister_of_get {reg : ClkRegistry} {id : ClkId} {c : ClkCore}
    (hc : reg.get id = some c) (hidle : c.enableCount.toInt ≤ 0) (j : ClkId) :
    (reg.clkUnregister id).2.get j = if j = id then none else reg.get j := by
  have hlt : id.toNat < maxClocks := by
    by_contra hle
    rw [get_of_le (Nat.not_lt.1 hle)] at hc
    cases hc
  rw [clkUnregister, if_neg (Nat.not_le.2 hlt), hc]
  dsimp only
  rw [if_neg (Int.not_lt.2 hidle)]
  dsimp only
  rw [get_update, clkIdOf_ofNat hlt]

/-- `clk_unregister` changes nothing otherwise. -/
theorem clkUnregister_cases (reg : ClkRegistry) (id : ClkId) :
    (reg.clkUnregister id).2 = reg ∨ ∃ c, reg.get id = some c ∧ c.enableCount.toInt ≤ 0 := by
  rw [clkUnregister]
  split
  · exact .inl rfl
  cases hc : reg.get id with
  | none => exact .inl rfl
  | some c =>
      dsimp only
      split
      · exact .inl rfl
      · rename_i hidle
        exact .inr ⟨c, rfl, Int.not_lt.1 hidle⟩

/-! ### The invariant along runs -/

theorem linked_new : new.Linked where
  linked id c hc := by
    obtain ⟨i, -, hi⟩ := exists_of_get hc
    cases hi
  depth_le id c hc := by
    obtain ⟨i, -, hi⟩ := exists_of_get hc
    cases hi

/-- A clock in a free slot that is a root, or lies one deeper than its parent, keeps the registry
linked. -/
theorem Linked.insert {reg reg' : ClkRegistry} (h : reg.Linked) {i : Fin maxClocks} {c : ClkCore}
    (hfree : reg.clocks i = none)
    (hget : ∀ id, reg'.get id = if id = clkIdOf i then some c else reg.get id)
    (hc : (c.parent = clkNoParent ∧ c.depth.toNat = 0) ∨
      ∃ p, reg.get c.parent = some p ∧ c.depth.toNat = p.depth.toNat + 1)
    (hdepth : c.depth.toNat ≤ maxClkDepth) : reg'.Linked := by
  -- the clocks that were there are there still
  have hold : ∀ id c', reg.get id = some c' → reg'.get id = some c' := by
    intro id c' hid
    rw [hget, if_neg, hid]
    rintro rfl
    rw [get_clkIdOf, hfree] at hid
    cases hid
  have hcases : ∀ id c', reg'.get id = some c' → c' = c ∨ reg.get id = some c' := by
    intro id c' hid
    rw [hget] at hid
    split at hid
    · exact .inl (Option.some.inj hid).symm
    · exact .inr hid
  refine ⟨fun id c' hid => ?_, fun id c' hid => ?_⟩
  · have hlinked : (c'.parent = clkNoParent ∧ c'.depth.toNat = 0) ∨
        ∃ p, reg.get c'.parent = some p ∧ c'.depth.toNat = p.depth.toNat + 1 := by
      rcases hcases id c' hid with rfl | hid
      · exact hc
      · exact h.linked id c' hid
    exact hlinked.imp_right fun ⟨p, hp, hd⟩ => ⟨p, hold _ p hp, hd⟩
  · rcases hcases id c' hid with rfl | hid
    · exact hdepth
    · exact h.depth_le id c' hid

/-- Registering a clock keeps the registry linked. -/
theorem Linked.clkRegister {reg reg' : ClkRegistry} (h : reg.Linked) {clk : ClkCore}
    {r : Except ClkError ClkId} (hdepth : clk.depth = 0#32)
    (hreg : reg.clkRegister clk = some (r, reg')) : reg'.Linked := by
  rcases clkRegister_cases hreg with ⟨e, -, rfl⟩ | ⟨i, c, -, hfree, hget, hp, hcase⟩
  · exact h
  · rcases hcase with ⟨hroot, hd⟩ | ⟨p, hparent, hd, hle⟩
    · have hzero : c.depth.toNat = 0 := by
        rw [hd, hdepth]
        rfl
      exact h.insert hfree hget (.inl ⟨hp.trans hroot, hzero⟩) (hzero ▸ Nat.zero_le _)
    · have hsucc : c.depth.toNat = p.depth.toNat + 1 := by
        have hp15 : p.depth.toNat ≤ 15 := h.depth_le _ p hparent
        rw [hd, BitVec.toNat_add]
        change (p.depth.toNat + 1) % 2 ^ 32 = _
        omega
      exact h.insert hfree hget (.inr ⟨p, hp ▸ hparent, hsucc⟩) hle

/-- Unregistering a clock that is no clock's parent keeps the registry linked. -/
theorem Linked.remove {reg reg' : ClkRegistry} (h : reg.Linked) {id : ClkId}
    (hget : ∀ j, reg'.get j = if j = id then none else reg.get j)
    (hchild : ∀ j c, reg.get j = some c → c.parent ≠ id) : reg'.Linked := by
  have hcases : ∀ j c, reg'.get j = some c → reg.get j = some c := by
    intro j c hj
    rw [hget] at hj
    split at hj
    · cases hj
    · exact hj
  refine ⟨fun j c hj => ?_, fun j c hj => h.depth_le j c (hcases j c hj)⟩
  refine (h.linked j c (hcases j c hj)).imp_right fun ⟨p, hp, hd⟩ => ⟨p, ?_, hd⟩
  rw [hget, if_neg (hchild j c (hcases j c hj)), hp]

/-- Unregistering the parent of a clock leaves that clock without its parent. -/
theorem Linked.not_treeOk_remove {reg reg' : ClkRegistry} (h : reg.Linked) {id j : ClkId}
    {p c : ClkCore} (hget : ∀ j, reg'.get j = if j = id then none else reg.get j)
    (hp : reg.get id = some p) (hc : reg.get j = some c) (hchild : c.parent = id) :
    ¬ reg'.TreeOk := by
  intro hok
  have hne : j ≠ id := by
    rintro rfl
    rcases h.linked j c hc with ⟨hroot, -⟩ | ⟨p', hp', hd⟩
    · exact ne_noParent hc (hchild.symm.trans hroot)
    · rw [hchild, hc] at hp'
      cases hp'
      omega
  rcases hok.linked j c (by rw [hget, if_neg hne, hc]) with ⟨hroot, -⟩ | ⟨p', hp', -⟩
  · exact ne_noParent hp (hchild.symm.trans hroot)
  · rw [hget, if_pos hchild] at hp'
    cases hp'

/-- Two clocks cannot each be the parent of the other one. -/
theorem not_treeOk_of_cycle {reg : ClkRegistry} {a b : ClkId} (hab : reg.parentOf a = some b)
    (hba : reg.parentOf b = some a) : ¬ reg.TreeOk := by
  intro hok
  obtain ⟨c, hc, hne, hp⟩ := parentOf_eq_some.1 hab
  obtain ⟨c', hc', hne', hp'⟩ := parentOf_eq_some.1 hba
  -- each of the two lies deeper than the other one
  rcases hok.linked _ c hc with ⟨hroot, -⟩ | ⟨p, hget, hdepth⟩
  · exact hne hroot
  rcases hok.linked _ c' hc' with ⟨hroot, -⟩ | ⟨p', hget', hdepth'⟩
  · exact hne' hroot
  rw [hp] at hget
  rw [hp'] at hget'
  cases hget.symm.trans hc'
  cases hget'.symm.trans hc
  omega

end ClkRegistry

namespace ClkTreeRun

/-- The registry is linked, and every identifier that was returned is in range. -/
structure Inv (s : ClkTreeRun) : Prop where
  linked : s.reg.Linked
  inRange : ∀ id ∈ s.returned, id.toNat < maxClocks

theorem inv_start : start.Inv := ⟨ClkRegistry.linked_new, fun _ h => absurd h List.not_mem_nil⟩

theorem Inv.register {s : ClkTreeRun} (h : s.Inv) {clk : ClkCore} (hdepth : clk.depth = 0#32) :
    (s.register clk).Inv := by
  rw [ClkTreeRun.register]
  cases hreg : s.reg.clkRegister clk with
  | none => exact h
  | some out =>
      obtain ⟨r, reg'⟩ := out
      have hlinked := h.linked.clkRegister hdepth hreg
      rcases ClkRegistry.clkRegister_cases hreg with ⟨e, rfl, -⟩ | ⟨i, c, rfl, -⟩
      · exact ⟨hlinked, h.inRange⟩
      · refine ⟨hlinked, fun id hid => ?_⟩
        rcases List.mem_cons.1 hid with rfl | hid
        · rw [clkIdOf_toNat]
          exact i.isLt
        · exact h.inRange id hid

/-- As long as no parent is unregistered the invariant is kept. -/
theorem Inv.next {s : ClkTreeRun} (h : s.Inv) {op : ClkTreeOp} (hchild : s.Childless op) :
    (s.next op).Inv := by
  cases op with
  | registerNew hw ops parent flags => exact h.register rfl
  | registerFixed rateHz => exact h.register rfl
  | unregister id =>
      rcases s.reg.clkUnregister_cases id with hsame | ⟨c, hc, hidle⟩
      · rw [ClkTreeRun.next, hsame]
        exact h
      · have hget := ClkRegistry.clkUnregister_of_get hc hidle
        exact ⟨h.linked.remove hget (hchild c hc hidle), h.inRange⟩

/-- A call leaves the registry as it should be exactly if it does not unregister a parent. -/
theorem Inv.keeps_iff {s : ClkTreeRun} (h : s.Inv) (op : ClkTreeOp) :
    s.Keeps op ↔ s.Childless op := by
  refine ⟨fun hkeeps => ?_, fun hchild => (h.next hchild).linked.treeOk⟩
  cases op with
  | registerNew hw ops parent flags => trivial
  | registerFixed rateHz => trivial
  | unregister id =>
      intro c hc hidle j c' hc' hparent
      have hget := ClkRegistry.clkUnregister_of_get hc hidle
      exact h.linked.not_treeOk_remove hget hc hc' hparent hkeeps

end ClkTreeRun

/-- Along a run the registry is as it should be exactly if no clock is unregistered that is the
parent of another one. -/
theorem clk_tree_iff (ops : List ClkTreeOp)
    (h : Runs.Along ClkTreeRun.next ClkTreeRun.Allowed .start ops) :
    Runs.Along ClkTreeRun.next ClkTreeRun.Keeps .start ops ↔
      Runs.Along ClkTreeRun.next ClkTreeRun.Childless .start ops :=
  Runs.along_iff (fun _ op hI _ => hI.keeps_iff op) (fun _ _ hI _ hC => hI.next hC)
    ClkTreeRun.inv_start h

/-- A root, a child of it, and the end of a clock that is not there. -/
theorem clk_tree_line : Runs.Along ClkTreeRun.next ClkTreeRun.Keeps .start
    [.registerNew 0#64 .empty clkNoParent 0#32, .registerNew 0#64 .empty 0#32 0#32,
      .unregister 2#32] := by
  have hchild : (0#32) ∈ (ClkTreeRun.start.next
      (.registerNew 0#64 .empty clkNoParent 0#32)).returned := by decide +kernel
  have hnone : (((ClkTreeRun.start.next (.registerNew 0#64 .empty clkNoParent 0#32)).next
      (.registerNew 0#64 .empty 0#32 0#32)).reg.get 2#32).isNone := by decide +kernel
  rw [clk_tree_iff]
  · refine ⟨trivial, trivial, fun c hc => ?_, trivial⟩
    rw [hc] at hnone
    cases hnone
  · exact ⟨.inl rfl, .inr hchild, trivial, trivial⟩

/-! ### A cycle -/

/-- A root, a child of it, the end of the root, and a child of the child. -/
def clkCycleOps : List ClkTreeOp :=
  [.registerNew 0#64 .empty clkNoParent 0#32, .registerNew 0#64 .empty 0#32 0#32,
    .unregister 0#32, .registerNew 0#64 .empty 1#32 0#32]

/-- Every parent of the run was returned earlier, and in the end each of two clocks is the parent of
the other one. -/
theorem clk_tree_cycle : Runs.Along ClkTreeRun.next ClkTreeRun.Allowed .start clkCycleOps ∧
    ¬ Runs.Along ClkTreeRun.next ClkTreeRun.Keeps .start clkCycleOps ∧
      (clkCycleOps.foldl ClkTreeRun.next .start).reg.parentOf 0#32 = some 1#32 ∧
      (clkCycleOps.foldl ClkTreeRun.next .start).reg.parentOf 1#32 = some 0#32 := by
  have hupper : (clkCycleOps.foldl ClkTreeRun.next .start).reg.parentOf 0#32 = some 1#32 := by
    decide +kernel
  have hlower : (clkCycleOps.foldl ClkTreeRun.next .start).reg.parentOf 1#32 = some 0#32 := by
    decide +kernel
  refine ⟨⟨.inl rfl, .inr ?_, trivial, .inr ?_, trivial⟩, fun hkeeps => ?_, hupper, hlower⟩
  · decide +kernel
  · decide +kernel
  · simp only [clkCycleOps, List.foldl_cons, List.foldl_nil] at hupper hlower
    exact ClkRegistry.not_treeOk_of_cycle hupper hlower hkeeps.2.2.2.1

end StarOS
