/-
Changing the rate of a clock.

`clk_set_rate` stores the new rate and propagates it to the clocks below.  A clock without a
`set_rate` operation is stored to while the registry is locked, and the propagation takes the same
lock again.  At every clock the propagation goes on to the first children that fit a buffer.

* `StarOS.clkSetRate` — the call;
* `StarOS.ClkRegistry.Reached` — the clocks that a propagation reaches;
* `StarOS.ClkRegistry.targetRate` — the rate that a clock should have afterwards;
* `StarOS.ClkRegistry.propagateRate_spec` — what a propagation does to the rates;
* `StarOS.clk_set_rate_iff` — a call returns and the rates are as they should be exactly if there is
  an operation, and the clocks that are not reached have the right rates already;
* `StarOS.clk_set_rate_deadlock` — a call that never returns.
-/

import StarOS.ClockUse

set_option autoImplicit false

namespace StarOS

/-! ### The call -/

/-- `parent_rate`. -/
def ClkRegistry.parentRate (reg : ClkRegistry) (parent : ClkId) : BitVec 64 :=
  if parent = clkNoParent then 0#64
  else ((reg.get parent).map fun c => c.rate.load).getD 0#64

/-- The rate after rounding. -/
def ClkCore.roundedRate (clk : ClkCore) (rateHz parentRate : BitVec 64) : BitVec 64 :=
  match clk.ops.roundRate with
  | some round => round clk.hw rateHz parentRate
  | none => rateHz

/-- `clk_set_rate`, with a propagation to a depth of at most `n`. -/
def clkSetRate (n : ℕ) (reg : ClkRegistry) (id : ClkId) (rateHz : BitVec 64) :
    Option (Except ClkError (BitVec 64) × ClkRegistry) :=
  match reg.regGet id with
  | .error e => some (.error e, reg)
  | .ok clk =>
      if clk.flags &&& ClkFlags.fixedRate ≠ 0#32 then some (.error .fixedRate, reg)
      else
        let pRate := reg.parentRate clk.parent
        let actual := clk.roundedRate rateHz pRate
        match clk.ops.setRate with
        | some setFn =>
            -- the lock is released before the operation is called
            match setFn clk.hw actual pRate with
            | .error e => some (.error e, reg)
            | .ok result =>
                match reg.regGet id with
                | .error e => some (.error e, reg)
                | .ok _ =>
                    (ClkRegistry.propagateRate false n (reg.storeRate id result) id result).map
                      fun reg => (.ok result, reg)
        | none =>
            (ClkRegistry.propagateRate true n (reg.storeRate id actual) id actual).map
              fun reg => (.ok actual, reg)

/-! ### The law -/

namespace ClkRegistry

/-- The stored rate of a clock. -/
def rateOf (reg : ClkRegistry) (id : ClkId) : BitVec 64 :=
  ((reg.get id).map fun c => c.rate.load).getD 0#64

/-- Whether a clock has a `recalc_rate` operation. -/
def HasRecalc (reg : ClkRegistry) (id : ClkId) : Prop :=
  ∃ c, reg.get id = some c ∧ c.ops.recalcRate.isSome

/-- A clock lies below another one, and is another one. -/
def StrictlyBelow (reg : ClkRegistry) (id d : ClkId) : Prop :=
  Forest.Below reg.parentOf id d ∧ d ≠ id

/-- What is asked of the rates after the rate of a clock was set. -/
structure RatesFollow (reg reg' : ClkRegistry) (id : ClkId) (r : BitVec 64) : Prop where
  self : reg'.rateOf id = r
  below : ∀ d c recalc, reg.StrictlyBelow id d → reg.get d = some c →
    c.ops.recalcRate = some recalc → reg'.rateOf d = recalc c.hw (reg'.rateOf c.parent)
  other : ∀ d, d ≠ id → ¬ (reg.StrictlyBelow id d ∧ reg.HasRecalc d) →
    reg'.rateOf d = reg.rateOf d

end ClkRegistry

/-- The call returns, and if it succeeds the rates are as they should be. -/
structure SetsRate (reg : ClkRegistry) (id : ClkId) (rateHz : BitVec 64) : Prop where
  returns : ∃ n res, clkSetRate n reg id rateHz = some res
  rates : ∀ n r reg', clkSetRate n reg id rateHz = some (.ok r, reg') →
    reg.RatesFollow reg' id r

namespace ClkRegistry

/-- Whether the clock in a slot names a clock as its parent. -/
def isChild (reg : ClkRegistry) (p : ClkId) (i : Fin maxClocks) : Bool :=
  (reg.clocks i).map ClkCore.parent == some p

/-- The first `m` children of a clock among the given slots. -/
def takeChildren (reg : ClkRegistry) (p : ClkId) (m : ℕ) (l : List (Fin maxClocks)) : List ClkId :=
  ((l.filter (reg.isChild p)).take m).map clkIdOf

/-- The first children of a clock, as many as fit the buffer. -/
def firstChildren (reg : ClkRegistry) (p : ClkId) : List ClkId :=
  reg.takeChildren p maxChildren (List.finRange maxClocks)

/-- The clocks that a propagation from a clock reaches. -/
inductive Reached (reg : ClkRegistry) : ClkId → ClkId → Prop
  | child {p d : ClkId} : d ∈ reg.firstChildren p → Reached reg p d
  | deeper {p k d : ClkId} : k ∈ reg.firstChildren p → Reached reg k d → Reached reg p d

/-- The rate of a clock as a function of its parent's rate. -/
def rateBy (reg : ClkRegistry) (id : ClkId) (parentRate : BitVec 64) : BitVec 64 :=
  ((reg.get id).map fun c => childRate c parentRate).getD 0#64

/-- The rate that a clock below `p` should have when the rate of `p` is `r`. -/
def targetRate (reg : ClkRegistry) (p : ClkId) (r : BitVec 64) (d : ClkId) : BitVec 64 :=
  ((reg.ancestors d).takeWhile fun j => j != p).foldr reg.rateBy r

/-- The clocks with a `recalc_rate` operation that the propagation does not reach have the rates
already that they should have. -/
def UnreachedFollow (reg : ClkRegistry) (id : ClkId) (r : BitVec 64) : Prop :=
  ∀ d, reg.StrictlyBelow id d → reg.HasRecalc d → ¬ reg.Reached id d →
    reg.rateOf d = reg.targetRate id r d

end ClkRegistry

/-- The clock, if its rate is not fixed, has a `set_rate` operation, and if that succeeds the clocks
that the propagation does not reach have the rates that they should have. -/
def CanSetRate (reg : ClkRegistry) (id : ClkId) (rateHz : BitVec 64) : Prop :=
  ∀ c, reg.get id = some c → c.flags &&& ClkFlags.fixedRate = 0#32 →
    ∃ setFn, c.ops.setRate = some setFn ∧ ∀ r,
      setFn c.hw (c.roundedRate rateHz (reg.parentRate c.parent)) (reg.parentRate c.parent) =
        .ok r → reg.UnreachedFollow id r

/-! ### What a propagation leaves alone -/

namespace ClkRegistry

namespace SameLinks

variable {reg reg' : ClkRegistry} (h : reg.SameLinks reg')

include h

theorem symm : reg'.SameLinks reg := fun d => (h d).symm

theorem takeChildren (p : ClkId) (m : ℕ) (l : List (Fin maxClocks)) :
    reg'.takeChildren p m l = reg.takeChildren p m l := by
  have hchild : reg'.isChild p = reg.isChild p := by
    funext i
    have hlinks := h (clkIdOf i)
    rw [get_clkIdOf, get_clkIdOf] at hlinks
    rw [ClkRegistry.isChild, ClkRegistry.isChild, hlinks]
  rw [ClkRegistry.takeChildren, ClkRegistry.takeChildren, hchild]

theorem ancestors (d : ClkId) : reg'.ancestors d = reg.ancestors d := by
  rw [ClkRegistry.ancestors, ClkRegistry.ancestors, h.parentOf]

theorem reached {p d : ClkId} (hd : reg.Reached p d) : reg'.Reached p d := by
  induction hd with
  | child hd =>
      refine .child ?_
      rwa [firstChildren, h.takeChildren]
  | deeper hk _ ih =>
      refine .deeper ?_ ih
      rwa [firstChildren, h.takeChildren]

theorem reached_iff {p d : ClkId} : reg'.Reached p d ↔ reg.Reached p d :=
  ⟨h.symm.reached, h.reached⟩

end SameLinks

/-- Two registries have the same clocks, with the same parents and the same ways to compute their
rates. -/
def SameRules (reg reg' : ClkRegistry) : Prop :=
  ∀ d, (reg'.get d).map (fun c => (c.parent, childRate c)) =
    (reg.get d).map fun c => (c.parent, childRate c)

namespace SameRules

variable {reg reg' reg'' : ClkRegistry}

theorem refl (reg : ClkRegistry) : reg.SameRules reg := fun _ => rfl

theorem trans (h : reg.SameRules reg') (h' : reg'.SameRules reg'') : reg.SameRules reg'' :=
  fun d => (h' d).trans (h d)

variable (h : reg.SameRules reg')

include h

theorem sameLinks : reg.SameLinks reg' := by
  intro d
  have hd := congrArg (Option.map Prod.fst) (h d)
  rw [Option.map_map, Option.map_map] at hd
  exact hd

theorem rateBy : reg'.rateBy = reg.rateBy := by
  funext d v
  have hd : (reg'.get d).map (fun c => childRate c v) =
      (reg.get d).map fun c => childRate c v := by
    have hrule := congrArg (Option.map fun rule => rule.2 v) (h d)
    rw [Option.map_map, Option.map_map] at hrule
    exact hrule
  rw [ClkRegistry.rateBy, ClkRegistry.rateBy, hd]

theorem targetRate (p : ClkId) (r : BitVec 64) (d : ClkId) :
    reg'.targetRate p r d = reg.targetRate p r d := by
  rw [ClkRegistry.targetRate, ClkRegistry.targetRate, h.sameLinks.ancestors, h.rateBy]

theorem reached_iff {p d : ClkId} : reg'.Reached p d ↔ reg.Reached p d := h.sameLinks.reached_iff

end SameRules

variable {reg reg' : ClkRegistry} {id p k d : ClkId} {c : ClkCore} {rank : ClkId → ℕ}
  {r v : BitVec 64}

theorem rateBy_of_get (hc : reg.get id = some c) : reg.rateBy id v = childRate c v := by
  rw [rateBy, hc]
  rfl

theorem rateOf_of_get (hc : reg.get id = some c) : reg.rateOf id = c.rate.load := by
  rw [rateOf, hc]
  rfl

theorem rateOf_storeRate (hc : reg.get id = some c) :
    (reg.storeRate id r).rateOf d = if d = id then r else reg.rateOf d := by
  rw [storeRate, rateOf, get_modify]
  split
  · rename_i hd
    rw [hd, hc]
    exact AtomicU64.load_new r
  · rfl

/-- Storing a rate that was computed in the clock's own way keeps the ways to compute rates. -/
theorem sameRules_storeRate (hc : reg.get id = some c) :
    reg.SameRules (reg.storeRate id (childRate c v)) := by
  intro d
  rw [storeRate, get_modify]
  split
  · rename_i hd
    subst hd
    rw [hc, Option.map_some, Option.map_some, Option.map_some]
    refine congrArg (fun f => some (c.parent, f)) (funext fun w => ?_)
    rw [childRate, childRate]
    dsimp only
    cases hrecalc : c.ops.recalcRate with
    | some recalc =>
        dsimp only
        rw [childRate, hrecalc]
    | none =>
        dsimp only
        rw [AtomicU64.load_new, childRate, hrecalc]
  · rfl

/-! ### The children that are collected -/

theorem isChild_of_clocks {i : Fin maxClocks} (hi : reg.clocks i = some c) :
    reg.isChild p i = decide (c.parent = p) := by
  rw [isChild, hi, Option.map_some]
  exact Option.some_beq_some

/-- The loop collects the first children, and stores the rates that they compute. -/
theorem collectChildren_spec (p : ClkId) (rate : BitVec 64) {l : List (Fin maxClocks)}
    (hl : l.Nodup) (reg : ClkRegistry) (children : List (ClkId × BitVec 64)) :
    (collectChildren p rate l reg children).2 = children ++
        (reg.takeChildren p (maxChildren - children.length) l).map
          (fun k => (k, reg.rateBy k rate)) ∧
      reg.SameRules (collectChildren p rate l reg children).1 ∧
      ∀ d, (collectChildren p rate l reg children).1.rateOf d =
        if d ∈ reg.takeChildren p (maxChildren - children.length) l then reg.rateBy d rate
        else reg.rateOf d := by
  induction l generalizing reg children with
  | nil =>
      rw [takeChildren, List.filter_nil, List.take_nil, List.map_nil, List.map_nil,
        List.append_nil]
      refine ⟨rfl, .refl reg, fun d => ?_⟩
      rw [if_neg List.not_mem_nil]
      rfl
  | cons i l ih =>
      rw [List.nodup_cons] at hl
      rw [collectChildren]
      cases hi : reg.clocks i with
      | none =>
          have hchild : reg.isChild p i = false := by
            rw [isChild, hi]
            rfl
          rw [takeChildren, List.filter_cons_of_neg (by rw [hchild]; exact Bool.false_ne_true)]
          exact ih hl.2 reg children
      | some c =>
          have hget : reg.get (clkIdOf i) = some c := by rw [get_clkIdOf, hi]
          dsimp only
          by_cases hp : c.parent = p
          · have hchild : reg.isChild p i = true := by
              rw [isChild_of_clocks hi, hp, decide_eq_true rfl]
            rw [takeChildren, List.filter_cons_of_pos hchild]
            by_cases hroom : children.length < maxChildren
            · rw [if_pos ⟨hp, hroom⟩]
              have hrules : reg.SameRules (reg.storeRate (clkIdOf i) (childRate c rate)) :=
                sameRules_storeRate hget
              obtain ⟨hlist, hsame, hrates⟩ := ih hl.2
                (reg.storeRate (clkIdOf i) (childRate c rate))
                (children ++ [(clkIdOf i, childRate c rate)])
              have hlen : maxChildren - children.length =
                  maxChildren - (children ++ [(clkIdOf i, childRate c rate)]).length + 1 := by
                rw [List.length_append, List.length_singleton]
                omega
              rw [hrules.sameLinks.takeChildren, hrules.rateBy] at hlist hrates
              rw [hlen, List.take_succ_cons, List.map_cons, List.map_cons, rateBy_of_get hget]
              refine ⟨?_, hrules.trans hsame, fun d => ?_⟩
              · rw [hlist, List.append_assoc]
                rfl
              · rw [hrates, rateOf_storeRate hget]
                by_cases hd : d = clkIdOf i
                · rw [if_pos hd, if_pos (List.mem_cons.2 (.inl hd)), hd, rateBy_of_get hget,
                    ite_self]
                · rw [if_neg hd]
                  exact if_congr (List.mem_cons.trans (or_iff_right hd)).symm rfl rfl
            · -- the buffer is full
              have hfull : maxChildren - children.length = 0 := by omega
              obtain ⟨hlist, hsame, hrates⟩ := ih hl.2 reg children
              rw [hfull, takeChildren, List.take_zero] at hlist hrates
              rw [hfull, List.take_zero]
              rw [if_neg fun h => hroom h.2]
              exact ⟨hlist, hsame, hrates⟩
          · have hchild : reg.isChild p i = false := by
              rw [isChild_of_clocks hi, decide_eq_false hp]
            rw [if_neg fun h => hp h.1, takeChildren,
              List.filter_cons_of_neg (by rw [hchild]; exact Bool.false_ne_true)]
            exact ih hl.2 reg children

/-! ### Reached clocks -/

theorem ne_noParent_of_parentOf (h : reg.parentOf k = some p) : k ≠ clkNoParent := by
  obtain ⟨c, hc, -⟩ := parentOf_eq_some.1 h
  exact ne_noParent hc

theorem mem_firstChildren (h : k ∈ reg.firstChildren p) (hp : p ≠ clkNoParent) :
    ∃ c, reg.get k = some c ∧ c.parent = p ∧ reg.parentOf k = some p := by
  rw [firstChildren, takeChildren, List.mem_map] at h
  obtain ⟨i, hi, rfl⟩ := h
  have hchild := (List.mem_filter.1 (List.mem_of_mem_take hi)).2
  rw [isChild, beq_iff_eq, Option.map_eq_some_iff] at hchild
  obtain ⟨c, hc, hpar⟩ := hchild
  have hget : reg.get (clkIdOf i) = some c := by rw [get_clkIdOf, hc]
  exact ⟨c, hget, hpar, parentOf_eq_some.2 ⟨c, hget, hpar ▸ hp, hpar⟩⟩

theorem firstChildren_nodup (reg : ClkRegistry) (p : ClkId) : (reg.firstChildren p).Nodup := by
  refine List.Nodup.map (fun _ _ h => clkIdOf_injective h) ?_
  exact ((List.nodup_finRange maxClocks).filter _).sublist (List.take_sublist _ _)

/-- What is reached lies below. -/
theorem Reached.below_of_ne (h : reg.Reached p d) (hp : p ≠ clkNoParent) :
    ∃ k, reg.parentOf k = some p ∧ Forest.Below reg.parentOf k d := by
  induction h with
  | child hd =>
      obtain ⟨c, hc, -, hpar⟩ := mem_firstChildren hd hp
      exact ⟨_, hpar, .refl⟩
  | deeper hk _ ih =>
      obtain ⟨c, hc, -, hpar⟩ := mem_firstChildren hk hp
      obtain ⟨k', hk', hbelow⟩ := ih (ne_noParent hc)
      exact ⟨_, hpar, (Forest.Below.step hk' .refl).trans hbelow⟩

theorem Reached.strictlyBelow (h : reg.Reached p d) (hp : p ≠ clkNoParent)
    (hforest : reg.Forested rank) : reg.StrictlyBelow p d := by
  obtain ⟨k, hk, hbelow⟩ := h.below_of_ne hp
  refine ⟨(Forest.Below.step hk .refl).trans hbelow, ?_⟩
  rintro rfl
  exact hforest.ranked.not_below_parent hk hbelow

/-- No clock is reached from two children of a clock, or is one and is reached from another. -/
theorem Forested.eq_of_below (h : reg.Forested rank) {k' : ClkId} (hk : reg.parentOf k = some p)
    (hk' : reg.parentOf k' = some p) (hd : Forest.Below reg.parentOf k d)
    (hd' : Forest.Below reg.parentOf k' d) : k = k' := by
  -- of two children that a clock lies below, one lies below the other, or below their parent
  have hle : ∀ a b, reg.parentOf a = some p → reg.parentOf b = some p →
      Forest.Below reg.parentOf a b → a = b := by
    intro a b ha hb hab
    by_contra hne
    obtain ⟨q, hq, haq⟩ := (Forest.below_iff_of_ne (Ne.symm hne)).1 hab
    cases hb.symm.trans hq
    exact h.ranked.not_below_parent ha haq
  rcases hd.comparable hd' with hab | hba
  · exact hle k k' hk hk' hab
  · exact (hle k' k hk' hk hba).symm

/-! ### Target rates -/

theorem ancestors_eq_cons (reg : ClkRegistry) (id : ClkId) : ∃ l, reg.ancestors id = id :: l := by
  cases h : reg.parentOf id with
  | some p => exact ⟨_, Forest.chain_of_some h⟩
  | none => exact ⟨[], Forest.chain_of_none h⟩

theorem targetRate_self (reg : ClkRegistry) (p : ClkId) (r : BitVec 64) :
    reg.targetRate p r p = r := by
  obtain ⟨l, hl⟩ := reg.ancestors_eq_cons p
  rw [targetRate, hl, List.takeWhile_cons, if_neg (by simp), List.foldr_nil]

theorem Forested.targetRate_step (h : reg.Forested rank) {q : ClkId} (hd : d ≠ p)
    (hq : reg.parentOf d = some q) :
    reg.targetRate p r d = reg.rateBy d (reg.targetRate p r q) := by
  have hanc : reg.ancestors d = d :: reg.ancestors q := by
    have hrank := h.ranked d q hq
    have hle := h.rank_le d
    have hcut : Forest.chain reg.parentOf maxClkDepth q =
        Forest.chain reg.parentOf (maxClkDepth + 1) q := h.ranked.chain_eq (by omega) (by omega)
    rw [ancestors, Forest.chain_of_some hq, ancestors, hcut]
  rw [targetRate, targetRate, hanc, List.takeWhile_cons, if_pos (bne_iff_ne.2 hd),
    List.foldr_cons]

/-- The target rates below a child. -/
theorem Forested.targetRate_child (h : reg.Forested rank) (hk : reg.parentOf k = some p)
    (hd : Forest.Below reg.parentOf k d) :
    reg.targetRate p r d = reg.targetRate k (reg.rateBy k r) d := by
  induction hd with
  | refl =>
      have hne : k ≠ p := by
        rintro rfl
        exact h.ranked.not_below_parent hk .refl
      rw [h.targetRate_step hne hk, targetRate_self, targetRate_self]
  | step hq hkq ih =>
      rename_i d q
      have hnep : d ≠ p := by
        rintro rfl
        exact h.ranked.not_below_parent hk (hkq.step hq)
      have hnek : d ≠ k := by
        rintro rfl
        exact h.ranked.not_below_parent hq hkq
      rw [h.targetRate_step hnep hq, h.targetRate_step hnek hq, ih]

/-- The target rates do not depend on the rate of the clock itself. -/
theorem targetRate_congr (hlinks : reg.SameLinks reg')
    (hrate : ∀ j, j ≠ p → reg'.rateBy j = reg.rateBy j) :
    reg'.targetRate p r d = reg.targetRate p r d := by
  rw [targetRate, targetRate, hlinks.ancestors]
  refine List.foldr_ext _ _ _ fun j hj v => ?_
  have hne := List.all_eq_true.1 List.all_takeWhile j hj
  rw [hrate j (bne_iff_ne.1 hne)]

/-! ### The rates after a propagation -/

/-- What a propagation has done to the rates. -/
structure Propagated (reg reg' : ClkRegistry) (p : ClkId) (r : BitVec 64) : Prop where
  rules : reg.SameRules reg'
  reached : ∀ d, reg.Reached p d → reg'.rateOf d = reg.targetRate p r d
  unreached : ∀ d, ¬ reg.Reached p d → reg'.rateOf d = reg.rateOf d

/-- The propagation from several children of a clock, one after the other. -/
theorem Forested.propagated_children (h : reg.Forested rank) {n : ℕ} {ks : List ClkId}
    (hks : ks.Nodup) (hchild : ∀ k ∈ ks, reg.parentOf k = some p) {val : ClkId → BitVec 64}
    (hn : ∀ (reg reg' : ClkRegistry), reg.Forested rank → ∀ k ∈ ks,
      propagateRate false n reg k (val k) = some reg' → reg.Propagated reg' k (val k))
    (hrun : (ks.map fun k => (k, val k)).foldlM
      (fun reg child => propagateRate false n reg child.1 child.2) reg = some reg') :
    reg.SameRules reg' ∧
      (∀ k ∈ ks, ∀ d, reg.Reached k d → reg'.rateOf d = reg.targetRate k (val k) d) ∧
      ∀ d, (∀ k ∈ ks, ¬ reg.Reached k d) → reg'.rateOf d = reg.rateOf d := by
  induction ks generalizing reg with
  | nil =>
      cases hrun
      exact ⟨.refl _, fun _ hk => absurd hk List.not_mem_nil, fun _ _ => rfl⟩
  | cons k ks ih =>
      rw [List.nodup_cons] at hks
      rw [List.forall_mem_cons] at hchild
      rw [List.map_cons, List.foldlM_cons] at hrun
      obtain ⟨reg₁, hfirst, hrest⟩ := Option.bind_eq_some_iff.1 hrun
      obtain ⟨hrules, hreached, hunreached⟩ := hn _ reg₁ h k List.mem_cons_self hfirst
      have hlinks := hrules.sameLinks
      obtain ⟨hrules', hreached', hunreached'⟩ := ih (h.congr hlinks) hks.2
        (fun k' hk' => hlinks.parentOf ▸ hchild.2 k' hk')
        (fun reg reg' hreg k' hk' => hn reg reg' hreg k' (List.mem_cons_of_mem _ hk')) hrest
      refine ⟨hrules.trans hrules', fun k' hk' d hd => ?_, fun d hd => ?_⟩
      · rcases List.mem_cons.1 hk' with rfl | hk'
        · -- no other child reaches the clock
          have hother : ∀ k'' ∈ ks, ¬ reg₁.Reached k'' d := by
            intro k'' hk'' hd''
            have hbelow := hd.strictlyBelow (ne_noParent_of_parentOf hchild.1) h
            have hbelow' := (hrules.reached_iff.1 hd'').strictlyBelow
              (ne_noParent_of_parentOf (hchild.2 k'' hk'')) h
            have heq := h.eq_of_below hchild.1 (hchild.2 k'' hk'') hbelow.1 hbelow'.1
            exact hks.1 (heq ▸ hk'')
          rw [hunreached' d hother, hreached d hd]
        · rw [hreached' k' hk' d (hrules.reached_iff.2 hd), hrules.targetRate]
      · rw [List.forall_mem_cons] at hd
        rw [hunreached' d fun k' hk' hd' => hd.2 k' hk' (hrules.reached_iff.1 hd'),
          hunreached d hd.1]

/-- A propagation stores the target rates at the clocks that it reaches. -/
theorem Forested.propagateRate_spec (h : reg.Forested rank) (hp : p ≠ clkNoParent) {n : ℕ}
    (hrun : propagateRate false n reg p r = some reg') : reg.Propagated reg' p r := by
  induction n generalizing reg reg' p r with
  | zero => cases hrun
  | succ n ih =>
      rw [propagateRate, if_neg Bool.false_ne_true] at hrun
      obtain ⟨hlist, hrules, hrates⟩ :=
        collectChildren_spec p r (List.nodup_finRange maxClocks) reg []
      rw [List.length_nil, Nat.sub_zero, ← firstChildren, List.nil_append] at hlist
      rw [List.length_nil, Nat.sub_zero, ← firstChildren] at hrates
      generalize collectChildren p r (List.finRange maxClocks) reg [] = start
        at hrun hlist hrules hrates
      obtain ⟨reg₁, children⟩ := start
      dsimp only at hrun hlist hrules hrates
      rw [hlist] at hrun
      have hchild : ∀ k ∈ reg.firstChildren p, reg₁.parentOf k = some p := by
        intro k hk
        obtain ⟨c, -, -, hpar⟩ := mem_firstChildren hk hp
        rw [hrules.sameLinks.parentOf, hpar]
      have hforest := h.congr hrules.sameLinks
      obtain ⟨hrules', hreached', hunreached'⟩ := hforest.propagated_children
        (reg.firstChildren_nodup p) hchild
        (fun reg reg' hreg k hk => ih hreg (ne_noParent_of_parentOf (hchild k hk))) hrun
      refine ⟨hrules.trans hrules', fun d hd => ?_, fun d hd => ?_⟩
      · cases hd with
        | child hd =>
            obtain ⟨c, hc, -, hpar⟩ := mem_firstChildren hd hp
            have hne : d ≠ p := by
              rintro rfl
              exact h.ranked.not_below_parent hpar .refl
            -- no child reaches another one
            have hother : ∀ k ∈ reg.firstChildren p, ¬ reg₁.Reached k d := by
              intro k hk hkd
              have hbelow := hkd.strictlyBelow (ne_noParent_of_parentOf (hchild k hk)) hforest
              exact hbelow.2 (hforest.eq_of_below (hchild k hk) (hchild d hd) hbelow.1 .refl).symm
            rw [hunreached' d hother, hrates, if_pos hd, h.targetRate_step hne hpar,
              targetRate_self]
        | deeper hk hd =>
            rename_i k
            obtain ⟨c, hc, -, hpar⟩ := mem_firstChildren hk hp
            have hbelow := hd.strictlyBelow (ne_noParent hc) h
            rw [hreached' k hk d (hrules.reached_iff.2 hd), hrules.targetRate,
              h.targetRate_child hpar hbelow.1]
      · rw [hunreached' d fun k hk hkd => hd (.deeper hk (hrules.reached_iff.1 hkd)), hrates,
          if_neg fun hmem => hd (.child hmem)]

end ClkRegistry

/-! ### The call -/

section Call

variable {reg reg' : ClkRegistry} {id : ClkId} {c : ClkCore} {rank : ClkId → ℕ}
  {rateHz r : BitVec 64} {n : ℕ}

open ClkRegistry

theorem clkSetRate_of_none (hc : reg.get id = none) :
    clkSetRate n reg id rateHz = some (.error .notFound, reg) := by
  rw [clkSetRate, regGet, hc]

theorem clkSetRate_of_fixed (hc : reg.get id = some c)
    (hfixed : c.flags &&& ClkFlags.fixedRate ≠ 0#32) :
    clkSetRate n reg id rateHz = some (.error .fixedRate, reg) := by
  rw [clkSetRate, regGet, hc]
  exact if_pos hfixed

/-- Without an operation the call waits for its own lock. -/
theorem clkSetRate_of_no_op (hc : reg.get id = some c)
    (hfixed : c.flags &&& ClkFlags.fixedRate = 0#32) (hop : c.ops.setRate = none) :
    clkSetRate n reg id rateHz = none := by
  rw [clkSetRate, regGet, hc]
  dsimp only
  rw [if_neg (not_not.2 hfixed), hop]
  dsimp only
  cases n with
  | zero => rfl
  | succ n => rw [propagateRate, if_pos rfl, Option.map_none]

theorem clkSetRate_of_op (hc : reg.get id = some c)
    (hfixed : c.flags &&& ClkFlags.fixedRate = 0#32)
    {setFn : BitVec 64 → BitVec 64 → BitVec 64 → Except ClkError (BitVec 64)}
    (hop : c.ops.setRate = some setFn) : clkSetRate n reg id rateHz =
      match setFn c.hw (c.roundedRate rateHz (reg.parentRate c.parent))
        (reg.parentRate c.parent) with
      | .error e => some (.error e, reg)
      | .ok result => (propagateRate false n (reg.storeRate id result) id result).map
          fun reg => (.ok result, reg) := by
  rw [clkSetRate, regGet, hc]
  dsimp only
  rw [if_neg (not_not.2 hfixed), hop]

theorem rateBy_storeRate {j : ClkId} (hj : j ≠ id) :
    (reg.storeRate id r).rateBy j = reg.rateBy j := by
  funext v
  rw [rateBy, rateBy, storeRate, get_modify_of_ne _ _ hj]

/-- The rates after the rate of a clock was stored and propagated. -/
theorem rates_of_propagated (h : reg.Forested rank) (hc : reg.get id = some c)
    (hprop : (reg.storeRate id r).Propagated reg' id r) :
    reg'.rateOf id = r ∧ (∀ d, reg.Reached id d → reg'.rateOf d = reg.targetRate id r d) ∧
      ∀ d, d ≠ id → ¬ reg.Reached id d → reg'.rateOf d = reg.rateOf d := by
  have hlinks := reg.sameLinks_storeRate id r
  refine ⟨?_, fun d hd => ?_, fun d hne hd => ?_⟩
  · have hself : ¬ (reg.storeRate id r).Reached id id := fun hd =>
      (hd.strictlyBelow (ne_noParent hc) (h.congr hlinks)).2 rfl
    rw [hprop.unreached id hself, rateOf_storeRate hc, if_pos rfl]
  · rw [hprop.reached d (hlinks.reached_iff.2 hd),
      targetRate_congr hlinks fun j hj => rateBy_storeRate hj]
  · rw [hprop.unreached d fun hd' => hd (hlinks.reached_iff.1 hd'), rateOf_storeRate hc, if_neg hne]

/-- A clock that does not recompute its rate has its stored rate as its target. -/
theorem targetRate_of_no_recalc (h : reg.Forested rank) {d : ClkId}
    (hd : reg.StrictlyBelow id d) (hrecalc : ¬ reg.HasRecalc d) :
    reg.targetRate id r d = reg.rateOf d := by
  obtain ⟨q, hq, -⟩ := (Forest.below_iff_of_ne hd.2).1 hd.1
  obtain ⟨c', hc', -⟩ := parentOf_eq_some.1 hq
  have hnone : c'.ops.recalcRate = none := by
    by_contra hne
    exact hrecalc ⟨c', hc', Option.isSome_iff_ne_none.2 hne⟩
  rw [h.targetRate_step hd.2 hq, rateBy_of_get hc', rateOf_of_get hc', childRate, hnone]

/-- The rates are as they should be exactly if every clock below has its target rate. -/
theorem ratesFollow_iff (h : reg.Forested rank) (hc : reg.get id = some c)
    (hprop : (reg.storeRate id r).Propagated reg' id r) :
    reg.RatesFollow reg' id r ↔ reg.UnreachedFollow id r := by
  obtain ⟨hself, hreached, hunreached⟩ := rates_of_propagated h hc hprop
  constructor
  · intro hfollow
    have htarget : ∀ d, Forest.Below reg.parentOf id d →
        reg'.rateOf d = reg.targetRate id r d := by
      intro d hd
      induction hd with
      | refl => rw [hself, targetRate_self]
      | step hq hbelow ih =>
          rename_i d q
          have hne : d ≠ id := by
            rintro rfl
            exact h.ranked.not_below_parent hq hbelow
          have hstrict : reg.StrictlyBelow id d := ⟨hbelow.step hq, hne⟩
          by_cases hrecalc : reg.HasRecalc d
          · obtain ⟨c', hc', hsome⟩ := hrecalc
            obtain ⟨recalc, hr⟩ := Option.isSome_iff_exists.1 hsome
            obtain ⟨c'', hc'', -, hpar⟩ := parentOf_eq_some.1 hq
            cases hc'.symm.trans hc''
            rw [hfollow.below d c' recalc hstrict hc' hr, hpar, ih, h.targetRate_step hne hq,
              rateBy_of_get hc', childRate, hr]
          · rw [hfollow.other d hne fun hall => hrecalc hall.2,
              targetRate_of_no_recalc h hstrict hrecalc]
    intro d hstrict _ hd
    rw [← hunreached d hstrict.2 hd, htarget d hstrict.1]
  · intro hfollow
    have htarget : ∀ d, Forest.Below reg.parentOf id d →
        reg'.rateOf d = reg.targetRate id r d := by
      intro d hd
      by_cases hne : d = id
      · rw [hne, hself, targetRate_self]
      by_cases hr : reg.Reached id d
      · exact hreached d hr
      rw [hunreached d hne hr]
      by_cases hrecalc : reg.HasRecalc d
      · exact hfollow d ⟨hd, hne⟩ hrecalc hr
      · rw [targetRate_of_no_recalc h ⟨hd, hne⟩ hrecalc]
    refine ⟨hself, fun d c' recalc hstrict hc' hr => ?_, fun d hne hother => ?_⟩
    · obtain ⟨q, hq, hbelow⟩ := (Forest.below_iff_of_ne hstrict.2).1 hstrict.1
      obtain ⟨c'', hc'', -, hpar⟩ := parentOf_eq_some.1 hq
      cases hc'.symm.trans hc''
      rw [htarget d hstrict.1, hpar, htarget q hbelow, h.targetRate_step hstrict.2 hq,
        rateBy_of_get hc', childRate, hr]
    · by_cases hbelow : Forest.Below reg.parentOf id d
      · rw [htarget d hbelow,
          targetRate_of_no_recalc h ⟨hbelow, hne⟩ fun hrecalc => hother ⟨⟨hbelow, hne⟩, hrecalc⟩]
      · exact hunreached d hne fun hr =>
          hbelow (hr.strictlyBelow (ne_noParent hc) h).1

end Call

/-- A call returns and the rates are as they should be exactly if the clock has an operation, and
the clocks that are not reached have the right rates already. -/
theorem clk_set_rate_iff {reg : ClkRegistry} (h : reg.IsForest) (id : ClkId)
    (rateHz : BitVec 64) : SetsRate reg id rateHz ↔ CanSetRate reg id rateHz := by
  obtain ⟨rank, h⟩ := h
  cases hc : reg.get id with
  | none =>
      refine iff_of_true ⟨⟨0, _, clkSetRate_of_none hc⟩, fun n r reg' hrun => ?_⟩ fun c hc' => ?_
      · rw [clkSetRate_of_none hc] at hrun
        cases hrun
      · rw [hc] at hc'
        cases hc'
  | some c =>
      by_cases hfixed : c.flags &&& ClkFlags.fixedRate = 0#32
      case neg =>
        refine iff_of_true ⟨⟨0, _, clkSetRate_of_fixed hc hfixed⟩, fun n r reg' hrun => ?_⟩
          fun c' hc' hfixed' => ?_
        · rw [clkSetRate_of_fixed hc hfixed] at hrun
          cases hrun
        · cases hc.symm.trans hc'
          exact absurd hfixed' hfixed
      cases hop : c.ops.setRate with
      | none =>
          refine iff_of_false (fun hsets => ?_) fun hcan => ?_
          · obtain ⟨n, res, hrun⟩ := hsets.returns
            rw [clkSetRate_of_no_op hc hfixed hop] at hrun
            cases hrun
          · obtain ⟨setFn, hop', -⟩ := hcan c hc hfixed
            rw [hop] at hop'
            cases hop'
      | some setFn =>
          have hcan : CanSetRate reg id rateHz ↔ ∀ r,
              setFn c.hw (c.roundedRate rateHz (reg.parentRate c.parent))
                (reg.parentRate c.parent) = .ok r → reg.UnreachedFollow id r := by
            refine ⟨fun hcan => ?_, fun hall c' hc' _ => ?_⟩
            · obtain ⟨setFn', hop', hall⟩ := hcan c hc hfixed
              cases hop.symm.trans hop'
              exact hall
            · cases hc.symm.trans hc'
              exact ⟨setFn, hop, hall⟩
          have hcall : ∀ n, clkSetRate n reg id rateHz = _ := fun n =>
            clkSetRate_of_op hc hfixed hop
          rw [hcan]
          cases hres : setFn c.hw (c.roundedRate rateHz (reg.parentRate c.parent))
              (reg.parentRate c.parent) with
          | error e =>
              rw [hres] at hcall
              refine iff_of_true ⟨⟨0, _, hcall 0⟩, fun n r reg' hrun => ?_⟩ fun r hr => ?_
              · rw [hcall] at hrun
                cases hrun
              · cases hr
          | ok r =>
              rw [hres] at hcall
              dsimp only at hcall
              have hforest := h.congr (reg.sameLinks_storeRate id r)
              have hne := ClkRegistry.ne_noParent hc
              constructor
              · rintro ⟨⟨n, res, hrun⟩, hrates⟩ r' hr'
                cases hr'
                rw [hcall, Option.map_eq_some_iff] at hrun
                obtain ⟨reg', hprop, -⟩ := hrun
                have hfollow := hrates n r reg' (by rw [hcall, hprop, Option.map_some])
                exact (ratesFollow_iff h hc (hforest.propagateRate_spec hne hprop)).1 hfollow
              · intro hfollow
                refine ⟨?_, fun n r' reg' hrun => ?_⟩
                · obtain ⟨reg', hprop⟩ := hforest.propagateRate_isSome (n := maxClkDepth + 1) hne r
                    (by omega)
                  exact ⟨maxClkDepth + 1, (.ok r, reg'), by rw [hcall, hprop, Option.map_some]⟩
                · rw [hcall, Option.map_eq_some_iff] at hrun
                  obtain ⟨reg'', hprop, hpair⟩ := hrun
                  cases hpair
                  exact (ratesFollow_iff h hc (hforest.propagateRate_spec hne hprop)).2
                    (hfollow r rfl)

/-- A clock with an operation, and a child of it that runs at half its rate. -/
def dividerReg : ClkRegistry :=
  .pair (.new 0#64 { ClkOps.empty with setRate := some fun _ rate _ => .ok rate } clkNoParent 0#32)
    (.new 0#64 { ClkOps.empty with recalcRate := some fun _ rate => rate >>> 1 } 0#32 0#32)

/-- The rate of the clock and that of its child are set. -/
theorem clk_set_rate_divider : SetsRate dividerReg 0#32 24000000#64 := by
  have hchild : 1#32 ∈ dividerReg.firstChildren 0#32 := by decide +kernel
  refine (clk_set_rate_iff (ClkRegistry.isForest_pair rfl rfl) 0#32 24000000#64).2 ?_
  intro c hc _
  cases hc
  refine ⟨_, rfl, fun r _ d hd _ hnot => ?_⟩
  obtain ⟨p, hp, -⟩ := (Forest.below_iff_of_ne hd.2).1 hd.1
  obtain ⟨rfl, -⟩ := ClkRegistry.parentOf_pair rfl rfl hp
  exact absurd (.child hchild) hnot

/-- `clk_set_rate` of a clock without operations never returns. -/
theorem clk_set_rate_deadlock :
    (ClkRegistry.pair (.new 0#64 .empty clkNoParent 0#32) (.new 0#64 .empty 0#32 0#32)).IsForest ∧
      (∀ n, clkSetRate n
        (.pair (.new 0#64 .empty clkNoParent 0#32) (.new 0#64 .empty 0#32 0#32)) 0#32 1000#64 =
          none) ∧
      ¬ SetsRate (.pair (.new 0#64 .empty clkNoParent 0#32) (.new 0#64 .empty 0#32 0#32))
        0#32 1000#64 := by
  have hnone : ∀ n, clkSetRate n
      (.pair (.new 0#64 .empty clkNoParent 0#32) (.new 0#64 .empty 0#32 0#32)) 0#32 1000#64 =
        none := fun n => clkSetRate_of_no_op (c := .new 0#64 .empty clkNoParent 0#32) rfl rfl rfl
  refine ⟨ClkRegistry.isForest_pair rfl rfl, hnone, fun hsets => ?_⟩
  obtain ⟨n, res, hrun⟩ := hsets.returns
  rw [hnone] at hrun
  cases hrun

end StarOS
