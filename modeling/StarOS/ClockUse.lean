/-
Preparing and enabling clocks: what a call that fails leaves behind.

Preparing a clock and enabling it walk the chain of its ancestors from the root down, and the
opposite calls walk it from the clock up.  The two pairs of calls differ in the count, the flag and
the operations that they use.  On the way down the count of a clock goes up before its operation is
tried, and a failure is passed on at once.

* `StarOS.ClkUse` — preparing, or enabling;
* `StarOS.clkPrepare`, `StarOS.clkUnprepare`, `StarOS.clkEnable`, `StarOS.clkDisable` — the calls,
  with a log of the operations that ran;
* `StarOS.ClkTrace.touch`, `StarOS.ClkTrace.get_foldl_touch` — the effect on every clock;
* `StarOS.clk_acquire_iff` — a call that fails leaves no trace exactly if no operation on the way
  down fails;
* `StarOS.clk_prepare_leaves_trace` — a call that fails at a child of a prepared root.
-/

import StarOS.Clock

set_option autoImplicit false

namespace StarOS

/-! ### The two uses of a clock -/

/-- What a clock is acquired for. -/
inductive ClkUse where
  | prepare | enable
  deriving DecidableEq, Repr

/-- An operation of a provider that ran: whether it succeeded, or that it undid one. -/
inductive ClkEvent where
  | did (u : ClkUse) (id : ClkId) (ok : Bool)
  | undid (u : ClkUse) (id : ClkId)
  deriving DecidableEq, Repr

/-- Whether `IS_CRITICAL` is set. -/
def ClkCore.critical (c : ClkCore) : Bool := c.flags &&& ClkFlags.isCritical != 0#32

namespace ClkUse

/-- `prepare_count`, or `enable_count`. -/
def count : ClkUse → ClkCore → BitVec 32
  | prepare, c => c.prepareCount
  | enable, c => c.enableCount

/-- Storing the count. -/
def setCount : ClkUse → ClkCore → BitVec 32 → ClkCore
  | prepare, c, n => { c with prepareCount := n }
  | enable, c, n => { c with enableCount := n }

/-- The flag of a clock that is in use. -/
def flag : ClkUse → BitVec 32
  | prepare => ClkFlags.prepared
  | enable => ClkFlags.enabled

/-- The operation of the first user. -/
def op : ClkUse → ClkCore → Option (BitVec 64 → Except ClkError Unit)
  | prepare, c => c.ops.prepare
  | enable, c => c.ops.enable

/-- Whether there is an operation of the last user. -/
def undo : ClkUse → ClkCore → Bool
  | prepare, c => c.ops.unprepare
  | enable, c => c.ops.disable

/-- The clocks that are passed over on the way up. -/
def skips : ClkUse → ClkCore → Bool
  | prepare, _ => false
  | enable, c => c.critical

/-- One user more. -/
def bump (u : ClkUse) (c : ClkCore) : ClkCore := u.setCount c (u.count c + 1#32)

/-- One user less. -/
def drop (u : ClkUse) (c : ClkCore) : ClkCore := u.setCount c (u.count c - 1#32)

/-- Setting the flag. -/
def mark (u : ClkUse) (c : ClkCore) : ClkCore := { c with flags := c.flags ||| u.flag }

/-- Clearing the flag. -/
def unmark (u : ClkUse) (c : ClkCore) : ClkCore := { c with flags := c.flags &&& ~~~u.flag }

@[simp] theorem count_setCount (u : ClkUse) (c : ClkCore) (n : BitVec 32) :
    u.count (u.setCount c n) = n := by
  cases u <;> rfl

@[simp] theorem count_mark (u v : ClkUse) (c : ClkCore) : u.count (v.mark c) = u.count c := by
  cases u <;> rfl

@[simp] theorem count_unmark (u v : ClkUse) (c : ClkCore) : u.count (v.unmark c) = u.count c := by
  cases u <;> rfl

theorem count_bump (u : ClkUse) (c : ClkCore) : u.count (u.bump c) = u.count c + 1#32 :=
  u.count_setCount c _

theorem count_drop (u : ClkUse) (c : ClkCore) : u.count (u.drop c) = u.count c - 1#32 :=
  u.count_setCount c _

end ClkUse

/-! ### The calls -/

/-- The registry, with the operations that have run. -/
structure ClkTrace where
  reg : ClkRegistry
  log : List ClkEvent

/-- `reg_get`. -/
def ClkRegistry.regGet (reg : ClkRegistry) (id : ClkId) : Except ClkError ClkCore :=
  match reg.get id with
  | some c => .ok c
  | none => .error .notFound

namespace ClkTrace

/-- The flag of a clock is set, after its lookup. -/
def setFlag (u : ClkUse) (s : ClkTrace) (cid : ClkId) : Except ClkError Unit × ClkTrace :=
  match s.reg.regGet cid with
  | .error e => (.error e, s)
  | .ok _ => (.ok (), { s with reg := s.reg.modify cid u.mark })

/-- The body of the loops of `clk_prepare` and `clk_enable`. -/
def acquireOne (u : ClkUse) (s : ClkTrace) (cid : ClkId) : Except ClkError Unit × ClkTrace :=
  match s.reg.regGet cid with
  | .error e => (.error e, s)
  | .ok clk =>
      let reg := s.reg.modify cid u.bump
      if u.count clk = 0#32 then
        match u.op clk with
        | some f =>
            match f clk.hw with
            | .error e => (.error e, ⟨reg, s.log ++ [.did u cid false]⟩)
            | .ok () => setFlag u ⟨reg, s.log ++ [.did u cid true]⟩ cid
        | none => setFlag u ⟨reg, s.log⟩ cid
      else (.ok (), ⟨reg, s.log⟩)

/-- The loops of `clk_prepare` and `clk_enable`. -/
def acquireAll (u : ClkUse) : List ClkId → ClkTrace → Except ClkError Unit × ClkTrace
  | [], s => (.ok (), s)
  | cid :: rest, s =>
      match acquireOne u s cid with
      | (.ok (), s') => acquireAll u rest s'
      | (.error e, s') => (.error e, s')

/-- The body of the loops of `clk_unprepare` and `clk_disable`. -/
def releaseOne (u : ClkUse) (s : ClkTrace) (cid : ClkId) : ClkTrace :=
  match s.reg.get cid with
  | none => s
  | some c =>
      if u.skips c then s
      else
        let reg := s.reg.modify cid u.drop
        if u.count c = 1#32 then
          ⟨reg.modify cid u.unmark, if u.undo c then s.log ++ [.undid u cid] else s.log⟩
        else ⟨reg, s.log⟩

/-- The ancestors of a clock, the clock first. -/
def chain (s : ClkTrace) (id : ClkId) : Option (List ClkId) :=
  s.reg.parentChain (maxClkDepth + 1) id

end ClkTrace

/-- `clk_prepare`.  There is no result if an index is out of bounds. -/
def clkPrepare (s : ClkTrace) (id : ClkId) : Option (Except ClkError Unit × ClkTrace) :=
  (s.chain id).map fun chain => ClkTrace.acquireAll .prepare chain.reverse s

/-- `clk_unprepare`. -/
def clkUnprepare (s : ClkTrace) (id : ClkId) : Option ClkTrace :=
  (s.chain id).map fun chain => chain.foldl (ClkTrace.releaseOne .prepare) s

/-- `clk_enable`. -/
def clkEnable (s : ClkTrace) (id : ClkId) : Option (Except ClkError Unit × ClkTrace) :=
  match s.reg.regGet id with
  | .error e => some (.error e, s)
  | .ok clk =>
      if clk.prepareCount = 0#32 then some (.error .notPrepared, s)
      else (s.chain id).map fun chain => ClkTrace.acquireAll .enable chain.reverse s

/-- `clk_disable`. -/
def clkDisable (s : ClkTrace) (id : ClkId) : Option ClkTrace :=
  (s.chain id).map fun chain => chain.foldl (ClkTrace.releaseOne .enable) s

/-- `clk_prepare`, or `clk_enable`. -/
def clkAcquire : ClkUse → ClkTrace → ClkId → Option (Except ClkError Unit × ClkTrace)
  | .prepare => clkPrepare
  | .enable => clkEnable

/-- `clk_unprepare`, or `clk_disable`. -/
def clkRelease : ClkUse → ClkTrace → ClkId → Option ClkTrace
  | .prepare => clkUnprepare
  | .enable => clkDisable

/-! ### What a call does to one clock -/

namespace ClkUse

/-- The operation of a clock is tried, and fails. -/
def Fails (u : ClkUse) (c : ClkCore) : Prop :=
  u.count c = 0#32 ∧ ∃ f e, u.op c = some f ∧ f c.hw = .error e

/-- A clock that has been acquired. -/
def acquire (u : ClkUse) (c : ClkCore) : ClkCore :=
  if u.count c = 0#32 then u.mark (u.bump c) else u.bump c

/-- The operations that run when a clock is acquired. -/
def acquireEvents (u : ClkUse) (cid : ClkId) (c : ClkCore) : List ClkEvent :=
  if u.count c = 0#32 ∧ (u.op c).isSome then [.did u cid true] else []

/-- A clock that has been released. -/
def release (u : ClkUse) (c : ClkCore) : ClkCore :=
  if u.skips c then c else if u.count c = 1#32 then u.unmark (u.drop c) else u.drop c

/-- The operations that run when a clock is released. -/
def releaseEvents (u : ClkUse) (cid : ClkId) (c : ClkCore) : List ClkEvent :=
  if u.skips c = false ∧ u.count c = 1#32 ∧ u.undo c then [.undid u cid] else []

end ClkUse

/-- Changing a clock twice. -/
theorem ClkRegistry.modify_modify (reg : ClkRegistry) (id : ClkId) (f g : ClkCore → ClkCore) :
    (reg.modify id f).modify id g = reg.modify id fun c => g (f c) := by
  rw [modify, modify, modify, ClkRegistry.mk.injEq]
  refine ⟨funext fun i => ?_, rfl⟩
  dsimp only
  by_cases hi : clkIdOf i = id
  · rw [if_pos hi, if_pos hi, if_pos hi, Option.map_map]
    rfl
  · rw [if_neg hi, if_neg hi, if_neg hi]

/-- Two changes that do the same to the clock that is there. -/
theorem ClkRegistry.modify_congr {reg : ClkRegistry} {id : ClkId} {c : ClkCore}
    {f g : ClkCore → ClkCore} (h : reg.get id = some c) (hfg : f c = g c) :
    reg.modify id f = reg.modify id g := by
  rw [modify, modify, ClkRegistry.mk.injEq]
  refine ⟨funext fun i => ?_, rfl⟩
  by_cases hi : clkIdOf i = id
  · rw [if_pos hi, if_pos hi, ← get_clkIdOf, hi, h, Option.map_some, Option.map_some, hfg]
  · rw [if_neg hi, if_neg hi]

/-- Changing nothing. -/
theorem ClkRegistry.modify_self (reg : ClkRegistry) (id : ClkId) :
    (reg.modify id fun c => c) = reg := by
  rw [modify]
  refine congrArg (fun clocks => ({ reg with clocks := clocks } : ClkRegistry))
    (funext fun i => ?_)
  rw [Option.map_id', ite_self]

namespace ClkTrace

/-- A clock, if it is there, is changed and operations are logged. -/
def touch (f : ClkCore → ClkCore) (ev : ClkId → ClkCore → List ClkEvent) (s : ClkTrace)
    (cid : ClkId) : ClkTrace :=
  match s.reg.get cid with
  | some c => ⟨s.reg.modify cid f, s.log ++ ev cid c⟩
  | none => s

section Touch

variable {f : ClkCore → ClkCore} {ev : ClkId → ClkCore → List ClkEvent} {s : ClkTrace}
  {j cid : ClkId} {c : ClkCore}

theorem touch_of_get (h : s.reg.get cid = some c) :
    s.touch f ev cid = ⟨s.reg.modify cid f, s.log ++ ev cid c⟩ := by
  rw [touch, h]

theorem touch_of_none (h : s.reg.get cid = none) : s.touch f ev cid = s := by
  rw [touch, h]

theorem get_touch : (s.touch f ev cid).reg.get j =
    if j = cid then (s.reg.get j).map f else s.reg.get j := by
  cases h : s.reg.get cid with
  | some c => rw [touch_of_get h, ClkRegistry.get_modify]
  | none =>
      rw [touch_of_none h]
      split
      · rename_i heq
        rw [heq, h, Option.map_none]
      · rfl

theorem get_touch_of_ne (h : j ≠ cid) : (s.touch f ev cid).reg.get j = s.reg.get j := by
  rw [get_touch, if_neg h]

theorem log_touch : (s.touch f ev cid).log = s.log ++ (s.reg.get cid).elim [] (ev cid) := by
  cases h : s.reg.get cid with
  | some c => rw [touch_of_get h, Option.elim_some]
  | none => rw [touch_of_none h, Option.elim_none, List.append_nil]

/-- A loop over clocks that differ changes every one of them once. -/
theorem get_foldl_touch {l : List ClkId} (hl : l.Nodup) :
    (l.foldl (touch f ev) s).reg.get j =
      if j ∈ l then (s.reg.get j).map f else s.reg.get j := by
  induction l generalizing s with
  | nil => rw [List.foldl_nil, if_neg List.not_mem_nil]
  | cons cid l ih =>
      rw [List.nodup_cons] at hl
      rw [List.foldl_cons, ih hl.2, get_touch]
      by_cases hj : j = cid
      · subst hj
        rw [if_neg hl.1, if_pos rfl, if_pos List.mem_cons_self]
      · rw [if_neg hj]
        exact if_congr (by rw [List.mem_cons, or_iff_right hj]) rfl rfl

/-- The log of such a loop. -/
theorem log_foldl_touch {l : List ClkId} (hl : l.Nodup) :
    (l.foldl (touch f ev) s).log =
      s.log ++ l.flatMap fun cid => (s.reg.get cid).elim [] (ev cid) := by
  induction l generalizing s with
  | nil => rw [List.foldl_nil, List.flatMap_nil, List.append_nil]
  | cons cid l ih =>
      rw [List.nodup_cons] at hl
      rw [List.foldl_cons, ih hl.2, log_touch, List.flatMap_cons, List.append_assoc]
      congr 2
      refine List.flatMap_congr fun j hj => ?_
      rw [get_touch_of_ne (ne_of_mem_of_not_mem hj hl.1)]

end Touch

/-! ### One clock -/

section One

variable {u : ClkUse} {s : ClkTrace} {cid : ClkId} {c : ClkCore}

theorem acquireOne_of_none (h : s.reg.get cid = none) :
    acquireOne u s cid = (.error .notFound, s) := by
  rw [acquireOne, ClkRegistry.regGet, h]

/-- The lookup before a flag is set finds the clock. -/
theorem setFlag_modify (h : s.reg.get cid = some c) (log : List ClkEvent) :
    setFlag u ⟨s.reg.modify cid u.bump, log⟩ cid =
      (.ok (), ⟨s.reg.modify cid fun c => u.mark (u.bump c), log⟩) := by
  rw [setFlag, ClkRegistry.regGet, ClkRegistry.get_modify_self, h, Option.map_some,
    ClkRegistry.modify_modify]

theorem acquireOne_of_fails (h : s.reg.get cid = some c) (hf : u.Fails c) :
    ∃ e, acquireOne u s cid =
      (.error e, ⟨s.reg.modify cid u.bump, s.log ++ [.did u cid false]⟩) := by
  obtain ⟨hzero, f, e, hop, he⟩ := hf
  refine ⟨e, ?_⟩
  rw [acquireOne, ClkRegistry.regGet, h]
  dsimp only
  rw [if_pos hzero, hop]
  dsimp only
  rw [he]

theorem acquireOne_of_not_fails (h : s.reg.get cid = some c) (hf : ¬ u.Fails c) :
    acquireOne u s cid = (.ok (), s.touch u.acquire u.acquireEvents cid) := by
  rw [acquireOne, ClkRegistry.regGet, touch_of_get h, h]
  dsimp only
  by_cases hzero : u.count c = 0#32
  · rw [if_pos hzero]
    have hacquire : s.reg.modify cid u.acquire = s.reg.modify cid fun c => u.mark (u.bump c) :=
      ClkRegistry.modify_congr h (if_pos hzero)
    rw [hacquire]
    cases hop : u.op c with
    | none =>
        dsimp only
        rw [setFlag_modify h, ClkUse.acquireEvents, hop, if_neg, List.append_nil]
        rintro ⟨-, hsome⟩
        cases hsome
    | some f =>
        dsimp only
        cases hrun : f c.hw with
        | error e => exact absurd ⟨hzero, f, e, hop, hrun⟩ hf
        | ok r =>
            dsimp only
            rw [setFlag_modify h, ClkUse.acquireEvents, hop, if_pos ⟨hzero, rfl⟩]
  · rw [if_neg hzero, ClkUse.acquireEvents, if_neg fun hc => hzero hc.1, List.append_nil]
    have hacquire : s.reg.modify cid u.acquire = s.reg.modify cid u.bump :=
      ClkRegistry.modify_congr h (if_neg hzero)
    rw [hacquire]

theorem releaseOne_eq : releaseOne u s cid = s.touch u.release u.releaseEvents cid := by
  cases h : s.reg.get cid with
  | none =>
      rw [touch_of_none h, releaseOne, h]
  | some c =>
      rw [touch_of_get h, releaseOne, h, ClkUse.releaseEvents]
      dsimp only
      by_cases hskip : u.skips c = true
      · have hrelease : s.reg.modify cid u.release = s.reg.modify cid fun c => c :=
          ClkRegistry.modify_congr h (if_pos hskip)
        rw [if_pos hskip, hrelease, ClkRegistry.modify_self, if_neg, List.append_nil]
        rw [hskip]
        exact fun hfalse => Bool.noConfusion hfalse.1
      rw [if_neg hskip]
      by_cases hone : u.count c = 1#32
      · have hrelease : s.reg.modify cid u.release =
            s.reg.modify cid fun c => u.unmark (u.drop c) :=
          ClkRegistry.modify_congr h (by rw [ClkUse.release, if_neg hskip, if_pos hone])
        rw [if_pos hone, hrelease, ClkRegistry.modify_modify]
        by_cases hundo : u.undo c = true
        · rw [if_pos hundo, if_pos ⟨Bool.not_eq_true _ ▸ hskip, hone, hundo⟩]
        · rw [if_neg hundo, if_neg fun h => hundo h.2.2, List.append_nil]
      · have hrelease : s.reg.modify cid u.release = s.reg.modify cid u.drop :=
          ClkRegistry.modify_congr h (by rw [ClkUse.release, if_neg hskip, if_neg hone])
        rw [if_neg hone, hrelease, if_neg fun h => hone h.2.1, List.append_nil]

end One

/-! ### The loops -/

section Loops

variable {u : ClkUse} {s : ClkTrace}

/-- If no operation fails every clock is acquired. -/
theorem acquireAll_of_not_fails {l : List ClkId} (hl : l.Nodup)
    (h : ∀ j ∈ l, ∃ c, s.reg.get j = some c ∧ ¬ u.Fails c) :
    acquireAll u l s = (.ok (), l.foldl (touch u.acquire u.acquireEvents) s) := by
  induction l generalizing s with
  | nil => rfl
  | cons cid l ih =>
      rw [List.nodup_cons] at hl
      rw [List.forall_mem_cons] at h
      obtain ⟨⟨c, hc, hfails⟩, hrest⟩ := h
      rw [acquireAll, acquireOne_of_not_fails hc hfails]
      dsimp only
      rw [List.foldl_cons]
      refine ih hl.2 fun j hj => ?_
      rw [get_touch_of_ne (ne_of_mem_of_not_mem hj hl.1)]
      exact hrest j hj

/-- If an operation fails the call fails, and a clock keeps a count that it did not have. -/
theorem acquireAll_of_fails {l : List ClkId} (hl : l.Nodup)
    (hreg : ∀ j ∈ l, ∃ c, s.reg.get j = some c)
    (hfails : ∃ j ∈ l, ∃ c, s.reg.get j = some c ∧ u.Fails c) :
    ∃ e s', acquireAll u l s = (.error e, s') ∧ ∃ j ∈ l, ∃ c c', s.reg.get j = some c ∧
      s'.reg.get j = some c' ∧ u.count c = 0#32 ∧ u.count c' = 1#32 := by
  induction l generalizing s with
  | nil =>
      obtain ⟨j, hj, -⟩ := hfails
      cases hj
  | cons cid l ih =>
      rw [List.nodup_cons] at hl
      rw [List.forall_mem_cons] at hreg
      obtain ⟨⟨c, hc⟩, hrest⟩ := hreg
      have hsame : ∀ j ∈ l, (s.touch u.acquire u.acquireEvents cid).reg.get j = s.reg.get j :=
        fun j hj => get_touch_of_ne (ne_of_mem_of_not_mem hj hl.1)
      rw [acquireAll]
      by_cases hf : u.Fails c
      · obtain ⟨e, he⟩ := acquireOne_of_fails hc hf
        refine ⟨e, _, by rw [he], cid, List.mem_cons_self, c, u.bump c, hc, ?_, hf.1, ?_⟩
        · rw [ClkRegistry.get_modify_self, hc, Option.map_some]
        · rw [ClkUse.count_bump, hf.1]
          rfl
      · rw [acquireOne_of_not_fails hc hf]
        dsimp only
        have htail : ∃ j ∈ l, ∃ c', (s.touch u.acquire u.acquireEvents cid).reg.get j = some c' ∧
            u.Fails c' := by
          obtain ⟨j, hj, c', hc', hf'⟩ := hfails
          rcases List.mem_cons.1 hj with rfl | hj
          · cases hc.symm.trans hc'
            exact absurd hf' hf
          · exact ⟨j, hj, c', (hsame j hj).trans hc', hf'⟩
        obtain ⟨e, s', hrun, j, hj, c₀, c', hc₀, hrest⟩ :=
          ih hl.2 (fun j hj => (hsame j hj).symm ▸ hrest j hj) htail
        exact ⟨e, s', hrun, j, List.mem_cons_of_mem _ hj, c₀, c',
          (hsame j hj).symm.trans hc₀, hrest⟩

theorem releaseAll_eq (l : List ClkId) :
    l.foldl (releaseOne u) s = l.foldl (touch u.release u.releaseEvents) s :=
  congrArg (fun g => l.foldl g s) (funext fun _ => funext fun _ => releaseOne_eq)

end Loops

end ClkTrace

/-! ### The calls in a forest -/

/-- A clock and its ancestors. -/
def ClkRegistry.ancestors (reg : ClkRegistry) (id : ClkId) : List ClkId :=
  Forest.chain reg.parentOf (maxClkDepth + 1) id

namespace ClkRegistry.Forested

variable {reg : ClkRegistry} {rank : ClkId → ℕ} (h : reg.Forested rank)

include h

theorem mem_ancestors {j id : ClkId} :
    j ∈ reg.ancestors id ↔ Forest.Below reg.parentOf j id :=
  h.ranked.mem_chain_iff (Nat.lt_succ_of_le (h.rank_le id))

theorem ancestors_nodup (id : ClkId) : (reg.ancestors id).Nodup := h.ranked.chain_nodup _ id

/-- The ancestors of a registered clock are registered. -/
theorem get_of_below {j id : ClkId} {c : ClkCore} (hc : reg.get id = some c)
    (hj : Forest.Below reg.parentOf j id) : ∃ c', reg.get j = some c' := by
  induction hj generalizing c with
  | refl => exact ⟨c, hc⟩
  | step hp _ ih =>
      obtain ⟨c', hc'⟩ := h.registered _ _ hp
      exact ih hc'

end ClkRegistry.Forested

/-- The chain of a registered clock. -/
theorem ClkTrace.chain_eq {s : ClkTrace} {rank : ClkId → ℕ} (h : s.reg.Forested rank) {id : ClkId}
    {c : ClkCore} (hc : s.reg.get id = some c) : s.chain id = some (s.reg.ancestors id) := by
  obtain ⟨i, rfl, -⟩ := ClkRegistry.exists_of_get hc
  refine h.parentChain_eq ?_ _
  rw [clkIdOf_toNat]
  exact i.isLt

/-- The chain of what is no clock, if there is one, has at most that as a member. -/
theorem ClkTrace.chain_of_none {s : ClkTrace} {id : ClkId} (h : s.reg.get id = none) :
    s.chain id = none ∨ s.chain id = some [] ∨ s.chain id = some [id] := by
  rw [chain, ClkRegistry.parentChain]
  split
  · exact .inr (.inl rfl)
  split
  · exact .inl rfl
  · refine .inr (.inr ?_)
    rw [h, Option.map_none, Option.getD_none]
    dsimp only
    rw [ClkRegistry.parentChain_noParent, Option.map_some]

/-- Acquiring what is no clock changes nothing. -/
theorem clkAcquire_of_none {u : ClkUse} {s s' : ClkTrace} {id : ClkId} {r : Except ClkError Unit}
    (h : s.reg.get id = none) (hrun : clkAcquire u s id = some (r, s')) : s' = s := by
  cases u with
  | prepare =>
      rw [clkAcquire, clkPrepare] at hrun
      rcases s.chain_of_none h with hchain | hchain | hchain
      · rw [hchain] at hrun
        cases hrun
      · rw [hchain] at hrun
        cases hrun
        rfl
      · rw [hchain, Option.map_some, List.reverse_singleton, ClkTrace.acquireAll,
          ClkTrace.acquireOne_of_none h] at hrun
        cases hrun
        rfl
  | enable =>
      rw [clkAcquire, clkEnable, ClkRegistry.regGet, h] at hrun
      cases hrun
      rfl

/-- Acquiring a clock walks its ancestors, unless it is enabled before it is prepared. -/
theorem clkAcquire_eq {u : ClkUse} {s : ClkTrace} {rank : ClkId → ℕ} (h : s.reg.Forested rank)
    {id : ClkId} {c : ClkCore} (hc : s.reg.get id = some c)
    (hprepared : u = .enable → c.prepareCount ≠ 0#32) :
    clkAcquire u s id = some (ClkTrace.acquireAll u (s.reg.ancestors id).reverse s) := by
  cases u with
  | prepare => rw [clkAcquire, clkPrepare, ClkTrace.chain_eq h hc, Option.map_some]
  | enable =>
      rw [clkAcquire, clkEnable, ClkRegistry.regGet, hc]
      dsimp only
      rw [if_neg (hprepared rfl), ClkTrace.chain_eq h hc, Option.map_some]

theorem clkEnable_of_unprepared {s : ClkTrace} {id : ClkId} {c : ClkCore}
    (hc : s.reg.get id = some c) (hzero : c.prepareCount = 0#32) :
    clkAcquire .enable s id = some (.error .notPrepared, s) := by
  rw [clkAcquire, clkEnable, ClkRegistry.regGet, hc]
  dsimp only
  rw [if_pos hzero]

/-! ### Calls that fail -/

/-- How much a clock is in use: its counts, and its flags. -/
def ClkCore.usage (c : ClkCore) : BitVec 32 × BitVec 32 × BitVec 32 × BitVec 32 :=
  (c.prepareCount, c.enableCount, c.flags &&& ClkFlags.prepared, c.flags &&& ClkFlags.enabled)

theorem ClkCore.count_of_usage {c c' : ClkCore} (h : c.usage = c'.usage) (u : ClkUse) :
    u.count c = u.count c' := by
  rw [usage, usage, Prod.mk.injEq, Prod.mk.injEq] at h
  cases u with
  | prepare => exact h.1
  | enable => exact h.2.1

/-- What a call has left behind: no clock is in use that was not, and every operation that
succeeded has been undone, where the provider can undo it. -/
structure NoTrace (reg : ClkRegistry) (s : ClkTrace) : Prop where
  usage : ∀ j, (s.reg.get j).map ClkCore.usage = (reg.get j).map ClkCore.usage
  undone : ∀ u j c, reg.get j = some c → u.undo c → s.log.count (.undid u j) =
    s.log.count (.did u j true)

/-- A call that fails leaves no trace. -/
def FailsCleanly (u : ClkUse) (reg : ClkRegistry) (id : ClkId) : Prop :=
  ∀ e s, clkAcquire u ⟨reg, []⟩ id = some (.error e, s) → NoTrace reg s

/-- No operation fails that the call tries: those of the ancestors that are not in use yet. -/
def OpsSucceed (u : ClkUse) (reg : ClkRegistry) (id : ClkId) : Prop :=
  ∀ j, Forest.Below reg.parentOf j id → ∀ c f, reg.get j = some c → u.count c = 0#32 →
    u.op c = some f → f c.hw = .ok ()

theorem NoTrace.refl (reg : ClkRegistry) : NoTrace reg ⟨reg, []⟩ :=
  ⟨fun _ => rfl, fun _ _ _ _ _ => rfl⟩

theorem opsSucceed_iff {u : ClkUse} {reg : ClkRegistry} {id : ClkId} : OpsSucceed u reg id ↔
    ∀ j, Forest.Below reg.parentOf j id → ∀ c, reg.get j = some c → ¬ u.Fails c := by
  refine forall_congr' fun j => forall_congr' fun _ => forall_congr' fun c => ⟨?_, ?_⟩
  · rintro h hc ⟨hzero, f, e, hop, he⟩
    rw [h f hc hzero hop] at he
    cases he
  · intro h f hc hzero hop
    cases hrun : f c.hw with
    | ok r => rfl
    | error e => exact absurd ⟨hzero, f, e, hop, hrun⟩ (h hc)

/-- A call that fails leaves no trace exactly if it is a call of `clk_enable` for a clock that is
not prepared, or no operation fails that it tries. -/
theorem clk_acquire_iff {reg : ClkRegistry} (h : reg.IsForest) (u : ClkUse) (id : ClkId) :
    FailsCleanly u reg id ↔
      (u = .enable ∧ ∃ c, reg.get id = some c ∧ c.prepareCount = 0#32) ∨ OpsSucceed u reg id := by
  obtain ⟨rank, h⟩ := h
  rw [opsSucceed_iff]
  cases hc : reg.get id with
  | none =>
      refine iff_of_true (fun e s hrun => ?_) (.inr fun j hj c hj' => ?_)
      · rw [clkAcquire_of_none hc hrun]
        exact .refl reg
      · cases hj with
        | refl =>
            rw [hc] at hj'
            cases hj'
        | step hp _ =>
            rw [ClkRegistry.parentOf_of_none hc] at hp
            cases hp
  | some c =>
      by_cases hunprepared : u = .enable ∧ c.prepareCount = 0#32
      · obtain ⟨rfl, hzero⟩ := hunprepared
        refine iff_of_true (fun e s hrun => ?_) (.inl ⟨rfl, c, rfl, hzero⟩)
        rw [clkEnable_of_unprepared hc hzero] at hrun
        cases hrun
        exact .refl reg
      have heq := clkAcquire_eq (s := ⟨reg, []⟩) h hc
        fun hu hzero => hunprepared ⟨hu, hzero⟩
      have hnodup := List.nodup_reverse.2 (h.ancestors_nodup id)
      have hmem : ∀ j, j ∈ (reg.ancestors id).reverse ↔ Forest.Below reg.parentOf j id :=
        fun j => List.mem_reverse.trans h.mem_ancestors
      have hreg : ∀ j ∈ (reg.ancestors id).reverse, ∃ c, reg.get j = some c :=
        fun j hj => h.get_of_below hc ((hmem j).1 hj)
      constructor
      · refine fun hclean => .inr fun j hj c' hc' hf => ?_
        obtain ⟨e, s', hrun, j', -, c₀, c₁, hget, hget', hzero, hone⟩ :=
          ClkTrace.acquireAll_of_fails (s := ⟨reg, []⟩) hnodup hreg ⟨j, (hmem j).2 hj, c', hc', hf⟩
        have husage := (hclean e s' (heq.trans (congrArg some hrun))).usage j'
        rw [hget, hget', Option.map_some, Option.map_some, Option.some.injEq] at husage
        have hcount := ClkCore.count_of_usage husage u
        rw [hzero, hone] at hcount
        exact absurd hcount (by decide)
      · rintro (⟨hu, c', hc', hzero⟩ | hall) e s hrun
        · cases hc'
          exact absurd ⟨hu, hzero⟩ hunprepared
        · rw [heq, ClkTrace.acquireAll_of_not_fails hnodup] at hrun
          · cases hrun
          · intro j hj
            obtain ⟨c', hc'⟩ := hreg j hj
            exact ⟨c', hc', hall j ((hmem j).1 hj) c' hc'⟩

/-! ### A child that cannot be prepared -/

/-- A registry of a root in slot 0 and a child of it in slot 1. -/
def ClkRegistry.pair (root child : ClkCore) : ClkRegistry where
  clocks := fun i => if i.val = 0 then some root else if i.val = 1 then some child else none
  count := 2

section Pair

variable {root child : ClkCore}

theorem ClkRegistry.get_pair {id : ClkId} {c : ClkCore}
    (hc : (ClkRegistry.pair root child).get id = some c) :
    (id = 0#32 ∧ c = root) ∨ (id = 1#32 ∧ c = child) := by
  obtain ⟨i, rfl, hi⟩ := ClkRegistry.exists_of_get hc
  rw [ClkRegistry.pair] at hi
  dsimp only at hi
  rw [clkIdOf]
  split at hi
  · rename_i hzero
    cases hi
    rw [hzero]
    exact .inl ⟨rfl, rfl⟩
  split at hi
  · rename_i hone
    cases hi
    rw [hone]
    exact .inr ⟨rfl, rfl⟩
  · cases hi

theorem ClkRegistry.parentOf_pair (hroot : root.parent = clkNoParent)
    (hchild : child.parent = 0#32) {id p : ClkId}
    (hp : (ClkRegistry.pair root child).parentOf id = some p) : id = 1#32 ∧ p = 0#32 := by
  obtain ⟨c, hc, hne, rfl⟩ := ClkRegistry.parentOf_eq_some.1 hp
  rcases ClkRegistry.get_pair hc with ⟨-, rfl⟩ | ⟨rfl, rfl⟩
  · exact absurd hroot hne
  · exact ⟨rfl, hchild⟩

theorem ClkRegistry.isForest_pair (hroot : root.parent = clkNoParent)
    (hchild : child.parent = 0#32) : (ClkRegistry.pair root child).IsForest := by
  refine ⟨fun id => if id = 1#32 then 1 else 0, fun id p hp => ?_, fun id => ?_, fun id p hp => ?_⟩
  · obtain ⟨rfl, rfl⟩ := ClkRegistry.parentOf_pair hroot hchild hp
    decide
  · split
    · exact Nat.le_of_ble_eq_true rfl
    · exact Nat.zero_le _
  · obtain ⟨rfl, rfl⟩ := ClkRegistry.parentOf_pair hroot hchild hp
    exact ⟨root, rfl⟩

end Pair

/-- Operations that prepare the clock, or fail to, and can undo it. -/
def ClkOps.preparing (r : Except ClkError Unit) : ClkOps where
  prepare := some fun _ => r
  unprepare := true
  enable := none
  disable := false
  setRate := none
  roundRate := none
  recalcRate := none

/-- A root that can be prepared, and a child of it that cannot. -/
def unpreparableReg : ClkRegistry :=
  .pair (.new 0#64 (.preparing (.ok ())) clkNoParent 0#32)
    (.new 0#64 (.preparing (.error .hwError)) 0#32 0#32)

/-- `clk_prepare` of the child fails; the root stays prepared. -/
theorem clk_prepare_leaves_trace : unpreparableReg.IsForest ∧
    ¬ FailsCleanly .prepare unpreparableReg 1#32 ∧
      ((clkPrepare ⟨unpreparableReg, []⟩ 1#32).map fun r => (r.1.isOk, r.2.log)) =
        some (false, [.did .prepare 0#32 true, .did .prepare 1#32 false]) := by
  have hlog : ((clkPrepare ⟨unpreparableReg, []⟩ 1#32).map fun r => (r.1.isOk, r.2.log)) =
      some (false, [.did .prepare 0#32 true, .did .prepare 1#32 false]) := by decide +kernel
  refine ⟨ClkRegistry.isForest_pair rfl rfl, fun hclean => ?_, hlog⟩
  obtain ⟨⟨r, s⟩, hrun, hrs⟩ := Option.map_eq_some_iff.1 hlog
  rw [Prod.mk.injEq] at hrs
  obtain ⟨hr, hs⟩ := hrs
  cases r with
  | ok _ => cases hr
  | error e =>
      -- the operation of the root has not been undone
      have hundone := (hclean e s hrun).undone .prepare 0#32 _ rfl rfl
      dsimp only at hs
      rw [hs] at hundone
      exact absurd hundone (by decide)

/-- `clk_prepare` of the root does not fail. -/
theorem clk_prepare_root : FailsCleanly .prepare unpreparableReg 0#32 := by
  refine (clk_acquire_iff (ClkRegistry.isForest_pair rfl rfl) .prepare 0#32).2 (.inr ?_)
  intro j hj c f hc hzero hop
  cases hj with
  | refl =>
      cases hc
      cases hop
      rfl
  | step hp _ =>
      have hone := (ClkRegistry.parentOf_pair rfl rfl hp).1
      exact absurd hone (by decide)

end StarOS
