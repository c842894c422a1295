/-
The counts of users of a clock, over whole runs.

A call of `clk_prepare` or `clk_enable` counts one user more at a clock and at each of its
ancestors, and the opposite call one less; the operations of a provider run when the first user
comes and when the last one goes.  Critical clocks are passed over on the way up, and are never
disabled, while their ancestors are.

* `StarOS.ClkRun`, `StarOS.ClkRun.next` — the runs, with the calls that are outstanding;
* `StarOS.ClkRun.Exact` — what is asked of the counts, the flags and the operations;
* `StarOS.ClkRun.Safe` — no count overflows, and no clock goes out of use below which a critical
  clock stays in use;
* `StarOS.clk_counts_iff` — the counts are exact along a run exactly if its calls are safe;
* `StarOS.clk_disable_critical` — a critical clock that outlives its parent.
-/

import StarOS.ClockUse
import StarOS.Runs
import Mathlib.Data.List.Count

set_option autoImplicit false

namespace StarOS

/-! ### Runs -/

/-- A call of `clk_prepare` or `clk_enable`, or of `clk_unprepare` or `clk_disable`. -/
inductive ClkCall where
  | acquire (u : ClkUse) (id : ClkId)
  | release (u : ClkUse) (id : ClkId)

/-- The registry and the operations that have run, with the calls that are outstanding. -/
structure ClkRun where
  trace : ClkTrace
  held : ClkUse → List ClkId

namespace ClkRun

/-- The start: nothing has run, and nothing is outstanding. -/
def start (reg : ClkRegistry) : ClkRun := ⟨⟨reg, []⟩, fun _ => []⟩

/-- The state after a call. -/
def next (s : ClkRun) : ClkCall → ClkRun
  | .acquire u id =>
      match clkAcquire u s.trace id with
      | some (.ok (), t) => ⟨t, Function.update s.held u (id :: s.held u)⟩
      | some (.error _, t) => ⟨t, s.held⟩
      | none => s
  | .release u id =>
      match clkRelease u s.trace id with
      | some t => ⟨t, Function.update s.held u ((s.held u).erase id)⟩
      | none => s

/-- What may be assumed of a call: a clock is released only if it is still held. -/
def Allowed (s : ClkRun) : ClkCall → Prop
  | .acquire _ _ => True
  | .release u id => id ∈ s.held u

end ClkRun

/-! ### The law -/

/-- Whether the flag of a clock in use is set. -/
def ClkUse.isOn (u : ClkUse) (c : ClkCore) : Bool := c.flags &&& u.flag != 0#32

/-- Nobody uses a clock. -/
def ClkCore.Unused (c : ClkCore) : Prop := ∀ u : ClkUse, u.count c = 0#32 ∧ u.isOn c = false

/-- Every operation of the providers succeeds. -/
def ClkRegistry.OpsOk (reg : ClkRegistry) : Prop :=
  ∀ id c, reg.get id = some c → ∀ (u : ClkUse) f, u.op c = some f → f c.hw = .ok ()

namespace ClkRun

/-- The outstanding calls for a clock and its descendants. -/
def users (s : ClkRun) (u : ClkUse) (id : ClkId) : ℕ :=
  (s.held u).countP fun j => decide (id ∈ s.trace.reg.ancestors j)

/-- What is asked of a clock. -/
structure ExactAt (s : ClkRun) (u : ClkUse) (id : ClkId) (c : ClkCore) : Prop where
  count : u.skips c = false → (u.count c).toInt = s.users u id
  flag : u.isOn c = true ↔ 0 < (u.count c).toInt
  ops : (u.op c).isSome → u.undo c → s.trace.log.count (.did u id true) =
    s.trace.log.count (.undid u id) + if 0 < (u.count c).toInt then 1 else 0
  parent : u.isOn c = true → ∀ p, s.trace.reg.parentOf id = some p →
    ∃ c', s.trace.reg.get p = some c' ∧ u.isOn c' = true
  critical : u.skips c = true → ClkEvent.undid u id ∉ s.trace.log

/-- What is asked of all clocks. -/
def Exact (s : ClkRun) : Prop :=
  ∀ u id c, s.trace.reg.get id = some c → s.ExactAt u id c

/-- A call that leaves the clocks as they should be. -/
def Keeps (s : ClkRun) (call : ClkCall) : Prop := (s.next call).Exact

/-- The largest count. -/
def maxCount : BitVec 32 := 0x7FFFFFFF#32

/-- A call that acquires a clock does not overflow a count.  A call that releases a clock does not
release the last user of a clock that has a critical child in use. -/
def Safe (s : ClkRun) : ClkCall → Prop
  | .acquire u id =>
      (u = .enable → ∃ c, s.trace.reg.get id = some c ∧ c.prepareCount ≠ 0#32) →
        ∀ j ∈ s.trace.reg.ancestors id, ∀ c, s.trace.reg.get j = some c → u.count c ≠ maxCount
  | .release u id =>
      ∀ p ∈ s.trace.reg.ancestors id, ∀ c, s.trace.reg.get p = some c → u.skips c = false →
        u.count c = 1#32 → ∀ k c', s.trace.reg.get k = some c' → c'.parent = p →
          u.skips c' = true → u.isOn c' = false

end ClkRun

/-! ### Flags and counts -/

namespace ClkUse

/-- The number of the flag's bit. -/
def bit : ClkUse → ℕ
  | prepare => 4
  | enable => 5

theorem isOn_eq (u : ClkUse) (c : ClkCore) : u.isOn c = c.flags.getLsbD u.bit := by
  have hflag : u.flag = BitVec.twoPow 32 u.bit := by cases u <;> rfl
  rw [isOn, hflag, BitVec.and_twoPow]
  cases c.flags.getLsbD u.bit with
  | false => rfl
  | true => cases u <;> rfl

theorem critical_eq (c : ClkCore) : c.critical = c.flags.getLsbD 3 := by
  have hflag : ClkFlags.isCritical = BitVec.twoPow 32 3 := rfl
  rw [ClkCore.critical, hflag, BitVec.and_twoPow]
  cases c.flags.getLsbD 3 <;> rfl

theorem isOn_mark (u v : ClkUse) (c : ClkCore) :
    v.isOn (u.mark c) = (v.isOn c || decide (v = u)) := by
  rw [isOn_eq, isOn_eq, mark, BitVec.getLsbD_or]
  congr 1
  cases u <;> cases v <;> rfl

theorem isOn_unmark (u v : ClkUse) (c : ClkCore) :
    v.isOn (u.unmark c) = (v.isOn c && decide (v ≠ u)) := by
  rw [isOn_eq, isOn_eq, unmark, BitVec.getLsbD_and]
  congr 1
  cases u <;> cases v <;> rfl

theorem isOn_setCount (u v : ClkUse) (c : ClkCore) (n : BitVec 32) :
    v.isOn (u.setCount c n) = v.isOn c := by
  cases u <;> rfl

theorem count_setCount_of_ne {u v : ClkUse} (h : v ≠ u) (c : ClkCore) (n : BitVec 32) :
    v.count (u.setCount c n) = v.count c := by
  cases u <;> cases v <;> first | rfl | exact absurd rfl h

end ClkUse

/-- What no call changes. -/
structure ClkCore.SameClock (c c' : ClkCore) : Prop where
  parent : c'.parent = c.parent
  hw : c'.hw = c.hw
  ops : c'.ops = c.ops
  critical : c'.critical = c.critical

namespace ClkCore.SameClock

theorem refl (c : ClkCore) : c.SameClock c := ⟨rfl, rfl, rfl, rfl⟩

theorem trans {c c' c'' : ClkCore} (h : c.SameClock c') (h' : c'.SameClock c'') :
    c.SameClock c'' :=
  ⟨h'.parent.trans h.parent, h'.hw.trans h.hw, h'.ops.trans h.ops, h'.critical.trans h.critical⟩

variable {c c' : ClkCore} (h : c.SameClock c') (u : ClkUse)

include h

theorem op : u.op c' = u.op c := by
  cases u with
  | prepare => exact congrArg ClkOps.prepare h.ops
  | enable => exact congrArg ClkOps.enable h.ops

theorem undo : u.undo c' = u.undo c := by
  cases u with
  | prepare => exact congrArg ClkOps.unprepare h.ops
  | enable => exact congrArg ClkOps.disable h.ops

theorem skips : u.skips c' = u.skips c := by
  cases u with
  | prepare => rfl
  | enable => exact h.critical

end ClkCore.SameClock

namespace ClkUse

variable (u : ClkUse) (c : ClkCore)

theorem sameClock_setCount (n : BitVec 32) : c.SameClock (u.setCount c n) := by
  cases u <;> exact ⟨rfl, rfl, rfl, rfl⟩

theorem sameClock_mark : c.SameClock (u.mark c) := by
  refine ⟨rfl, rfl, rfl, ?_⟩
  rw [critical_eq, critical_eq, mark, BitVec.getLsbD_or]
  cases u <;> exact Bool.or_false _

theorem sameClock_unmark : c.SameClock (u.unmark c) := by
  refine ⟨rfl, rfl, rfl, ?_⟩
  rw [critical_eq, critical_eq, unmark, BitVec.getLsbD_and]
  cases u <;> exact Bool.and_true _

theorem sameClock_acquire : c.SameClock (u.acquire c) := by
  rw [acquire]
  split
  · exact (u.sameClock_setCount c _).trans (u.sameClock_mark _)
  · exact u.sameClock_setCount c _

theorem sameClock_release : c.SameClock (u.release c) := by
  rw [release]
  split
  · exact .refl c
  split
  · exact (u.sameClock_setCount c _).trans (u.sameClock_unmark _)
  · exact u.sameClock_setCount c _

theorem count_acquire : u.count (u.acquire c) = u.count c + 1#32 := by
  rw [acquire]
  split
  · rw [count_mark, count_bump]
  · exact u.count_bump c

theorem isOn_acquire : u.isOn (u.acquire c) = (u.isOn c || decide (u.count c = 0#32)) := by
  rw [acquire]
  split
  · rename_i hzero
    rw [isOn_mark, bump, isOn_setCount, decide_eq_true hzero, decide_eq_true rfl]
  · rename_i hzero
    rw [bump, isOn_setCount, decide_eq_false hzero, Bool.or_false]

variable {u c}

theorem release_of_skips (h : u.skips c = true) : u.release c = c := if_pos h

theorem count_release (h : u.skips c = false) : u.count (u.release c) = u.count c - 1#32 := by
  rw [release, h, if_neg Bool.false_ne_true]
  split
  · rw [count_unmark, count_drop]
  · exact u.count_drop c

theorem isOn_release (h : u.skips c = false) :
    u.isOn (u.release c) = (u.isOn c && decide (u.count c ≠ 1#32)) := by
  rw [release, h, if_neg Bool.false_ne_true]
  split
  · rename_i hone
    rw [isOn_unmark, drop, isOn_setCount, decide_eq_false (not_not.2 rfl),
      decide_eq_false (not_not.2 hone)]
  · rename_i hone
    rw [drop, isOn_setCount, decide_eq_true hone, Bool.and_true]

/-- A call leaves the other use of a clock alone. -/
theorem other_acquire {v : ClkUse} (h : v ≠ u) (c : ClkCore) :
    v.count (u.acquire c) = v.count c ∧ v.isOn (u.acquire c) = v.isOn c := by
  rw [acquire]
  split
  · rw [count_mark, isOn_mark, bump, count_setCount_of_ne h, isOn_setCount, decide_eq_false h,
      Bool.or_false]
    exact ⟨rfl, rfl⟩
  · rw [bump, count_setCount_of_ne h, isOn_setCount]
    exact ⟨rfl, rfl⟩

theorem other_release {v : ClkUse} (h : v ≠ u) (c : ClkCore) :
    v.count (u.release c) = v.count c ∧ v.isOn (u.release c) = v.isOn c := by
  rw [release]
  split
  · exact ⟨rfl, rfl⟩
  split
  · rw [count_unmark, isOn_unmark, drop, count_setCount_of_ne h, isOn_setCount, decide_eq_true h,
      Bool.and_true]
    exact ⟨rfl, rfl⟩
  · rw [drop, count_setCount_of_ne h, isOn_setCount]
    exact ⟨rfl, rfl⟩

end ClkUse

/-! ### Counting -/

theorem toInt_add_one {x : BitVec 32} (h : x ≠ ClkRun.maxCount) :
    (x + 1#32).toInt = x.toInt + 1 := by
  have hne : x.toNat ≠ 2147483647 := fun hx => h (BitVec.eq_of_toNat_eq hx)
  have hlt := x.isLt
  rw [BitVec.toInt_eq_toNat_cond, BitVec.toInt_eq_toNat_cond, BitVec.toNat_add]
  change (if 2 * ((x.toNat + 1) % 2 ^ 32) < 2 ^ 32 then (((x.toNat + 1) % 2 ^ 32 : ℕ) : ℤ)
    else (((x.toNat + 1) % 2 ^ 32 : ℕ) : ℤ) - (2 ^ 32 : ℕ)) = _
  omega

theorem toInt_sub_one {x : BitVec 32} (h : 0 < x.toInt) : (x - 1#32).toInt = x.toInt - 1 := by
  have hlt := x.isLt
  rw [BitVec.toInt_eq_toNat_cond] at h
  rw [BitVec.toInt_eq_toNat_cond, BitVec.toInt_eq_toNat_cond, BitVec.toNat_sub]
  change (if 2 * ((2 ^ 32 - 1 + x.toNat) % 2 ^ 32) < 2 ^ 32
    then (((2 ^ 32 - 1 + x.toNat) % 2 ^ 32 : ℕ) : ℤ)
    else (((2 ^ 32 - 1 + x.toNat) % 2 ^ 32 : ℕ) : ℤ) - (2 ^ 32 : ℕ)) = _
  omega

theorem eq_zero_iff_of_nonneg {x : BitVec 32} (h : 0 ≤ x.toInt) : x = 0#32 ↔ ¬ 0 < x.toInt := by
  rw [← BitVec.toInt_inj]
  change x.toInt = 0 ↔ _
  omega

theorem eq_one_iff {x : BitVec 32} : x = 1#32 ↔ x.toInt = 1 := BitVec.toInt_inj.symm

/-- An event that can only stem from one member of a list. -/
theorem count_flatMap_of_nodup {α β : Type} [DecidableEq α] [DecidableEq β] {l : List α}
    (hl : l.Nodup) {ev : α → List β} {e : β} {a : α} (h : ∀ b, e ∈ ev b → b = a) :
    (l.flatMap ev).count e = if a ∈ l then (ev a).count e else 0 := by
  induction l with
  | nil => rw [List.flatMap_nil, List.count_nil, if_neg List.not_mem_nil]
  | cons b l ih =>
      rw [List.nodup_cons] at hl
      rw [List.flatMap_cons, List.count_append, ih hl.2]
      by_cases hb : b = a
      · subst hb
        rw [if_neg hl.1, if_pos List.mem_cons_self, Nat.add_zero]
      · have hzero : (ev b).count e = 0 := List.count_eq_zero.2 fun he => hb (h b he)
        rw [hzero, Nat.zero_add]
        exact if_congr (by rw [List.mem_cons, or_iff_right (Ne.symm hb)]) rfl rfl

/-! ### The effect of a call -/

/-- A call that changes every clock of a list once. -/
structure ClkEffect (s s' : ClkRun) (u : ClkUse) (A : List ClkId) (f : ClkCore → ClkCore)
    (ev : ClkId → ClkCore → List ClkEvent) : Prop where
  get : ∀ j, s'.trace.reg.get j =
    if j ∈ A then (s.trace.reg.get j).map f else s.trace.reg.get j
  same : ∀ c : ClkCore, c.SameClock (f c)
  log : ∀ e j, (∀ b c, e ∈ ev b c → b = j) → s'.trace.log.count e = s.trace.log.count e +
    if j ∈ A then ((s.trace.reg.get j).elim [] (ev j)).count e else 0
  held : ∀ v, v ≠ u → s'.held v = s.held v

/-- The effect of a loop over the ancestors of a clock. -/
theorem ClkEffect.of_foldl {s s' : ClkRun} {u : ClkUse} {A : List ClkId}
    {f : ClkCore → ClkCore} {ev : ClkId → ClkCore → List ClkEvent} (hA : A.Nodup)
    (hsame : ∀ c : ClkCore, c.SameClock (f c))
    (htrace : s'.trace = A.foldl (ClkTrace.touch f ev) s.trace)
    (hheld : ∀ v, v ≠ u → s'.held v = s.held v) : ClkEffect s s' u A f ev where
  get j := by rw [htrace, ClkTrace.get_foldl_touch hA]
  same := hsame
  log e j he := by
    rw [htrace, ClkTrace.log_foldl_touch hA, List.count_append, count_flatMap_of_nodup hA]
    intro b hb
    cases hc : s.trace.reg.get b with
    | none =>
        rw [hc] at hb
        exact absurd hb List.not_mem_nil
    | some c =>
        rw [hc] at hb
        exact he b c hb
  held := hheld

namespace ClkEffect

variable {s s' : ClkRun} {u v : ClkUse} {A : List ClkId} {f : ClkCore → ClkCore}
  {ev : ClkId → ClkCore → List ClkEvent} {j : ClkId} {c c' : ClkCore}
  (h : ClkEffect s s' u A f ev)

include h

theorem sameLinks : s.trace.reg.SameLinks s'.trace.reg := by
  intro j
  rw [h.get]
  split
  · rw [Option.map_map]
    exact congrArg (fun g => (s.trace.reg.get j).map g) (funext fun c => (h.same c).parent)
  · rfl

theorem parentOf : s'.trace.reg.parentOf = s.trace.reg.parentOf := h.sameLinks.parentOf

theorem ancestors (j : ClkId) : s'.trace.reg.ancestors j = s.trace.reg.ancestors j := by
  rw [ClkRegistry.ancestors, ClkRegistry.ancestors, h.parentOf]

/-- A clock afterwards is one that was there before. -/
theorem exists_of_get (hc' : s'.trace.reg.get j = some c') :
    ∃ c, s.trace.reg.get j = some c ∧ c' = if j ∈ A then f c else c := by
  rw [h.get] at hc'
  split
  · rename_i hj
    rw [if_pos hj, Option.map_eq_some_iff] at hc'
    obtain ⟨c, hc, rfl⟩ := hc'
    exact ⟨c, hc, rfl⟩
  · rename_i hj
    rw [if_neg hj] at hc'
    exact ⟨c', hc', rfl⟩

theorem get_of_mem (hc : s.trace.reg.get j = some c) (hj : j ∈ A) :
    s'.trace.reg.get j = some (f c) := by
  rw [h.get, if_pos hj, hc, Option.map_some]

theorem get_of_not_mem (hj : j ∉ A) : s'.trace.reg.get j = s.trace.reg.get j := by
  rw [h.get, if_neg hj]

theorem sameClock (hc : s.trace.reg.get j = some c) (hc' : s'.trace.reg.get j = some c') :
    c.SameClock c' := by
  obtain ⟨c₀, hc₀, rfl⟩ := h.exists_of_get hc'
  cases hc.symm.trans hc₀
  split
  · exact h.same c
  · exact .refl c

theorem users_of_ne (hv : v ≠ u) : s'.users v j = s.users v j := by
  rw [ClkRun.users, ClkRun.users, h.held v hv]
  exact congrArg (fun p => (s.held v).countP p) (funext fun i => by rw [h.ancestors])

/-- The operations of a clock that ran. -/
theorem log_of_get (hc : s.trace.reg.get j = some c) {e : ClkEvent}
    (he : ∀ b c, e ∈ ev b c → b = j) : s'.trace.log.count e =
      s.trace.log.count e + if j ∈ A then (ev j c).count e else 0 := by
  rw [h.log e j he, hc, Option.elim_some]

theorem log_of_not_mem {e : ClkEvent} (he : ∀ b c, e ∉ ev b c) :
    s'.trace.log.count e = s.trace.log.count e := by
  rw [h.log e clkNoParent fun b c hb => absurd hb (he b c)]
  split
  · cases s.trace.reg.get clkNoParent with
    | none => rfl
    | some c => rw [Option.elim_some, List.count_eq_zero.2 (he _ c), Nat.add_zero]
  · rfl

/-- A call leaves the other use of the clocks as it was. -/
theorem exactAt_other (hv : v ≠ u) (hf : ∀ c, v.count (f c) = v.count c ∧ v.isOn (f c) = v.isOn c)
    (hev : ∀ b c j ok, ClkEvent.did v j ok ∉ ev b c ∧ ClkEvent.undid v j ∉ ev b c)
    (hs : ∀ j c, s.trace.reg.get j = some c → s.ExactAt v j c)
    (hc' : s'.trace.reg.get j = some c') : s'.ExactAt v j c' := by
  have hsame : ∀ {j c c'}, s.trace.reg.get j = some c → s'.trace.reg.get j = some c' →
      v.count c' = v.count c ∧ v.isOn c' = v.isOn c := by
    intro j c c' hc hc'
    obtain ⟨c₀, hc₀, rfl⟩ := h.exists_of_get hc'
    cases hc.symm.trans hc₀
    split
    · exact hf c
    · exact ⟨rfl, rfl⟩
  obtain ⟨c, hc, -⟩ := h.exists_of_get hc'
  obtain ⟨hcount, hon⟩ := hsame hc hc'
  have hclock := h.sameClock hc hc'
  have hdid := h.log_of_not_mem fun b c => (hev b c j true).1
  have hundid := h.log_of_not_mem fun b c => (hev b c j true).2
  obtain ⟨hcnt, hflag, hops, hparent, hcrit⟩ := hs j c hc
  refine ⟨?_, ?_, ?_, ?_, ?_⟩
  · rw [hcount, h.users_of_ne hv, hclock.skips v]
    exact hcnt
  · rw [hcount, hon]
    exact hflag
  · rw [hcount, hdid, hundid, hclock.op v, hclock.undo v]
    exact hops
  · rw [hon, h.parentOf]
    intro hin p hp
    obtain ⟨cp, hcp, hpon⟩ := hparent hin p hp
    obtain ⟨cp', hcp', -⟩ := h.sameLinks.get hcp
    exact ⟨cp', hcp', (hsame hcp hcp').2.trans hpon⟩
  · rw [← List.count_eq_zero, hundid, hclock.skips v, List.count_eq_zero]
    exact hcrit

end ClkEffect

/-! ### Acquiring a clock -/

theorem ClkUse.count_acquireEvents (u : ClkUse) (j : ClkId) (c : ClkCore) :
    (u.acquireEvents j c).count (.did u j true) =
      if u.count c = 0#32 ∧ (u.op c).isSome then 1 else 0 := by
  rw [acquireEvents]
  split
  · exact List.count_singleton_self
  · rfl

theorem ClkUse.of_mem_acquireEvents {u : ClkUse} {b : ClkId} {c : ClkCore} {e : ClkEvent}
    (h : e ∈ u.acquireEvents b c) : e = .did u b true := by
  rw [acquireEvents] at h
  split at h
  · exact List.mem_singleton.1 h
  · cases h

theorem ClkUse.count_releaseEvents (u : ClkUse) (j : ClkId) (c : ClkCore) :
    (u.releaseEvents j c).count (.undid u j) =
      if u.skips c = false ∧ u.count c = 1#32 ∧ u.undo c then 1 else 0 := by
  rw [releaseEvents]
  split
  · exact List.count_singleton_self
  · rfl

theorem ClkUse.of_mem_releaseEvents {u : ClkUse} {b : ClkId} {c : ClkCore} {e : ClkEvent}
    (h : e ∈ u.releaseEvents b c) : e = .undid u b := by
  rw [releaseEvents] at h
  split at h
  · exact List.mem_singleton.1 h
  · cases h

namespace ClkRun

/-- The counts are not negative. -/
def NonNeg (s : ClkRun) (u : ClkUse) : Prop :=
  ∀ j c, s.trace.reg.get j = some c → 0 ≤ (u.count c).toInt

section Acquire

variable {s s' : ClkRun} {u : ClkUse} {A : List ClkId} {id j : ClkId} {c c' : ClkCore}

variable (h : ClkEffect s s' u A u.acquire u.acquireEvents)
  (hA : ∀ j, j ∈ A ↔ j ∈ s.trace.reg.ancestors id) (hheld : s'.held u = id :: s.held u)

include h

theorem did_acquire (hc : s.trace.reg.get j = some c) :
    s'.trace.log.count (.did u j true) = s.trace.log.count (.did u j true) +
      if j ∈ A ∧ u.count c = 0#32 ∧ (u.op c).isSome then 1 else 0 := by
  have hlog := h.log_of_get (e := .did u j true) hc fun b c hb => by
    cases ClkUse.of_mem_acquireEvents hb
    rfl
  rw [hlog, u.count_acquireEvents, ← ite_and]

theorem undid_acquire : s'.trace.log.count (.undid u j) = s.trace.log.count (.undid u j) :=
  h.log_of_not_mem fun b c hb => by cases ClkUse.of_mem_acquireEvents hb

include hA hheld

theorem users_acquire : s'.users u j = s.users u j + if j ∈ A then 1 else 0 := by
  have hmem : (if decide (j ∈ s.trace.reg.ancestors id) = true then 1 else 0) =
      if j ∈ A then 1 else 0 := if_congr (decide_eq_true_iff.trans (hA j).symm) rfl rfl
  rw [users, hheld, List.countP_cons, h.ancestors, hmem, users]
  congr 2
  exact funext fun i => by rw [h.ancestors]

/-- Acquiring a clock keeps the counts exact, if none overflows. -/
theorem exactAt_acquire {rank : ClkId → ℕ} (hforest : s.trace.reg.Forested rank)
    (hs : ∀ j c, s.trace.reg.get j = some c → s.ExactAt u j c) (hnn : s.NonNeg u)
    (hsafe : ∀ j ∈ A, ∀ c, s.trace.reg.get j = some c → u.count c ≠ maxCount)
    (hc' : s'.trace.reg.get j = some c') : s'.ExactAt u j c' := by
  -- the members of the chain are in use afterwards
  have hon : ∀ j ∈ A, ∀ c, s.trace.reg.get j = some c → u.isOn (u.acquire c) = true := by
    intro j hj c hc
    rw [u.isOn_acquire]
    by_cases hzero : u.count c = 0#32
    · rw [decide_eq_true hzero, Bool.or_true]
    · have hpos : 0 < (u.count c).toInt := by
        by_contra hle
        exact hzero ((eq_zero_iff_of_nonneg (hnn j c hc)).2 hle)
      rw [(hs j c hc).flag.2 hpos, Bool.true_or]
  have hparentOn : ∀ p cp, s.trace.reg.get p = some cp → p ∈ A ∨ u.isOn cp = true →
      ∃ cp', s'.trace.reg.get p = some cp' ∧ u.isOn cp' = true := by
    intro p cp hcp hcase
    by_cases hp : p ∈ A
    · exact ⟨_, h.get_of_mem hcp hp, hon p hp cp hcp⟩
    · exact ⟨cp, (h.get_of_not_mem hp).trans hcp, hcase.resolve_left hp⟩
  obtain ⟨c, hc, rfl⟩ := h.exists_of_get hc'
  obtain ⟨hcnt, hflag, hops, hparent, hcrit⟩ := hs j c hc
  have hnonneg := hnn j c hc
  have husers : s'.users u j = s.users u j + if j ∈ A then 1 else 0 := users_acquire h hA hheld
  have hdid := did_acquire h hc
  have hundid : s'.trace.log.count (.undid u j) = s.trace.log.count (.undid u j) :=
    undid_acquire h
  by_cases hj : j ∈ A
  · have hcount : (u.count (u.acquire c)).toInt = (u.count c).toInt + 1 := by
      rw [u.count_acquire, toInt_add_one (hsafe j hj c hc)]
    have hzero := eq_zero_iff_of_nonneg hnonneg
    rw [if_pos hj] at husers ⊢
    refine ⟨?_, ?_, ?_, ?_, ?_⟩
    · rw [(u.sameClock_acquire c).skips u, hcount, husers]
      intro hskip
      rw [hcnt hskip]
      rfl
    · exact iff_of_true (hon j hj c hc) (by omega)
    · rw [(u.sameClock_acquire c).op u, (u.sameClock_acquire c).undo u, hcount, hdid, hundid]
      intro hop hundo
      have hold := hops hop hundo
      rw [if_pos (by omega : 0 < (u.count c).toInt + 1)]
      by_cases hpos : 0 < (u.count c).toInt
      · rw [if_pos hpos] at hold
        rw [if_neg fun hall => hzero.1 hall.2.1 hpos, hold]
      · rw [if_neg hpos] at hold
        rw [if_pos ⟨hj, hzero.2 hpos, hop⟩, hold]
    · intro _ p hp
      rw [h.parentOf] at hp
      obtain ⟨cp, hcp⟩ := hforest.registered j p hp
      have hmem : p ∈ A := by
        rw [hA, hforest.mem_ancestors] at hj ⊢
        exact (Forest.Below.step hp .refl).trans hj
      exact hparentOn p cp hcp (.inl hmem)
    · rw [(u.sameClock_acquire c).skips u, ← List.count_eq_zero, hundid, List.count_eq_zero]
      exact hcrit
  · rw [if_neg hj, Nat.add_zero] at husers
    rw [if_neg fun hall => hj hall.1, Nat.add_zero] at hdid
    rw [if_neg hj]
    refine ⟨?_, hflag, ?_, ?_, ?_⟩
    · rw [husers]
      exact hcnt
    · rw [hdid, hundid]
      exact hops
    · intro hin p hp
      rw [h.parentOf] at hp
      obtain ⟨cp, hcp, hpon⟩ := hparent hin p hp
      exact hparentOn p cp hcp (.inr hpon)
    · rw [← List.count_eq_zero, hundid, List.count_eq_zero]
      exact hcrit

omit hA hheld in
theorem nonNeg_acquire (hnn : s.NonNeg u)
    (hsafe : ∀ j ∈ A, ∀ c, s.trace.reg.get j = some c → u.count c ≠ maxCount) : s'.NonNeg u := by
  intro j c' hc'
  obtain ⟨c, hc, rfl⟩ := h.exists_of_get hc'
  have hnonneg := hnn j c hc
  split
  · rename_i hj
    rw [u.count_acquire, toInt_add_one (hsafe j hj c hc)]
    omega
  · exact hnonneg

omit hA hheld in
/-- A count that overflows is negative while the flag is set. -/
theorem not_exact_acquire (hs : ∀ j c, s.trace.reg.get j = some c → s.ExactAt u j c) (hj : j ∈ A)
    (hc : s.trace.reg.get j = some c) (hmax : u.count c = maxCount) : ¬ s'.Exact := by
  intro hexact
  have hon : u.isOn (u.acquire c) = true := by
    have hpos : 0 < (u.count c).toInt := by
      rw [hmax]
      decide
    rw [u.isOn_acquire, (hs j c hc).flag.2 hpos, Bool.true_or]
  have hpos := (hexact u j _ (h.get_of_mem hc hj)).flag.1 hon
  rw [u.count_acquire, hmax] at hpos
  exact absurd hpos (by decide)

end Acquire

/-! ### Releasing a clock -/

/-- A descendant's users are users of the clock. -/
theorem users_le {s : ClkRun} {rank : ClkId → ℕ} (h : s.trace.reg.Forested rank) {u : ClkUse}
    {j p : ClkId} (hp : s.trace.reg.parentOf j = some p) : s.users u j ≤ s.users u p := by
  refine List.countP_mono_left fun i _ hi => ?_
  rw [decide_eq_true_iff, h.mem_ancestors] at hi ⊢
  exact (Forest.Below.step hp .refl).trans hi

section Release

variable {s s' : ClkRun} {u : ClkUse} {A : List ClkId} {id j p k : ClkId} {c c' : ClkCore}

variable (h : ClkEffect s s' u A u.release u.releaseEvents)
  (hA : ∀ j, j ∈ A ↔ j ∈ s.trace.reg.ancestors id) (hid : id ∈ s.held u)
  (hheld : s'.held u = (s.held u).erase id)

include h

theorem did_release : s'.trace.log.count (.did u j true) = s.trace.log.count (.did u j true) :=
  h.log_of_not_mem fun b c hb => by cases ClkUse.of_mem_releaseEvents hb

theorem undid_release (hc : s.trace.reg.get j = some c) :
    s'.trace.log.count (.undid u j) = s.trace.log.count (.undid u j) +
      if j ∈ A ∧ u.skips c = false ∧ u.count c = 1#32 ∧ u.undo c then 1 else 0 := by
  have hlog := h.log_of_get (e := .undid u j) hc fun b c hb => by
    cases ClkUse.of_mem_releaseEvents hb
    rfl
  rw [hlog, u.count_releaseEvents, ← ite_and]

include hA hid hheld

theorem users_release : s.users u j = s'.users u j + if j ∈ A then 1 else 0 := by
  have hmem : (if decide (j ∈ s.trace.reg.ancestors id) = true then 1 else 0) =
      if j ∈ A then 1 else 0 := if_congr (decide_eq_true_iff.trans (hA j).symm) rfl rfl
  rw [users, (List.perm_cons_erase hid).countP_eq, List.countP_cons, hmem, users, hheld]
  congr 2
  exact funext fun i => by rw [h.ancestors]

/-- If the only use of the parent of a clock is released, so is the only use of the clock, as every
user of the clock is one of the parent. -/
theorem isOn_release_last {rank : ClkId → ℕ} (hforest : s.trace.reg.Forested rank)
    (hs : ∀ j c, s.trace.reg.get j = some c → s.ExactAt u j c) {cp : ClkCore}
    (hc : s.trace.reg.get j = some c) (hc' : s'.trace.reg.get j = some c')
    (hp : s.trace.reg.parentOf j = some p) (hcp : s.trace.reg.get p = some cp) (hpA : p ∈ A)
    (hskip : u.skips cp = false) (hone : u.count cp = 1#32) (hkeeps : u.skips c = false)
    (hon : u.isOn c = true) : u.isOn c' = false := by
  have hle : s'.users u j ≤ s'.users u p := users_le (hforest.congr h.sameLinks) (h.parentOf ▸ hp)
  have hcnt := (hs p cp hcp).count hskip
  have hup : s.users u p = s'.users u p + if p ∈ A then 1 else 0 := users_release h hA hid hheld
  have huj : s.users u j = s'.users u j + if j ∈ A then 1 else 0 := users_release h hA hid hheld
  rw [eq_one_iff.1 hone] at hcnt
  rw [if_pos hpA] at hup
  have hcj := (hs j c hc).count hkeeps
  have hpos := (hs j c hc).flag.1 hon
  by_cases hjA : j ∈ A
  · rw [if_pos hjA] at huj
    have hone' : u.count c = 1#32 := by
      rw [eq_one_iff]
      omega
    cases hc'.symm.trans (h.get_of_mem hc hjA)
    rw [ClkUse.isOn_release hkeeps, hone', decide_eq_false (not_not.2 rfl), Bool.and_false]
  · rw [if_neg hjA] at huj
    omega

/-- The parent of a clock that stays in use stays in use. -/
theorem parentOn_release {rank : ClkId → ℕ} (hforest : s.trace.reg.Forested rank)
    (hs : ∀ j c, s.trace.reg.get j = some c → s.ExactAt u j c) (hsafe : s.Safe (.release u id))
    (hc : s.trace.reg.get j = some c) (hc' : s'.trace.reg.get j = some c')
    (hon : u.isOn c = true) (hon' : u.isOn c' = true) (hp : s.trace.reg.parentOf j = some p) :
    ∃ cp', s'.trace.reg.get p = some cp' ∧ u.isOn cp' = true := by
  obtain ⟨cp, hcp, hpon⟩ := (hs j c hc).parent hon p hp
  by_cases hpA : p ∈ A
  · refine ⟨_, h.get_of_mem hcp hpA, ?_⟩
    cases hskip : u.skips cp with
    | true => rw [ClkUse.release_of_skips hskip, hpon]
    | false =>
        rw [ClkUse.isOn_release hskip, hpon, Bool.true_and, decide_eq_true_iff]
        intro hone
        have hp' : ∃ c₀, s.trace.reg.get j = some c₀ ∧ c₀.parent ≠ clkNoParent ∧
            c₀.parent = p := ClkRegistry.parentOf_eq_some.1 hp
        obtain ⟨c₀, hc₀, -, hpar⟩ := hp'
        cases hc.symm.trans hc₀
        have hkeeps : u.skips c = false := by
          by_contra hne
          have hoff := hsafe p ((hA p).1 hpA) cp hcp hskip hone j c hc hpar
            (eq_true_of_ne_false hne)
          rw [hoff] at hon
          cases hon
        have hoff := isOn_release_last h hA hid hheld hforest hs hc hc' hp hcp hpA hskip hone hkeeps
          hon
        rw [hoff] at hon'
        cases hon'
  · exact ⟨cp, (h.get_of_not_mem hpA).trans hcp, hpon⟩

/-- Releasing a clock keeps the counts exact, if no clock goes out of use that has a critical child
in use. -/
theorem exactAt_release {rank : ClkId → ℕ} (hforest : s.trace.reg.Forested rank)
    (hs : ∀ j c, s.trace.reg.get j = some c → s.ExactAt u j c)
    (hsafe : s.Safe (.release u id)) (hc' : s'.trace.reg.get j = some c') :
    s'.ExactAt u j c' := by
  obtain ⟨c, hc, hcase⟩ := h.exists_of_get hc'
  obtain ⟨hcnt, hflag, hops, hparent, hcrit⟩ := hs j c hc
  have huj : s.users u j = s'.users u j + if j ∈ A then 1 else 0 := users_release h hA hid hheld
  have hparentOn : u.isOn c = true → u.isOn c' = true → ∀ p, s.trace.reg.parentOf j = some p →
      ∃ cp', s'.trace.reg.get p = some cp' ∧ u.isOn cp' = true :=
    fun hon hon' p hp => parentOn_release h hA hid hheld hforest hs hsafe hc hc' hon hon' hp
  have hdid : s'.trace.log.count (.did u j true) = s.trace.log.count (.did u j true) :=
    did_release h
  have hundid := undid_release h hc
  have hclock := h.sameClock hc hc'
  by_cases hj : j ∈ A ∧ u.skips c = false
  · obtain ⟨hj, hskip⟩ := hj
    rw [if_pos hj] at hcase huj
    have hpos : 0 < (u.count c).toInt := by
      rw [hcnt hskip]
      omega
    have hon := hflag.2 hpos
    have hcount : (u.count c').toInt = (u.count c).toInt - 1 := by
      rw [hcase, ClkUse.count_release hskip, toInt_sub_one hpos]
    have hon' : u.isOn c' = decide (u.count c ≠ 1#32) := by
      rw [hcase, ClkUse.isOn_release hskip, hon, Bool.true_and]
    have hone : u.count c = 1#32 ↔ (u.count c).toInt = 1 := eq_one_iff
    refine ⟨?_, ?_, ?_, ?_, ?_⟩
    · intro _
      rw [hcount, hcnt hskip]
      omega
    · rw [hon', hcount, decide_eq_true_iff]
      refine (not_congr hone).trans ?_
      omega
    · rw [hclock.op u, hclock.undo u, hcount, hdid, hundid]
      intro hop hundo
      have hold := hops hop hundo
      rw [if_pos hpos] at hold
      by_cases hlast : (u.count c).toInt = 1
      · rw [if_pos ⟨hj, hskip, hone.2 hlast, hundo⟩, if_neg (by omega), hold]
      · rw [if_neg fun hall => hlast (hone.1 hall.2.2.1), if_pos (by omega), hold]
    · intro hin p hp
      exact hparentOn hon hin p (h.parentOf ▸ hp)
    · rw [hclock.skips u, hskip]
      exact fun hfalse => Bool.noConfusion hfalse
  · have hsame : c' = c := by
      rw [hcase]
      split
      · rename_i hjA
        exact ClkUse.release_of_skips (eq_true_of_ne_false fun hskip => hj ⟨hjA, hskip⟩)
      · rfl
    rw [if_neg fun hall => hj ⟨hall.1, hall.2.1⟩, Nat.add_zero] at hundid
    subst hsame
    refine ⟨?_, hflag, ?_, ?_, ?_⟩
    · intro hskip
      rw [if_neg fun hjA => hj ⟨hjA, hskip⟩, Nat.add_zero] at huj
      rw [← huj]
      exact hcnt hskip
    · rw [hdid, hundid]
      exact hops
    · intro hin p hp
      exact hparentOn hin hin p (h.parentOf ▸ hp)
    · rw [← List.count_eq_zero, hundid, List.count_eq_zero]
      exact hcrit

theorem nonNeg_release (hs : ∀ j c, s.trace.reg.get j = some c → s.ExactAt u j c)
    (hnn : s.NonNeg u) : s'.NonNeg u := by
  intro j c' hc'
  obtain ⟨c, hc, rfl⟩ := h.exists_of_get hc'
  have hnonneg := hnn j c hc
  split
  · rename_i hj
    cases hskip : u.skips c with
    | true => rwa [ClkUse.release_of_skips hskip]
    | false =>
        have husers : s.users u j = s'.users u j + if j ∈ A then 1 else 0 :=
          users_release h hA hid hheld
        have hcnt := (hs j c hc).count hskip
        rw [if_pos hj] at husers
        have hpos : 0 < (u.count c).toInt := by omega
        rw [ClkUse.count_release hskip, toInt_sub_one hpos]
        omega
  · exact hnonneg

omit hA hid hheld in
/-- A critical clock is left in use without its parent. -/
theorem not_exact_release (hpA : p ∈ A) (hcp : s.trace.reg.get p = some c)
    (hskip : u.skips c = false) (hone : u.count c = 1#32) (hk : s.trace.reg.get k = some c')
    (hpar : c'.parent = p) (hcrit : u.skips c' = true) (hon : u.isOn c' = true) : ¬ s'.Exact := by
  intro hexact
  have hk' : s'.trace.reg.get k = some c' := by
    by_cases hkA : k ∈ A
    · rw [h.get_of_mem hk hkA, ClkUse.release_of_skips hcrit]
    · rw [h.get_of_not_mem hkA, hk]
  have hp : s'.trace.reg.parentOf k = some p :=
    ClkRegistry.parentOf_eq_some.2 ⟨c', hk', hpar ▸ ClkRegistry.ne_noParent hcp, hpar⟩
  obtain ⟨cp, hcp', hpon⟩ := (hexact u k c' hk').parent hon p hp
  rw [h.get_of_mem hcp hpA, Option.some.injEq] at hcp'
  rw [← hcp', ClkUse.isOn_release hskip, hone, decide_eq_false (not_not.2 rfl),
    Bool.and_false] at hpon
  cases hpon

end Release

end ClkRun

/-! ### The calls -/

section Calls

variable {reg : ClkRegistry} {log : List ClkEvent} {u : ClkUse} {id : ClkId} {c : ClkCore}

theorem not_fails_of_opsOk (hok : reg.OpsOk) {j : ClkId} (hc : reg.get j = some c) :
    ¬ u.Fails c := by
  rintro ⟨-, f, e, hop, he⟩
  rw [hok j c hc u f hop] at he
  cases he

/-- If the operations succeed every ancestor is acquired. -/
theorem clkAcquire_of_opsOk {s : ClkTrace} {rank : ClkId → ℕ} (h : s.reg.Forested rank)
    (hok : s.reg.OpsOk) (hc : s.reg.get id = some c)
    (hprepared : u = .enable → c.prepareCount ≠ 0#32) :
    clkAcquire u s id = some (.ok (),
      (s.reg.ancestors id).reverse.foldl (ClkTrace.touch u.acquire u.acquireEvents) s) := by
  rw [clkAcquire_eq h hc hprepared, ClkTrace.acquireAll_of_not_fails]
  · exact List.nodup_reverse.2 (h.ancestors_nodup id)
  · intro j hj
    obtain ⟨c', hc'⟩ := h.get_of_below hc (h.mem_ancestors.1 (List.mem_reverse.1 hj))
    exact ⟨c', hc', not_fails_of_opsOk hok hc'⟩

theorem clkRelease_eq {s : ClkTrace} {rank : ClkId → ℕ} (h : s.reg.Forested rank)
    (hc : s.reg.get id = some c) : clkRelease u s id = some
      ((s.reg.ancestors id).foldl (ClkTrace.touch u.release u.releaseEvents) s) := by
  cases u with
  | prepare =>
      rw [clkRelease, clkUnprepare, ClkTrace.chain_eq h hc, Option.map_some,
        ClkTrace.releaseAll_eq]
  | enable =>
      rw [clkRelease, clkDisable, ClkTrace.chain_eq h hc, Option.map_some,
        ClkTrace.releaseAll_eq]

/-- Releasing what is no clock leaves the registry and the log alone. -/
theorem clkRelease_trace {s t : ClkTrace} (h : s.reg.get id = none)
    (hrun : clkRelease u s id = some t) : t = s := by
  have hone : ∀ v, ClkTrace.releaseOne v s id = s := fun v => by rw [ClkTrace.releaseOne, h]
  cases u with
  | prepare =>
      rw [clkRelease, clkUnprepare] at hrun
      rcases s.chain_of_none h with hchain | hchain | hchain <;> rw [hchain] at hrun <;> cases hrun
      · rfl
      · exact hone _
  | enable =>
      rw [clkRelease, clkDisable] at hrun
      rcases s.chain_of_none h with hchain | hchain | hchain <;> rw [hchain] at hrun <;> cases hrun
      · rfl
      · exact hone _

end Calls

/-! ### The invariant -/

namespace ClkRun

/-- The clocks form a forest whose operations succeed, and the counts are exact. -/
structure Inv (rank : ClkId → ℕ) (s : ClkRun) : Prop where
  forested : s.trace.reg.Forested rank
  opsOk : s.trace.reg.OpsOk
  exact : s.Exact
  nonNeg : ∀ u, s.NonNeg u

variable {s s' : ClkRun} {u : ClkUse} {id : ClkId} {rank : ClkId → ℕ}

/-- What is no clock has no ancestor but itself. -/
theorem ancestors_of_none {reg : ClkRegistry} (h : reg.get id = none) : reg.ancestors id = [id] :=
  Forest.chain_of_none (ClkRegistry.parentOf_of_none h)

/-- Outstanding calls for what is no clock do not count. -/
theorem countP_of_none {reg : ClkRegistry} (h : reg.get id = none) {j : ClkId} {c : ClkCore}
    (hc : reg.get j = some c) : decide (j ∈ reg.ancestors id) = false := by
  rw [ancestors_of_none h, decide_eq_false_iff_not, List.mem_singleton]
  rintro rfl
  rw [h] at hc
  cases hc

/-- A call that changes nothing but outstanding calls for what is no clock. -/
theorem Inv.of_same (h : s.Inv rank) (htrace : s'.trace = s.trace)
    (husers : ∀ u j c, s.trace.reg.get j = some c → s'.users u j = s.users u j) :
    s'.Inv rank := by
  refine ⟨htrace ▸ h.forested, htrace ▸ h.opsOk, fun u j c hc => ?_, fun u => ?_⟩
  · rw [htrace] at hc
    obtain ⟨hcnt, hflag, hops, hparent, hcrit⟩ := h.exact u j c hc
    refine ⟨?_, hflag, ?_, ?_, ?_⟩
    · rw [husers u j c hc]
      exact hcnt
    · rw [htrace]
      exact hops
    · rw [htrace]
      exact hparent
    · rw [htrace]
      exact hcrit
  · intro j c hc
    rw [htrace] at hc
    exact h.nonNeg u j c hc

theorem users_congr (htrace : s'.trace = s.trace) {v : ClkUse} (hv : s'.held v = s.held v)
    (j : ClkId) : s'.users v j = s.users v j := by
  rw [users, users, htrace, hv]

/-- A call for what is no clock. -/
theorem Inv.of_none (h : s.Inv rank) (hnone : s.trace.reg.get id = none)
    (htrace : s'.trace = s.trace) (hheld : ∀ v, v ≠ u → s'.held v = s.held v)
    (hcase : s'.held u = s.held u ∨ s'.held u = id :: s.held u ∨
      s'.held u = (s.held u).erase id) : s'.Inv rank := by
  refine h.of_same htrace fun v j c hc => ?_
  by_cases hv : v = u
  · subst hv
    have hj := countP_of_none hnone hc
    rcases hcase with hsame | hcons | herase
    · exact users_congr htrace hsame j
    · rw [users, users, htrace, hcons, List.countP_cons, hj, if_neg Bool.false_ne_true,
        Nat.add_zero]
    · rw [users, users, htrace, herase]
      by_cases hmem : id ∈ s.held v
      · rw [(List.perm_cons_erase hmem).countP_eq, List.countP_cons, hj,
          if_neg Bool.false_ne_true, Nat.add_zero]
      · rw [List.erase_of_not_mem hmem]
  · exact users_congr htrace (hheld v hv) j

theorem OpsOk.congr {A : List ClkId} {f : ClkCore → ClkCore}
    {ev : ClkId → ClkCore → List ClkEvent} (h : ClkEffect s s' u A f ev)
    (hok : s.trace.reg.OpsOk) : s'.trace.reg.OpsOk := by
  intro j c' hc' v g hg
  obtain ⟨c, hc, -⟩ := h.exists_of_get hc'
  have hclock := h.sameClock hc hc'
  rw [hclock.op v] at hg
  rw [hclock.hw]
  exact hok j c hc v g hg

/-- The other use of the clocks is as it was. -/
theorem Inv.other {A : List ClkId} {f : ClkCore → ClkCore}
    {ev : ClkId → ClkCore → List ClkEvent} (h : ClkEffect s s' u A f ev) (hs : s.Inv rank)
    (hf : ∀ v, v ≠ u → ∀ c, v.count (f c) = v.count c ∧ v.isOn (f c) = v.isOn c)
    (hev : ∀ v, v ≠ u → ∀ b c j ok,
      ClkEvent.did v j ok ∉ ev b c ∧ ClkEvent.undid v j ∉ ev b c)
    (hexact : ∀ j c', s'.trace.reg.get j = some c' → s'.ExactAt u j c') (hnn : s'.NonNeg u) :
    s'.Inv rank := by
  refine ⟨hs.forested.congr h.sameLinks, OpsOk.congr h hs.opsOk, fun v j c' hc' => ?_,
    fun v j c' hc' => ?_⟩
  · by_cases hv : v = u
    · subst hv
      exact hexact j c' hc'
    · exact h.exactAt_other hv (hf v hv) (hev v hv) (hs.exact v) hc'
  · by_cases hv : v = u
    · subst hv
      exact hnn j c' hc'
    · obtain ⟨c, hc, rfl⟩ := h.exists_of_get hc'
      split
      · rw [(hf v hv c).1]
        exact hs.nonNeg v j c hc
      · exact hs.nonNeg v j c hc

/-! ### One call -/

/-- A call for what is no clock keeps the invariant. -/
theorem Inv.next_of_none (h : s.Inv rank) (hnone : s.trace.reg.get id = none) (u : ClkUse) :
    (s.next (.acquire u id)).Inv rank ∧ (s.next (.release u id)).Inv rank := by
  constructor
  · rw [next]
    rcases hrun : clkAcquire u s.trace id with _ | ⟨⟨e⟩ | ⟨⟨⟩⟩, t⟩
    · exact h
    · cases clkAcquire_of_none hnone hrun
      exact h
    · cases clkAcquire_of_none hnone hrun
      exact h.of_none hnone rfl (fun v hv => Function.update_of_ne hv _ _)
        (.inr (.inl (Function.update_self _ _ _)))
  · rw [next]
    rcases hrun : clkRelease u s.trace id with _ | t
    · exact h
    · cases clkRelease_trace hnone hrun
      exact h.of_none hnone rfl (fun v hv => Function.update_of_ne hv _ _)
        (.inr (.inr (Function.update_self _ _ _)))

/-- Nothing is asked of a call for what is no clock. -/
theorem safe_of_none (hnone : s.trace.reg.get id = none) (u : ClkUse) :
    s.Safe (.acquire u id) ∧ s.Safe (.release u id) := by
  have hall : ∀ j ∈ s.trace.reg.ancestors id, s.trace.reg.get j = none := by
    intro j hj
    rw [ancestors_of_none hnone, List.mem_singleton] at hj
    rw [hj, hnone]
  constructor
  · intro _ j hj c hc
    rw [hall j hj] at hc
    cases hc
  · intro p hp c hc
    rw [hall p hp] at hc
    cases hc

theorem acquire_step (h : s.Inv rank) (u : ClkUse) (id : ClkId) :
    (s.Keeps (.acquire u id) ↔ s.Safe (.acquire u id)) ∧
      (s.Safe (.acquire u id) → (s.next (.acquire u id)).Inv rank) := by
  cases hc : s.trace.reg.get id with
  | none =>
      have hnext := (h.next_of_none hc u).1
      exact ⟨iff_of_true hnext.exact (safe_of_none hc u).1, fun _ => hnext⟩
  | some c =>
      by_cases hzero : u = .enable ∧ c.prepareCount = 0#32
      · obtain ⟨rfl, hzero⟩ := hzero
        have hnext : s.next (.acquire .enable id) = s := by
          rw [next, clkEnable_of_unprepared hc hzero]
        have hsafe : s.Safe (.acquire .enable id) := by
          intro hprep
          obtain ⟨c', hc', hne⟩ := hprep rfl
          cases hc.symm.trans hc'
          exact absurd hzero hne
        rw [Keeps, hnext]
        exact ⟨iff_of_true h.exact hsafe, fun _ => h⟩
      · have hprep : u = .enable → c.prepareCount ≠ 0#32 := fun hu hz => hzero ⟨hu, hz⟩
        have hrun := clkAcquire_of_opsOk h.forested h.opsOk hc hprep
        have hA : ∀ j, j ∈ (s.trace.reg.ancestors id).reverse ↔ j ∈ s.trace.reg.ancestors id :=
          fun j => List.mem_reverse
        have heffect : ClkEffect s (s.next (.acquire u id)) u (s.trace.reg.ancestors id).reverse
            u.acquire u.acquireEvents := by
          refine .of_foldl (List.nodup_reverse.2 (h.forested.ancestors_nodup id))
            u.sameClock_acquire ?_ fun v hv => ?_
          · rw [next, hrun]
          · rw [next, hrun]
            exact Function.update_of_ne hv _ _
        have hheld : (s.next (.acquire u id)).held u = id :: s.held u := by
          rw [next, hrun]
          exact Function.update_self _ _ _
        have hnext : s.Safe (.acquire u id) → (s.next (.acquire u id)).Inv rank := by
          intro hsafe
          have hmax : ∀ j ∈ (s.trace.reg.ancestors id).reverse, ∀ c,
              s.trace.reg.get j = some c → u.count c ≠ maxCount := fun j hj =>
            hsafe (fun hu => ⟨c, hc, hprep hu⟩) j ((hA j).1 hj)
          refine h.other heffect (fun v hv c => ClkUse.other_acquire hv c) (fun v hv b c j ok => ?_)
            (fun j c' hc' => exactAt_acquire heffect hA hheld h.forested (h.exact u) (h.nonNeg u)
              hmax hc') (nonNeg_acquire heffect (h.nonNeg u) hmax)
          constructor
          · intro hmem
            cases ClkUse.of_mem_acquireEvents hmem
            exact hv rfl
          · intro hmem
            cases ClkUse.of_mem_acquireEvents hmem
        refine ⟨⟨fun hkeeps _ j hj c' hc' hmax => ?_, fun hsafe => (hnext hsafe).exact⟩, hnext⟩
        exact not_exact_acquire heffect (h.exact u) ((hA j).2 hj) hc' hmax hkeeps

theorem release_step (h : s.Inv rank) (u : ClkUse) (id : ClkId) (hid : id ∈ s.held u) :
    (s.Keeps (.release u id) ↔ s.Safe (.release u id)) ∧
      (s.Safe (.release u id) → (s.next (.release u id)).Inv rank) := by
  cases hc : s.trace.reg.get id with
  | none =>
      have hnext := (h.next_of_none hc u).2
      exact ⟨iff_of_true hnext.exact (safe_of_none hc u).2, fun _ => hnext⟩
  | some c =>
      have hrun := clkRelease_eq (u := u) h.forested hc
      have heffect : ClkEffect s (s.next (.release u id)) u (s.trace.reg.ancestors id)
          u.release u.releaseEvents := by
        refine .of_foldl (h.forested.ancestors_nodup id) u.sameClock_release ?_ fun v hv => ?_
        · rw [next, hrun]
        · rw [next, hrun]
          exact Function.update_of_ne hv _ _
      have hheld : (s.next (.release u id)).held u = (s.held u).erase id := by
        rw [next, hrun]
        exact Function.update_self _ _ _
      have hnext : s.Safe (.release u id) → (s.next (.release u id)).Inv rank := by
        intro hsafe
        refine h.other heffect (fun v hv c => ClkUse.other_release hv c) (fun v hv b c j ok => ?_)
          (fun j c' hc' => exactAt_release heffect (fun _ => Iff.rfl) hid hheld h.forested
            (h.exact u) hsafe hc')
          (nonNeg_release heffect (fun _ => Iff.rfl) hid hheld (h.exact u) (h.nonNeg u))
        constructor
        · intro hmem
          cases ClkUse.of_mem_releaseEvents hmem
        · intro hmem
          cases ClkUse.of_mem_releaseEvents hmem
          exact hv rfl
      refine ⟨⟨fun hkeeps p hp c' hc' hskip hone k ck hk hpar hcrit => ?_,
        fun hsafe => (hnext hsafe).exact⟩, hnext⟩
      by_contra hon
      exact not_exact_release heffect hp hc' hskip hone hk hpar hcrit (eq_true_of_ne_false hon)
        hkeeps

/-- The counts of the start. -/
theorem inv_start {reg : ClkRegistry} (hforest : reg.Forested rank) (hok : reg.OpsOk)
    (hunused : ∀ id c, reg.get id = some c → c.Unused) : (start reg).Inv rank := by
  refine ⟨hforest, hok, fun u j c hc => ?_, fun u j c hc => ?_⟩
  · obtain ⟨hcount, hoff⟩ := hunused j c hc u
    have hzero : (u.count c).toInt = 0 := by
      rw [hcount]
      rfl
    refine ⟨fun _ => hzero, ?_, fun _ _ => ?_, fun hon => ?_, fun _ => List.not_mem_nil⟩
    · rw [hzero, hoff]
      exact iff_of_false Bool.false_ne_true (lt_irrefl 0)
    · rw [hzero]
      rfl
    · rw [hoff] at hon
      cases hon
  · rw [(hunused j c hc u).1]
    exact le_refl _

end ClkRun

/-- Along a run the counts are exact exactly if its calls are safe. -/
theorem clk_counts_iff {reg : ClkRegistry} (hforest : reg.IsForest) (hok : reg.OpsOk)
    (hunused : ∀ id c, reg.get id = some c → c.Unused) (calls : List ClkCall)
    (h : Runs.Along ClkRun.next ClkRun.Allowed (.start reg) calls) :
    Runs.Along ClkRun.next ClkRun.Keeps (.start reg) calls ↔
      Runs.Along ClkRun.next ClkRun.Safe (.start reg) calls := by
  obtain ⟨rank, hforest⟩ := hforest
  have hstep : ∀ (s : ClkRun) (call : ClkCall), s.Inv rank → s.Allowed call →
      (s.Keeps call ↔ s.Safe call) ∧ (s.Safe call → (s.next call).Inv rank) := by
    intro s call hI hA
    cases call with
    | acquire u id => exact ClkRun.acquire_step hI u id
    | release u id => exact ClkRun.release_step hI u id hA
  exact Runs.along_iff (fun s call hI hA => (hstep s call hI hA).1)
    (fun s call hI hA => (hstep s call hI hA).2) (ClkRun.inv_start hforest hok hunused) h

/-! ### A critical child -/

/-- Operations that enable the clock, and disable it. -/
def ClkOps.gate : ClkOps where
  prepare := none
  unprepare := false
  enable := some fun _ => .ok ()
  disable := true
  setRate := none
  roundRate := none
  recalcRate := none

/-- A root, and a critical child of it. -/
def criticalReg : ClkRegistry :=
  .pair (.new 0#64 .gate clkNoParent 0#32) (.new 0#64 .gate 0#32 ClkFlags.isCritical)

theorem criticalReg_isForest : criticalReg.IsForest := ClkRegistry.isForest_pair rfl rfl

theorem criticalReg_opsOk : criticalReg.OpsOk := by
  intro id c hc u f hop
  rcases ClkRegistry.get_pair hc with ⟨-, rfl⟩ | ⟨-, rfl⟩ <;> cases u <;> cases hop <;> rfl

theorem criticalReg_unused (id : ClkId) (c : ClkCore) (hc : criticalReg.get id = some c) :
    c.Unused := by
  rcases ClkRegistry.get_pair hc with ⟨-, rfl⟩ | ⟨-, rfl⟩ <;>
    exact fun u => by cases u <;> exact ⟨rfl, rfl⟩

/-- Preparing the root, and the opposite. -/
theorem clk_counts_root : Runs.Along ClkRun.next ClkRun.Keeps (.start criticalReg)
    [.acquire .prepare 0#32, .release .prepare 0#32] := by
  have hheld : 0#32 ∈ ((ClkRun.start criticalReg).next (.acquire .prepare 0#32)).held .prepare := by
    decide +kernel
  rw [clk_counts_iff criticalReg_isForest criticalReg_opsOk criticalReg_unused]
  · refine ⟨fun _ j _ c hc => ?_, fun p _ c _ _ _ k c' _ _ hcrit => ?_, trivial⟩
    · rw [(criticalReg_unused j c hc .prepare).1]
      decide
    · cases hcrit
  · exact ⟨trivial, hheld, trivial⟩

/-- A clock in use whose parent is not. -/
theorem ClkRun.not_exact_of_off {s : ClkRun} {u : ClkUse} {id p : ClkId}
    (hchild : (s.trace.reg.get id).map (fun c => (c.parent, u.isOn c)) = some (p, true))
    (hp : (s.trace.reg.get p).map u.isOn = some false) : ¬ s.Exact := by
  intro hexact
  obtain ⟨c, hc, hpair⟩ := Option.map_eq_some_iff.1 hchild
  obtain ⟨c', hc', hoff⟩ := Option.map_eq_some_iff.1 hp
  obtain ⟨rfl, hon⟩ := Prod.mk.inj hpair
  obtain ⟨c'', hc'', hpon⟩ := (hexact u id c hc).parent hon c.parent
    (ClkRegistry.parentOf_eq_some.2 ⟨c, hc, ClkRegistry.ne_noParent hc', rfl⟩)
  cases hc'.symm.trans hc''
  rw [hoff] at hpon
  cases hpon

/-- The critical clock is prepared, enabled and disabled. -/
def criticalCalls : List ClkCall :=
  [.acquire .prepare 1#32, .acquire .enable 1#32, .release .enable 1#32]

/-- The critical clock stays enabled, and its parent does not. -/
theorem clk_disable_critical : criticalReg.IsForest ∧ criticalReg.OpsOk ∧
    (∀ id c, criticalReg.get id = some c → c.Unused) ∧
      Runs.Along ClkRun.next ClkRun.Allowed (.start criticalReg) criticalCalls ∧
        ¬ Runs.Along ClkRun.next ClkRun.Keeps (.start criticalReg) criticalCalls := by
  have hheld : 1#32 ∈ (((ClkRun.start criticalReg).next (.acquire .prepare 1#32)).next
      (.acquire .enable 1#32)).held .enable := by decide +kernel
  refine ⟨criticalReg_isForest, criticalReg_opsOk, criticalReg_unused,
    ⟨trivial, trivial, hheld, trivial⟩, fun hkeeps => ?_⟩
  refine @ClkRun.not_exact_of_off _ .enable 1#32 0#32 ?_ ?_ hkeeps.2.2.1
  · decide +kernel
  · decide +kernel

end StarOS
