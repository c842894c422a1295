/-
The two locks that are taken with interrupts disabled (`sync/irqsafe.rs`, `drivers/clk/mmio.rs`).

A handler that waits for a lock held by the code it interrupted waits for ever, so both locks mask
interrupts before they are taken.  They are given back in different orders: the guard of the clock
registers lowers the flag and then unmasks interrupts, while the guard of `IrqSafeMutex` unmasks
them in its own `drop`, after which the guard inside it is dropped and lowers the flag.

* `StarOS.ClkMmio`, `StarOS.RmwPc`, `StarOS.clkMmioSystem` — the clock registers: `rmw_reg`,
  `set_bits` and `clear_bits`, access by access;
* `StarOS.clkMmio_atomic` — no handler finds its own core in the critical section, and no update of
  a register is lost;
* `StarOS.IrqSafePc`, `StarOS.irqSafeSystem` — `IrqSafeMutex`, access by access;
* `StarOS.irqSafe_deadlock` — in between the two steps of the drop a handler may find the lock held
  by its own core, and then it waits for ever.
-/

import StarOS.Cores

set_option autoImplicit false

namespace StarOS

/-! ### The clock registers -/

/-- An update of a register: `rmw_reg`, `set_bits` or `clear_bits`. -/
inductive RegOp where
  | rmwReg (addr : BitVec 64) (mask val : BitVec 32)
  | setBits (addr : BitVec 64) (bits : BitVec 32)
  | clearBits (addr : BitVec 64) (bits : BitVec 32)
  deriving DecidableEq, Repr

/-- The register that is updated. -/
def RegOp.addr : RegOp → BitVec 64
  | rmwReg addr _ _ => addr
  | setBits addr _ => addr
  | clearBits addr _ => addr

/-- What is written, from what was read. -/
def RegOp.apply (cur : BitVec 32) : RegOp → BitVec 32
  | rmwReg _ mask val => (cur &&& ~~~mask) ||| (val &&& mask)
  | setBits _ bits => cur ||| bits
  | clearBits _ bits => cur &&& ~~~bits

/-- `MMIO_LOCK`, and the registers. -/
structure ClkMmio where
  locked : Bool
  regs : BitVec 64 → BitVec 32

/-- Where a call stands. -/
inductive RmwPc where
  /-- No call. -/
  | idle
  /-- `IrqSafeLock::new`, before `are_interrupts_enabled`. -/
  | readFlags (op : RegOp)
  /-- Before `disable_interrupts`. -/
  | disable (op : RegOp) (irqEnabled : Bool)
  /-- Before the compare-exchange. -/
  | cas (op : RegOp) (irqEnabled : Bool)
  /-- Before `read_reg`. -/
  | readReg (op : RegOp) (irqEnabled : Bool)
  /-- Before `write_reg`. -/
  | writeReg (op : RegOp) (irqEnabled : Bool) (cur : BitVec 32)
  /-- `IrqSafeLock::drop`, before the flag is cleared. -/
  | release (irqEnabled : Bool)
  /-- Before interrupts are enabled again, if they were. -/
  | restore (irqEnabled : Bool)
  deriving DecidableEq, Repr

/-- What code can do next: make a call, make its next access, or write the register. -/
inductive RmwAct where
  | call (op : RegOp)
  | access
  | write (op : RegOp)
  deriving DecidableEq, Repr

namespace RmwPc

/-- One step of code.  A failed compare-exchange is tried again. -/
def next (m : ClkMmio) (masked : Bool) (pc : RmwPc) : RmwAct → Option (ClkMmio × Bool × RmwPc)
  | .call op =>
      match pc with
      | idle => some (m, masked, readFlags op)
      | _ => none
  | .access =>
      match pc with
      | readFlags op => some (m, masked, disable op (!masked))
      | disable op irqEnabled => some (m, true, cas op irqEnabled)
      | cas op irqEnabled =>
          if m.locked then some (m, masked, cas op irqEnabled)
          else some ({ m with locked := true }, masked, readReg op irqEnabled)
      | readReg op irqEnabled => some (m, masked, writeReg op irqEnabled (m.regs op.addr))
      | release irqEnabled => some ({ m with locked := false }, masked, restore irqEnabled)
      | restore irqEnabled => some (m, if irqEnabled then false else masked, idle)
      | _ => none
  | .write op =>
      match pc with
      | writeReg op' irqEnabled cur =>
          if op = op' then
            some ({ m with regs := Function.update m.regs op.addr (op.apply cur) }, masked,
              release irqEnabled)
          else none
      | _ => none

/-- The code has the lock. -/
def holds : RmwPc → Bool
  | readReg _ _ => true
  | writeReg _ _ _ => true
  | release _ => true
  | _ => false

/-- The code waits for the lock or has it. -/
def wants : RmwPc → Bool
  | cas _ _ => true
  | pc => pc.holds

/-- No call is in flight, so that a handler may return. -/
def isIdle : RmwPc → Bool
  | idle => true
  | _ => false

/-- What has been read and not written yet. -/
def loaded : RmwPc → Option (BitVec 64 × BitVec 32)
  | writeReg op _ cur => some (op.addr, cur)
  | _ => none

end RmwPc

/-- The cores, whose code and handlers update the registers. -/
def clkMmioSystem (ι : Type) [DecidableEq ι] (regs : BitVec 64 → BitVec 32) :
    Runs.System (Cores.State ι ClkMmio RmwPc) (ι × Cores.Act RmwAct) :=
  Cores.system (fun m masked pc a => pc.next m masked a) .idle RmwPc.isIdle ⟨false, regs⟩

/-- The update that a step makes. -/
def RmwAct.written : RmwAct → Option RegOp
  | .write op => some op
  | _ => none

/-- The update that a step of a core makes. -/
def writtenBy {ι : Type} (e : ι × Cores.Act RmwAct) : Option RegOp :=
  match e.2 with
  | .run a => a.written
  | _ => none

/-- The registers after updates, one after the other. -/
def updatedRegs (regs : BitVec 64 → BitVec 32) (ops : List RegOp) : BitVec 64 → BitVec 32 :=
  ops.foldl (fun regs op => Function.update regs op.addr (op.apply (regs op.addr))) regs

/-- What a step of the code does: to the lock, to the mask, and to the registers. -/
theorem RmwPc.next_cases {m m' : ClkMmio} {masked masked' : Bool} {pc pc' : RmwPc} {a : RmwAct}
    (h : pc.next m masked a = some (m', masked', pc')) :
    (pc'.holds = pc.holds ∧ m'.locked = m.locked ∨
      pc.holds = false ∧ pc'.holds = true ∧ m.locked = false ∧ m'.locked = true ∨
      pc.holds = true ∧ pc'.holds = false ∧ m'.locked = false) ∧
    ((pc.wants = true → masked = true) → pc'.wants = true → masked' = true) ∧
    ((a.written = none ∧ m'.regs = m.regs ∧
        ∀ l, pc'.loaded = some l → m.regs l.1 = l.2) ∨
      ∃ op irqEnabled cur, a.written = some op ∧ pc = writeReg op irqEnabled cur ∧
        pc'.loaded = none ∧ m'.regs = Function.update m.regs op.addr (op.apply cur)) := by
  cases a with
  | call op =>
      cases pc <;> simp only [next, reduceCtorEq, Option.some.injEq, Prod.mk.injEq] at h
      obtain ⟨rfl, rfl, rfl⟩ := h
      simp [holds, wants, RmwAct.written, loaded]
  | access =>
      cases pc with
      | idle => simp [next] at h
      | readFlags op =>
          cases h
          simp [holds, wants, RmwAct.written, loaded]
      | disable op irqEnabled =>
          cases h
          simp [holds, wants, RmwAct.written, loaded]
      | cas op irqEnabled =>
          rw [next] at h
          split at h
          · cases h
            simp [holds, wants, RmwAct.written, loaded]
          · rename_i hlocked
            cases h
            simp [holds, wants, RmwAct.written, loaded, hlocked]
      | readReg op irqEnabled =>
          cases h
          simp [holds, wants, RmwAct.written, loaded]
      | writeReg op irqEnabled cur => simp [next] at h
      | release irqEnabled =>
          cases h
          simp [holds, wants, RmwAct.written, loaded]
      | restore irqEnabled =>
          cases h
          simp [holds, wants, RmwAct.written, loaded]
  | write op =>
      cases pc with
      | writeReg op' irqEnabled cur =>
          rw [next] at h
          split at h
          · rename_i hop
            subst hop
            cases h
            refine ⟨by simp [holds], by simp [holds, wants], .inr ⟨op, irqEnabled, cur, rfl, rfl,
              rfl, rfl⟩⟩
          · cases h
      | _ => simp [next] at h

theorem clkMmio_isLock :
    Cores.IsLock (fun (m : ClkMmio) masked (pc : RmwPc) a => pc.next m masked a) .idle RmwPc.isIdle
      ClkMmio.locked RmwPc.holds where
  start := rfl
  done := fun p hp => by cases p <;> first | rfl | cases hp
  step_cases := fun h => (RmwPc.next_cases h).1

theorem clkMmio_needsMask :
    Cores.NeedsMask (fun (m : ClkMmio) masked (pc : RmwPc) a => pc.next m masked a) .idle
      RmwPc.wants where
  start := rfl
  step := fun h => (RmwPc.next_cases h).2.1

theorem RmwPc.wants_of_holds {pc : RmwPc} (h : pc.holds = true) : pc.wants = true := by
  cases pc <;> first | rfl | exact h

theorem RmwPc.holds_of_loaded {pc : RmwPc} {l : BitVec 64 × BitVec 32} (h : pc.loaded = some l) :
    pc.holds = true := by
  cases pc <;> first | rfl | cases h

/-- What has been read is what is there, and the registers are what the updates have made of
them. -/
structure ClkUpdated {ι : Type} (regs : BitVec 64 → BitVec 32) (tr : List (ι × Cores.Act RmwAct))
    (s : Cores.State ι ClkMmio RmwPc) : Prop where
  loaded : ∀ i, ∀ pc ∈ (s.core i).places, ∀ l, pc.loaded = some l → s.shared.regs l.1 = l.2
  regs : s.shared.regs = updatedRegs regs (tr.filterMap writtenBy)

/-- A step of a core. -/
theorem ClkUpdated.next {ι : Type} [DecidableEq ι] {regs : BitVec 64 → BitVec 32}
    {tr : List (ι × Cores.Act RmwAct)} {s s' : Cores.State ι ClkMmio RmwPc}
    (h : ClkUpdated regs tr s) (hex : Cores.Exclusive ClkMmio.locked RmwPc.holds s)
    {e : ι × Cores.Act RmwAct} (hs : (clkMmioSystem ι regs).step s e s') :
    ClkUpdated regs (tr ++ [e]) s' := by
  obtain ⟨i, x⟩ := e
  obtain ⟨⟨m, c⟩, hr, rfl⟩ := Cores.next_eq_some hs
  -- a step that writes nothing and leaves the places of the core in order
  have hkeep : m.regs = s.shared.regs → writtenBy (i, x) = none →
      (∀ pc ∈ c.places, ∀ l, pc.loaded = some l → s.shared.regs l.1 = l.2) →
      ClkUpdated regs (tr ++ [(i, x)]) (s.move i (m, c)) := by
    intro hregs hwritten hplaces
    refine ⟨fun j pc hpc l hl => ?_, ?_⟩
    · rw [Cores.move_shared, hregs]
      by_cases hj : j = i
      · rw [hj, Cores.move_core_self] at hpc
        exact hplaces pc hpc l hl
      · rw [Cores.move_core_of_ne hj] at hpc
        exact h.loaded j pc hpc l hl
    · rw [Cores.move_shared, hregs, h.regs, List.filterMap_append, List.filterMap_cons, hwritten,
        List.filterMap_nil, List.append_nil]
  obtain ⟨y, rfl, hstep, hsame⟩ | ⟨rfl, rfl, -, rfl⟩ | ⟨rfl, rfl, -, pc, rest, hrest, rfl⟩ :=
    Cores.Core.next_cases hr
  · obtain ⟨-, -, ⟨hwritten, hregs, hloaded⟩ | ⟨op, irqEnabled, cur, hwritten, hpc, hnone, hregs⟩⟩ :=
      RmwPc.next_cases hstep
    · refine hkeep hregs hwritten fun pc hpc l hl => ?_
      obtain rfl | hpc := List.mem_cons.1 hpc
      · exact hloaded l hl
      · exact h.loaded i pc (List.mem_cons_of_mem _ (hsame ▸ hpc)) l hl
    · -- the writer is alone in the critical section, and what it has read is still there
      have hcur : s.shared.regs op.addr = cur := by
        refine h.loaded i _ List.mem_cons_self (op.addr, cur) ?_
        rw [hpc]
        rfl
      have hholds : (s.core i).running.holds = true := by
        rw [hpc]
        rfl
      obtain ⟨hbelow, hothers⟩ := hex.alone hholds
      have habsurd : ∀ pc l, RmwPc.holds pc = false → RmwPc.loaded pc = some l → False := by
        intro pc l hfalse hl
        rw [RmwPc.holds_of_loaded hl] at hfalse
        cases hfalse
      refine ⟨fun j pc hpc l hl => ?_, ?_⟩
      · by_cases hj : j = i
        · rw [hj, Cores.move_core_self] at hpc
          obtain rfl | hpc := List.mem_cons.1 hpc
          · rw [hnone] at hl
            cases hl
          · exact (habsurd pc l (hbelow pc (hsame ▸ hpc)) hl).elim
        · rw [Cores.move_core_of_ne hj] at hpc
          exact (habsurd pc l (hothers j hj pc hpc) hl).elim
      · have hby : writtenBy (i, Cores.Act.run y) = some op := hwritten
        have hold := h.regs
        rw [updatedRegs] at hold
        rw [Cores.move_shared, hregs, updatedRegs, List.filterMap_append, List.foldl_append, ← hold]
        simp only [List.filterMap_cons, hby, List.filterMap_nil, List.foldl_cons, List.foldl_nil,
          hcur]
  · refine hkeep rfl rfl fun pc hpc l hl => ?_
    obtain rfl | hpc := List.mem_cons.1 hpc
    · cases hl
    · exact h.loaded i pc hpc l hl
  · refine hkeep rfl rfl fun q hq l hl => ?_
    exact h.loaded i q (List.mem_cons_of_mem _ (hrest ▸ hq)) l hl

/-- **The clock registers are updated one after the other.**  In every run of any cores, whose code
and handlers call `rmw_reg`, `set_bits` and `clear_bits` and are interrupted wherever interrupts are
enabled: the code that a core has suspended does not have the lock, so that a handler waits for no
one on its own core; at most one core is in the critical section, with its interrupts masked; and
the registers are what all the updates of the run make of them one after the other, although each
writes what it computes from a copy read earlier. -/
theorem clkMmio_atomic {ι : Type} [DecidableEq ι] {regs : BitVec 64 → BitVec 32}
    {tr : List (ι × Cores.Act RmwAct)} {s : Cores.State ι ClkMmio RmwPc}
    (h : (clkMmioSystem ι regs).Exec Runs.anyStep tr s) :
    (∀ i, ∀ pc ∈ (s.core i).interrupted, pc.holds = false) ∧
      (∀ i, (s.core i).running.holds = true → (s.core i).masked = true) ∧
      (∀ i j, (s.core i).running.holds = true → (s.core j).running.holds = true → i = j) ∧
      s.shared.regs = updatedRegs regs (tr.filterMap writtenBy) := by
  have hex : ∀ {tr s}, (clkMmioSystem ι regs).Exec Runs.anyStep tr s →
      Cores.Exclusive ClkMmio.locked RmwPc.holds s := fun h =>
    clkMmio_isLock.exclusive rfl ⟨_, h⟩
  have hmasked : Cores.Masked RmwPc.wants s := clkMmio_needsMask.masked ⟨_, h⟩
  have hupdated : ClkUpdated regs tr s := by
    induction h with
    | init h₀ =>
        obtain ⟨hshared, hcores⟩ := h₀
        refine ⟨fun i pc hpc l hl => ?_, by rw [hshared]; rfl⟩
        rw [Cores.Core.places, (hcores i).1, (hcores i).2, List.mem_singleton] at hpc
        subst hpc
        cases hl
    | step hrun _ hs ih => exact (ih (clkMmio_needsMask.masked ⟨_, hrun⟩)).next (hex hrun) hs
  refine ⟨fun i pc hpc => ?_, fun i hi => hmasked.running i (RmwPc.wants_of_holds hi),
    fun i j hi hj => ?_, hupdated.regs⟩
  · by_contra hne
    have hwants := RmwPc.wants_of_holds (by simpa using hne)
    rw [hmasked.interrupted i pc hpc] at hwants
    cases hwants
  · exact (hex h).unique i j (Cores.Core.held_pos List.mem_cons_self hi)
      (Cores.Core.held_pos List.mem_cons_self hj)

/-- A core is interrupted in the middle of `set_bits`, by a handler that sets another bit of the same
register. -/
theorem clkMmio_atomic_two :
    ∃ s : Cores.State Unit ClkMmio RmwPc,
      (∀ pc ∈ (s.core ()).interrupted, pc.holds = false) ∧ s.shared.regs 0x10#64 = 3#32 := by
  have hrun := Runs.System.Exec.replay (M := clkMmioSystem Unit fun _ => 0#32)
    (G := fun _ _ => true) (fun _ _ _ h => h)
    (s := ⟨⟨false, fun _ => 0#32⟩, fun _ => ⟨false, .idle, []⟩⟩)
    (.init ⟨rfl, fun _ => ⟨rfl, rfl⟩⟩)
    (rfl : Runs.replay _ (fun _ _ => true) _ ([.run (.call (.setBits 0x10#64 1#32)), .interrupt,
      .run (.call (.setBits 0x10#64 2#32)), .run .access, .run .access, .run .access, .run .access,
      .run (.write (.setBits 0x10#64 2#32)), .run .access, .run .access, .eret,
      .run .access, .run .access, .run .access, .run .access,
      .run (.write (.setBits 0x10#64 1#32))].map fun x => ((), x)) = some _)
  obtain ⟨hbelow, -, -, hregs⟩ := clkMmio_atomic hrun.free
  exact ⟨_, hbelow (), (congrFun hregs 0x10#64).trans rfl⟩

/-! ### `IrqSafeMutex` -/

/-- Where the code stands with an `IrqSafeMutex`; `flags` says whether interrupts were masked when
`lock_irqsave` began, and is missing if the lock was taken by `lock`. -/
inductive IrqSafePc where
  /-- No call, and no guard. -/
  | idle
  /-- `lock_irqsave`, before DAIF is read. -/
  | readFlags
  /-- Before DAIF is set. -/
  | disable (flags : Bool)
  /-- Before the lock of the inner mutex. -/
  | spin (flags : Option Bool)
  /-- The code has a guard. -/
  | guard (flags : Option Bool)
  /-- `IrqSafeGuard::drop`, before `restore_interrupts`. -/
  | restore (flags : Bool)
  /-- The guard of the inner mutex is dropped, before the flag is cleared; `flags` as before. -/
  | release (flags : Option Bool)
  deriving DecidableEq, Repr

/-- What code can do next: call `lock_irqsave` or `lock`, make its next access, or drop its guard. -/
inductive IrqSafeAct where
  | lockIrqsave
  | lock
  | access
  | drop
  deriving DecidableEq, Repr

namespace IrqSafePc

/-- One step of code, on the flag of the inner mutex.  The inner mutex is taken when it is free. -/
def next (locked masked : Bool) (pc : IrqSafePc) : IrqSafeAct → Option (Bool × Bool × IrqSafePc)
  | .lockIrqsave =>
      match pc with
      | idle => some (locked, masked, readFlags)
      | _ => none
  | .lock =>
      match pc with
      | idle => some (locked, masked, spin none)
      | _ => none
  | .access =>
      match pc with
      | readFlags => some (locked, masked, disable masked)
      | disable flags => some (locked, true, spin (some flags))
      | spin flags =>
          if locked then some (locked, masked, spin flags) else some (true, masked, guard flags)
      | restore flags => some (locked, flags, release (some flags))
      | release _ => some (false, masked, idle)
      | _ => none
  | .drop =>
      match pc with
      -- `drop` runs before the fields are dropped
      | guard (some flags) => some (locked, masked, restore flags)
      | guard none => some (locked, masked, release none)
      | _ => none

/-- The code has the lock. -/
def holds : IrqSafePc → Bool
  | guard _ => true
  | restore _ => true
  | release _ => true
  | _ => false

/-- The code has called `lock_irqsave` and has disabled interrupts. -/
def wants : IrqSafePc → Bool
  | spin (some _) => true
  | guard (some _) => true
  | restore _ => true
  | _ => false

/-- No guard, and no call in flight, so that a handler may return. -/
def isIdle : IrqSafePc → Bool
  | idle => true
  | _ => false

end IrqSafePc

/-- The cores, whose code and handlers share an `IrqSafeMutex`. -/
def irqSafeSystem (ι : Type) [DecidableEq ι] :
    Runs.System (Cores.State ι Bool IrqSafePc) (ι × Cores.Act IrqSafeAct) :=
  Cores.system (fun locked masked pc a => pc.next locked masked a) .idle IrqSafePc.isIdle false

/-- What a step of the code does. -/
theorem IrqSafePc.next_cases {locked locked' masked masked' : Bool} {pc pc' : IrqSafePc}
    {a : IrqSafeAct} (h : pc.next locked masked a = some (locked', masked', pc')) :
    (pc'.holds = pc.holds ∧ locked' = locked ∨
      pc.holds = false ∧ pc'.holds = true ∧ locked = false ∧ locked' = true ∨
      pc.holds = true ∧ pc'.holds = false ∧ locked' = false) ∧
    ((pc.wants = true → masked = true) → pc'.wants = true → masked' = true) := by
  cases a with
  | lockIrqsave =>
      cases pc <;> cases h
      simp [holds, wants]
  | lock =>
      cases pc <;> cases h
      simp [holds, wants]
  | access =>
      cases pc with
      | spin flags =>
          rw [next] at h
          split at h
          · cases h
            simp
          · cases h
            cases flags <;> simp_all [holds, wants]
      | _ => cases h <;> simp [holds, wants]
  | drop =>
      cases pc with
      | guard flags => cases flags <;> cases h <;> simp [holds, wants]
      | _ => cases h

theorem irqSafe_isLock :
    Cores.IsLock (fun locked masked (pc : IrqSafePc) a => pc.next locked masked a) .idle
      IrqSafePc.isIdle id IrqSafePc.holds where
  start := rfl
  done := fun p hp => by cases p <;> first | rfl | cases hp
  step_cases := fun h => (IrqSafePc.next_cases h).1

theorem irqSafe_needsMask :
    Cores.NeedsMask (fun locked masked (pc : IrqSafePc) a => pc.next locked masked a) .idle
      IrqSafePc.wants where
  start := rfl
  step := fun h => (IrqSafePc.next_cases h).2

/-- A core waits with interrupts masked for a lock that it holds itself, in code that it has
suspended. -/
structure Stuck {ι : Type} (s : Cores.State ι Bool IrqSafePc) (i : ι) : Prop where
  masked : (s.core i).masked = true
  waits : ∃ flags, (s.core i).running = .spin flags
  holder : ∃ pc ∈ (s.core i).interrupted, pc.holds = true

/-- A core that is stuck does nothing, and no other core frees the lock. -/
theorem Stuck.next {ι : Type} [DecidableEq ι] {s s' : Cores.State ι Bool IrqSafePc} {i : ι}
    (h : Stuck s i) (hex : Cores.Exclusive id IrqSafePc.holds s)
    {e : ι × Cores.Act IrqSafeAct} (hs : (irqSafeSystem ι).step s e s') :
    s'.core i = s.core i ∧ s'.shared = true := by
  obtain ⟨j, x⟩ := e
  obtain ⟨⟨locked, c⟩, hr, rfl⟩ := Cores.next_eq_some hs
  obtain ⟨flags, hspin⟩ := h.waits
  obtain ⟨pc, hpc, hholds⟩ := h.holder
  have hheld : 0 < (s.core i).held IrqSafePc.holds :=
    Cores.Core.held_pos (List.mem_cons_of_mem _ hpc) hholds
  have hlocked : s.shared = true := hex.flag i hheld
  by_cases hj : j = i
  · subst hj
    obtain ⟨y, rfl, hstep, hsame⟩ | ⟨-, -, hunmasked, -⟩ | ⟨-, -, hdone, -⟩ :=
      Cores.Core.next_cases hr
    · dsimp only at hstep hsame
      rw [hspin] at hstep
      cases y with
      | access =>
          simp only [IrqSafePc.next, hlocked, if_true, Option.some.injEq, Prod.mk.injEq] at hstep
          obtain ⟨hl, hmasked, hrunning⟩ := hstep
          refine ⟨?_, hl.symm⟩
          rw [Cores.move_core_self]
          exact Cores.Core.ext hmasked.symm (hrunning.symm.trans hspin.symm) hsame
      | _ => cases hstep
    · rw [h.masked] at hunmasked
      cases hunmasked
    · rw [hspin] at hdone
      cases hdone
  · refine ⟨Cores.move_core_of_ne (Ne.symm hj), ?_⟩
    obtain ⟨-, hl⟩ | ⟨-, hl, -⟩ | ⟨hh, -⟩ := irqSafe_isLock.core_cases hr
    · exact hl.trans hlocked
    · exact absurd (hl.symm.trans hlocked) (by simp)
    · exact absurd (hex.unique j i (by dsimp only at hh; omega) hheld) hj

/-- **Interrupts come back too early.**  In every run of any cores, whose code and handlers use an
`IrqSafeMutex`: code that has been interrupted while it has the lock either took it by `lock`, or is
in the drop of its guard, where interrupts are restored but the flag is not cleared yet.  A handler
that comes in there and locks the mutex with interrupts disabled waits for ever: in every run from
there on its core does nothing, and the lock is never free again for any core. -/
theorem irqSafe_deadlock {ι : Type} [DecidableEq ι] {s : Cores.State ι Bool IrqSafePc}
    (h : (irqSafeSystem ι).Reach Runs.anyStep s) (i : ι) :
    (∀ pc ∈ (s.core i).interrupted, pc.holds = true →
      pc = .guard none ∨ ∃ flags, pc = .release flags) ∧
    ((∃ flags, (s.core i).running = .spin (some flags)) →
      (∃ pc ∈ (s.core i).interrupted, pc.holds = true) →
      ∀ s', ((irqSafeSystem ι).after s).Reach Runs.anyStep s' →
        s'.core i = s.core i ∧ s'.shared = true) := by
  have hmasked : Cores.Masked IrqSafePc.wants s := irqSafe_needsMask.masked h
  have hex : Cores.Exclusive id IrqSafePc.holds s := irqSafe_isLock.exclusive rfl h
  refine ⟨fun pc hpc hholds => ?_, fun hwaits hholder s' hs' => ?_⟩
  · have hwants := hmasked.interrupted i pc hpc
    cases pc with
    | guard flags =>
        cases flags with
        | none => exact .inl rfl
        | some flags => cases hwants
    | release flags => exact .inr ⟨flags, rfl⟩
    | restore flags => cases hwants
    | _ => cases hholds
  · have hstuck : Stuck s i := by
      obtain ⟨flags, hspin⟩ := hwaits
      exact ⟨hmasked.running i (by rw [hspin]; rfl), ⟨_, hspin⟩, hholder⟩
    obtain ⟨hcore, hshared, -⟩ : s'.core i = s.core i ∧ s'.shared = true ∧
        Cores.Exclusive id IrqSafePc.holds s' := by
      refine hs'.invariant (P := fun s' => s'.core i = s.core i ∧ s'.shared = true ∧
        Cores.Exclusive id IrqSafePc.holds s') (fun s₀ h₀ => ?_) fun s₁ e s₂ h₁ _ hs => ?_
      · obtain rfl : s₀ = s := h₀
        obtain ⟨pc, hpc, hholds⟩ := hholder
        exact ⟨rfl, hex.flag i (Cores.Core.held_pos (List.mem_cons_of_mem _ hpc) hholds), hex⟩
      · obtain ⟨hcore, -, hex₁⟩ := h₁
        have hstuck₁ : Stuck s₁ i := by
          refine ⟨?_, ?_, ?_⟩
          · rw [hcore]
            exact hstuck.masked
          · rw [hcore]
            exact hstuck.waits
          · rw [hcore]
            exact hstuck.holder
        obtain ⟨hcore₂, hshared₂⟩ := hstuck₁.next hex₁ hs
        exact ⟨hcore₂.trans hcore, hshared₂, irqSafe_isLock.next hex₁ hs⟩
    exact ⟨hcore, hshared⟩

/-- The handler comes in while the guard is dropped. -/
theorem irqSafe_deadlock_two :
    ∃ s : Cores.State Unit Bool IrqSafePc, (irqSafeSystem Unit).Reach Runs.anyStep s ∧
      s.core () = ⟨true, .spin (some true), [.release (some false)]⟩ ∧
      ∀ s', ((irqSafeSystem Unit).after s).Reach Runs.anyStep s' →
        s'.core () = s.core () ∧ s'.shared = true := by
  have hrun := Runs.System.Exec.replay (M := irqSafeSystem Unit)
    (G := fun _ _ => true) (fun _ _ _ h => h) (s := ⟨false, fun _ => ⟨false, .idle, []⟩⟩)
    (.init ⟨rfl, fun _ => ⟨rfl, rfl⟩⟩)
    (rfl : Runs.replay _ (fun _ _ => true) _ ([.run .lockIrqsave, .run .access, .run .access,
      .run .access, .run .drop, .run .access, .interrupt, .run .lockIrqsave, .run .access,
      .run .access].map fun x => ((), x)) = some _)
  exact ⟨_, ⟨_, hrun.free⟩, rfl, (irqSafe_deadlock ⟨_, hrun.free⟩ ()).2 ⟨true, rfl⟩
    ⟨.release (some false), List.mem_singleton_self _, rfl⟩⟩

end StarOS
