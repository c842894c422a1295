/-
TLB shootdown (`memory/tlb.rs`): flushing a page on all cores by an interrupt to the others.

A caller writes its request to one shared record, sets `pending`, interrupts all other cores,
flushes its own TLB and waits until as many acknowledgements have been counted as there are cores.
A handler that finds `pending` set reads the request, flushes, and adds one to the counter.  Every
access to the record is one atomic step here, the steps of the cores interleave in any order, and an
interrupt that has been raised may be delivered at any later time and any number of times.  A flush
counts for the core that executes it.

The record does not say whose request it holds, and the counter not who has acknowledged.  When no
call begins before the others have left their wait, and no handler answers a request twice or
answers its own core, every core has flushed when a call for a page returns.  A call to flush
everything never meets its purpose on the calling core, which flushes one page only.

* `StarOS.TlbShootdown`, `StarOS.TlbCall`, `StarOS.CallPc`, `StarOS.HandlerPc`, `StarOS.TlbState` —
  the record, the calls, the program counters, and the state;
* `StarOS.TlbState.callAccess`, `StarOS.TlbState.handlerAccess`, `StarOS.tlbSystem` — the atomic
  steps, and the runs from idle cores;
* `StarOS.Orderly` — the condition on the state before a step;
* `StarOS.TlbState.Sound` — the invariant;
* `StarOS.tlb_shootdown_completes` — in orderly runs every core has flushed when a call returns;
* `StarOS.tlb_flushAll_returns_early` — a call to flush everything that returns without it.
-/

import StarOS.Counting
import StarOS.Runs
import StarOS.Word
import Mathlib.Tactic.Cases

set_option autoImplicit false

namespace StarOS

/-! ### Requests and flushes -/

/-- The shared request record `SHOOTDOWN`. -/
structure TlbShootdown where
  /-- The address to invalidate; `0` asks for everything. -/
  targetAddr : Usize
  /-- The address space to invalidate. -/
  asid : BitVec 8
  /-- The number of cores that have flushed. -/
  ackCount : BitVec 8
  /-- The number of cores that have to answer. -/
  targetCores : BitVec 8
  /-- Whether a request is pending. -/
  pending : BitVec 8
  deriving DecidableEq, Repr

/-- What a flush invalidates: the entries that an operand of `tlbi` names, or all. -/
inductive Flush where
  | page (operand : Usize)
  | all
  deriving DecidableEq, Repr

/-- The first flush invalidates everything that the second does. -/
def Flush.covers : Flush → Flush → Bool
  | .all, _ => true
  | .page x, .page y => x == y
  | .page _, .all => false

/-- The operand of `tlbi` for a page of an address space. -/
def tlbiOperand (vaddr : Usize) (asid : BitVec 8) : Usize :=
  (vaddr >>> 12) ||| (asid.setWidth 64 <<< 48)

/-- `local_tlb_flush_page`. -/
def localTlbFlushPage (vaddr : Usize) (asid : BitVec 8) : Flush := .page (tlbiOperand vaddr asid)

/-- `local_tlb_flush_all`. -/
def localTlbFlushAll : Flush := .all

/-- The flush of the handler: everything if the address is `0`. -/
def handlerFlush (addr : Usize) (asid : BitVec 8) : Flush :=
  if addr = 0#64 then localTlbFlushAll else localTlbFlushPage addr asid

/-- The calls of a caller. -/
inductive TlbCall where
  | tlbFlushPageAll (vaddr : Usize) (asid : BitVec 8)
  | tlbFlushAll
  deriving DecidableEq, Repr

namespace TlbCall

/-- The address a call passes on; `tlb_flush_all` is `tlb_flush_page_all(0, 0)`. -/
def vaddr : TlbCall → Usize
  | tlbFlushPageAll v _ => v
  | tlbFlushAll => 0#64

/-- The address space a call passes on. -/
def asid : TlbCall → BitVec 8
  | tlbFlushPageAll _ a => a
  | tlbFlushAll => 0#8

/-- What has to be flushed on every core before the call returns. -/
def wanted : TlbCall → Flush
  | tlbFlushPageAll v a => .page (tlbiOperand v a)
  | tlbFlushAll => .all

/-- The caller's own flush covers a call for a page. -/
theorem covers_localTlbFlushPage {c : TlbCall} (h : c ≠ tlbFlushAll) :
    (localTlbFlushPage c.vaddr c.asid).covers c.wanted = true := by
  cases c with
  | tlbFlushPageAll v a => exact beq_self_eq_true _
  | tlbFlushAll => exact absurd rfl h

/-- The handler's flush covers a call for a page. -/
theorem covers_handlerFlush {c : TlbCall} (h : c ≠ tlbFlushAll) :
    (handlerFlush c.vaddr c.asid).covers c.wanted = true := by
  unfold handlerFlush
  split
  · rfl
  · exact covers_localTlbFlushPage h

end TlbCall

/-! ### Cores -/

/-- Where a caller stands in `tlb_flush_page_all`: the access it is about to make. -/
inductive CallPc where
  /-- No call in flight. -/
  | idle
  | storeAddr
  | storeAsid
  | storeAck
  | storeTarget
  | storePending
  | sendIpi
  | flush
  | addAck
  | loadTarget
  /-- The wait loop. -/
  | loadAck (target : BitVec 8)
  /-- The last store, after which the call returns. -/
  | clearPending
  deriving DecidableEq, Repr

/-- Where a core stands in `tlb_shootdown_ipi_handler`, after it has found `pending` set. -/
inductive HandlerPc where
  /-- The handler is not running. -/
  | idle
  | loadAddr
  | loadAsid (addr : Usize)
  | flush (addr : Usize) (asid : BitVec 8)
  | addAck
  deriving DecidableEq, Repr

/-- A core: its call, where it stands, its handler, and whether an interrupt has been sent to it. -/
structure Core where
  call : TlbCall
  pc : CallPc
  handler : HandlerPc
  raised : Bool
  deriving DecidableEq, Repr

/-- The record, the cores, and what has happened: `flushed i j` says that core `j` has flushed what
the call of core `i` asks for since that call began, and `entered j` that core `j` has found
`pending` set since it was last set, or has set it. -/
structure TlbState (n : BitVec 8) where
  shootdown : TlbShootdown
  core : Fin n.toNat → Core
  flushed : Fin n.toNat → Fin n.toNat → Bool
  entered : Fin n.toNat → Bool

/-- The steps: a call begins, a caller makes its next access, an interrupt is delivered (and
`pending` loaded), a handler makes its next access. -/
inductive TlbStep (n : BitVec 8) where
  | call (i : Fin n.toNat) (c : TlbCall)
  | access (i : Fin n.toNat)
  | interrupt (i : Fin n.toNat)
  | handle (i : Fin n.toNat)

namespace TlbState

variable {n : BitVec 8}

/-- All cores idle. -/
def start (n : BitVec 8) : TlbState n where
  shootdown := ⟨0#64, 0#8, 0#8, 0#8, 0#8⟩
  core := fun _ => ⟨.tlbFlushAll, .idle, .idle, false⟩
  flushed := fun _ _ => false
  entered := fun _ => false

/-- Moving a caller on. -/
def setPc (s : TlbState n) (i : Fin n.toNat) (pc : CallPc) : TlbState n :=
  { s with core := Function.update s.core i { s.core i with pc := pc } }

/-- Moving a handler on. -/
def setHandler (s : TlbState n) (i : Fin n.toNat) (h : HandlerPc) : TlbState n :=
  { s with core := Function.update s.core i { s.core i with handler := h } }

/-- Writing the record. -/
def setShootdown (s : TlbState n) (r : TlbShootdown) : TlbState n := { s with shootdown := r }

/-- Writing what has been recorded of the cores that found `pending` set. -/
def setEntered (s : TlbState n) (e : Fin n.toNat → Bool) : TlbState n := { s with entered := e }

/-- `send_ipi_all_others`. -/
def sendIpiAllOthers (s : TlbState n) (i : Fin n.toNat) : TlbState n :=
  { s with core := fun j => if j = i then s.core j else { s.core j with raised := true } }

/-- Core `j` executes a flush. -/
def flushOn (s : TlbState n) (j : Fin n.toNat) (f : Flush) : TlbState n :=
  { s with flushed := fun i k =>
      s.flushed i k || (decide (k = j) && f.covers (s.core i).call.wanted) }

/-- The next access of `tlb_flush_page_all` on core `i`. -/
def callAccess (s : TlbState n) (i : Fin n.toNat) : TlbState n :=
  let r := s.shootdown
  let c := (s.core i).call
  match (s.core i).pc with
  | .idle => s
  | .storeAddr => (s.setShootdown { r with targetAddr := c.vaddr }).setPc i .storeAsid
  | .storeAsid => (s.setShootdown { r with asid := c.asid }).setPc i .storeAck
  | .storeAck => (s.setShootdown { r with ackCount := 0#8 }).setPc i .storeTarget
  | .storeTarget => (s.setShootdown { r with targetCores := n }).setPc i .storePending
  | .storePending =>
      ((s.setShootdown { r with pending := 1#8 }).setEntered fun j => decide (j = i)).setPc i
        .sendIpi
  | .sendIpi => (s.sendIpiAllOthers i).setPc i .flush
  | .flush => (s.flushOn i (localTlbFlushPage c.vaddr c.asid)).setPc i .addAck
  | .addAck => (s.setShootdown { r with ackCount := r.ackCount + 1#8 }).setPc i .loadTarget
  | .loadTarget => s.setPc i (.loadAck r.targetCores)
  | .loadAck target => if r.ackCount < target then s else s.setPc i .clearPending
  | .clearPending => (s.setShootdown { r with pending := 0#8 }).setPc i .idle

/-- The next access of `tlb_shootdown_ipi_handler` on core `i`. -/
def handlerAccess (s : TlbState n) (i : Fin n.toNat) : TlbState n :=
  let r := s.shootdown
  match (s.core i).handler with
  | .idle => s
  | .loadAddr => s.setHandler i (.loadAsid r.targetAddr)
  | .loadAsid addr => s.setHandler i (.flush addr r.asid)
  | .flush addr asid => (s.flushOn i (handlerFlush addr asid)).setHandler i .addAck
  | .addAck => (s.setShootdown { r with ackCount := r.ackCount + 1#8 }).setHandler i .idle

/-- A call begins: nothing has been flushed for it. -/
def beginCall (s : TlbState n) (i : Fin n.toNat) (c : TlbCall) : TlbState n :=
  { s with core := Function.update s.core i { s.core i with call := c, pc := .storeAddr }
           flushed := Function.update s.flushed i fun _ => false }

/-- An interrupt is delivered: the handler returns at once unless it finds `pending` set. -/
def deliver (s : TlbState n) (i : Fin n.toNat) : TlbState n :=
  if s.shootdown.pending = 0#8 then s
  else (s.setEntered (Function.update s.entered i true)).setHandler i .loadAddr

/-- The state after a step, where the step is possible.  A handler interrupts the call of its own
core. -/
def next (s : TlbState n) : TlbStep n → Option (TlbState n)
  | .call i c =>
      if (s.core i).pc = .idle ∧ (s.core i).handler = .idle then some (s.beginCall i c) else none
  | .access i =>
      if (s.core i).pc ≠ .idle ∧ (s.core i).handler = .idle then some (s.callAccess i) else none
  | .interrupt i =>
      if (s.core i).raised = true ∧ (s.core i).handler = .idle then some (s.deliver i) else none
  | .handle i => if (s.core i).handler ≠ .idle then some (s.handlerAccess i) else none

end TlbState

/-- The runs of `n` cores, all idle at first. -/
def tlbSystem (n : BitVec 8) : Runs.System (TlbState n) (TlbStep n) where
  init := fun s => s = TlbState.start n
  step := fun s a s' => s.next a = some s'

/-- The position of an access in the call. -/
def CallPc.rank : CallPc → ℕ
  | idle => 0
  | storeAddr => 1
  | storeAsid => 2
  | storeAck => 3
  | storeTarget => 4
  | storePending => 5
  | sendIpi => 6
  | flush => 7
  | addAck => 8
  | loadTarget => 9
  | loadAck _ => 10
  | clearPending => 11

/-- The call has begun and has not yet left its wait. -/
def CallPc.Active (pc : CallPc) : Prop := 1 ≤ pc.rank ∧ pc.rank ≤ 10

instance (pc : CallPc) : Decidable pc.Active := inferInstanceAs (Decidable (_ ∧ _))

/-- What a handler has read is the request of the call, and behind its flush the request is
flushed. -/
def HandlerPc.Serves (h : HandlerPc) (c : TlbCall) (done : Bool) : Prop :=
  match h with
  | idle => True
  | loadAddr => True
  | loadAsid addr => addr = c.vaddr
  | flush addr asid => addr = c.vaddr ∧ asid = c.asid
  | addAck => done = true

/-- The steps that keep requests apart: only pages are asked for, no call begins before the others
have left their wait, and a handler finds `pending` set only if its core has not done so since it
was last set and did not set it. -/
def Orderly {n : BitVec 8} (s : TlbState n) : TlbStep n → Prop
  | .call i c => c ≠ .tlbFlushAll ∧ ∀ j, j ≠ i → ¬ (s.core j).pc.Active
  | .interrupt i => s.shootdown.pending ≠ 0#8 → s.entered i = false
  | .access _ => True
  | .handle _ => True

instance {n : BitVec 8} (s : TlbState n) (a : TlbStep n) : Decidable (Orderly s a) :=
  match a with
  | .call _ _ => inferInstanceAs (Decidable (_ ∧ _))
  | .interrupt _ => inferInstanceAs (Decidable (_ → _))
  | .access _ => inferInstanceAs (Decidable True)
  | .handle _ => inferInstanceAs (Decidable True)

/-! ### What a step changes -/

namespace TlbState

variable {n : BitVec 8} {s : TlbState n} {i j k : Fin n.toNat}

@[simp] theorem setPc_pc_self (s : TlbState n) (i : Fin n.toNat) (pc : CallPc) :
    ((s.setPc i pc).core i).pc = pc := by
  rw [setPc]
  dsimp only
  rw [Function.update_self]

theorem setPc_pc_of_ne (s : TlbState n) (pc : CallPc) (h : j ≠ i) :
    ((s.setPc i pc).core j).pc = (s.core j).pc := by
  rw [setPc]
  dsimp only
  rw [Function.update_of_ne h]

@[simp] theorem setPc_handler (s : TlbState n) (i j : Fin n.toNat) (pc : CallPc) :
    ((s.setPc i pc).core j).handler = (s.core j).handler := by
  rw [setPc]
  dsimp only
  by_cases h : j = i
  · rw [h, Function.update_self]
  · rw [Function.update_of_ne h]

@[simp] theorem setPc_call (s : TlbState n) (i j : Fin n.toNat) (pc : CallPc) :
    ((s.setPc i pc).core j).call = (s.core j).call := by
  rw [setPc]
  dsimp only
  by_cases h : j = i
  · rw [h, Function.update_self]
  · rw [Function.update_of_ne h]

@[simp] theorem setPc_shootdown (s : TlbState n) (i : Fin n.toNat) (pc : CallPc) :
    (s.setPc i pc).shootdown = s.shootdown := rfl

@[simp] theorem setPc_flushed (s : TlbState n) (i : Fin n.toNat) (pc : CallPc) :
    (s.setPc i pc).flushed = s.flushed := rfl

@[simp] theorem setPc_entered (s : TlbState n) (i : Fin n.toNat) (pc : CallPc) :
    (s.setPc i pc).entered = s.entered := rfl

@[simp] theorem setHandler_handler_self (s : TlbState n) (i : Fin n.toNat) (h : HandlerPc) :
    ((s.setHandler i h).core i).handler = h := by
  rw [setHandler]
  dsimp only
  rw [Function.update_self]

theorem setHandler_handler_of_ne (s : TlbState n) (h : HandlerPc) (hne : j ≠ i) :
    ((s.setHandler i h).core j).handler = (s.core j).handler := by
  rw [setHandler]
  dsimp only
  rw [Function.update_of_ne hne]

@[simp] theorem setHandler_pc (s : TlbState n) (i j : Fin n.toNat) (h : HandlerPc) :
    ((s.setHandler i h).core j).pc = (s.core j).pc := by
  rw [setHandler]
  dsimp only
  by_cases hj : j = i
  · rw [hj, Function.update_self]
  · rw [Function.update_of_ne hj]

@[simp] theorem setHandler_call (s : TlbState n) (i j : Fin n.toNat) (h : HandlerPc) :
    ((s.setHandler i h).core j).call = (s.core j).call := by
  rw [setHandler]
  dsimp only
  by_cases hj : j = i
  · rw [hj, Function.update_self]
  · rw [Function.update_of_ne hj]

@[simp] theorem setHandler_shootdown (s : TlbState n) (i : Fin n.toNat) (h : HandlerPc) :
    (s.setHandler i h).shootdown = s.shootdown := rfl

@[simp] theorem setHandler_flushed (s : TlbState n) (i : Fin n.toNat) (h : HandlerPc) :
    (s.setHandler i h).flushed = s.flushed := rfl

@[simp] theorem setHandler_entered (s : TlbState n) (i : Fin n.toNat) (h : HandlerPc) :
    (s.setHandler i h).entered = s.entered := rfl

@[simp] theorem setShootdown_core (s : TlbState n) (r : TlbShootdown) :
    (s.setShootdown r).core = s.core := rfl

@[simp] theorem setShootdown_shootdown (s : TlbState n) (r : TlbShootdown) :
    (s.setShootdown r).shootdown = r := rfl

@[simp] theorem setShootdown_flushed (s : TlbState n) (r : TlbShootdown) :
    (s.setShootdown r).flushed = s.flushed := rfl

@[simp] theorem setShootdown_entered (s : TlbState n) (r : TlbShootdown) :
    (s.setShootdown r).entered = s.entered := rfl

@[simp] theorem setEntered_core (s : TlbState n) (e : Fin n.toNat → Bool) :
    (s.setEntered e).core = s.core := rfl

@[simp] theorem setEntered_shootdown (s : TlbState n) (e : Fin n.toNat → Bool) :
    (s.setEntered e).shootdown = s.shootdown := rfl

@[simp] theorem setEntered_flushed (s : TlbState n) (e : Fin n.toNat → Bool) :
    (s.setEntered e).flushed = s.flushed := rfl

@[simp] theorem setEntered_entered (s : TlbState n) (e : Fin n.toNat → Bool) :
    (s.setEntered e).entered = e := rfl

@[simp] theorem sendIpi_pc (s : TlbState n) (i j : Fin n.toNat) :
    ((s.sendIpiAllOthers i).core j).pc = (s.core j).pc := by
  rw [sendIpiAllOthers]
  dsimp only
  split
  · rfl
  · rfl

@[simp] theorem sendIpi_handler (s : TlbState n) (i j : Fin n.toNat) :
    ((s.sendIpiAllOthers i).core j).handler = (s.core j).handler := by
  rw [sendIpiAllOthers]
  dsimp only
  split
  · rfl
  · rfl

@[simp] theorem sendIpi_call (s : TlbState n) (i j : Fin n.toNat) :
    ((s.sendIpiAllOthers i).core j).call = (s.core j).call := by
  rw [sendIpiAllOthers]
  dsimp only
  split
  · rfl
  · rfl

@[simp] theorem flushOn_core (s : TlbState n) (j : Fin n.toNat) (f : Flush) :
    (s.flushOn j f).core = s.core := rfl

@[simp] theorem flushOn_shootdown (s : TlbState n) (j : Fin n.toNat) (f : Flush) :
    (s.flushOn j f).shootdown = s.shootdown := rfl

@[simp] theorem flushOn_entered (s : TlbState n) (j : Fin n.toNat) (f : Flush) :
    (s.flushOn j f).entered = s.entered := rfl

/-- A flush is not forgotten. -/
theorem flushed_flushOn (s : TlbState n) (k : Fin n.toNat) (f : Flush)
    (h : s.flushed i j = true) : (s.flushOn k f).flushed i j = true := by
  rw [flushOn]
  dsimp only
  rw [h, Bool.true_or]

theorem flushOn_self (s : TlbState n) (j : Fin n.toNat) {f : Flush}
    (h : f.covers (s.core i).call.wanted = true) : (s.flushOn j f).flushed i j = true := by
  rw [flushOn]
  dsimp only
  rw [h, decide_eq_true rfl, Bool.and_true, Bool.or_true]

/-! ### The invariant -/

/-- No handler runs, and none could find `pending` set and be the first on its core. -/
def Quiet (s : TlbState n) : Prop :=
  (∀ j, (s.core j).handler = .idle) ∧
    (s.shootdown.pending ≠ 0#8 → ∀ j, s.entered j = true)

/-- A core has acknowledged the call of core `i`: the caller by its own `fetch_add`, another core by
the end of its handler. -/
def acked (s : TlbState n) (i j : Fin n.toNat) : Bool :=
  if j = i then decide (9 ≤ (s.core i).pc.rank)
  else s.entered j && decide ((s.core j).handler = .idle)

/-- The call of core `i` writes its request, and no handler runs. -/
structure Preparing (s : TlbState n) (i : Fin n.toNat) : Prop where
  rank : 1 ≤ (s.core i).pc.rank ∧ (s.core i).pc.rank ≤ 5
  page : (s.core i).call ≠ .tlbFlushAll
  addr : 2 ≤ (s.core i).pc.rank → s.shootdown.targetAddr = (s.core i).call.vaddr
  asid : 3 ≤ (s.core i).pc.rank → s.shootdown.asid = (s.core i).call.asid
  zero : 4 ≤ (s.core i).pc.rank → s.shootdown.ackCount = 0#8
  target : 5 ≤ (s.core i).pc.rank → s.shootdown.targetCores = n
  quiet : s.Quiet

/-- The request of core `i` is published: the record holds it, running handlers serve it, whoever
has acknowledged it has flushed, and the counter counts these cores. -/
structure Published (s : TlbState n) (i : Fin n.toNat) : Prop where
  rank : 6 ≤ (s.core i).pc.rank ∧ (s.core i).pc.rank ≤ 10
  page : (s.core i).call ≠ .tlbFlushAll
  addr : s.shootdown.targetAddr = (s.core i).call.vaddr
  asid : s.shootdown.asid = (s.core i).call.asid
  target : s.shootdown.targetCores = n
  loaded : ∀ t, (s.core i).pc = .loadAck t → t = n
  entered : s.entered i = true
  running : ∀ j, (s.core j).handler ≠ .idle → j ≠ i ∧ s.entered j = true
  serves : ∀ j, (s.core j).handler.Serves (s.core i).call (s.flushed i j)
  own : 8 ≤ (s.core i).pc.rank → s.flushed i i = true
  served : ∀ j, j ≠ i → s.acked i j = true → s.flushed i j = true
  count : s.shootdown.ackCount.toNat = (Finset.univ.filter fun j => s.acked i j = true).card

/-- The invariant: whoever is about to return has its request flushed on every core, and at most one
call has begun and not left its wait, which is writing its request or has published it. -/
structure Sound (s : TlbState n) : Prop where
  returning : ∀ i, (s.core i).pc = .clearPending → ∀ j, s.flushed i j = true
  phase : ((∀ i, ¬ (s.core i).pc.Active) ∧ s.Quiet) ∨
    ∃ i, (∀ j, j ≠ i → ¬ (s.core j).pc.Active) ∧ (s.Preparing i ∨ s.Published i)

theorem sound_start (n : BitVec 8) : (start n).Sound where
  returning := fun _ h => absurd h (by simp [start])
  phase := Or.inl ⟨fun _ h => absurd h (by simp [start, CallPc.Active, CallPc.rank]),
    fun _ => rfl, fun h => absurd rfl h⟩

/-! ### Steps of a caller -/

/-- An access of one core leaves the others where they are. -/
theorem callAccess_pc_of_ne (s : TlbState n) (h : j ≠ i) :
    ((s.callAccess i).core j).pc = (s.core j).pc := by
  unfold callAccess
  cases hpc : (s.core i).pc with
  | idle => rfl
  | storePending => simp [setPc_pc_of_ne _ _ h]
  | loadAck t =>
      dsimp only
      split
      · rfl
      · exact setPc_pc_of_ne _ _ h
  | _ => simp [setPc_pc_of_ne _ _ h]

/-- An access of a caller forgets no flush. -/
theorem flushed_callAccess (s : TlbState n) (k : Fin n.toNat) (h : s.flushed i j = true) :
    (s.callAccess k).flushed i j = true := by
  unfold callAccess
  cases hpc : (s.core k).pc with
  | flush => exact flushed_flushOn s k _ h
  | loadAck t =>
      dsimp only
      split
      · exact h
      · exact h
  | _ => exact h

/-- The first call among idle cores. -/
theorem Sound.beginCall (h : s.Sound) {c : TlbCall} (hc : c ≠ .tlbFlushAll)
    (hothers : ∀ j, j ≠ i → ¬ (s.core j).pc.Active) (hidle : (s.core i).pc = .idle) :
    (s.beginCall i c).Sound := by
  have hquiet : s.Quiet := by
    rcases h.phase with ⟨-, hq⟩ | ⟨a, -, hp⟩
    · exact hq
    · -- an active call would be the one that is beginning
      have hact : (s.core a).pc.Active := by
        rcases hp with hp | hp
        · exact ⟨hp.rank.1, hp.rank.2.trans (by decide)⟩
        · exact ⟨le_trans (by decide) hp.rank.1, hp.rank.2⟩
      by_cases ha : a = i
      · rw [ha, hidle] at hact
        exact absurd hact (by decide)
      · exact absurd hact (hothers a ha)
  have hself : (s.beginCall i c).core i = { s.core i with call := c, pc := .storeAddr } := by
    rw [TlbState.beginCall]
    exact Function.update_self ..
  have hof : ∀ j, j ≠ i → (s.beginCall i c).core j = s.core j := fun j hj =>
    Function.update_of_ne hj ..
  refine ⟨fun k hk j => ?_, Or.inr ⟨i, fun j hj => ?_, Or.inl ?_⟩⟩
  · by_cases hki : k = i
    · rw [hki, hself] at hk
      exact absurd hk (by simp)
    · rw [hof k hki] at hk
      have hrow : (s.beginCall i c).flushed k = s.flushed k := Function.update_of_ne hki ..
      rw [hrow]
      exact h.returning k hk j
  · rw [hof j hj]
    exact hothers j hj
  · have hrank : ((s.beginCall i c).core i).pc.rank = 1 := by rw [hself]; rfl
    refine ⟨by omega, ?_, by omega, by omega, by omega, by omega, fun j => ?_, hquiet.2⟩
    · rw [hself]
      exact hc
    · by_cases hj : j = i
      · rw [hj, hself]
        exact hquiet.1 i
      · rw [hof j hj]
        exact hquiet.1 j

/-- Writing the request: the next field, and at the end `pending`. -/
theorem Preparing.callAccess (h : s.Preparing i) :
    (s.callAccess i).Preparing i ∨ (s.callAccess i).Published i := by
  have hrank := h.rank
  cases hpc : (s.core i).pc with
  | storeAddr =>
      rw [TlbState.callAccess, hpc]
      exact Or.inl ⟨by simp [CallPc.rank], by simpa using h.page, fun _ => by simp,
        by simp [CallPc.rank], by simp [CallPc.rank], by simp [CallPc.rank],
        fun j => by simpa using h.quiet.1 j, h.quiet.2⟩
  | storeAsid =>
      have haddr := h.addr (by rw [hpc]; decide)
      rw [TlbState.callAccess, hpc]
      exact Or.inl ⟨by simp [CallPc.rank], by simpa using h.page, fun _ => by simpa using haddr,
        fun _ => by simp, by simp [CallPc.rank], by simp [CallPc.rank],
        fun j => by simpa using h.quiet.1 j, h.quiet.2⟩
  | storeAck =>
      have haddr := h.addr (by rw [hpc]; decide)
      have hasid := h.asid (by rw [hpc]; decide)
      rw [TlbState.callAccess, hpc]
      exact Or.inl ⟨by simp [CallPc.rank], by simpa using h.page, fun _ => by simpa using haddr,
        fun _ => by simpa using hasid, fun _ => rfl, by simp [CallPc.rank],
        fun j => by simpa using h.quiet.1 j, h.quiet.2⟩
  | storeTarget =>
      have haddr := h.addr (by rw [hpc]; decide)
      have hasid := h.asid (by rw [hpc]; decide)
      have hzero := h.zero (by rw [hpc]; decide)
      rw [TlbState.callAccess, hpc]
      exact Or.inl ⟨by simp [CallPc.rank], by simpa using h.page, fun _ => by simpa using haddr,
        fun _ => by simpa using hasid, fun _ => hzero, fun _ => rfl,
        fun j => by simpa using h.quiet.1 j, h.quiet.2⟩
  | storePending =>
      have haddr := h.addr (by rw [hpc]; decide)
      have hasid := h.asid (by rw [hpc]; decide)
      have hzero := h.zero (by rw [hpc]; decide)
      have htarget := h.target (by rw [hpc]; decide)
      rw [TlbState.callAccess, hpc]
      dsimp only
      -- nobody has acknowledged: the caller has not added, and no other core has entered
      have hacked : ∀ j, acked (((s.setShootdown { s.shootdown with pending := 1#8 }).setEntered
          fun j => decide (j = i)).setPc i .sendIpi) i j = false := by
        intro j
        unfold acked
        by_cases hj : j = i
        · simp [hj, CallPc.rank]
        · simp [hj]
      refine Or.inr ⟨by simp [CallPc.rank], by simpa using h.page, by simpa using haddr,
        by simpa using hasid, htarget, fun t ht => ?_, by simp, fun j hj => ?_, fun j => ?_,
        by simp [CallPc.rank], fun j _ hj => ?_, ?_⟩
      · rw [setPc_pc_self] at ht
        exact absurd ht (by simp)
      · exact absurd (h.quiet.1 j) (by simpa using hj)
      · have hidle := h.quiet.1 j
        rw [setPc_handler, setEntered_core, setShootdown_core, hidle]
        trivial
      · rw [hacked j] at hj
        exact absurd hj (by decide)
      · have hcount : s.shootdown.ackCount.toNat = 0 := by rw [hzero]; rfl
        simp only [hacked]
        simpa using hcount
  | _ =>
      -- the other accesses are not made while the request is written
      rw [hpc] at hrank
      exact absurd hrank (by simp [CallPc.rank])

/-- Moving on without a change to the request or the acknowledgements. -/
theorem Published.move (h : s.Published i) {s' : TlbState n}
    (hrec : s'.shootdown = { s.shootdown with pending := s'.shootdown.pending })
    (hent : s'.entered = s.entered)
    (hhandler : ∀ j, (s'.core j).handler = (s.core j).handler)
    (hcall : (s'.core i).call = (s.core i).call)
    (hflushed : ∀ j, s.flushed i j = true → s'.flushed i j = true)
    (hrank : 6 ≤ (s'.core i).pc.rank ∧ (s'.core i).pc.rank ≤ 10)
    (hack : 9 ≤ (s'.core i).pc.rank ↔ 9 ≤ (s.core i).pc.rank)
    (hown : 8 ≤ (s'.core i).pc.rank → s'.flushed i i = true)
    (hloaded : ∀ t, (s'.core i).pc = .loadAck t → t = n) : s'.Published i := by
  have hacked : ∀ j, s'.acked i j = s.acked i j := by
    intro j
    unfold acked
    rw [hent, hhandler, decide_eq_decide.2 hack]
  refine ⟨hrank, by rw [hcall]; exact h.page, by rw [hrec, hcall]; exact h.addr,
    by rw [hrec, hcall]; exact h.asid, by rw [hrec]; exact h.target, hloaded,
    by rw [hent]; exact h.entered, fun j hj => ?_, fun j => ?_, hown, fun j hji hj => ?_, ?_⟩
  · rw [hhandler] at hj
    rw [hent]
    exact h.running j hj
  · have hserves := h.serves j
    rw [hhandler, hcall]
    cases hh : (s.core j).handler with
    | addAck =>
        rw [hh] at hserves
        exact hflushed j hserves
    | _ =>
        rw [hh] at hserves
        exact hserves
  · rw [hacked] at hj
    exact hflushed j (h.served j hji hj)
  · have hcount : s'.shootdown.ackCount = s.shootdown.ackCount := by rw [hrec]
    rw [hcount, h.count]
    simp only [hacked]

/-- If the counter has reached the number of cores, every core has acknowledged. -/
theorem Published.all_acked (h : s.Published i) (hge : n.toNat ≤ s.shootdown.ackCount.toNat)
    (j : Fin n.toNat) : s.acked i j = true := by
  have hcard : (Finset.univ.filter fun j => s.acked i j = true).card =
      Fintype.card (Fin n.toNat) := by
    refine le_antisymm (Finset.card_le_univ _) ?_
    rw [Fintype.card_fin, ← h.count]
    exact hge
  have hmem : j ∈ Finset.univ.filter fun j => s.acked i j = true := by
    rw [(Finset.card_eq_iff_eq_univ _).1 hcard]
    exact Finset.mem_univ j
  exact (Finset.mem_filter.1 hmem).2

/-- One more acknowledgement does not overflow the counter. -/
theorem Published.count_succ (h : s.Published i) {q : Fin n.toNat → Bool} {c : Fin n.toNat}
    (hsame : ∀ j, j ≠ c → q j = s.acked i j) (hp : s.acked i c = false) (hq : q c = true) :
    (s.shootdown.ackCount + 1#8).toNat = (Finset.univ.filter fun j => q j = true).card := by
  have hsucc := Counting.card_filter_succ hsame hp hq
  have hle : (Finset.univ.filter fun j => q j = true).card ≤ n.toNat := by
    have := Finset.card_le_univ (Finset.univ.filter fun j => q j = true)
    rwa [Fintype.card_fin] at this
  have hlt := n.isLt
  rw [BitVec.toNat_add, BitVec.toNat_ofNat, h.count]
  omega

/-- The published call moves on, or leaves its wait with its request flushed on every core. -/
theorem Published.callAccess (h : s.Published i) (hhandler : (s.core i).handler = .idle) :
    (s.callAccess i).Published i ∨
      ((s.callAccess i).core i).pc = .clearPending ∧ (s.callAccess i).Quiet ∧
        ∀ j, (s.callAccess i).flushed i j = true := by
  have hrank := h.rank
  cases hpc : (s.core i).pc with
  | sendIpi =>
      rw [TlbState.callAccess, hpc]
      refine Or.inl (h.move rfl rfl (fun j => by simp) (by simp) (fun _ hj => hj)
        (by simp [CallPc.rank]) (by simp [CallPc.rank, hpc]) (by simp [CallPc.rank]) ?_)
      intro t ht
      rw [setPc_pc_self] at ht
      exact absurd ht (by simp)
  | flush =>
      rw [TlbState.callAccess, hpc]
      refine Or.inl (h.move rfl rfl (fun j => by simp) (by simp)
        (fun j hj => flushed_flushOn s i _ hj) (by simp [CallPc.rank])
        (by simp [CallPc.rank, hpc]) (fun _ => ?_) ?_)
      · exact flushOn_self s i (TlbCall.covers_localTlbFlushPage h.page)
      · intro t ht
        rw [setPc_pc_self] at ht
        exact absurd ht (by simp)
  | addAck =>
      have hown := h.own (by rw [hpc]; decide)
      rw [TlbState.callAccess, hpc]
      dsimp only
      have hothers : ∀ j, j ≠ i → acked ((s.setShootdown
          { s.shootdown with ackCount := s.shootdown.ackCount + 1#8 }).setPc i .loadTarget) i j =
            s.acked i j := by
        intro j hj
        simp [acked, hj]
      have hself : s.acked i i = false := by simp [acked, hpc, CallPc.rank]
      refine Or.inl ⟨by simp [CallPc.rank], by simpa using h.page, by simpa using h.addr,
        by simpa using h.asid, h.target, fun t ht => ?_, h.entered,
        fun j hj => h.running j (by simpa using hj), fun j => by simpa using h.serves j,
        fun _ => hown, fun j hji hj => ?_, ?_⟩
      · rw [setPc_pc_self] at ht
        exact absurd ht (by simp)
      · rw [hothers j hji] at hj
        exact h.served j hji hj
      · exact h.count_succ hothers hself (by simp [acked, CallPc.rank])
  | loadTarget =>
      have hown := h.own (by rw [hpc]; decide)
      rw [TlbState.callAccess, hpc]
      refine Or.inl (h.move rfl rfl (fun j => by simp) (by simp) (fun _ hj => hj)
        (by simp [CallPc.rank]) (by simp [CallPc.rank, hpc]) (fun _ => hown) ?_)
      intro t ht
      rw [setPc_pc_self, CallPc.loadAck.injEq] at ht
      rw [← ht]
      exact h.target
  | loadAck t =>
      have hown := h.own (by rw [hpc]; simp [CallPc.rank])
      rw [TlbState.callAccess, hpc]
      dsimp only
      by_cases hlt : s.shootdown.ackCount < t
      · rw [if_pos hlt]
        exact Or.inl h
      · -- the wait ends: every core has acknowledged
        rw [if_neg hlt, h.loaded t hpc] at *
        have hall := h.all_acked (not_lt.1 hlt)
        refine Or.inr ⟨setPc_pc_self .., ⟨fun j => ?_, fun _ j => ?_⟩, fun j => ?_⟩
        · rw [setPc_handler]
          by_cases hj : j = i
          · rw [hj]
            exact hhandler
          · have hack := hall j
            rw [acked, if_neg hj, Bool.and_eq_true, decide_eq_true_eq] at hack
            exact hack.2
        · by_cases hj : j = i
          · rw [hj]
            exact h.entered
          · have hack := hall j
            rw [acked, if_neg hj, Bool.and_eq_true] at hack
            exact hack.1
        · by_cases hj : j = i
          · rw [hj]
            exact hown
          · exact h.served j hj (hall j)
  | _ =>
      rw [hpc] at hrank
      exact absurd hrank (by simp [CallPc.rank])

/-- A caller that is about to return stays so, with its request flushed, unless it is the one that
moves. -/
theorem Sound.returning_callAccess (h : s.Sound)
    (hself : ((s.callAccess i).core i).pc = .clearPending →
      ∀ j, (s.callAccess i).flushed i j = true)
    (hk : ((s.callAccess i).core k).pc = .clearPending) (j : Fin n.toNat) :
    (s.callAccess i).flushed k j = true := by
  by_cases hki : k = i
  · rw [hki] at hk ⊢
    exact hself hk j
  · rw [callAccess_pc_of_ne s hki] at hk
    exact flushed_callAccess s i (h.returning k hk j)

/-- An access of the call that has begun and not left its wait. -/
theorem Sound.callAccess_active (h : s.Sound) (hact : (s.core i).pc.Active)
    (hhandler : (s.core i).handler = .idle) : (s.callAccess i).Sound := by
  obtain ⟨a, hothers, hp⟩ := h.phase.resolve_left fun hn => hn.1 i hact
  obtain rfl : i = a := by
    by_contra hne
    exact hothers i hne hact
  have hothers' : ∀ j, j ≠ i → ¬ ((s.callAccess i).core j).pc.Active := by
    intro j hj
    rw [callAccess_pc_of_ne s hj]
    exact hothers j hj
  have hnext : ((s.callAccess i).Preparing i ∨ (s.callAccess i).Published i) ∨
      ((s.callAccess i).core i).pc = .clearPending ∧ (s.callAccess i).Quiet ∧
        ∀ j, (s.callAccess i).flushed i j = true := by
    rcases hp with hp | hp
    · exact Or.inl hp.callAccess
    · exact (hp.callAccess hhandler).imp_left Or.inr
  rcases hnext with hp' | ⟨hpc, hquiet, hall⟩
  · refine ⟨fun k hk => h.returning_callAccess (fun hpc => ?_) hk, Or.inr ⟨i, hothers', hp'⟩⟩
    -- the call is still active
    have hle : ((s.callAccess i).core i).pc.rank ≤ 10 := by
      rcases hp' with hp' | hp'
      · exact hp'.rank.2.trans (by decide)
      · exact hp'.rank.2
    rw [hpc] at hle
    exact absurd hle (by decide)
  · refine ⟨fun k hk => h.returning_callAccess (fun _ => hall) hk,
      Or.inl ⟨fun j => ?_, hquiet⟩⟩
    by_cases hj : j = i
    · rw [hj, hpc]
      decide
    · exact hothers' j hj

/-- The last store of a call, after which it returns. -/
theorem Sound.callAccess_clearPending (h : s.Sound) (hpc : (s.core i).pc = .clearPending) :
    (s.callAccess i).Sound := by
  have hidle : ((s.callAccess i).core i).pc = .idle := by
    rw [TlbState.callAccess, hpc]
    exact setPc_pc_self ..
  have hhandler : ∀ j, ((s.callAccess i).core j).handler = (s.core j).handler := by
    intro j
    rw [TlbState.callAccess, hpc]
    exact setPc_handler ..
  have hcall : ∀ j, ((s.callAccess i).core j).call = (s.core j).call := by
    intro j
    rw [TlbState.callAccess, hpc]
    exact setPc_call ..
  have hrec : (s.callAccess i).shootdown = { s.shootdown with pending := 0#8 } := by
    rw [TlbState.callAccess, hpc]
    rfl
  have hent : (s.callAccess i).entered = s.entered := by
    rw [TlbState.callAccess, hpc]
    rfl
  have hothers : ∀ j, ¬ (s.core j).pc.Active → ¬ ((s.callAccess i).core j).pc.Active := by
    intro j hj
    by_cases hji : j = i
    · rw [hji, hidle]
      decide
    · rwa [callAccess_pc_of_ne s hji]
  have hquiet : s.Quiet → (s.callAccess i).Quiet := by
    refine fun hq => ⟨fun j => ?_, fun hp => ?_⟩
    · rw [hhandler]
      exact hq.1 j
    · rw [hrec] at hp
      exact absurd rfl hp
  refine ⟨fun k hk => h.returning_callAccess (fun hpc' => ?_) hk, ?_⟩
  · rw [hidle] at hpc'
    exact absurd hpc' (by decide)
  rcases h.phase with ⟨hnone, hq⟩ | ⟨a, hoth, hp⟩
  · exact Or.inl ⟨fun j => hothers j (hnone j), hquiet hq⟩
  · refine Or.inr ⟨a, fun j hj => hothers j (hoth j hj), ?_⟩
    -- the active call is one of another core, which stays where it is
    have hai : a ≠ i := by
      rintro rfl
      rcases hp with hp | hp
      · exact absurd hp.rank.2 (by rw [hpc]; decide)
      · exact absurd hp.rank.2 (by rw [hpc]; decide)
    have hpca := callAccess_pc_of_ne s hai
    rcases hp with hp | hp
    · refine Or.inl ⟨?_, ?_, ?_, ?_, ?_, ?_, hquiet hp.quiet⟩
      · rw [hpca]
        exact hp.rank
      · rw [hcall]
        exact hp.page
      · rw [hpca, hrec, hcall]
        exact hp.addr
      · rw [hpca, hrec, hcall]
        exact hp.asid
      · rw [hpca, hrec]
        exact hp.zero
      · rw [hpca, hrec]
        exact hp.target
    · refine Or.inr (hp.move (by rw [hrec]) hent hhandler (hcall a)
        (fun j hj => flushed_callAccess s i hj) ?_ ?_ ?_ ?_)
      · rw [hpca]
        exact hp.rank
      · rw [hpca]
      · rw [hpca]
        exact fun h8 => flushed_callAccess s i (hp.own h8)
      · rw [hpca]
        exact hp.loaded

/-- An access of a caller. -/
theorem Sound.callAccess (h : s.Sound) (hpc : (s.core i).pc ≠ .idle)
    (hhandler : (s.core i).handler = .idle) : (s.callAccess i).Sound := by
  by_cases hact : (s.core i).pc.Active
  · exact h.callAccess_active hact hhandler
  · refine h.callAccess_clearPending ?_
    cases hcase : (s.core i).pc with
    | idle => exact absurd hcase hpc
    | clearPending => rfl
    | _ =>
        rw [hcase] at hact
        exact absurd ⟨by simp [CallPc.rank], by simp [CallPc.rank]⟩ hact

/-! ### Steps of a handler -/

/-- While a handler runs there is a published request, of another core. -/
theorem Sound.published_of_handler (h : s.Sound) (hrun : (s.core i).handler ≠ .idle) :
    ∃ a, (∀ j, j ≠ a → ¬ (s.core j).pc.Active) ∧ s.Published a ∧ i ≠ a := by
  rcases h.phase with ⟨-, hq⟩ | ⟨a, hoth, hp | hp⟩
  · exact absurd (hq.1 i) hrun
  · exact absurd (hp.quiet.1 i) hrun
  · exact ⟨a, hoth, hp, (hp.running i hrun).1⟩

/-- A step that moves no caller and forgets no flush keeps the invariant with the request. -/
theorem Sound.of_published (h : s.Sound) {s' : TlbState n} {a : Fin n.toNat}
    (hoth : ∀ j, j ≠ a → ¬ (s.core j).pc.Active)
    (hpc : ∀ j, (s'.core j).pc = (s.core j).pc)
    (hflushed : ∀ k j, s.flushed k j = true → s'.flushed k j = true) (hp : s'.Published a) :
    s'.Sound := by
  refine ⟨fun k hk j => ?_, Or.inr ⟨a, fun j hj => ?_, Or.inr hp⟩⟩
  · rw [hpc] at hk
    exact hflushed k j (h.returning k hk j)
  · rw [hpc]
    exact hoth j hj

/-- An interrupt: the handler starts if it finds `pending` set, which its core has not done for this
request. -/
theorem Sound.deliver (h : s.Sound) (hnew : s.shootdown.pending ≠ 0#8 → s.entered i = false) :
    (s.deliver i).Sound := by
  unfold TlbState.deliver
  split
  · exact h
  · rename_i hpend
    have hent := hnew hpend
    have hnotquiet : ¬ s.Quiet := fun hq => by
      rw [hq.2 hpend i] at hent
      exact absurd hent (by decide)
    obtain ⟨a, hoth, hp⟩ : ∃ a, (∀ j, j ≠ a → ¬ (s.core j).pc.Active) ∧ s.Published a := by
      rcases h.phase with ⟨-, hq⟩ | ⟨a, hoth, hp | hp⟩
      · exact absurd hq hnotquiet
      · exact absurd hp.quiet hnotquiet
      · exact ⟨a, hoth, hp⟩
    have hia : i ≠ a := by
      rintro rfl
      rw [hp.entered] at hent
      exact absurd hent (by decide)
    refine h.of_published hoth (fun j => by simp) (fun _ _ hj => hj) ?_
    have hentered : ∀ j, s.entered j = true → Function.update s.entered i true j = true := by
      intro j hj
      by_cases hji : j = i
      · rw [hji, Function.update_self]
      · rw [Function.update_of_ne hji, hj]
    -- the handler that starts has not acknowledged before, and does not yet
    have hacked : ∀ j, acked ((s.setEntered (Function.update s.entered i true)).setHandler i
        .loadAddr) a j = s.acked a j := by
      intro j
      unfold acked
      by_cases hja : j = a
      · simp [hja]
      · by_cases hji : j = i
        · simp [hji, hia, hent]
        · simp [hja, hji, setHandler_handler_of_ne _ _ hji]
    refine ⟨by simpa using hp.rank, by simpa using hp.page, by simpa using hp.addr,
      by simpa using hp.asid, hp.target, fun t ht => hp.loaded t (by simpa using ht),
      hentered a hp.entered, fun j hj => ?_, fun j => ?_, fun h8 => hp.own (by simpa using h8),
      fun j hja hj => ?_, ?_⟩
    · by_cases hji : j = i
      · rw [hji]
        exact ⟨hia, Function.update_self ..⟩
      · rw [setHandler_handler_of_ne _ _ hji] at hj
        have hrun := hp.running j hj
        exact ⟨hrun.1, hentered j hrun.2⟩
    · by_cases hji : j = i
      · rw [hji, setHandler_handler_self]
        trivial
      · rw [setHandler_handler_of_ne _ _ hji, setHandler_call]
        exact hp.serves j
    · rw [hacked] at hj
      exact hp.served j hja hj
    · simp only [hacked]
      exact hp.count

/-- A running handler moves on, without a change to the record or the acknowledgements. -/
theorem Published.moveHandler {a : Fin n.toNat} (h : s.Published a) {s' : TlbState n}
    {hd : HandlerPc} (hia : i ≠ a) (hrun : (s.core i).handler ≠ .idle) (hd_ne : hd ≠ .idle)
    (hcore : s'.core = (s.setHandler i hd).core) (hrec : s'.shootdown = s.shootdown)
    (hent : s'.entered = s.entered)
    (hflushed : ∀ j, s.flushed a j = true → s'.flushed a j = true)
    (hserves : hd.Serves (s.core a).call (s'.flushed a i)) : s'.Published a := by
  have hof : ∀ j, j ≠ i → (s'.core j).handler = (s.core j).handler := by
    intro j hj
    rw [hcore]
    exact setHandler_handler_of_ne s hd hj
  have hself : (s'.core i).handler = hd := by rw [hcore, setHandler_handler_self]
  have hpc : (s'.core a).pc = (s.core a).pc := by rw [hcore, setHandler_pc]
  have hcall : (s'.core a).call = (s.core a).call := by rw [hcore, setHandler_call]
  -- core `i` has not acknowledged, neither before nor after
  have hacked : ∀ j, s'.acked a j = s.acked a j := by
    intro j
    unfold acked
    rw [hent, hpc]
    by_cases hji : j = i
    · rw [hji, if_neg hia, if_neg hia, hself, decide_eq_false hd_ne, decide_eq_false hrun]
    · rw [hof j hji]
  refine ⟨by rw [hpc]; exact h.rank, by rw [hcall]; exact h.page,
    by rw [hrec, hcall]; exact h.addr, by rw [hrec, hcall]; exact h.asid,
    by rw [hrec]; exact h.target, by rw [hpc]; exact h.loaded, by rw [hent]; exact h.entered,
    fun j hj => ?_, fun j => ?_, fun h8 => ?_, fun j hja hj => ?_, ?_⟩
  · rw [hent]
    by_cases hji : j = i
    · rw [hji]
      exact h.running i hrun
    · rw [hof j hji] at hj
      exact h.running j hj
  · rw [hcall]
    by_cases hji : j = i
    · rw [hji, hself]
      exact hserves
    · have hsj := h.serves j
      rw [hof j hji]
      cases hh : (s.core j).handler with
      | addAck =>
          rw [hh] at hsj
          exact hflushed j hsj
      | _ =>
          rw [hh] at hsj
          exact hsj
  · rw [hpc] at h8
    exact hflushed a (h.own h8)
  · rw [hacked] at hj
    exact hflushed j (h.served j hja hj)
  · rw [hrec, h.count]
    simp only [hacked]

/-- The handler acknowledges: it has flushed, and has not been counted before. -/
theorem Published.handlerAck {a : Fin n.toNat} (h : s.Published a)
    (hpc : (s.core i).handler = .addAck) : (s.handlerAccess i).Published a := by
  have hrun : (s.core i).handler ≠ .idle := by
    rw [hpc]
    exact HandlerPc.noConfusion
  obtain ⟨hia, hent⟩ := h.running i hrun
  have hdone : s.flushed a i = true := by
    have hserves := h.serves i
    rw [hpc] at hserves
    exact hserves
  rw [TlbState.handlerAccess, hpc]
  dsimp only
  have hsame : ∀ j, j ≠ i → acked ((s.setShootdown
      { s.shootdown with ackCount := s.shootdown.ackCount + 1#8 }).setHandler i .idle) a j =
        s.acked a j := by
    intro j hji
    simp [acked, setHandler_handler_of_ne _ _ hji]
  have hbefore : s.acked a i = false := by simp [acked, hia, hpc]
  refine ⟨by simpa using h.rank, by simpa using h.page, by simpa using h.addr,
    by simpa using h.asid, h.target, fun t ht => h.loaded t (by simpa using ht), h.entered,
    fun j hj => ?_, fun j => ?_, fun h8 => h.own (by simpa using h8), fun j hja hj => ?_, ?_⟩
  · by_cases hji : j = i
    · rw [hji, setHandler_handler_self] at hj
      exact absurd rfl hj
    · rw [setHandler_handler_of_ne _ _ hji] at hj
      exact h.running j hj
  · by_cases hji : j = i
    · rw [hji, setHandler_handler_self]
      trivial
    · rw [setHandler_handler_of_ne _ _ hji, setHandler_call]
      exact h.serves j
  · by_cases hji : j = i
    · rw [hji]
      exact hdone
    · rw [hsame j hji] at hj
      exact h.served j hja hj
  · exact h.count_succ hsame hbefore (by simp [acked, hia, hent])

/-- An access of a running handler. -/
theorem Sound.handlerAccess (h : s.Sound) (hrun : (s.core i).handler ≠ .idle) :
    (s.handlerAccess i).Sound := by
  obtain ⟨a, hoth, hp, hia⟩ := h.published_of_handler hrun
  cases hpc : (s.core i).handler with
  | idle => exact absurd hpc hrun
  | loadAddr =>
      rw [TlbState.handlerAccess, hpc]
      exact h.of_published hoth (fun j => setHandler_pc ..) (fun _ _ hj => hj)
        (hp.moveHandler hia hrun HandlerPc.noConfusion rfl rfl rfl (fun _ hj => hj) hp.addr)
  | loadAsid addr =>
      have hserves := hp.serves i
      rw [hpc] at hserves
      rw [TlbState.handlerAccess, hpc]
      exact h.of_published hoth (fun j => setHandler_pc ..) (fun _ _ hj => hj)
        (hp.moveHandler hia hrun HandlerPc.noConfusion rfl rfl rfl (fun _ hj => hj)
          ⟨hserves, hp.asid⟩)
  | flush addr asid =>
      have hserves := hp.serves i
      rw [hpc] at hserves
      have hcovers : (handlerFlush addr asid).covers (s.core a).call.wanted = true := by
        rw [hserves.1, hserves.2]
        exact TlbCall.covers_handlerFlush hp.page
      rw [TlbState.handlerAccess, hpc]
      exact h.of_published hoth (fun j => setHandler_pc ..)
        (fun _ _ hj => flushed_flushOn s i _ hj)
        (hp.moveHandler hia hrun HandlerPc.noConfusion rfl rfl rfl
          (fun _ hj => flushed_flushOn s i _ hj) (flushOn_self s i hcovers))
  | addAck =>
      refine h.of_published hoth (fun j => ?_) (fun k j hj => ?_) (hp.handlerAck hpc)
      · rw [TlbState.handlerAccess, hpc]
        exact setHandler_pc ..
      · rw [TlbState.handlerAccess, hpc]
        exact hj

/-- The invariant is kept by every orderly step. -/
theorem Sound.next (h : s.Sound) {a : TlbStep n} {s' : TlbState n} (hg : Orderly s a)
    (hs : s.next a = some s') : s'.Sound := by
  cases a with
  | call i c =>
      obtain ⟨hif, hs⟩ := Option.ite_none_right_eq_some.1 hs
      obtain rfl := Option.some.inj hs
      exact h.beginCall hg.1 hg.2 hif.1
  | access i =>
      obtain ⟨hif, hs⟩ := Option.ite_none_right_eq_some.1 hs
      obtain rfl := Option.some.inj hs
      exact h.callAccess hif.1 hif.2
  | interrupt i =>
      obtain ⟨-, hs⟩ := Option.ite_none_right_eq_some.1 hs
      obtain rfl := Option.some.inj hs
      exact h.deliver hg
  | handle i =>
      obtain ⟨hif, hs⟩ := Option.ite_none_right_eq_some.1 hs
      obtain rfl := Option.some.inj hs
      exact h.handlerAccess hif

end TlbState

/-! ### Runs -/

/-- **A call that returns has flushed its page everywhere.**  In every orderly run, whenever a call
is about to return, every core has flushed the page of the call since the call began. -/
theorem tlb_shootdown_completes {n : BitVec 8} {s : TlbState n}
    (h : (tlbSystem n).Reach Orderly s) {i : Fin n.toNat} (hret : (s.core i).pc = .clearPending)
    (j : Fin n.toNat) : s.flushed i j = true := by
  have hsound : s.Sound := by
    refine h.invariant (fun s₀ h₀ => ?_) fun s₁ a s₂ h₁ hg hs => h₁.next hg hs
    obtain rfl : s₀ = TlbState.start n := h₀
    exact TlbState.sound_start n
  exact hsound.returning i hret j

/-- The calling core of two, and the other one. -/
def callingCore : Fin (2#8).toNat := ⟨0, by decide⟩

@[inherit_doc callingCore]
def answeringCore : Fin (2#8).toNat := ⟨1, by decide⟩

/-- The trace of one call for a page on two cores, up to its return: the other core answers. -/
def pageTrace : List (TlbStep 2#8) :=
  .call callingCore (.tlbFlushPageAll 0x1000#64 7#8) :: List.replicate 7 (.access callingCore) ++
    .interrupt answeringCore :: List.replicate 4 (.handle answeringCore) ++
    List.replicate 3 (.access callingCore)

/-- On two cores both have flushed the page when the call is about to return. -/
theorem tlb_shootdown_completes_two :
    ∃ s : TlbState 2#8, (s.core callingCore).pc = .clearPending ∧
      s.flushed callingCore callingCore = true ∧ s.flushed callingCore answeringCore = true := by
  have hrun : ∃ s, Runs.replay TlbState.next (fun s a => decide (Orderly s a))
      (TlbState.start 2#8) pageTrace = some s ∧ (s.core callingCore).pc = .clearPending :=
    ⟨_, rfl, rfl⟩
  obtain ⟨s, hs, hret⟩ := hrun
  have hreach : (tlbSystem 2#8).Reach Orderly s := by
    have h := Runs.System.Reach.replay (M := tlbSystem 2#8) (fun _ _ _ h => h) (.init rfl) hs
    simpa only [decide_eq_true_eq] using h
  exact ⟨s, hret, tlb_shootdown_completes hreach hret callingCore,
    tlb_shootdown_completes hreach hret answeringCore⟩

/-- The core of a single-core machine. -/
def onlyCore : Fin (1#8).toNat := ⟨0, by decide⟩

/-- The trace of one call to flush everything on a single core, up to its return. -/
def flushAllTrace : List (TlbStep 1#8) :=
  .call onlyCore .tlbFlushAll :: List.replicate 10 (.access onlyCore)

/-- A call to flush everything is about to return on a single core, which has not flushed
everything: the caller flushes the page at address `0` only. -/
theorem tlb_flushAll_returns_early :
    ∃ s, (tlbSystem 1#8).Reach Runs.anyStep s ∧ (s.core onlyCore).call = .tlbFlushAll ∧
      (s.core onlyCore).pc = .clearPending ∧ s.flushed onlyCore onlyCore = false := by
  have hrun : ∃ s, Runs.replay TlbState.next (fun _ _ => true) (TlbState.start 1#8)
      flushAllTrace = some s ∧ (s.core onlyCore).call = .tlbFlushAll ∧
        (s.core onlyCore).pc = .clearPending ∧ s.flushed onlyCore onlyCore = false :=
    ⟨_, rfl, rfl, rfl, rfl⟩
  obtain ⟨s, hs, hcall, hret, hflushed⟩ := hrun
  exact ⟨s, (Runs.System.Reach.replay (fun _ _ _ h => h) (.init rfl) hs).free, hcall, hret,
    hflushed⟩

end StarOS
