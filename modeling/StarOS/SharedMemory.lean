/-
The reference count of a shared memory region (`process/ipc.rs`).

`attach` and `detach` are one atomic addition or subtraction each, so that whatever tasks call them,
the calls follow each other in some order.  `detach` subtracts before it looks at what it subtracted
from, and a detach too many leaves the largest count behind with its error; `attach` does not look
at all.  The count is right exactly in the runs that never detach from a count of zero and never
attach to the largest one.

* `StarOS.SharedMemory` — a region, with `new`, `attach` and `detach`;
* `StarOS.ShmRun` — a region beside the numbers of attaches and detaches that succeeded;
* `StarOS.ShmRun.CountsRight`, `StarOS.ShmRun.InRange` — the law, and the condition on the state
  before a call;
* `StarOS.shm_counts_iff` — the law holds along a run exactly if the condition does;
* `StarOS.shm_underflow` — a detach too many.
-/

import StarOS.Error
import StarOS.Runs
import StarOS.Word

set_option autoImplicit false

namespace StarOS

/-- A shared memory region. -/
structure SharedMemory where
  base : BitVec 64
  size : ℕ
  refCount : Usize
  deriving DecidableEq, Repr

namespace SharedMemory

/-- `MAX_SIZE`. -/
def maxSize : ℕ := 64 * 1024 * 1024

/-- `SharedMemory::new`. -/
def new (base : BitVec 64) (size : ℕ) : Except KernelError SharedMemory :=
  if maxSize < size then .error (.invalidParameter "Shared memory exceeds 64MB limit")
  else .ok ⟨base, size, 1#64⟩

/-- `SharedMemory::attach`. -/
def attach (m : SharedMemory) : Except KernelError Unit × SharedMemory :=
  (.ok (), { m with refCount := m.refCount + 1#64 })

/-- `SharedMemory::detach`: the subtraction comes before the test. -/
def detach (m : SharedMemory) : Except KernelError Bool × SharedMemory :=
  let old := m.refCount
  let m' := { m with refCount := m.refCount - 1#64 }
  if old = 0#64 then (.error (.invalidParameter "Invalid ref count"), m')
  else (.ok (old == 1#64), m')

end SharedMemory

/-- A call on a region. -/
inductive ShmOp where
  | attach
  | detach
  deriving DecidableEq, Repr

/-- A region with the numbers of attaches and of detaches that have succeeded. -/
structure ShmRun where
  mem : SharedMemory
  attached : ℕ
  detached : ℕ
  deriving DecidableEq, Repr

namespace ShmRun

/-- A region that nobody has attached to. -/
def fresh (m : SharedMemory) : ShmRun := ⟨m, 0, 0⟩

/-- A call, which is counted if it succeeds. -/
def next (r : ShmRun) : ShmOp → ShmRun
  | .attach =>
      match r.mem.attach with
      | (.ok _, m) => { r with mem := m, attached := r.attached + 1 }
      | (.error _, m) => { r with mem := m }
  | .detach =>
      match r.mem.detach with
      | (.ok _, m) => { r with mem := m, detached := r.detached + 1 }
      | (.error _, m) => { r with mem := m }

/-- The count is one more than the attaches less the detaches. -/
def Balanced (r : ShmRun) : Prop := r.mem.refCount.toNat + r.detached = 1 + r.attached

/-- What a call should do: the count is right after it, the detach that brings it to zero and no
other says so, and a detach that fails leaves it as it is. -/
structure CountsRight (r : ShmRun) (op : ShmOp) : Prop where
  balanced : (r.next op).Balanced
  last : op = .detach → (r.mem.detach.1 = .ok true ↔ r.mem.detach.2.refCount = 0#64)
  failed : op = .detach → ∀ e, r.mem.detach.1 = .error e →
    r.mem.detach.2.refCount = r.mem.refCount

/-- The count does not wrap around: nothing is detached from zero, and nothing attached to the
largest count. -/
def InRange (r : ShmRun) : ShmOp → Prop
  | .attach => r.mem.refCount ≠ BitVec.allOnes 64
  | .detach => r.mem.refCount ≠ 0#64

instance (r : ShmRun) (op : ShmOp) : Decidable (r.InRange op) :=
  match op with
  | .attach => inferInstanceAs (Decidable (_ ≠ _))
  | .detach => inferInstanceAs (Decidable (_ ≠ _))

variable {r : ShmRun}

theorem detach_pos (h : r.mem.refCount ≠ 0#64) :
    r.mem.detach =
      (.ok (r.mem.refCount == 1#64), { r.mem with refCount := r.mem.refCount - 1#64 }) :=
  if_neg h

theorem detach_zero (h : r.mem.refCount = 0#64) :
    r.mem.detach = (.error (.invalidParameter "Invalid ref count"),
      { r.mem with refCount := r.mem.refCount - 1#64 }) :=
  if_pos h

/-- An attach counts up, unless the count wraps around. -/
theorem balanced_attach_iff (h : r.Balanced) : (r.next .attach).Balanced ↔ r.InRange .attach := by
  have hlt := r.mem.refCount.isLt
  have hmax : r.mem.refCount = BitVec.allOnes 64 ↔ r.mem.refCount.toNat = 2 ^ 64 - 1 := by
    rw [← BitVec.toNat_inj, BitVec.toNat_allOnes]
  have hsum : (r.mem.refCount + 1#64).toNat = (r.mem.refCount.toNat + 1) % 2 ^ 64 := by
    rw [BitVec.toNat_add, BitVec.toNat_ofNat]
  rw [InRange, ne_eq, hmax]
  change (r.mem.refCount + 1#64).toNat + r.detached = 1 + (r.attached + 1) ↔ _
  rw [Balanced] at h
  rw [hsum]
  omega

/-- A detach counts down, unless there is nothing left to count. -/
theorem countsRight_detach (h : r.Balanced) (hpos : r.mem.refCount ≠ 0#64) :
    r.CountsRight .detach := by
  have hnat : r.mem.refCount.toNat ≠ 0 := fun h0 => hpos (BitVec.eq_of_toNat_eq h0)
  have hsub : (r.mem.refCount - 1#64).toNat = r.mem.refCount.toNat - 1 := by
    rw [BitVec.toNat_sub, BitVec.toNat_ofNat]
    omega
  have hres := detach_pos hpos
  refine ⟨?_, fun _ => ?_, fun _ e he => ?_⟩
  · rw [next, hres]
    change (r.mem.refCount - 1#64).toNat + (r.detached + 1) = 1 + r.attached
    rw [Balanced] at h
    omega
  · have hone : r.mem.refCount - 1#64 = 0#64 ↔ r.mem.refCount = 1#64 := by
      rw [← BitVec.toNat_inj, ← BitVec.toNat_inj, hsub, BitVec.toNat_ofNat, BitVec.toNat_ofNat]
      omega
    rw [hres, hone, Except.ok.injEq, beq_iff_eq]
  · rw [hres] at he
    cases he

/-- One call. -/
theorem countsRight_iff (h : r.Balanced) (op : ShmOp) : r.CountsRight op ↔ r.InRange op := by
  cases op with
  | attach =>
      refine ⟨fun hright => (balanced_attach_iff h).1 hright.balanced, fun hrange => ?_⟩
      exact ⟨(balanced_attach_iff h).2 hrange, fun heq => (by cases heq), fun heq => (by cases heq)⟩
  | detach =>
      refine ⟨fun hright hzero => ?_, countsRight_detach h⟩
      have hfail := hright.failed rfl _ (congrArg Prod.fst (detach_zero hzero))
      rw [detach_zero hzero, hzero] at hfail
      have hwrap : (0#64 : Usize) - 1#64 ≠ 0#64 := by decide
      exact hwrap hfail

end ShmRun

/-- **The count is right exactly as long as it does not wrap around.**  Along every run on a new
region, after every call the count is one more than the attaches less the detaches that succeeded,
a detach returns `Ok(true)` exactly if it brings the count to zero, and leaves the count as it is if
it fails, if and only if no call of the run detaches from zero or attaches to the largest count. -/
theorem shm_counts_iff {base : BitVec 64} {size : ℕ} {m : SharedMemory}
    (hnew : SharedMemory.new base size = .ok m) (ops : List ShmOp) :
    Runs.Along ShmRun.next ShmRun.CountsRight (.fresh m) ops ↔
      Runs.Along ShmRun.next ShmRun.InRange (.fresh m) ops := by
  have hfresh : (ShmRun.fresh m).Balanced := by
    rw [SharedMemory.new] at hnew
    split at hnew
    · cases hnew
    · cases hnew
      rfl
  exact Runs.along_iff (fun _ op hr _ => ShmRun.countsRight_iff hr op)
    (fun _ op hr _ hrange => ((ShmRun.countsRight_iff hr op).2 hrange).balanced) hfresh
    (Runs.along_true _ _ ops)

/-- A region of a page. -/
def pageOfShm : SharedMemory := ⟨0x10000#64, 4096, 1#64⟩

/-- An attach and two detaches, the second of which is the last. -/
theorem shm_counts_two :
    Runs.Along ShmRun.next ShmRun.CountsRight (.fresh pageOfShm) [.attach, .detach, .detach] := by
  have hnew : SharedMemory.new 0x10000#64 4096 = .ok pageOfShm := rfl
  exact (shm_counts_iff hnew _).2 ⟨by decide, by decide, by decide, trivial⟩

/-- A detach too many fails, and leaves the largest count behind. -/
theorem shm_underflow :
    SharedMemory.new 0x10000#64 4096 = .ok pageOfShm ∧
      ([ShmOp.detach, .detach].foldl ShmRun.next (.fresh pageOfShm)).mem.refCount =
        BitVec.allOnes 64 ∧
      ¬ Runs.Along ShmRun.next ShmRun.CountsRight (.fresh pageOfShm) [.detach, .detach] := by
  refine ⟨rfl, by decide, fun h => ?_⟩
  obtain ⟨-, hsecond, -⟩ := h
  have hsame := hsecond.failed rfl _ rfl
  exact absurd hsame (by decide)

end StarOS
