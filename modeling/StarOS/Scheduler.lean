/-
The scheduler (`process/scheduler.rs`): 256 run queues, a bitmap of the levels that are not empty,
and the current task with its time slice.

A run queue is a ring of 64 slots.  `push` and `pop` work at the two ends, but `remove` empties the
slot it finds wherever that is and leaves `head` and `tail` where they are, so that the ring may be
left with a hole in it, or with a `tail` that is not behind its last task.  The lemmas describe the
operations on rings that hold a queue of tasks, under the two conditions that keep it that way: a
push finds `tail` behind the last task, and a removal finds its task in the last slot.

* `StarOS.RunQueue`, `StarOS.PriorityBitmap`, `StarOS.Scheduler` — the data;
* `StarOS.Scheduler.enqueue`, `StarOS.Scheduler.dequeue`, `StarOS.Scheduler.schedule` and the other
  operations;
* `StarOS.RunQueue.InStep`, `StarOS.RunQueue.AtTail` — the two conditions;
* `StarOS.RunQueue.Rep`, `StarOS.Scheduler.Rep` — the rings hold queues of tasks, and the bitmap
  tells which are not empty;
* `StarOS.PriorityBitmap.findHighest_cases` — the bitmap finds the first level that is set;
* `StarOS.Scheduler.Rep.enqueue_cases`, `StarOS.Scheduler.Rep.dequeue_cases`,
  `StarOS.Scheduler.Rep.pickNext_cases` — the operations in terms of queues.
-/

import StarOS.Error
import StarOS.Ring
import StarOS.Word
import Mathlib.Tactic.Cases

set_option autoImplicit false

namespace StarOS

/-! ### Data -/

/-- A task identifier. -/
structure TaskId where
  /-- `as_u64`. -/
  id : Usize
  deriving DecidableEq, Repr

/-- A task priority; `0` is the highest. -/
structure Priority where
  /-- `as_u8`. -/
  level : BitVec 8
  deriving DecidableEq, Repr

/-- `DEFAULT_QUANTUM`. -/
def defaultQuantum : Usize := 10#64

/-- `RT_MIN_QUANTUM`. -/
def rtMinQuantum : Usize := 1#64

/-- The number of slots of a run queue. -/
def queueSlots : ℕ := 64

/-- The run queue of one priority level.  Only the slots below `queueSlots` exist. -/
structure RunQueue where
  /-- The slots. -/
  tasks : ℕ → Option TaskId
  /-- The slot `pop` takes from. -/
  head : ℕ
  /-- The slot `push` writes to. -/
  tail : ℕ
  /-- The counter `len` returns. -/
  count : Usize

namespace RunQueue

/-- `RunQueue::new`. -/
def new : RunQueue where
  tasks := fun _ => none
  head := 0
  tail := 0
  count := 0#64

/-- `RunQueue::push`. -/
def push (q : RunQueue) (taskId : TaskId) : Except KernelError Unit × RunQueue :=
  if queueSlots ≤ q.count.toNat then (.error (.process .tooManyProcesses), q)
  else
    (.ok (), ⟨Function.update q.tasks q.tail (some taskId), q.head, (q.tail + 1) % queueSlots,
      q.count + 1#64⟩)

/-- `RunQueue::pop`. -/
def pop (q : RunQueue) : Option TaskId × RunQueue :=
  if q.count = 0#64 then (none, q)
  else
    (q.tasks q.head, ⟨Function.update q.tasks q.head none, (q.head + 1) % queueSlots, q.tail,
      q.count - 1#64⟩)

/-- `RunQueue::is_empty`. -/
def isEmpty (q : RunQueue) : Bool := q.count == 0#64

/-- `RunQueue::len`. -/
def len (q : RunQueue) : Usize := q.count

/-- The slot at which the loop of `remove` finds the task, and `queueSlots` if there is none. -/
def slotOf (q : RunQueue) (taskId : TaskId) : ℕ :=
  firstIndex (fun i => q.tasks i == some taskId) queueSlots

/-- `RunQueue::remove`.  The counter wraps below zero. -/
def remove (q : RunQueue) (taskId : TaskId) : Bool × RunQueue :=
  let i := q.slotOf taskId
  if i < queueSlots then
    (true, ⟨Function.update q.tasks i none, q.head, q.tail, q.count - 1#64⟩)
  else (false, q)

end RunQueue

/-- The bitmap of priority levels; bit `p % 64` of word `p / 64` is the bit of level `p`. -/
structure PriorityBitmap where
  /-- The four words. -/
  bits : ℕ → Usize

namespace PriorityBitmap

/-- `PriorityBitmap::new`. -/
def new : PriorityBitmap := ⟨fun _ => 0#64⟩

/-- `PriorityBitmap::set`. -/
def set (b : PriorityBitmap) (priority : BitVec 8) : PriorityBitmap :=
  let word := priority.toNat / 64
  let bit := priority.toNat % 64
  ⟨Function.update b.bits word (setBit (b.bits word) bit)⟩

/-- `PriorityBitmap::clear`. -/
def clear (b : PriorityBitmap) (priority : BitVec 8) : PriorityBitmap :=
  let word := priority.toNat / 64
  let bit := priority.toNat % 64
  ⟨Function.update b.bits word (clearBit (b.bits word) bit)⟩

/-- The loop of `find_highest`, with `n` words left from `wordIdx` on. -/
def findHighestLoop (b : PriorityBitmap) : ℕ → ℕ → Option (BitVec 8)
  | 0, _ => none
  | n + 1, wordIdx =>
      let word := b.bits wordIdx
      if word ≠ 0#64 then
        some (BitVec.ofNat 8 wordIdx * 64#8 + BitVec.ofNat 8 (trailingZeros word))
      else findHighestLoop b n (wordIdx + 1)

/-- `PriorityBitmap::find_highest`. -/
def findHighest (b : PriorityBitmap) : Option (BitVec 8) := b.findHighestLoop 4 0

/-- The bit of a level. -/
def isSet (b : PriorityBitmap) (priority : BitVec 8) : Bool :=
  (b.bits (priority.toNat / 64)).getLsbD (priority.toNat % 64)

end PriorityBitmap

/-- Scheduler statistics. -/
structure SchedulerStats where
  totalSwitches : Usize
  totalTasks : Usize
  readyTasks : Usize
  runningTasks : Usize
  blockedTasks : Usize
  deriving DecidableEq, Repr

/-- `SchedulerStats::new`. -/
def SchedulerStats.new : SchedulerStats := ⟨0#64, 0#64, 0#64, 0#64, 0#64⟩

/-- `saturating_sub(1)`. -/
def saturatingPred (n : Usize) : Usize := if n = 0#64 then 0#64 else n - 1#64

/-- The scheduler. -/
structure Scheduler where
  /-- One run queue for each priority level. -/
  runQueues : BitVec 8 → RunQueue
  /-- The bitmap for constant-time lookup. -/
  priorityBitmap : PriorityBitmap
  /-- The running task. -/
  current : Option TaskId
  /-- Its priority, cached to enqueue it again. -/
  currentPriority : Option Priority
  /-- The idle task. -/
  idleTask : Option TaskId
  /-- Statistics. -/
  stats : SchedulerStats
  /-- The counter of context switches. -/
  switches : Usize
  /-- The ticks left to the running task. -/
  sliceRemaining : Usize
  /-- Whether preemption is needed. -/
  needResched : Bool

namespace Scheduler

/-! ### Operations -/

/-- `Scheduler::new`. -/
def new : Scheduler where
  runQueues := fun _ => RunQueue.new
  priorityBitmap := PriorityBitmap.new
  current := none
  currentPriority := none
  idleTask := none
  stats := SchedulerStats.new
  switches := 0#64
  sliceRemaining := defaultQuantum
  needResched := false

/-- Writing one run queue. -/
def setQueue (s : Scheduler) (p : BitVec 8) (q : RunQueue) : Scheduler :=
  { s with runQueues := Function.update s.runQueues p q }

/-- `stats.ready_tasks += 1`. -/
def addReady (s : Scheduler) : Scheduler :=
  { s with stats := { s.stats with readyTasks := s.stats.readyTasks + 1#64 } }

/-- `stats.ready_tasks` less one, saturating. -/
def subReady (s : Scheduler) : Scheduler :=
  { s with stats := { s.stats with readyTasks := saturatingPred s.stats.readyTasks } }

/-- `current = None`, with `stats.running_tasks` less one, saturating. -/
def dropCurrent (s : Scheduler) : Scheduler :=
  { s with current := none
           stats := { s.stats with runningTasks := saturatingPred s.stats.runningTasks } }

/-- `tick`. -/
def tick (s : Scheduler) : Bool × Scheduler :=
  if s.current = none then (false, s)
  else
    let slice := if 0#64 < s.sliceRemaining then s.sliceRemaining - 1#64 else s.sliceRemaining
    let resched := if slice = 0#64 then true else s.needResched
    (resched, { s with sliceRemaining := slice, needResched := resched })

/-- `quantum_for_priority`. -/
def quantumForPriority (priority : Priority) : Usize :=
  let p := priority.level
  if p < 32#8 then rtMinQuantum + p.setWidth 64
  else if p < 128#8 then defaultQuantum
  else defaultQuantum * 2#64

/-- `enqueue`. -/
def enqueue (s : Scheduler) (taskId : TaskId) (priority : Priority) :
    Except KernelError Unit × Scheduler :=
  let prio := priority.level
  match (s.runQueues prio).push taskId with
  | (.error e, q) => (.error e, s.setQueue prio q)
  | (.ok (), q) =>
      let s' := s.setQueue prio q
      (.ok (), ({ s' with priorityBitmap := s'.priorityBitmap.set prio } : Scheduler).addReady)

/-- `dequeue`. -/
def dequeue (s : Scheduler) (taskId : TaskId) (priority : Priority) : Bool × Scheduler :=
  let prio := priority.level
  match (s.runQueues prio).remove taskId with
  | (false, q) => (false, s.setQueue prio q)
  | (true, q) =>
      let s' := (s.setQueue prio q).subReady
      (true, if q.isEmpty then { s' with priorityBitmap := s'.priorityBitmap.clear prio } else s')

/-- The first part of `schedule`: a current task whose quantum has expired is enqueued again, and
whether that worked is ignored. -/
def requeueExpired (s : Scheduler) : Scheduler :=
  match s.current, s.currentPriority with
  | some taskId, some priority =>
      if s.sliceRemaining = 0#64 then
        ({ (s.enqueue taskId priority).2 with currentPriority := none } : Scheduler).dropCurrent
      else s
  | _, _ => s

/-- The second part of `schedule`: takes the next task from the first level whose bit is set. -/
def pickNext (s : Scheduler) : Option TaskId × Scheduler :=
  match s.priorityBitmap.findHighest with
  | none => (none, s)
  | some priority =>
      match (s.runQueues priority).pop with
      | (none, q) => (none, s.setQueue priority q)
      | (some taskId, q) =>
          let s₁ := s.setQueue priority q
          let s₂ := if q.isEmpty then { s₁ with priorityBitmap := s₁.priorityBitmap.clear priority }
            else s₁
          let s₃ := s₂.subReady
          (some taskId,
            { s₃ with stats := { s₃.stats with runningTasks := s₃.stats.runningTasks + 1#64 }
                      sliceRemaining := quantumForPriority ⟨priority⟩ })

/-- `need_resched = false`. -/
def clearResched (s : Scheduler) : Scheduler := { s with needResched := false }

/-- `schedule`. -/
def schedule (s : Scheduler) : Option TaskId × Scheduler := s.clearResched.requeueExpired.pickNext

/-- `yield_current`. -/
def yieldCurrent (s : Scheduler) (taskId : TaskId) (priority : Priority) :
    Except KernelError Unit × Scheduler :=
  let s' := if s.current = some taskId then s.dropCurrent else s
  s'.enqueue taskId priority

/-- `block`. -/
def block (s : Scheduler) (taskId : TaskId) : Except KernelError Unit × Scheduler :=
  if s.current = some taskId then
    let s' := s.dropCurrent
    (.ok (), { s' with stats := { s'.stats with blockedTasks := s'.stats.blockedTasks + 1#64 } })
  else (.error (.process .processNotFound), s)

/-- `wake`. -/
def wake (s : Scheduler) (taskId : TaskId) (priority : Priority) :
    Except KernelError Unit × Scheduler :=
  ({ s with stats := { s.stats with blockedTasks := saturatingPred s.stats.blockedTasks } } :
    Scheduler).enqueue taskId priority

/-- `stats.total_tasks` less one, saturating. -/
def subTotal (s : Scheduler) : Scheduler :=
  { s with stats := { s.stats with totalTasks := saturatingPred s.stats.totalTasks } }

/-- `remove`. -/
def remove (s : Scheduler) (taskId : TaskId) (priority : Priority) : Bool × Scheduler :=
  if s.current = some taskId then (true, s.dropCurrent.subTotal)
  else
    match s.dequeue taskId priority with
    | (true, s') => (true, s'.subTotal)
    | (false, s') => (false, s')

/-- `set_current`.  The cached priority stays. -/
def setCurrent (s : Scheduler) (taskId : TaskId) : Scheduler :=
  { s with current := some taskId
           switches := s.switches + 1#64
           stats := { s.stats with totalSwitches := s.stats.totalSwitches + 1#64 } }

/-- `set_current_with_priority`. -/
def setCurrentWithPriority (s : Scheduler) (taskId : TaskId) (priority : Priority) : Scheduler :=
  { s with current := some taskId
           currentPriority := some priority
           switches := s.switches + 1#64
           stats := { s.stats with totalSwitches := s.stats.totalSwitches + 1#64 } }

/-- `set_idle_task`. -/
def setIdleTask (s : Scheduler) (taskId : TaskId) : Scheduler :=
  { s with idleTask := some taskId }

/-- `has_ready_tasks`. -/
def hasReadyTasks (s : Scheduler) : Bool := s.priorityBitmap.findHighest.isSome

end Scheduler

/-! ### The bitmap -/

namespace PriorityBitmap

/-- Two levels in a word have the same bit only if they are the same. -/
theorem bit_eq_iff {p q : BitVec 8} (hword : q.toNat / 64 = p.toNat / 64) :
    q.toNat % 64 = p.toNat % 64 ↔ q = p := by
  constructor
  · intro hbit
    refine BitVec.eq_of_toNat_eq ?_
    omega
  · rintro rfl
    rfl

@[simp] theorem isSet_new (p : BitVec 8) : new.isSet p = false := by
  rw [isSet, new, BitVec.getLsbD_zero]

theorem isSet_set (b : PriorityBitmap) (p q : BitVec 8) :
    (b.set p).isSet q = (b.isSet q || decide (q = p)) := by
  have hbit : p.toNat % 64 < 64 := Nat.mod_lt _ (by decide)
  unfold isSet set
  dsimp only
  by_cases hword : q.toNat / 64 = p.toNat / 64
  · rw [hword, Function.update_self, setBit_getLsbD hbit]
    congr 1
    rw [decide_eq_decide]
    exact bit_eq_iff hword
  · have hne : q ≠ p := by
      rintro rfl
      exact hword rfl
    rw [Function.update_of_ne hword, decide_eq_false hne, Bool.or_false]

theorem isSet_clear (b : PriorityBitmap) (p q : BitVec 8) :
    (b.clear p).isSet q = (b.isSet q && !decide (q = p)) := by
  have hbit : p.toNat % 64 < 64 := Nat.mod_lt _ (by decide)
  unfold isSet clear
  dsimp only
  by_cases hword : q.toNat / 64 = p.toNat / 64
  · rw [hword, Function.update_self, clearBit_getLsbD hbit]
    congr 2
    rw [decide_eq_decide]
    exact bit_eq_iff hword
  · have hne : q ≠ p := by
      rintro rfl
      exact hword rfl
    rw [Function.update_of_ne hword, decide_eq_false hne, Bool.not_false, Bool.and_true]

/-- The loop finds the first word that is not zero, and the lowest bit in it. -/
theorem findHighestLoop_cases (b : PriorityBitmap) (n w : ℕ) :
    ((∀ v, w ≤ v → v < w + n → b.bits v = 0#64) ∧ b.findHighestLoop n w = none) ∨
      ∃ v, w ≤ v ∧ v < w + n ∧ (∀ u, w ≤ u → u < v → b.bits u = 0#64) ∧ b.bits v ≠ 0#64 ∧
        b.findHighestLoop n w =
          some (BitVec.ofNat 8 v * 64#8 + BitVec.ofNat 8 (trailingZeros (b.bits v))) := by
  induction n generalizing w with
  | zero => exact Or.inl ⟨fun v h1 h2 => absurd h2 (by omega), rfl⟩
  | succ n ih =>
      by_cases hw : b.bits w = 0#64
      · have hstep : b.findHighestLoop (n + 1) w = b.findHighestLoop n (w + 1) := by
          rw [findHighestLoop]
          exact if_neg (not_not.2 hw)
        rw [hstep]
        rcases ih (w + 1) with ⟨hall, hres⟩ | ⟨v, h1, h2, hbelow, hv, hres⟩
        · refine Or.inl ⟨fun v h1 h2 => ?_, hres⟩
          rcases Nat.eq_or_lt_of_le h1 with rfl | h
          · exact hw
          · exact hall v h (by omega)
        · refine Or.inr ⟨v, by omega, by omega, fun u h3 h4 => ?_, hv, hres⟩
          rcases Nat.eq_or_lt_of_le h3 with rfl | h
          · exact hw
          · exact hbelow u h h4
      · refine Or.inr ⟨w, le_rfl, by omega, fun u h1 h2 => absurd h2 (by omega), hw, ?_⟩
        rw [findHighestLoop]
        exact if_pos hw

/-- `find_highest` finds the numerically lowest level whose bit is set. -/
theorem findHighest_cases (b : PriorityBitmap) :
    ((∀ p, b.isSet p = false) ∧ b.findHighest = none) ∨
      ∃ p, b.isSet p = true ∧ (∀ q < p, b.isSet q = false) ∧ b.findHighest = some p := by
  rcases b.findHighestLoop_cases 4 0 with ⟨hall, hres⟩ | ⟨v, -, hv4, hbelow, hv, hres⟩
  · refine Or.inl ⟨fun p => ?_, hres⟩
    rw [isSet, hall (p.toNat / 64) (by omega) (by omega), BitVec.getLsbD_zero]
  · have htz := trailingZeros_lt hv
    have hset := getLsbD_trailingZeros htz
    have hnat : (BitVec.ofNat 8 v * 64#8 + BitVec.ofNat 8 (trailingZeros (b.bits v))).toNat =
        64 * v + trailingZeros (b.bits v) := by
      rw [BitVec.toNat_add, BitVec.toNat_mul, BitVec.toNat_ofNat, BitVec.toNat_ofNat,
        BitVec.toNat_ofNat]
      omega
    have hdiv : (64 * v + trailingZeros (b.bits v)) / 64 = v := by omega
    have hmod : (64 * v + trailingZeros (b.bits v)) % 64 = trailingZeros (b.bits v) := by omega
    refine Or.inr ⟨_, ?_, fun q hq => ?_, hres⟩
    · rw [isSet, hnat, hdiv, hmod]
      exact hset
    · rw [BitVec.lt_def, hnat] at hq
      -- a lower level is in an earlier word, or at a lower bit of the word found
      rcases Nat.lt_or_ge (q.toNat / 64) v with hlt | hge
      · rw [isSet, hbelow _ (by omega) hlt, BitVec.getLsbD_zero]
      · have hword : q.toNat / 64 = v := by omega
        rw [isSet, hword]
        exact getLsbD_of_lt_trailingZeros (by omega)

end PriorityBitmap

/-! ### Run queues -/

namespace RunQueue

/-- The slot of the last of the `count` tasks. -/
def lastSlot (q : RunQueue) : ℕ := (q.head + q.count.toNat - 1) % queueSlots

/-- A push is refused, or `tail` is the slot behind the `count` tasks. -/
def InStep (q : RunQueue) : Prop :=
  q.count.toNat < queueSlots → q.tail = (q.head + q.count.toNat) % queueSlots

/-- A removal does not find the task, or finds it in the last slot. -/
def AtTail (q : RunQueue) (taskId : TaskId) : Prop :=
  q.slotOf taskId < queueSlots → q.slotOf taskId = q.lastSlot

instance (q : RunQueue) : Decidable q.InStep := inferInstanceAs (Decidable (_ → _))

instance (q : RunQueue) (taskId : TaskId) : Decidable (q.AtTail taskId) :=
  inferInstanceAs (Decidable (_ → _))

/-- The slot found holds the task. -/
theorem tasks_slotOf {q : RunQueue} {t : TaskId} (h : q.slotOf t < queueSlots) :
    q.tasks (q.slotOf t) = some t :=
  eq_of_beq (firstIndex_spec (p := fun i => q.tasks i == some t) h)

/-- The ring holds the tasks `l`, and the counter counts them. -/
structure Rep (q : RunQueue) (l : List TaskId) : Prop where
  head : q.head < queueSlots
  count : q.count.toNat = l.length
  holds : Ring.Holds queueSlots q.tasks q.head l

theorem rep_new : new.Rep [] where
  head := by decide
  count := rfl
  holds := Ring.holds_nil (by decide) fun _ _ => rfl

namespace Rep

variable {q : RunQueue} {l : List TaskId} {t : TaskId}

theorem isEmpty_iff (h : q.Rep l) : q.isEmpty = true ↔ l = [] := by
  rw [isEmpty, beq_iff_eq, ← List.length_eq_zero_iff, ← h.count]
  constructor
  · intro h0
    rw [h0]
    rfl
  · intro h0
    exact BitVec.eq_of_toNat_eq h0

/-- A push in step appends the task, or is refused by a full queue. -/
theorem push_cases (h : q.Rep l) (t : TaskId) :
    (queueSlots ≤ l.length ∧ q.push t = (.error (.process .tooManyProcesses), q)) ∨
      (l.length < queueSlots ∧ ∃ q', q.push t = (.ok (), q') ∧ (q.InStep → q'.Rep (l ++ [t]))) := by
  rcases Nat.lt_or_ge l.length queueSlots with hroom | hfull
  · refine Or.inr ⟨hroom, _, if_neg (by rw [h.count]; omega), fun hstep => ?_⟩
    have htail : q.tail = (q.head + l.length) % queueSlots := by
      rw [← h.count]
      exact hstep (by rw [h.count]; exact hroom)
    refine ⟨h.head, ?_, ?_⟩
    · have hcount := h.count
      have hslots : queueSlots = 64 := rfl
      change (q.count + 1#64).toNat = (l ++ [t]).length
      rw [List.length_append, List.length_singleton, BitVec.toNat_add, BitVec.toNat_ofNat]
      omega
    · change Ring.Holds queueSlots (Function.update q.tasks q.tail (some t)) q.head (l ++ [t])
      rw [htail]
      exact h.holds.push hroom t
  · exact Or.inl ⟨hfull, if_pos (by rw [h.count]; exact hfull)⟩

/-- A pop takes the first task. -/
theorem pop_cons (h : q.Rep (t :: l)) : ∃ q', q.pop = (some t, q') ∧ q'.Rep l := by
  have hcount := h.count
  rw [List.length_cons] at hcount
  have hne : q.count ≠ 0#64 := by
    intro h0
    rw [h0] at hcount
    exact absurd hcount.symm (by simp)
  refine ⟨_, (if_neg hne).trans (by rw [h.holds.head_eq h.head]), ?_⟩
  refine ⟨Nat.mod_lt _ (by decide), ?_, h.holds.pop h.head⟩
  change (q.count - 1#64).toNat = l.length
  rw [BitVec.toNat_sub, BitVec.toNat_ofNat]
  omega

theorem slotOf_lt_iff (h : q.Rep l) : q.slotOf t < queueSlots ↔ t ∈ l := by
  rw [h.holds.mem_iff (by decide)]
  constructor
  · intro hlt
    exact ⟨_, hlt, tasks_slotOf hlt⟩
  · rintro ⟨i, hi, ht⟩
    have hle : q.slotOf t ≤ i := firstIndex_le_of (p := fun i => q.tasks i == some t) (by simp [ht])
    omega

theorem remove_of_not_mem (h : q.Rep l) (ht : t ∉ l) : q.remove t = (false, q) :=
  if_neg fun hlt => ht (h.slotOf_lt_iff.1 hlt)

/-- A removal from the last slot takes the last task. -/
theorem remove_cases (h : q.Rep l) (ht : t ∈ l) :
    ∃ q', q.remove t = (true, q') ∧ (q.AtTail t → ∃ l', l = l' ++ [t] ∧ q'.Rep l') := by
  have hlt := h.slotOf_lt_iff.2 ht
  refine ⟨_, if_pos hlt, fun hlast => ?_⟩
  have hslot := hlast hlt
  -- the last slot holds the last task, which is the one found
  obtain ⟨l', a, rfl⟩ : ∃ l' a, l = l' ++ [a] := by
    rcases List.eq_nil_or_concat l with rfl | ⟨l', a, rfl⟩
    · exact absurd ht (by simp)
    · exact ⟨l', a, List.concat_eq_append⟩
  have hcount := h.count
  rw [List.length_append, List.length_singleton] at hcount
  have hpos : q.lastSlot = (q.head + l'.length) % queueSlots := by
    rw [lastSlot, hcount, ← Nat.add_assoc, Nat.add_sub_cancel]
  have hfound := tasks_slotOf hlt
  rw [hslot, hpos, h.holds.last_eq] at hfound
  obtain rfl : a = t := Option.some.inj hfound
  refine ⟨l', rfl, h.head, ?_, ?_⟩
  · change (q.count - 1#64).toNat = l'.length
    rw [BitVec.toNat_sub, BitVec.toNat_ofNat]
    omega
  · change Ring.Holds queueSlots (Function.update q.tasks (q.slotOf a) none) q.head l'
    rw [hslot, hpos]
    exact h.holds.dropLast

end Rep

end RunQueue

/-! ### Queues of the scheduler -/

/-- The tasks queued at each level, in the order in which they were queued. -/
abbrev TaskQueues := BitVec 8 → List TaskId

namespace Scheduler

/-- The run queues hold the tasks `Q`, and the bitmap tells which levels are not empty. -/
structure Rep (s : Scheduler) (Q : TaskQueues) : Prop where
  queues : ∀ p, (s.runQueues p).Rep (Q p)
  bitmap : ∀ p, s.priorityBitmap.isSet p = true ↔ Q p ≠ []

/-- The current task and its priority are as before. -/
structure SameTask (s s' : Scheduler) : Prop where
  current : s'.current = s.current
  currentPriority : s'.currentPriority = s.currentPriority

theorem setQueue_self (s : Scheduler) (p : BitVec 8) : s.setQueue p (s.runQueues p) = s := by
  rw [setQueue, Function.update_eq_self]

section Clear

variable (s : Scheduler) (b : PriorityBitmap) (c : Prop) [Decidable c]

/-- Where only the bitmap may change, nothing else does. -/
theorem runQueues_ite : (if c then { s with priorityBitmap := b } else s).runQueues =
    s.runQueues := by
  split
  · rfl
  · rfl

theorem stats_ite : (if c then { s with priorityBitmap := b } else s).stats = s.stats := by
  split
  · rfl
  · rfl

theorem sameTask_ite : s.SameTask (if c then { s with priorityBitmap := b } else s) := by
  split
  · exact ⟨rfl, rfl⟩
  · exact ⟨rfl, rfl⟩

theorem priorityBitmap_ite : (if c then { s with priorityBitmap := b } else s).priorityBitmap =
    if c then b else s.priorityBitmap := by
  split
  · rfl
  · rfl

end Clear

theorem rep_new : new.Rep fun _ => [] where
  queues := fun _ => RunQueue.rep_new
  bitmap := fun p => by simp [new]

/-- A full queue refuses a task. -/
theorem enqueue_of_full {s : Scheduler} {p : Priority} (t : TaskId)
    (h : queueSlots ≤ (s.runQueues p.level).count.toNat) :
    s.enqueue t p = (.error (.process .tooManyProcesses), s) := by
  have hpush : (s.runQueues p.level).push t =
      (.error (.process .tooManyProcesses), s.runQueues p.level) := if_pos h
  rw [enqueue, hpush]
  dsimp only
  rw [setQueue_self]

/-- A queue with room takes the task into the slot at its `tail`. -/
theorem enqueue_of_room {s : Scheduler} {p : Priority} (t : TaskId)
    (h : (s.runQueues p.level).count.toNat < queueSlots) :
    s.enqueue t p = (.ok (), ({ s.setQueue p.level ((s.runQueues p.level).push t).2 with
      priorityBitmap := s.priorityBitmap.set p.level } : Scheduler).addReady) := by
  have hpush : (s.runQueues p.level).push t = (.ok (), ((s.runQueues p.level).push t).2) := by
    rw [RunQueue.push, if_neg (not_le.2 h)]
  rw [enqueue, hpush]
  rfl

/-- Without a current task, there is nothing to enqueue again. -/
theorem requeueExpired_of_idle {s : Scheduler} (h : s.current = none) : s.requeueExpired = s := by
  rw [requeueExpired, h]

/-- Inside its slice, the current task stays. -/
theorem requeueExpired_of_slice {s : Scheduler} (h : s.sliceRemaining ≠ 0#64) :
    s.requeueExpired = s := by
  unfold requeueExpired
  split
  · exact if_neg h
  · rfl

theorem requeueExpired_of_expired {s : Scheduler} {t : TaskId} {p : Priority}
    (hcur : s.current = some t) (hpri : s.currentPriority = some p)
    (hslice : s.sliceRemaining = 0#64) :
    s.requeueExpired =
      ({ (s.enqueue t p).2 with currentPriority := none } : Scheduler).dropCurrent := by
  rw [requeueExpired, hcur, hpri]
  exact if_pos hslice

theorem pickNext_of_not_ready {s : Scheduler} (h : s.hasReadyTasks = false) :
    s.pickNext = (none, s) := by
  have hnone : s.priorityBitmap.findHighest = none :=
    Option.isNone_iff_eq_none.1 (Option.isSome_eq_false_iff.1 h)
  rw [pickNext, hnone]

namespace Rep

variable {s : Scheduler} {Q : TaskQueues}

/-- Replacing the queue of one level, with its bit. -/
theorem update (h : s.Rep Q) {p : BitVec 8} {l : List TaskId} {s' : Scheduler} {q : RunQueue}
    (hq : q.Rep l) (hqueues : s'.runQueues = Function.update s.runQueues p q)
    (hbit : ∀ r, s'.priorityBitmap.isSet r = true ↔
      if r = p then l ≠ [] else s.priorityBitmap.isSet r = true) :
    s'.Rep (Function.update Q p l) where
  queues := by
    intro r
    rw [hqueues]
    by_cases hr : r = p
    · rw [hr, Function.update_self, Function.update_self]
      exact hq
    · rw [Function.update_of_ne hr, Function.update_of_ne hr]
      exact h.queues r
  bitmap := by
    intro r
    rw [hbit r]
    by_cases hr : r = p
    · rw [if_pos hr, hr, Function.update_self]
    · rw [if_neg hr, Function.update_of_ne hr]
      exact h.bitmap r

/-- What the queues hold does not depend on the other fields. -/
theorem congr (h : s.Rep Q) {s' : Scheduler} (hqueues : s'.runQueues = s.runQueues)
    (hbitmap : s'.priorityBitmap = s.priorityBitmap) : s'.Rep Q where
  queues := fun p => hqueues ▸ h.queues p
  bitmap := fun p => hbitmap ▸ h.bitmap p

/-- `enqueue` appends the task to the queue of its level, or is refused by a full queue. -/
theorem enqueue_cases (h : s.Rep Q) (t : TaskId) (p : Priority) :
    (queueSlots ≤ (Q p.level).length ∧
        s.enqueue t p = (.error (.process .tooManyProcesses), s)) ∨
      ((Q p.level).length < queueSlots ∧ ∃ s', s.enqueue t p = (.ok (), s') ∧ s.SameTask s' ∧
        ((s.runQueues p.level).InStep →
          s'.Rep (Function.update Q p.level (Q p.level ++ [t])))) := by
  rcases (h.queues p.level).push_cases t with ⟨hfull, hpush⟩ | ⟨hroom, q, hpush, hq⟩
  · refine Or.inl ⟨hfull, ?_⟩
    rw [enqueue, hpush]
    dsimp only
    rw [setQueue_self]
  · refine Or.inr ⟨hroom, ?_⟩
    rw [enqueue, hpush]
    refine ⟨_, rfl, ⟨rfl, rfl⟩, fun hstep => h.update (hq hstep) rfl fun r => ?_⟩
    have hset := PriorityBitmap.isSet_set s.priorityBitmap p.level r
    change (s.priorityBitmap.set p.level).isSet r = true ↔ _
    rw [hset, Bool.or_eq_true, decide_eq_true_eq]
    by_cases hr : r = p.level <;> simp [hr]

/-- Taking a task out of a ring, and clearing the bit if that empties the level. -/
theorem takeOut (h : s.Rep Q) {p : BitVec 8} {l : List TaskId} {q : RunQueue} {s' : Scheduler}
    (hq : q.Rep l) (hne : Q p ≠ []) (hqueues : s'.runQueues = Function.update s.runQueues p q)
    (hbitmap : s'.priorityBitmap =
      if q.isEmpty then s.priorityBitmap.clear p else s.priorityBitmap) :
    s'.Rep (Function.update Q p l) := by
  refine h.update hq hqueues fun r => ?_
  rw [hbitmap]
  by_cases hl : l = []
  · rw [if_pos (hq.isEmpty_iff.2 hl), PriorityBitmap.isSet_clear]
    by_cases hr : r = p <;> simp [hr, hl]
  · rw [if_neg (fun he => hl (hq.isEmpty_iff.1 he))]
    by_cases hr : r = p
    · rw [hr, if_pos rfl, h.bitmap p]
      exact ⟨fun _ => hl, fun _ => hne⟩
    · rw [if_neg hr]

/-- `dequeue` does not find the task, or takes it out; from the last slot, it takes out the last
task of the queue. -/
theorem dequeue_cases (h : s.Rep Q) (t : TaskId) (p : Priority) :
    (t ∉ Q p.level ∧ s.dequeue t p = (false, s)) ∨
      (t ∈ Q p.level ∧ ∃ s', s.dequeue t p = (true, s') ∧ s.SameTask s' ∧
        ((s.runQueues p.level).AtTail t → ∃ l, Q p.level = l ++ [t] ∧
          s'.Rep (Function.update Q p.level l))) := by
  by_cases ht : t ∈ Q p.level
  · obtain ⟨q, hremove, hq⟩ := (h.queues p.level).remove_cases ht
    refine Or.inr ⟨ht, ?_⟩
    rw [dequeue, hremove]
    refine ⟨_, rfl, ?_, fun hlast => ?_⟩
    · exact ⟨(sameTask_ite ..).current, (sameTask_ite ..).currentPriority⟩
    · obtain ⟨l, hl, hrep⟩ := hq hlast
      refine ⟨l, hl, h.takeOut hrep (List.ne_nil_of_mem ht) ?_ ?_⟩
      · exact runQueues_ite ..
      · exact priorityBitmap_ite ..
  · refine Or.inl ⟨ht, ?_⟩
    rw [dequeue, (h.queues p.level).remove_of_not_mem ht]
    dsimp only
    rw [setQueue_self]

/-- The second part of `schedule` finds nothing queued, or takes the first task of the numerically
lowest level that is not empty. -/
theorem pickNext_cases (h : s.Rep Q) :
    ((∀ p, Q p = []) ∧ s.pickNext = (none, s)) ∨
      ∃ p t l, Q p = t :: l ∧ (∀ r < p, Q r = []) ∧ ∃ s', s.pickNext = (some t, s') ∧
        s.SameTask s' ∧ s'.Rep (Function.update Q p l) := by
  have hclear : ∀ p, s.priorityBitmap.isSet p = false → Q p = [] := by
    intro p hp
    by_contra hne
    rw [(h.bitmap p).2 hne] at hp
    exact absurd hp (by decide)
  rcases s.priorityBitmap.findHighest_cases with ⟨hall, hfind⟩ | ⟨p, hp, hbelow, hfind⟩
  · refine Or.inl ⟨fun p => hclear p (hall p), ?_⟩
    rw [pickNext, hfind]
  · have hne := (h.bitmap p).1 hp
    obtain ⟨t, l, hl⟩ := List.exists_cons_of_ne_nil hne
    have hq := h.queues p
    rw [hl] at hq
    obtain ⟨q, hpop, hrep⟩ := hq.pop_cons
    refine Or.inr ⟨p, t, l, hl, fun r hr => hclear r (hbelow r hr), ?_⟩
    rw [pickNext, hfind]
    dsimp only
    rw [hpop]
    refine ⟨_, rfl, ?_, h.takeOut hrep hne ?_ ?_⟩
    · exact ⟨(sameTask_ite ..).current, (sameTask_ite ..).currentPriority⟩
    · exact runQueues_ite ..
    · exact priorityBitmap_ite ..

end Rep

end Scheduler

end StarOS
