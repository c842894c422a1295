/-
The statistics of the scheduler count what is there.

`ready_tasks` should be the number of queued tasks and `running_tasks` one or zero.  Both are kept
step by step, with subtractions that saturate.  Two steps do not keep them.  A push into a ring with
a hole in it may write over a task that is still in the slot at `tail`, and counts one more task
although there are no more.  And `schedule` counts the task it selects as running without a look at
the current one, which is only taken off if its quantum has expired and its priority is cached.

* `StarOS.RunQueue.queued`, `StarOS.Scheduler.queued` — the tasks in the slots;
* `StarOS.StatsCall`, `StarOS.Scheduler.statsNext` — the calls, `schedule` together with the call
  that makes the selected task current;
* `StarOS.Scheduler.StatsExact`, `StarOS.Scheduler.KeepsStats` — the law, and the condition on the
  state before a call;
* `StarOS.scheduler_stats_iff` — along a run the statistics are exact exactly if every call meets
  the condition;
* `StarOS.scheduler_counts_two_running` — a run after which two tasks are counted as running.
-/

import StarOS.Counting
import StarOS.SchedulerCalls
import Mathlib.Algebra.BigOperators.Group.Finset.Basic
import Mathlib.Algebra.Group.Action.Defs
import Mathlib.Algebra.Order.BigOperators.Group.Finset

set_option autoImplicit false

namespace StarOS

/-! ### Queued tasks -/

namespace RunQueue

/-- The number of slots with a task in them. -/
def queued (q : RunQueue) : ℕ :=
  (Finset.univ.filter fun i : Fin queueSlots => (q.tasks i).isSome = true).card

/-- `head` and `tail` are slots. -/
structure InBounds (q : RunQueue) : Prop where
  head : q.head < queueSlots
  tail : q.tail < queueSlots

theorem queued_le (q : RunQueue) : q.queued ≤ queueSlots :=
  (Finset.card_filter_le _ _).trans (Finset.card_univ.trans (Fintype.card_fin _)).le

/-- Writing one slot. -/
theorem queued_update {q q' : RunQueue} {i : ℕ} {x : Option TaskId} (hi : i < queueSlots)
    (h : q'.tasks = Function.update q.tasks i x) :
    q'.queued + (q.tasks i).isSome.toNat = q.queued + x.isSome.toNat := by
  have hcount := Counting.card_filter_add (c := (⟨i, hi⟩ : Fin queueSlots))
    (p := fun j : Fin queueSlots => (q.tasks j).isSome)
    (q := fun j : Fin queueSlots => (q'.tasks j).isSome) fun j hj => by
      rw [h, Function.update_of_ne fun he => hj (Fin.ext he)]
  have hnew : q'.tasks i = x := by rw [h, Function.update_self]
  rw [hnew] at hcount
  exact hcount

/-- A push counts one more task, unless it writes over one. -/
theorem queued_push {q : RunQueue} (hq : q.InBounds) (t : TaskId)
    (hroom : q.count.toNat < queueSlots) :
    (q.push t).2.queued + (q.tasks q.tail).isSome.toNat = q.queued + 1 := by
  refine queued_update (x := some t) hq.tail ?_
  rw [push, if_neg (not_le.2 hroom)]

theorem InBounds.push {q : RunQueue} (hq : q.InBounds) (t : TaskId) : (q.push t).2.InBounds := by
  rw [RunQueue.push]
  split
  · exact hq
  · exact ⟨hq.head, Nat.mod_lt _ (by decide)⟩

/-- A pop takes what is in the slot at `head`. -/
theorem queued_pop {q : RunQueue} (hq : q.InBounds) (hne : q.count ≠ 0#64) :
    (q.pop).2.queued + (q.tasks q.head).isSome.toNat = q.queued := by
  have htasks : q.pop.2.tasks = Function.update q.tasks q.head none := by rw [pop, if_neg hne]
  have hpop := queued_update hq.head htasks
  rwa [Option.isSome_none, Bool.toNat_false, Nat.add_zero] at hpop

theorem InBounds.pop {q : RunQueue} (hq : q.InBounds) : q.pop.2.InBounds := by
  rw [RunQueue.pop]
  split
  · exact hq
  · exact ⟨Nat.mod_lt _ (by decide), hq.tail⟩

/-- A removal takes the task it finds. -/
theorem queued_remove (q : RunQueue) (t : TaskId) :
    (q.remove t).2.queued + (q.remove t).1.toNat = q.queued := by
  rw [remove]
  split
  · rename_i hfound
    have htasks : (⟨Function.update q.tasks (q.slotOf t) none, q.head, q.tail, q.count - 1#64⟩ :
        RunQueue).tasks = Function.update q.tasks (q.slotOf t) none := rfl
    have hremove := queued_update hfound htasks
    rwa [tasks_slotOf hfound, Option.isSome_none, Bool.toNat_false, Nat.add_zero] at hremove
  · rfl

theorem InBounds.remove {q : RunQueue} (hq : q.InBounds) (t : TaskId) :
    (q.remove t).2.InBounds := by
  rw [RunQueue.remove]
  split
  · exact ⟨hq.head, hq.tail⟩
  · exact hq

end RunQueue

namespace Scheduler

/-- The number of queued tasks, over all levels. -/
def queued (s : Scheduler) : ℕ := ∑ p ∈ Finset.range 256, (s.runQueues (BitVec.ofNat 8 p)).queued

/-- Every `head` and `tail` is a slot. -/
def InBounds (s : Scheduler) : Prop := ∀ p, (s.runQueues p).InBounds

variable {s s' : Scheduler} {p : BitVec 8} {q : RunQueue}

/-- Far fewer tasks can be queued than the counter can count. -/
theorem queued_lt (s : Scheduler) : s.queued ≤ 256 * 64 := by
  have hle := Finset.sum_le_card_nsmul (Finset.range 256)
    (fun p => (s.runQueues (BitVec.ofNat 8 p)).queued) 64 fun p _ => RunQueue.queued_le _
  rwa [Finset.card_range, smul_eq_mul] at hle

/-- Replacing one run queue. -/
theorem queued_replace (h : s'.runQueues = Function.update s.runQueues p q) :
    s'.queued + (s.runQueues p).queued = s.queued + q.queued := by
  have hp : p.toNat ∈ Finset.range 256 := Finset.mem_range.2 p.isLt
  have hself : BitVec.ofNat 8 p.toNat = p := by rw [BitVec.ofNat_toNat, BitVec.setWidth_eq]
  have hrest : ∑ r ∈ (Finset.range 256).erase p.toNat, (s'.runQueues (BitVec.ofNat 8 r)).queued =
      ∑ r ∈ (Finset.range 256).erase p.toNat, (s.runQueues (BitVec.ofNat 8 r)).queued := by
    refine Finset.sum_congr rfl fun r hr => ?_
    have hne : BitVec.ofNat 8 r ≠ p := by
      rintro rfl
      obtain ⟨hr, hlt⟩ := Finset.mem_erase.1 hr
      rw [Finset.mem_range] at hlt
      exact hr (by rw [BitVec.toNat_ofNat, Nat.mod_eq_of_lt hlt])
    rw [h, Function.update_of_ne hne]
  have hnew := Finset.add_sum_erase _ (fun r => (s'.runQueues (BitVec.ofNat 8 r)).queued) hp
  have hold := Finset.add_sum_erase _ (fun r => (s.runQueues (BitVec.ofNat 8 r)).queued) hp
  rw [queued, queued, ← hnew, ← hold, hrest, hself, h, Function.update_self]
  omega

theorem InBounds.replace (h : s.InBounds) (hq : q.InBounds)
    (hqueues : s'.runQueues = Function.update s.runQueues p q) : s'.InBounds := by
  intro r
  rw [hqueues]
  by_cases hr : r = p
  · rw [hr, Function.update_self]
    exact hq
  · rw [Function.update_of_ne hr]
    exact h r

/-! ### The law and the condition -/

/-- `ready_tasks` is the number of queued tasks. -/
def ReadyExact (s : Scheduler) : Prop := s.stats.readyTasks.toNat = s.queued

/-- `running_tasks` is one with a current task and zero without. -/
def RunningExact (s : Scheduler) : Prop :=
  s.stats.runningTasks = if s.current = none then 0#64 else 1#64

/-- The statistics are exact. -/
structure StatsExact (s : Scheduler) : Prop where
  ready : s.ReadyExact
  running : s.RunningExact

/-- A push onto the level is refused, or finds the slot at `tail` empty. -/
def PushesClean (s : Scheduler) (p : Priority) : Prop :=
  (s.runQueues p.level).count.toNat < queueSlots →
    (s.runQueues p.level).tasks (s.runQueues p.level).tail = none

/-- There is a task at the head of the first level whose bit is set. -/
def Selects (s : Scheduler) : Prop :=
  ∃ p, s.priorityBitmap.findHighest = some p ∧ (s.runQueues p).count ≠ 0#64 ∧
    (s.runQueues p).tasks (s.runQueues p).head ≠ none

/-- Making the selected task current, with a priority or without. -/
def makeCurrent (s : Scheduler) (how : Option Priority) (t : TaskId) : Scheduler :=
  match how with
  | some p => s.setCurrentWithPriority t p
  | none => s.setCurrent t

/-- The second part of `schedule`, and making the selected task current. -/
def select (s : Scheduler) (how : Option Priority) : Scheduler :=
  match s.pickNext with
  | (some t, s') => s'.makeCurrent how t
  | (none, s') => s'

end Scheduler

/-- A call on the scheduler; a task that `schedule` returns is made current. -/
inductive StatsCall where
  | enqueue (t : TaskId) (p : Priority)
  | dequeue (t : TaskId) (p : Priority)
  | schedule (how : Option Priority)
  | tick
  | yieldCurrent (t : TaskId) (p : Priority)
  | block (t : TaskId)
  | wake (t : TaskId) (p : Priority)
  | remove (t : TaskId) (p : Priority)

namespace Scheduler

/-- The state a call leaves behind. -/
def statsNext (s : Scheduler) : StatsCall → Scheduler
  | .enqueue t p => (s.enqueue t p).2
  | .dequeue t p => (s.dequeue t p).2
  | .schedule how =>
      match s.schedule with
      | (some t, s') => s'.makeCurrent how t
      | (none, s') => s'
  | .tick => s.tick.2
  | .yieldCurrent t p => (s.yieldCurrent t p).2
  | .block t => (s.block t).2
  | .wake t p => (s.wake t p).2
  | .remove t p => (s.remove t p).2

/-- A push that is accepted writes over no task, and no task is selected while there is a current
one that is not queued again. -/
def KeepsStats (s : Scheduler) : StatsCall → Prop
  | .enqueue _ p | .yieldCurrent _ p | .wake _ p => s.PushesClean p
  | .schedule _ =>
      (s.current ≠ none → s.sliceRemaining = 0#64 →
        ∀ p, s.currentPriority = some p → s.PushesClean p) ∧
      (s.current ≠ none → (s.sliceRemaining = 0#64 → s.currentPriority = none) → ¬s.Selects)
  | _ => True

/-! ### Parts of the calls -/

variable {s s' : Scheduler}

theorem RunningExact.dropCurrent (h : s.RunningExact) : s.dropCurrent.RunningExact := by
  change saturatingPred s.stats.runningTasks = 0#64
  rw [h]
  split
  · rfl
  · rfl

theorem RunningExact.of_same (h : s.RunningExact) (hcur : s'.current = s.current)
    (hrun : s'.stats.runningTasks = s.stats.runningTasks) : s'.RunningExact := by
  rw [RunningExact, hrun, hcur]
  exact h

theorem enqueue_running (s : Scheduler) (t : TaskId) (p : Priority) :
    (s.enqueue t p).2.stats.runningTasks = s.stats.runningTasks := by
  rcases Nat.lt_or_ge (s.runQueues p.level).count.toNat queueSlots with hroom | hfull
  · rw [enqueue_of_room t hroom]
    rfl
  · rw [enqueue_of_full t hfull]

theorem InBounds.enqueue (h : s.InBounds) (t : TaskId) (p : Priority) :
    (s.enqueue t p).2.InBounds := by
  rcases Nat.lt_or_ge (s.runQueues p.level).count.toNat queueSlots with hroom | hfull
  · rw [enqueue_of_room t hroom]
    exact h.replace ((h p.level).push t) rfl
  · rw [enqueue_of_full t hfull]
    exact h

/-- Queueing a task counts it, and more than what is queued is counted if it writes over one. -/
theorem enqueue_ready (hb : s.InBounds) (h : s.ReadyExact) (t : TaskId) (p : Priority) :
    ((s.enqueue t p).2.ReadyExact ↔ s.PushesClean p) ∧
      (s.enqueue t p).2.queued ≤ (s.enqueue t p).2.stats.readyTasks.toNat := by
  rcases Nat.lt_or_ge (s.runQueues p.level).count.toNat queueSlots with hroom | hfull
  · have hpush := RunQueue.queued_push (hb p.level) t hroom
    have hqueues : (s.enqueue t p).2.runQueues =
        Function.update s.runQueues p.level ((s.runQueues p.level).push t).2 := by
      rw [enqueue_of_room t hroom]
      rfl
    have hreplace := queued_replace hqueues
    have hready : (s.enqueue t p).2.stats.readyTasks = s.stats.readyTasks + 1#64 := by
      rw [enqueue_of_room t hroom]
      rfl
    have hlt := s.queued_lt
    have hsum : (s.enqueue t p).2.stats.readyTasks.toNat = s.queued + 1 := by
      rw [hready, BitVec.toNat_add, h, BitVec.toNat_ofNat]
      omega
    rw [ReadyExact, hsum, PushesClean]
    cases htail : (s.runQueues p.level).tasks (s.runQueues p.level).tail with
    | none =>
        rw [htail, Option.isSome_none, Bool.toNat_false] at hpush
        exact ⟨iff_of_true (by omega) fun _ => rfl, by omega⟩
    | some u =>
        rw [htail, Option.isSome_some, Bool.toNat_true] at hpush
        exact ⟨iff_of_false (by omega) (fun hclean => by cases hclean hroom), by omega⟩
  · rw [enqueue_of_full t hfull]
    exact ⟨iff_of_true h fun hroom => absurd hroom (by omega), h.ge⟩

/-- A call that queues a task keeps the statistics exact exactly if it writes over none. -/
theorem StatsExact.enqueue (hb : s.InBounds) (h : s.StatsExact) (t : TaskId) (p : Priority) :
    (s.enqueue t p).2.StatsExact ↔ s.PushesClean p := by
  rw [← (enqueue_ready hb h.ready t p).1]
  refine ⟨fun hs => hs.ready, fun hs => ⟨hs, ?_⟩⟩
  exact h.running.of_same (s.enqueue_sameTask t p).current (s.enqueue_running t p)

/-- One task has been taken out of the queues, and `ready_tasks` is one less, saturating. -/
structure Took (s s' : Scheduler) : Prop where
  inBounds : s'.InBounds
  queued : s'.queued + 1 = s.queued
  ready : s'.stats.readyTasks = saturatingPred s.stats.readyTasks
  same : s.SameTask s'

/-- Replacing a run queue by one with a task less. -/
theorem InBounds.took {p : BitVec 8} {q : RunQueue} (hb : s.InBounds) (hq : q.InBounds)
    (hcount : q.queued + 1 = (s.runQueues p).queued)
    (hqueues : s'.runQueues = Function.update s.runQueues p q)
    (hready : s'.stats.readyTasks = saturatingPred s.stats.readyTasks) (hsame : s.SameTask s') :
    s.Took s' := by
  have hsum := queued_replace hqueues
  exact ⟨hb.replace hq hqueues, by omega, hready, hsame⟩

/-- If no fewer tasks are counted than queued, the subtraction does not saturate. -/
theorem Took.ready_iff (h : s.Took s') (hle : s.queued ≤ s.stats.readyTasks.toNat) :
    s'.ReadyExact ↔ s.ReadyExact := by
  have hqueued := h.queued
  have hne : s.stats.readyTasks ≠ 0#64 := by
    intro h0
    rw [h0, BitVec.toNat_ofNat] at hle
    omega
  have hpred : s'.stats.readyTasks.toNat + 1 = s.stats.readyTasks.toNat := by
    rw [h.ready, saturatingPred, if_neg hne]
    bv_omega
  rw [ReadyExact, ReadyExact]
  omega

/-- What `dequeue` does to the queues and the statistics. -/
theorem dequeue_outcome (hb : s.InBounds) (t : TaskId) (p : Priority) :
    s.dequeue t p = (false, s) ∨
      ∃ s', s.dequeue t p = (true, s') ∧ s.Took s' ∧
        s'.stats.runningTasks = s.stats.runningTasks := by
  have hcount := (s.runQueues p.level).queued_remove t
  have hbounds := (hb p.level).remove t
  have hsame := s.dequeue_sameTask t p
  rw [dequeue] at hsame ⊢
  dsimp only at hsame ⊢
  cases hres : (s.runQueues p.level).remove t with
  | mk found q =>
  rw [hres] at hcount hbounds hsame
  cases found with
  | false =>
      have hq : q = s.runQueues p.level := by
        rw [RunQueue.remove] at hres
        split at hres
        · cases hres
        · cases hres
          rfl
      refine Or.inl ?_
      dsimp only
      rw [hq, setQueue_self]
  | true =>
      dsimp only at hcount
      rw [Bool.toNat_true] at hcount
      refine Or.inr ⟨_, rfl, hb.took hbounds (by omega) ?_ ?_ hsame, ?_⟩
      · exact runQueues_ite ..
      · rw [stats_ite]
        rfl
      · rw [stats_ite]
        rfl

/-- What the second part of `schedule` does to the queues and the statistics. -/
theorem pickNext_outcome (hb : s.InBounds) :
    (¬s.Selects ∧ ∃ s', s.pickNext = (none, s') ∧ s'.InBounds ∧ s'.queued = s.queued ∧
        s'.stats = s.stats ∧ s.SameTask s') ∨
      (s.Selects ∧ ∃ u s', s.pickNext = (some u, s') ∧ s.Took s' ∧
        s'.stats.runningTasks = s.stats.runningTasks + 1#64) := by
  have hsame := s.pickNext_sameTask
  cases hfind : s.priorityBitmap.findHighest with
  | none =>
      refine Or.inl ⟨fun ⟨p, hp, _⟩ => ?_, s, ?_, hb, rfl, rfl, rfl, rfl⟩
      · rw [hfind] at hp
        cases hp
      · rw [pickNext, hfind]
  | some p =>
  have hselects : s.Selects ↔ (s.runQueues p).count ≠ 0#64 ∧
      (s.runQueues p).tasks (s.runQueues p).head ≠ none := by
    refine ⟨fun ⟨p', hp', hsel⟩ => ?_, fun hsel => ⟨p, hfind, hsel⟩⟩
    rw [hfind] at hp'
    cases hp'
    exact hsel
  have hbounds := (hb p).pop
  by_cases hcount : (s.runQueues p).count = 0#64
  · have hpop : (s.runQueues p).pop = (none, s.runQueues p) := if_pos hcount
    refine Or.inl ⟨fun hsel => (hselects.1 hsel).1 hcount, s, ?_, hb, rfl, rfl, rfl, rfl⟩
    rw [pickNext, hfind]
    dsimp only
    rw [hpop]
    dsimp only
    rw [setQueue_self]
  · have hqueued := RunQueue.queued_pop (hb p) hcount
    have hpop : (s.runQueues p).pop =
        ((s.runQueues p).tasks (s.runQueues p).head, (s.runQueues p).pop.2) := by
      rw [RunQueue.pop, if_neg hcount]
    rw [hselects, pickNext, hfind]
    rw [pickNext, hfind] at hsame
    dsimp only at hsame ⊢
    rw [hpop] at hsame ⊢
    cases hhead : (s.runQueues p).tasks (s.runQueues p).head with
    | none =>
        -- the slot at `head` is a hole
        rw [hhead, Option.isSome_none, Bool.toNat_false] at hqueued
        refine Or.inl ⟨fun hsel => hsel.2 rfl, _, rfl, hb.replace hbounds rfl, ?_, rfl, rfl, rfl⟩
        have hqueues : (s.setQueue p (s.runQueues p).pop.2).runQueues =
            Function.update s.runQueues p (s.runQueues p).pop.2 := rfl
        have hsum := queued_replace hqueues
        omega
    | some u =>
        rw [hhead] at hsame hqueued
        rw [Option.isSome_some, Bool.toNat_true] at hqueued
        refine Or.inr ⟨⟨hcount, by simp⟩, u, _, rfl, hb.took hbounds (by omega) ?_ ?_ hsame, ?_⟩
        · exact runQueues_ite ..
        · rw [subReady, stats_ite]
          rfl
        · rw [subReady, stats_ite]
          rfl

/-! ### Calls -/

/-- What the calls keep: exact statistics, and rings whose ends are slots. -/
structure StatsInv (s : Scheduler) : Prop where
  exact : s.StatsExact
  inBounds : s.InBounds

theorem statsInv_new : new.StatsInv where
  exact := by
    refine ⟨?_, rfl⟩
    have hempty : RunQueue.new.queued = 0 := by decide
    change (0#64).toNat = ∑ p ∈ Finset.range 256, RunQueue.new.queued
    rw [hempty, Finset.sum_const_zero]
    rfl
  inBounds := by
    have hempty : RunQueue.new.InBounds := ⟨by decide, by decide⟩
    exact fun _ => hempty

theorem InBounds.makeCurrent (h : s.InBounds) (how : Option Priority) (t : TaskId) :
    (s.makeCurrent how t).InBounds := by
  cases how with
  | none => exact h
  | some p => exact h

theorem InBounds.select (h : s.InBounds) (how : Option Priority) : (s.select how).InBounds := by
  rw [Scheduler.select]
  rcases pickNext_outcome h with ⟨-, s', hres, hb, -⟩ | ⟨-, u, s', hres, htook, -⟩
  · rw [hres]
    exact hb
  · rw [hres]
    exact htook.inBounds.makeCurrent how u

/-- Selecting a task counts it as running, which is right without a current one. -/
theorem select_exact (hb : s.InBounds) (hle : s.queued ≤ s.stats.readyTasks.toNat)
    (h : s.RunningExact) (how : Option Priority) :
    (s.select how).StatsExact ↔ s.ReadyExact ∧ (s.Selects → s.current = none) := by
  rw [select]
  rcases pickNext_outcome hb with
    ⟨hno, s', hres, -, hqueued, hstats, hsame⟩ | ⟨hsel, u, s', hres, htook, hrun⟩
  · rw [hres]
    refine ⟨fun hs => ⟨?_, fun hsel => absurd hsel hno⟩, fun hs => ⟨?_, ?_⟩⟩
    · have hready : s'.stats.readyTasks.toNat = s'.queued := hs.ready
      rwa [hstats, hqueued] at hready
    · change s'.stats.readyTasks.toNat = s'.queued
      rw [hstats, hqueued]
      exact hs.1
    · exact h.of_same hsame.current (by rw [hstats])
  · rw [hres]
    have hready : (s'.makeCurrent how u).ReadyExact ↔ s.ReadyExact := by
      rw [← htook.ready_iff hle]
      cases how with
      | none => exact Iff.rfl
      | some p => exact Iff.rfl
    have hrunning : (s'.makeCurrent how u).RunningExact ↔ s.current = none := by
      have hsum : (s'.makeCurrent how u).RunningExact ↔ s.stats.runningTasks + 1#64 = 1#64 := by
        rw [← hrun]
        cases how with
        | none => exact Iff.rfl
        | some p => exact Iff.rfl
      rw [hsum, h]
      by_cases hcur : s.current = none
      · rw [if_pos hcur]
        exact iff_of_true rfl hcur
      · rw [if_neg hcur]
        exact iff_of_false (by decide) hcur
    exact ⟨fun hs => ⟨hready.1 hs.ready, fun _ => hrunning.1 hs.running⟩,
      fun hs => ⟨hready.2 hs.1, hrunning.2 (hs.2 hsel)⟩⟩

/-- The first part of `schedule`: an expired task is taken off and queued again, or nothing
happens. -/
theorem requeueExpired_outcome (h : s.StatsInv) :
    (∃ t p, s.current = some t ∧ s.currentPriority = some p ∧ s.sliceRemaining = 0#64 ∧
        s.requeueExpired.current = none ∧ s.requeueExpired.InBounds ∧
        s.requeueExpired.RunningExact ∧ (s.requeueExpired.ReadyExact ↔ s.PushesClean p) ∧
        s.requeueExpired.queued ≤ s.requeueExpired.stats.readyTasks.toNat) ∨
      ((s.current ≠ none → s.sliceRemaining = 0#64 → s.currentPriority = none) ∧
        s.requeueExpired = s) := by
  cases hcur : s.current with
  | none => exact Or.inr ⟨fun hne => absurd rfl hne, requeueExpired_of_idle hcur⟩
  | some t =>
  by_cases hslice : s.sliceRemaining = 0#64
  · cases hpri : s.currentPriority with
    | none => exact Or.inr ⟨fun _ _ => rfl, by rw [requeueExpired, hcur, hpri]⟩
    | some p =>
        obtain ⟨hready, hle⟩ := enqueue_ready h.inBounds h.exact.ready t p
        have hrunning : (s.enqueue t p).2.RunningExact :=
          h.exact.running.of_same (s.enqueue_sameTask t p).current (s.enqueue_running t p)
        refine Or.inl ⟨t, p, rfl, rfl, hslice, ?_⟩
        rw [requeueExpired_of_expired hcur hpri hslice]
        exact ⟨rfl, h.inBounds.enqueue t p, hrunning.dropCurrent, hready, hle⟩
  · exact Or.inr ⟨fun _ h0 => absurd h0 hslice, requeueExpired_of_slice hslice⟩

/-- `schedule` keeps the statistics exact exactly under the condition. -/
theorem StatsInv.schedule (h : s.StatsInv) (how : Option Priority) :
    ((s.statsNext (.schedule how)).StatsExact ↔ s.KeepsStats (.schedule how)) ∧
      (s.statsNext (.schedule how)).InBounds := by
  have hclear : s.clearResched.StatsInv := ⟨⟨h.exact.ready, h.exact.running⟩, h.inBounds⟩
  change ((s.clearResched.requeueExpired.select how).StatsExact ↔ _ ∧ _) ∧
    (s.clearResched.requeueExpired.select how).InBounds
  rcases requeueExpired_outcome hclear with
    ⟨t, p, hcur, hpri, hslice, hidle, hb, hrunning, hready, hle⟩ | ⟨hstays, hsame⟩
  · refine ⟨?_, hb.select how⟩
    rw [select_exact hb hle hrunning how, hready]
    constructor
    · rintro ⟨hclean, -⟩
      refine ⟨fun _ _ p' hp' => ?_, fun _ hnone => ?_⟩
      · obtain rfl : p = p' := Option.some.inj (hpri.symm.trans hp')
        exact hclean
      · have hpri' : s.currentPriority = some p := hpri
        rw [hnone hslice] at hpri'
        cases hpri'
    · rintro ⟨hclean, -⟩
      have hne : s.current ≠ none := by
        have hcur' : s.current = some t := hcur
        rw [hcur']
        simp
      exact ⟨hclean hne hslice p hpri, fun _ => hidle⟩
  · rw [hsame]
    refine ⟨?_, hclear.inBounds.select how⟩
    rw [select_exact hclear.inBounds hclear.exact.ready.ge hclear.exact.running how]
    constructor
    · rintro ⟨-, hsel⟩
      refine ⟨fun hne hslice p hp => ?_, fun hne _ hs => hne (hsel hs)⟩
      have hnone : s.currentPriority = none := hstays hne hslice
      rw [hnone] at hp
      cases hp
    · rintro ⟨-, hno⟩
      refine ⟨hclear.exact.ready, fun hs => ?_⟩
      by_contra hne
      exact hno hne (hstays hne) hs

theorem StatsInv.dropCurrent (h : s.StatsInv) : s.dropCurrent.StatsInv :=
  ⟨⟨h.exact.ready, h.exact.running.dropCurrent⟩, h.inBounds⟩

/-- `dequeue` counts the task it takes out. -/
theorem StatsInv.dequeue (h : s.StatsInv) (t : TaskId) (p : Priority) :
    (s.dequeue t p).2.StatsInv := by
  rcases dequeue_outcome h.inBounds t p with hres | ⟨s', hres, htook, hrun⟩
  · rw [hres]
    exact h
  · rw [hres]
    have hready := (htook.ready_iff h.exact.ready.ge).2 h.exact.ready
    exact ⟨⟨hready, h.exact.running.of_same htook.same.current hrun⟩, htook.inBounds⟩

theorem StatsInv.remove (h : s.StatsInv) (t : TaskId) (p : Priority) :
    (s.remove t p).2.StatsInv := by
  have hdequeue := h.dequeue t p
  have htotal : ∀ {s' : Scheduler}, s'.StatsInv → s'.subTotal.StatsInv :=
    fun h' => ⟨⟨h'.exact.ready, h'.exact.running⟩, h'.inBounds⟩
  rw [Scheduler.remove]
  split
  · exact htotal h.dropCurrent
  · split
    · rename_i s' hres
      rw [hres] at hdequeue
      exact htotal hdequeue
    · rename_i s' hres
      rw [hres] at hdequeue
      exact hdequeue

/-- A step leaves the statistics exact exactly if it meets the condition. -/
theorem StatsInv.next_iff (h : s.StatsInv) (c : StatsCall) :
    ((s.statsNext c).StatsExact ↔ s.KeepsStats c) ∧ (s.statsNext c).InBounds := by
  cases c with
  | enqueue t p => exact ⟨h.exact.enqueue h.inBounds t p, h.inBounds.enqueue t p⟩
  | dequeue t p =>
      have hdequeue := h.dequeue t p
      exact ⟨iff_of_true hdequeue.exact trivial, hdequeue.inBounds⟩
  | schedule how => exact h.schedule how
  | tick =>
      change (s.tick.2.StatsExact ↔ True) ∧ s.tick.2.InBounds
      rw [tick]
      split
      · exact ⟨iff_of_true h.exact trivial, h.inBounds⟩
      · exact ⟨iff_of_true ⟨h.exact.ready, h.exact.running⟩ trivial, h.inBounds⟩
  | yieldCurrent t p =>
      change ((s.yieldCurrent t p).2.StatsExact ↔ s.PushesClean p) ∧ (s.yieldCurrent t p).2.InBounds
      rw [yieldCurrent]
      split
      · have hdrop := h.dropCurrent
        exact ⟨hdrop.exact.enqueue hdrop.inBounds t p, hdrop.inBounds.enqueue t p⟩
      · exact ⟨h.exact.enqueue h.inBounds t p, h.inBounds.enqueue t p⟩
  | block t =>
      change ((s.block t).2.StatsExact ↔ True) ∧ (s.block t).2.InBounds
      rw [block]
      split
      · have hdrop := h.dropCurrent
        exact ⟨iff_of_true ⟨hdrop.exact.ready, hdrop.exact.running⟩ trivial, h.inBounds⟩
      · exact ⟨iff_of_true h.exact trivial, h.inBounds⟩
  | wake t p =>
      have hwake : StatsInv
          { s with
            stats := { s.stats with blockedTasks := saturatingPred s.stats.blockedTasks } } :=
        ⟨⟨h.exact.ready, h.exact.running⟩, h.inBounds⟩
      exact ⟨hwake.exact.enqueue hwake.inBounds t p, hwake.inBounds.enqueue t p⟩
  | remove t p =>
      have hremove := h.remove t p
      exact ⟨iff_of_true hremove.exact trivial, hremove.inBounds⟩

end Scheduler

/-- **The statistics are exact exactly if every call keeps them.**  In every run from a new
scheduler, in which each task `schedule` returns is made current with a priority or without,
`ready_tasks` is the number of queued tasks and `running_tasks` is one or zero after every call, if
and only if every push that is accepted finds the slot at `tail` empty, and no task is selected
while there is a current one that is not queued again. -/
theorem scheduler_stats_iff (calls : List StatsCall) :
    Runs.Along Scheduler.statsNext (fun s c => (s.statsNext c).StatsExact) Scheduler.new calls ↔
      Runs.Along Scheduler.statsNext Scheduler.KeepsStats Scheduler.new calls := by
  refine Runs.along_iff (I := Scheduler.StatsInv) (A := fun _ _ => True)
    (fun s c h _ => (h.next_iff c).1) (fun s c h _ hc => ?_) Scheduler.statsInv_new
    (Runs.along_true _ _ _)
  obtain ⟨hexact, hb⟩ := h.next_iff c
  exact ⟨hexact.2 hc, hb⟩

/-- Two tasks are selected one after the other inside the quantum of the first: two are counted as
running. -/
theorem scheduler_counts_two_running :
    ¬Runs.Along Scheduler.statsNext (fun s c => (s.statsNext c).StatsExact) Scheduler.new
      ([.enqueue ⟨1#64⟩ ⟨128#8⟩, .enqueue ⟨2#64⟩ ⟨128#8⟩, .schedule (some ⟨128#8⟩)] ++
        [.schedule (some ⟨128#8⟩)]) := by
  rw [Runs.along_concat]
  rintro ⟨-, hexact⟩
  have hrunning := hexact.running
  revert hrunning
  change _ ≠ _
  decide +kernel

end StarOS
