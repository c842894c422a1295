/-
Calls on the scheduler one at a time: what a failed one leaves behind, and at which level a task is
queued again.

`yield_current` and `wake` change the current task and the statistics before they call `enqueue`,
which may find the queue full; then the change stays, although the call has failed.  `enqueue` and
`block` look first.

The current task and its priority are two fields.  `block`, `yield_current` and `remove` clear the
first only, and `set_current` sets the first only, so that a priority may survive from one task to
the next; `schedule` uses it when the quantum of that next task has expired.

* `StarOS.SchedulerCall`, `StarOS.Scheduler.next` — the calls;
* `StarOS.Scheduler.FailsUnchanged`, `StarOS.Scheduler.FailsEarly` — a failed call changes nothing,
  and the condition for it;
* `StarOS.scheduler_failures_iff`, `StarOS.scheduler_failure_idles` — the law along a run, and a run
  that breaks it;
* `StarOS.LevelRun` — a scheduler with the level each task was last taken from;
* `StarOS.scheduler_requeues_in_place`, `StarOS.scheduler_requeues_elsewhere` — a task goes back to
  its level, and a run in which it does not.
-/

import StarOS.Runs
import StarOS.Scheduler

set_option autoImplicit false

namespace StarOS

/-- A call on the scheduler. -/
inductive SchedulerCall where
  | enqueue (t : TaskId) (p : Priority)
  | dequeue (t : TaskId) (p : Priority)
  | schedule
  | tick
  | yieldCurrent (t : TaskId) (p : Priority)
  | block (t : TaskId)
  | wake (t : TaskId) (p : Priority)
  | remove (t : TaskId) (p : Priority)
  | setCurrent (t : TaskId)
  | setCurrentWithPriority (t : TaskId) (p : Priority)
  | setIdleTask (t : TaskId)

namespace Scheduler

/-- The state a call leaves behind. -/
def next (s : Scheduler) : SchedulerCall → Scheduler
  | .enqueue t p => (s.enqueue t p).2
  | .dequeue t p => (s.dequeue t p).2
  | .schedule => s.schedule.2
  | .tick => s.tick.2
  | .yieldCurrent t p => (s.yieldCurrent t p).2
  | .block t => (s.block t).2
  | .wake t p => (s.wake t p).2
  | .remove t p => (s.remove t p).2
  | .setCurrent t => s.setCurrent t
  | .setCurrentWithPriority t p => s.setCurrentWithPriority t p
  | .setIdleTask t => s.setIdleTask t

/-! ### Failed calls -/

/-- The run queues, the bitmap, the current task with its priority and the statistics are as
before. -/
structure Unchanged (s s' : Scheduler) : Prop where
  runQueues : s'.runQueues = s.runQueues
  priorityBitmap : s'.priorityBitmap = s.priorityBitmap
  current : s'.current = s.current
  currentPriority : s'.currentPriority = s.currentPriority
  stats : s'.stats = s.stats

/-- If the result is an error, nothing has changed. -/
def ErrorUnchanged (s : Scheduler) (r : Except KernelError Unit × Scheduler) : Prop :=
  ∀ e, r.1 = .error e → s.Unchanged r.2

/-- A failed call changes nothing. -/
def FailsUnchanged (s : Scheduler) : SchedulerCall → Prop
  | .enqueue t p => s.ErrorUnchanged (s.enqueue t p)
  | .yieldCurrent t p => s.ErrorUnchanged (s.yieldCurrent t p)
  | .block t => s.ErrorUnchanged (s.block t)
  | .wake t p => s.ErrorUnchanged (s.wake t p)
  | _ => True

/-- A call that finds the queue full has changed nothing before. -/
def FailsEarly (s : Scheduler) : SchedulerCall → Prop
  | .yieldCurrent t p =>
      queueSlots ≤ (s.runQueues p.level).count.toNat → s.current ≠ some t
  | .wake _ p =>
      queueSlots ≤ (s.runQueues p.level).count.toNat → s.stats.blockedTasks = 0#64
  | _ => True

variable {s : Scheduler} {t : TaskId} {p : Priority}

/-- An accepted call has no error. -/
theorem errorUnchanged_ok (s s' : Scheduler) : s.ErrorUnchanged (.ok (), s') :=
  fun _ h => by cases h

theorem errorUnchanged_error {e : KernelError} {s' : Scheduler} :
    s.ErrorUnchanged (.error e, s') ↔ s.Unchanged s' :=
  ⟨fun h => h e rfl, fun h _ _ => h⟩

theorem unchanged_refl (s : Scheduler) : s.Unchanged s := ⟨rfl, rfl, rfl, rfl, rfl⟩

/-- A call that changes the state and then calls `enqueue` is atomic exactly if the change is none
or the queue has room. -/
theorem errorUnchanged_enqueue {s' : Scheduler} (hqueues : s'.runQueues = s.runQueues) :
    s.ErrorUnchanged (s'.enqueue t p) ↔
      (queueSlots ≤ (s.runQueues p.level).count.toNat → s.Unchanged s') := by
  rcases Nat.lt_or_ge (s.runQueues p.level).count.toNat queueSlots with hroom | hfull
  · rw [enqueue_of_room t (by rw [hqueues]; exact hroom)]
    exact iff_of_true (errorUnchanged_ok _ _) fun hle => absurd hle (by omega)
  · rw [enqueue_of_full t (by rw [hqueues]; exact hfull), errorUnchanged_error]
    exact ⟨fun h _ => h, fun h => h hfull⟩

/-- Each call keeps the law exactly if it meets the condition. -/
theorem failsUnchanged_iff (s : Scheduler) (c : SchedulerCall) :
    s.FailsUnchanged c ↔ s.FailsEarly c := by
  cases c with
  | enqueue t p =>
      refine iff_of_true ?_ trivial
      exact (errorUnchanged_enqueue rfl).2 fun _ => unchanged_refl s
  | yieldCurrent t p =>
      change s.ErrorUnchanged (s.yieldCurrent t p) ↔ (_ → s.current ≠ some t)
      rw [yieldCurrent]
      by_cases hcur : s.current = some t
      · rw [if_pos hcur]
        refine (errorUnchanged_enqueue (by rfl)).trans ?_
        refine imp_congr_right fun _ => iff_of_false (fun h => ?_) (not_not.2 hcur)
        have hnone : none = s.current := h.current
        rw [hcur] at hnone
        cases hnone
      · rw [if_neg hcur]
        refine (errorUnchanged_enqueue (by rfl)).trans ?_
        exact imp_congr_right fun _ => iff_of_true (unchanged_refl s) hcur
  | block t =>
      refine iff_of_true ?_ trivial
      change s.ErrorUnchanged (s.block t)
      rw [block]
      split
      · exact errorUnchanged_ok _ _
      · exact errorUnchanged_error.2 (unchanged_refl s)
  | wake t p =>
      change s.ErrorUnchanged (s.wake t p) ↔ (_ → s.stats.blockedTasks = 0#64)
      rw [wake]
      refine (errorUnchanged_enqueue (by rfl)).trans ?_
      refine imp_congr_right fun _ => ⟨fun h => ?_, fun h0 => ⟨rfl, rfl, rfl, rfl, ?_⟩⟩
      · have hpred : saturatingPred s.stats.blockedTasks = s.stats.blockedTasks :=
          congrArg SchedulerStats.blockedTasks h.stats
        by_contra hne
        rw [saturatingPred, if_neg hne] at hpred
        bv_omega
      · have hpred : saturatingPred s.stats.blockedTasks = s.stats.blockedTasks := by
          rw [saturatingPred, if_pos h0, h0]
        dsimp only
        rw [hpred]
  | _ => exact Iff.rfl

end Scheduler

/-- **Failed operations change nothing exactly if they fail early.**  In every run from a new
scheduler, every call of `enqueue`, `yield_current`, `wake` and `block` that returns an error leaves
the queues, the bitmap, the current task and the statistics as they were, if and only if no call of
`yield_current` by the current task and no call of `wake` with a blocked task counted finds its
queue full. -/
theorem scheduler_failures_iff (calls : List SchedulerCall) :
    Runs.Along Scheduler.next Scheduler.FailsUnchanged Scheduler.new calls ↔
      Runs.Along Scheduler.next Scheduler.FailsEarly Scheduler.new calls :=
  Runs.along_iff (I := fun _ => True) (A := fun _ _ => True)
    (fun s c _ _ => s.failsUnchanged_iff c) (fun _ _ _ _ _ => trivial) trivial
    (Runs.along_true _ _ _)

/-- A task runs, 64 others fill a level, and the task yields to that level: the call fails, and no
task is current any more. -/
theorem scheduler_failure_idles :
    ¬Runs.Along Scheduler.next Scheduler.FailsUnchanged Scheduler.new
      ([.enqueue ⟨100#64⟩ ⟨128#8⟩, .schedule, .setCurrentWithPriority ⟨100#64⟩ ⟨128#8⟩] ++
        ((List.range 64).map fun i => .enqueue ⟨BitVec.ofNat 64 i⟩ ⟨128#8⟩) ++
        [.yieldCurrent ⟨100#64⟩ ⟨128#8⟩]) := by
  rw [Runs.along_concat, Scheduler.failsUnchanged_iff]
  rintro ⟨-, hearly⟩
  exact hearly (by decide +kernel) (by decide +kernel)

/-! ### The level of a task -/

/-- A scheduler with the level from which `schedule` last took each task, and the level from which
the current task was taken before it was made current. -/
structure LevelRun where
  sched : Scheduler
  taken : TaskId → Option (BitVec 8)
  level : Option (BitVec 8)

namespace Scheduler

variable {s s' s'' : Scheduler}

/-- A task that is current was current before, with the same priority cached. -/
def StaysCached (s s' : Scheduler) : Prop := s'.current ≠ none → s.SameTask s'

theorem StaysCached.trans (h : s.StaysCached s') (h' : s'.StaysCached s'') :
    s.StaysCached s'' := by
  intro hcur
  have hlast := h' hcur
  have hfirst := h (by rw [← hlast.current]; exact hcur)
  exact ⟨hlast.current.trans hfirst.current, hlast.currentPriority.trans hfirst.currentPriority⟩

theorem staysCached_of_idle (h : s'.current = none) : s.StaysCached s' := fun hne => absurd h hne

theorem enqueue_sameTask (s : Scheduler) (t : TaskId) (p : Priority) :
    s.SameTask (s.enqueue t p).2 := by
  rcases Nat.lt_or_ge (s.runQueues p.level).count.toNat queueSlots with hroom | hfull
  · rw [enqueue_of_room t hroom]
    exact ⟨rfl, rfl⟩
  · rw [enqueue_of_full t hfull]
    exact ⟨rfl, rfl⟩

/-- Only the queue of the level changes. -/
theorem enqueue_runQueues_of_ne {t : TaskId} {p : Priority} {q : BitVec 8} (hq : q ≠ p.level) :
    (s.enqueue t p).2.runQueues q = s.runQueues q := by
  rcases Nat.lt_or_ge (s.runQueues p.level).count.toNat queueSlots with hroom | hfull
  · rw [enqueue_of_room t hroom]
    exact Function.update_of_ne hq _ _
  · rw [enqueue_of_full t hfull]

theorem dequeue_sameTask (s : Scheduler) (t : TaskId) (p : Priority) :
    s.SameTask (s.dequeue t p).2 := by
  rw [dequeue]
  dsimp only
  split
  · exact ⟨rfl, rfl⟩
  · dsimp only
    split
    · exact ⟨rfl, rfl⟩
    · exact ⟨rfl, rfl⟩

theorem pickNext_sameTask (s : Scheduler) : s.SameTask s.pickNext.2 := by
  rw [pickNext]
  split
  · exact ⟨rfl, rfl⟩
  · split
    · exact ⟨rfl, rfl⟩
    · dsimp only
      split
      · exact ⟨rfl, rfl⟩
      · exact ⟨rfl, rfl⟩

/-- A current task that is queued again is not current any more. -/
theorem requeueExpired_staysCached (s : Scheduler) : s.StaysCached s.requeueExpired := by
  rw [requeueExpired]
  split
  · split
    · exact staysCached_of_idle rfl
    · exact fun _ => ⟨rfl, rfl⟩
  · exact fun _ => ⟨rfl, rfl⟩

theorem schedule_staysCached (s : Scheduler) : s.StaysCached s.schedule.2 := by
  have hclear : s.StaysCached s.clearResched := fun _ => ⟨rfl, rfl⟩
  have hrequeue := s.clearResched.requeueExpired_staysCached
  exact (hclear.trans hrequeue).trans fun _ => pickNext_sameTask _

/-- Only the two calls that make a task current change which one it is, or its priority. -/
theorem next_staysCached (s : Scheduler) {c : SchedulerCall} (hset : ∀ t, c ≠ .setCurrent t)
    (hsetp : ∀ t p, c ≠ .setCurrentWithPriority t p) : s.StaysCached (s.next c) := by
  cases c with
  | enqueue t p => exact fun _ => s.enqueue_sameTask t p
  | dequeue t p => exact fun _ => s.dequeue_sameTask t p
  | schedule => exact s.schedule_staysCached
  | tick =>
      change s.StaysCached s.tick.2
      rw [tick]
      split
      · exact fun _ => ⟨rfl, rfl⟩
      · exact fun _ => ⟨rfl, rfl⟩
  | yieldCurrent t p =>
      change s.StaysCached (s.yieldCurrent t p).2
      rw [yieldCurrent]
      split
      · exact staysCached_of_idle (enqueue_sameTask _ t p).current
      · exact fun _ => s.enqueue_sameTask t p
  | block t =>
      change s.StaysCached (s.block t).2
      rw [block]
      split
      · exact staysCached_of_idle rfl
      · exact fun _ => ⟨rfl, rfl⟩
  | wake t p =>
      have hwake := enqueue_sameTask
        { s with stats := { s.stats with blockedTasks := saturatingPred s.stats.blockedTasks } } t p
      exact fun _ => ⟨hwake.current, hwake.currentPriority⟩
  | remove t p =>
      have hdequeue := s.dequeue_sameTask t p
      change s.StaysCached (s.remove t p).2
      rw [remove]
      split
      · exact staysCached_of_idle rfl
      · split
        · rename_i s' hres
          rw [hres] at hdequeue
          exact fun _ => ⟨hdequeue.current, hdequeue.currentPriority⟩
        · rename_i s' hres
          rw [hres] at hdequeue
          exact fun _ => hdequeue
  | setCurrent t => exact absurd rfl (hset t)
  | setCurrentWithPriority t p => exact absurd rfl (hsetp t p)
  | setIdleTask t => exact fun _ => ⟨rfl, rfl⟩

end Scheduler

namespace LevelRun

/-- Recording the level `schedule` took a task from: the one the bitmap found. -/
def recordTaken (l : LevelRun) : Option TaskId × Scheduler → LevelRun
  | (some t, s) =>
      { l with
        sched := s
        taken := Function.update l.taken t
          l.sched.clearResched.requeueExpired.priorityBitmap.findHighest }
  | (none, s) => { l with sched := s }

/-- The state a call leaves behind. -/
def next (l : LevelRun) : SchedulerCall → LevelRun
  | .schedule => l.recordTaken l.sched.schedule
  | .setCurrent t => ⟨l.sched.setCurrent t, l.taken, l.taken t⟩
  | .setCurrentWithPriority t p => ⟨l.sched.setCurrentWithPriority t p, l.taken, l.taken t⟩
  | c => { l with sched := l.sched.next c }

/-- A new scheduler. -/
def start : LevelRun := ⟨Scheduler.new, fun _ => none, none⟩

/-- A task is made current only after `schedule` has returned it. -/
def Permits (l : LevelRun) : SchedulerCall → Prop
  | .setCurrent t | .setCurrentWithPriority t _ => l.taken t ≠ none
  | _ => True

/-- The only queue that changes when `schedule` queues an expired current task again is that of the
level the task was taken from. -/
def RequeuesInPlace (l : LevelRun) : SchedulerCall → Prop
  | .schedule => ∀ q, l.sched.clearResched.requeueExpired.runQueues q ≠ l.sched.runQueues q →
      l.level = some q
  | _ => True

/-- A task is made current with the level it was taken from, or without a priority while none or
just that one is cached. -/
def CachesLevel (l : LevelRun) : SchedulerCall → Prop
  | .setCurrent t => ∀ p, l.sched.currentPriority = some p → l.taken t = some p.level
  | .setCurrentWithPriority t p => l.taken t = some p.level
  | _ => True

/-- The cached priority, while there is a current task, is the level that task was taken from. -/
def Inv (l : LevelRun) : Prop :=
  l.sched.current ≠ none → ∀ p, l.sched.currentPriority = some p → l.level = some p.level

variable {l : LevelRun}

theorem Inv.of_staysCached {l' : LevelRun} (h : l.Inv) (hlevel : l'.level = l.level)
    (hstays : l.sched.StaysCached l'.sched) : l'.Inv := by
  intro hcur p hp
  have hsame := hstays hcur
  rw [hlevel]
  exact h (by rw [← hsame.current]; exact hcur) p (by rw [← hsame.currentPriority]; exact hp)

theorem Inv.next {c : SchedulerCall} (h : l.Inv) (hc : l.CachesLevel c) : (l.next c).Inv := by
  cases c with
  | schedule =>
      have hstays := l.sched.schedule_staysCached
      change (l.recordTaken l.sched.schedule).Inv
      rcases hres : l.sched.schedule with ⟨_ | t, s⟩
      all_goals rw [hres] at hstays
      · exact h.of_staysCached rfl hstays
      · exact h.of_staysCached rfl hstays
  | setCurrent t => exact fun _ p hp => hc p hp
  | setCurrentWithPriority t p =>
      intro _ q hq
      obtain rfl : p = q := Option.some.inj hq
      exact hc
  | _ =>
      exact h.of_staysCached rfl (l.sched.next_staysCached (by intros; simp) (by intros; simp))

/-- With the right level cached, the task goes back where it came from. -/
theorem Inv.requeuesInPlace (h : l.Inv) (c : SchedulerCall) : l.RequeuesInPlace c := by
  cases c with
  | schedule =>
      intro q hq
      rw [Scheduler.requeueExpired] at hq
      split at hq
      · rename_i t p hcur hpri
        have hcur : l.sched.current = some t := hcur
        split at hq
        · by_contra hne
          rw [h (by rw [hcur]; simp) p hpri] at hne
          have hother : q ≠ p.level := fun he => hne (congrArg some he.symm)
          exact hq (Scheduler.enqueue_runQueues_of_ne (s := l.sched.clearResched) hother)
        · exact absurd rfl hq
      · exact absurd rfl hq
  | _ => trivial

end LevelRun

/-- **A task goes back to the level it was taken from while that level is the one cached.**  In
every run whose calls of `set_current_with_priority` pass the level the task was taken from, and
whose calls of `set_current` find no priority cached or just that level, the only queue that
changes when `schedule` queues an expired task again is that of the level the task was taken
from. -/
theorem scheduler_requeues_in_place {calls : List SchedulerCall}
    (h : Runs.Along LevelRun.next LevelRun.CachesLevel LevelRun.start calls) :
    Runs.Along LevelRun.next LevelRun.RequeuesInPlace LevelRun.start calls :=
  Runs.along_of (I := LevelRun.Inv) (fun _ c hinv hc => ⟨hinv.next hc, hinv.requeuesInPlace c⟩)
    (fun hcur => absurd rfl hcur) h

/-- A task that runs out of its quantum is queued again at its level. -/
theorem scheduler_requeues_in_place_one :
    Runs.Along LevelRun.next LevelRun.RequeuesInPlace LevelRun.start
      ([.enqueue ⟨1#64⟩ ⟨100#8⟩, .schedule, .setCurrentWithPriority ⟨1#64⟩ ⟨100#8⟩] ++
        List.replicate 10 .tick ++ [.schedule]) := by
  refine scheduler_requeues_in_place ⟨trivial, trivial, ?_, ?_⟩
  · change _ = some _
    decide +kernel
  · repeat' constructor

/-- A task of level 10 blocks, and the next task, of level 100, is made current without a priority.
When its quantum has expired, it is queued at level 10. -/
theorem scheduler_requeues_elsewhere :
    ∃ calls, Runs.Along LevelRun.next LevelRun.Permits LevelRun.start calls ∧
      ¬Runs.Along LevelRun.next LevelRun.RequeuesInPlace LevelRun.start calls := by
  refine ⟨[.enqueue ⟨1#64⟩ ⟨10#8⟩, .enqueue ⟨2#64⟩ ⟨100#8⟩, .schedule,
    .setCurrentWithPriority ⟨1#64⟩ ⟨10#8⟩, .block ⟨1#64⟩, .schedule, .setCurrent ⟨2#64⟩] ++
    List.replicate 10 .tick ++ [.schedule], ?_, ?_⟩
  · refine ⟨trivial, trivial, trivial, ?_, trivial, trivial, ?_, ?_⟩
    · change _ ≠ none
      decide +kernel
    · change _ ≠ none
      decide +kernel
    · repeat' constructor
  · rw [Runs.along_concat]
    rintro ⟨-, hplace⟩
    have hlevel := hplace 10#8 fun hsame => ?_
    · revert hlevel
      decide +kernel
    · have hcount := congrArg RunQueue.count hsame
      revert hcount
      decide +kernel

end StarOS
