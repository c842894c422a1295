/-
Strict priority, first in first out inside a level.

`schedule` looks at the bitmap and takes from one ring; what it is for is said by a machine with one
queue of tasks for each level.  The calls that queue, remove and select tasks are shown to run that
machine as long as the rings stay whole, that is, as long as every push finds `tail` behind the last
task and every removal takes the last task.  A removal from further ahead leaves a hole, and
`schedule` returns nothing when it comes to the hole, whatever is queued behind it.

* `StarOS.QueueCall`, `StarOS.queueSystem` — the calls with their results, and their runs;
* `StarOS.TaskQueues.step`, `StarOS.fifoSystem` — the machine of queues;
* `StarOS.Undisturbed` — the steps that keep the rings whole;
* `StarOS.scheduler_strictPriority` — undisturbed runs refine the machine, and `schedule` selects
  the first task of the lowest level that is not empty;
* `StarOS.scheduler_stops_at_hole` — a run with a removal after which `schedule` finds nothing.
-/

import StarOS.Runs
import StarOS.Scheduler

set_option autoImplicit false

namespace StarOS

/-! ### Calls and machines -/

/-- A call that queues, removes or selects tasks, with its result. -/
inductive QueueCall where
  | enqueue (t : TaskId) (p : Priority) (r : Except KernelError Unit)
  | dequeue (t : TaskId) (p : Priority) (r : Bool)
  | remove (t : TaskId) (p : Priority) (r : Bool)
  | schedule (r : Option TaskId)

/-- The state after a call with this result. -/
def Scheduler.queueStep (s : Scheduler) (c : QueueCall) (s' : Scheduler) : Prop :=
  match c with
  | .enqueue t p r => s.enqueue t p = (r, s')
  | .dequeue t p r => s.dequeue t p = (r, s')
  | .remove t p r => s.remove t p = (r, s')
  | .schedule r => s.schedule = (r, s')

/-- The runs of these calls from a new scheduler. -/
def queueSystem : Runs.System Scheduler QueueCall where
  init := fun s => s = Scheduler.new
  step := Scheduler.queueStep

/-- A step of the queues: a task is appended to its level unless that is full, one occurrence of a
task is taken out of its level, and the first task of the lowest level that is not empty is
selected. -/
def TaskQueues.step (Q : TaskQueues) (c : QueueCall) (Q' : TaskQueues) : Prop :=
  match c with
  | .enqueue t p r =>
      ((Q p.level).length < queueSlots ∧ r = .ok () ∧
          Q' = Function.update Q p.level (Q p.level ++ [t])) ∨
        (queueSlots ≤ (Q p.level).length ∧ r = .error (.process .tooManyProcesses) ∧ Q' = Q)
  | .dequeue t p r | .remove t p r =>
      (r = true ∧ ∃ l l', Q p.level = l ++ t :: l' ∧ Q' = Function.update Q p.level (l ++ l')) ∨
        (r = false ∧ t ∉ Q p.level ∧ Q' = Q)
  | .schedule r =>
      (r = none ∧ (∀ p, Q p = []) ∧ Q' = Q) ∨
        ∃ p t l, r = some t ∧ Q p = t :: l ∧ (∀ q < p, Q q = []) ∧ Q' = Function.update Q p l

/-- The runs of the queues from empty queues. -/
def fifoSystem : Runs.System TaskQueues QueueCall where
  init := fun Q => Q = fun _ => []
  step := TaskQueues.step

/-- The steps that keep the rings whole: a push that is accepted finds `tail` behind the last task,
and a removal that finds its task finds it in the last slot. -/
def Undisturbed (s : Scheduler) : QueueCall → Prop
  | .enqueue _ p _ => (s.runQueues p.level).InStep
  | .dequeue t p _ => (s.runQueues p.level).AtTail t
  | .remove t p _ => (s.runQueues p.level).AtTail t
  | .schedule _ => True

/-! ### Refinement -/

namespace Scheduler

variable {s s' : Scheduler} {Q : TaskQueues}

/-- Without a current task, `schedule` only selects. -/
theorem schedule_of_idle (h : s.current = none) : s.schedule = s.clearResched.pickNext := by
  rw [schedule, requeueExpired_of_idle (s := s.clearResched) h]

/-- Without a current task, `schedule` finds nothing queued, or takes the first task of the lowest
level that is not empty. -/
theorem Rep.schedule_cases (h : s.Rep Q) (hidle : s.current = none) :
    ∃ s', s'.current = none ∧
      (((∀ p, Q p = []) ∧ s.schedule = (none, s') ∧ s'.Rep Q) ∨
        ∃ p t l, Q p = t :: l ∧ (∀ r < p, Q r = []) ∧ s.schedule = (some t, s') ∧
          s'.Rep (Function.update Q p l)) := by
  have hrep : s.clearResched.Rep Q := h.congr rfl rfl
  rw [schedule_of_idle hidle]
  rcases hrep.pickNext_cases with ⟨hempty, hpick⟩ | ⟨p, t, l, hl, hbelow, s', hpick, hsame, hrep'⟩
  · exact ⟨s.clearResched, hidle, Or.inl ⟨hempty, hpick, hrep⟩⟩
  · exact ⟨s', hsame.current.trans hidle, Or.inr ⟨p, t, l, hl, hbelow, hpick, hrep'⟩⟩

/-- A removal from the last slot is a removal from the queue. -/
theorem Rep.dequeue_step (h : s.Rep Q) (hidle : s.current = none) {t : TaskId} {p : Priority}
    {r : Bool} (hlast : (s.runQueues p.level).AtTail t) (hs : s.dequeue t p = (r, s')) :
    ∃ Q', Q.step (.dequeue t p r) Q' ∧ s'.Rep Q' ∧ s'.current = none := by
  rcases h.dequeue_cases t p with ⟨hnot, hres⟩ | ⟨-, s₁, hres, hsame, hrep⟩
  · rw [hres] at hs
    cases hs
    exact ⟨Q, Or.inr ⟨rfl, hnot, rfl⟩, h, hidle⟩
  · rw [hres] at hs
    cases hs
    obtain ⟨l, hl, hrep'⟩ := hrep hlast
    refine ⟨_, Or.inl ⟨rfl, l, [], hl, rfl⟩, ?_, hsame.current.trans hidle⟩
    rw [List.append_nil]
    exact hrep'

/-- One undisturbed step is a step of the queues. -/
theorem Rep.queueStep (h : s.Rep Q) (hidle : s.current = none) {c : QueueCall}
    (hg : Undisturbed s c) (hs : s.queueStep c s') :
    ∃ Q', Q.step c Q' ∧ s'.Rep Q' ∧ s'.current = none := by
  cases c with
  | enqueue t p r =>
      rw [Scheduler.queueStep] at hs
      rcases h.enqueue_cases t p with ⟨hfull, hres⟩ | ⟨hroom, s₁, hres, hsame, hrep⟩
      · rw [hres] at hs
        cases hs
        exact ⟨Q, Or.inr ⟨hfull, rfl, rfl⟩, h, hidle⟩
      · rw [hres] at hs
        cases hs
        exact ⟨_, Or.inl ⟨hroom, rfl, rfl⟩, hrep hg, hsame.current.trans hidle⟩
  | dequeue t p r => exact h.dequeue_step hidle hg hs
  | remove t p r =>
      -- nobody is running, so `remove` is `dequeue` and a count
      rw [Scheduler.queueStep, remove, if_neg (by rw [hidle]; simp)] at hs
      cases hd : s.dequeue t p with
      | mk b s₁ =>
          rw [hd] at hs
          obtain ⟨Q', hstep, hrep, hidle'⟩ := h.dequeue_step hidle hg hd
          cases b with
          | false =>
              cases hs
              exact ⟨Q', hstep, hrep, hidle'⟩
          | true =>
              cases hs
              exact ⟨Q', hstep, hrep.congr rfl rfl, hidle'⟩
  | schedule r =>
      rw [Scheduler.queueStep] at hs
      obtain ⟨s₁, hidle', ⟨hempty, hres, hrep⟩ | ⟨p, t, l, hl, hbelow, hres, hrep⟩⟩ :=
        h.schedule_cases hidle
      · rw [hres] at hs
        cases hs
        exact ⟨Q, Or.inl ⟨rfl, hempty, rfl⟩, hrep, hidle'⟩
      · rw [hres] at hs
        cases hs
        exact ⟨_, Or.inr ⟨p, t, l, rfl, hl, hbelow, rfl⟩, hrep, hidle'⟩

/-- A bit is set exactly when a slot of the ring holds a task. -/
theorem Rep.isSet_iff (h : s.Rep Q) (p : BitVec 8) :
    s.priorityBitmap.isSet p = true ↔
      ∃ i < queueSlots, (s.runQueues p).tasks i ≠ none := by
  rw [h.bitmap p]
  constructor
  · intro hne
    obtain ⟨t, ht⟩ := List.exists_mem_of_ne_nil _ hne
    obtain ⟨i, hi, hit⟩ := ((h.queues p).holds.mem_iff (by decide)).1 ht
    exact ⟨i, hi, by rw [hit]; simp⟩
  · rintro ⟨i, hi, hne⟩
    obtain ⟨t, ht⟩ := Option.ne_none_iff_exists'.1 hne
    exact List.ne_nil_of_mem (((h.queues p).holds.mem_iff (by decide)).2 ⟨i, hi, ht⟩)

end Scheduler

/-- **Strict priority, first in first out inside a level.**  An undisturbed run is a run of the
queues; in the state it reaches, `schedule` returns the first task of the lowest level that is not
empty, returns nothing exactly when nothing is queued, and leaves a bit set exactly for the levels
whose run queue still holds a task. -/
theorem scheduler_strictPriority {tr : List QueueCall} {s : Scheduler}
    (h : queueSystem.Exec Undisturbed tr s) :
    ∃ Q, fifoSystem.Exec Runs.anyStep tr Q ∧
      (∀ p t l, Q p = t :: l → (∀ r < p, Q r = []) → s.schedule.1 = some t) ∧
      (s.schedule.1 = none ↔ ∀ p, Q p = []) ∧
      ∀ p, s.schedule.2.priorityBitmap.isSet p = true ↔
        ∃ i < queueSlots, (s.schedule.2.runQueues p).tasks i ≠ none := by
  obtain ⟨Q, hQ, hrep, hidle⟩ := h.simulates (N := fifoSystem)
    (R := fun s Q => s.Rep Q ∧ s.current = none)
    (fun s₀ (h₀ : s₀ = Scheduler.new) => ⟨fun _ => [], rfl, h₀ ▸ Scheduler.rep_new, h₀ ▸ rfl⟩)
    (fun _ _ _ _ hr hg hs => hr.1.queueStep hr.2 hg hs)
  refine ⟨Q, hQ, ?_⟩
  obtain ⟨s', -, ⟨hempty, hres, hrep'⟩ | ⟨p, t, l, hl, hbelow, hres, hrep'⟩⟩ :=
    hrep.schedule_cases hidle
  · rw [hres]
    refine ⟨fun p t l hl => ?_, ⟨fun _ => hempty, fun _ => rfl⟩, hrep'.isSet_iff⟩
    rw [hempty p] at hl
    exact absurd hl (by simp)
  · rw [hres]
    refine ⟨fun q u m hm hq => ?_, ⟨fun hnone => absurd hnone (by simp), fun hempty => ?_⟩,
      hrep'.isSet_iff⟩
    · -- two lowest levels are the same level
      have hqp : q = p := by
        rcases BitVec.lt_trichotomy q p with hlt | heq | hgt
        · rw [hbelow q hlt] at hm
          exact absurd hm (by simp)
        · exact heq
        · rw [hq p hgt] at hl
          exact absurd hl (by simp)
      rw [hqp, hl] at hm
      cases hm
      rfl
    · rw [hempty p] at hl
      exact absurd hl (by simp)

/-- Queueing one task is an undisturbed run. -/
theorem scheduler_strictPriority_one :
    ∃ Q, fifoSystem.Exec Runs.anyStep [.enqueue ⟨1#64⟩ ⟨128#8⟩ (.ok ())] Q ∧
      ((Scheduler.new.enqueue ⟨1#64⟩ ⟨128#8⟩).2.schedule.1 = none ↔ ∀ p, Q p = []) := by
  have hrun : queueSystem.Exec Undisturbed [.enqueue ⟨1#64⟩ ⟨128#8⟩ (.ok ())]
      (Scheduler.new.enqueue ⟨1#64⟩ ⟨128#8⟩).2 :=
    (.init rfl : queueSystem.Exec Undisturbed [] Scheduler.new).step (fun _ => rfl) rfl
  obtain ⟨Q, hQ, -, hnone, -⟩ := scheduler_strictPriority hrun
  exact ⟨Q, hQ, hnone⟩

/-- Two tasks are queued at one level and the first is removed: `schedule` finds nothing, although
the second task is still queued. -/
theorem scheduler_stops_at_hole :
    let s := ((Scheduler.new.enqueue ⟨1#64⟩ ⟨128#8⟩).2.enqueue ⟨2#64⟩ ⟨128#8⟩).2
    let s' := (s.dequeue ⟨1#64⟩ ⟨128#8⟩).2
    queueSystem.Reach Runs.anyStep s' ∧ (s'.runQueues 128#8).tasks 1 = some ⟨2#64⟩ ∧
      s'.schedule.1 = none := by
  intro s s'
  have h0 : queueSystem.Reach Runs.anyStep Scheduler.new := .init rfl
  have h1 : queueSystem.Reach Runs.anyStep (Scheduler.new.enqueue ⟨1#64⟩ ⟨128#8⟩).2 :=
    h0.step (a := .enqueue ⟨1#64⟩ ⟨128#8⟩ _) trivial rfl
  have h2 : queueSystem.Reach Runs.anyStep s :=
    h1.step (a := .enqueue ⟨2#64⟩ ⟨128#8⟩ _) trivial rfl
  have h3 : queueSystem.Reach Runs.anyStep s' :=
    h2.step (a := .dequeue ⟨1#64⟩ ⟨128#8⟩ _) trivial rfl
  exact ⟨h3, by decide +kernel, by decide +kernel⟩

end StarOS
