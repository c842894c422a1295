/-
No task is lost and none is doubled.

A ledger is kept beside the scheduler: which tasks have been admitted and not removed, and which of
these are blocked.  Every admitted task should then be in exactly one place, in one slot of the run
queue of its own priority, or current, or blocked.  This holds along all runs whose steps find the
rings in step, find room for a task that must be enqueued again, and do not select a task while the
current one is still inside its slice; in each of the other cases the code drops a task.

* `StarOS.TaskCall`, `StarOS.Ledger`, `StarOS.ledgerSystem` — the calls, the ledger, and the runs in
  which a task is queued only when it is in no place;
* `StarOS.Lossless` — the condition on the state before a call;
* `StarOS.Ledger.Sound` — the invariant;
* `StarOS.scheduler_keeps_tasks` — every admitted task is in exactly one place;
* `StarOS.scheduler_drops_current` — a run in which `schedule` drops the current task.
-/

import StarOS.Runs
import StarOS.Scheduler

set_option autoImplicit false

namespace StarOS

/-! ### Calls and the ledger -/

/-- A call about a task, which is passed at the task's own priority. -/
inductive TaskCall where
  | enqueue (t : TaskId)
  | dequeue (t : TaskId)
  /-- `schedule`, followed by `set_current_with_priority` if it selected a task. -/
  | schedule
  | tick
  | yieldCurrent (t : TaskId)
  | block (t : TaskId)
  | wake (t : TaskId)
  | remove (t : TaskId)

/-- The scheduler with the tasks admitted and not yet removed, and the blocked ones among them. -/
structure Ledger where
  sched : Scheduler
  admitted : TaskId → Bool
  blocked : TaskId → Bool

namespace Ledger

/-- Booking the result of a call that queues a task. -/
def bookQueued (l : Ledger) (t : TaskId) : Except KernelError Unit × Scheduler → Ledger
  | (.ok (), s) => ⟨s, Function.update l.admitted t true, Function.update l.blocked t false⟩
  | (.error _, s) => ⟨s, l.admitted, l.blocked⟩

/-- Booking the result of a call that takes a task out. -/
def bookRemoved (l : Ledger) (t : TaskId) : Bool × Scheduler → Ledger
  | (true, s) => ⟨s, Function.update l.admitted t false, Function.update l.blocked t false⟩
  | (false, s) => ⟨s, l.admitted, l.blocked⟩

/-- Booking the result of `block`. -/
def bookBlocked (l : Ledger) (t : TaskId) : Except KernelError Unit × Scheduler → Ledger
  | (.ok (), s) => ⟨s, l.admitted, Function.update l.blocked t true⟩
  | (.error _, s) => ⟨s, l.admitted, l.blocked⟩

/-- Making the task that `schedule` selected the current one. -/
def bookScheduled (l : Ledger) (prio : TaskId → Priority) : Option TaskId × Scheduler → Ledger
  | (some t, s) => ⟨s.setCurrentWithPriority t (prio t), l.admitted, l.blocked⟩
  | (none, s) => ⟨s, l.admitted, l.blocked⟩

/-- The ledger after a call. -/
def next (prio : TaskId → Priority) (l : Ledger) : TaskCall → Ledger
  | .enqueue t => l.bookQueued t (l.sched.enqueue t (prio t))
  | .dequeue t => l.bookRemoved t (l.sched.dequeue t (prio t))
  | .schedule => l.bookScheduled prio l.sched.schedule
  | .tick => ⟨l.sched.tick.2, l.admitted, l.blocked⟩
  | .yieldCurrent t => l.bookQueued t (l.sched.yieldCurrent t (prio t))
  | .block t => l.bookBlocked t (l.sched.block t)
  | .wake t => l.bookQueued t (l.sched.wake t (prio t))
  | .remove t => l.bookRemoved t (l.sched.remove t (prio t))

/-- A task is queued only when it is not admitted or is blocked, or yielded by itself. -/
def Permits (l : Ledger) : TaskCall → Prop
  | .enqueue t => l.admitted t = false ∨ l.blocked t = true
  | .wake t => l.admitted t = false ∨ l.blocked t = true
  | .yieldCurrent t => l.sched.current = some t ∨ l.admitted t = false ∨ l.blocked t = true
  | _ => True

end Ledger

/-- The runs from a new scheduler with an empty ledger. -/
def ledgerSystem (prio : TaskId → Priority) : Runs.System Ledger TaskCall where
  init := fun l => l = ⟨Scheduler.new, fun _ => false, fun _ => false⟩
  step := fun l c l' => l.Permits c ∧ l' = l.next prio c

/-- The steps at which the code keeps every task: a push that is accepted finds `tail` behind the
last task, a removal takes the last task, a task that yields or whose slice has expired finds room,
and no task is selected while the current one is inside its slice. -/
def Lossless (prio : TaskId → Priority) (l : Ledger) : TaskCall → Prop
  | .enqueue t => (l.sched.runQueues (prio t).level).InStep
  | .wake t => (l.sched.runQueues (prio t).level).InStep
  | .yieldCurrent t =>
      (l.sched.runQueues (prio t).level).InStep ∧
        (l.sched.current = some t → (l.sched.runQueues (prio t).level).count.toNat < queueSlots)
  | .dequeue t => (l.sched.runQueues (prio t).level).AtTail t
  | .remove t => l.sched.current ≠ some t → (l.sched.runQueues (prio t).level).AtTail t
  | .schedule =>
      (l.sched.current ≠ none → l.sched.sliceRemaining ≠ 0#64 → l.sched.hasReadyTasks = false) ∧
        (l.sched.current ≠ none → l.sched.sliceRemaining = 0#64 →
          ∀ p, l.sched.currentPriority = some p →
            (l.sched.runQueues p.level).count.toNat < queueSlots ∧
              (l.sched.runQueues p.level).InStep)
  | .tick => True
  | .block _ => True

/-- Where a task can be. -/
inductive Place where
  | slot (i : ℕ)
  | current
  | blocked
  deriving DecidableEq, Repr

/-- The task is in this place: a slot of the run queue of its own priority, running, or blocked. -/
def Ledger.At (prio : TaskId → Priority) (l : Ledger) (t : TaskId) : Place → Prop
  | .slot i => i < queueSlots ∧ (l.sched.runQueues (prio t).level).tasks i = some t
  | .current => l.sched.current = some t
  | .blocked => l.blocked t = true

/-! ### The invariant -/

namespace Ledger

variable {prio : TaskId → Priority} {l : Ledger} {Q Q' : TaskQueues} {t : TaskId} {s : Scheduler}

/-- The queues hold admitted tasks at their own level, once each; the current task is admitted and
its priority is the one cached; and every admitted task is queued, current or blocked, never two of
these at once. -/
structure Sound (prio : TaskId → Priority) (l : Ledger) (Q : TaskQueues) : Prop where
  rep : l.sched.Rep Q
  nodup : ∀ p, (Q p).Nodup
  queued : ∀ p t, t ∈ Q p → p = (prio t).level ∧ l.admitted t = true ∧ l.blocked t = false ∧
    l.sched.current ≠ some t
  running : ∀ t, l.sched.current = some t → l.admitted t = true ∧ l.blocked t = false ∧
    l.sched.currentPriority = some (prio t)
  placed : ∀ t, l.admitted t = true →
    t ∈ Q (prio t).level ∨ l.sched.current = some t ∨ l.blocked t = true

/-- A task that may be queued is in no queue and not current. -/
theorem Sound.absent (h : Sound prio l Q) (ht : l.admitted t = false ∨ l.blocked t = true) :
    (∀ p, t ∉ Q p) ∧ l.sched.current ≠ some t := by
  have hnot : ¬ (l.admitted t = true ∧ l.blocked t = false) := by
    rintro ⟨hadm, hblk⟩
    rcases ht with ht | ht
    · rw [ht] at hadm
      exact absurd hadm (by decide)
    · rw [ht] at hblk
      exact absurd hblk (by decide)
  constructor
  · intro p hp
    obtain ⟨-, hadm, hblk, -⟩ := h.queued p t hp
    exact hnot ⟨hadm, hblk⟩
  · intro hcur
    obtain ⟨hadm, hblk, -⟩ := h.running t hcur
    exact hnot ⟨hadm, hblk⟩

/-- A state that differs only in what the ledger does not look at. -/
theorem Sound.congr (h : Sound prio l Q) (hrep : s.Rep Q) (hsame : l.sched.SameTask s) :
    Sound prio ⟨s, l.admitted, l.blocked⟩ Q where
  rep := hrep
  nodup := h.nodup
  queued := fun p u hu => hsame.current ▸ h.queued p u hu
  running := fun u hu => hsame.currentPriority ▸ h.running u (hsame.current ▸ hu)
  placed := fun u hu => hsame.current ▸ h.placed u hu

/-- Queueing a task that is in no queue, and not current any more. -/
theorem Sound.queue (h : Sound prio l Q)
    (hrep : s.Rep (Function.update Q (prio t).level (Q (prio t).level ++ [t])))
    (hnew : ∀ p, t ∉ Q p) (hcur : s.current ≠ some t)
    (hothers : ∀ u, u ≠ t → (s.current = some u ↔ l.sched.current = some u))
    (hprio : s.current ≠ none → s.currentPriority = l.sched.currentPriority) :
    Sound prio ⟨s, Function.update l.admitted t true, Function.update l.blocked t false⟩
      (Function.update Q (prio t).level (Q (prio t).level ++ [t])) := by
  have hmem : ∀ p u, u ∈ Function.update Q (prio t).level (Q (prio t).level ++ [t]) p ↔
      u ∈ Q p ∨ (p = (prio t).level ∧ u = t) := by
    intro p u
    by_cases hp : p = (prio t).level
    · rw [hp, Function.update_self, List.mem_append, List.mem_singleton]
      simp
    · rw [Function.update_of_ne hp]
      simp [hp]
  refine ⟨hrep, fun p => ?_, fun p u hu => ?_, fun u hu => ?_, fun u hu => ?_⟩
  · by_cases hp : p = (prio t).level
    · rw [hp, Function.update_self]
      refine List.nodup_append.2 ⟨h.nodup _, List.nodup_singleton t, ?_⟩
      rintro a ha b hb rfl
      rw [List.mem_singleton.1 hb] at ha
      exact hnew _ ha
    · rw [Function.update_of_ne hp]
      exact h.nodup p
  · rcases (hmem p u).1 hu with hq | ⟨hp, rfl⟩
    · have hut : u ≠ t := fun he => hnew p (he ▸ hq)
      obtain ⟨hlevel, hadm, hblk, hncur⟩ := h.queued p u hq
      refine ⟨hlevel, ?_, ?_, fun hc => hncur ((hothers u hut).1 hc)⟩
      · exact (Function.update_of_ne hut ..).trans hadm
      · exact (Function.update_of_ne hut ..).trans hblk
    · exact ⟨hp, Function.update_self .., Function.update_self .., hcur⟩
  · have hut : u ≠ t := fun he => hcur (he ▸ hu)
    obtain ⟨hadm, hblk, hpri⟩ := h.running u ((hothers u hut).1 hu)
    refine ⟨(Function.update_of_ne hut ..).trans hadm, (Function.update_of_ne hut ..).trans hblk,
      (hprio ?_).trans hpri⟩
    have hcuru : s.current = some u := hu
    rw [hcuru]
    simp
  · by_cases hut : u = t
    · subst hut
      exact Or.inl ((hmem _ _).2 (Or.inr ⟨rfl, rfl⟩))
    · have hadm : l.admitted u = true := (Function.update_of_ne hut ..).symm.trans hu
      rcases h.placed u hadm with hq | hc | hb
      · exact Or.inl ((hmem _ _).2 (Or.inl hq))
      · exact Or.inr (Or.inl ((hothers u hut).2 hc))
      · exact Or.inr (Or.inr ((Function.update_of_ne hut ..).trans hb))

/-! ### Taking a task out of the queues -/

/-- The queues without the task `t`. -/
structure Takes (Q : TaskQueues) (t : TaskId) (Q' : TaskQueues) : Prop where
  mem : ∀ p u, u ∈ Q' p ↔ u ∈ Q p ∧ u ≠ t
  nodup : ∀ p, (Q' p).Nodup

/-- Replacing the level of a task by a level without it. -/
theorem Sound.takes (h : Sound prio l Q) {p : BitVec 8} {m : List TaskId} (ht : t ∈ Q p)
    (hmem : ∀ u, u ∈ m ↔ u ∈ Q p ∧ u ≠ t) (hnodup : m.Nodup) :
    Takes Q t (Function.update Q p m) where
  mem := by
    intro r u
    by_cases hr : r = p
    · rw [hr, Function.update_self]
      exact hmem u
    · rw [Function.update_of_ne hr]
      refine ⟨fun hu => ⟨hu, ?_⟩, fun hu => hu.1⟩
      rintro rfl
      exact hr ((h.queued r u hu).1.trans (h.queued p u ht).1.symm)
  nodup := by
    intro r
    by_cases hr : r = p
    · rw [hr, Function.update_self]
      exact hnodup
    · rw [Function.update_of_ne hr]
      exact h.nodup r

/-- Taking the last task of a level. -/
theorem Sound.takes_last (h : Sound prio l Q) {p : BitVec 8} {m : List TaskId}
    (hm : Q p = m ++ [t]) : Takes Q t (Function.update Q p m) := by
  have hnodup := h.nodup p
  rw [hm, List.nodup_append] at hnodup
  obtain ⟨hnd, -, hdisj⟩ := hnodup
  refine h.takes (by rw [hm]; simp) (fun u => ?_) hnd
  rw [hm, List.mem_append, List.mem_singleton]
  constructor
  · intro hu
    exact ⟨Or.inl hu, hdisj u hu t (List.mem_singleton_self t)⟩
  · rintro ⟨hu | hu, hne⟩
    · exact hu
    · exact absurd hu hne

/-- Taking the first task of a level. -/
theorem Sound.takes_first (h : Sound prio l Q) {p : BitVec 8} {m : List TaskId}
    (hm : Q p = t :: m) : Takes Q t (Function.update Q p m) := by
  have hnodup := h.nodup p
  rw [hm, List.nodup_cons] at hnodup
  obtain ⟨hnot, hnd⟩ := hnodup
  refine h.takes (by rw [hm]; simp) (fun u => ?_) hnd
  rw [hm, List.mem_cons]
  constructor
  · intro hu
    refine ⟨Or.inr hu, ?_⟩
    rintro rfl
    exact hnot hu
  · rintro ⟨hu | hu, hne⟩
    · exact absurd hu hne
    · exact hu

/-- A queued task leaves the scheduler. -/
theorem Sound.discharge (h : Sound prio l Q) (htakes : Takes Q t Q') (hrep : s.Rep Q')
    (hsame : l.sched.SameTask s) (hcur : l.sched.current ≠ some t) :
    Sound prio ⟨s, Function.update l.admitted t false, Function.update l.blocked t false⟩ Q' := by
  refine ⟨hrep, htakes.nodup, fun p u hu => ?_, fun u hu => ?_, fun u hu => ?_⟩
  · obtain ⟨hq, hut⟩ := (htakes.mem p u).1 hu
    obtain ⟨hlevel, hadm, hblk, hncur⟩ := h.queued p u hq
    exact ⟨hlevel, (Function.update_of_ne hut ..).trans hadm,
      (Function.update_of_ne hut ..).trans hblk, hsame.current ▸ hncur⟩
  · have hucur : l.sched.current = some u := hsame.current ▸ hu
    have hut : u ≠ t := fun he => hcur (he ▸ hucur)
    obtain ⟨hadm, hblk, hpri⟩ := h.running u hucur
    exact ⟨(Function.update_of_ne hut ..).trans hadm, (Function.update_of_ne hut ..).trans hblk,
      hsame.currentPriority.trans hpri⟩
  · change Function.update l.admitted t false u = true at hu
    have hut : u ≠ t := by
      rintro rfl
      rw [Function.update_self] at hu
      exact absurd hu (by decide)
    rw [Function.update_of_ne hut] at hu
    rcases h.placed u hu with hq | hc | hb
    · exact Or.inl ((htakes.mem _ u).2 ⟨hq, hut⟩)
    · exact Or.inr (Or.inl (hsame.current.trans hc))
    · exact Or.inr (Or.inr ((Function.update_of_ne hut ..).trans hb))

/-- A queued task starts to run on an idle scheduler. -/
theorem Sound.run (h : Sound prio l Q) (hidle : l.sched.current = none) {p : BitVec 8}
    (ht : t ∈ Q p) (htakes : Takes Q t Q') (hrep : s.Rep Q') :
    Sound prio ⟨s.setCurrentWithPriority t (prio t), l.admitted, l.blocked⟩ Q' := by
  obtain ⟨-, hadm, hblk, -⟩ := h.queued p t ht
  refine ⟨hrep.congr rfl rfl, htakes.nodup, fun r u hu => ?_, fun u hu => ?_, fun u hu => ?_⟩
  · obtain ⟨hq, hut⟩ := (htakes.mem r u).1 hu
    obtain ⟨hlevel, hadm', hblk', -⟩ := h.queued r u hq
    exact ⟨hlevel, hadm', hblk', fun hc => hut (Option.some.inj hc).symm⟩
  · obtain rfl : t = u := Option.some.inj hu
    exact ⟨hadm, hblk, rfl⟩
  · by_cases hut : u = t
    · rw [hut]
      exact Or.inr (Or.inl rfl)
    · rcases h.placed u hu with hq | hc | hb
      · exact Or.inl ((htakes.mem _ u).2 ⟨hq, hut⟩)
      · rw [hidle] at hc
        exact absurd hc (by simp)
      · exact Or.inr (Or.inr hb)

/-! ### Steps -/

/-- The current task gives up the processor. -/
theorem Sound.dropped (h : Sound prio l Q) (hrep : s.Rep Q) (hcur : l.sched.current = some t)
    (hnone : s.current = none) (b : Bool) :
    Sound prio ⟨s, Function.update l.admitted t b, Function.update l.blocked t b⟩ Q := by
  refine ⟨hrep, h.nodup, fun p u hu => ?_, fun u hu => ?_, fun u hu => ?_⟩
  · obtain ⟨hlevel, hadm, hblk, hncur⟩ := h.queued p u hu
    have hut : u ≠ t := fun he => hncur (he ▸ hcur)
    refine ⟨hlevel, (Function.update_of_ne hut ..).trans hadm,
      (Function.update_of_ne hut ..).trans hblk, ?_⟩
    change s.current ≠ some u
    rw [hnone]
    simp
  · change s.current = some u at hu
    rw [hnone] at hu
    exact absurd hu (by simp)
  · change Function.update l.admitted t b u = true at hu
    by_cases hut : u = t
    · subst hut
      rw [Function.update_self] at hu
      exact Or.inr (Or.inr ((Function.update_self ..).trans hu))
    · rw [Function.update_of_ne hut] at hu
      rcases h.placed u hu with hq | hc | hb
      · exact Or.inl hq
      · rw [hcur] at hc
        exact absurd (Option.some.inj hc).symm hut
      · exact Or.inr (Or.inr ((Function.update_of_ne hut ..).trans hb))

/-- `enqueue`, on a scheduler that holds the same queues and has at most lost the task `t` as its
current task, queues `t`, or is refused and changes nothing. -/
theorem Sound.bookQueued (h : Sound prio l Q) (hrep : s.Rep Q)
    (hstep : (s.runQueues (prio t).level).InStep) (hnew : ∀ p, t ∉ Q p)
    (hcur : s.current ≠ some t)
    (hothers : ∀ u, u ≠ t → (s.current = some u ↔ l.sched.current = some u))
    (hprio : s.currentPriority = l.sched.currentPriority)
    (hroom : l.sched.current = some t → (Q (prio t).level).length < queueSlots) :
    ∃ Q', Sound prio (l.bookQueued t (s.enqueue t (prio t))) Q' := by
  rcases hrep.enqueue_cases t (prio t) with ⟨hfull, hres⟩ | ⟨-, s', hres, hsame, hrep'⟩
  · -- the queue is full, so `t` was not the current task
    rw [hres]
    have hsched : l.sched.SameTask s := by
      refine ⟨?_, hprio⟩
      cases hc : l.sched.current with
      | some u =>
          have hut : u ≠ t := by
            rintro rfl
            exact absurd (hroom hc) (not_lt.2 hfull)
          exact (hothers u hut).2 hc
      | none =>
          cases hs : s.current with
          | none => rfl
          | some u =>
              have hut : u ≠ t := fun he => hcur (he ▸ hs)
              rw [(hothers u hut).1 hs] at hc
              exact absurd hc (by simp)
    exact ⟨Q, h.congr hrep hsched⟩
  · rw [hres]
    refine ⟨_, h.queue (hrep' hstep) hnew ?_ (fun u hut => ?_) fun _ => ?_⟩
    · rw [hsame.current]
      exact hcur
    · rw [hsame.current]
      exact hothers u hut
    · exact hsame.currentPriority.trans hprio

/-- `dequeue` takes a task out of the ledger, or finds nothing. -/
theorem Sound.bookRemoved (h : Sound prio l Q)
    (hlast : (l.sched.runQueues (prio t).level).AtTail t) :
    ∃ Q', Sound prio (l.bookRemoved t (l.sched.dequeue t (prio t))) Q' := by
  rcases h.rep.dequeue_cases t (prio t) with ⟨-, hres⟩ | ⟨hmem, s', hres, hsame, hrep⟩
  · rw [hres]
    exact ⟨Q, h⟩
  · rw [hres]
    obtain ⟨m, hm, hrep'⟩ := hrep hlast
    exact ⟨_, h.discharge (h.takes_last hm) hrep' hsame (h.queued _ t hmem).2.2.2⟩

/-- `remove` takes the current task or a queued one out of the ledger, or finds nothing. -/
theorem Sound.bookRemoved_remove (h : Sound prio l Q)
    (hlast : l.sched.current ≠ some t → (l.sched.runQueues (prio t).level).AtTail t) :
    ∃ Q', Sound prio (l.bookRemoved t (l.sched.remove t (prio t))) Q' := by
  by_cases hcur : l.sched.current = some t
  · rw [Scheduler.remove, if_pos hcur]
    exact ⟨Q, h.dropped (s := l.sched.dropCurrent.subTotal) (h.rep.congr rfl rfl) hcur rfl false⟩
  · rw [Scheduler.remove, if_neg hcur]
    rcases h.rep.dequeue_cases t (prio t) with ⟨-, hres⟩ | ⟨hmem, s', hres, hsame, hrep⟩
    · rw [hres]
      exact ⟨Q, h⟩
    · rw [hres]
      obtain ⟨m, hm, hrep'⟩ := hrep (hlast hcur)
      exact ⟨_, h.discharge (h.takes_last hm) (hrep'.congr rfl rfl) ⟨hsame.1, hsame.2⟩ hcur⟩

/-- `pickNext` on an idle scheduler makes the first queued task the current one. -/
theorem Sound.bookScheduled (h : Sound prio l Q) (hidle : l.sched.current = none) :
    ∃ Q', Sound prio (l.bookScheduled prio l.sched.pickNext) Q' := by
  rcases h.rep.pickNext_cases with ⟨-, hres⟩ | ⟨p, t, m, hm, -, s', hres, -, hrep⟩
  · rw [hres]
    exact ⟨Q, h⟩
  · rw [hres]
    have hmem : t ∈ Q p := by
      rw [hm]
      exact List.mem_cons_self ..
    exact ⟨_, h.run hidle hmem (h.takes_first hm) hrep⟩

/-- A current task whose slice has expired goes back to its queue. -/
theorem Sound.requeueExpired (h : Sound prio l Q) (hcur : l.sched.current = some t)
    (hslice : l.sched.sliceRemaining = 0#64)
    (hroom : (Q (prio t).level).length < queueSlots)
    (hstep : (l.sched.runQueues (prio t).level).InStep) :
    l.sched.requeueExpired.current = none ∧
      ∃ Q', Sound prio ⟨l.sched.requeueExpired, l.admitted, l.blocked⟩ Q' := by
  obtain ⟨hadm, hblk, hpri⟩ := h.running t hcur
  rw [Scheduler.requeueExpired_of_expired hcur hpri hslice]
  refine ⟨rfl, ?_⟩
  rcases h.rep.enqueue_cases t (prio t) with ⟨hfull, -⟩ | ⟨-, s', hres, -, hrep⟩
  · exact absurd hroom (not_lt.2 hfull)
  · rw [hres]
    have hnew : ∀ p, t ∉ Q p := fun p hp => (h.queued p t hp).2.2.2 hcur
    have hothers : ∀ u, u ≠ t → ((none : Option TaskId) = some u ↔ l.sched.current = some u) := by
      intro u hut
      rw [hcur]
      constructor
      · intro hn
        exact absurd hn (by simp)
      · intro hs
        exact absurd (Option.some.inj hs).symm hut
    -- it was admitted and not blocked, so the books do not change
    have hadm' : Function.update l.admitted t true = l.admitted := by
      rw [← hadm, Function.update_eq_self]
    have hblk' : Function.update l.blocked t false = l.blocked := by
      rw [← hblk, Function.update_eq_self]
    have hqueue := h.queue
      (s := ({ s' with currentPriority := none } : Scheduler).dropCurrent)
      ((hrep hstep).congr rfl rfl) hnew (by simp [Scheduler.dropCurrent]) hothers
      fun hn => absurd rfl hn
    rw [hadm', hblk'] at hqueue
    exact ⟨_, hqueue⟩

/-- One step at which the code keeps every task. -/
theorem Sound.next (h : Sound prio l Q) {c : TaskCall} (hp : l.Permits c)
    (hg : Lossless prio l c) : ∃ Q', Sound prio (l.next prio c) Q' := by
  have hcount : ∀ p, (l.sched.runQueues p).count.toNat = (Q p).length :=
    fun p => (h.rep.queues p).count
  cases c with
  | enqueue t =>
      obtain ⟨hnew, hcur⟩ := h.absent hp
      exact h.bookQueued h.rep hg hnew hcur (fun _ _ => Iff.rfl) rfl fun hc => absurd hc hcur
  | wake t =>
      obtain ⟨hnew, hcur⟩ := h.absent hp
      exact h.bookQueued (h.rep.congr rfl rfl) hg hnew hcur (fun _ _ => Iff.rfl) rfl
        fun hc => absurd hc hcur
  | yieldCurrent t =>
      change ∃ Q', Sound prio (l.bookQueued t (l.sched.yieldCurrent t (prio t))) Q'
      rw [Scheduler.yieldCurrent]
      by_cases hcur : l.sched.current = some t
      · rw [if_pos hcur]
        have hnew : ∀ p, t ∉ Q p := fun p hq => (h.queued p t hq).2.2.2 hcur
        refine h.bookQueued (h.rep.congr rfl rfl) hg.1 hnew (by simp [Scheduler.dropCurrent])
          (fun u hut => ?_) rfl fun hc => ?_
        · constructor
          · intro hn
            exact absurd hn (by simp [Scheduler.dropCurrent])
          · intro hs
            rw [hcur] at hs
            exact absurd (Option.some.inj hs).symm hut
        · rw [← hcount]
          exact hg.2 hc
      · rw [if_neg hcur]
        rcases hp with hc | hp
        · exact absurd hc hcur
        · exact h.bookQueued h.rep hg.1 (h.absent hp).1 hcur (fun _ _ => Iff.rfl) rfl
            fun hc => absurd hc hcur
  | dequeue t => exact h.bookRemoved hg
  | remove t => exact h.bookRemoved_remove hg
  | tick =>
      have hsame : l.sched.SameTask l.sched.tick.2 := by
        unfold Scheduler.tick
        split
        · exact ⟨rfl, rfl⟩
        · exact ⟨rfl, rfl⟩
      have hrep : l.sched.tick.2.Rep Q := by
        unfold Scheduler.tick
        split
        · exact h.rep
        · exact h.rep.congr rfl rfl
      exact ⟨Q, h.congr hrep hsame⟩
  | block t =>
      change ∃ Q', Sound prio (l.bookBlocked t (l.sched.block t)) Q'
      rw [Scheduler.block]
      by_cases hcur : l.sched.current = some t
      · rw [if_pos hcur]
        have hadm : Function.update l.admitted t true = l.admitted := by
          rw [← (h.running t hcur).1, Function.update_eq_self]
        have hdrop := h.dropped (s := (l.sched.block t).2)
          (by rw [Scheduler.block, if_pos hcur]; exact h.rep.congr rfl rfl) hcur
          (by rw [Scheduler.block, if_pos hcur]; rfl) true
        rw [hadm, Scheduler.block, if_pos hcur] at hdrop
        exact ⟨Q, hdrop⟩
      · rw [if_neg hcur]
        exact ⟨Q, h⟩
  | schedule =>
      have h₀ : Sound prio ⟨l.sched.clearResched, l.admitted, l.blocked⟩ Q :=
        h.congr (h.rep.congr rfl rfl) ⟨rfl, rfl⟩
      change ∃ Q', Sound prio (l.bookScheduled prio l.sched.schedule) Q'
      rw [Scheduler.schedule]
      by_cases hcur : l.sched.current = none
      · rw [Scheduler.requeueExpired_of_idle (s := l.sched.clearResched) hcur]
        exact h₀.bookScheduled hcur
      · obtain ⟨t, ht⟩ := Option.ne_none_iff_exists'.1 hcur
        by_cases hslice : l.sched.sliceRemaining = 0#64
        · -- the slice has expired: the task is queued again, then the next one selected
          obtain ⟨hroom, hstep⟩ := hg.2 hcur hslice (prio t) (h.running t ht).2.2
          rw [hcount] at hroom
          obtain ⟨hidle, Q₁, h₁⟩ := h₀.requeueExpired ht hslice hroom hstep
          exact h₁.bookScheduled hidle
        · -- inside its slice: nothing is queued, so nothing is selected
          rw [Scheduler.requeueExpired_of_slice (s := l.sched.clearResched) hslice,
            Scheduler.pickNext_of_not_ready (s := l.sched.clearResched) (hg.1 hcur hslice)]
          exact ⟨Q, h₀⟩

/-- A new scheduler holds no task. -/
theorem sound_new : Sound prio ⟨Scheduler.new, fun _ => false, fun _ => false⟩ fun _ => [] where
  rep := Scheduler.rep_new
  nodup := fun _ => List.nodup_nil
  queued := fun _ _ hu => absurd hu (by simp)
  running := fun _ hu => absurd hu (by simp [Scheduler.new])
  placed := fun _ hu => absurd hu (by simp)

/-- What is in a slot is queued. -/
theorem Sound.mem_of_slot (h : Sound prio l Q) {p : BitVec 8} {i : ℕ} (hi : i < queueSlots)
    (ht : (l.sched.runQueues p).tasks i = some t) : t ∈ Q p :=
  ((h.rep.queues p).holds.mem_iff (by decide)).2 ⟨i, hi, ht⟩

/-- Every admitted task is in exactly one place. -/
theorem Sound.existsUnique (h : Sound prio l Q) (ht : l.admitted t = true) :
    ∃! x, l.At prio t x := by
  rcases h.placed t ht with hq | hcur | hblk
  · obtain ⟨-, -, hnblk, hncur⟩ := h.queued _ t hq
    obtain ⟨i, hi, huniq⟩ :=
      (h.rep.queues (prio t).level).holds.existsUnique (by decide) (h.nodup _) hq
    refine ⟨.slot i, hi, fun y hy => ?_⟩
    cases y with
    | slot j => rw [huniq j hy]
    | current => exact absurd hy hncur
    | blocked =>
        change l.blocked t = true at hy
        rw [hnblk] at hy
        exact absurd hy (by decide)
  · refine ⟨.current, hcur, fun y hy => ?_⟩
    cases y with
    | slot j => exact absurd hcur (h.queued _ t (h.mem_of_slot hy.1 hy.2)).2.2.2
    | current => rfl
    | blocked =>
        change l.blocked t = true at hy
        rw [(h.running t hcur).2.1] at hy
        exact absurd hy (by decide)
  · refine ⟨.blocked, hblk, fun y hy => ?_⟩
    cases y with
    | slot j =>
        rw [(h.queued _ t (h.mem_of_slot hy.1 hy.2)).2.2.1] at hblk
        exact absurd hblk (by decide)
    | current =>
        rw [(h.running t hy).2.1] at hblk
        exact absurd hblk (by decide)
    | blocked => rfl

end Ledger

/-- **No task is lost and none is doubled.**  In every run whose steps are lossless, every admitted
task is in exactly one place; if that is a slot, it is one of the `count` slots from `head` on, and
no other run queue holds the task. -/
theorem scheduler_keeps_tasks {prio : TaskId → Priority} {l : Ledger}
    (h : (ledgerSystem prio).Reach (Lossless prio) l) {t : TaskId} (ht : l.admitted t = true) :
    (∃! x, l.At prio t x) ∧
      (∀ i, l.At prio t (.slot i) → ∃ k < (l.sched.runQueues (prio t).level).count.toNat,
        i = ((l.sched.runQueues (prio t).level).head + k) % queueSlots) ∧
      ∀ p, ∀ i < queueSlots, (l.sched.runQueues p).tasks i = some t → p = (prio t).level := by
  obtain ⟨Q, hQ⟩ : ∃ Q, l.Sound prio Q := by
    refine h.invariant (P := fun l => ∃ Q, l.Sound prio Q) (fun l₀ h₀ => ?_) ?_
    · obtain rfl : l₀ = ⟨Scheduler.new, fun _ => false, fun _ => false⟩ := h₀
      exact ⟨_, Ledger.sound_new⟩
    · rintro l₁ c l₂ ⟨Q, hQ⟩ hg ⟨hp, rfl⟩
      exact hQ.next hp hg
  refine ⟨hQ.existsUnique ht, fun i hi => ?_, fun p i hi hpi => ?_⟩
  · have hrep := hQ.rep.queues (prio t).level
    obtain ⟨k, hk, hki⟩ := (hrep.holds.slot_eq_some hi.1).1 hi.2
    refine ⟨k, ?_, hki.symm⟩
    rw [hrep.count]
    exact (List.getElem?_eq_some_iff.1 hk).1
  · exact (hQ.queued p t (hQ.mem_of_slot hi hpi)).1

/-- A task that has been queued on a new scheduler is in exactly one place. -/
theorem scheduler_keeps_tasks_one :
    ∃! x, (Ledger.next (fun _ => ⟨128#8⟩) ⟨Scheduler.new, fun _ => false, fun _ => false⟩
      (.enqueue ⟨1#64⟩)).At (fun _ => ⟨128#8⟩) ⟨1#64⟩ x := by
  have hinit : (ledgerSystem fun _ => ⟨128#8⟩).Reach (Lossless fun _ => ⟨128#8⟩)
      ⟨Scheduler.new, fun _ => false, fun _ => false⟩ := .init rfl
  have hstep := hinit.step (a := TaskCall.enqueue ⟨1#64⟩) (fun _ => rfl) ⟨Or.inl rfl, rfl⟩
  exact (scheduler_keeps_tasks hstep (by decide +kernel)).1

/-- Two tasks are queued and the first is selected; while it is inside its slice, `schedule` selects
the second, and the first is in no place. -/
theorem scheduler_drops_current :
    let prio : TaskId → Priority := fun _ => ⟨128#8⟩
    let l₂ := (Ledger.next prio ⟨Scheduler.new, fun _ => false, fun _ => false⟩
      (.enqueue ⟨1#64⟩)).next prio (.enqueue ⟨2#64⟩)
    let l := (l₂.next prio .schedule).next prio .schedule
    (ledgerSystem prio).Reach Runs.anyStep l ∧ l.admitted ⟨1#64⟩ = true ∧
      ∀ x, ¬ l.At prio ⟨1#64⟩ x := by
  intro prio l₂ l
  have h0 : (ledgerSystem prio).Reach Runs.anyStep
      ⟨Scheduler.new, fun _ => false, fun _ => false⟩ := .init rfl
  have h1 := h0.step (a := TaskCall.enqueue ⟨1#64⟩) trivial ⟨Or.inl rfl, rfl⟩
  have h2 : (ledgerSystem prio).Reach Runs.anyStep l₂ :=
    h1.step (a := .enqueue ⟨2#64⟩) trivial ⟨Or.inl (by decide +kernel), rfl⟩
  have h3 := h2.step (a := TaskCall.schedule) trivial ⟨trivial, rfl⟩
  have h4 : (ledgerSystem prio).Reach Runs.anyStep l :=
    h3.step (a := .schedule) trivial ⟨trivial, rfl⟩
  have hslots : ∀ i < queueSlots, (l.sched.runQueues 128#8).tasks i ≠ some ⟨1#64⟩ := by
    decide +kernel
  refine ⟨h4, by decide +kernel, fun x hx => ?_⟩
  cases x with
  | slot i => exact hslots i hx.1 hx.2
  | current =>
      have hcur : l.sched.current ≠ some ⟨1#64⟩ := by decide +kernel
      exact hcur hx
  | blocked =>
      have hblk : l.blocked ⟨1#64⟩ ≠ true := by decide +kernel
      exact hblk hx

end StarOS
