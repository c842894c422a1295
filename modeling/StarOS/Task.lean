/-
The life cycle of a task (`process/task.rs`): its state, its transitions and its exit code.

A task that has a parent becomes a zombie when it terminates.  The transition relation and the test
in `terminate` protect the state `Terminated`, but not the state `Zombie`: from there `suspend`
leads back to a live task, and a second `terminate` overwrites the exit code.  Termination is final
exactly in the runs in which neither happens.

* `StarOS.TaskState`, `StarOS.Task` — the states, and a task with what its life cycle depends on;
* `StarOS.Task.setState`, `StarOS.Task.suspend`, `StarOS.Task.resume`, `StarOS.Task.terminate`,
  `StarOS.Task.getExitCode` — the operations;
* `StarOS.TaskOp`, `StarOS.Task.run` — the calls, and running a list of them;
* `StarOS.Task.LeavesDead` — the condition on the state before a call;
* `StarOS.Task.dead_apply_iff` — what one call does to a task that has terminated;
* `StarOS.task_termination_final` — termination is final exactly if all calls meet the condition;
* `StarOS.task_revived` — a zombie that comes back to life.
-/

import StarOS.Error
import StarOS.Scheduler
import Mathlib.Tactic.Cases

set_option autoImplicit false

namespace StarOS

/-! ### States -/

/-- Task state. -/
inductive TaskState where
  | ready
  | running
  | blocked
  | suspended
  | terminated
  /-- Terminated but not reaped. -/
  | zombie
  deriving DecidableEq, Repr

namespace TaskState

/-- `state as u8`. -/
def toU8 : TaskState → BitVec 8
  | ready => 0#8
  | running => 1#8
  | blocked => 2#8
  | suspended => 3#8
  | terminated => 4#8
  | zombie => 5#8

/-- `TaskState::from_u8`. -/
def fromU8 (val : BitVec 8) : Option TaskState :=
  match val.toNat with
  | 0 => some ready
  | 1 => some running
  | 2 => some blocked
  | 3 => some suspended
  | 4 => some terminated
  | 5 => some zombie
  | _ => none

theorem fromU8_toU8 (s : TaskState) : fromU8 s.toU8 = some s := by
  cases s <;> rfl

/-- The transitions that `set_state` allows. -/
def canBecome (current state : TaskState) : Bool :=
  match current, state with
  | ready, running => true
  | running, ready => true
  | running, blocked => true
  | blocked, ready => true
  | _, suspended => current != terminated
  | suspended, ready => true
  | _, terminated => true
  | terminated, zombie => true
  | _, _ => false

/-- From a state of a terminated task no live state but `Suspended` can be reached, and that one
only from `Zombie`. -/
theorem canBecome_of_dead {current state : TaskState}
    (hdead : current = terminated ∨ current = zombie) (h : current.canBecome state = true) :
    state = terminated ∨ state = zombie ∨ state = suspended ∧ current = zombie := by
  rcases hdead with rfl | rfl
  · cases state with
    | terminated => exact Or.inl rfl
    | zombie => exact Or.inr (Or.inl rfl)
    | _ => exact absurd h (by decide)
  · cases state with
    | terminated => exact Or.inl rfl
    | suspended => exact Or.inr (Or.inr ⟨rfl, rfl⟩)
    | _ => exact absurd h (by decide)

end TaskState

/-! ### Tasks -/

/-- A task: its state as it is stored, its parent, and its exit code. -/
structure Task where
  stateByte : BitVec 8
  parent : Option TaskId
  exitCode : Usize
  deriving DecidableEq, Repr

namespace Task

/-- `Task::state`. -/
def state (t : Task) : TaskState := (TaskState.fromU8 t.stateByte).getD .terminated

/-- `Task::set_state`. -/
def setState (t : Task) (s : TaskState) : Except KernelError Unit × Task :=
  if t.state.canBecome s then (.ok (), { t with stateByte := s.toU8 })
  else (.error (.invalidParameter "Invalid state transition"), t)

/-- `Task::suspend`. -/
def suspend (t : Task) : Except KernelError Unit × Task := t.setState .suspended

/-- `Task::resume`. -/
def resume (t : Task) : Except KernelError Unit × Task :=
  if t.state ≠ .suspended then (.error (.invalidParameter "Task is not suspended"), t)
  else t.setState .ready

/-- `Task::terminate`. -/
def terminate (t : Task) (exitCode : Usize) : Except KernelError Unit × Task :=
  if t.state = .terminated then (.error (.process .alreadyTerminated), t)
  else
    match setState { t with exitCode := exitCode } .terminated with
    | (.error e, t') => (.error e, t')
    | (.ok (), t') => if t'.parent.isSome then t'.setState .zombie else (.ok (), t')

/-- `Task::is_terminated`. -/
def isTerminated (t : Task) : Bool := t.state == .terminated || t.state == .zombie

/-- `Task::exit_code`. -/
def getExitCode (t : Task) : Option Usize := if t.isTerminated then some t.exitCode else none

end Task

/-- The calls that change the life cycle. -/
inductive TaskOp where
  | setState (s : TaskState)
  | suspend
  | resume
  | terminate (exitCode : Usize)
  deriving DecidableEq, Repr

namespace Task

/-- A call, with its result. -/
def apply (t : Task) : TaskOp → Except KernelError Unit × Task
  | .setState s => t.setState s
  | .suspend => t.suspend
  | .resume => t.resume
  | .terminate c => t.terminate c

/-- Running calls one after the other, whatever they return. -/
def run (t : Task) : List TaskOp → Task
  | [] => t
  | op :: ops => (t.apply op).2.run ops

/-- The calls that leave a dead task dead: a zombie is not suspended, and not terminated with
another exit code. -/
def LeavesDead (t : Task) : TaskOp → Prop
  | .setState s => s = .suspended → t.state ≠ .zombie
  | .suspend => t.state ≠ .zombie
  | .resume => True
  | .terminate c => t.state = .zombie → c = t.exitCode

/-- The task has terminated with an exit code. -/
def Dead (t : Task) (c : Usize) : Prop := t.isTerminated = true ∧ t.getExitCode = some c

variable {t t' : Task} {c : Usize}

/-! ### Operations on a terminated task -/

theorem isTerminated_iff : t.isTerminated = true ↔ t.state = .terminated ∨ t.state = .zombie := by
  rw [isTerminated, Bool.or_eq_true, beq_iff_eq, beq_iff_eq]

theorem dead_iff : t.Dead c ↔ (t.state = .terminated ∨ t.state = .zombie) ∧ t.exitCode = c := by
  rw [Dead, isTerminated_iff]
  constructor
  · rintro ⟨hs, hc⟩
    rw [getExitCode, if_pos (isTerminated_iff.2 hs)] at hc
    exact ⟨hs, Option.some.inj hc⟩
  · rintro ⟨hs, hc⟩
    rw [getExitCode, if_pos (isTerminated_iff.2 hs), hc]
    exact ⟨hs, rfl⟩

theorem setState_of_canBecome {s : TaskState} (h : t.state.canBecome s = true) :
    t.setState s = (.ok (), { t with stateByte := s.toU8 }) := if_pos h

/-- The state read back after a store. -/
theorem state_stored (t : Task) (s : TaskState) :
    ({ t with stateByte := s.toU8 } : Task).state = s := by
  rw [state, TaskState.fromU8_toU8]
  rfl

theorem setState_exitCode (t : Task) (s : TaskState) : (t.setState s).2.exitCode = t.exitCode := by
  rw [setState]
  split
  · rfl
  · rfl

/-- `set_state` moves a terminated task to `Suspended` exactly if it is a zombie. -/
theorem dead_setState_iff (h : t.Dead c) (s : TaskState) :
    (t.setState s).2.Dead c ↔ (s = .suspended → t.state ≠ .zombie) := by
  obtain ⟨hs, hc⟩ := dead_iff.1 h
  rw [dead_iff, setState_exitCode]
  cases hcan : t.state.canBecome s with
  | false =>
      rw [setState, hcan]
      refine ⟨fun _ hsus hz => ?_, fun _ => ⟨hs, hc⟩⟩
      rw [hsus, hz] at hcan
      exact absurd hcan (by decide)
  | true =>
      rw [setState_of_canBecome hcan, state_stored]
      constructor
      · rintro ⟨hs' | hs', -⟩ hsus
        · exact absurd (hs'.symm.trans hsus) (by decide)
        · exact absurd (hs'.symm.trans hsus) (by decide)
      · intro hsus
        refine ⟨?_, hc⟩
        rcases TaskState.canBecome_of_dead hs hcan with hs' | hs' | ⟨hs', hz⟩
        · exact Or.inl hs'
        · exact Or.inr hs'
        · exact absurd hz (hsus hs')

/-- `resume` refuses a terminated task. -/
theorem dead_resume (h : t.Dead c) : t.resume.2.Dead c := by
  have hs : t.state ≠ .suspended := by
    rcases (dead_iff.1 h).1 with hs | hs
    · rw [hs]
      decide
    · rw [hs]
      decide
  rw [resume, if_pos hs]
  exact h

/-- `terminate` succeeds unless the state is `Terminated`, and leaves the task dead with the new
exit code. -/
theorem dead_terminate (c : Usize) (h : t.state ≠ .terminated) :
    (t.terminate c).1 = .ok () ∧ (t.terminate c).2.Dead c := by
  have hany : ∀ s : TaskState, s.canBecome .terminated = true := fun s => by cases s <;> rfl
  rw [terminate, if_neg h, setState_of_canBecome (hany _)]
  dsimp only
  split
  · have hterm := state_stored { t with exitCode := c } .terminated
    have hcan : TaskState.canBecome (state ⟨TaskState.terminated.toU8, t.parent, c⟩) .zombie =
        true := by
      rw [hterm]
      rfl
    rw [setState_of_canBecome hcan]
    exact ⟨rfl, dead_iff.2 ⟨Or.inr (state_stored _ _), rfl⟩⟩
  · exact ⟨rfl, dead_iff.2 ⟨Or.inl (state_stored { t with exitCode := c } _), rfl⟩⟩

/-- What `terminate` returns and leaves behind. -/
theorem terminate_ok (h : t.terminate c = (.ok (), t')) : t'.Dead c := by
  by_cases hs : t.state = .terminated
  · rw [terminate, if_pos hs] at h
    exact absurd (congrArg Prod.fst h) (by simp)
  · have hdead := (dead_terminate c hs).2
    rwa [h] at hdead

/-- A call leaves a dead task dead, with its exit code, exactly if it meets the condition. -/
theorem dead_apply_iff (h : t.Dead c) (op : TaskOp) :
    (t.apply op).2.Dead c ↔ t.LeavesDead op := by
  cases op with
  | setState s => exact dead_setState_iff h s
  | suspend =>
      rw [show t.apply .suspend = t.setState .suspended from rfl, dead_setState_iff h]
      exact ⟨fun hz => hz rfl, fun hz _ => hz⟩
  | resume => exact iff_of_true (dead_resume h) trivial
  | terminate d =>
      change (t.terminate d).2.Dead c ↔ (t.state = .zombie → d = t.exitCode)
      obtain ⟨hs, hc⟩ := dead_iff.1 h
      rcases hs with hs | hz
      · -- refused, and nothing has been written
        rw [terminate, if_pos hs, hs]
        exact iff_of_true h fun he => absurd he (by decide)
      · have hlive : t.state ≠ .terminated := by
          rw [hz]
          decide
        have hd := (dead_terminate d hlive).2
        constructor
        · intro hdead _
          have h1 := (dead_iff.1 hd).2
          have h2 := (dead_iff.1 hdead).2
          rw [← h1, h2, hc]
        · intro hsame
          rwa [hsame hz, hc] at hd ⊢

/-! ### Runs -/

theorem run_append (t : Task) (ops ops' : List TaskOp) :
    t.run (ops ++ ops') = (t.run ops).run ops' := by
  induction ops generalizing t with
  | nil => rfl
  | cons op ops ih => exact ih _

/-- One more call. -/
theorem run_take_succ (t : Task) {ops : List TaskOp} {n : ℕ} (hn : n < ops.length) :
    t.run (ops.take (n + 1)) = ((t.run (ops.take n)).apply ops[n]).2 := by
  rw [List.take_succ_eq_append_getElem hn, run_append]
  rfl

end Task

/-- **Termination is final exactly if no zombie is suspended or terminated anew.**  After a
`terminate` that has returned `Ok`, a run of calls keeps the task terminated with its exit code
after every call if and only if every call meets the condition in the state in which it is made. -/
theorem task_termination_final {t t' : Task} {c : Usize} (h : t.terminate c = (.ok (), t'))
    (ops : List TaskOp) :
    (∀ n ≤ ops.length, (t'.run (ops.take n)).isTerminated = true ∧
      (t'.run (ops.take n)).getExitCode = some c) ↔
    ∀ n, ∀ hn : n < ops.length, (t'.run (ops.take n)).LeavesDead ops[n] := by
  constructor
  · intro hall n hn
    refine (Task.dead_apply_iff (hall n hn.le) ops[n]).1 ?_
    rw [← Task.run_take_succ t' hn]
    exact hall (n + 1) hn
  · intro hcond n
    induction n with
    | zero =>
        intro _
        exact Task.terminate_ok h
    | succ n ih =>
        intro hn
        have hdead := (Task.dead_apply_iff (ih (by omega)) ops[n]).2 (hcond n hn)
        rw [← Task.run_take_succ t' hn] at hdead
        exact hdead

/-- A task whose parent is task 1. -/
def childTask : Task := ⟨0#8, some ⟨1#64⟩, 0#64⟩

/-- A zombie that is terminated once more with its own exit code and resumed in vain stays dead. -/
theorem task_termination_final_child :
    ((childTask.terminate 42#64).2.run [.terminate 42#64, .resume]).getExitCode =
      some 42#64 := by
  have hok : childTask.terminate 42#64 = (.ok (), (childTask.terminate 42#64).2) := rfl
  refine ((task_termination_final hok [.terminate 42#64, .resume]).2 (fun n hn => ?_) 2 le_rfl).2
  match n, hn with
  | 0, _ => exact fun _ => rfl
  | 1, _ => trivial

/-- A terminated child is suspended and resumed, and is ready again, without an exit code. -/
theorem task_revived :
    (childTask.terminate 42#64).1 = .ok () ∧
      ((childTask.terminate 42#64).2.run [.suspend, .resume]).state = .ready ∧
      ((childTask.terminate 42#64).2.run [.suspend, .resume]).getExitCode = none := by
  decide

end StarOS
