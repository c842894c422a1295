/-
The asynchronous channel (`async_ipc.rs`): messages, and the wakers of the tasks that wait for one.

`send` appends a message and then wakes every registered waker, `close` sets a flag and then does
the same, and `poll` looks for a message, looks at the flag, registers its waker and looks for a
message once more.  Every section under a lock and every atomic access is one step, and the steps of
the tasks interleave in any order.

A waker that is registered after the message or the flag has come, and after the wake-up that
belongs to it, is not woken by it.  For a message the second look in `poll` makes up for that.
There is no second look at the flag: a channel that is closed, and has woken its tasks, between the
look at the flag and the registration leaves the task waiting for ever.  In the runs in which no
waker is registered after the wake-up of the last `close`, no wake-up is lost.

* `StarOS.Channel`, `StarOS.ChannelPc`, `StarOS.ChannelTask`, `StarOS.ChannelState` — the channel,
  where a task stands, and the state;
* `StarOS.ChannelState.access`, `StarOS.channelSystem` — the steps, and the runs on a new channel;
* `StarOS.ChannelState.Registered`, `StarOS.ChannelState.Noticed` — the invariants, for messages and
  for the flag;
* `StarOS.RegistersInTime` — the condition on the state before a step;
* `StarOS.channel_no_lost_wakeup` — in such runs no wake-up is lost;
* `StarOS.channel_loses_close` — a task that waits for ever on a closed channel.
-/

import StarOS.Runs
import StarOS.Scheduler
import Mathlib.Data.Fintype.Basic

set_option autoImplicit false

namespace StarOS

/-! ### The channel -/

/-- `CHANNEL_CAPACITY`. -/
def channelCapacity : ℕ := 64

/-- A message. -/
structure IpcMessage where
  sender : TaskId
  msgType : BitVec 32
  payload : List (BitVec 8)
  deriving DecidableEq, Repr

/-- The channel.  A waker is the task that it wakes. -/
structure Channel (ι : Type) where
  queue : List IpcMessage
  wakers : List ι
  closed : Bool
  msgCount : BitVec 32
  deriving DecidableEq, Repr

/-- `Channel::new`. -/
def Channel.new (ι : Type) : Channel ι := ⟨[], [], false, 0#32⟩

/-- `Poll<Result<IpcMessage, KernelError>>`. -/
inductive Poll where
  | ready (r : Except KernelError IpcMessage)
  | pending

/-- What a call has returned. -/
inductive ChannelResult where
  | send (r : Except KernelError Unit)
  | close
  | tryRecv (m : Option IpcMessage)
  | poll (p : Poll)

/-! ### Tasks -/

/-- Where a task stands: the step it is about to make. -/
inductive ChannelPc where
  /-- No call in flight. -/
  | idle
  /-- `send`, before the look at the flag. -/
  | sendLoad (msg : IpcMessage)
  /-- `send`, before the section that appends the message. -/
  | sendPush (msg : IpcMessage)
  /-- `send`, before the section that wakes the tasks. -/
  | sendWake
  /-- `close`, before the store to the flag. -/
  | closeStore
  /-- `close`, before the section that wakes the tasks. -/
  | closeWake
  /-- `try_recv`. -/
  | tryRecv
  /-- `poll`, before the first look for a message. -/
  | pollRecv
  /-- `poll`, before the look at the flag. -/
  | pollClosed
  /-- `poll`, before the section that registers the waker. -/
  | pollRegister
  /-- `poll`, before the second look for a message. -/
  | pollRetry
  deriving DecidableEq, Repr

namespace ChannelPc

/-- A `send` or `close` is in flight. -/
def Sends : ChannelPc → Prop
  | sendLoad _ | sendPush _ | sendWake | closeStore | closeWake => True
  | _ => False

/-- A `send` or `close` that has still to wake the tasks. -/
def Wakes : ChannelPc → Prop
  | sendWake | closeWake => True
  | _ => False

/-- A `poll` is in flight. -/
def Polls : ChannelPc → Prop
  | pollRecv | pollClosed | pollRegister | pollRetry => True
  | _ => False

instance (pc : ChannelPc) : Decidable pc.Sends := by
  cases pc <;> simp only [Sends] <;> infer_instance

instance (pc : ChannelPc) : Decidable pc.Wakes := by
  cases pc <;> simp only [Wakes] <;> infer_instance

theorem Wakes.sends {pc : ChannelPc} (h : pc.Wakes) : pc.Sends := by
  cases pc with
  | sendWake => trivial
  | closeWake => trivial
  | _ => exact absurd h id

end ChannelPc

/-- A task: where it stands, what its last call returned, what its last poll returned (`none` while
that poll is in flight), and whether its waker has been woken since it was last registered. -/
structure ChannelTask where
  pc : ChannelPc
  returned : Option ChannelResult
  polled : Option Poll
  woken : Bool

/-- The calls of a task. -/
inductive ChannelCall where
  | send (msg : IpcMessage)
  | close
  | tryRecv
  | poll
  deriving DecidableEq, Repr

/-- One channel and its tasks. -/
structure ChannelState (ι : Type) where
  channel : Channel ι
  task : ι → ChannelTask

/-- What a task can do next: begin a call, or make the next step of its call. -/
inductive ChannelAct where
  | call (c : ChannelCall)
  | access
  deriving DecidableEq, Repr

variable {ι : Type} [DecidableEq ι]

namespace ChannelState

/-- A new channel, and no call in flight. -/
def start (ι : Type) : ChannelState ι where
  channel := Channel.new ι
  task := fun _ => ⟨.idle, none, none, false⟩

/-- Writing the channel. -/
def setChannel (s : ChannelState ι) (c : Channel ι) : ChannelState ι := { s with channel := c }

/-- Writing a task. -/
def setTask (s : ChannelState ι) (i : ι) (t : ChannelTask) : ChannelState ι :=
  { s with task := Function.update s.task i t }

/-- Moving a task on. -/
def setPc (s : ChannelState ι) (i : ι) (pc : ChannelPc) : ChannelState ι :=
  s.setTask i { s.task i with pc := pc }

/-- A call other than `poll` returns. -/
def finish (s : ChannelState ι) (i : ι) (r : ChannelResult) : ChannelState ι :=
  s.setTask i { s.task i with pc := .idle, returned := some r }

/-- A poll returns. -/
def finishPoll (s : ChannelState ι) (i : ι) (p : Poll) : ChannelState ι :=
  s.setTask i { s.task i with pc := .idle, returned := some (.poll p), polled := some p }

/-- Draining the wakers, and waking each of them. -/
def wakeAll (s : ChannelState ι) : ChannelState ι where
  channel := { s.channel with wakers := [] }
  task := fun j => if j ∈ s.channel.wakers then { s.task j with woken := true } else s.task j

/-- Registering the waker of a task. -/
def register (s : ChannelState ι) (i : ι) : ChannelState ι :=
  (s.setChannel { s.channel with wakers := s.channel.wakers ++ [i] }).setTask i
    { s.task i with pc := .pollRetry, woken := false }

/-- Taking the first message, if there is one. -/
def pop (s : ChannelState ι) : Option IpcMessage × ChannelState ι :=
  (s.channel.queue.head?, s.setChannel { s.channel with queue := s.channel.queue.tail })

/-- The next step of the call of a task. -/
def access (s : ChannelState ι) (i : ι) : Option (ChannelState ι) :=
  match (s.task i).pc with
  | .idle => none
  | .sendLoad msg =>
      if s.channel.closed then some (s.finish i (.send (.error .operationFailed)))
      else some (s.setPc i (.sendPush msg))
  | .sendPush msg =>
      if channelCapacity ≤ s.channel.queue.length then
        some (s.finish i (.send (.error .resourceExhausted)))
      else
        some ((s.setChannel { s.channel with
          queue := s.channel.queue ++ [msg], msgCount := s.channel.msgCount + 1#32 }).setPc i
            .sendWake)
  | .sendWake => some (s.wakeAll.finish i (.send (.ok ())))
  | .closeStore => some ((s.setChannel { s.channel with closed := true }).setPc i .closeWake)
  | .closeWake => some (s.wakeAll.finish i .close)
  | .tryRecv => some (s.pop.2.finish i (.tryRecv s.pop.1))
  | .pollRecv =>
      match s.pop.1 with
      | some msg => some (s.pop.2.finishPoll i (.ready (.ok msg)))
      | none => some (s.pop.2.setPc i .pollClosed)
  | .pollClosed =>
      if s.channel.closed then some (s.finishPoll i (.ready (.error .operationFailed)))
      else some (s.setPc i .pollRegister)
  | .pollRegister => some (s.register i)
  | .pollRetry =>
      match s.pop.1 with
      | some msg => some (s.pop.2.finishPoll i (.ready (.ok msg)))
      | none => some (s.pop.2.finishPoll i .pending)

/-- A call begins. -/
def begin (s : ChannelState ι) (i : ι) : ChannelCall → ChannelState ι
  | .send msg => s.setPc i (.sendLoad msg)
  | .close => s.setPc i .closeStore
  | .tryRecv => s.setPc i .tryRecv
  | .poll => s.setTask i { s.task i with pc := .pollRecv, polled := none }

/-- One step of one task. -/
def next (s : ChannelState ι) (e : ι × ChannelAct) : Option (ChannelState ι) :=
  match e.2 with
  | .call c => if (s.task e.1).pc = .idle then some (s.begin e.1 c) else none
  | .access => s.access e.1

end ChannelState

/-- The interleavings of any number of tasks on a new channel. -/
def channelSystem (ι : Type) [DecidableEq ι] :
    Runs.System (ChannelState ι) (ι × ChannelAct) where
  init := fun s => s = .start ι
  step := fun s e s' => s.next e = some s'

/-- The registrations in time: a waker is registered while the channel is open, or while a `send` or
`close` has still to wake the tasks. -/
def RegistersInTime (s : ChannelState ι) (e : ι × ChannelAct) : Prop :=
  e.2 = .access → (s.task e.1).pc = .pollRegister →
    s.channel.closed = false ∨ ∃ j, (s.task j).pc.Wakes

instance [Fintype ι] (s : ChannelState ι) (e : ι × ChannelAct) : Decidable (RegistersInTime s e) :=
  inferInstanceAs (Decidable (_ → _ → _ ∨ _))

/-! ### The invariants -/

/-- The task has registered its waker and not been woken since, and is about to look for a message
once more or has returned `Pending`. -/
def ChannelTask.Waits (t : ChannelTask) : Prop :=
  t.woken = false ∧ (t.pc = .pollRetry ∨ t.polled = some .pending)

namespace ChannelState

/-- Some call has still to wake the tasks. -/
def WakesPending (s : ChannelState ι) : Prop := ∃ j, (s.task j).pc.Wakes

/-- A poll in flight has returned nothing yet, whoever waits is registered, and nobody has returned
`Pending` with a message in the queue unless a sender has still to wake the tasks. -/
structure Registered (s : ChannelState ι) : Prop where
  polling : ∀ r, (s.task r).pc.Polls → (s.task r).polled = none
  registered : ∀ r, (s.task r).Waits → r ∈ s.channel.wakers
  noMessage : ∀ r, (s.task r).woken = false → (s.task r).polled = some .pending →
    s.channel.queue = [] ∨ s.WakesPending

/-- Whoever waits does so on an open channel, unless some call has still to wake the tasks. -/
def Noticed (s : ChannelState ι) : Prop :=
  ∀ r, (s.task r).Waits → s.channel.closed = false ∨ s.WakesPending

variable {s s' : ChannelState ι} {i j r : ι}

@[simp] theorem setTask_task_self (s : ChannelState ι) (i : ι) (t : ChannelTask) :
    (s.setTask i t).task i = t := Function.update_self ..

theorem setTask_task_of_ne (s : ChannelState ι) (t : ChannelTask) (h : j ≠ i) :
    (s.setTask i t).task j = s.task j := Function.update_of_ne h ..

@[simp] theorem setTask_channel (s : ChannelState ι) (i : ι) (t : ChannelTask) :
    (s.setTask i t).channel = s.channel := rfl

section

omit [DecidableEq ι]

@[simp] theorem setChannel_task (s : ChannelState ι) (c : Channel ι) :
    (s.setChannel c).task = s.task := rfl

@[simp] theorem setChannel_channel (s : ChannelState ι) (c : Channel ι) :
    (s.setChannel c).channel = c := rfl

theorem start_not_waits (r : ι) : ¬ ((start ι).task r).Waits := by
  rintro ⟨-, h | h⟩
  · exact absurd h (by simp [start])
  · exact absurd h (by simp [start])

theorem registered_start : (start ι).Registered where
  polling := fun _ h => absurd h id
  registered := fun r h => absurd h (start_not_waits r)
  noMessage := fun _ _ _ => Or.inl rfl

/-- A task that stands where no tasks are to be woken. -/
theorem asleep_of_pc {pc : ChannelPc} (hpc : (s.task i).pc = pc) (h : ¬ pc.Wakes) :
    ¬ (s.task i).pc.Wakes := by
  rw [hpc]
  exact h

/-- If only a task changes that has not to wake the others, whoever has to still has. -/
theorem WakesPending.of_others (h : s.WakesPending) (hi : ¬ (s.task i).pc.Wakes)
    (hothers : ∀ j, j ≠ i → s'.task j = s.task j) : s'.WakesPending := by
  obtain ⟨j, hj⟩ := h
  have hji : j ≠ i := by
    rintro rfl
    exact hi hj
  exact ⟨j, by rw [hothers j hji]; exact hj⟩

/-! ### What a step changes -/

/-- A step of task `i` that wakes and registers nobody: only what concerns the task changes, a
message or the flag comes with a wake-up that is still to be made, and `Pending` is returned on an
empty queue. -/
structure Moves (s s' : ChannelState ι) (i : ι) : Prop where
  others : ∀ j, j ≠ i → s'.task j = s.task j
  asleep : ¬ (s.task i).pc.Wakes
  polling : ((s.task i).pc.Polls → (s.task i).polled = none) →
    (s'.task i).pc.Polls → (s'.task i).polled = none
  waits : (s'.task i).Waits → (s.task i).Waits
  woken : (s'.task i).woken = (s.task i).woken
  polled : (s'.task i).polled = some .pending →
    (s.task i).polled = some .pending ∨ s'.channel.queue = []
  wakers : s'.channel.wakers = s.channel.wakers
  queue : s.channel.queue = [] → s'.channel.queue = [] ∨ (s'.task i).pc.Wakes
  closed : s.channel.closed = false → s'.channel.closed = false ∨ (s'.task i).pc.Wakes

theorem Moves.waits_of (m : Moves s s' i) (h : (s'.task r).Waits) : (s.task r).Waits := by
  by_cases hr : r = i
  · subst hr
    exact m.waits h
  · rwa [m.others r hr] at h

theorem Moves.wakesPending (m : Moves s s' i) (h : s.WakesPending) : s'.WakesPending :=
  h.of_others m.asleep m.others

theorem Registered.of_moves (h : s.Registered) (m : Moves s s' i) : s'.Registered := by
  have hkeep : s.channel.queue = [] ∨ s.WakesPending →
      s'.channel.queue = [] ∨ s'.WakesPending := by
    rintro (hq | hp)
    · exact (m.queue hq).imp_right fun hw => ⟨i, hw⟩
    · exact Or.inr (m.wakesPending hp)
  refine ⟨fun r hr => ?_, fun r hr => ?_, fun r hw hp => ?_⟩
  · by_cases hri : r = i
    · subst hri
      exact m.polling (h.polling r) hr
    · rw [m.others r hri] at hr ⊢
      exact h.polling r hr
  · rw [m.wakers]
    exact h.registered r (m.waits_of hr)
  · by_cases hri : r = i
    · subst hri
      rw [m.woken] at hw
      rcases m.polled hp with hp' | hq
      · exact hkeep (h.noMessage r hw hp')
      · exact Or.inl hq
    · rw [m.others r hri] at hw hp
      exact hkeep (h.noMessage r hw hp)

theorem Noticed.of_moves (h : s.Noticed) (m : Moves s s' i) : s'.Noticed := by
  intro r hr
  rcases h r (m.waits_of hr) with hc | hp
  · exact (m.closed hc).imp_right fun hw => ⟨i, hw⟩
  · exact Or.inr (m.wakesPending hp)

end

/-- A step that moves the task on to a point from which it does not wait. -/
theorem moves_setPc (s : ChannelState ι) (c : Channel ι) {pc : ChannelPc}
    (hasleep : ¬ (s.task i).pc.Wakes) (hpc : pc ≠ .pollRetry)
    (hpolls : pc.Polls → (s.task i).pc.Polls) (hwakers : c.wakers = s.channel.wakers)
    (hqueue : s.channel.queue = [] → c.queue = [] ∨ pc.Wakes)
    (hclosed : s.channel.closed = false → c.closed = false ∨ pc.Wakes) :
    Moves s ((s.setChannel c).setPc i pc) i := by
  have hself : ((s.setChannel c).setPc i pc).task i = { s.task i with pc := pc } :=
    setTask_task_self ..
  refine ⟨fun j hj => setTask_task_of_ne _ _ hj, hasleep, fun hp h => ?_, fun h => ?_, ?_,
    fun h => ?_, hwakers, fun h => ?_, fun h => ?_⟩
  · rw [hself] at h ⊢
    exact hp (hpolls h)
  · rw [hself] at h
    exact ⟨h.1, h.2.imp_left fun he => absurd he hpc⟩
  · rw [hself]
  · rw [hself] at h
    exact Or.inl h
  · rw [hself]
    exact hqueue h
  · rw [hself]
    exact hclosed h

/-- A step with which a call returns. -/
theorem moves_finish (s : ChannelState ι) (c : Channel ι) (v : ChannelResult) (p : Option Poll)
    (hasleep : ¬ (s.task i).pc.Wakes) (hwakers : c.wakers = s.channel.wakers)
    (hqueue : s.channel.queue = [] → c.queue = []) (hclosed : c.closed = s.channel.closed)
    (hp : p = some .pending → (s.task i).polled = some .pending ∨
      (s.task i).pc = .pollRetry ∧ c.queue = []) :
    Moves s ((s.setChannel c).setTask i ⟨.idle, some v, p, (s.task i).woken⟩) i := by
  have hself : ((s.setChannel c).setTask i ⟨.idle, some v, p, (s.task i).woken⟩).task i =
      ⟨.idle, some v, p, (s.task i).woken⟩ := setTask_task_self ..
  refine ⟨fun j hj => setTask_task_of_ne _ _ hj, hasleep, fun _ h => ?_, fun h => ?_, ?_,
    fun h => ?_, hwakers, fun h => Or.inl (hqueue h), fun h => Or.inl (hclosed.trans h)⟩
  · rw [hself] at h
    exact absurd h id
  · rw [hself] at h
    obtain ⟨hw, he | he⟩ := h
    · exact absurd he ChannelPc.noConfusion
    · exact ⟨hw, (hp he).symm.imp_left And.left⟩
  · rw [hself]
  · rw [hself] at h
    exact (hp h).imp_right And.right

/-- A poll begins. -/
theorem moves_beginPoll (s : ChannelState ι) (hasleep : ¬ (s.task i).pc.Wakes) :
    Moves s (s.begin i .poll) i := by
  have hself : (s.begin i .poll).task i = { s.task i with pc := .pollRecv, polled := none } :=
    setTask_task_self ..
  refine ⟨fun j hj => setTask_task_of_ne _ _ hj, hasleep, fun _ _ => ?_, fun h => ?_, ?_,
    fun h => ?_, rfl, Or.inl, Or.inl⟩
  · rw [hself]
  · rw [hself] at h
    rcases h.2 with he | he
    · exact absurd he ChannelPc.noConfusion
    · exact absurd he.symm (Option.some_ne_none _)
  · rw [hself]
  · rw [hself] at h
    exact absurd h.symm (Option.some_ne_none _)

/-- What a step can do: wake and register nobody, wake everybody and return, or register. -/
theorem next_cases {e : ι × ChannelAct} (hs : s.next e = some s') :
    Moves s s' e.1 ∨ (∃ v, s' = s.wakeAll.finish e.1 v) ∨
      ((s.task e.1).pc = .pollRegister ∧ e.2 = .access ∧ s' = s.register e.1) := by
  obtain ⟨i, a⟩ := e
  cases a with
  | call c =>
      obtain ⟨hpc, hs⟩ := Option.ite_none_right_eq_some.1 hs
      cases hs
      have hasleep : ¬ (s.task i).pc.Wakes := asleep_of_pc hpc id
      refine Or.inl ?_
      cases c with
      | send msg =>
          exact moves_setPc s s.channel hasleep ChannelPc.noConfusion False.elim rfl Or.inl Or.inl
      | close =>
          exact moves_setPc s s.channel hasleep ChannelPc.noConfusion False.elim rfl Or.inl Or.inl
      | tryRecv =>
          exact moves_setPc s s.channel hasleep ChannelPc.noConfusion False.elim rfl Or.inl Or.inl
      | poll => exact moves_beginPoll s hasleep
  | access =>
      change s.access i = some s' at hs
      have hempty : s.channel.queue = [] → s.channel.queue.tail = [] := fun hq => by rw [hq]; rfl
      cases hpc : (s.task i).pc with
      | idle => simp [access, hpc] at hs
      | sendLoad msg =>
          have hasleep : ¬ (s.task i).pc.Wakes := asleep_of_pc hpc id
          rw [access, hpc] at hs
          dsimp only at hs
          split at hs
          · cases hs
            exact Or.inl (moves_finish s s.channel _ _ hasleep rfl id rfl Or.inl)
          · cases hs
            exact Or.inl (moves_setPc s s.channel hasleep ChannelPc.noConfusion False.elim rfl
              Or.inl Or.inl)
      | sendPush msg =>
          have hasleep : ¬ (s.task i).pc.Wakes := asleep_of_pc hpc id
          rw [access, hpc] at hs
          dsimp only at hs
          split at hs
          · cases hs
            exact Or.inl (moves_finish s s.channel _ _ hasleep rfl id rfl Or.inl)
          · cases hs
            exact Or.inl (moves_setPc s _ hasleep ChannelPc.noConfusion False.elim rfl
              (fun _ => Or.inr trivial) Or.inl)
      | sendWake =>
          rw [access, hpc] at hs
          cases hs
          exact Or.inr (Or.inl ⟨_, rfl⟩)
      | closeStore =>
          have hasleep : ¬ (s.task i).pc.Wakes := asleep_of_pc hpc id
          rw [access, hpc] at hs
          cases hs
          exact Or.inl (moves_setPc s _ hasleep ChannelPc.noConfusion False.elim rfl Or.inl
            fun _ => Or.inr trivial)
      | closeWake =>
          rw [access, hpc] at hs
          cases hs
          exact Or.inr (Or.inl ⟨_, rfl⟩)
      | tryRecv =>
          have hasleep : ¬ (s.task i).pc.Wakes := asleep_of_pc hpc id
          rw [access, hpc] at hs
          cases hs
          exact Or.inl (moves_finish s _ _ _ hasleep rfl hempty rfl Or.inl)
      | pollRecv =>
          have hasleep : ¬ (s.task i).pc.Wakes := asleep_of_pc hpc id
          rw [access, hpc] at hs
          dsimp only at hs
          split at hs
          · cases hs
            exact Or.inl (moves_finish s _ _ _ hasleep rfl hempty rfl
              fun he => absurd he (by simp))
          · cases hs
            exact Or.inl (moves_setPc s _ hasleep ChannelPc.noConfusion
              (fun _ => by rw [hpc]; trivial) rfl (fun hq => Or.inl (hempty hq)) Or.inl)
      | pollClosed =>
          have hasleep : ¬ (s.task i).pc.Wakes := asleep_of_pc hpc id
          rw [access, hpc] at hs
          dsimp only at hs
          split at hs
          · cases hs
            exact Or.inl (moves_finish s s.channel _ _ hasleep rfl id rfl
              fun he => absurd he (by simp))
          · cases hs
            exact Or.inl (moves_setPc s s.channel hasleep ChannelPc.noConfusion
              (fun _ => by rw [hpc]; trivial) rfl Or.inl Or.inl)
      | pollRegister =>
          rw [access, hpc] at hs
          cases hs
          exact Or.inr (Or.inr ⟨rfl, rfl, rfl⟩)
      | pollRetry =>
          have hasleep : ¬ (s.task i).pc.Wakes := asleep_of_pc hpc id
          rw [access, hpc] at hs
          dsimp only at hs
          split at hs
          · cases hs
            exact Or.inl (moves_finish s _ _ _ hasleep rfl hempty rfl
              fun he => absurd he (by simp))
          · -- nothing was found the second time
            rename_i hnone
            cases hs
            have hq : s.channel.queue = [] := List.head?_eq_none_iff.1 hnone
            exact Or.inl (moves_finish s _ _ _ hasleep rfl hempty rfl
              fun _ => Or.inr ⟨hpc, hempty hq⟩)

/-! ### The invariants are kept -/

/-- A wake-up moves no task. -/
theorem wakeAll_pc (s : ChannelState ι) (r : ι) : (s.wakeAll.task r).pc = (s.task r).pc := by
  rw [wakeAll]
  dsimp only
  split
  · rfl
  · rfl

theorem wakeAll_polled (s : ChannelState ι) (r : ι) :
    (s.wakeAll.task r).polled = (s.task r).polled := by
  rw [wakeAll]
  dsimp only
  split
  · rfl
  · rfl

/-- After a wake-up nobody waits: whoever waited was registered, and has been woken. -/
theorem Registered.wakeAll_not_waits (h : s.Registered) (v : ChannelResult) (r : ι) :
    ¬ ((s.wakeAll.finish i v).task r).Waits := by
  have hasleep : ¬ (s.wakeAll.task r).Waits := by
    rw [wakeAll]
    dsimp only
    split
    · exact fun hw => absurd hw.1 (by simp)
    · rename_i hr
      exact fun hw => hr (h.registered r hw)
  rw [finish]
  by_cases hri : r = i
  · subst hri
    rw [setTask_task_self]
    rintro ⟨hw, hp | hp⟩
    · exact absurd hp ChannelPc.noConfusion
    · exact hasleep ⟨hw, Or.inr hp⟩
  · rwa [setTask_task_of_ne _ _ hri]

theorem Registered.wakeAll (h : s.Registered) (v : ChannelResult) :
    (s.wakeAll.finish i v).Registered := by
  refine ⟨fun r hr => ?_, fun r hr => absurd hr (h.wakeAll_not_waits v r), fun r hw hp =>
    absurd ⟨hw, Or.inr hp⟩ (h.wakeAll_not_waits v r)⟩
  rw [finish] at hr ⊢
  by_cases hri : r = i
  · subst hri
    rw [setTask_task_self] at hr
    exact absurd hr id
  · rw [setTask_task_of_ne _ _ hri] at hr ⊢
    rw [wakeAll_pc] at hr
    rw [wakeAll_polled]
    exact h.polling r hr

/-- Registering the waker of a poll in flight. -/
theorem Registered.register (h : s.Registered) (hpc : (s.task i).pc = .pollRegister) :
    (s.register i).Registered := by
  have hnone : (s.task i).polled = none := h.polling i (by rw [hpc]; trivial)
  have hself : (s.register i).task i = { s.task i with pc := .pollRetry, woken := false } :=
    setTask_task_self ..
  have hof : ∀ j, j ≠ i → (s.register i).task j = s.task j := fun j hj =>
    setTask_task_of_ne _ _ hj
  refine ⟨fun r hr => ?_, fun r hr => ?_, fun r hw hp => ?_⟩
  · by_cases hri : r = i
    · rw [hri, hself]
      exact hnone
    · rw [hof r hri] at hr ⊢
      exact h.polling r hr
  · by_cases hri : r = i
    · rw [hri]
      exact List.mem_append_right _ (List.mem_singleton.2 rfl)
    · rw [hof r hri] at hr
      exact List.mem_append_left _ (h.registered r hr)
  · by_cases hri : r = i
    · rw [hri, hself] at hp
      exact absurd (hp.symm.trans hnone) (Option.some_ne_none _)
    · rw [hof r hri] at hw hp
      exact (h.noMessage r hw hp).imp_right fun hpending =>
        hpending.of_others (asleep_of_pc hpc id) hof

/-- Registering in time. -/
theorem noticed_register (hpc : (s.task i).pc = .pollRegister)
    (htime : s.channel.closed = false ∨ s.WakesPending) : (s.register i).Noticed := by
  exact fun r _ => htime.imp_right fun hpending =>
    hpending.of_others (asleep_of_pc hpc id) fun j hj => setTask_task_of_ne _ _ hj

/-- The registrations are kept by every step. -/
theorem Registered.next (h : s.Registered) {e : ι × ChannelAct} (hs : s.next e = some s') :
    s'.Registered := by
  obtain hm | ⟨v, rfl⟩ | ⟨hpc, -, rfl⟩ := next_cases hs
  · exact h.of_moves hm
  · exact h.wakeAll v
  · exact h.register hpc

/-- That the flag is noticed is kept by the steps that register in time. -/
theorem Noticed.next (h : s.Noticed) (hr : s.Registered) {e : ι × ChannelAct}
    (hg : RegistersInTime s e) (hs : s.next e = some s') : s'.Noticed := by
  obtain hm | ⟨v, rfl⟩ | ⟨hpc, hacc, rfl⟩ := next_cases hs
  · exact h.of_moves hm
  · exact fun r hw => absurd hw (hr.wakeAll_not_waits v r)
  · exact noticed_register hpc (hg hacc hpc)

end ChannelState

/-! ### Runs -/

/-- In every run whoever has returned `Pending`, and has not been woken since, is registered and
faces an empty queue while no `send` and no `close` is in flight. -/
theorem channel_registered {s : ChannelState ι}
    (h : (channelSystem ι).Reach Runs.anyStep s) : s.Registered := by
  refine h.invariant (fun s₀ h₀ => ?_) fun s₁ e s₂ h₁ _ hs => h₁.next hs
  obtain rfl : s₀ = ChannelState.start ι := h₀
  exact ChannelState.registered_start

/-- **No wake-up is lost.**  In every run whose registrations are in time, whenever no `send` and no
`close` is in flight, whoever has returned `Pending` and has not been woken since is registered, the
queue is empty, and the channel is open. -/
theorem channel_no_lost_wakeup {s : ChannelState ι}
    (h : (channelSystem ι).Reach RegistersInTime s) (hquiet : ∀ j, ¬ (s.task j).pc.Sends) {r : ι}
    (hpending : (s.task r).polled = some .pending) (hwoken : (s.task r).woken = false) :
    r ∈ s.channel.wakers ∧ s.channel.queue = [] ∧ s.channel.closed = false := by
  have hnone : ¬ s.WakesPending := fun ⟨j, hj⟩ => hquiet j hj.sends
  have hsound : s.Registered ∧ s.Noticed := by
    refine h.invariant (P := fun s => s.Registered ∧ s.Noticed) (fun s₀ h₀ => ?_) ?_
    · obtain rfl : s₀ = ChannelState.start ι := h₀
      exact ⟨ChannelState.registered_start, fun r hr =>
        absurd hr (ChannelState.start_not_waits r)⟩
    · rintro s₁ e s₂ ⟨hr, hn⟩ hg hs
      exact ⟨hr.next hs, hn.next hr hg hs⟩
  obtain ⟨hreg, hnoticed⟩ := hsound
  have hwaits : (s.task r).Waits := ⟨hwoken, Or.inr hpending⟩
  exact ⟨hreg.registered r hwaits, (hreg.noMessage r hwoken hpending).resolve_right hnone,
    (hnoticed r hwaits).resolve_right hnone⟩

/-- The trace of a task that polls an empty channel. -/
def parkTrace : List (Bool × ChannelAct) :=
  (false, .call .poll) :: List.replicate 4 (false, .access)

/-- A task that has polled an empty channel is registered, and the channel is open. -/
theorem channel_no_lost_wakeup_parked :
    ∃ s : ChannelState Bool, (s.task false).polled = some .pending ∧
      false ∈ s.channel.wakers ∧ s.channel.queue = [] ∧ s.channel.closed = false := by
  have hrun : ∃ s, Runs.replay ChannelState.next (fun s e => decide (RegistersInTime s e))
      (ChannelState.start Bool) parkTrace = some s ∧ (∀ j, ¬ (s.task j).pc.Sends) ∧
        (s.task false).polled = some .pending ∧ (s.task false).woken = false :=
    ⟨_, rfl, by decide, rfl, rfl⟩
  obtain ⟨s, hs, hquiet, hpending, hwoken⟩ := hrun
  have hreach : (channelSystem Bool).Reach RegistersInTime s := by
    have h := Runs.System.Reach.replay (M := channelSystem Bool) (fun _ _ _ h => h) (.init rfl) hs
    simpa only [decide_eq_true_eq] using h
  exact ⟨s, hpending, channel_no_lost_wakeup hreach hquiet hpending hwoken⟩

/-- The trace of a task that polls, and of another one that closes the channel between the look at
the flag and the registration. -/
def closeTrace : List (Bool × ChannelAct) :=
  [(false, .call .poll), (false, .access), (false, .access), (true, .call .close),
    (true, .access), (true, .access), (false, .access), (false, .access)]

/-- The channel is closed, no call is in flight, and the task that has returned `Pending` has not
been woken. -/
theorem channel_loses_close :
    ∃ s, (channelSystem Bool).Reach Runs.anyStep s ∧ (∀ j, ¬ (s.task j).pc.Sends) ∧
      (s.task false).polled = some .pending ∧ (s.task false).woken = false ∧
      s.channel.closed = true := by
  have hrun : ∃ s, Runs.replay ChannelState.next (fun _ _ => true) (ChannelState.start Bool)
      closeTrace = some s ∧ (∀ j, ¬ (s.task j).pc.Sends) ∧
        (s.task false).polled = some .pending ∧ (s.task false).woken = false ∧
        s.channel.closed = true :=
    ⟨_, rfl, by decide, rfl, rfl, rfl⟩
  obtain ⟨s, hs, hrest⟩ := hrun
  exact ⟨s, (Runs.System.Reach.replay (fun _ _ _ h => h) (.init rfl) hs).free, hrest⟩

end StarOS
