/-
Signal delivery to userspace (`signals.rs`): pending and blocked signals, handlers, and the register
context that is saved while a handler runs.

A task has room for one saved context.  `setup_signal_frame` overwrites it, and
`restore_signal_frame` takes it out.  So a signal that is delivered while a handler runs destroys
the context that the handler was to return to: the inner return succeeds, and the outer one finds
nothing.  The frames of a task unwind exactly in the runs in which no frame is set up while another
one is open.

* `StarOS.SavedContext`, `StarOS.SignalState`, `StarOS.SignalTable` — the data;
* `StarOS.SignalTable.sendSignal`, `StarOS.SignalTable.dequeueSignal`,
  `StarOS.SignalTable.setHandler`, `StarOS.SignalTable.setSignalMask`,
  `StarOS.SignalTable.setupSignalFrame`, `StarOS.SignalTable.restoreSignalFrame` — the operations;
* `StarOS.SignalCall`, `StarOS.frames` — the calls, and the stack of open frames of a task;
* `StarOS.WellBracketed`, `StarOS.Unwinds`, `StarOS.NeverNested` — runs that close every frame they
  open, the law, and the condition on the calls;
* `StarOS.signal_frames_unwind_iff` — the law holds exactly if frames are never nested;
* `StarOS.signal_frame_lost` — a nested frame, and an outer return that fails.
-/

import StarOS.Word
import Mathlib.Tactic.Cases

set_option autoImplicit false

namespace StarOS

/-! ### Data -/

/-- The register context that is saved for `restore_signal_frame`. -/
structure SavedContext where
  x : Fin 31 → BitVec 64
  sp : BitVec 64
  pc : BitVec 64
  pstate : BitVec 64
  deriving DecidableEq

/-- The number of tasks that have a signal state, `MAX_TASKS`. -/
def maxSignalTasks : ℕ := 256

/-- `SIGRETURN_TRAMPOLINE`. -/
def sigreturnTrampoline : BitVec 64 := 0xFFFFFFFF0000#64

/-- `UNCATCHABLE_MASK`: `SIGKILL` and `SIGSTOP`. -/
def uncatchableMask : BitVec 32 := (1#32 <<< 9) ||| (1#32 <<< 19)

/-- The signal state of a task.  Only the 32 handlers below `MAX_SIGNALS` exist. -/
structure SignalState where
  pending : BitVec 32
  blocked : BitVec 32
  handlers : ℕ → Option (BitVec 64)
  savedCtx : Option SavedContext

/-- `SignalState::new`. -/
def SignalState.new : SignalState where
  pending := 0#32
  blocked := 0#32
  handlers := fun _ => none
  savedCtx := none

/-- The signal states of all tasks.  Only those below `maxSignalTasks` exist. -/
structure SignalTable where
  states : ℕ → SignalState

/-! ### Operations -/

namespace SignalTable

/-- `SIGNAL_STORAGE` at boot. -/
def new : SignalTable := ⟨fun _ => SignalState.new⟩

/-- `get_state`. -/
def getState (table : SignalTable) (taskId : ℕ) : Option SignalState :=
  if maxSignalTasks ≤ taskId then none else some (table.states taskId)

/-- Replacing the state of a task. -/
def setState (table : SignalTable) (taskId : ℕ) (state : SignalState) : SignalTable :=
  ⟨Function.update table.states taskId state⟩

/-- A signal number that the operations accept. -/
def validSignal (signal : BitVec 8) : Bool := signal != 0#8 && signal.toNat ≤ 31

/-- `send_signal`. -/
def sendSignal (table : SignalTable) (taskId : ℕ) (signal : BitVec 8) :
    Except String Unit × SignalTable :=
  if validSignal signal then
    match table.getState taskId with
    | none => (.error "invalid task_id", table)
    | some state =>
        (.ok (), table.setState taskId
          { state with pending := state.pending ||| (1#32 <<< signal.toNat) })
  else (.error "invalid signal number", table)

/-- The signals that `dequeue_signal` may deliver. -/
def deliverable (state : SignalState) : BitVec 32 :=
  state.pending &&& (~~~state.blocked ||| uncatchableMask)

/-- `dequeue_signal`, when no other core changes the pending signals meanwhile. -/
def dequeueSignal (table : SignalTable) (taskId : ℕ) : Option ℕ × SignalTable :=
  match table.getState taskId with
  | none => (none, table)
  | some state =>
      if deliverable state = 0#32 then (none, table)
      else
        let sig := firstIndex (fun i => (deliverable state).getLsbD i) 32
        (some sig, table.setState taskId
          { state with pending := state.pending &&& ~~~(1#32 <<< sig) })

/-- `set_handler`. -/
def setHandler (table : SignalTable) (taskId : ℕ) (signal : BitVec 8) (handlerAddr : BitVec 64) :
    Except String Unit × SignalTable :=
  if validSignal signal then
    if (1#32 <<< signal.toNat) &&& uncatchableMask ≠ 0#32 then
      (.error "cannot catch SIGKILL or SIGSTOP", table)
    else
      match table.getState taskId with
      | none => (.error "invalid task_id", table)
      | some state =>
          (.ok (), table.setState taskId
            { state with handlers := Function.update state.handlers signal.toNat handlerAddr })
  else (.error "invalid signal number", table)

/-- `set_signal_mask`. -/
def setSignalMask (table : SignalTable) (taskId : ℕ) (mask : BitVec 32) :
    Except String Unit × SignalTable :=
  match table.getState taskId with
  | none => (.error "invalid task_id", table)
  | some state =>
      (.ok (), table.setState taskId { state with blocked := mask &&& ~~~uncatchableMask })

/-- The context in which a handler starts. -/
def handlerContext (signal : BitVec 8) (handler : BitVec 64) (ctx : SavedContext) : SavedContext :=
  { ctx with
    x := Function.update (Function.update ctx.x 0 (signal.setWidth 64)) 30 sigreturnTrampoline
    pc := handler }

/-- `setup_signal_frame`: the result, the table and the context afterwards. -/
def setupSignalFrame (table : SignalTable) (taskId : ℕ) (signal : BitVec 8) (ctx : SavedContext) :
    Except String Unit × SignalTable × SavedContext :=
  if validSignal signal then
    match table.getState taskId with
    | none => (.error "invalid task_id", table, ctx)
    | some state =>
        match state.handlers signal.toNat with
        | none => (.error "no handler registered", table, ctx)
        | some handler =>
            -- a context that was saved before is lost here
            (.ok (), table.setState taskId { state with savedCtx := some ctx },
              handlerContext signal handler ctx)
  else (.error "invalid signal number", table, ctx)

/-- `restore_signal_frame`: the result, the table and the context afterwards. -/
def restoreSignalFrame (table : SignalTable) (taskId : ℕ) (ctx : SavedContext) :
    Except String Unit × SignalTable × SavedContext :=
  match table.getState taskId with
  | none => (.error "invalid task_id", table, ctx)
  | some state =>
      match state.savedCtx with
      | none => (.error "no saved signal frame", table, ctx)
      | some saved => (.ok (), table.setState taskId { state with savedCtx := none }, saved)

/-! ### The saved context -/

/-- The context saved for a task. -/
def saved (table : SignalTable) (taskId : ℕ) : Option SavedContext :=
  (table.getState taskId).bind SignalState.savedCtx

/-- A frame can be set up for the signal: its number is valid, and the task has a handler. -/
def canDeliver (table : SignalTable) (taskId : ℕ) (signal : BitVec 8) : Bool :=
  validSignal signal &&
    ((table.getState taskId).bind fun state => state.handlers signal.toNat).isSome

theorem getState_setState (table : SignalTable) (taskId t : ℕ) (state : SignalState)
    (h : (table.getState taskId).isSome) :
    (table.setState taskId state).getState t =
      if t = taskId then some state else table.getState t := by
  have hlt : ¬ maxSignalTasks ≤ taskId := by
    intro hle
    rw [getState, if_pos hle] at h
    cases h
  rw [getState, getState, setState]
  dsimp only
  by_cases ht : t = taskId
  · rw [ht, Function.update_self, if_neg hlt, if_pos rfl]
  · rw [Function.update_of_ne ht, if_neg ht]

/-- Replacing the state of a task by one with another saved context. -/
theorem saved_setState {table : SignalTable} {taskId : ℕ} {state : SignalState}
    (h : table.getState taskId = some state) (state' : SignalState) (t : ℕ) :
    (table.setState taskId state').saved t =
      if t = taskId then state'.savedCtx else table.saved t := by
  rw [saved, getState_setState _ _ _ _ (by rw [h]; rfl)]
  split <;> rfl

/-- Replacing the state of a task by one with the same saved context. -/
theorem saved_setState_same {table : SignalTable} {taskId : ℕ} {state state' : SignalState}
    (h : table.getState taskId = some state) (hctx : state'.savedCtx = state.savedCtx) (t : ℕ) :
    (table.setState taskId state').saved t = table.saved t := by
  rw [saved_setState h, hctx]
  split
  · rename_i heq
    rw [heq, saved, h]
    rfl
  · rfl

@[simp] theorem saved_sendSignal (table : SignalTable) (taskId : ℕ) (signal : BitVec 8) (t : ℕ) :
    (table.sendSignal taskId signal).2.saved t = table.saved t := by
  rw [sendSignal]
  split
  · split
    · rfl
    · rename_i hstate
      refine saved_setState_same hstate ?_ t
      rfl
  · rfl

@[simp] theorem saved_dequeueSignal (table : SignalTable) (taskId t : ℕ) :
    (table.dequeueSignal taskId).2.saved t = table.saved t := by
  rw [dequeueSignal]
  split
  · rfl
  · split
    · rfl
    · rename_i hstate _
      refine saved_setState_same hstate ?_ t
      rfl

@[simp] theorem saved_setHandler (table : SignalTable) (taskId : ℕ) (signal : BitVec 8)
    (handlerAddr : BitVec 64) (t : ℕ) :
    (table.setHandler taskId signal handlerAddr).2.saved t = table.saved t := by
  rw [setHandler]
  split
  · split
    · rfl
    · split
      · rfl
      · rename_i hstate
        refine saved_setState_same hstate ?_ t
        rfl
  · rfl

@[simp] theorem saved_setSignalMask (table : SignalTable) (taskId : ℕ) (mask : BitVec 32) (t : ℕ) :
    (table.setSignalMask taskId mask).2.saved t = table.saved t := by
  rw [setSignalMask]
  split
  · rfl
  · rename_i hstate
    refine saved_setState_same hstate ?_ t
    rfl

/-- A frame is set up exactly if it can be, and then the context is saved over what was there. -/
theorem setupSignalFrame_spec (table : SignalTable) (taskId : ℕ) (signal : BitVec 8)
    (ctx : SavedContext) :
    ((table.setupSignalFrame taskId signal ctx).1 = .ok () ↔
      table.canDeliver taskId signal = true) ∧
    ∀ t, (table.setupSignalFrame taskId signal ctx).2.1.saved t =
      if t = taskId ∧ table.canDeliver taskId signal = true then some ctx else table.saved t := by
  rw [setupSignalFrame, canDeliver]
  cases validSignal signal with
  | false => simp
  | true =>
      cases hstate : table.getState taskId with
      | none => simp
      | some state =>
          cases hhandler : state.handlers signal.toNat with
          | none => simp [hhandler]
          | some handler => simp [hhandler, saved_setState hstate]

/-- The context saved for the task is restored, if there is one, and is gone afterwards. -/
theorem restoreSignalFrame_spec (table : SignalTable) (taskId : ℕ) (ctx : SavedContext) :
    ((table.restoreSignalFrame taskId ctx).1 = .ok () ↔ (table.saved taskId).isSome) ∧
    (∀ saved, table.saved taskId = some saved →
      (table.restoreSignalFrame taskId ctx).2.2 = saved) ∧
    ∀ t, (table.restoreSignalFrame taskId ctx).2.1.saved t =
      if t = taskId then none else table.saved t := by
  -- where nothing was saved, the table stays as it is
  have hsame : table.saved taskId = none → ∀ t, table.saved t =
      if t = taskId then none else table.saved t := by
    intro hnone t
    split
    · rename_i heq
      rw [heq, hnone]
    · rfl
  rw [restoreSignalFrame]
  cases hstate : table.getState taskId with
  | none =>
      have hnone : table.saved taskId = none := by rw [saved, hstate]; rfl
      exact ⟨by simp [hnone], by simp [hnone], hsame hnone⟩
  | some state =>
      have hsaved : table.saved taskId = state.savedCtx := by rw [saved, hstate]; rfl
      cases hctx : state.savedCtx with
      | none =>
          rw [hctx] at hsaved
          exact ⟨by simp [hctx, hsaved], by simp [hsaved], by simpa [hctx] using hsame hsaved⟩
      | some ctx' =>
          rw [hctx] at hsaved
          exact ⟨by simp [hctx, hsaved], by simp [hctx, hsaved],
            by simp [hctx, saved_setState hstate]⟩

end SignalTable

/-! ### Calls and open frames -/

/-- The calls of the signal subsystem.  Between two calls the task runs, so the contexts that are
passed to them are arbitrary. -/
inductive SignalCall where
  | send (taskId : ℕ) (signal : BitVec 8)
  | dequeue (taskId : ℕ)
  | setHandler (taskId : ℕ) (signal : BitVec 8) (handlerAddr : BitVec 64)
  | setMask (taskId : ℕ) (mask : BitVec 32)
  | setup (taskId : ℕ) (signal : BitVec 8) (ctx : SavedContext)
  | restore (taskId : ℕ) (ctx : SavedContext)

/-- What a call does to the table. -/
def SignalTable.apply (table : SignalTable) : SignalCall → SignalTable
  | .send taskId signal => (table.sendSignal taskId signal).2
  | .dequeue taskId => (table.dequeueSignal taskId).2
  | .setHandler taskId signal handlerAddr => (table.setHandler taskId signal handlerAddr).2
  | .setMask taskId mask => (table.setSignalMask taskId mask).2
  | .setup taskId signal ctx => (table.setupSignalFrame taskId signal ctx).2.1
  | .restore taskId ctx => (table.restoreSignalFrame taskId ctx).2.1

/-- The stack of open frames of the task `t` after a call: for each the context at its setup, with
the innermost first. -/
def frames (t : ℕ) (table : SignalTable) (stack : List SavedContext) :
    SignalCall → List SavedContext
  | .setup taskId signal ctx =>
      if taskId = t ∧ table.canDeliver taskId signal = true then ctx :: stack else stack
  | .restore taskId _ => if taskId = t then stack.tail else stack
  | _ => stack

/-- A condition on the table, the open frames of the task `t` and the call, at every call of a
run. -/
def Along (t : ℕ) (P : SignalTable → List SavedContext → SignalCall → Prop) :
    SignalTable → List SavedContext → List SignalCall → Prop
  | _, _, [] => True
  | table, stack, c :: calls =>
      P table stack c ∧ Along t P (table.apply c) (frames t table stack c) calls

/-- Every return of the task `t` closes an open frame, and no frame is open in the end. -/
def WellBracketed (t : ℕ) : SignalTable → List SavedContext → List SignalCall → Prop
  | _, stack, [] => stack = []
  | table, stack, c :: calls =>
      (∀ ctx, c = .restore t ctx → stack ≠ []) ∧
        WellBracketed t (table.apply c) (frames t table stack c) calls

/-- A return of the task `t` succeeds, with the context as it was at the matching setup. -/
def ReturnsToSetup (t : ℕ) (table : SignalTable) (stack : List SavedContext) (c : SignalCall) :
    Prop :=
  ∀ ctx, c = .restore t ctx →
    (table.restoreSignalFrame t ctx).1 = .ok () ∧
      some (table.restoreSignalFrame t ctx).2.2 = stack.head?

/-- The law: every return of the task `t` leads to where the matching setup was. -/
def Unwinds (t : ℕ) : SignalTable → List SavedContext → List SignalCall → Prop :=
  Along t (ReturnsToSetup t)

/-- No frame of the task `t` is set up while another one is open. -/
def NeverNested (t : ℕ) : SignalTable → List SavedContext → List SignalCall → Prop :=
  Along t fun table stack c =>
    ∀ signal ctx, c = .setup t signal ctx → table.canDeliver t signal = true → stack = []

/-! ### What a call does to the frames of a task -/

section Frames

variable {t : ℕ} {table : SignalTable} {stack : List SavedContext}

/-- What a call does to the context saved for the task `t`. -/
theorem SignalTable.saved_apply (table : SignalTable) (c : SignalCall) :
    (table.apply c).saved t =
      match c with
      | .setup taskId signal ctx =>
          if taskId = t ∧ table.canDeliver taskId signal = true then some ctx else table.saved t
      | .restore taskId _ => if taskId = t then none else table.saved t
      | _ => table.saved t := by
  cases c with
  | send | dequeue | setHandler | setMask => simp [SignalTable.apply]
  | setup taskId signal ctx =>
      simp only [SignalTable.apply, (table.setupSignalFrame_spec taskId signal ctx).2, eq_comm]
  | restore taskId ctx =>
      simp only [SignalTable.apply, (table.restoreSignalFrame_spec taskId ctx).2.2, eq_comm]

/-- The task can return to all its frames: there is at most one, and its context is saved. -/
def Returnable (t : ℕ) (table : SignalTable) (stack : List SavedContext) : Prop :=
  ∀ top rest, stack = top :: rest → rest = [] ∧ table.saved t = some top

/-- There are more open frames of the task than contexts saved. -/
def Indebted (t : ℕ) (table : SignalTable) (stack : List SavedContext) : Prop :=
  (table.saved t).toList.length < stack.length

/-- Once there are more open frames than contexts saved, the frames that are still closed are not
all closed as the law says. -/
theorem Indebted.not_unwinds {calls : List SignalCall} (h : Indebted t table stack)
    (hwb : WellBracketed t table stack calls) : ¬ Unwinds t table stack calls := by
  induction calls generalizing table stack with
  | nil =>
      intro _
      rw [Indebted, show stack = [] from hwb] at h
      exact absurd h (Nat.not_lt_zero _)
  | cons c calls ih =>
      rintro ⟨hlaw, hrest⟩
      refine ih ?_ hwb.2 hrest
      rw [Indebted, SignalTable.saved_apply]
      cases c with
      | send | dequeue | setHandler | setMask => exact h
      | setup taskId signal ctx =>
          dsimp only [frames]
          split
          · rw [Indebted] at h
            simp only [Option.toList_some, List.length_nil, List.length_cons]
            omega
          · exact h
      | restore taskId ctx =>
          dsimp only [frames]
          split
          · rename_i htask
            -- the return succeeds, so a context is saved, and a second frame is open
            have hsome := ((table.restoreSignalFrame_spec t ctx).1).1 (hlaw ctx (htask ▸ rfl)).1
            obtain ⟨saved, hsaved⟩ := Option.isSome_iff_exists.1 hsome
            rw [Indebted, hsaved, Option.toList_some, List.length_singleton] at h
            rw [Option.toList_none, List.length_nil, List.length_tail]
            omega
          · exact h

/-- As long as the task can return to all its frames, it can still do so after a call that nests no
frame, and a return leads to where its setup was. -/
theorem Returnable.step (h : Returnable t table stack) {c : SignalCall}
    (hclose : ∀ ctx, c = .restore t ctx → stack ≠ [])
    (hopen : ∀ signal ctx, c = .setup t signal ctx → table.canDeliver t signal = true →
      stack = []) :
    ReturnsToSetup t table stack c ∧ Returnable t (table.apply c) (frames t table stack c) := by
  rw [Returnable, SignalTable.saved_apply]
  cases c with
  | send | dequeue | setHandler | setMask => exact ⟨nofun, h⟩
  | setup taskId signal ctx =>
      refine ⟨nofun, fun top rest hstack => ?_⟩
      dsimp only [frames] at hstack ⊢
      by_cases hframe : taskId = t ∧ table.canDeliver taskId signal = true
      · obtain ⟨rfl, hdeliver⟩ := hframe
        rw [if_pos ⟨rfl, hdeliver⟩, hopen signal ctx rfl hdeliver] at hstack
        rw [if_pos ⟨rfl, hdeliver⟩]
        cases hstack
        exact ⟨rfl, rfl⟩
      · rw [if_neg hframe] at hstack ⊢
        exact h top rest hstack
  | restore taskId ctx =>
      by_cases htask : taskId = t
      · subst htask
        cases stack with
        | nil => exact absurd rfl (hclose ctx rfl)
        | cons top rest =>
            obtain ⟨rfl, hsaved⟩ := h top rest rfl
            obtain ⟨hok, hctx, -⟩ := table.restoreSignalFrame_spec taskId ctx
            refine ⟨fun ctx' heq => ?_, fun top' rest' hstack => ?_⟩
            · cases heq
              exact ⟨hok.2 (by rw [hsaved]; rfl), by rw [hctx top hsaved]; rfl⟩
            · rw [frames, if_pos rfl] at hstack
              cases hstack
      · refine ⟨fun ctx' heq => ?_, ?_⟩
        · cases heq
          exact absurd rfl htask
        · dsimp only [frames]
          rw [if_neg htask, if_neg htask]
          exact h

/-- A nested frame leaves more open frames than contexts saved. -/
theorem indebted_of_nested {signal : BitVec 8} {ctx : SavedContext}
    (hdeliver : table.canDeliver t signal = true) (hstack : stack ≠ []) :
    Indebted t (table.apply (.setup t signal ctx))
      (frames t table stack (.setup t signal ctx)) := by
  have hpos : 0 < stack.length := List.length_pos_of_ne_nil hstack
  rw [Indebted, SignalTable.saved_apply]
  simp only [frames, hdeliver, and_self, if_true, Option.toList_some, List.length_nil,
    List.length_cons]
  omega

/-- In a run in which every frame is closed, from a state in which the task can return to its
frames, the frames unwind exactly if none is set up while another one is open. -/
theorem unwinds_iff_neverNested {calls : List SignalCall} (h : Returnable t table stack)
    (hwb : WellBracketed t table stack calls) :
    Unwinds t table stack calls ↔ NeverNested t table stack calls := by
  induction calls generalizing table stack with
  | nil => exact Iff.rfl
  | cons c calls ih =>
      obtain ⟨hclose, hwb⟩ := hwb
      by_cases hopen : ∀ signal ctx, c = .setup t signal ctx →
          table.canDeliver t signal = true → stack = []
      · obtain ⟨hreturn, hnext⟩ := h.step hclose hopen
        constructor
        · rintro ⟨-, hrest⟩
          exact ⟨hopen, (ih hnext hwb).1 hrest⟩
        · rintro ⟨-, hrest⟩
          exact ⟨hreturn, (ih hnext hwb).2 hrest⟩
      · refine iff_of_false ?_ fun hnever => hopen hnever.1
        push Not at hopen
        obtain ⟨signal, ctx, rfl, hdeliver, hstack⟩ := hopen
        exact fun hunwinds => (indebted_of_nested hdeliver hstack).not_unwinds hwb hunwinds.2

end Frames

/-- For every task and every table, in every run that closes the frames of the task that it opens,
with any calls between them: every return of the task leads to the context as it was at the
matching setup exactly if no frame is set up while another one is open. -/
theorem signal_frames_unwind_iff (t : ℕ) (table : SignalTable) (calls : List SignalCall)
    (hwb : WellBracketed t table [] calls) :
    Unwinds t table [] calls ↔ NeverNested t table [] calls :=
  unwinds_iff_neverNested (nofun) hwb

/-- Task `1` with a handler for `SIGUSR1`. -/
def oneHandler : SignalTable := (SignalTable.new.setHandler 1 10#8 0x1000#64).2

/-- A context with a given program counter. -/
def contextAt (pc : BitVec 64) : SavedContext := ⟨fun _ => 0#64, 0x8000#64, pc, 0#64⟩

theorem signal_frames_unwind_once :
    Unwinds 1 oneHandler []
      [.setup 1 10#8 (contextAt 0x500#64), .restore 1 (contextAt 0x1004#64)] := by
  refine (signal_frames_unwind_iff 1 oneHandler _ ?_).2 ?_
  · exact ⟨nofun, fun _ _ => List.cons_ne_nil _ _, rfl⟩
  · exact ⟨fun _ _ _ _ => rfl, nofun, trivial⟩

/-- A signal that is delivered while the handler of another one runs.  The outer return finds no
saved context, and the interrupted one is lost. -/
theorem signal_frame_lost :
    let calls : List SignalCall :=
      [.setup 1 10#8 (contextAt 0x500#64), .setup 1 10#8 (contextAt 0x1000#64),
        .restore 1 (contextAt 0x1004#64), .restore 1 (contextAt 0x1004#64)]
    WellBracketed 1 oneHandler [] calls ∧ ¬ Unwinds 1 oneHandler [] calls ∧
      (((((oneHandler.apply (.setup 1 10#8 (contextAt 0x500#64))).apply
        (.setup 1 10#8 (contextAt 0x1000#64))).apply
        (.restore 1 (contextAt 0x1004#64))).restoreSignalFrame 1 (contextAt 0x1004#64)).1 =
        .error "no saved signal frame") := by
  refine ⟨⟨nofun, nofun, fun _ _ => List.cons_ne_nil _ _, fun _ _ => List.cons_ne_nil _ _, rfl⟩,
    fun h => ?_, rfl⟩
  exact absurd (h.2.2.2.1 _ rfl).1 (by decide +kernel)

end StarOS
