/-
Which signals `dequeue_signal` delivers (`signals.rs`).

`dequeue_signal` takes two loads and an exchange, and between them other cores may send signals, set
masks and dequeue.  The exchange succeeds only if the pending signals are the ones that were loaded,
so what is delivered is judged by what is pending at that moment; and when nothing is delivered,
nothing was to be delivered when the pending signals were loaded.

A call that nothing comes between is one step here as well, so that a sequence of calls is a run.

* `StarOS.SignalRun` — the table beside what has been sent since it was last dequeued and the masks
  that were set, with `StarOS.SignalRun.next` for whole calls;
* `StarOS.DequeuePc`, `StarOS.SignalCores`, `StarOS.SignalAccess` — calls of `dequeue_signal` in
  progress, and the accesses they are made of;
* `StarOS.SignalRun.Lowest`, `StarOS.SignalRun.Disciplined`, `StarOS.SignalCores.Disciplined` — the
  laws of a whole call and of an access;
* `StarOS.SignalRun.Tracks` — the pending bits are the signals sent;
* `StarOS.signal_discipline` — the laws hold along every run;
* `StarOS.SignalCores.uninterrupted` — the accesses of a call that nothing comes between.
-/

import StarOS.Runs
import StarOS.Signals

set_option autoImplicit false

namespace StarOS

/-! ### Whole calls -/

/-- The signals of a pending set that may be delivered under a mask. -/
def deliverableBits (pending blocked : BitVec 32) : BitVec 32 :=
  pending &&& (~~~blocked ||| uncatchableMask)

/-- `deliverable.trailing_zeros()`. -/
def lowestSignal (bits : BitVec 32) : ℕ := firstIndex (fun i => bits.getLsbD i) 32

/-- A mask does not block the signal, or it is `SIGKILL` or `SIGSTOP`. -/
def Passes (mask : BitVec 32) (signal : ℕ) : Prop :=
  mask.getLsbD signal = false ∨ signal = 9 ∨ signal = 19

/-- The table, and what its users know: for each task the signals that have been sent since they
were last dequeued, and the mask that was set last. -/
structure SignalRun where
  table : SignalTable
  sent : ℕ → ℕ → Bool
  masks : ℕ → BitVec 32

namespace SignalRun

/-- At boot. -/
def start : SignalRun := ⟨.new, fun _ _ => false, fun _ => 0#32⟩

/-- The state of a task. -/
def state (r : SignalRun) (t : ℕ) : SignalState := r.table.states t

/-- A signal of a task is taken out of its pending set. -/
def take (r : SignalRun) (t s : ℕ) : SignalRun :=
  { r with
    table := r.table.setState t
      { r.state t with pending := (r.state t).pending &&& ~~~(1#32 <<< s) }
    sent := Function.update r.sent t (Function.update (r.sent t) s false) }

/-- A whole call. -/
def next (r : SignalRun) : SignalCall → SignalRun
  | .send t s =>
      match r.table.sendSignal t s with
      | (.ok _, table) =>
          { r with
            table := table
            sent := Function.update r.sent t (Function.update (r.sent t) s.toNat true) }
      | (.error _, table) => { r with table := table }
  | .dequeue t =>
      match r.table.dequeueSignal t with
      | (some s, table) =>
          { r with
            table := table
            sent := Function.update r.sent t (Function.update (r.sent t) s false) }
      | (none, table) => { r with table := table }
  | .setMask t mask =>
      match r.table.setSignalMask t mask with
      | (.ok _, table) => { r with table := table, masks := Function.update r.masks t mask }
      | (.error _, table) => { r with table := table }
  | c => { r with table := r.table.apply c }

/-- A signal has been sent to a task and passes a mask. -/
def Due (r : SignalRun) (t : ℕ) (mask : BitVec 32) (s : ℕ) : Prop :=
  r.sent t s = true ∧ Passes mask s

/-- The lowest signal that has been sent to a task and passes a mask. -/
def Lowest (r : SignalRun) (t : ℕ) (mask : BitVec 32) (s : ℕ) : Prop :=
  r.Due t mask s ∧ ∀ s' < s, ¬ r.Due t mask s'

/-- One signal is removed from the pending set of one task, and nothing else is. -/
def RemovesOnly (r r' : SignalRun) (t s : ℕ) : Prop :=
  ∀ t' i, (r'.state t').pending.getLsbD i =
    ((r.state t').pending.getLsbD i && !decide (t' = t ∧ i = s))

/-- No handler and no mask bit is kept for `SIGKILL` and `SIGSTOP`. -/
def Uncatchable (r : SignalRun) : Prop :=
  ∀ t s, s = 9 ∨ s = 19 →
    (r.state t).handlers s = none ∧ (r.state t).blocked.getLsbD s = false

/-- The law of a whole call. -/
def Disciplined (r : SignalRun) (c : SignalCall) : Prop :=
  (∀ t s, c = .dequeue t → (r.table.dequeueSignal t).1 = some s →
    r.Lowest t (r.masks t) s ∧ r.RemovesOnly (r.next c) t s) ∧
  (∀ t, c = .dequeue t → (r.table.dequeueSignal t).1 = none →
    (∀ s, ¬ r.Due t (r.masks t) s) ∧ (r.next c).table = r.table) ∧
  (r.next c).Uncatchable

end SignalRun

/-! ### Calls in progress -/

/-- Where a call of `dequeue_signal` is, with what it has loaded; beside it what had been sent when
the pending signals were loaded, and the mask that was set when the blocked ones were. -/
inductive DequeuePc where
  | idle
  | start (t : ℕ)
  | loaded (t : ℕ) (pending : BitVec 32) (seen : ℕ → Bool)
  | judged (t : ℕ) (pending blocked mask : BitVec 32)

/-- The run, and the calls of `dequeue_signal` that are in progress. -/
structure SignalCores (ι : Type) where
  run : SignalRun
  pcs : ι → DequeuePc

/-- A whole call, or an access of a call of `dequeue_signal` in progress.  `compare_exchange_weak`
may fail without a reason. -/
inductive SignalAccess (ι : Type) where
  | call (c : SignalCall)
  | enter (i : ι) (t : ℕ)
  | loadPending (i : ι)
  | loadBlocked (i : ι)
  | exchange (i : ι) (spurious : Bool)

namespace SignalCores

variable {ι : Type} [DecidableEq ι]

/-- At boot. -/
def start : SignalCores ι := ⟨.start, fun _ => .idle⟩

/-- What a call of `dequeue_signal` returns with an access, if it returns. -/
def returned (c : SignalCores ι) : SignalAccess ι → Option (Option ℕ)
  | .call _ => none
  | .enter i t =>
      match c.pcs i with
      | .idle => if maxSignalTasks ≤ t then some none else none
      | _ => none
  | .loadPending _ => none
  | .loadBlocked i =>
      match c.pcs i with
      | .loaded t pending _ =>
          if deliverableBits pending (c.run.state t).blocked = 0#32 then some none else none
      | _ => none
  | .exchange i spurious =>
      match c.pcs i with
      | .judged t pending blocked _ =>
          if (c.run.state t).pending = pending ∧ spurious = false then
            some (some (lowestSignal (deliverableBits pending blocked)))
          else none
      | _ => none

/-- What an access does; one that the call is not at does nothing. -/
def next (c : SignalCores ι) : SignalAccess ι → SignalCores ι
  | .call k => { c with run := c.run.next k }
  | .enter i t =>
      match c.pcs i with
      | .idle => if maxSignalTasks ≤ t then c else ⟨c.run, Function.update c.pcs i (.start t)⟩
      | _ => c
  | .loadPending i =>
      match c.pcs i with
      | .start t =>
          ⟨c.run, Function.update c.pcs i (.loaded t (c.run.state t).pending (c.run.sent t))⟩
      | _ => c
  | .loadBlocked i =>
      match c.pcs i with
      | .loaded t pending _ =>
          if deliverableBits pending (c.run.state t).blocked = 0#32 then
            ⟨c.run, Function.update c.pcs i .idle⟩
          else
            ⟨c.run, Function.update c.pcs i
              (.judged t pending (c.run.state t).blocked (c.run.masks t))⟩
      | _ => c
  | .exchange i spurious =>
      match c.pcs i with
      | .judged t pending blocked _ =>
          if (c.run.state t).pending = pending ∧ spurious = false then
            ⟨c.run.take t (lowestSignal (deliverableBits pending blocked)),
              Function.update c.pcs i .idle⟩
          else ⟨c.run, Function.update c.pcs i (.start t)⟩
      | _ => c

/-- The law of an access.  A signal that is delivered is the lowest one that has been sent and
passes the mask, and nothing else is removed.  When no signal is delivered, none that had been sent
by the time the pending signals were loaded passes the mask. -/
def Disciplined (c : SignalCores ι) : SignalAccess ι → Prop
  | .call k => c.run.Disciplined k
  | .enter i t =>
      c.returned (.enter i t) = some none → ∀ s, c.run.sent t s = false
  | .loadPending _ => True
  | .loadBlocked i =>
      c.returned (.loadBlocked i) = some none →
        ∃ t pending seen, c.pcs i = .loaded t pending seen ∧
          ∀ s, ¬ (seen s = true ∧ Passes (c.run.masks t) s)
  | .exchange i spurious =>
      ∀ s, c.returned (.exchange i spurious) = some (some s) →
        ∃ t pending blocked mask, c.pcs i = .judged t pending blocked mask ∧
          c.run.Lowest t mask s ∧ c.run.RemovesOnly (c.next (.exchange i spurious)).run t s

end SignalCores

/-! ### Bits -/

theorem getLsbD_oneSignal {s : ℕ} (hs : s < 32) (j : ℕ) :
    (1#32 <<< s).getLsbD j = decide (j = s) := by
  rw [← BitVec.twoPow_eq, BitVec.getLsbD_twoPow, decide_eq_true hs, Bool.true_and]
  exact decide_eq_decide.2 eq_comm

theorem getLsbD_setSignal (w : BitVec 32) {s : ℕ} (hs : s < 32) (j : ℕ) :
    (w ||| (1#32 <<< s)).getLsbD j = (w.getLsbD j || decide (j = s)) := by
  rw [BitVec.getLsbD_or, getLsbD_oneSignal hs]

theorem getLsbD_clearSignal (w : BitVec 32) {s : ℕ} (hs : s < 32) (j : ℕ) :
    (w &&& ~~~(1#32 <<< s)).getLsbD j = (w.getLsbD j && !decide (j = s)) := by
  rw [BitVec.getLsbD_and, BitVec.getLsbD_not, getLsbD_oneSignal hs]
  by_cases hj : j < 32
  · rw [decide_eq_true hj, Bool.true_and]
  · rw [BitVec.getLsbD_of_ge w j (not_lt.1 hj), Bool.false_and, Bool.false_and]

theorem getLsbD_uncatchableMask (s : ℕ) :
    uncatchableMask.getLsbD s = decide (s = 9 ∨ s = 19) := by
  rw [uncatchableMask, getLsbD_setSignal _ (by decide), getLsbD_oneSignal (by decide),
    ← Bool.decide_or]

/-- What is deliverable under the bits that `set_signal_mask` keeps of a mask. -/
theorem getLsbD_deliverableBits (pending mask : BitVec 32) (s : ℕ) :
    (deliverableBits pending (mask &&& ~~~uncatchableMask)).getLsbD s = true ↔
      pending.getLsbD s = true ∧ Passes mask s := by
  by_cases hs : s < 32
  · rw [deliverableBits, BitVec.getLsbD_and, BitVec.getLsbD_or, BitVec.getLsbD_not,
      BitVec.getLsbD_and, BitVec.getLsbD_not, getLsbD_uncatchableMask, Bool.and_eq_true, Passes]
    refine and_congr_right fun _ => ?_
    cases mask.getLsbD s <;> by_cases hu : s = 9 ∨ s = 19 <;> simp [hs, hu]
  · rw [BitVec.getLsbD_of_ge _ _ (not_lt.1 hs), BitVec.getLsbD_of_ge pending _ (not_lt.1 hs)]
    exact iff_of_false Bool.false_ne_true fun h => Bool.false_ne_true h.1

/-- A set of signals that is not empty has a lowest one. -/
theorem lowestSignal_spec {bits : BitVec 32} (h : bits ≠ 0#32) :
    lowestSignal bits < 32 ∧ bits.getLsbD (lowestSignal bits) = true ∧
      ∀ s < lowestSignal bits, bits.getLsbD s = false := by
  have hlt : lowestSignal bits < 32 := by
    by_contra hge
    refine h (BitVec.eq_of_getLsbD_eq fun s hs => ?_)
    rw [firstIndex_min (p := fun i => bits.getLsbD i) (lt_of_lt_of_le hs (not_lt.1 hge)),
      BitVec.getLsbD_zero]
  exact ⟨hlt, firstIndex_spec (p := fun i => bits.getLsbD i) hlt,
    fun s hs => firstIndex_min (p := fun i => bits.getLsbD i) hs⟩

namespace SignalRun

variable {r : SignalRun} {t s : ℕ}

/-! ### The invariant -/

/-- The pending bits are the signals that have been sent since they were last dequeued, the blocked
bits are those of the mask that may be blocked, and only tasks that exist are sent signals. -/
structure Tracks (r : SignalRun) : Prop where
  pending : ∀ t s, (r.state t).pending.getLsbD s = r.sent t s
  blocked : ∀ t, (r.state t).blocked = r.masks t &&& ~~~uncatchableMask
  handlers : ∀ t s, s = 9 ∨ s = 19 → (r.state t).handlers s = none
  absent : ∀ t, maxSignalTasks ≤ t → ∀ s, r.sent t s = false

theorem Tracks.uncatchable (h : r.Tracks) : r.Uncatchable := by
  intro t s hs
  refine ⟨h.handlers t s hs, ?_⟩
  rw [h.blocked, BitVec.getLsbD_and, BitVec.getLsbD_not, getLsbD_uncatchableMask, decide_eq_true hs,
    Bool.not_true, Bool.and_false, Bool.and_false]

theorem tracks_start : start.Tracks where
  pending := fun _ _ => BitVec.getLsbD_zero
  blocked := fun _ => BitVec.zero_and.symm
  handlers := fun _ _ _ => rfl
  absent := fun _ _ _ => rfl

/-- Nothing is due when no deliverable bit is set. -/
theorem none_due {pending mask : BitVec 32}
    (hzero : deliverableBits pending (mask &&& ~~~uncatchableMask) = 0#32) (s : ℕ) :
    ¬ (pending.getLsbD s = true ∧ Passes mask s) := by
  rw [← getLsbD_deliverableBits, hzero, BitVec.getLsbD_zero]
  exact Bool.false_ne_true

/-- The lowest deliverable bit is the lowest signal due. -/
theorem Tracks.lowest (h : r.Tracks) (mask : BitVec 32)
    (hne : deliverableBits (r.state t).pending (mask &&& ~~~uncatchableMask) ≠ 0#32) :
    r.Lowest t mask
      (lowestSignal (deliverableBits (r.state t).pending (mask &&& ~~~uncatchableMask))) := by
  obtain ⟨-, hset, hmin⟩ := lowestSignal_spec hne
  have hdue : ∀ s, (deliverableBits (r.state t).pending
      (mask &&& ~~~uncatchableMask)).getLsbD s = true ↔ r.Due t mask s := fun s => by
    rw [getLsbD_deliverableBits, h.pending]
    rfl
  refine ⟨(hdue _).1 hset, fun s hs hd => ?_⟩
  have hbit := (hdue s).2 hd
  rw [hmin s hs] at hbit
  cases hbit

/-- Replacing the state of a task by one with another pending set or another mask, together with
what is known of it. -/
theorem Tracks.replace (h : r.Tracks) (t : ℕ) (state : SignalState) (sent : ℕ → Bool)
    (mask : BitVec 32)
    (hpending : ∀ s, state.pending.getLsbD s = sent s)
    (hblocked : state.blocked = mask &&& ~~~uncatchableMask)
    (hhandlers : ∀ s, s = 9 ∨ s = 19 → state.handlers s = none)
    (habsent : maxSignalTasks ≤ t → ∀ s, sent s = false) :
    Tracks ⟨r.table.setState t state, Function.update r.sent t sent,
      Function.update r.masks t mask⟩ := by
  refine ⟨fun t' s => ?_, fun t' => ?_, fun t' s hs => ?_, fun t' ht' s => ?_⟩ <;>
    by_cases htt : t' = t
  · subst htt
    simp only [SignalRun.state, SignalTable.setState, Function.update_self, hpending]
  · simp only [SignalRun.state, SignalTable.setState, Function.update_of_ne htt]
    exact h.pending t' s
  · subst htt
    simp only [SignalRun.state, SignalTable.setState, Function.update_self, hblocked]
  · simp only [SignalRun.state, SignalTable.setState, Function.update_of_ne htt]
    exact h.blocked t'
  · subst htt
    simp only [SignalRun.state, SignalTable.setState, Function.update_self, hhandlers s hs]
  · simp only [SignalRun.state, SignalTable.setState, Function.update_of_ne htt]
    exact h.handlers t' s hs
  · subst htt
    simp only [Function.update_self, habsent ht' s]
  · simp only [Function.update_of_ne htt]
    exact h.absent t' ht' s

/-- Taking a signal removes it from the pending set of its task, and nothing else. -/
theorem removesOnly_take (hs : s < 32) : r.RemovesOnly (r.take t s) t s := by
  intro t' i
  by_cases htt : t' = t
  · subst htt
    simp only [SignalRun.state, take, SignalTable.setState, Function.update_self]
    rw [getLsbD_clearSignal _ hs]
    simp
  · simp only [SignalRun.state, take, SignalTable.setState, Function.update_of_ne htt, htt]
    simp

theorem Tracks.take (h : r.Tracks) (hs : s < 32) : (r.take t s).Tracks := by
  have hrun := h.replace t
    { r.state t with pending := (r.state t).pending &&& ~~~(1#32 <<< s) }
    (Function.update (r.sent t) s false) (r.masks t) (fun i => ?_)
    (h.blocked t) (h.handlers t) fun ht i => ?_
  · rwa [Function.update_eq_self] at hrun
  · dsimp only
    rw [getLsbD_clearSignal _ hs, h.pending]
    by_cases hi : i = s
    · subst hi
      simp
    · simp [hi]
  · by_cases hi : i = s
    · subst hi
      rw [Function.update_self]
    · rw [Function.update_of_ne hi, h.absent t ht]

/-! ### Whole calls keep the law -/

theorem getState_eq_some {table : SignalTable} {state : SignalState}
    (h : table.getState t = some state) : t < maxSignalTasks ∧ state = table.states t := by
  rw [SignalTable.getState] at h
  split at h
  · cases h
  · rename_i hlt
    cases h
    exact ⟨not_le.1 hlt, rfl⟩

theorem getState_eq_none {table : SignalTable} (h : table.getState t = none) :
    maxSignalTasks ≤ t := by
  rw [SignalTable.getState] at h
  split at h
  · assumption
  · cases h

/-- `dequeue_signal` takes the lowest deliverable signal, or finds none. -/
theorem dequeue_cases (r : SignalRun) (t : ℕ) :
    (r.table.dequeueSignal t = (none, r.table) ∧ r.next (.dequeue t) = r ∧
      (maxSignalTasks ≤ t ∨
        deliverableBits (r.state t).pending (r.state t).blocked = 0#32)) ∨
    ∃ s, s = lowestSignal (deliverableBits (r.state t).pending (r.state t).blocked) ∧
      deliverableBits (r.state t).pending (r.state t).blocked ≠ 0#32 ∧
      (r.table.dequeueSignal t).1 = some s ∧ r.next (.dequeue t) = r.take t s := by
  rw [next]
  cases hstate : r.table.getState t with
  | none =>
      have hcall : r.table.dequeueSignal t = (none, r.table) := by
        rw [SignalTable.dequeueSignal, hstate]
      rw [hcall]
      exact Or.inl ⟨rfl, rfl, Or.inl (getState_eq_none hstate)⟩
  | some state =>
      obtain ⟨-, rfl⟩ := getState_eq_some hstate
      by_cases hzero : deliverableBits (r.state t).pending (r.state t).blocked = 0#32
      · have hcall : r.table.dequeueSignal t = (none, r.table) := by
          rw [SignalTable.dequeueSignal, hstate]
          exact if_pos hzero
        rw [hcall]
        exact Or.inl ⟨rfl, rfl, Or.inr hzero⟩
      · generalize hs : lowestSignal (deliverableBits (r.state t).pending (r.state t).blocked) = s
        have hcall : r.table.dequeueSignal t = (some s, (r.take t s).table) := by
          rw [SignalTable.dequeueSignal, hstate, ← hs]
          exact if_neg hzero
        rw [hcall]
        exact Or.inr ⟨s, rfl, hzero, rfl, rfl⟩

/-- A call that changes only the saved context of a task. -/
theorem Tracks.saved (h : r.Tracks) (ctx : Option SavedContext) :
    Tracks { r with table := r.table.setState t { r.state t with savedCtx := ctx } } := by
  have hrun := h.replace t { r.state t with savedCtx := ctx } (r.sent t) (r.masks t)
    (h.pending t) (h.blocked t) (h.handlers t) (h.absent t)
  rwa [Function.update_eq_self, Function.update_eq_self] at hrun

theorem Tracks.send (h : r.Tracks) (t : ℕ) (signal : BitVec 8) :
    (r.next (.send t signal)).Tracks := by
  rw [SignalRun.next, SignalTable.sendSignal]
  cases hvalid : SignalTable.validSignal signal with
  | false => exact h
  | true =>
      cases hstate : r.table.getState t with
      | none => exact h
      | some state =>
          obtain ⟨ht, rfl⟩ := getState_eq_some hstate
          have hs : signal.toNat < 32 := by
            rw [SignalTable.validSignal, Bool.and_eq_true, decide_eq_true_eq] at hvalid
            omega
          have hrun := h.replace t
            { r.state t with
              pending := (r.state t).pending ||| (1#32 <<< signal.toNat) }
            (Function.update (r.sent t) signal.toNat true) (r.masks t)
            (fun i => ?_) (h.blocked t) (h.handlers t) fun hge => absurd ht (not_lt.2 hge)
          · rwa [Function.update_eq_self] at hrun
          · dsimp only
            rw [getLsbD_setSignal _ hs, h.pending]
            by_cases hi : i = signal.toNat
            · subst hi
              simp
            · simp [hi]

theorem Tracks.setMask (h : r.Tracks) (t : ℕ) (mask : BitVec 32) :
    (r.next (.setMask t mask)).Tracks := by
  rw [SignalRun.next, SignalTable.setSignalMask]
  cases hstate : r.table.getState t with
  | none => exact h
  | some state =>
      obtain ⟨-, rfl⟩ := getState_eq_some hstate
      have hrun := h.replace t
        { r.state t with blocked := mask &&& ~~~uncatchableMask }
        (r.sent t) mask (h.pending t) rfl (h.handlers t) (h.absent t)
      rwa [Function.update_eq_self] at hrun

theorem Tracks.setHandler (h : r.Tracks) (t : ℕ) (signal : BitVec 8) (addr : BitVec 64) :
    (r.next (.setHandler t signal addr)).Tracks := by
  change Tracks { r with table := (r.table.setHandler t signal addr).2 }
  rw [SignalTable.setHandler]
  cases hvalid : SignalTable.validSignal signal with
  | false => exact h
  | true =>
      rw [if_pos rfl]
      split
      · exact h
      rename_i hcatch
      cases hstate : r.table.getState t with
      | none => exact h
      | some state =>
          obtain ⟨-, rfl⟩ := getState_eq_some hstate
          have hrun := h.replace t
            { r.state t with
              handlers := Function.update (r.state t).handlers signal.toNat addr }
            (r.sent t) (r.masks t) (h.pending t) (h.blocked t) (fun s hs => ?_)
            (h.absent t)
          · rwa [Function.update_eq_self, Function.update_eq_self] at hrun
          · have hne : s ≠ signal.toNat := by
              rintro rfl
              rcases hs with hs | hs <;> exact hcatch (by rw [hs]; decide)
            exact (Function.update_of_ne hne _ _).trans (h.handlers t s hs)

/-- A whole call keeps the invariant. -/
theorem Tracks.next (h : r.Tracks) (c : SignalCall) : (r.next c).Tracks := by
  cases c with
  | send t signal => exact h.send t signal
  | dequeue t =>
      rcases dequeue_cases r t with ⟨-, heq, -⟩ | ⟨s, rfl, hne, -, heq⟩
      · rwa [heq]
      · rw [heq]
        exact h.take (lowestSignal_spec hne).1
  | setHandler t signal addr => exact h.setHandler t signal addr
  | setMask t mask => exact h.setMask t mask
  | setup t signal ctx =>
      change Tracks { r with table := (r.table.setupSignalFrame t signal ctx).2.1 }
      rw [SignalTable.setupSignalFrame]
      split
      · split
        · exact h
        · rename_i hstate
          obtain ⟨-, rfl⟩ := getState_eq_some hstate
          split
          · exact h
          · exact h.saved _
      · exact h
  | restore t ctx =>
      change Tracks { r with table := (r.table.restoreSignalFrame t ctx).2.1 }
      rw [SignalTable.restoreSignalFrame]
      split
      · exact h
      · rename_i hstate
        obtain ⟨-, rfl⟩ := getState_eq_some hstate
        split
        · exact h
        · exact h.saved _

/-- A whole call obeys its law. -/
theorem Tracks.disciplined (h : r.Tracks) (c : SignalCall) : r.Disciplined c := by
  refine ⟨?_, ?_, (h.next c).uncatchable⟩
  · rintro t s rfl hres
    rcases dequeue_cases r t with ⟨heq, -, -⟩ | ⟨s', rfl, hne, hres', heq⟩
    · rw [heq] at hres
      cases hres
    · rw [hres'] at hres
      cases hres
      rw [heq]
      refine ⟨?_, removesOnly_take (lowestSignal_spec hne).1⟩
      rw [h.blocked] at hne ⊢
      exact h.lowest _ hne
  · rintro t rfl hres
    rcases dequeue_cases r t with ⟨-, heq, hnone⟩ | ⟨s', -, -, hres', -⟩
    · rw [heq]
      refine ⟨fun s hdue => ?_, rfl⟩
      rcases hnone with ht | hzero
      · have hsent := hdue.1
        rw [h.absent t ht] at hsent
        cases hsent
      · rw [h.blocked] at hzero
        refine none_due hzero s ?_
        rw [h.pending]
        exact hdue
    · rw [hres'] at hres
      cases hres

end SignalRun

namespace SignalCores

variable {ι : Type}

/-! ### Accesses keep the law -/

/-- What a call in progress has loaded. -/
def Loads : DequeuePc → Prop
  | .idle => True
  | .start t => t < maxSignalTasks
  | .loaded t pending seen => t < maxSignalTasks ∧ ∀ s, pending.getLsbD s = seen s
  | .judged t pending blocked mask => t < maxSignalTasks ∧
      blocked = mask &&& ~~~uncatchableMask ∧ deliverableBits pending blocked ≠ 0#32

/-- The invariant: the pending bits are the signals sent, and the calls in progress have loaded what
they say. -/
structure Inv (c : SignalCores ι) : Prop where
  tracks : c.run.Tracks
  loads : ∀ i, Loads (c.pcs i)

theorem inv_start : (start : SignalCores ι).Inv := ⟨SignalRun.tracks_start, fun _ => trivial⟩

variable [DecidableEq ι] {c : SignalCores ι}

/-- A call in progress moves on. -/
theorem Inv.move (h : c.Inv) {run : SignalRun} (hrun : run.Tracks) {i : ι} {pc : DequeuePc}
    (hpc : Loads pc) : Inv ⟨run, Function.update c.pcs i pc⟩ := by
  refine ⟨hrun, fun j => ?_⟩
  dsimp only
  by_cases hj : j = i
  · subst hj
    rwa [Function.update_self]
  · rw [Function.update_of_ne hj]
    exact h.loads j

/-- An access keeps the invariant. -/
theorem Inv.next (h : c.Inv) (a : SignalAccess ι) : (c.next a).Inv := by
  cases a with
  | call k => exact ⟨h.tracks.next k, h.loads⟩
  | enter i t =>
      rw [SignalCores.next]
      split
      · split
        · exact h
        · rename_i hlt
          exact h.move h.tracks (not_le.1 hlt)
      · exact h
  | loadPending i =>
      have hi := h.loads i
      rw [SignalCores.next]
      split
      · rename_i t hpc
        rw [hpc] at hi
        exact h.move h.tracks ⟨hi, h.tracks.pending t⟩
      · exact h
  | loadBlocked i =>
      have hi := h.loads i
      rw [SignalCores.next]
      split
      · rename_i t pending seen hpc
        rw [hpc] at hi
        split
        · exact h.move h.tracks trivial
        · rename_i hne
          exact h.move h.tracks ⟨hi.1, h.tracks.blocked t, hne⟩
      · exact h
  | exchange i spurious =>
      have hi := h.loads i
      rw [SignalCores.next]
      split
      · rename_i t pending blocked mask hpc
        rw [hpc] at hi
        split
        · exact h.move (h.tracks.take (lowestSignal_spec hi.2.2).1) trivial
        · exact h.move h.tracks hi.1
      · exact h

/-- An access obeys its law. -/
theorem Inv.disciplined (h : c.Inv) (a : SignalAccess ι) : c.Disciplined a := by
  cases a with
  | call k => exact h.tracks.disciplined k
  | enter i t =>
      intro hret
      rw [returned] at hret
      split at hret
      · split at hret
        · rename_i hge
          exact h.tracks.absent t hge
        · cases hret
      · cases hret
  | loadPending i => trivial
  | loadBlocked i =>
      intro hret
      have hi := h.loads i
      rw [returned] at hret
      split at hret
      · rename_i t pending seen hpc
        rw [hpc] at hi
        refine ⟨t, pending, seen, hpc, fun s hs => ?_⟩
        split at hret
        · rename_i hzero
          rw [h.tracks.blocked] at hzero
          refine SignalRun.none_due hzero s ?_
          rwa [hi.2 s]
        · cases hret
      · cases hret
  | exchange i spurious =>
      intro s hret
      have hi := h.loads i
      rw [returned] at hret
      split at hret
      · rename_i t pending blocked mask hpc
        rw [hpc] at hi
        obtain ⟨-, rfl, hne⟩ := hi
        split at hret
        · rename_i hok
          cases hret
          refine ⟨t, pending, _, mask, hpc, ?_, ?_⟩
          · -- what is pending now is what was loaded
            have hlowest := h.tracks.lowest (t := t) mask
            rw [hok.1] at hlowest
            exact hlowest hne
          · rw [SignalCores.next, hpc]
            dsimp only
            rw [if_pos hok]
            exact SignalRun.removesOnly_take (lowestSignal_spec hne).1
        · cases hret
      · cases hret

section InProgress

variable {i : ι} {t : ℕ} {pending blocked mask : BitVec 32} {seen : ℕ → Bool}

theorem next_loadPending (hpc : c.pcs i = .start t) : c.next (.loadPending i) =
    ⟨c.run, Function.update c.pcs i (.loaded t (c.run.state t).pending (c.run.sent t))⟩ := by
  rw [SignalCores.next, hpc]

theorem next_loadBlocked_none (hpc : c.pcs i = .loaded t pending seen)
    (hzero : deliverableBits pending (c.run.state t).blocked = 0#32) :
    c.returned (.loadBlocked i) = some none ∧ (c.next (.loadBlocked i)).run = c.run := by
  rw [returned, SignalCores.next, hpc]
  dsimp only
  rw [if_pos hzero, if_pos hzero]
  exact ⟨rfl, rfl⟩

theorem next_loadBlocked (hpc : c.pcs i = .loaded t pending seen)
    (hne : deliverableBits pending (c.run.state t).blocked ≠ 0#32) :
    c.next (.loadBlocked i) = ⟨c.run, Function.update c.pcs i
      (.judged t pending (c.run.state t).blocked (c.run.masks t))⟩ := by
  rw [SignalCores.next, hpc]
  exact if_neg hne

theorem next_exchange (hpc : c.pcs i = .judged t pending blocked mask)
    (hsame : (c.run.state t).pending = pending) :
    c.returned (.exchange i false) =
        some (some (lowestSignal (deliverableBits pending blocked))) ∧
      (c.next (.exchange i false)).run =
        c.run.take t (lowestSignal (deliverableBits pending blocked)) := by
  rw [returned, SignalCores.next, hpc]
  dsimp only
  rw [if_pos ⟨hsame, rfl⟩, if_pos ⟨hsame, rfl⟩]
  exact ⟨rfl, rfl⟩

/-- The accesses of a call that nothing comes between do what the whole call does. -/
theorem uninterrupted (hpc : c.pcs i = .start t) (ht : t < maxSignalTasks) :
    (((c.next (.loadPending i)).returned (.loadBlocked i) = some none ∧
        ((c.next (.loadPending i)).next (.loadBlocked i)).run = c.run.next (.dequeue t) ∧
        (c.run.table.dequeueSignal t).1 = none)) ∨
      ∃ s, ((c.next (.loadPending i)).next (.loadBlocked i)).returned (.exchange i false) =
          some (some s) ∧
        (((c.next (.loadPending i)).next (.loadBlocked i)).next (.exchange i false)).run =
          c.run.next (.dequeue t) ∧
        (c.run.table.dequeueSignal t).1 = some s := by
  rw [next_loadPending hpc]
  generalize hloaded : (⟨c.run, Function.update c.pcs i
    (.loaded t (c.run.state t).pending (c.run.sent t))⟩ : SignalCores ι) = c₁
  have hrun₁ : c₁.run = c.run := by rw [← hloaded]
  have hpc₁ : c₁.pcs i = .loaded t (c.run.state t).pending (c.run.sent t) := by
    rw [← hloaded]
    exact Function.update_self ..
  rcases SignalRun.dequeue_cases c.run t with ⟨hcall, heq, hnone⟩ | ⟨s, rfl, hne, hres, heq⟩
  · have hzero := hnone.resolve_left (not_le.2 ht)
    rw [← hrun₁] at hzero
    rw [← hrun₁] at hpc₁
    obtain ⟨hret, hsame⟩ := next_loadBlocked_none hpc₁ hzero
    exact Or.inl ⟨hret, by rw [hsame, hrun₁, heq], by rw [hcall]⟩
  · rw [← hrun₁] at hne hpc₁
    rw [next_loadBlocked hpc₁ hne]
    obtain ⟨hret, hsame⟩ := next_exchange (c := ⟨c₁.run, Function.update c₁.pcs i
      (.judged t (c₁.run.state t).pending (c₁.run.state t).blocked (c₁.run.masks t))⟩)
      (Function.update_self ..) rfl
    rw [hrun₁] at hret hsame
    refine Or.inr ⟨_, ?_, ?_, hres⟩
    · rw [hrun₁]
      exact hret
    · rw [hrun₁, heq]
      exact hsame

end InProgress

end SignalCores

/-- In every run of whole calls and of accesses of calls of `dequeue_signal` in progress, on any
tasks and in any order, every call obeys its law, and no handler and no mask bit is ever kept for
`SIGKILL` or `SIGSTOP`. -/
theorem signal_discipline {ι : Type} [DecidableEq ι] (accesses : List (SignalAccess ι)) :
    Runs.Along SignalCores.next
      (fun c a => c.Disciplined a ∧ (c.next a).run.Uncatchable) .start accesses :=
  Runs.along_of (I := SignalCores.Inv) (C := fun _ _ => True)
    (fun _ a h _ => ⟨h.next a, h.disciplined a, (h.next a).tracks.uncatchable⟩)
    SignalCores.inv_start (Runs.along_true _ _ _)

end StarOS
