/-
The queue of input events (`input/event.rs`): a ring of 64 slots between one producer and one
consumer.

The producer writes the slot at `tail` and the consumer reads the slot at `head`.  If the ring is
full the producer makes room by moving `head` itself, so that both write it: a `pop` that is
suspended while the producer drops the event it has read gives back that event all the same, and an
index that both have loaded is moved once for two events.  Every access is one step, and the steps
of the two interleave in any order.

* `StarOS.InputEvent`, `StarOS.EventQueue`, `StarOS.PushPc`, `StarOS.PopPc` — the code: the queue,
  and where the two calls stand;
* `StarOS.EventState.next`, `StarOS.eventQueueSystem` — the steps, and the runs from a new queue;
* `StarOS.EventState.Undisturbed` — no store of `head` overwrites a change made since it was loaded;
* `StarOS.EventState.Inv` — the invariant, on counters that are not masked;
* `StarOS.eventQueue_order` — in undisturbed runs no event is invented, repeated or reordered, and
  the queue holds the last events.
-/

import StarOS.Ring
import StarOS.Runs
import StarOS.Word
import Mathlib.Data.List.ReduceOption

set_option autoImplicit false

namespace StarOS

/-! ### Events and the queue -/

/-- `InputEvent`. -/
inductive InputEvent where
  | mouseMove (dx dy : BitVec 16)
  | mouseButton (buttons : BitVec 8) (pressed : Bool) (x y : BitVec 32)
  | mouseWheel (delta : BitVec 8) (x y : BitVec 32)
  | keyDown (scancode : BitVec 16)
  | keyUp (scancode : BitVec 16)
  | touch (id : BitVec 8) (x y : BitVec 32) (pressed : Bool)
  deriving DecidableEq, Repr

/-- `QUEUE_CAPACITY`. -/
def queueCapacity : ℕ := 64

/-- `MASK`. -/
def queueMask : Usize := 63#64

/-- The index behind an index. -/
def nextIndex (i : Usize) : Usize := (i + 1#64) &&& queueMask

/-- `EventQueue`. -/
structure EventQueue where
  buf : ℕ → InputEvent
  head : Usize
  tail : Usize
  droppedCount : Usize

/-- `EventQueue::new`. -/
def EventQueue.new : EventQueue := ⟨fun _ => .mouseMove 0#16 0#16, 0#64, 0#64, 0#64⟩

/-- The events between `head` and `tail`, oldest first. -/
def EventQueue.contents (q : EventQueue) : List InputEvent :=
  (List.range ((q.tail - q.head) &&& queueMask).toNat).map fun k =>
    q.buf ((q.head.toNat + k) % queueCapacity)

/-- Where a `push` stands: the access it is about to make. -/
inductive PushPc where
  /-- No call. -/
  | idle
  /-- Before the load of `tail`. -/
  | loadTail (event : InputEvent)
  /-- Before the load of `head` that is compared with the next `tail`. -/
  | loadHead (event : InputEvent) (tail : Usize)
  /-- The queue was full; before the load of the `head` to be moved. -/
  | loadOldest (event : InputEvent) (tail : Usize)
  /-- Before the store of the moved `head`. -/
  | storeHead (event : InputEvent) (tail head : Usize)
  /-- Before the increment of `dropped_count`. -/
  | countDrop (event : InputEvent) (tail : Usize)
  /-- Before the write of the slot. -/
  | writeSlot (event : InputEvent) (tail : Usize) (dropped : Bool)
  /-- Before the store of the next `tail`. -/
  | storeTail (tail : Usize) (dropped : Bool)
  deriving DecidableEq, Repr

/-- Where a `pop` stands: the access it is about to make. -/
inductive PopPc where
  /-- No call. -/
  | idle
  /-- Before the load of `head`. -/
  | loadHead
  /-- Before the load of `tail` that is compared with `head`. -/
  | loadTail (head : Usize)
  /-- Before the read of the slot. -/
  | readSlot (head : Usize)
  /-- Before the store of the next `head`. -/
  | storeHead (head : Usize) (event : InputEvent)
  deriving DecidableEq, Repr

/-- What the two can do next: the producer starts a `push` or makes its next access, the consumer
starts a `pop` or makes its next access. -/
inductive EventAct where
  | push (event : InputEvent)
  | producer
  | pop
  | consumer
  deriving DecidableEq, Repr

/-- The queue and its two users, with the events written so far and the values that the calls have
returned. -/
structure EventState where
  queue : EventQueue
  push : PushPc
  pop : PopPc
  pushed : List InputEvent
  kept : List Bool
  pops : List (Option InputEvent)

namespace EventState

/-- A new queue, and no call on it. -/
def start : EventState := ⟨.new, .idle, .idle, [], [], []⟩

/-- The next access of `push`.  A slot out of range is a panic. -/
def producer (s : EventState) : Option EventState :=
  match s.push with
  | .idle => none
  | .loadTail event => some { s with push := .loadHead event s.queue.tail }
  | .loadHead event tail =>
      if nextIndex tail = s.queue.head then some { s with push := .loadOldest event tail }
      else some { s with push := .writeSlot event tail false }
  | .loadOldest event tail => some { s with push := .storeHead event tail s.queue.head }
  | .storeHead event tail head =>
      some { s with
        queue := { s.queue with head := nextIndex head }, push := .countDrop event tail }
  | .countDrop event tail =>
      some { s with
        queue := { s.queue with droppedCount := s.queue.droppedCount + 1#64 }
        push := .writeSlot event tail true }
  | .writeSlot event tail dropped =>
      if tail.toNat < queueCapacity then
        some { s with
          queue := { s.queue with buf := Function.update s.queue.buf tail.toNat event }
          push := .storeTail tail dropped
          pushed := s.pushed ++ [event] }
      else none
  | .storeTail tail dropped =>
      some { s with
        queue := { s.queue with tail := nextIndex tail }
        push := .idle
        kept := s.kept ++ [!dropped] }

/-- The next access of `pop`. -/
def consumer (s : EventState) : Option EventState :=
  match s.pop with
  | .idle => none
  | .loadHead => some { s with pop := .loadTail s.queue.head }
  | .loadTail head =>
      if head = s.queue.tail then some { s with pop := .idle, pops := s.pops ++ [none] }
      else some { s with pop := .readSlot head }
  | .readSlot head =>
      if head.toNat < queueCapacity then
        some { s with pop := .storeHead head (s.queue.buf head.toNat) }
      else none
  | .storeHead head event =>
      some { s with
        queue := { s.queue with head := nextIndex head }
        pop := .idle
        pops := s.pops ++ [some event] }

/-- One step. -/
def next (s : EventState) : EventAct → Option EventState
  | .push event => if s.push = .idle then some { s with push := .loadTail event } else none
  | .producer => s.producer
  | .pop => if s.pop = .idle then some { s with pop := .loadHead } else none
  | .consumer => s.consumer

/-- The events that were popped. -/
def popped (s : EventState) : List InputEvent := s.pops.reduceOption

/-- No call is in progress. -/
def Idle (s : EventState) : Prop := s.push = .idle ∧ s.pop = .idle

/-- The queue holds the last `k` pushed events, where `k` is the number of pushes minus the number
of successful pops and of dropped events. -/
def HoldsLast (s : EventState) : Prop :=
  ∃ k, s.pushed.length = k + s.popped.length + s.queue.droppedCount.toNat ∧
    s.queue.contents = s.pushed.drop (s.pushed.length - k)

/-- What is claimed of a state. -/
def Ordered (s : EventState) : Prop :=
  s.popped.Sublist s.pushed ∧ (s.Idle → s.HoldsLast)

end EventState

/-- The interleavings of one producer and one consumer on a new queue. -/
def eventQueueSystem : Runs.System EventState EventAct where
  init := fun s => s = .start
  step := fun s a s' => s.next a = some s'

/-! ### Undisturbed steps -/

/-- The push has dropped an event, and has not stored `tail` yet. -/
def PushPc.dropping : PushPc → Bool
  | countDrop .. => true
  | writeSlot _ _ dropped => dropped
  | storeTail _ dropped => dropped
  | _ => false

namespace EventState

/-- A store of `head` finds the index that was loaded before it, `dropped_count` does not wrap, and
no `pop` looks at `tail` while `head` has been moved beyond it. -/
def Undisturbed (s : EventState) : EventAct → Prop
  | .push _ => True
  | .pop => True
  | .producer =>
      match s.push with
      | .storeHead _ _ head => s.queue.head = head
      | .countDrop .. => s.queue.droppedCount.toNat + 1 < 2 ^ 64
      | _ => True
  | .consumer =>
      match s.pop with
      | .loadTail head =>
          ¬ (s.push.dropping = true ∧ s.queue.head = nextIndex s.queue.tail ∧
            head = s.queue.head)
      | .storeHead head _ => s.queue.head = head
      | _ => True

end EventState

/-! ### Masked indices -/

theorem toNat_and_queueMask (w : Usize) : (w &&& queueMask).toNat = w.toNat % 64 := by
  rw [BitVec.toNat_and]
  exact Nat.and_two_pow_sub_one_eq_mod w.toNat 6

theorem toNat_nextIndex {i : Usize} {n : ℕ} (h : i.toNat = n % 64) :
    (nextIndex i).toNat = (n + 1) % 64 := by
  rw [nextIndex, toNat_and_queueMask, BitVec.toNat_add, BitVec.toNat_ofNat, h]
  omega

/-! ### The invariant -/

namespace PushPc

/-- The `tail` that was loaded. -/
def tailCopy : PushPc → Option Usize
  | loadHead _ tail => some tail
  | loadOldest _ tail => some tail
  | storeHead _ tail _ => some tail
  | countDrop _ tail => some tail
  | writeSlot _ tail _ => some tail
  | storeTail tail _ => some tail
  | _ => none

/-- The push has written its slot, and has not stored `tail` yet. -/
def wrote : PushPc → ℕ
  | storeTail .. => 1
  | _ => 0

/-- The push has dropped an event, and has not counted it yet. -/
def uncounted : PushPc → ℕ
  | countDrop .. => 1
  | _ => 0

/-- The push has found or made room. -/
def room : PushPc → ℕ
  | countDrop .. => 1
  | writeSlot .. => 1
  | storeTail .. => 1
  | _ => 0

/-- The push has found the queue full, and has not moved `head` yet. -/
def full : PushPc → Bool
  | loadOldest .. => true
  | storeHead .. => true
  | _ => false

theorem wrote_le_room (pc : PushPc) : pc.wrote ≤ pc.room := by
  cases pc <;> simp [wrote, room]

end PushPc

namespace EventState

/-- What is known of a `head` that was loaded when it counted `H₁`, while `head` and `tail` count
`H` and `T`: nothing from there on has been popped, and if `head` has gone on by more than one
since, that was for pushes that saw the queue full. -/
structure Loaded (s : EventState) (H T : ℕ) (head : Usize) (H₁ : ℕ) : Prop where
  slot : head.toNat = H₁ % 64
  le : H₁ ≤ H
  popped : s.popped.Sublist (s.pushed.take H₁)
  lag : H ≤ H₁ + 1 ∨ H + 62 ≤ T
  full : s.push.full = true → H = H₁ ∨ T = H + 63

/-- What is known of the consumer. -/
def PopInv (s : EventState) (H T : ℕ) : Prop :=
  match s.pop with
  | .idle => s.popped.Sublist (s.pushed.take H)
  | .loadHead => s.popped.Sublist (s.pushed.take H)
  | .loadTail head => ∃ H₁, s.Loaded H T head H₁
  | .readSlot head => ∃ H₁, s.Loaded H T head H₁ ∧ H₁ < T
  | .storeHead head event =>
      ∃ H₁ a, s.Loaded H T head H₁ ∧ H₁ < T ∧ H₁ ≤ a ∧ a % 64 = H₁ % 64 ∧
        s.pushed[a]? = some event

/-- The invariant, with the counters `H` of the events that were popped or dropped and `T` of those
that `tail` shows. -/
structure Inv (s : EventState) (H T : ℕ) : Prop where
  head : s.queue.head.toNat = H % 64
  tail : s.queue.tail.toNat = T % 64
  copy : ∀ t, s.push.tailCopy = some t → t = s.queue.tail
  written : s.pushed.length = T + s.push.wrote
  taken : s.popped.length + s.queue.droppedCount.toNat + s.push.uncounted = H
  recent : Ring.Recent 64 s.queue.buf s.pushed
  le : H ≤ T + s.push.dropping.toNat
  room : T + s.push.room ≤ H + 63
  pop : s.PopInv H T

theorem inv_start : start.Inv 0 0 where
  head := rfl
  tail := rfl
  copy := by simp [start, PushPc.tailCopy]
  written := rfl
  taken := rfl
  recent := Ring.recent_nil
  le := Nat.zero_le _
  room := by simp [start, PushPc.room]
  pop := List.Sublist.refl _

variable {s s' : EventState} {H T H' T' H₁ : ℕ} {head : Usize}

/-- A step of the producer, as far as a suspended `pop` sees it. -/
theorem Loaded.producer (h : s.Loaded H T head H₁) (hpops : s'.pops = s.pops)
    (hpushed : s.pushed <+: s'.pushed) (hH : H ≤ H')
    (hlag : H ≤ H₁ + 1 ∨ H + 62 ≤ T → (s.push.full = true → H = H₁ ∨ T = H + 63) →
      (H' ≤ H₁ + 1 ∨ H' + 62 ≤ T') ∧ (s'.push.full = true → H' = H₁ ∨ T' = H' + 63)) :
    s'.Loaded H' T' head H₁ where
  slot := h.slot
  le := h.le.trans hH
  popped := by
    rw [EventState.popped, hpops]
    exact h.popped.trans (hpushed.take H₁).sublist
  lag := (hlag h.lag h.full).1
  full := (hlag h.lag h.full).2

theorem PopInv.producer (h : s.PopInv H T) (hpop : s'.pop = s.pop) (hpops : s'.pops = s.pops)
    (hpushed : s.pushed <+: s'.pushed) (hH : H ≤ H') (hT : T ≤ T')
    (hlag : ∀ H₁, H ≤ H₁ + 1 ∨ H + 62 ≤ T → (s.push.full = true → H = H₁ ∨ T = H + 63) →
      (H' ≤ H₁ + 1 ∨ H' + 62 ≤ T') ∧ (s'.push.full = true → H' = H₁ ∨ T' = H' + 63)) :
    s'.PopInv H' T' := by
  have hrest : s.popped.Sublist (s.pushed.take H) → s'.popped.Sublist (s'.pushed.take H') := by
    intro hsub
    rw [EventState.popped, hpops]
    exact hsub.trans ((hpushed.take H).sublist.trans (List.take_sublist_take_left hH))
  rw [PopInv] at h ⊢
  rw [hpop]
  cases hpc : s.pop with
  | idle =>
      rw [hpc] at h
      exact hrest h
  | loadHead =>
      rw [hpc] at h
      exact hrest h
  | loadTail head =>
      rw [hpc] at h
      obtain ⟨H₁, hload⟩ := h
      exact ⟨H₁, hload.producer hpops hpushed hH (hlag H₁)⟩
  | readSlot head =>
      rw [hpc] at h
      obtain ⟨H₁, hload, hlt⟩ := h
      exact ⟨H₁, hload.producer hpops hpushed hH (hlag H₁), hlt.trans_le hT⟩
  | storeHead head event =>
      rw [hpc] at h
      obtain ⟨H₁, a, hload, hlt, hle, hmod, hread⟩ := h
      refine ⟨H₁, a, hload.producer hpops hpushed hH (hlag H₁), hlt.trans_le hT, hle, hmod, ?_⟩
      obtain ⟨rest, heq⟩ := hpushed
      rw [← heq, List.getElem?_append_left (List.getElem?_eq_some_iff.1 hread).1]
      exact hread

/-! ### Steps of the producer -/

/-- What the invariant says of the producer at a known place of `push`. -/
theorem Inv.at_push (h : s.Inv H T) {pc : PushPc} (hpc : s.push = pc) :
    (∀ t, pc.tailCopy = some t → t = s.queue.tail) ∧
      s.pushed.length = T + pc.wrote ∧
      s.popped.length + s.queue.droppedCount.toNat + pc.uncounted = H ∧
      H ≤ T + pc.dropping.toNat ∧ T + pc.room ≤ H + 63 := by
  subst hpc
  exact ⟨h.copy, h.written, h.taken, h.le, h.room⟩

/-- The producer moves on without touching the queue. -/
theorem Inv.stay (h : s.Inv H T) {pc : PushPc}
    (hcopy : ∀ t, pc.tailCopy = some t → t = s.queue.tail) (hwrote : pc.wrote = s.push.wrote)
    (hcount : pc.uncounted = s.push.uncounted) (hdrop : pc.dropping = s.push.dropping)
    (hroom : T + pc.room ≤ H + 63)
    (hfull : pc.full = true → s.push.full = true ∨ T = H + 63) :
    ({ s with push := pc } : EventState).Inv H T := by
  refine ⟨h.head, h.tail, hcopy, ?_, ?_, h.recent, ?_, hroom, ?_⟩
  · rw [hwrote]
    exact h.written
  · rw [hcount]
    exact h.taken
  · rw [hdrop]
    exact h.le
  · refine h.pop.producer rfl rfl List.prefix_rfl le_rfl le_rfl fun H₁ hlag hload => ⟨hlag, ?_⟩
    intro hpc
    exact (hfull hpc).elim hload Or.inr

/-- The producer has found the queue full, and moves `head`. -/
theorem Inv.moveHead (h : s.Inv H T) {event : InputEvent} {tail head : Usize}
    (hpc : s.push = .storeHead event tail head) (hhead : s.queue.head = head) :
    ({ s with
      queue := { s.queue with head := nextIndex head }
      push := .countDrop event tail } : EventState).Inv (H + 1) T := by
  obtain ⟨hcopy, hwritten, htaken, hle, hroom⟩ := h.at_push hpc
  simp only [PushPc.wrote, PushPc.uncounted, PushPc.dropping, Bool.toNat_false, PushPc.room] at *
  refine ⟨?_, h.tail, ?_, hwritten, ?_, h.recent, ?_, ?_, ?_⟩
  · rw [← hhead]
    exact toNat_nextIndex h.head
  · exact hcopy
  · simp only [PushPc.uncounted]
    exact congrArg (· + 1) htaken
  · simp only [PushPc.dropping, Bool.toNat_true]
    omega
  · simp only [PushPc.room]
    omega
  · refine h.pop.producer rfl rfl List.prefix_rfl (Nat.le_succ H) le_rfl
      fun H₁ _ hload => ⟨?_, fun hfull => absurd hfull (by simp [PushPc.full])⟩
    have hcase := hload (by rw [hpc]; rfl)
    omega

/-- The producer counts the event that it has dropped. -/
theorem Inv.countDrop (h : s.Inv H T) {event : InputEvent} {tail : Usize}
    (hpc : s.push = .countDrop event tail)
    (hwrap : s.queue.droppedCount.toNat + 1 < 2 ^ 64) :
    ({ s with
      queue := { s.queue with droppedCount := s.queue.droppedCount + 1#64 }
      push := .writeSlot event tail true } : EventState).Inv H T := by
  obtain ⟨hcopy, hwritten, htaken, hle, hroom⟩ := h.at_push hpc
  have hadd : (s.queue.droppedCount + 1#64).toNat = s.queue.droppedCount.toNat + 1 := by
    rw [BitVec.toNat_add, BitVec.toNat_ofNat]
    omega
  refine ⟨h.head, h.tail, hcopy, hwritten, ?_, h.recent, hle, hroom, ?_⟩
  · simp only [hadd]
    exact htaken
  · exact h.pop.producer rfl rfl List.prefix_rfl le_rfl le_rfl
      fun H₁ hlag _ => ⟨hlag, fun hfull => absurd hfull (by simp [PushPc.full])⟩

/-- The producer writes the slot at `tail`. -/
theorem Inv.writeSlot (h : s.Inv H T) {event : InputEvent} {tail : Usize} {dropped : Bool}
    (hpc : s.push = .writeSlot event tail dropped) :
    ({ s with
      queue := { s.queue with buf := Function.update s.queue.buf tail.toNat event }
      push := .storeTail tail dropped
      pushed := s.pushed ++ [event] } : EventState).Inv H T := by
  obtain ⟨hcopy, hwritten, htaken, hle, hroom⟩ := h.at_push hpc
  have htail : tail.toNat = s.pushed.length % 64 := by
    rw [hcopy tail rfl, h.tail, hwritten]
    rfl
  refine ⟨h.head, h.tail, hcopy, ?_, htaken, ?_, hle, hroom, ?_⟩
  · rw [List.length_append, hwritten]
    rfl
  · simp only [htail]
    exact h.recent.concat (by omega) event
  · exact h.pop.producer rfl rfl (List.prefix_append _ _) le_rfl le_rfl
      fun H₁ hlag _ => ⟨hlag, fun hfull => absurd hfull (by simp [PushPc.full])⟩

/-- The producer shows the event. -/
theorem Inv.storeTail (h : s.Inv H T) {tail : Usize} {dropped : Bool}
    (hpc : s.push = .storeTail tail dropped) :
    ({ s with
      queue := { s.queue with tail := nextIndex tail }
      push := .idle
      kept := s.kept ++ [!dropped] } : EventState).Inv H (T + 1) := by
  obtain ⟨hcopy, hwritten, htaken, hle, hroom⟩ := h.at_push hpc
  have hbool := Bool.toNat_le dropped
  simp only [PushPc.dropping] at hle
  refine ⟨h.head, ?_, ?_, hwritten, htaken, h.recent, ?_, hroom, ?_⟩
  · rw [hcopy tail rfl]
    exact toNat_nextIndex h.tail
  · simp [PushPc.tailCopy]
  · exact hle.trans (Nat.add_le_add_left hbool T)
  · exact h.pop.producer rfl rfl List.prefix_rfl le_rfl (Nat.le_succ T)
      fun H₁ hlag _ => ⟨by omega, fun hfull => absurd hfull (by simp [PushPc.full])⟩

/-- Every step of the producer keeps the invariant. -/
theorem Inv.producer (h : s.Inv H T) (hok : s.Undisturbed .producer)
    (hs : s.producer = some s') : ∃ H T, s'.Inv H T := by
  have hroom := h.room
  have hcopy := h.copy
  rw [EventState.producer] at hs
  rw [Undisturbed] at hok
  cases hpc : s.push with
  | idle => simp [hpc] at hs
  | loadTail event =>
      simp only [hpc, Option.some.injEq] at hs
      subst hs
      rw [hpc] at hroom
      exact ⟨H, T, h.stay (by simp [PushPc.tailCopy]) (by rw [hpc]; rfl) (by rw [hpc]; rfl)
        (by rw [hpc]; rfl) hroom (by simp [PushPc.full])⟩
  | loadHead event tail =>
      simp only [hpc] at hs
      rw [hpc] at hcopy hroom
      obtain rfl : tail = s.queue.tail := hcopy tail rfl
      have hnext := toNat_nextIndex h.tail
      have hle := h.le
      rw [hpc] at hle
      simp only [PushPc.dropping, Bool.toNat_false, PushPc.room] at hle hroom
      split at hs
      · -- full: the counters are 63 apart
        rename_i heq
        cases hs
        have hmod : (T + 1) % 64 = H % 64 := by rw [← hnext, heq, h.head]
        exact ⟨H, T, h.stay hcopy (by rw [hpc]; rfl) (by rw [hpc]; rfl) (by rw [hpc]; rfl) hroom
          fun _ => Or.inr (by omega)⟩
      · rename_i hne
        cases hs
        have hroom' : T ≠ H + 63 := by
          rintro rfl
          exact hne (BitVec.eq_of_toNat_eq (by rw [hnext, h.head]; omega))
        exact ⟨H, T, h.stay hcopy (by rw [hpc]; rfl) (by rw [hpc]; rfl) (by rw [hpc]; rfl)
          (by simp only [PushPc.room]; omega) (by simp [PushPc.full])⟩
  | loadOldest event tail =>
      simp only [hpc, Option.some.injEq] at hs
      subst hs
      rw [hpc] at hcopy hroom
      exact ⟨H, T, h.stay hcopy (by rw [hpc]; rfl) (by rw [hpc]; rfl) (by rw [hpc]; rfl) hroom
        fun _ => Or.inl (by rw [hpc]; rfl)⟩
  | storeHead event tail head =>
      simp only [hpc, Option.some.injEq] at hs hok
      subst hs
      exact ⟨H + 1, T, h.moveHead hpc hok⟩
  | countDrop event tail =>
      simp only [hpc, Option.some.injEq] at hs hok
      subst hs
      exact ⟨H, T, h.countDrop hpc hok⟩
  | writeSlot event tail dropped =>
      simp only [hpc] at hs
      obtain ⟨-, hs⟩ := Option.ite_none_right_eq_some.1 hs
      cases hs
      exact ⟨H, T, h.writeSlot hpc⟩
  | storeTail tail dropped =>
      simp only [hpc, Option.some.injEq] at hs
      subst hs
      exact ⟨H, T + 1, h.storeTail hpc⟩

/-! ### Steps of the consumer -/

theorem Loaded.wait (h : s.Loaded H T head H₁) {pc : PopPc} :
    ({ s with pop := pc } : EventState).Loaded H T head H₁ :=
  ⟨h.slot, h.le, h.popped, h.lag, h.full⟩

/-- The consumer moves on without touching the queue, and without popping an event. -/
theorem Inv.wait (h : s.Inv H T) {pc : PopPc} {pops : List (Option InputEvent)}
    (hpops : pops.reduceOption = s.popped)
    (hpc : ({ s with pop := pc, pops := pops } : EventState).PopInv H T) :
    ({ s with pop := pc, pops := pops } : EventState).Inv H T := by
  refine ⟨h.head, h.tail, h.copy, h.written, ?_, h.recent, h.le, h.room, hpc⟩
  rw [popped, hpops]
  exact h.taken

/-- The event that a `pop` has read is not behind `head`. -/
theorem Inv.read_le (h : s.Inv H T) {a : ℕ} (ha : a < s.pushed.length) (hmod : a % 64 = H % 64) :
    a ≤ H := by
  have hwritten := h.written
  have hroom := h.room
  have hle := s.push.wrote_le_room
  omega

/-- A `pop` that stores the `head` behind the one that it has loaded. -/
theorem Inv.popEvent (h : s.Inv H T) {head : Usize} {event : InputEvent}
    (hpc : s.pop = .storeHead head event) (hhead : s.queue.head = head) :
    ({ s with
      queue := { s.queue with head := nextIndex head }
      pop := .idle
      pops := s.pops ++ [some event] } : EventState).Inv (H + 1) T := by
  have hpop := h.pop
  have hroom := h.room
  rw [PopInv, hpc] at hpop
  obtain ⟨H₁, a, hload, hlt, hle, hmod, hread⟩ := hpop
  have hsame : H % 64 = H₁ % 64 := by rw [← h.head, hhead, hload.slot]
  -- `head` has not moved, or it has gone around, and the ring is full
  have hbelow : H < T := by
    have hle₁ := hload.le
    have hlag := hload.lag
    omega
  have halt : a < s.pushed.length := (List.getElem?_eq_some_iff.1 hread).1
  have haH : a ≤ H := h.read_le halt (hmod.trans hsame.symm)
  have hpopped : (s.pops ++ [some event]).reduceOption = s.popped ++ [event] :=
    List.reduceOption_append ..
  refine ⟨?_, h.tail, h.copy, h.written, ?_, h.recent, ?_, ?_, ?_⟩
  · rw [← hhead]
    exact toNat_nextIndex h.head
  · rw [popped, hpopped, List.length_append, List.length_singleton, ← h.taken]
    dsimp only
    omega
  · exact Nat.le_add_right_of_le hbelow
  · exact hroom.trans (by omega)
  · rw [PopInv, popped, hpopped]
    have hone : [event].Sublist ((s.pushed.drop H₁).take (H + 1 - H₁)) := by
      rw [List.singleton_sublist, List.mem_iff_getElem?]
      refine ⟨a - H₁, ?_⟩
      rw [List.getElem?_take_of_lt (by omega), List.getElem?_drop, Nat.add_sub_cancel' hle, hread]
    have hsplit : s.pushed.take (H + 1) =
        s.pushed.take H₁ ++ (s.pushed.drop H₁).take (H + 1 - H₁) := by
      rw [← List.take_add, Nat.add_sub_cancel' (hload.le.trans (Nat.le_succ H))]
    rw [hsplit]
    exact hload.popped.append hone

/-- Every step of the consumer keeps the invariant. -/
theorem Inv.consumer (h : s.Inv H T) (hok : s.Undisturbed .consumer)
    (hs : s.consumer = some s') : ∃ H T, s'.Inv H T := by
  have hpop := h.pop
  rw [EventState.consumer] at hs
  rw [Undisturbed] at hok
  rw [PopInv] at hpop
  cases hpc : s.pop with
  | idle => simp [hpc] at hs
  | loadHead =>
      simp only [hpc, Option.some.injEq] at hs hpop
      subst hs
      exact ⟨H, T, h.wait rfl
        ⟨H, h.head, le_rfl, hpop, Or.inl (Nat.le_succ H), fun _ => Or.inl rfl⟩⟩
  | loadTail head =>
      simp only [hpc] at hs hok hpop
      obtain ⟨H₁, hload⟩ := hpop
      split at hs
      · cases hs
        have hpopped : (s.pops ++ [none]).reduceOption = s.popped :=
          (List.reduceOption_append ..).trans (List.append_nil _)
        refine ⟨H, T, h.wait hpopped ?_⟩
        rw [PopInv, popped, hpopped]
        exact hload.popped.trans (List.take_sublist_take_left hload.le)
      · rename_i hne
        cases hs
        refine ⟨H, T, h.wait rfl ⟨H₁, hload.wait, ?_⟩⟩
        have hne₁ : H₁ ≠ T := by
          rintro rfl
          exact hne (BitVec.eq_of_toNat_eq (by rw [hload.slot, h.tail]))
        have hle₁ := hload.le
        have hle := h.le
        have hbool := Bool.toNat_le s.push.dropping
        by_contra hge
        -- `head` has been moved beyond `tail`, and the `pop` has loaded it there
        obtain ⟨rfl, rfl⟩ : H₁ = T + 1 ∧ H = T + 1 := by omega
        refine hok ⟨?_, ?_, ?_⟩
        · cases hdrop : s.push.dropping with
          | true => rfl
          | false =>
              rw [hdrop] at hle
              exact absurd hle (Nat.not_succ_le_self T)
        · exact BitVec.eq_of_toNat_eq (by rw [h.head, toNat_nextIndex h.tail])
        · exact BitVec.eq_of_toNat_eq (by rw [h.head, hload.slot])
  | readSlot head =>
      simp only [hpc] at hs hpop
      obtain ⟨H₁, hload, hlt⟩ := hpop
      obtain ⟨-, hs⟩ := Option.ite_none_right_eq_some.1 hs
      cases hs
      have hlen : H₁ < s.pushed.length := by
        rw [h.written]
        exact Nat.lt_add_right _ hlt
      obtain ⟨a, hle, hmod, hread⟩ := h.recent.latest (by omega) hlen
      refine ⟨H, T, h.wait rfl ⟨H₁, a, hload.wait, hlt, hle, hmod, ?_⟩⟩
      rw [hload.slot]
      exact hread
  | storeHead head event =>
      simp only [hpc, Option.some.injEq] at hs hok
      subst hs
      exact ⟨H + 1, T, h.popEvent hpc hok⟩

/-- Every undisturbed step keeps the invariant. -/
theorem Inv.next (h : s.Inv H T) {a : EventAct} (hok : s.Undisturbed a)
    (hs : s.next a = some s') : ∃ H T, s'.Inv H T := by
  cases a with
  | push event =>
      obtain ⟨hpc, hs⟩ := Option.ite_none_right_eq_some.1 hs
      cases hs
      have hroom := h.room
      rw [hpc] at hroom
      exact ⟨H, T, h.stay (by simp [PushPc.tailCopy]) (by rw [hpc]; rfl) (by rw [hpc]; rfl)
        (by rw [hpc]; rfl) hroom (by simp [PushPc.full])⟩
  | producer => exact h.producer hok hs
  | pop =>
      obtain ⟨hpc, hs⟩ := Option.ite_none_right_eq_some.1 hs
      cases hs
      have hpop := h.pop
      rw [PopInv, hpc] at hpop
      exact ⟨H, T, h.wait rfl hpop⟩
  | consumer => exact h.consumer hok hs

/-! ### What the invariant says -/

/-- No event that was popped is invented, repeated or reordered. -/
theorem Inv.sublist (h : s.Inv H T) : s.popped.Sublist s.pushed := by
  have hpop := h.pop
  rw [PopInv] at hpop
  cases hpc : s.pop with
  | idle =>
      simp only [hpc] at hpop
      exact hpop.trans (List.take_sublist _ _)
  | loadHead =>
      simp only [hpc] at hpop
      exact hpop.trans (List.take_sublist _ _)
  | loadTail head =>
      simp only [hpc] at hpop
      obtain ⟨H₁, hload⟩ := hpop
      exact hload.popped.trans (List.take_sublist _ _)
  | readSlot head =>
      simp only [hpc] at hpop
      obtain ⟨H₁, hload, -⟩ := hpop
      exact hload.popped.trans (List.take_sublist _ _)
  | storeHead head event =>
      simp only [hpc] at hpop
      obtain ⟨H₁, a, hload, -⟩ := hpop
      exact hload.popped.trans (List.take_sublist _ _)

/-- Between the calls the queue holds what was neither popped nor dropped. -/
theorem Inv.holdsLast (h : s.Inv H T) (hidle : s.Idle) : s.HoldsLast := by
  have hwritten := h.written
  have htaken := h.taken
  have hle := h.le
  have hroom := h.room
  rw [hidle.1] at hwritten htaken hle hroom
  simp only [PushPc.wrote, PushPc.uncounted, PushPc.dropping, PushPc.room, Bool.toNat_false,
    Nat.add_zero] at hwritten htaken hle hroom
  have hn : ((s.queue.tail - s.queue.head) &&& queueMask).toNat = T - H := by
    rw [toNat_and_queueMask, BitVec.toNat_sub, h.head, h.tail]
    omega
  refine ⟨T - H, by omega, ?_⟩
  have hwindow := h.recent.window H (n := T - H) (by omega) (by omega)
  rw [show s.pushed.length - (T - H) = H by omega, ← hwindow, EventQueue.contents, hn]
  refine List.map_congr_left fun k _ => ?_
  rw [h.head, queueCapacity, Nat.mod_add_mod]

/-- A call in progress can go on: no index is out of range. -/
theorem Inv.progress (h : s.Inv H T) :
    (s.push ≠ .idle → ∃ s', s.next .producer = some s') ∧
      (s.pop ≠ .idle → ∃ s', s.next .consumer = some s') := by
  have hmod : ∀ n, n % 64 < queueCapacity := fun n => Nat.mod_lt n (by decide)
  constructor
  · intro hbusy
    have hcopy := h.copy
    rw [EventState.next, EventState.producer]
    cases hpc : s.push with
    | idle => exact absurd hpc hbusy
    | loadHead event tail =>
        dsimp only
        split
        · exact ⟨_, rfl⟩
        · exact ⟨_, rfl⟩
    | writeSlot event tail dropped =>
        rw [hpc] at hcopy
        have hlt : tail.toNat < queueCapacity := by
          rw [hcopy tail rfl, h.tail]
          exact hmod T
        exact ⟨_, if_pos hlt⟩
    | _ => exact ⟨_, rfl⟩
  · intro hbusy
    have hpop := h.pop
    rw [EventState.next, EventState.consumer]
    rw [PopInv] at hpop
    cases hpc : s.pop with
    | idle => exact absurd hpc hbusy
    | loadTail head =>
        dsimp only
        split
        · exact ⟨_, rfl⟩
        · exact ⟨_, rfl⟩
    | readSlot head =>
        simp only [hpc] at hpop
        obtain ⟨H₁, hload, -⟩ := hpop
        have hlt : head.toNat < queueCapacity := by
          rw [hload.slot]
          exact hmod H₁
        exact ⟨_, if_pos hlt⟩
    | _ => exact ⟨_, rfl⟩

end EventState

/-! ### Runs -/

/-- In every undisturbed run the invariant holds. -/
theorem eventQueue_inv {s : EventState}
    (h : eventQueueSystem.Reach EventState.Undisturbed s) : ∃ H T, s.Inv H T := by
  refine h.invariant (P := fun s => ∃ H T, s.Inv H T) (fun s₀ h₀ => ?_) ?_
  · obtain rfl : s₀ = EventState.start := h₀
    exact ⟨0, 0, EventState.inv_start⟩
  · rintro s₁ a s₂ ⟨H, T, hinv⟩ hok hs
    exact hinv.next hok hs

/-- **The queue keeps the order.**  In every undisturbed run the popped events are a subsequence of
the pushed events, and whenever no call is in progress the queue holds the last of them. -/
theorem eventQueue_order {s : EventState}
    (h : eventQueueSystem.Reach EventState.Undisturbed s) : s.Ordered := by
  obtain ⟨H, T, hinv⟩ := eventQueue_inv h
  exact ⟨hinv.sublist, hinv.holdsLast⟩

/-- An event is pushed and popped. -/
theorem eventQueue_order_one :
    ∃ s : EventState, s.popped = [InputEvent.keyDown 30#16] ∧ s.Ordered := by
  have hnew : eventQueueSystem.Reach EventState.Undisturbed .start := .init rfl
  have hcall := hnew.step (a := EventAct.push (.keyDown 30#16)) trivial rfl
  have htail := hcall.step (a := EventAct.producer) trivial rfl
  have hroom := htail.step (a := EventAct.producer) trivial rfl
  have hwrite := hroom.step (a := EventAct.producer) trivial rfl
  have hshown := hwrite.step (a := EventAct.producer) trivial rfl
  have hpop := hshown.step (a := EventAct.pop) trivial rfl
  have hhead := hpop.step (a := EventAct.consumer) trivial rfl
  have hsome := hhead.step (a := EventAct.consumer) (fun h => absurd h.1 (by decide)) rfl
  have hread := hsome.step (a := EventAct.consumer) trivial rfl
  exact ⟨_, rfl, eventQueue_order (hread.step (a := EventAct.consumer) rfl rfl)⟩

/-- The ring is filled; a `pop` loads `head` and reads its event; a `push` makes room by moving
`head`; and the `pop` moves it to the same index. -/
def overtakenTrace : List EventAct :=
  (List.replicate 63 (.push (.keyDown 30#16) :: List.replicate 4 .producer)).flatten ++
    [.pop, .consumer, .consumer, .consumer] ++
    (.push (.keyDown 30#16) :: List.replicate 7 .producer) ++ [.consumer]

/-- One event was popped and one was dropped, and only one of them has left the queue. -/
theorem eventQueue_overtaken :
    ∃ s, eventQueueSystem.Reach Runs.anyStep s ∧ ¬ s.Ordered := by
  have hrun : ((Runs.replay EventState.next (fun _ _ => true) .start overtakenTrace).any fun s =>
      s.push = .idle && s.pop = .idle && s.pushed.length == 64 && s.popped.length == 1 &&
        s.queue.droppedCount.toNat == 1 && s.queue.contents.length == 63) = true := by
    decide +kernel
  obtain ⟨s, hs, hall⟩ := (Option.any_eq_true _ _).1 hrun
  simp only [Bool.and_eq_true, decide_eq_true_eq, beq_iff_eq] at hall
  obtain ⟨⟨⟨⟨⟨hpush, hpop⟩, hpushed⟩, hpopped⟩, hdropped⟩, hcontents⟩ := hall
  refine ⟨s, (Runs.System.Reach.replay (M := eventQueueSystem) (fun _ _ _ h => h) (.init rfl)
    hs).free, ?_⟩
  rintro ⟨-, hidle⟩
  obtain ⟨k, hk, heq⟩ := hidle ⟨hpush, hpop⟩
  have hlen := congrArg List.length heq
  rw [List.length_drop] at hlen
  omega

/-- In every undisturbed run a call in progress can go on. -/
theorem eventQueue_progress {s : EventState}
    (h : eventQueueSystem.Reach EventState.Undisturbed s) :
    (s.push ≠ .idle → ∃ s', s.next .producer = some s') ∧
      (s.pop ≠ .idle → ∃ s', s.next .consumer = some s') := by
  obtain ⟨H, T, hinv⟩ := eventQueue_inv h
  exact hinv.progress

end StarOS
