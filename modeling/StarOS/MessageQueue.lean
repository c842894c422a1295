/-
The message queue between tasks (`process/ipc.rs`): 32 slots, two indices and a counter.

The queue refines a list of at most 32 messages: a message that is accepted goes to the end of the
list, a full queue refuses and stays as it is, and `receive` takes the oldest message.  The slots
are a ring that starts at `head`; `tail` is behind its last message and `count` is its length,
however often the indices have gone around.

* `StarOS.Message`, `StarOS.MessageQueue` — messages and the queue;
* `StarOS.MessageQueue.send`, `StarOS.MessageQueue.sendData`, `StarOS.MessageQueue.receive` and the
  other operations;
* `StarOS.BoundedFifo.apply` — the operations on a list of messages;
* `StarOS.MessageQueue.Rep` — the queue holds a list of messages;
* `StarOS.messageQueue_refines` — every run of the queue is a run of the list.
-/

import StarOS.ByteMem
import StarOS.Ring
import StarOS.Runs
import StarOS.Scheduler

set_option autoImplicit false

namespace StarOS

/-! ### Messages -/

/-- A message: its sender, its type, and six words of data. -/
structure Message where
  sender : TaskId
  msgType : Usize
  data : Fin 6 → Usize
  deriving DecidableEq

namespace Message

/-- `Message::new`. -/
def new (sender : TaskId) (msgType : Usize) : Message := ⟨sender, msgType, fun _ => 0#64⟩

/-- `Message::with_data`. -/
def withData (sender : TaskId) (msgType : Usize) (data : Fin 6 → Usize) : Message :=
  ⟨sender, msgType, data⟩

/-- `size_of::<Message>()`. -/
def bytes : ℕ := 64

/-- `size_of_val(&msg.data)`. -/
def dataBytes : ℕ := 48

/-- The words that bytes make when they are copied to the start of zeroed data. -/
def copyBytes (bytes : List (BitVec 8)) : Fin 6 → Usize := fun i =>
  BitVec.ofNat 64 (leRead (fun a => bytes.getD a.toNat 0#8) (BitVec.ofNat 64 (8 * i)) 8)

end Message

/-! ### The queue -/

/-- The number of slots of a message queue. -/
def messageSlots : ℕ := 32

/-- The queue.  Only the slots below `messageSlots` exist. -/
structure MessageQueue where
  messages : ℕ → Option Message
  head : ℕ
  tail : ℕ
  count : Usize

namespace MessageQueue

/-- `MAX_MESSAGE_SIZE`. -/
def maxMessageSize : ℕ := 4096

/-- `MessageQueue::new`. -/
def new : MessageQueue := ⟨fun _ => none, 0, 0, 0#64⟩

/-- `MessageQueue::send`. -/
def send (q : MessageQueue) (msg : Message) : Except KernelError Unit × MessageQueue :=
  if maxMessageSize < Message.bytes then
    (.error (.invalidParameter "Message exceeds maximum size of 4096 bytes"), q)
  else if messageSlots ≤ q.count.toNat then (.error .resourceExhausted, q)
  else
    (.ok (), ⟨Function.update q.messages q.tail (some msg), q.head, (q.tail + 1) % messageSlots,
      q.count + 1#64⟩)

/-- The message that `send_data` makes of its arguments. -/
def dataMessage (sender : TaskId) (msgType : Usize) (data : List (BitVec 8)) : Message :=
  let copyLen := min data.length Message.dataBytes
  { Message.new sender msgType with data := Message.copyBytes (data.take copyLen) }

/-- `MessageQueue::send_data`. -/
def sendData (q : MessageQueue) (sender : TaskId) (msgType : Usize) (data : List (BitVec 8)) :
    Except KernelError Unit × MessageQueue :=
  if maxMessageSize < data.length then
    (.error (.invalidParameter "Message data exceeds 4096 bytes"), q)
  else q.send (dataMessage sender msgType data)

/-- `MessageQueue::receive`. -/
def receive (q : MessageQueue) : Option Message × MessageQueue :=
  if q.count = 0#64 then (none, q)
  else
    (q.messages q.head, ⟨Function.update q.messages q.head none, (q.head + 1) % messageSlots,
      q.tail, q.count - 1#64⟩)

/-- `MessageQueue::len`. -/
def len (q : MessageQueue) : Usize := q.count

/-- `MessageQueue::is_empty`. -/
def isEmpty (q : MessageQueue) : Bool := q.len == 0#64

/-- `MessageQueue::is_full`. -/
def isFull (q : MessageQueue) : Bool := decide (messageSlots ≤ q.len.toNat)

end MessageQueue

/-- The calls on a queue. -/
inductive MessageOp where
  | send (msg : Message)
  | sendData (sender : TaskId) (msgType : Usize) (data : List (BitVec 8))
  | receive

/-- What a call returns. -/
inductive MessageResult where
  | sent (r : Except KernelError Unit)
  | received (msg : Option Message)

/-- A call on the queue, with its result. -/
def MessageQueue.apply (q : MessageQueue) : MessageOp → MessageResult × MessageQueue
  | .send msg => (.sent (q.send msg).1, (q.send msg).2)
  | .sendData sender msgType data =>
      (.sent (q.sendData sender msgType data).1, (q.sendData sender msgType data).2)
  | .receive => (.received q.receive.1, q.receive.2)

/-- The runs on a new queue; a step is labelled with the call and its result. -/
def messageQueueSystem : Runs.System MessageQueue (MessageOp × MessageResult) where
  init := fun q => q = .new
  step := fun q e q' => q.apply e.1 = (e.2, q')

/-! ### A list of messages -/

namespace BoundedFifo

/-- Appending a message to a list that has room. -/
def send (l : List Message) (msg : Message) : Except KernelError Unit × List Message :=
  if l.length < messageSlots then (.ok (), l ++ [msg]) else (.error .resourceExhausted, l)

/-- The calls on a list of at most 32 messages. -/
def apply (l : List Message) : MessageOp → MessageResult × List Message
  | .send msg => (.sent (send l msg).1, (send l msg).2)
  | .sendData sender msgType data =>
      if MessageQueue.maxMessageSize < data.length then
        (.sent (.error (.invalidParameter "Message data exceeds 4096 bytes")), l)
      else
        let msg := MessageQueue.dataMessage sender msgType data
        (.sent (send l msg).1, (send l msg).2)
  | .receive => (.received l.head?, l.tail)

/-- The runs on an empty list. -/
def system : Runs.System (List Message) (MessageOp × MessageResult) where
  init := fun l => l = []
  step := fun l e l' => apply l e.1 = (e.2, l')

end BoundedFifo

/-! ### The queue holds a list -/

namespace MessageQueue

/-- The ring from `head` on holds the list, `tail` is behind its last message, and `count` is its
length. -/
structure Rep (q : MessageQueue) (l : List Message) : Prop where
  holds : Ring.Holds messageSlots q.messages q.head l
  head : q.head < messageSlots
  tail : q.tail = (q.head + l.length) % messageSlots
  count : q.count.toNat = l.length

variable {q : MessageQueue} {l : List Message}

theorem rep_new : new.Rep [] where
  holds := Ring.holds_nil (by decide) fun _ _ => rfl
  head := by decide
  tail := rfl
  count := rfl

theorem Rep.count_eq_zero (h : q.Rep l) : q.count = 0#64 ↔ l = [] := by
  rw [← List.length_eq_zero_iff, ← h.count]
  constructor
  · intro h0
    rw [h0]
    rfl
  · intro h0
    exact BitVec.eq_of_toNat_eq h0

/-- A full queue refuses and stays as it is. -/
theorem Rep.send_full (h : q.Rep l) (hfull : messageSlots ≤ l.length) (msg : Message) :
    q.send msg = (.error .resourceExhausted, q) := by
  rw [send, if_neg (by decide), if_pos (by rw [h.count]; exact hfull)]

/-- A queue with room appends the message. -/
theorem Rep.send_room (h : q.Rep l) (hroom : l.length < messageSlots) (msg : Message) :
    (q.send msg).1 = .ok () ∧ (q.send msg).2.Rep (l ++ [msg]) := by
  have hlen : (l ++ [msg]).length = l.length + 1 := by
    rw [List.length_append, List.length_singleton]
  rw [send, if_neg (by decide), if_neg (by rw [h.count]; exact not_le.2 hroom)]
  refine ⟨rfl, ⟨?_, h.head, ?_, ?_⟩⟩
  · rw [h.tail]
    exact h.holds.push hroom msg
  · rw [h.tail, hlen, Nat.mod_add_mod]
    rfl
  · have hcount := h.count
    have hslots : messageSlots = 32 := rfl
    rw [hlen, BitVec.toNat_add, BitVec.toNat_ofNat]
    omega

/-- `send` does what it does on the list. -/
theorem Rep.send (h : q.Rep l) (msg : Message) :
    (q.send msg).1 = (BoundedFifo.send l msg).1 ∧
      (q.send msg).2.Rep (BoundedFifo.send l msg).2 := by
  by_cases hroom : l.length < messageSlots
  · rw [BoundedFifo.send, if_pos hroom]
    exact h.send_room hroom msg
  · rw [BoundedFifo.send, if_neg hroom, h.send_full (not_lt.1 hroom)]
    exact ⟨rfl, h⟩

/-- `receive` takes the oldest message. -/
theorem Rep.receive (h : q.Rep l) :
    q.receive.1 = l.head? ∧ q.receive.2.Rep l.tail := by
  cases l with
  | nil =>
      rw [MessageQueue.receive, if_pos (h.count_eq_zero.2 rfl)]
      exact ⟨rfl, h⟩
  | cons msg l =>
      have hne : q.count ≠ 0#64 := fun h0 => absurd (h.count_eq_zero.1 h0) (List.cons_ne_nil _ _)
      rw [MessageQueue.receive, if_neg hne]
      refine ⟨h.holds.head_eq h.head, ⟨h.holds.pop h.head, Nat.mod_lt _ (by decide), ?_, ?_⟩⟩
      · rw [h.tail, List.length_cons, List.tail_cons, Nat.mod_add_mod, Nat.add_assoc,
          Nat.add_comm 1]
      · have hcount := h.count
        have hlt := q.count.isLt
        rw [List.length_cons] at hcount
        rw [List.tail_cons, BitVec.toNat_sub, BitVec.toNat_ofNat]
        omega

/-- A call does what it does on the list. -/
theorem Rep.apply (h : q.Rep l) (op : MessageOp) :
    (q.apply op).1 = (BoundedFifo.apply l op).1 ∧
      (q.apply op).2.Rep (BoundedFifo.apply l op).2 := by
  cases op with
  | send msg =>
      obtain ⟨hres, hrep⟩ := h.send msg
      exact ⟨congrArg MessageResult.sent hres, hrep⟩
  | sendData sender msgType data =>
      rw [MessageQueue.apply, BoundedFifo.apply, sendData]
      by_cases hlong : maxMessageSize < data.length
      · rw [if_pos hlong, if_pos hlong]
        exact ⟨rfl, h⟩
      · rw [if_neg hlong, if_neg hlong]
        obtain ⟨hres, hrep⟩ := h.send (dataMessage sender msgType data)
        exact ⟨congrArg MessageResult.sent hres, hrep⟩
  | receive =>
      obtain ⟨hres, hrep⟩ := h.receive
      exact ⟨congrArg MessageResult.received hres, hrep⟩

end MessageQueue

/-- Every run of the queue is a run of the list that the queue holds. -/
theorem messageQueueSystem_rep {tr : List (MessageOp × MessageResult)} {q : MessageQueue}
    (h : messageQueueSystem.Exec Runs.anyStep tr q) :
    ∃ l, BoundedFifo.system.Exec Runs.anyStep tr l ∧ q.Rep l := by
  refine h.simulates (fun q₀ h₀ => ?_) fun q₁ e q₂ l₁ hrep _ hs => ?_
  · obtain rfl : q₀ = MessageQueue.new := h₀
    exact ⟨[], rfl, MessageQueue.rep_new⟩
  · obtain ⟨hres, hrep'⟩ := hrep.apply e.1
    have hs' : q₁.apply e.1 = (e.2, q₂) := hs
    rw [hs'] at hres hrep'
    exact ⟨_, Prod.ext hres.symm rfl, hrep'⟩

/-- **The message queue is a bounded FIFO.**  Every run of the queue is, with the same calls and
results, a run of a list of at most 32 messages, which `len`, `is_empty` and `is_full` describe; and
while the list has 32 messages, `send` returns an error and leaves the queue as it is. -/
theorem messageQueue_refines {tr : List (MessageOp × MessageResult)} {q : MessageQueue}
    (h : messageQueueSystem.Exec Runs.anyStep tr q) :
    ∃ l, BoundedFifo.system.Exec Runs.anyStep tr l ∧ l.length ≤ messageSlots ∧
      q.len.toNat = l.length ∧ (q.isEmpty = true ↔ l = []) ∧
      (q.isFull = true ↔ l.length = messageSlots) ∧
      (l.length = messageSlots → ∀ msg, q.send msg = (.error .resourceExhausted, q)) := by
  obtain ⟨l, hexec, hrep⟩ := messageQueueSystem_rep h
  have hfits := hrep.holds.fits
  refine ⟨l, hexec, hfits, hrep.count, ?_, ?_, fun hfull => hrep.send_full hfull.ge⟩
  · rw [MessageQueue.isEmpty, beq_iff_eq, MessageQueue.len]
    exact hrep.count_eq_zero
  · rw [MessageQueue.isFull, decide_eq_true_iff, MessageQueue.len, hrep.count]
    omega

/-- A message that has been sent is received. -/
theorem messageQueue_refines_one :
    ∃ l, BoundedFifo.system.Exec Runs.anyStep
      [(.send (Message.new ⟨1#64⟩ 42#64), .sent (.ok ())),
        (.receive, .received (some (Message.new ⟨1#64⟩ 42#64)))] l ∧ l.length ≤ messageSlots := by
  let msg := Message.new ⟨1#64⟩ 42#64
  let sent := (MessageQueue.new.send msg).2
  have hnew : messageQueueSystem.Exec Runs.anyStep [] MessageQueue.new := .init rfl
  have hsent : messageQueueSystem.Exec Runs.anyStep [(.send msg, .sent (.ok ()))] sent :=
    hnew.step trivial rfl
  have hreceived : messageQueueSystem.Exec Runs.anyStep
      [(.send msg, .sent (.ok ())), (.receive, .received (some msg))] sent.receive.2 :=
    hsent.step trivial rfl
  obtain ⟨l, hl, hlen, -⟩ := messageQueue_refines hreceived
  exact ⟨l, hl, hlen⟩

end StarOS
