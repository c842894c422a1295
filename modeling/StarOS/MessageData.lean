/-
What `send_data` accepts and what it delivers (`process/ipc.rs`).

`send_data` takes up to 4096 bytes, but a message has room for 48: the bytes behind the 48th are
dropped, and the sender is told that all is well.  In between nothing goes wrong, for the queue
hands the message out as it was put in, behind the messages that were there before; so what arrives
is all of the data exactly if there are at most 48 bytes.

* `StarOS.Message.dataByte`, `StarOS.Message.Carries` — the data of a message as bytes, and a
  message that carries all bytes of a slice;
* `StarOS.MessageQueue.run` — calls one after the other;
* `StarOS.BoundedFifo.run_behind` — a message comes to the front when those before it are taken;
* `StarOS.sendData_delivers_iff` — what is received for an accepted slice;
* `StarOS.sendData_truncates` — 49 bytes.
-/

import StarOS.MessageQueue

set_option autoImplicit false

namespace StarOS

/-! ### The data as bytes -/

namespace Message

/-- A byte of the data: the words follow each other, each with its lowest byte first. -/
def dataByte (m : Message) (i : ℕ) : Option (BitVec 8) :=
  if h : i / 8 < 6 then some (BitVec.ofNat 8 ((m.data ⟨i / 8, h⟩).toNat / 256 ^ (i % 8))) else none

/-- The message carries every byte of the slice at its place, and zeros behind them. -/
structure Carries (m : Message) (bytes : List (BitVec 8)) : Prop where
  byte : ∀ i (h : i < bytes.length), m.dataByte i = some bytes[i]
  padding : ∀ i, bytes.length ≤ i → i < dataBytes → m.dataByte i = some 0#8

theorem dataByte_of_ge (m : Message) {i : ℕ} (h : dataBytes ≤ i) : m.dataByte i = none := by
  have hbytes : dataBytes = 48 := rfl
  exact dif_neg (by omega)

/-- The bytes of a message that bytes were copied to, padded with zeros. -/
theorem dataByte_copyBytes {m : Message} {bytes : List (BitVec 8)} (hm : m.data = copyBytes bytes)
    {i : ℕ} (hi : i < dataBytes) : m.dataByte i = some (bytes.getD i 0#8) := by
  have hbytes : dataBytes = 48 := rfl
  have hword : i / 8 < 6 := by omega
  have hplace : (BitVec.ofNat 64 (8 * (i / 8)) + BitVec.ofNat 64 (i % 8)).toNat = i := by
    rw [BitVec.toNat_add, BitVec.toNat_ofNat, BitVec.toNat_ofNat]
    omega
  rw [dataByte, dif_pos hword, hm, copyBytes]
  dsimp only
  have hlt := leRead_lt (fun a => bytes.getD a.toNat 0#8) (BitVec.ofNat 64 (8 * (i / 8))) 8
  have hdigit := leRead_digit (fun a => bytes.getD a.toNat 0#8) (BitVec.ofNat 64 (8 * (i / 8)))
    (show i % 8 < 8 from Nat.mod_lt _ (by decide))
  rw [hplace] at hdigit
  refine congrArg some (BitVec.eq_of_toNat_eq ?_)
  rw [BitVec.toNat_ofNat, BitVec.toNat_ofNat, Nat.mod_eq_of_lt (b := 2 ^ 64) hlt]
  exact hdigit

end Message

/-- The message made of a slice carries all of it exactly if it has room for it. -/
theorem MessageQueue.carries_dataMessage (sender : TaskId) (msgType : Usize)
    (data : List (BitVec 8)) :
    (dataMessage sender msgType data).Carries data ↔ data.length ≤ Message.dataBytes := by
  constructor
  · intro h
    by_contra hlong
    have hbyte := h.byte Message.dataBytes (not_le.1 hlong)
    rw [Message.dataByte_of_ge _ le_rfl] at hbyte
    cases hbyte
  · intro hfits
    have htake : data.take (min data.length Message.dataBytes) = data := by
      rw [min_eq_left hfits, List.take_length]
    have hcopy : (dataMessage sender msgType data).data = Message.copyBytes data := by
      rw [dataMessage, htake]
    refine ⟨fun i hi => ?_, fun i hi hlt => ?_⟩
    · rw [Message.dataByte_copyBytes hcopy (by omega), List.getD_eq_getElem _ _ hi]
    · rw [Message.dataByte_copyBytes hcopy hlt, List.getD_eq_default _ _ hi]

/-! ### Calls one after the other -/

/-- Whether the call is `receive`. -/
def MessageOp.isReceive : MessageOp → Bool
  | .receive => true
  | _ => false

/-- The queue after calls. -/
def MessageQueue.run (q : MessageQueue) (ops : List MessageOp) : MessageQueue :=
  ops.foldl (fun q op => (q.apply op).2) q

/-- The list after calls. -/
def BoundedFifo.run (l : List Message) (ops : List MessageOp) : List Message :=
  ops.foldl (fun l op => (apply l op).2) l

theorem MessageQueue.Rep.run {q : MessageQueue} {l : List Message} (h : q.Rep l)
    (ops : List MessageOp) : (q.run ops).Rep (BoundedFifo.run l ops) := by
  induction ops generalizing q l with
  | nil => exact h
  | cons op ops ih => exact ih (h.apply op).2

/-- What is sent goes behind the messages that are there. -/
theorem BoundedFifo.apply_append (l : List Message) {op : MessageOp}
    (h : op.isReceive = false) : ∃ added, (apply l op).2 = l ++ added := by
  have hsend : ∀ m, ∃ added, (send l m).2 = l ++ added := by
    intro m
    rw [send]
    split
    · exact ⟨[m], rfl⟩
    · exact ⟨[], (List.append_nil l).symm⟩
  cases op with
  | send m => exact hsend m
  | sendData sender msgType data =>
      rw [apply]
      split
      · exact ⟨[], (List.append_nil l).symm⟩
      · exact hsend _
  | receive => cases h

/-- A message comes to the front when the messages before it have been received. -/
theorem BoundedFifo.run_behind (ops : List MessageOp) (before after : List Message)
    (msg : Message) (h : ops.countP MessageOp.isReceive ≤ before.length) :
    ∃ after', run (before ++ msg :: after) ops =
      before.drop (ops.countP MessageOp.isReceive) ++ msg :: after' := by
  induction ops generalizing before after with
  | nil => exact ⟨after, rfl⟩
  | cons op ops ih =>
      cases hop : op.isReceive with
      | true =>
          rw [List.countP_cons_of_pos hop] at h ⊢
          obtain ⟨first, rest, rfl⟩ : ∃ first rest, before = first :: rest :=
            List.exists_cons_of_ne_nil (List.ne_nil_of_length_pos (by omega))
          rw [List.length_cons] at h
          obtain ⟨after', hrun⟩ := ih rest after (by omega)
          refine ⟨after', ?_⟩
          cases op with
          | receive => exact hrun
          | _ => cases hop
      | false =>
          rw [List.countP_cons_of_neg (by rw [hop]; decide)] at h ⊢
          obtain ⟨added, hadd⟩ := apply_append (before ++ msg :: after) hop
          rw [List.append_assoc, List.cons_append] at hadd
          obtain ⟨after', hrun⟩ := ih before (after ++ added) h
          refine ⟨after', ?_⟩
          rw [run, List.foldl_cons, hadd]
          exact hrun

/-! ### What is delivered -/

/-- **An accepted slice is delivered exactly if it has at most 48 bytes.**  In every reachable state
of a queue, when `send_data` has returned `Ok` for a slice, then after whatever calls follow, as
soon as they have received all messages that were queued before, the next `receive` returns the
message of the slice; it carries all of the slice, and zeros behind it, if and only if the slice has
at most 48 bytes. -/
theorem sendData_delivers_iff {tr : List (MessageOp × MessageResult)} {q q' : MessageQueue}
    (h : messageQueueSystem.Exec Runs.anyStep tr q) {sender : TaskId} {msgType : Usize}
    {data : List (BitVec 8)} (hsend : q.sendData sender msgType data = (.ok (), q'))
    {ops : List MessageOp} (hops : ops.countP MessageOp.isReceive = q.len.toNat) :
    ∃ msg, (q'.run ops).receive.1 = some msg ∧ msg.sender = sender ∧ msg.msgType = msgType ∧
      (msg.Carries data ↔ data.length ≤ Message.dataBytes) := by
  obtain ⟨l, -, hrep⟩ := messageQueueSystem_rep h
  have hmsg : q.send (MessageQueue.dataMessage sender msgType data) = (.ok (), q') := by
    rw [MessageQueue.sendData] at hsend
    split at hsend
    · cases hsend
    · exact hsend
  -- the queue had room, and the message is the last one
  have hrep' : q'.Rep (l ++ [MessageQueue.dataMessage sender msgType data]) := by
    rcases Nat.lt_or_ge l.length messageSlots with hroom | hfull
    · have hroom' := (hrep.send_room hroom (MessageQueue.dataMessage sender msgType data)).2
      rwa [hmsg] at hroom'
    · rw [hrep.send_full hfull] at hmsg
      cases hmsg
  have hlen : ops.countP MessageOp.isReceive = l.length := hops.trans hrep.count
  obtain ⟨after, hrun⟩ := BoundedFifo.run_behind ops l []
    (MessageQueue.dataMessage sender msgType data) hlen.le
  rw [hlen, List.drop_length, List.nil_append] at hrun
  have hfront := (hrep'.run ops).receive.1
  rw [hrun, List.head?_cons] at hfront
  exact ⟨_, hfront, rfl, rfl, MessageQueue.carries_dataMessage sender msgType data⟩

/-- Three bytes that are sent to a new queue arrive. -/
theorem sendData_delivers_three :
    ∃ msg,
      ((MessageQueue.new.sendData ⟨1#64⟩ 42#64 [1#8, 2#8, 3#8]).2.run []).receive.1 = some msg ∧
      msg.sender = ⟨1#64⟩ ∧ msg.msgType = 42#64 ∧
      (msg.Carries [1#8, 2#8, 3#8] ↔ [1#8, 2#8, 3#8].length ≤ Message.dataBytes) :=
  sendData_delivers_iff (.init rfl) rfl rfl

/-- Of 49 bytes, the last one does not arrive. -/
theorem sendData_truncates :
    let data := List.replicate 49 1#8
    let sent := MessageQueue.new.sendData ⟨1#64⟩ 42#64 data
    sent.1 = .ok () ∧
      sent.2.receive.1 = some (MessageQueue.dataMessage ⟨1#64⟩ 42#64 data) ∧
      ¬ (MessageQueue.dataMessage ⟨1#64⟩ 42#64 data).Carries data := by
  refine ⟨rfl, rfl, fun h => ?_⟩
  exact absurd (h.byte 48 (by decide)) (by decide)

end StarOS
