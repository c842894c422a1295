/-
Data frames of the serial channels over Bluetooth (`net/bluetooth/rfcomm.rs`), from
`rfcomm_send_data` to `rfcomm_recv_frame`.

A data frame passes the checks, and no single flipped bit in its address, its control byte or its
check sequence gets through: one step of the check sequence is injective, so that another byte gives
another value, and no frame type is one bit away from the one for data.  But data goes to the first
connected slot for its identifier, and a `SABM` takes another slot for an identifier that is in use:
if that slot comes first, its callback is called, or none.

* `StarOS.rfcommSendData` — the code that sends;
* `StarOS.rawFrame`, `StarOS.parseFrame_rawFrame` — frames of this form, and the checks on them;
* `StarOS.rfcommFcs_injective` — a check sequence that differs in one byte;
* `StarOS.RfcommState.recvFrame_flipBit` — a flipped bit calls no callback;
* `StarOS.RfcommState.Foremost` — the slot that comes first has the callback;
* `StarOS.rfcomm_data_round_trip_iff` — when a frame comes to the callback;
* `StarOS.rfcomm_data_shadowed` — a run after which it does not.
-/

import StarOS.Rfcomm
import StarOS.Slots

set_option autoImplicit false

namespace StarOS

/-! ### Sending -/

/-- `rfcomm_send_data`: what `l2cap_send` sends. -/
def rfcommSendData (l2cap : L2capState) (scid : BitVec 16) (dlci : BitVec 8)
    (data : List (BitVec 8)) : Except KernelError (List (BitVec 8)) :=
  if rfcommMaxFrame < data.length then .error (.invalidParameter "frame too large")
  else l2capSend l2cap scid (dataFrame dlci data)

/-- A frame with its length in one byte. -/
def rawFrame (addr ctrl : BitVec 8) (data : List (BitVec 8)) (fcs : BitVec 8) : List (BitVec 8) :=
  addr :: ctrl :: (((BitVec.ofNat 8 data.length) <<< 1) ||| 0x01#8) :: (data ++ [fcs])

theorem dataFrame_eq_rawFrame (dlci : BitVec 8) (data : List (BitVec 8)) :
    dataFrame dlci data = rawFrame ((dlci <<< 2) ||| 0x01#8) (FrameType.uih ||| 0x10#8) data
      (rfcommFcs [(dlci <<< 2) ||| 0x01#8, FrameType.uih ||| 0x10#8]) := rfl

/-- The checks on a frame with its length in one byte. -/
theorem parseFrame_rawFrame (addr ctrl : BitVec 8) {data : List (BitVec 8)} (fcs : BitVec 8)
    (hlen : data.length ≤ rfcommMaxFrame) :
    parseFrame (rawFrame addr ctrl data fcs) =
      if 61#8 < addr >>> 2 then none
      else if fcs ≠ (if ctrl &&& 0xEF#8 = FrameType.uih then rfcommFcs [addr, ctrl]
        else rfcommFcs [addr, ctrl, ((BitVec.ofNat 8 data.length) <<< 1) ||| 0x01#8]) then none
      else some ⟨addr >>> 2, (addr >>> 1) &&& 0x01#8, ctrl &&& 0xEF#8, data⟩ := by
  obtain ⟨hbit, hcount⟩ := length_shiftRight hlen
  have hlong : (rawFrame addr ctrl data fcs).length = data.length + 4 := by simp [rawFrame]
  have hlast : (data ++ [fcs]).getD data.length 0#8 = fcs := by simp
  rw [parseFrame, hlong, if_neg (by omega)]
  simp only [rawFrame, List.getD_cons_zero, List.getD_cons_succ, if_pos hbit, hcount,
    Nat.add_comm 3, hlast, List.take_succ_cons, List.take_zero, List.drop_succ_cons,
    List.drop_zero]
  rw [if_neg (show ¬ data.length + 4 < data.length + 3 + 1 by omega), List.take_left]

/-! ### The check sequence -/

theorem fcsStep_injective {v w : BitVec 8} (h : fcsStep v = fcsStep w) : v = w := by
  -- the bit that is shifted out is the highest one of the result
  have hinverse : ∀ v : BitVec 8, (if (fcsStep v).msb then
      ((fcsStep v ^^^ 0xE0#8) <<< 1) ||| 0x01#8 else fcsStep v <<< 1) = v := by decide +kernel
  rw [← hinverse v, h, hinverse w]

theorem fcsTable_injective {v w : BitVec 8} (h : fcsTable v = fcsTable w) : v = w := by
  have hiter : ∀ n, ∀ v w : BitVec 8, fcsStep^[n] v = fcsStep^[n] w → v = w := by
    intro n
    induction n with
    | zero => exact fun _ _ h => h
    | succ n ih =>
        intro v w h
        rw [Function.iterate_succ_apply, Function.iterate_succ_apply] at h
        exact fcsStep_injective (ih _ _ h)
  exact hiter 8 v w h

/-- Of two bytes, one other byte gives another check sequence. -/
theorem rfcommFcs_injective {a a' c c' : BitVec 8} (h : rfcommFcs [a, c] = rfcommFcs [a', c']) :
    a = a' ↔ c = c' := by
  have hcancel : ∀ x y z : BitVec 8, x ^^^ y = x ^^^ z → y = z := fun x y z hxy => by
    have := congrArg (x ^^^ ·) hxy
    simpa only [← BitVec.xor_assoc, BitVec.xor_self, BitVec.zero_xor] using this
  have hnot := congrArg (~~~ ·) h
  simp only [rfcommFcs, BitVec.not_not, List.foldl_cons, List.foldl_nil] at hnot
  have hlast := fcsTable_injective hnot
  constructor
  · rintro rfl
    exact hcancel _ _ _ hlast
  · rintro rfl
    have hfirst : fcsTable (0xFF#8 ^^^ a) = fcsTable (0xFF#8 ^^^ a') := by
      rw [BitVec.xor_comm _ c, BitVec.xor_comm _ c] at hlast
      exact hcancel _ _ _ hlast
    exact hcancel _ _ _ (fcsTable_injective hfirst)

/-! ### Flipped bits -/

/-- The bytes with bit `b` of byte `k` flipped. -/
def flipBit (frame : List (BitVec 8)) (k b : ℕ) : List (BitVec 8) :=
  frame.modify k fun x => x ^^^ (1#8 <<< b)

theorem modify_append_singleton {α : Type} (l : List α) (x : α) (g : α → α) :
    (l ++ [x]).modify l.length g = l ++ [g x] := by
  induction l with
  | nil => rfl
  | cons y l ih => exact congrArg (y :: ·) ih

theorem xor_bit_ne (x : BitVec 8) {b : ℕ} (hb : b < 8) : x ^^^ (1#8 <<< b) ≠ x := by
  have hne : ∀ b < 8, 1#8 <<< b ≠ 0#8 := by decide
  intro h
  have := congrArg (x ^^^ ·) h
  simp only [← BitVec.xor_assoc, BitVec.xor_self, BitVec.zero_xor] at this
  exact hne b hb this

/-- A data frame with a flipped bit in its address, its control byte or its check sequence does not
pass the checks as data. -/
theorem parseFrame_flipBit (dlci : BitVec 8) {data : List (BitVec 8)}
    (hlen : data.length ≤ rfcommMaxFrame) {k b : ℕ} (hb : b < 8)
    (hk : k = 0 ∨ k = 1 ∨ k + 1 = (dataFrame dlci data).length) {f : RfcommFrame}
    (hf : parseFrame (flipBit (dataFrame dlci data) k b) = some f) :
    f.frameType ≠ FrameType.uih := by
  have hlong : (dataFrame dlci data).length = data.length + 4 := by simp [dataFrame]
  have hkeep : (FrameType.uih ||| 0x10#8) &&& 0xEF#8 = FrameType.uih := by decide
  rw [hlong] at hk
  rw [dataFrame_eq_rawFrame] at hf
  generalize haddr : (dlci <<< 2) ||| 0x01#8 = addr at hf
  rcases hk with rfl | rfl | hk
  · -- the check sequence is that of the other address
    change parseFrame (rawFrame (addr ^^^ (1#8 <<< b)) _ data _) = some f at hf
    rw [parseFrame_rawFrame _ _ _ hlen, if_pos hkeep] at hf
    split at hf
    · cases hf
    · rw [if_pos fun h => xor_bit_ne addr hb ((rfcommFcs_injective h).2 rfl).symm] at hf
      cases hf
  · change parseFrame (rawFrame addr ((FrameType.uih ||| 0x10#8) ^^^ (1#8 <<< b)) data _) =
      some f at hf
    rw [parseFrame_rawFrame _ _ _ hlen] at hf
    split at hf
    · cases hf
    · by_cases htype : ((FrameType.uih ||| 0x10#8) ^^^ (1#8 <<< b)) &&& 0xEF#8 = FrameType.uih
      · rw [if_pos htype, if_pos fun h => xor_bit_ne (FrameType.uih ||| 0x10#8) hb
          ((rfcommFcs_injective h).1 rfl).symm] at hf
        cases hf
      · rw [if_neg htype] at hf
        split at hf
        · cases hf
        · obtain rfl := Option.some.inj hf
          exact htype
  · have hmodify : flipBit (rawFrame addr (FrameType.uih ||| 0x10#8) data
        (rfcommFcs [addr, FrameType.uih ||| 0x10#8])) k b =
        rawFrame addr (FrameType.uih ||| 0x10#8) data
          (rfcommFcs [addr, FrameType.uih ||| 0x10#8] ^^^ (1#8 <<< b)) := by
      obtain rfl : k = data.length + 3 := by omega
      rw [flipBit, rawFrame, List.modify_succ_cons, List.modify_succ_cons, List.modify_succ_cons,
        modify_append_singleton]
      rfl
    rw [hmodify, parseFrame_rawFrame _ _ _ hlen, if_pos hkeep] at hf
    split at hf
    · cases hf
    · rw [if_pos (xor_bit_ne _ hb)] at hf
      cases hf

namespace RfcommState

variable (st : RfcommState) (scid : BitVec 16)

/-- A data frame with a flipped bit calls no callback. -/
theorem recvFrame_flipBit (dlci : BitVec 8) {data : List (BitVec 8)}
    (hlen : data.length ≤ rfcommMaxFrame) {k b : ℕ} (hb : b < 8)
    (hk : k = 0 ∨ k = 1 ∨ k + 1 = (dataFrame dlci data).length) :
    (st.recvFrame scid (flipBit (dataFrame dlci data) k b)).2 = none := by
  rw [recvFrame]
  cases hf : parseFrame (flipBit (dataFrame dlci data) k b) with
  | none => rfl
  | some f =>
      dsimp only
      rw [recv_snd, if_neg fun htype => parseFrame_flipBit dlci hlen hb hk hf htype.1]

/-! ### The callback -/

/-- In the first session of a channel, the first connected slot for an identifier has a callback. -/
def Foremost (dlci : BitVec 8) (cb : ℕ) : Prop :=
  ∃ i j, ((st.sessions i).valid = true ∧ (st.sessions i).scid = scid ∧
      ∀ i' < i, ¬ ((st.sessions i').valid = true ∧ (st.sessions i').scid = scid)) ∧
    (((st.sessions i).dlcs j).valid = true ∧ ((st.sessions i).dlcs j).dlci = dlci ∧
      ((st.sessions i).dlcs j).state = .connected ∧
      ∀ j' < j, ¬ (((st.sessions i).dlcs j').valid = true ∧
        ((st.sessions i).dlcs j').dlci = dlci ∧ ((st.sessions i).dlcs j').state = .connected)) ∧
    ((st.sessions i).dlcs j).rxCb = some cb

/-- Data goes to the slot that comes first. -/
theorem recvData_iff_foremost {dlci : BitVec 8} {cb : ℕ} (data : List (BitVec 8)) :
    (∃ call, st.recvData scid dlci data = some call ∧ call.callback = cb ∧ call.dlci = dlci ∧
      call.data = data) ↔ st.Foremost scid dlci cb := by
  have hsession : ∀ i, st.findSession scid = some i ↔
      ((st.sessions i).valid = true ∧ (st.sessions i).scid = scid) ∧
        ∀ i' < i, ¬ ((st.sessions i').valid = true ∧ (st.sessions i').scid = scid) := by
    intro i
    refine Slots.first_eq_some_iff.trans (and_congr ?_ (forall₂_congr fun i' _ => ?_))
    · rw [Bool.and_eq_true, beq_iff_eq]
    · rw [← Bool.not_eq_true, Bool.and_eq_true, beq_iff_eq]
  have hslot : ∀ (sess : RfcommSession) j, sess.findConnected dlci = some j ↔
      ((sess.dlcs j).valid = true ∧ (sess.dlcs j).dlci = dlci ∧
        (sess.dlcs j).state = .connected) ∧
        ∀ j' < j, ¬ ((sess.dlcs j').valid = true ∧ (sess.dlcs j').dlci = dlci ∧
          (sess.dlcs j').state = .connected) := by
    intro sess j
    refine Slots.first_eq_some_iff.trans (and_congr ?_ (forall₂_congr fun j' _ => ?_))
    · rw [Bool.and_eq_true, Bool.and_eq_true, beq_iff_eq, beq_iff_eq, and_assoc]
    · rw [← Bool.not_eq_true, Bool.and_eq_true, Bool.and_eq_true, beq_iff_eq, beq_iff_eq,
        and_assoc]
  constructor
  · rintro ⟨call, hcall, hcb, -, -⟩
    obtain ⟨i, j, cb', hi, hj, hcb', rfl⟩ := mem_recvData.1 hcall
    obtain ⟨⟨hvalid, hscid⟩, hbefore⟩ := (hsession i).1 hi
    obtain ⟨⟨hdvalid, hdlci, hstate⟩, hdbefore⟩ := (hslot _ j).1 hj
    exact ⟨i, j, ⟨hvalid, hscid, hbefore⟩, ⟨hdvalid, hdlci, hstate, hdbefore⟩, hcb ▸ hcb'⟩
  · rintro ⟨i, j, ⟨hvalid, hscid, hbefore⟩, ⟨hdvalid, hdlci, hstate, hdbefore⟩, hcb⟩
    exact ⟨⟨i, j, cb, dlci, data⟩, mem_recvData.2 ⟨i, j, cb,
      (hsession i).2 ⟨⟨hvalid, hscid⟩, hbefore⟩,
      (hslot _ j).2 ⟨⟨hdvalid, hdlci, hstate⟩, hdbefore⟩, hcb, rfl⟩, rfl, rfl, rfl⟩

end RfcommState

/-! ### The law -/

/-- The law for data that is sent: the frame that goes out is the data frame, it passes the checks,
it calls the callback with the data, and with a flipped bit in its address, its control byte or its
check sequence it calls none, whatever the state. -/
structure RfcommRoundTrip (st : RfcommState) (scid : BitVec 16) (dlci : BitVec 8) (cb : ℕ)
    (data : List (BitVec 8)) : Prop where
  sent : ∀ l2cap, rfcommSendData l2cap scid dlci data = l2capSend l2cap scid (dataFrame dlci data)
  accepted : ∃ cr, parseFrame (dataFrame dlci data) = some ⟨dlci, cr, FrameType.uih, data⟩
  delivered : ∃ call, (st.recvFrame scid (dataFrame dlci data)).2 = some call ∧
    call.callback = cb ∧ call.dlci = dlci ∧ call.data = data
  flipped : ∀ k b, b < 8 → k = 0 ∨ k = 1 ∨ k + 1 = (dataFrame dlci data).length →
    ∀ (st' : RfcommState) (scid' : BitVec 16),
      (st'.recvFrame scid' (flipBit (dataFrame dlci data) k b)).2 = none

/-- For a connected slot with a callback, and data that fits, the law holds exactly if the first
connected slot for the identifier, in the first session of the channel, has the callback. -/
theorem rfcomm_data_round_trip_iff (st : RfcommState) (i : Fin maxRfcommSessions)
    (j : Fin maxRfcommDlc) (cb : ℕ) (data : List (BitVec 8))
    (_hsession : (st.sessions i).valid = true)
    (_hdlc : ((st.sessions i).dlcs j).valid = true ∧
      ((st.sessions i).dlcs j).state = .connected ∧ ((st.sessions i).dlcs j).rxCb = some cb)
    (hdlci : 1#8 ≤ ((st.sessions i).dlcs j).dlci ∧ ((st.sessions i).dlcs j).dlci ≤ 61#8)
    (hlen : data.length ≤ rfcommMaxFrame) :
    RfcommRoundTrip st (st.sessions i).scid ((st.sessions i).dlcs j).dlci cb data ↔
      st.Foremost (st.sessions i).scid ((st.sessions i).dlcs j).dlci cb := by
  generalize (st.sessions i).scid = scid
  generalize ((st.sessions i).dlcs j).dlci = dlci at hdlci
  have hle : ¬ 61#8 < dlci := BitVec.not_lt.2 hdlci.2
  have hne : dlci ≠ 0#8 := by
    rintro rfl
    exact absurd hdlci.1 (by decide)
  obtain ⟨cr, hparse⟩ := parseFrame_dataFrame hle hlen
  have hrecv : (st.recvFrame scid (dataFrame dlci data)).2 = st.recvData scid dlci data := by
    rw [RfcommState.recvFrame, hparse]
    dsimp only
    rw [RfcommState.recv_snd, if_pos ⟨rfl, hne⟩]
  rw [← st.recvData_iff_foremost scid data, ← hrecv]
  constructor
  · exact RfcommRoundTrip.delivered
  · intro hdelivered
    exact ⟨fun l2cap => if_neg (Nat.not_lt_of_le hlen), ⟨cr, hparse⟩, hdelivered,
      fun k b hb hk st' scid' => st'.recvFrame_flipBit scid' dlci hlen hb hk⟩

namespace RfcommRun

/-- A connection of a session is opened and acknowledged. -/
def connectedCalls : List RfcommCall :=
  openedCalls ++ [.dlcOpen openChannel 0x40#16 1#8 7, .recvFrame 0x40#16 (uaFrame 2#8)]

/-- The slot before the one of the connection is freed by a `DISC`, and taken again by a `SABM`. -/
def shadowedCalls : List RfcommCall :=
  openedCalls ++ [.recvFrame 0x40#16 (sabmFrame 2#8), .dlcOpen openChannel 0x40#16 1#8 7,
    .recvFrame 0x40#16 (shortFrame FrameType.disc 2#8), .recvFrame 0x40#16 (uaFrame 2#8),
    .recvFrame 0x40#16 (sabmFrame 2#8)]

end RfcommRun

theorem rfcomm_data_round_trip_connected :
    RfcommRoundTrip (RfcommRun.connectedCalls.foldl RfcommRun.next .new).st 0x40#16 2#8 7
      [1#8, 2#8] := by
  have hscid : ((RfcommRun.connectedCalls.foldl RfcommRun.next .new).st.sessions
      ⟨0, by decide⟩).scid = 0x40#16 := by decide +kernel
  have hdlci : (((RfcommRun.connectedCalls.foldl RfcommRun.next .new).st.sessions
      ⟨0, by decide⟩).dlcs ⟨0, by decide⟩).dlci = 2#8 := by decide +kernel
  have hiff := rfcomm_data_round_trip_iff (RfcommRun.connectedCalls.foldl RfcommRun.next .new).st
    ⟨0, by decide⟩ ⟨0, by decide⟩ 7 [1#8, 2#8] (by decide +kernel) (by decide +kernel)
    (by rw [hdlci]; decide) (by decide)
  rw [hscid, hdlci] at hiff
  exact hiff.2 ⟨⟨0, by decide⟩, ⟨0, by decide⟩, by decide +kernel, by decide +kernel,
    by decide +kernel⟩

/-- The data comes to the slot that the `SABM` has taken, which has no callback. -/
theorem rfcomm_data_shadowed :
    ((RfcommRun.shadowedCalls.foldl RfcommRun.next .new).st.sessions ⟨0, by decide⟩).dlcs
        ⟨1, by decide⟩ =
      { RfcommDlc.empty with
        dlci := 2#8, scid := 0x40#16, state := .connected, rxCb := some 7, valid := true } ∧
    ¬ RfcommRoundTrip (RfcommRun.shadowedCalls.foldl RfcommRun.next .new).st 0x40#16 2#8 7
      [1#8] := by
  refine ⟨by decide +kernel, fun h => ?_⟩
  obtain ⟨call, hcall, -⟩ := h.delivered
  have hnone : ((RfcommRun.shadowedCalls.foldl RfcommRun.next .new).st.recvFrame 0x40#16
      (dataFrame 2#8 [1#8])).2 = none := by decide +kernel
  rw [hnone] at hcall
  cases hcall

end StarOS
