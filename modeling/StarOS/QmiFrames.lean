/-
Frames of the modem's protocol (`qmi_encode_tlv` and `qmi_decode_tlv` in `drivers/wwan/qmi.rs`).

A message carries at most 16 fields of at most 64 bytes.  The encoder writes its fields into an area
of 512 bytes, and refuses the message if they do not fit.  The decoder takes any frame: it reads the
transaction id of a control frame without looking whether it is there, and a field that the message
cannot hold, and up to two bytes behind the last field, are dropped without an error.

* `StarOS.QmiMsg`, `StarOS.QmiMsg.addTlv`, `StarOS.qmiEncodeTlv`, `StarOS.qmiDecodeTlv` — the code;
  a panic is `none`;
* `StarOS.QmiHeader`, `StarOS.RawTlv`, `StarOS.qmiFrame` — the layout of frames;
* `StarOS.qmiEncodeTlv_spec` — the encoder writes the frame of the message;
* `StarOS.decodeTlvs_raw`, `StarOS.decodeTlvs_cases` — what the decoder's loop does;
* `StarOS.qmi_round_trip` — what was encoded is decoded;
* `StarOS.qmi_decode_faithful_iff` — when a frame is decoded without a panic or a loss.
-/

import StarOS.BigEndian
import StarOS.Buf
import StarOS.ByteFields
import StarOS.Error
import StarOS.QmiClients

set_option autoImplicit false

namespace StarOS

/-! ### Messages -/

/-- `QMI_CTL`. -/
def qmiCtl : BitVec 8 := 0x00#8

/-- `QMI_MAX_TLV_LEN`. -/
def qmiMaxTlvLen : ℕ := 512

/-- `QMI_MAX_TLVS`. -/
def qmiMaxTlvs : ℕ := 16

/-- `QMI_MAX_FRAME_LEN`. -/
def qmiMaxFrameLen : ℕ := 600

/-- `QmiTlv`, with the cells of `data` up to `len`; the others are not read. -/
structure QmiTlv where
  tlvType : BitVec 8
  payload : List (BitVec 8)
  length_payload : payload.length ≤ 64
  deriving DecidableEq

/-- The field `len`. -/
def QmiTlv.len (t : QmiTlv) : BitVec 16 := BitVec.ofNat 16 t.payload.length

/-- `QmiMsg`, with the cells of `tlvs` up to `tlv_count`; the others are not read. -/
@[ext] structure QmiMsg where
  svcId : BitVec 8
  clientId : BitVec 8
  ctrlFlags : BitVec 8
  txnId : BitVec 16
  msgId : BitVec 16
  tlvs : List QmiTlv
  length_tlvs : tlvs.length ≤ qmiMaxTlvs
  deriving DecidableEq

namespace QmiMsg

/-- `QmiMsg::new`. -/
def new (svcId clientId : BitVec 8) (msgId : BitVec 16) : QmiMsg :=
  ⟨svcId, clientId, 0#8, 0#16, msgId, [], Nat.zero_le _⟩

/-- `QmiMsg::add_tlv`. -/
def addTlv (msg : QmiMsg) (tlvType : BitVec 8) (data : List (BitVec 8)) :
    Except QmiError Unit × QmiMsg :=
  if hcount : msg.tlvs.length ≥ qmiMaxTlvs then (.error .noMemory, msg)
  else if hlen : data.length > 64 then (.error .argTooLong, msg)
  else
    (.ok (), { msg with
      tlvs := msg.tlvs ++ [⟨tlvType, data, Nat.not_lt.1 hlen⟩]
      length_tlvs := by
        rw [List.length_append, List.length_singleton]
        exact Nat.not_le.1 hcount })

end QmiMsg

/-- The two arguments of a call of `add_tlv`; a field of any size. -/
structure RawTlv where
  tlvType : BitVec 8
  payload : List (BitVec 8)
  deriving DecidableEq

/-- A message after a call of `add_tlv`, whatever it returned. -/
def QmiMsg.addRaw (msg : QmiMsg) (t : RawTlv) : QmiMsg := (msg.addTlv t.tlvType t.payload).2

/-! ### The encoder -/

/-- The transaction id, of one byte for the control service and of two for the others. -/
def txnBytes (svcId : BitVec 8) (txnId : BitVec 16) : List (BitVec 8) :=
  if svcId = qmiCtl then [txnId.extractLsb' 0 8] else leBytes16 txnId

/-- The loop of `qmi_encode_tlv`, with the area and the position in it. -/
def encodeTlvs : List QmiTlv → List (BitVec 8) × ℕ →
    Option (Except KernelError (List (BitVec 8) × ℕ))
  | [], area => some (.ok area)
  | t :: tlvs, area =>
      if 3 + t.len.toNat > qmiMaxTlvLen - area.2 then some (.error (.invalidParameter ""))
      else
        (Buf.putAll area [[t.tlvType], leBytes16 t.len, t.payload]).bind fun area =>
          encodeTlvs tlvs area

/-- The second half of `qmi_encode_tlv`: the frame is written. -/
def writeFrame (msg : QmiMsg) (area : List (BitVec 8) × ℕ) (buf : List (BitVec 8)) (frameLen : ℕ) :
    Option (List (BitVec 8) × ℕ) :=
  (Buf.slice area.1 area.2).bind fun tlvs =>
    Buf.putAll (buf, 0)
      [[0x01#8], leBytes16 (BitVec.ofNat 16 (frameLen - 1)), [0x00#8], [msg.svcId], [msg.clientId],
        [0x00#8], txnBytes msg.svcId msg.txnId, leBytes16 msg.msgId,
        leBytes16 (BitVec.ofNat 16 area.2), tlvs]

/-- What `qmi_encode_tlv` returns, with the counter, the message and the buffer that it leaves. -/
structure QmiEncoded where
  nextTxn : BitVec 16
  msg : QmiMsg
  buf : List (BitVec 8)
  result : Except KernelError ℕ

/-- `qmi_encode_tlv`. -/
def qmiEncodeTlv (nextTxn : BitVec 16) (msg : QmiMsg) (buf : Vector (BitVec 8) qmiMaxFrameLen) :
    Option QmiEncoded :=
  let msg := { msg with txnId := nextTxn }
  let nextTxn := nextTxn + 1#16
  (encodeTlvs msg.tlvs (List.replicate qmiMaxTlvLen 0#8, 0)).bind fun res =>
    match res with
    | .error e => some ⟨nextTxn, msg, buf.toList, .error e⟩
    | .ok area =>
        let txnLen := if msg.svcId = qmiCtl then 1 else 2
        let sduLen := 1 + txnLen + 2 + 2 + area.2
        let frameLen := 1 + 2 + 1 + 1 + 1 + sduLen
        if frameLen > qmiMaxFrameLen then
          some ⟨nextTxn, msg, buf.toList, .error (.invalidParameter "")⟩
        else (writeFrame msg area buf.toList frameLen).map fun out =>
          ⟨nextTxn, msg, out.1, .ok out.2⟩

/-! ### The decoder -/

/-- The loop of `qmi_decode_tlv`, from a position to the end of the area. -/
def decodeTlvs (raw : List (BitVec 8)) (fin pos : ℕ) (msg : QmiMsg) :
    Option (Except KernelError QmiMsg) :=
  if pos + 3 ≤ fin then
    raw[pos]?.bind fun tType => (le16At raw (pos + 1)).bind fun tLen =>
      if tLen.toNat > fin - (pos + 3) then some (.error (.invalidParameter ""))
      else (byteSlice raw (pos + 3) (pos + 3 + tLen.toNat)).bind fun data =>
        -- a field that the message refuses is dropped
        decodeTlvs raw fin (pos + 3 + tLen.toNat) (msg.addTlv tType data).2
  else some (.ok msg)
termination_by fin - pos

/-- `qmi_decode_tlv`, from the message id on. -/
def decodeSdu (raw : List (BitVec 8)) (msg : QmiMsg) (sduOff : ℕ) :
    Option (Except KernelError QmiMsg) :=
  if raw.length < sduOff + 4 then some (.error (.invalidParameter ""))
  else
    (le16At raw sduOff).bind fun msgId => (le16At raw (sduOff + 2)).bind fun tlvLen =>
      let tlvPos := sduOff + 4
      if tlvPos + tlvLen.toNat > raw.length then some (.error (.invalidParameter ""))
      else decodeTlvs raw (tlvPos + tlvLen.toNat) tlvPos { msg with msgId := msgId }

/-- `qmi_decode_tlv`. -/
def qmiDecodeTlv (raw : List (BitVec 8)) : Option (Except KernelError QmiMsg) :=
  if raw.length < 7 then some (.error (.invalidParameter ""))
  else
    raw[0]?.bind fun ifType =>
      if ifType ≠ 0x01#8 then some (.error (.invalidParameter ""))
      else
        raw[4]?.bind fun svcId => raw[5]?.bind fun clientId => raw[6]?.bind fun ctrlFlags =>
          let msg := fun txnId : BitVec 16 =>
            { QmiMsg.new svcId clientId 0#16 with ctrlFlags := ctrlFlags, txnId := txnId }
          if svcId = qmiCtl then
            -- not known to be there
            raw[7]?.bind fun txn => decodeSdu raw (msg (txn.setWidth 16)) 8
          else if raw.length < 9 then some (.error (.invalidParameter ""))
          else (le16At raw 7).bind fun txnId => decodeSdu raw (msg txnId) 9

/-! ### Frames -/

/-- The bytes of a field. -/
def RawTlv.bytes (t : RawTlv) : List (BitVec 8) :=
  t.tlvType :: (leBytes16 (BitVec.ofNat 16 t.payload.length) ++ t.payload)

/-- The bytes of fields, one after another. -/
def rawBytes (tlvs : List RawTlv) : List (BitVec 8) := tlvs.flatMap RawTlv.bytes

/-- A field of a message, as a field of any size. -/
def QmiTlv.raw (t : QmiTlv) : RawTlv := ⟨t.tlvType, t.payload⟩

/-- The bytes of the fields of a message. -/
def QmiMsg.tlvBytes (msg : QmiMsg) : List (BitVec 8) := rawBytes (msg.tlvs.map QmiTlv.raw)

/-- What is in front of the fields of a frame. -/
structure QmiHeader where
  len : BitVec 16
  flags : BitVec 8
  svcId : BitVec 8
  clientId : BitVec 8
  ctrlFlags : BitVec 8
  txnId : BitVec 16
  msgId : BitVec 16
  tlvLen : BitVec 16

/-- The bytes of a header. -/
def QmiHeader.bytes (h : QmiHeader) : List (BitVec 8) :=
  0x01#8 :: (leBytes16 h.len ++ (h.flags :: h.svcId :: h.clientId :: h.ctrlFlags ::
    (txnBytes h.svcId h.txnId ++ (leBytes16 h.msgId ++ leBytes16 h.tlvLen))))

/-- The header of a message. -/
def QmiMsg.header (msg : QmiMsg) (len : BitVec 16) (flags : BitVec 8) : QmiHeader :=
  ⟨len, flags, msg.svcId, msg.clientId, msg.ctrlFlags, msg.txnId, msg.msgId,
    BitVec.ofNat 16 msg.tlvBytes.length⟩

/-- The frame of a message. -/
def qmiFrame (len : BitVec 16) (flags : BitVec 8) (msg : QmiMsg) : List (BitVec 8) :=
  (msg.header len flags).bytes ++ msg.tlvBytes

/-! ### Fields -/

variable {tlvs : List RawTlv}

theorem RawTlv.length_bytes (t : RawTlv) : t.bytes.length = 3 + t.payload.length := by
  rw [RawTlv.bytes, List.length_cons, List.length_append, leBytes16_length]
  omega

theorem rawBytes_cons (t : RawTlv) (tlvs : List RawTlv) :
    rawBytes (t :: tlvs) = t.bytes ++ rawBytes tlvs := List.flatMap_cons

theorem length_rawBytes_cons (t : RawTlv) (tlvs : List RawTlv) :
    (rawBytes (t :: tlvs)).length = 3 + t.payload.length + (rawBytes tlvs).length := by
  rw [rawBytes_cons, List.length_append, RawTlv.length_bytes]

/-- Fewer fields have fewer bytes. -/
theorem length_rawBytes_of_sublist {kept : List RawTlv} (h : kept.Sublist tlvs) :
    (rawBytes kept).length ≤ (rawBytes tlvs).length ∧
      ((rawBytes kept).length = (rawBytes tlvs).length → kept = tlvs) := by
  induction h with
  | slnil => exact ⟨Nat.le_refl _, fun _ => rfl⟩
  | cons t _ ih =>
      rw [length_rawBytes_cons]
      exact ⟨by omega, fun heq => by omega⟩
  | cons_cons t _ ih =>
      rw [length_rawBytes_cons, length_rawBytes_cons]
      exact ⟨by omega, fun heq => by rw [ih.2 (by omega)]⟩

theorem QmiTlv.raw_injective : Function.Injective QmiTlv.raw := by
  rintro ⟨tType, data, hdata⟩ ⟨tType', data', hdata'⟩ h
  cases h
  rfl

theorem QmiTlv.toNat_len (t : QmiTlv) : t.len.toNat = t.payload.length := by
  have hlen := t.length_payload
  rw [QmiTlv.len, BitVec.toNat_ofNat, Nat.mod_eq_of_lt (by omega)]

/-- The fields of a message have at most 16 times 67 bytes. -/
theorem QmiMsg.length_tlvBytes (msg : QmiMsg) : msg.tlvBytes.length ≤ 16 * 67 := by
  have hall : ∀ l : List QmiTlv, (rawBytes (l.map QmiTlv.raw)).length ≤ l.length * 67 := by
    intro l
    induction l with
    | nil => exact Nat.le_refl _
    | cons t l ih =>
        have hlen : t.raw.payload.length ≤ 64 := t.length_payload
        rw [List.map_cons, length_rawBytes_cons, List.length_cons]
        omega
  exact (hall msg.tlvs).trans (Nat.mul_le_mul_right 67 msg.length_tlvs)

/-! ### Adding fields -/

/-- A call of `add_tlv` changes no other field of the message. -/
theorem QmiMsg.addRaw_header (msg : QmiMsg) (t : RawTlv) :
    (msg.addRaw t).svcId = msg.svcId ∧ (msg.addRaw t).clientId = msg.clientId ∧
      (msg.addRaw t).ctrlFlags = msg.ctrlFlags ∧ (msg.addRaw t).txnId = msg.txnId ∧
        (msg.addRaw t).msgId = msg.msgId := by
  rw [addRaw, addTlv]
  split
  · exact ⟨rfl, rfl, rfl, rfl, rfl⟩
  split <;> exact ⟨rfl, rfl, rfl, rfl, rfl⟩

theorem QmiMsg.foldl_addRaw_header (tlvs : List RawTlv) (msg : QmiMsg) :
    (tlvs.foldl QmiMsg.addRaw msg).svcId = msg.svcId ∧
      (tlvs.foldl QmiMsg.addRaw msg).clientId = msg.clientId ∧
      (tlvs.foldl QmiMsg.addRaw msg).ctrlFlags = msg.ctrlFlags ∧
      (tlvs.foldl QmiMsg.addRaw msg).txnId = msg.txnId ∧
      (tlvs.foldl QmiMsg.addRaw msg).msgId = msg.msgId := by
  induction tlvs generalizing msg with
  | nil => exact ⟨rfl, rfl, rfl, rfl, rfl⟩
  | cons t tlvs ih =>
      obtain ⟨hsvc, hclient, hctrl, htxn, hid⟩ := ih (msg.addRaw t)
      obtain ⟨hsvc', hclient', hctrl', htxn', hid'⟩ := msg.addRaw_header t
      exact ⟨hsvc.trans hsvc', hclient.trans hclient', hctrl.trans hctrl', htxn.trans htxn',
        hid.trans hid'⟩

/-- The fields after some calls of `add_tlv`: those that are not too long, as long as there is
room. -/
theorem QmiMsg.foldl_addRaw_tlvs (tlvs : List RawTlv) (msg : QmiMsg) :
    (tlvs.foldl QmiMsg.addRaw msg).tlvs.map QmiTlv.raw = msg.tlvs.map QmiTlv.raw ++
      (tlvs.filter fun t => t.payload.length ≤ 64).take (qmiMaxTlvs - msg.tlvs.length) := by
  induction tlvs generalizing msg with
  | nil => rw [List.filter_nil, List.take_nil, List.append_nil]; rfl
  | cons t tlvs ih =>
      rw [List.foldl_cons, ih, addRaw, addTlv]
      split
      · rename_i hcount
        rw [Nat.sub_eq_zero_of_le hcount, List.take_zero, List.take_zero]
      · rename_i hcount
        split
        · rename_i hlen
          rw [List.filter_cons_of_neg (by simpa using hlen)]
        · rename_i hlen
          have hroom : qmiMaxTlvs - msg.tlvs.length = qmiMaxTlvs - (msg.tlvs.length + 1) + 1 := by
            omega
          rw [List.filter_cons_of_pos (by simpa using hlen), hroom, List.take_succ_cons]
          simp [QmiTlv.raw]

/-! ### What the encoder writes -/

section Area

variable {area : List (BitVec 8) × ℕ} {front : List (BitVec 8)} {room : ℕ}

/-- A field that fits is written behind the others. -/
theorem encodeTlvs_cons (t : QmiTlv) (tlvs : List QmiTlv) (harea : Buf.Filled area front room)
    (hlen : front.length + room = qmiMaxTlvLen) (hroom : t.raw.bytes.length ≤ room) :
    ∃ area', encodeTlvs (t :: tlvs) area = encodeTlvs tlvs area' ∧
      Buf.Filled area' (front ++ t.raw.bytes) (room - t.raw.bytes.length) := by
  have hpieces : [[t.tlvType], leBytes16 t.len, t.payload].flatten = t.raw.bytes := by
    rw [List.flatten_cons, List.flatten_cons, List.flatten_cons, List.flatten_nil,
      List.append_nil]
    rfl
  obtain ⟨area', hput, h⟩ := harea.putAll [[t.tlvType], leBytes16 t.len, t.payload]
    (by rwa [hpieces])
  rw [hpieces] at h
  have hbytes : t.raw.bytes.length = 3 + t.payload.length := t.raw.length_bytes
  refine ⟨area', ?_, h⟩
  rw [encodeTlvs, QmiTlv.toNat_len, harea.1, if_neg (by omega), hput, Option.bind_some]

/-- The fields fit into the area. -/
theorem encodeTlvs_of_le (tlvs : List QmiTlv) (harea : Buf.Filled area front room)
    (hlen : front.length + room = qmiMaxTlvLen)
    (hroom : (rawBytes (tlvs.map QmiTlv.raw)).length ≤ room) :
    ∃ area' room', encodeTlvs tlvs area = some (.ok area') ∧
      Buf.Filled area' (front ++ rawBytes (tlvs.map QmiTlv.raw)) room' := by
  induction tlvs generalizing area front room with
  | nil =>
      refine ⟨area, room, rfl, ?_⟩
      rwa [List.map_nil, rawBytes, List.flatMap_nil, List.append_nil]
  | cons t tlvs ih =>
      rw [List.map_cons, rawBytes_cons, List.length_append] at hroom
      obtain ⟨area₁, hstep, h₁⟩ := encodeTlvs_cons t tlvs harea hlen (by omega)
      obtain ⟨area', room', hloop, hfilled⟩ := ih h₁ (by
        rw [List.length_append]
        omega) (by omega)
      refine ⟨area', room', hstep.trans hloop, ?_⟩
      rwa [List.map_cons, rawBytes_cons, ← List.append_assoc]

/-- The fields do not fit into the area. -/
theorem encodeTlvs_of_lt (tlvs : List QmiTlv) (harea : Buf.Filled area front room)
    (hlen : front.length + room = qmiMaxTlvLen)
    (hroom : room < (rawBytes (tlvs.map QmiTlv.raw)).length) :
    encodeTlvs tlvs area = some (.error (.invalidParameter "")) := by
  induction tlvs generalizing area front room with
  | nil => exact absurd hroom (Nat.not_lt_zero _)
  | cons t tlvs ih =>
      rw [List.map_cons, rawBytes_cons, List.length_append] at hroom
      by_cases hfits : t.raw.bytes.length ≤ room
      · obtain ⟨area₁, hstep, h₁⟩ := encodeTlvs_cons t tlvs harea hlen hfits
        rw [hstep]
        refine ih h₁ ?_ (by omega)
        rw [List.length_append]
        omega
      · have hbytes : t.raw.bytes.length = 3 + t.payload.length := t.raw.length_bytes
        rw [encodeTlvs, QmiTlv.toNat_len, harea.1, if_pos (by omega)]

end Area

theorem txnBytes_length (svcId : BitVec 8) (txnId : BitVec 16) :
    (txnBytes svcId txnId).length = if svcId = qmiCtl then 1 else 2 := by
  rw [txnBytes]
  split <;> rfl

theorem QmiHeader.length_bytes (h : QmiHeader) :
    h.bytes.length = 11 + if h.svcId = qmiCtl then 1 else 2 := by
  simp only [QmiHeader.bytes, List.length_cons, List.length_append, leBytes16_length,
    txnBytes_length]
  omega

/-- The frame of the message is written. -/
theorem writeFrame_spec (msg : QmiMsg) {area : List (BitVec 8) × ℕ} {room : ℕ}
    (harea : Buf.Filled area msg.tlvBytes room) (hlen : msg.tlvBytes.length ≤ qmiMaxTlvLen)
    (buf : Vector (BitVec 8) qmiMaxFrameLen) (frameLen : ℕ) :
    ∃ out room', writeFrame msg area buf.toList frameLen = some out ∧
      Buf.Filled out
        (qmiFrame (BitVec.ofNat 16 (frameLen - 1)) 0#8 { msg with ctrlFlags := 0#8 }) room' := by
  have hpieces : [[0x01#8], leBytes16 (BitVec.ofNat 16 (frameLen - 1)), [0x00#8], [msg.svcId],
      [msg.clientId], [0x00#8], txnBytes msg.svcId msg.txnId, leBytes16 msg.msgId,
      leBytes16 (BitVec.ofNat 16 area.2), msg.tlvBytes].flatten =
      qmiFrame (BitVec.ofNat 16 (frameLen - 1)) 0#8 { msg with ctrlFlags := 0#8 } := by
    simp only [qmiFrame, QmiHeader.bytes, QmiMsg.header, harea.1, List.flatten_cons,
      List.flatten_nil, List.append_nil, List.append_assoc, List.cons_append, List.nil_append]
    rfl
  have htotal : (qmiFrame (BitVec.ofNat 16 (frameLen - 1)) 0#8
      { msg with ctrlFlags := 0#8 }).length ≤ qmiMaxFrameLen := by
    have hheader : ∀ h : QmiHeader, h.bytes.length ≤ 13 := by
      intro h
      rw [h.length_bytes]
      split <;> omega
    rw [qmiFrame, List.length_append]
    exact Nat.add_le_add (hheader _) hlen |>.trans (by decide)
  obtain ⟨out, hput, hout⟩ :=
    (Buf.filled_start buf.toList Vector.length_toList).putAll _ (hpieces ▸ htotal)
  rw [hpieces, List.nil_append] at hout
  exact ⟨out, _, by rw [writeFrame, harea.slice, Option.bind_some, hput], hout⟩

/-- The message as it is encoded: with the counter as its transaction id, as a request. -/
def QmiMsg.assigned (msg : QmiMsg) (nextTxn : BitVec 16) : QmiMsg :=
  { msg with ctrlFlags := 0#8, txnId := nextTxn }

/-- The encoder returns; it writes the frame of the message if the fields fit into the area, and
refuses the message otherwise. -/
theorem qmiEncodeTlv_spec (nextTxn : BitVec 16) (msg : QmiMsg)
    (buf : Vector (BitVec 8) qmiMaxFrameLen) :
    ∃ out, qmiEncodeTlv nextTxn msg buf = some out ∧
      (msg.tlvBytes.length ≤ qmiMaxTlvLen → ∃ len n, out.result = .ok n ∧
        Buf.slice out.buf n = some (qmiFrame len 0#8 (msg.assigned nextTxn))) ∧
      (qmiMaxTlvLen < msg.tlvBytes.length → out.result = .error (.invalidParameter "")) := by
  have hstart : Buf.Filled (List.replicate qmiMaxTlvLen 0#8, 0) [] qmiMaxTlvLen :=
    Buf.filled_start _ List.length_replicate
  rw [qmiEncodeTlv]
  by_cases hfits : msg.tlvBytes.length ≤ qmiMaxTlvLen
  · obtain ⟨area, room, hloop, harea⟩ :=
      encodeTlvs_of_le msg.tlvs hstart (Nat.zero_add _) hfits
    rw [List.nil_append] at harea
    obtain ⟨out, room', hwrite, hout⟩ := writeFrame_spec { msg with txnId := nextTxn } harea hfits
      buf (1 + 2 + 1 + 1 + 1 + (1 + (if msg.svcId = qmiCtl then 1 else 2) + 2 + 2 + area.2))
    have hpos : area.2 ≤ 512 := harea.1.trans_le hfits
    have hframe : ¬ 1 + 2 + 1 + 1 + 1 +
        (1 + (if msg.svcId = qmiCtl then 1 else 2) + 2 + 2 + area.2) > qmiMaxFrameLen := by
      split <;> rw [qmiMaxFrameLen] <;> omega
    refine ⟨⟨nextTxn + 1#16, { msg with txnId := nextTxn }, out.1, .ok out.2⟩, ?_, ?_, ?_⟩
    · dsimp only
      rw [hloop, Option.bind_some]
      dsimp only
      rw [if_neg hframe, hwrite]
      rfl
    · exact fun _ => ⟨_, _, rfl, hout.slice⟩
    · exact fun hlt => absurd hfits (Nat.not_le.2 hlt)
  · have hlt := Nat.not_le.1 hfits
    have hloop := encodeTlvs_of_lt msg.tlvs hstart (Nat.zero_add _) hlt
    refine ⟨⟨nextTxn + 1#16, { msg with txnId := nextTxn }, buf.toList, _⟩, ?_,
      fun hle => absurd hle hfits, fun _ => rfl⟩
    dsimp only
    rw [hloop, Option.bind_some]

/-! ### What the decoder reads -/

/-- The transaction id that is read. -/
def QmiHeader.readTxn (h : QmiHeader) : BitVec 16 :=
  if h.svcId = qmiCtl then (h.txnId.extractLsb' 0 8).setWidth 16 else h.txnId

/-- The message of a header, without fields. -/
def QmiHeader.emptyMsg (h : QmiHeader) : QmiMsg :=
  ⟨h.svcId, h.clientId, h.ctrlFlags, h.readTxn, h.msgId, [], Nat.zero_le _⟩

theorem decodeSdu_header (front back : List (BitVec 8)) (msgId tlvLen : BitVec 16) (msg : QmiMsg) :
    decodeSdu (front ++ (leBytes16 msgId ++ (leBytes16 tlvLen ++ back))) msg front.length =
      if back.length < tlvLen.toNat then some (.error (.invalidParameter ""))
      else decodeTlvs (front ++ (leBytes16 msgId ++ (leBytes16 tlvLen ++ back)))
        (front.length + 4 + tlvLen.toNat) (front.length + 4) { msg with msgId := msgId } := by
  have htlvLen : le16At (front ++ (leBytes16 msgId ++ (leBytes16 tlvLen ++ back)))
      (front.length + 2) = some tlvLen := by
    rw [← List.append_assoc]
    exact le16At_mid _ back tlvLen (by rw [List.length_append, leBytes16_length])
  have hlen : (front ++ (leBytes16 msgId ++ (leBytes16 tlvLen ++ back))).length =
      front.length + 4 + back.length := by
    simp only [List.length_append, leBytes16_length]
    omega
  rw [decodeSdu, if_neg (by omega), le16At_mid _ _ msgId rfl, Option.bind_some, htlvLen,
    Option.bind_some]
  dsimp only
  by_cases hshort : back.length < tlvLen.toNat
  · rw [if_pos hshort, if_pos (by omega)]
  · rw [if_neg hshort, if_neg (by omega)]

/-- The bytes of a header up to the message id. -/
def QmiHeader.front (h : QmiHeader) : List (BitVec 8) :=
  0x01#8 :: (leBytes16 h.len ++ (h.flags :: h.svcId :: h.clientId :: h.ctrlFlags ::
    txnBytes h.svcId h.txnId))

theorem QmiHeader.bytes_eq (h : QmiHeader) :
    h.bytes = h.front ++ (leBytes16 h.msgId ++ leBytes16 h.tlvLen) := by
  simp only [QmiHeader.front, QmiHeader.bytes, List.cons_append, List.append_assoc]

/-- The front of a header is decoded. -/
theorem qmiDecodeTlv_front (h : QmiHeader) (rest : List (BitVec 8)) :
    qmiDecodeTlv (h.front ++ rest) =
      decodeSdu (h.front ++ rest) { h.emptyMsg with msgId := 0#16 } h.front.length := by
  by_cases hctl : h.svcId = qmiCtl
  · have hfront : h.front = [0x01#8, h.len.extractLsb' 0 8, h.len.extractLsb' 8 8, h.flags,
        h.svcId, h.clientId, h.ctrlFlags, h.txnId.extractLsb' 0 8] := by
      rw [QmiHeader.front, txnBytes, if_pos hctl]
      rfl
    have hmsg : ({ h.emptyMsg with msgId := 0#16 } : QmiMsg) =
        { QmiMsg.new h.svcId h.clientId 0#16 with
          ctrlFlags := h.ctrlFlags, txnId := (h.txnId.extractLsb' 0 8).setWidth 16 } := by
      rw [QmiHeader.emptyMsg, QmiHeader.readTxn, if_pos hctl]
      rfl
    rw [hmsg, hfront, qmiDecodeTlv, if_neg (by simp)]
    exact if_pos hctl
  · have hfront : h.front = [0x01#8, h.len.extractLsb' 0 8, h.len.extractLsb' 8 8, h.flags,
        h.svcId, h.clientId, h.ctrlFlags, h.txnId.extractLsb' 0 8, h.txnId.extractLsb' 8 8] := by
      rw [QmiHeader.front, txnBytes, if_neg hctl]
      rfl
    have hmsg : ({ h.emptyMsg with msgId := 0#16 } : QmiMsg) =
        { QmiMsg.new h.svcId h.clientId 0#16 with
          ctrlFlags := h.ctrlFlags, txnId := h.txnId } := by
      rw [QmiHeader.emptyMsg, QmiHeader.readTxn, if_neg hctl]
      rfl
    rw [hmsg, hfront, qmiDecodeTlv, if_neg (by simp)]
    refine (if_neg hctl).trans ((if_neg (by simp)).trans ?_)
    exact congrArg (fun txnId => decodeSdu _ { QmiMsg.new h.svcId h.clientId 0#16 with
      ctrlFlags := h.ctrlFlags, txnId := txnId } 9) (extractLsb'_append_extractLsb' h.txnId)

/-- A string with a whole header is decoded from the header on. -/
theorem qmiDecodeTlv_header (h : QmiHeader) (back : List (BitVec 8)) :
    qmiDecodeTlv (h.bytes ++ back) =
      if back.length < h.tlvLen.toNat then some (.error (.invalidParameter ""))
      else decodeTlvs (h.bytes ++ back) (h.bytes.length + h.tlvLen.toNat) h.bytes.length
        h.emptyMsg := by
  have hlen : h.bytes.length = h.front.length + 4 := by
    simp only [QmiHeader.bytes_eq, List.length_append, leBytes16_length]
  have hraw : h.bytes ++ back =
      h.front ++ (leBytes16 h.msgId ++ (leBytes16 h.tlvLen ++ back)) := by
    simp only [QmiHeader.bytes_eq, List.append_assoc]
  rw [hlen, hraw, qmiDecodeTlv_front, decodeSdu_header]
  rfl

/-- A string with the front of a header is refused, or has a whole header. -/
theorem qmiDecodeTlv_front_cases (h : QmiHeader) (rest : List (BitVec 8)) :
    (∃ e, qmiDecodeTlv (h.front ++ rest) = some (.error e)) ∨
      ∃ h' back, h.front ++ rest = QmiHeader.bytes h' ++ back := by
  by_cases hshort : rest.length < 4
  · refine .inl ⟨_, (qmiDecodeTlv_front h rest).trans (if_pos ?_)⟩
    rw [List.length_append]
    omega
  · obtain ⟨msgId, rest, rfl⟩ := exists_leBytes16 rest (by omega)
    rw [List.length_append, leBytes16_length] at hshort
    obtain ⟨tlvLen, back, rfl⟩ := exists_leBytes16 rest (by omega)
    refine .inr ⟨{ h with msgId := msgId, tlvLen := tlvLen }, back, ?_⟩
    rw [QmiHeader.bytes_eq, List.append_assoc, List.append_assoc]
    rfl

/-- Of a control frame of seven bytes, the transaction id is read behind the end. -/
theorem qmiDecodeTlv_seven {raw : List (BitVec 8)} (hlen : raw.length = 7)
    (htype : raw[0]? = some 0x01#8) (hsvc : raw[4]? = some qmiCtl) : qmiDecodeTlv raw = none := by
  match raw, hlen with
  | [ifType, l₀, l₁, flags, svcId, clientId, ctrlFlags], hlen =>
      obtain rfl := Option.some.inj htype
      obtain rfl := Option.some.inj hsvc
      rw [qmiDecodeTlv, if_neg (by omega)]
      rfl

/-- A string without a whole header is refused, or its transaction id is missing. -/
theorem qmiDecodeTlv_cases (raw : List (BitVec 8)) :
    (∃ e, qmiDecodeTlv raw = some (.error e)) ∨
      (raw.length = 7 ∧ raw[0]? = some 0x01#8 ∧ raw[4]? = some qmiCtl) ∨
        ∃ h back, raw = QmiHeader.bytes h ++ back := by
  by_cases hlen : raw.length < 7
  · exact .inl ⟨_, if_pos hlen⟩
  match raw, hlen, Nat.not_lt.1 hlen with
  | ifType :: l₀ :: l₁ :: flags :: svcId :: clientId :: ctrlFlags :: rest, hlen, _ =>
      by_cases htype : ifType = 0x01#8
      swap
      · exact .inl ⟨_, (if_neg hlen).trans (if_pos htype)⟩
      subst htype
      by_cases hctl : svcId = qmiCtl
      · cases rest with
        | nil =>
            exact .inr (.inl ⟨rfl, rfl, congrArg some hctl⟩)
        | cons txn rest =>
            have hfront := qmiDecodeTlv_front_cases
              ⟨l₁ ++ l₀, flags, svcId, clientId, ctrlFlags, 0#8 ++ txn, 0#16, 0#16⟩ rest
            have htxn : [(0#8 ++ txn).extractLsb' 0 8, (0#8 ++ txn).extractLsb' 8 8] = [txn, 0#8] :=
              leBytes16_append 0#8 txn
            rw [QmiHeader.front, txnBytes, if_pos hctl, leBytes16_append,
              (List.cons.inj htxn).1] at hfront
            exact hfront.imp_right .inr
      · match rest with
        | [] | [_] =>
            refine .inl ⟨.invalidParameter "", (if_neg hlen).trans ?_⟩
            exact (if_neg hctl).trans (if_pos (by simp))
        | t₀ :: t₁ :: rest =>
            have hfront := qmiDecodeTlv_front_cases
              ⟨l₁ ++ l₀, flags, svcId, clientId, ctrlFlags, t₁ ++ t₀, 0#16, 0#16⟩ rest
            rw [QmiHeader.front, txnBytes, if_neg hctl, leBytes16_append,
              leBytes16_append] at hfront
            exact hfront.imp_right .inr

/-! ### The decoder's loop -/

/-- The type and the length of a field. -/
theorem decodeTlvs_head (front back : List (BitVec 8)) (tType : BitVec 8) (tLen : BitVec 16)
    {fin : ℕ} (hfin : front.length + 3 ≤ fin) (msg : QmiMsg) :
    decodeTlvs (front ++ (tType :: (leBytes16 tLen ++ back))) fin front.length msg =
      if tLen.toNat > fin - (front.length + 3) then some (.error (.invalidParameter ""))
      else (byteSlice (front ++ (tType :: (leBytes16 tLen ++ back))) (front.length + 3)
          (front.length + 3 + tLen.toNat)).bind fun data =>
        decodeTlvs (front ++ (tType :: (leBytes16 tLen ++ back))) fin
          (front.length + 3 + tLen.toNat) (msg.addRaw ⟨tType, data⟩) := by
  have htype : (front ++ (tType :: (leBytes16 tLen ++ back)))[front.length]? = some tType := by
    rw [List.getElem?_append_right (Nat.le_refl _), Nat.sub_self]
    rfl
  have htLen : le16At (front ++ (tType :: (leBytes16 tLen ++ back))) (front.length + 1) =
      some tLen := by
    rw [List.append_cons]
    exact le16At_mid _ back tLen (by rw [List.length_append, List.length_singleton])
  rw [decodeTlvs, if_pos hfin, htype, Option.bind_some, htLen, Option.bind_some]
  rfl

/-- One field. -/
theorem decodeTlvs_cons {t : RawTlv} (ht : t.payload.length < 2 ^ 16)
    (front back : List (BitVec 8)) {fin : ℕ} (hfin : front.length + t.bytes.length ≤ fin)
    (msg : QmiMsg) :
    decodeTlvs (front ++ (t.bytes ++ back)) fin front.length msg =
      decodeTlvs ((front ++ t.bytes) ++ back) fin (front ++ t.bytes).length (msg.addRaw t) := by
  have hlen : (BitVec.ofNat 16 t.payload.length).toNat = t.payload.length := by
    rw [BitVec.toNat_ofNat, Nat.mod_eq_of_lt ht]
  have hpos : (front ++ t.bytes).length = front.length + 3 + t.payload.length := by
    rw [List.length_append, t.length_bytes, Nat.add_assoc]
  have hraw : front ++ (t.bytes ++ back) = front ++ (t.tlvType ::
      (leBytes16 (BitVec.ofNat 16 t.payload.length) ++ (t.payload ++ back))) := by
    simp only [RawTlv.bytes, List.append_assoc, List.cons_append]
  have hdata : byteSlice (front ++ (t.bytes ++ back)) (front.length + 3)
      (front.length + 3 + t.payload.length) = some t.payload := by
    rw [hraw, List.append_cons, ← List.append_assoc]
    refine byteSlice_mid _ _ _ ?_ ?_ <;>
      simp only [List.length_append, List.length_singleton, leBytes16_length]
  rw [t.length_bytes] at hfin
  rw [hraw, decodeTlvs_head _ _ _ _ (by omega), hlen, if_neg (by omega), ← hraw, hdata,
    Option.bind_some, hpos, List.append_assoc]

/-- A sequence of fields, with fewer than three bytes behind it. -/
theorem decodeTlvs_raw (htlvs : ∀ t ∈ tlvs, t.payload.length < 2 ^ 16)
    (front tail rest : List (BitVec 8)) (htail : tail.length < 3) (msg : QmiMsg) :
    decodeTlvs (front ++ (rawBytes tlvs ++ (tail ++ rest)))
      (front.length + (rawBytes tlvs).length + tail.length) front.length msg =
        some (.ok (tlvs.foldl QmiMsg.addRaw msg)) := by
  induction tlvs generalizing front msg with
  | nil =>
      rw [decodeTlvs, if_neg]
      · rfl
      · rw [rawBytes, List.flatMap_nil, List.length_nil]
        omega
  | cons t tlvs ih =>
      rw [List.forall_mem_cons] at htlvs
      have hfin : front.length + (rawBytes (t :: tlvs)).length + tail.length =
          (front ++ t.bytes).length + (rawBytes tlvs).length + tail.length := by
        rw [rawBytes_cons, List.length_append, List.length_append]
        omega
      rw [hfin, rawBytes_cons, List.append_assoc, decodeTlvs_cons htlvs.1, List.foldl_cons,
        ih htlvs.2]
      rw [List.length_append]
      omega

/-- The loop ends with an error, or the area is a sequence of fields and fewer than three bytes. -/
theorem decodeTlvs_cases (front area rest : List (BitVec 8)) (msg : QmiMsg) :
    (∃ e, decodeTlvs (front ++ (area ++ rest)) (front.length + area.length) front.length msg =
      some (.error e)) ∨
      ∃ tlvs tail, area = rawBytes tlvs ++ tail ∧ tail.length < 3 ∧
        ∀ t ∈ tlvs, t.payload.length < 2 ^ 16 := by
  induction hn : area.length using Nat.strong_induction_on generalizing front area msg with
  | _ n ih =>
      by_cases hshort : area.length < 3
      · exact .inr ⟨[], area, rfl, hshort, fun t ht => absurd ht List.not_mem_nil⟩
      obtain ⟨tType, more, rfl⟩ := List.exists_cons_of_length_pos (l := area) (by omega)
      rw [List.length_cons] at hshort
      obtain ⟨tLen, more, rfl⟩ := exists_leBytes16 more (by omega)
      rw [List.length_cons, List.length_append, leBytes16_length] at hn
      by_cases hlong : more.length < tLen.toNat
      · refine .inl ⟨.invalidParameter "", ?_⟩
        rw [List.cons_append, List.append_assoc, decodeTlvs_head _ _ _ _ (by omega),
          if_pos (by omega)]
      · -- the first field is cut off, and what follows it is shorter
        have htake : (more.take tLen.toNat).length = tLen.toNat := by
          rw [List.length_take, Nat.min_eq_left (Nat.not_lt.1 hlong)]
        have harea : tType :: (leBytes16 tLen ++ more) =
            (RawTlv.mk tType (more.take tLen.toNat)).bytes ++ more.drop tLen.toNat := by
          rw [RawTlv.bytes, htake, BitVec.ofNat_toNat, BitVec.setWidth_eq, List.cons_append,
            List.append_assoc, List.take_append_drop]
        have ht : (more.take tLen.toNat).length < 2 ^ 16 := by
          rw [htake]
          exact tLen.isLt
        have hbytes : (RawTlv.mk tType (more.take tLen.toNat)).bytes.length = 3 + tLen.toNat := by
          rw [RawTlv.length_bytes, htake]
        have hdrop : (more.drop tLen.toNat).length = more.length - tLen.toNat := List.length_drop
        have hfin : front.length + n =
            (front ++ (RawTlv.mk tType (more.take tLen.toNat)).bytes).length +
              (more.drop tLen.toNat).length := by
          rw [List.length_append, hbytes, hdrop]
          omega
        rw [harea, List.append_assoc, decodeTlvs_cons ht _ _ (by rw [hbytes]; omega), hfin]
        obtain herr | ⟨tlvs, tail, hmore, htail, htlvs⟩ := ih _ (by rw [hdrop]; omega)
          (front ++ (RawTlv.mk tType (more.take tLen.toNat)).bytes) (more.drop tLen.toNat)
          (msg.addRaw ⟨tType, more.take tLen.toNat⟩) rfl
        · exact .inl herr
        · refine .inr ⟨⟨tType, more.take tLen.toNat⟩ :: tlvs, tail, ?_, htail, ?_⟩
          · rw [rawBytes_cons, List.append_assoc, ← hmore]
          · rw [List.forall_mem_cons]
            exact ⟨ht, htlvs⟩

/-- A sequence of fields behind a header, with fewer than three bytes behind it. -/
theorem qmiDecodeTlv_raw {h : QmiHeader} (htlvs : ∀ t ∈ tlvs, t.payload.length < 2 ^ 16)
    (tail rest : List (BitVec 8)) (htail : tail.length < 3)
    (hlen : h.tlvLen.toNat = (rawBytes tlvs).length + tail.length) :
    qmiDecodeTlv (h.bytes ++ (rawBytes tlvs ++ (tail ++ rest))) =
      some (.ok (tlvs.foldl QmiMsg.addRaw h.emptyMsg)) := by
  rw [qmiDecodeTlv_header, if_neg, hlen, ← Nat.add_assoc]
  · exact decodeTlvs_raw htlvs h.bytes tail rest htail h.emptyMsg
  · rw [List.length_append, List.length_append]
    omega

/-- Fields that a message can hold are all added. -/
theorem QmiMsg.foldl_addRaw_of_fit (hcount : tlvs.length ≤ qmiMaxTlvs)
    (htlvs : ∀ t ∈ tlvs, t.payload.length ≤ 64) (h : QmiHeader) :
    (tlvs.foldl QmiMsg.addRaw h.emptyMsg).tlvs.map QmiTlv.raw = tlvs := by
  have hfilter : (tlvs.filter fun t => t.payload.length ≤ 64) = tlvs := by
    rw [List.filter_eq_self]
    exact fun t ht => decide_eq_true (htlvs t ht)
  have hempty : h.emptyMsg.tlvs = [] := rfl
  rw [QmiMsg.foldl_addRaw_tlvs, hfilter, hempty, List.map_nil, List.nil_append, List.length_nil,
    Nat.sub_zero, List.take_of_length_le hcount]

/-! ### Round trips -/

/-- The frame of a message is decoded as the message, with one byte of the transaction id of a
control message. -/
theorem qmiDecodeTlv_qmiFrame (len : BitVec 16) (flags : BitVec 8) (msg : QmiMsg) :
    qmiDecodeTlv (qmiFrame len flags msg) =
      some (.ok { msg with txnId := (msg.header len flags).readTxn }) := by
  have hsize := msg.length_tlvBytes
  have hfit : ∀ t ∈ msg.tlvs.map QmiTlv.raw, t.payload.length ≤ 64 := by
    intro t ht
    obtain ⟨t, -, rfl⟩ := List.mem_map.1 ht
    exact t.length_payload
  have hlen : (msg.header len flags).tlvLen.toNat = msg.tlvBytes.length := by
    rw [QmiMsg.header, BitVec.toNat_ofNat, Nat.mod_eq_of_lt (by omega)]
  have hdecode := qmiDecodeTlv_raw (fun t ht => (hfit t ht).trans_lt (by decide)) [] []
    (Nat.zero_lt_succ 2) hlen
  rw [List.append_nil, List.append_nil] at hdecode
  have htlvs := QmiMsg.foldl_addRaw_of_fit
    (by rw [List.length_map]; exact msg.length_tlvs) hfit (msg.header len flags)
  obtain ⟨hsvc, hclient, hctrl, htxn, hid⟩ := QmiMsg.foldl_addRaw_header
    (msg.tlvs.map QmiTlv.raw) (msg.header len flags).emptyMsg
  exact hdecode.trans (congrArg (fun m => some (Except.ok m))
    (QmiMsg.ext hsvc hclient hctrl htxn hid (QmiTlv.raw_injective.list_map htlvs)))

/-- A message of any calls of `add_tlv` is encoded into a frame that is decoded as the message, or
refused, if its fields have more than 512 bytes. -/
theorem qmi_round_trip (svcId clientId : BitVec 8) (msgId nextTxn : BitVec 16)
    (adds : List RawTlv) (buf : Vector (BitVec 8) qmiMaxFrameLen) :
    let msg := adds.foldl QmiMsg.addRaw (QmiMsg.new svcId clientId msgId)
    ∃ out, qmiEncodeTlv nextTxn msg buf = some out ∧
      (∀ n, out.result = .ok n → ∃ frame dec, Buf.slice out.buf n = some frame ∧
        qmiDecodeTlv frame = some (.ok dec) ∧
        dec.svcId = svcId ∧ dec.clientId = clientId ∧ dec.msgId = msgId ∧ dec.tlvs = msg.tlvs ∧
        dec.txnId = if svcId = qmiCtl then BitVec.ofNat 16 (nextTxn.toNat % 256) else nextTxn) ∧
      ∀ e, out.result = .error e → qmiMaxTlvLen < msg.tlvBytes.length := by
  intro msg
  obtain ⟨hsvc, hclient, -, -, hid⟩ :=
    QmiMsg.foldl_addRaw_header adds (QmiMsg.new svcId clientId msgId)
  obtain ⟨out, hencode, hok, herr⟩ := qmiEncodeTlv_spec nextTxn msg buf
  refine ⟨out, hencode, fun n hn => ?_, fun e he => ?_⟩
  · have hfits : msg.tlvBytes.length ≤ qmiMaxTlvLen := by
      by_contra hlt
      rw [herr (Nat.not_le.1 hlt)] at hn
      cases hn
    obtain ⟨len, n', hn', hslice⟩ := hok hfits
    obtain rfl := Except.ok.inj (hn.symm.trans hn')
    refine ⟨_, _, hslice, qmiDecodeTlv_qmiFrame len 0#8 (msg.assigned nextTxn), hsvc, hclient,
      hid, rfl, ?_⟩
    have htxn : (nextTxn.extractLsb' 0 8).setWidth 16 = BitVec.ofNat 16 (nextTxn.toNat % 256) := by
      apply BitVec.eq_of_toNat_eq
      simp
    show (if msg.svcId = qmiCtl then (nextTxn.extractLsb' 0 8).setWidth 16 else nextTxn) = _
    rw [show msg.svcId = svcId from hsvc, htxn]
  · by_contra hle
    obtain ⟨len, n, hn, -⟩ := hok (Nat.not_lt.1 hle)
    rw [he] at hn
    cases hn

/-! ### Faithful decoding -/

/-- The law: the decoder returns, and the frame of a message that it returns is at the front of the
string. -/
def QmiFaithful (raw : List (BitVec 8)) : Prop :=
  ∃ res, qmiDecodeTlv raw = some res ∧
    ∀ msg, res = .ok msg → ∃ len flags rest, raw = qmiFrame len flags msg ++ rest

/-- Either seven bytes of a control frame, or a whole frame with bytes behind its last field, more
than 16 fields, or one of more than 64 bytes. -/
def QmiLossy (raw : List (BitVec 8)) : Prop :=
  (raw.length = 7 ∧ raw[0]? = some 0x01#8 ∧ raw[4]? = some qmiCtl) ∨
    ∃ h tlvs tail rest, raw = QmiHeader.bytes h ++ (rawBytes tlvs ++ (tail ++ rest)) ∧
      h.tlvLen.toNat = (rawBytes tlvs).length + tail.length ∧ tail.length < 3 ∧
      (∀ t ∈ tlvs, t.payload.length < 2 ^ 16) ∧
      (tail ≠ [] ∨ qmiMaxTlvs < tlvs.length ∨ ∃ t ∈ tlvs, 64 < t.payload.length)

/-- A string has one header. -/
theorem QmiHeader.tlvLen_unique {h h' : QmiHeader} {back back' : List (BitVec 8)}
    (heq : h.bytes ++ back = h'.bytes ++ back') : h.tlvLen = h'.tlvLen := by
  have hjoin := extractLsb'_append_extractLsb' h.tlvLen
  have hjoin' := extractLsb'_append_extractLsb' h'.tlvLen
  simp only [QmiHeader.bytes, leBytes16, List.cons_append, List.nil_append, List.append_assoc,
    List.cons.injEq] at heq
  obtain ⟨-, -, -, -, hsvc, -, -, hrest⟩ := heq
  rw [txnBytes, txnBytes, hsvc] at hrest
  split at hrest
  · obtain ⟨-, -, -, hlo, hhi, -⟩ := by simpa using hrest
    rw [← hjoin, ← hjoin', hlo, hhi]
  · obtain ⟨-, -, -, -, hlo, hhi, -⟩ := by simpa [leBytes16] using hrest
    rw [← hjoin, ← hjoin', hlo, hhi]

/-- A whole frame is decoded faithfully only if nothing of it is dropped. -/
theorem QmiFaithful.kept {h : QmiHeader} (tlvs : List RawTlv) (tail rest : List (BitVec 8))
    (hfaith : QmiFaithful (h.bytes ++ (rawBytes tlvs ++ (tail ++ rest))))
    (hlen : h.tlvLen.toNat = (rawBytes tlvs).length + tail.length) (htail : tail.length < 3)
    (htlvs : ∀ t ∈ tlvs, t.payload.length < 2 ^ 16) :
    tail = [] ∧ tlvs.length ≤ qmiMaxTlvs ∧ ∀ t ∈ tlvs, t.payload.length ≤ 64 := by
  obtain ⟨res, hdecode, hres⟩ := hfaith
  rw [qmiDecodeTlv_raw htlvs tail rest htail hlen, Option.some.injEq] at hdecode
  obtain ⟨len, flags, rest', hraw⟩ := hres _ hdecode.symm
  generalize hmsg : tlvs.foldl QmiMsg.addRaw h.emptyMsg = msg at hraw
  have hkept := QmiMsg.foldl_addRaw_tlvs tlvs h.emptyMsg
  rw [hmsg] at hkept
  have hempty : h.emptyMsg.tlvs = [] := rfl
  rw [hempty, List.map_nil, List.nil_append, List.length_nil, Nat.sub_zero] at hkept
  -- The area has as many bytes as the fields that were kept.
  have hsize := msg.length_tlvBytes
  rw [qmiFrame, List.append_assoc] at hraw
  have htlvLen := congrArg BitVec.toNat (QmiHeader.tlvLen_unique hraw)
  rw [hlen, QmiMsg.header, BitVec.toNat_ofNat, Nat.mod_eq_of_lt (by omega), QmiMsg.tlvBytes,
    hkept] at htlvLen
  have hsub : ((tlvs.filter fun t => t.payload.length ≤ 64).take qmiMaxTlvs).Sublist tlvs :=
    (List.take_sublist _ _).trans List.filter_sublist
  obtain ⟨hle, hall⟩ := length_rawBytes_of_sublist hsub
  have heq := hall (by omega)
  refine ⟨List.eq_nil_of_length_eq_zero (by omega), ?_, ?_⟩
  · rw [← heq]
    exact List.length_take_le _ _
  · intro t ht
    rw [← heq] at ht
    exact of_decide_eq_true (List.mem_filter.1 (List.mem_of_mem_take ht)).2

/-- The frame of the message that is decoded from fields that it can hold. -/
theorem qmiFrame_foldl (hcount : tlvs.length ≤ qmiMaxTlvs)
    (hshort : ∀ t ∈ tlvs, t.payload.length ≤ 64) {h : QmiHeader}
    (hlen : h.tlvLen.toNat = (rawBytes tlvs).length) :
    qmiFrame h.len h.flags (tlvs.foldl QmiMsg.addRaw h.emptyMsg) = h.bytes ++ rawBytes tlvs := by
  have hbytes : (tlvs.foldl QmiMsg.addRaw h.emptyMsg).tlvBytes = rawBytes tlvs :=
    congrArg rawBytes (QmiMsg.foldl_addRaw_of_fit hcount hshort h)
  obtain ⟨hsvc, hclient, hctrl, htxn, hid⟩ := QmiMsg.foldl_addRaw_header tlvs h.emptyMsg
  have htxnBytes : txnBytes h.svcId h.readTxn = txnBytes h.svcId h.txnId := by
    rw [txnBytes, txnBytes, QmiHeader.readTxn]
    by_cases hctl : h.svcId = qmiCtl
    · have hlow : ((h.txnId.extractLsb' 0 8).setWidth 16).extractLsb' 0 8 =
          h.txnId.extractLsb' 0 8 := by
        apply BitVec.eq_of_toNat_eq
        simp
      rw [if_pos hctl, if_pos hctl, if_pos hctl, hlow]
    · rw [if_neg hctl, if_neg hctl, if_neg hctl]
  have hheader : (tlvs.foldl QmiMsg.addRaw h.emptyMsg).header h.len h.flags =
      { h with txnId := h.readTxn } := by
    rw [QmiMsg.header, hsvc, hclient, hctrl, htxn, hid, hbytes, ← hlen, BitVec.ofNat_toNat,
      BitVec.setWidth_eq]
    rfl
  rw [qmiFrame, hheader, hbytes, QmiHeader.bytes, htxnBytes]
  rfl

/-- A string is decoded faithfully but for those kinds. -/
theorem qmi_decode_faithful_iff (raw : List (BitVec 8)) : QmiFaithful raw ↔ ¬ QmiLossy raw := by
  constructor
  · rintro hfaith (⟨hlen, htype, hsvc⟩ | ⟨h, tlvs, tail, rest, rfl, hlen, htail, htlvs, hlost⟩)
    · obtain ⟨res, hdecode, -⟩ := hfaith
      rw [qmiDecodeTlv_seven hlen htype hsvc] at hdecode
      cases hdecode
    · obtain ⟨hnil, hcount, hshort⟩ := hfaith.kept tlvs tail rest hlen htail htlvs
      obtain hne | hlt | ⟨t, ht, hlong⟩ := hlost
      · exact hne hnil
      · exact absurd hcount (Nat.not_le.2 hlt)
      · exact absurd (hshort t ht) (Nat.not_le.2 hlong)
  · intro hlossy
    obtain ⟨e, herr⟩ | hshort | ⟨h, back, rfl⟩ := qmiDecodeTlv_cases raw
    · exact ⟨_, herr, fun msg hmsg => by cases hmsg⟩
    · exact absurd (.inl hshort) hlossy
    by_cases hback : back.length < h.tlvLen.toNat
    · refine ⟨_, (qmiDecodeTlv_header h back).trans (if_pos hback), fun msg hmsg => ?_⟩
      cases hmsg
    have harea : (back.take h.tlvLen.toNat).length = h.tlvLen.toNat := by
      rw [List.length_take, Nat.min_eq_left (Nat.not_lt.1 hback)]
    have hdecode := (qmiDecodeTlv_header h back).trans (if_neg hback)
    rw [← List.take_append_drop h.tlvLen.toNat back] at hdecode hlossy ⊢
    generalize back.take h.tlvLen.toNat = area at harea hdecode hlossy ⊢
    generalize back.drop h.tlvLen.toNat = rest at hdecode hlossy ⊢
    obtain ⟨e, herr⟩ | ⟨tlvs, tail, rfl, htail, htlvs⟩ :=
      decodeTlvs_cases h.bytes area rest h.emptyMsg
    · rw [harea] at herr
      exact ⟨_, hdecode.trans herr, fun msg hmsg => by cases hmsg⟩
    rw [List.append_assoc] at hlossy ⊢
    rw [List.length_append] at harea
    have hkept : tail = [] ∧ tlvs.length ≤ qmiMaxTlvs ∧ ∀ t ∈ tlvs, t.payload.length ≤ 64 := by
      by_contra hne
      refine hlossy (.inr ⟨h, tlvs, tail, rest, rfl, harea.symm, htail, htlvs, ?_⟩)
      by_contra hlost
      rw [not_or, not_or, not_not, not_exists] at hlost
      refine hne ⟨hlost.1, Nat.not_lt.1 hlost.2.1, fun t ht => ?_⟩
      exact Nat.not_lt.1 fun hlong => hlost.2.2 t ⟨ht, hlong⟩
    obtain ⟨rfl, hcount, hshort⟩ := hkept
    refine ⟨_, qmiDecodeTlv_raw htlvs [] rest htail harea.symm, fun msg hmsg => ?_⟩
    refine ⟨h.len, h.flags, rest, ?_⟩
    rw [← Except.ok.inj hmsg, qmiFrame_foldl hcount hshort harea.symm, List.append_assoc]
    rfl

/-- Seven bytes of a control frame are read past their end; a byte behind the last field, and a
field of 65 bytes, are dropped. -/
theorem qmi_decode_lossy :
    let h : QmiHeader := ⟨0#16, 0#8, 0x01#8, 0#8, 0#8, 0#16, 0#16, 0#16⟩
    qmiDecodeTlv [0x01#8, 0#8, 0#8, 0#8, 0#8, 0#8, 0#8] = none ∧
      ¬ QmiFaithful [0x01#8, 0#8, 0#8, 0#8, 0#8, 0#8, 0#8] ∧
      ¬ QmiFaithful (QmiHeader.bytes { h with tlvLen := 1#16 } ++ [0xFF#8]) ∧
      ¬ QmiFaithful (QmiHeader.bytes { h with tlvLen := 68#16 } ++
        rawBytes [⟨0x14#8, List.replicate 65 0x61#8⟩]) := by
  intro h
  have hnone : qmiDecodeTlv [0x01#8, 0#8, 0#8, 0#8, 0#8, 0#8, 0#8] = none :=
    qmiDecodeTlv_seven rfl rfl rfl
  refine ⟨hnone, ?_, fun hfaith => ?_, fun hfaith => ?_⟩
  · rintro ⟨res, hres, -⟩
    rw [hnone] at hres
    cases hres
  · have hkept := QmiFaithful.kept [] [0xFF#8] [] hfaith rfl
      (by decide) (by simp)
    cases hkept.1
  · rw [← List.append_nil (rawBytes _)] at hfaith
    have hkept := QmiFaithful.kept _ [] [] hfaith
      (by rw [length_rawBytes_cons, List.length_replicate]; rfl) (by decide) (by simp)
    have hshort := hkept.2.2 _ (List.mem_singleton.2 rfl)
    rw [List.length_replicate] at hshort
    omega

end StarOS
