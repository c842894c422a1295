/-
The service discovery server (`net/bluetooth/sdp.rs`): the table of service records, and the
responses to the requests that arrive on a channel.

Every response starts with a header of five bytes, the last two of which should tell how many bytes
follow.  The response to a search has no field for the current count of handles, but its length is
computed as if it had; and with a full table the byte behind the handles lies outside the buffer.
The responses with attributes are right, as long as no attribute claims more bytes than it has room
for.

* `StarOS.SdpDb`, `StarOS.SdpDb.registerService`, `StarOS.SdpDb.unregisterService` — the table;
* `StarOS.SdpDb.recvPdu` and the handlers it calls — the PDUs that are sent, if no index is out of
  bounds;
* `StarOS.SdpDb.WellServed` — the law;
* `StarOS.SdpDb.AttrsFit`, `StarOS.SdpDb.RecordsFit` — attributes that are serialized without a
  fault;
* `StarOS.SdpDb.handleServiceSearch_eq` — the response to a search, byte by byte;
* `StarOS.sdp_served_iff` — the requests for which the law holds;
* `StarOS.sdp_search_fails` — a search in an empty table, and one in a full table.
-/

import StarOS.Buf
import StarOS.ByteFields
import StarOS.Error
import Mathlib.Data.BitVec
import Mathlib.Data.List.FinRange

set_option autoImplicit false

namespace StarOS

/-! ### Data -/

/-- `MAX_ATTRS`. -/
def maxAttrs : ℕ := 16

/-- `MAX_ATTR_DATA`. -/
def maxAttrData : ℕ := 64

/-- `MAX_SERVICE_RECORDS`. -/
def maxServiceRecords : ℕ := 16

/-- `SdpAttr`: an attribute with its encoded data. -/
structure SdpAttr where
  id : BitVec 16
  data : Fin maxAttrData → BitVec 8
  /-- The number of bytes of the data that are used. -/
  dataLen : BitVec 8
  valid : Bool

/-- `SdpAttr::empty`. -/
def SdpAttr.empty : SdpAttr := ⟨0#16, fun _ => 0#8, 0#8, false⟩

/-- `ServiceRecord`. -/
structure ServiceRecord where
  handle : BitVec 32
  attrs : Fin maxAttrs → SdpAttr
  valid : Bool

/-- `ServiceRecord::empty`. -/
def ServiceRecord.empty : ServiceRecord := ⟨0#32, fun _ => SdpAttr.empty, false⟩

/-- `SdpDb`, with the handle that is given out next. -/
structure SdpDb where
  records : Fin maxServiceRecords → ServiceRecord
  nextHandle : BitVec 32

/-- `pdu_id`. -/
inductive SdpPdu where
  | errorRsp | serviceSearchReq | serviceSearchRsp | serviceAttrReq | serviceAttrRsp
  | serviceSearchAttrReq | serviceSearchAttrRsp
  deriving DecidableEq, Repr

/-- The byte of a PDU identifier. -/
def SdpPdu.byte : SdpPdu → BitVec 8
  | .errorRsp => 0x01#8
  | .serviceSearchReq => 0x02#8
  | .serviceSearchRsp => 0x03#8
  | .serviceAttrReq => 0x04#8
  | .serviceAttrRsp => 0x05#8
  | .serviceSearchAttrReq => 0x06#8
  | .serviceSearchAttrRsp => 0x07#8

/-- `u32::to_be_bytes`. -/
def beBytes32 (v : BitVec 32) : List (BitVec 8) :=
  [v.extractLsb' 24 8, v.extractLsb' 16 8, v.extractLsb' 8 8, v.extractLsb' 0 8]

/-- `u16::from_be_bytes` of the bytes at `i` and `i + 1`. -/
def beWord16 (p : List (BitVec 8)) (i : ℕ) : BitVec 16 := p.getD i 0#8 ++ p.getD (i + 1) 0#8

/-- `u32::from_be_bytes` of the bytes from `i` on. -/
def beWord32 (p : List (BitVec 8)) (i : ℕ) : BitVec 32 :=
  p.getD i 0#8 ++ p.getD (i + 1) 0#8 ++ p.getD (i + 2) 0#8 ++ p.getD (i + 3) 0#8

/-! ### Records -/

namespace ServiceRecord

/-- The data of an attribute after `attr.data[..n].copy_from_slice(&data[..n])`. -/
def copyData (old : Fin maxAttrData → BitVec 8) (data : List (BitVec 8)) (n : ℕ) :
    Fin maxAttrData → BitVec 8 := fun i => if i.val < n then data.getD i 0#8 else old i

/-- `ServiceRecord::add_attr`. -/
def addAttr (rec : ServiceRecord) (id : BitVec 16) (data : List (BitVec 8)) :
    Except KernelError ServiceRecord :=
  let n := min data.length maxAttrData
  let attrs := List.finRange maxAttrs
  match attrs.find? fun i => (rec.attrs i).valid && (rec.attrs i).id == id with
  | some i =>
      let attr := { rec.attrs i with
        data := copyData (rec.attrs i).data data n
        dataLen := BitVec.ofNat 8 n }
      .ok { rec with attrs := Function.update rec.attrs i attr }
  | none =>
      match attrs.find? fun i => !(rec.attrs i).valid with
      | some i =>
          let attr : SdpAttr :=
            ⟨id, copyData (rec.attrs i).data data n, BitVec.ofNat 8 n, true⟩
          .ok { rec with attrs := Function.update rec.attrs i attr }
      | none => .error .resourceExhausted

/-- The attributes that are in use. -/
def validAttrs (rec : ServiceRecord) : List SdpAttr :=
  (List.ofFn rec.attrs).filter SdpAttr.valid

end ServiceRecord

namespace SdpDb

/-- `SdpDb::new`, with the first value of `NEXT_HANDLE`. -/
def new : SdpDb := ⟨fun _ => ServiceRecord.empty, 0x00010001#32⟩

/-- `sdp_register_service`. -/
def registerService (db : SdpDb) (record : ServiceRecord) :
    Except KernelError (BitVec 32) × SdpDb :=
  let handle := db.nextHandle
  let db := { db with nextHandle := db.nextHandle + 1#32 }
  match (List.finRange maxServiceRecords).find? fun i => !(db.records i).valid with
  | some i =>
      let record := { record with handle := handle, valid := true }
      (.ok handle, { db with records := Function.update db.records i record })
  | none => (.error .resourceExhausted, db)

/-- `sdp_unregister_service`. -/
def unregisterService (db : SdpDb) (handle : BitVec 32) : SdpDb :=
  match (List.finRange maxServiceRecords).find? fun i =>
      (db.records i).valid && (db.records i).handle == handle with
  | some i =>
      let record := { db.records i with valid := false }
      { db with records := Function.update db.records i record }
  | none => db

/-- The records that are in use. -/
def validRecords (db : SdpDb) : List ServiceRecord :=
  (List.ofFn db.records).filter ServiceRecord.valid

/-! ### Responses -/

/-- The loop of `handle_service_search`: the buffer, and the number of handles written. -/
def searchLoop : List ServiceRecord → List (BitVec 8) → ℕ → BitVec 16 →
    Option (List (BitVec 8) × BitVec 16)
  | [], buf, _, n => some (buf, n)
  | rec :: rest, buf, off, n => do
      let buf ← Buf.write buf off (beBytes32 rec.handle)
      searchLoop rest buf (off + 4) (n + 1#16)

/-- `handle_service_search`: the PDU that is sent. -/
def handleServiceSearch (db : SdpDb) (tid : BitVec 16) : Option (List (BitVec 8)) := do
  let buf := List.replicate (7 + maxServiceRecords * 4) 0#8
  let buf ← Buf.write buf 0 [SdpPdu.serviceSearchRsp.byte]
  let buf ← Buf.write buf 1 (beBytes16 tid)
  -- the handles follow the total count directly
  let (buf, n) ← searchLoop db.validRecords buf 7 0#16
  let plen := 2#16 + 2#16 + n * 4#16 + 1#16
  let buf ← Buf.write buf 3 (beBytes16 plen)
  let buf ← Buf.write buf 5 (beBytes16 n)
  let curOff := 7 + n.toNat * 4
  let buf := if curOff < buf.length then buf.set curOff 0#8 else buf
  Buf.slice buf (curOff + 1)

/-- `serialize_attrs`: the buffer, and the number of bytes written. -/
def serializeAttrs : List SdpAttr → List (BitVec 8) → ℕ → Option (List (BitVec 8) × ℕ)
  | [], out, off => some (out, off)
  | attr :: rest, out, off =>
      let n := attr.dataLen.toNat
      if out.length < off + 3 + n then some (out, off)
      else do
        let out ← Buf.write out off (0x09#8 :: beBytes16 attr.id)
        let data ← Buf.slice (List.ofFn attr.data) n
        let out ← Buf.write out (off + 3) data
        serializeAttrs rest out (off + 3 + n)

/-- `send_attr_rsp`: the PDU that is sent. -/
def sendAttrRsp (tid : BitVec 16) (pdu : SdpPdu) (attrs : List (BitVec 8)) :
    Option (List (BitVec 8)) := do
  let plen := BitVec.ofNat 16 (2 + attrs.length + 1)
  let hdr := pdu.byte :: (beBytes16 tid ++ beBytes16 plen ++
    beBytes16 (BitVec.ofNat 16 attrs.length))
  let buf := List.replicate (7 + 1024 + 1) 0#8
  let buf ← Buf.write buf 0 hdr
  let n := min attrs.length 1024
  let body ← Buf.slice attrs n
  let buf ← Buf.write buf 7 body
  let buf ← Buf.write buf (7 + n) [0#8]
  Buf.slice buf (7 + n + 1)

/-- `send_error_rsp`: the PDU that is sent. -/
def sendErrorRsp (tid errorCode : BitVec 16) : List (BitVec 8) :=
  SdpPdu.errorRsp.byte :: (beBytes16 tid ++ beBytes16 2#16 ++ beBytes16 errorCode)

/-- `handle_service_attr`: the PDUs that are sent. -/
def handleServiceAttr (db : SdpDb) (tid : BitVec 16) (params : List (BitVec 8)) :
    Option (List (List (BitVec 8))) :=
  if params.length < 4 then some []
  else
    let handle := beWord32 params 0
    match db.validRecords.find? fun r => r.handle == handle with
    | none => some [sendErrorRsp tid 0x0002#16]
    | some rec => do
        let (body, len) ← serializeAttrs rec.validAttrs (List.replicate 512 0#8) 0
        let attrs ← Buf.slice body len
        let pdu ← sendAttrRsp tid .serviceAttrRsp attrs
        return [pdu]

/-- The loop of `handle_service_search_attr`: each record is serialized behind the ones before. -/
def searchAttrLoop : List ServiceRecord → List (BitVec 8) → ℕ → Option (List (BitVec 8) × ℕ)
  | [], body, total => some (body, total)
  | rec :: rest, body, total => do
      -- `&mut body[total..]`
      let front ← Buf.slice body total
      let (out, len) ← serializeAttrs rec.validAttrs (body.drop total) 0
      searchAttrLoop rest (front ++ out) (total + len)

/-- `handle_service_search_attr`: the PDU that is sent. -/
def handleServiceSearchAttr (db : SdpDb) (tid : BitVec 16) : Option (List (BitVec 8)) := do
  let (body, total) ← searchAttrLoop db.validRecords (List.replicate 1024 0#8) 0
  let attrs ← Buf.slice body total
  sendAttrRsp tid .serviceSearchAttrRsp attrs

/-- `sdp_recv_pdu`: the PDUs that are sent back on the channel. -/
def recvPdu (db : SdpDb) (data : List (BitVec 8)) : Option (List (List (BitVec 8))) :=
  if data.length < 5 then some []
  else
    let pduId := data.getD 0 0#8
    let tid := beWord16 data 1
    let params := data.drop 5
    if pduId = SdpPdu.serviceSearchReq.byte then do
      let pdu ← db.handleServiceSearch tid
      return [pdu]
    else if pduId = SdpPdu.serviceAttrReq.byte then db.handleServiceAttr tid params
    else if pduId = SdpPdu.serviceSearchAttrReq.byte then do
      let pdu ← db.handleServiceSearchAttr tid
      return [pdu]
    else some [sendErrorRsp tid 0x0003#16]

/-! ### The law -/

/-- The parameter length in the header of a PDU is the number of bytes that follow the header. -/
def Framed (pdu : List (BitVec 8)) : Prop :=
  5 ≤ pdu.length ∧ (beWord16 pdu 3).toNat = pdu.length - 5

/-- The parameters of the response to a search: the total count, the current count, as many handles,
and the continuation state. -/
def SearchResponse (pdu : List (BitVec 8)) : Prop :=
  ∃ (total current : BitVec 16) (handles : List (BitVec 32)) (cont : BitVec 8),
    handles.length = current.toNat ∧
      pdu.drop 5 = beBytes16 total ++ beBytes16 current ++ handles.flatMap beBytes32 ++ [cont]

/-- The law: a request is answered without a fault, and every PDU that is sent is well formed. -/
def WellServed (db : SdpDb) (data : List (BitVec 8)) : Prop :=
  ∃ pdus, db.recvPdu data = some pdus ∧ ∀ pdu ∈ pdus, Framed pdu ∧
    (pdu.head? = some SdpPdu.serviceSearchRsp.byte → SearchResponse pdu)

/-! ### Attributes that are serialized without a fault -/

/-- With `room` bytes left, every attribute that fits has room for as many bytes as it claims. -/
def AttrsFit : List SdpAttr → ℕ → Prop
  | [], _ => True
  | attr :: rest, room => 3 + attr.dataLen.toNat ≤ room →
      attr.dataLen.toNat ≤ maxAttrData ∧ AttrsFit rest (room - (3 + attr.dataLen.toNat))

/-- The number of bytes of the attributes that fit, with `room` bytes left. -/
def attrsLen : List SdpAttr → ℕ → ℕ
  | [], _ => 0
  | attr :: rest, room =>
      if 3 + attr.dataLen.toNat ≤ room then
        3 + attr.dataLen.toNat + attrsLen rest (room - (3 + attr.dataLen.toNat))
      else 0

/-- The attributes of records that are serialized one behind the other. -/
def RecordsFit : List ServiceRecord → ℕ → Prop
  | [], _ => True
  | rec :: rest, room =>
      AttrsFit rec.validAttrs room ∧ RecordsFit rest (room - attrsLen rec.validAttrs room)

/-- The requests that are answered as they should be. -/
def Servable (db : SdpDb) (data : List (BitVec 8)) : Prop :=
  5 ≤ data.length →
    data.getD 0 0#8 ≠ SdpPdu.serviceSearchReq.byte ∧
    (data.getD 0 0#8 = SdpPdu.serviceAttrReq.byte → 9 ≤ data.length →
      ∀ rec ∈ db.validRecords.find? fun r => r.handle == beWord32 (data.drop 5) 0,
        AttrsFit rec.validAttrs 512) ∧
    (data.getD 0 0#8 = SdpPdu.serviceSearchAttrReq.byte → RecordsFit db.validRecords 1024)

theorem attrsLen_le (attrs : List SdpAttr) (room : ℕ) : attrsLen attrs room ≤ room := by
  induction attrs generalizing room with
  | nil => exact Nat.zero_le _
  | cons attr rest ih =>
      rw [attrsLen]
      split
      · have := ih (room - (3 + attr.dataLen.toNat))
        omega
      · exact Nat.zero_le _

/-- Attributes that do not claim more bytes than they have room for fit in any room. -/
theorem attrsFit_of_le {attrs : List SdpAttr} (h : ∀ a ∈ attrs, a.dataLen.toNat ≤ maxAttrData)
    (room : ℕ) : AttrsFit attrs room := by
  induction attrs generalizing room with
  | nil => trivial
  | cons attr rest ih =>
      rw [List.forall_mem_cons] at h
      exact fun _ => ⟨h.1, ih h.2 _⟩

/-- Serializing attributes: the bytes of those that fit are written, unless one of them claims more
bytes than it has room for. -/
theorem serializeAttrs_spec (attrs : List SdpAttr) {out : List (BitVec 8)} {off : ℕ}
    (hoff : off ≤ out.length) :
    (AttrsFit attrs (out.length - off) → ∃ out', out'.length = out.length ∧
      serializeAttrs attrs out off = some (out', off + attrsLen attrs (out.length - off))) ∧
    (¬ AttrsFit attrs (out.length - off) → serializeAttrs attrs out off = none) := by
  induction attrs generalizing out off with
  | nil => exact ⟨fun _ => ⟨out, rfl, rfl⟩, fun h => absurd trivial h⟩
  | cons attr rest ih =>
      rw [serializeAttrs, attrsLen, AttrsFit]
      by_cases hroom : 3 + attr.dataLen.toNat ≤ out.length - off
      · have hid : (0x09#8 :: beBytes16 attr.id).length = 3 := rfl
        have hle : off + (0x09#8 :: beBytes16 attr.id).length ≤ out.length := by omega
        rw [if_neg (by omega), if_pos hroom, Buf.write_of_le hle]
        obtain ⟨-, hlen⟩ := Buf.write_eq_some (Buf.write_of_le hle)
        generalize List.take off out ++ _ ++ _ = out₁ at hlen ⊢
        by_cases hdata : attr.dataLen.toNat ≤ maxAttrData
        · have hslice : ∃ data : List (BitVec 8), data.length = attr.dataLen.toNat ∧
              Buf.slice (List.ofFn attr.data) attr.dataLen.toNat = some data := by
            refine ⟨_, ?_, Buf.slice_of_le (by simpa using hdata)⟩
            rw [List.length_take, List.length_ofFn]
            exact Nat.min_eq_left hdata
          obtain ⟨data, hdlen, hslice⟩ := hslice
          have hle₂ : off + 3 + data.length ≤ out₁.length := by omega
          have hwrite := Buf.write_of_le hle₂
          obtain ⟨-, hlen₂⟩ := Buf.write_eq_some hwrite
          generalize List.take (off + 3) out₁ ++ _ ++ _ = out₂ at hwrite hlen₂
          have hrest : out₂.length - (off + 3 + attr.dataLen.toNat) =
              out.length - off - (3 + attr.dataLen.toNat) := by omega
          have hoff₂ : off + 3 + attr.dataLen.toNat ≤ out₂.length := by omega
          have hrec := ih hoff₂
          rw [hrest] at hrec
          simp only [Option.bind_eq_bind, Option.bind_some, hslice, hwrite]
          refine ⟨fun hfit => ?_, fun hfit => hrec.2 fun h => hfit fun _ => ⟨hdata, h⟩⟩
          obtain ⟨out', hlen', hrun⟩ := hrec.1 (hfit hroom).2
          refine ⟨out', by omega, ?_⟩
          rw [hrun]
          congr 2
          omega
        · have hslice : Buf.slice (List.ofFn attr.data) attr.dataLen.toNat = none :=
            Buf.slice_eq_none (by simpa using hdata)
          simp only [Option.bind_eq_bind, Option.bind_some, hslice, Option.bind_none]
          exact ⟨fun hfit => absurd (hfit hroom).1 hdata, fun _ => trivial⟩
      · rw [if_pos (by omega), if_neg hroom]
        exact ⟨fun _ => ⟨out, rfl, rfl⟩, fun h => absurd (fun hle => absurd hle hroom) h⟩

/-- Serializing the attributes of all records. -/
theorem searchAttrLoop_spec (recs : List ServiceRecord) {body : List (BitVec 8)} {total : ℕ}
    (htotal : total ≤ body.length) :
    (RecordsFit recs (body.length - total) → ∃ body' total', body'.length = body.length ∧
      total' ≤ body.length ∧ searchAttrLoop recs body total = some (body', total')) ∧
    (¬ RecordsFit recs (body.length - total) → searchAttrLoop recs body total = none) := by
  induction recs generalizing body total with
  | nil => exact ⟨fun _ => ⟨body, total, rfl, htotal, rfl⟩, fun h => absurd trivial h⟩
  | cons rec rest ih =>
      rw [searchAttrLoop, RecordsFit, Buf.slice_of_le htotal]
      have hspec := serializeAttrs_spec rec.validAttrs (Nat.zero_le (body.drop total).length)
      rw [List.length_drop, Nat.sub_zero] at hspec
      have hle := attrsLen_le rec.validAttrs (body.length - total)
      by_cases hfit : AttrsFit rec.validAttrs (body.length - total)
      · obtain ⟨out, hlen, hrun⟩ := hspec.1 hfit
        rw [Nat.zero_add] at hrun
        simp only [Option.bind_eq_bind, Option.bind_some, hrun]
        have hbody : (body.take total ++ out).length = body.length := by
          rw [List.length_append, List.length_take, hlen]
          omega
        have htotal' : total + attrsLen rec.validAttrs (body.length - total) ≤
            (body.take total ++ out).length := by omega
        have hrec := ih htotal'
        rw [hbody, Nat.sub_add_eq] at hrec
        exact ⟨fun h => hrec.1 h.2, fun h => hrec.2 fun hrest => h ⟨hfit, hrest⟩⟩
      · simp only [Option.bind_eq_bind, Option.bind_some, hspec.2 hfit, Option.bind_none]
        exact ⟨fun h => absurd h.1 hfit, fun _ => trivial⟩

/-! ### The response to a search -/

theorem length_flatMap_beBytes32 (handles : List (BitVec 32)) :
    (handles.flatMap beBytes32).length = 4 * handles.length := by
  induction handles with
  | nil => rfl
  | cons h rest ih =>
      rw [List.flatMap_cons, List.length_append, ih, List.length_cons]
      change 4 + 4 * rest.length = _
      omega

/-- The loop writes the handles one behind the other, as long as they fit. -/
theorem searchLoop_eq (recs : List ServiceRecord) (front back : List (BitVec 8)) (n : BitVec 16)
    (h : 4 * recs.length ≤ back.length) :
    searchLoop recs (front ++ back) front.length n =
      some (front ++ (recs.map ServiceRecord.handle).flatMap beBytes32 ++
        back.drop (4 * recs.length), n + BitVec.ofNat 16 recs.length) := by
  induction recs generalizing front back n with
  | nil => simp [searchLoop]
  | cons rec rest ih =>
      rw [List.length_cons] at h
      have hsplit : back = back.take 4 ++ back.drop 4 := (List.take_append_drop 4 back).symm
      have hwrite : Buf.write (front ++ back) front.length (beBytes32 rec.handle) =
          some (front ++ beBytes32 rec.handle ++ back.drop 4) := by
        rw [hsplit, List.append_assoc front]
        refine Buf.write_mid _ _ _ _ ?_ |>.trans (by simp)
        rw [List.length_take]
        exact Nat.min_eq_left (by omega)
      have hlen : (front ++ beBytes32 rec.handle).length = front.length + 4 := by
        rw [List.length_append]
        rfl
      rw [searchLoop, hwrite]
      simp only [Option.bind_eq_bind, Option.bind_some]
      rw [← hlen, ih _ _ _ (by rw [List.length_drop]; omega), List.map_cons, List.flatMap_cons,
        List.drop_drop, List.length_cons, BitVec.add_assoc, Nat.mul_succ, Nat.add_comm _ 4,
        List.append_assoc front, BitVec.ofNat_add, BitVec.add_comm (1#16)]

/-- The handles in a table. -/
def handles (db : SdpDb) : List (BitVec 32) := db.validRecords.map ServiceRecord.handle

theorem length_handles_le (db : SdpDb) : db.handles.length ≤ maxServiceRecords := by
  rw [handles, List.length_map]
  exact (List.length_filter_le _ _).trans (List.length_ofFn (f := db.records)).le

/-- Overwriting the two words behind the transaction identifier. -/
theorem write_words (c x y a b d e : BitVec 8) (v w : BitVec 16) (rest : List (BitVec 8)) :
    (Buf.write (c :: x :: y :: a :: b :: d :: e :: rest) 3 (beBytes16 v)).bind
        (fun buf => Buf.write buf 5 (beBytes16 w)) =
      some (c :: x :: y :: (beBytes16 v ++ (beBytes16 w ++ rest))) := by
  have h3 : Buf.write (c :: x :: y :: a :: b :: d :: e :: rest) 3 (beBytes16 v) =
      some (c :: x :: y :: (beBytes16 v ++ d :: e :: rest)) :=
    Buf.write_mid [c, x, y] [a, b] (d :: e :: rest) (beBytes16 v) rfl
  have h5 : Buf.write (c :: x :: y :: (beBytes16 v ++ d :: e :: rest)) 5 (beBytes16 w) =
      some (c :: x :: y :: (beBytes16 v ++ (beBytes16 w ++ rest))) :=
    Buf.write_mid (c :: x :: y :: beBytes16 v) [d, e] rest (beBytes16 w) rfl
  rw [h3, Option.bind_some, h5]

/-- The parameter length of a response with `n` handles. -/
theorem searchParamLen_eq (n : ℕ) :
    2#16 + 2#16 + BitVec.ofNat 16 n * 4#16 + 1#16 = BitVec.ofNat 16 (5 + 4 * n) := by
  refine BitVec.eq_of_toNat_eq ?_
  have htwo : 2#16 + 2#16 = 4#16 := rfl
  rw [htwo, BitVec.toNat_add, BitVec.toNat_add, BitVec.toNat_mul]
  simp only [BitVec.toNat_ofNat]
  omega

/-- The handles that the loop writes behind the header. -/
theorem searchLoop_handles (db : SdpDb) (tid : BitVec 16) :
    searchLoop db.validRecords
      (SdpPdu.serviceSearchRsp.byte :: (beBytes16 tid ++ [0#8, 0#8, 0#8, 0#8]) ++
        List.replicate 64 0#8) 7 0#16 =
      some (SdpPdu.serviceSearchRsp.byte :: (beBytes16 tid ++ 0#8 :: 0#8 :: 0#8 :: 0#8 ::
        (db.handles.flatMap beBytes32 ++ List.replicate (64 - 4 * db.handles.length) 0#8)),
        BitVec.ofNat 16 db.handles.length) := by
  have hle : db.handles.length ≤ 16 := db.length_handles_le
  have hrecs : db.validRecords.length = db.handles.length := (List.length_map _).symm
  have h := searchLoop_eq db.validRecords
    (SdpPdu.serviceSearchRsp.byte :: (beBytes16 tid ++ [0#8, 0#8, 0#8, 0#8]))
    (List.replicate 64 0#8) 0#16 (by rw [hrecs, List.length_replicate]; omega)
  rw [List.drop_replicate, hrecs, BitVec.zero_add] at h
  refine h.trans ?_
  simp [handles]

/-- The response to a search, and the fault in a full table. -/
theorem handleServiceSearch_eq (db : SdpDb) (tid : BitVec 16) :
    db.handleServiceSearch tid =
      if db.handles.length < maxServiceRecords then
        some (SdpPdu.serviceSearchRsp.byte :: (beBytes16 tid ++
          (beBytes16 (BitVec.ofNat 16 (5 + 4 * db.handles.length)) ++
          (beBytes16 (BitVec.ofNat 16 db.handles.length) ++
          (db.handles.flatMap beBytes32 ++ [0#8])))))
      else none := by
  have hle : db.handles.length ≤ 16 := db.length_handles_le
  have hcount : (BitVec.ofNat 16 db.handles.length).toNat = db.handles.length := by
    rw [BitVec.toNat_ofNat]
    exact Nat.mod_eq_of_lt (by omega)
  have hplen := searchParamLen_eq db.handles.length
  -- seven bytes of header, and room for the handles
  have hid : Buf.write (List.replicate (7 + maxServiceRecords * 4) 0#8) 0
      [SdpPdu.serviceSearchRsp.byte] =
        some (SdpPdu.serviceSearchRsp.byte :: List.replicate 70 0#8) := rfl
  have htid : Buf.write (SdpPdu.serviceSearchRsp.byte :: List.replicate 70 0#8) 1 (beBytes16 tid) =
      some (SdpPdu.serviceSearchRsp.byte :: (beBytes16 tid ++ [0#8, 0#8, 0#8, 0#8]) ++
        List.replicate 64 0#8) := rfl
  have hloop := db.searchLoop_handles tid
  have hwords := write_words SdpPdu.serviceSearchRsp.byte (tid.extractLsb' 8 8)
    (tid.extractLsb' 0 8) 0#8 0#8 0#8 0#8 (BitVec.ofNat 16 (5 + 4 * db.handles.length))
    (BitVec.ofNat 16 db.handles.length)
    (db.handles.flatMap beBytes32 ++ List.replicate (64 - 4 * db.handles.length) 0#8)
  have hH : (db.handles.flatMap beBytes32).length = 4 * db.handles.length :=
    length_flatMap_beBytes32 db.handles
  generalize db.handles.flatMap beBytes32 = H at hloop hwords hH ⊢
  simp only [handleServiceSearch, Option.bind_eq_bind, hid, htid, hloop, Option.bind_some, hplen,
    hcount]
  obtain ⟨buf, hplen', hcount'⟩ := Option.bind_eq_some_iff.1 hwords
  have hbuf : Buf.write (SdpPdu.serviceSearchRsp.byte :: (beBytes16 tid ++
      0#8 :: 0#8 :: 0#8 :: 0#8 :: (H ++ List.replicate (64 - 4 * db.handles.length) 0#8))) 3
      (beBytes16 (BitVec.ofNat 16 (5 + 4 * db.handles.length))) = some buf := hplen'
  rw [hbuf, Option.bind_some, hcount', Option.bind_some]
  obtain ⟨front, hfront⟩ : ∃ front, front = SdpPdu.serviceSearchRsp.byte :: (beBytes16 tid ++
      (beBytes16 (BitVec.ofNat 16 (5 + 4 * db.handles.length)) ++
        (beBytes16 (BitVec.ofNat 16 db.handles.length) ++ H))) := ⟨_, rfl⟩
  have hlen : front.length = 7 + db.handles.length * 4 := by
    rw [hfront]
    simp only [beBytes16, List.cons_append, List.nil_append, List.length_cons, hH]
    omega
  have hsplit : ∀ Z, SdpPdu.serviceSearchRsp.byte :: BitVec.extractLsb' 8 8 tid ::
      BitVec.extractLsb' 0 8 tid :: (beBytes16 (BitVec.ofNat 16 (5 + 4 * db.handles.length)) ++
        (beBytes16 (BitVec.ofNat 16 db.handles.length) ++ (H ++ Z))) = front ++ Z := by
    intro Z
    rw [hfront]
    rfl
  have hresult : SdpPdu.serviceSearchRsp.byte :: (beBytes16 tid ++
      (beBytes16 (BitVec.ofNat 16 (5 + 4 * db.handles.length)) ++
        (beBytes16 (BitVec.ofNat 16 db.handles.length) ++ (H ++ [0#8])))) = front ++ [0#8] := by
    rw [hfront]
    rfl
  rw [hsplit, hresult, ← hlen]
  split
  · rename_i hfull
    rw [List.length_append, List.length_replicate] at hfull
    obtain ⟨k, hk⟩ : ∃ k, 64 - 4 * db.handles.length = k + 1 :=
      ⟨64 - 4 * db.handles.length - 1, by omega⟩
    have hroom : db.handles.length < maxServiceRecords := by
      change db.handles.length < 16
      omega
    rw [if_pos hroom, hk, List.replicate_succ, List.set_append_right _ _ le_rfl, Nat.sub_self,
      List.set_cons_zero, List.append_cons]
    exact Buf.slice_left (by simp)
  · rename_i hfull
    rw [List.length_append, List.length_replicate] at hfull
    have hroom : ¬ db.handles.length < maxServiceRecords := by
      change ¬ db.handles.length < 16
      omega
    rw [if_neg hroom]
    refine Buf.slice_eq_none ?_
    rw [List.length_append, List.length_replicate]
    omega

/-! ### Headers -/

/-- The word behind the transaction identifier is the parameter length. -/
theorem beWord16_header (c : BitVec 8) (tid plen : BitVec 16) (rest : List (BitVec 8)) :
    beWord16 (c :: (beBytes16 tid ++ (beBytes16 plen ++ rest))) 3 = plen := by
  change plen.extractLsb' 8 8 ++ plen.extractLsb' 0 8 = plen
  refine BitVec.eq_of_getLsbD_eq fun i hi => ?_
  rw [BitVec.getLsbD_append, BitVec.getLsbD_extractLsb', BitVec.getLsbD_extractLsb']
  by_cases h8 : i < 8
  · simp [h8]
  · have hlow : i - 8 < 8 := by omega
    have hsum : 8 + (i - 8) = i := by omega
    simp [h8, hlow, hsum]

theorem length_header (c : BitVec 8) (tid plen : BitVec 16) (rest : List (BitVec 8)) :
    (c :: (beBytes16 tid ++ (beBytes16 plen ++ rest))).length = 5 + rest.length := by
  simp only [beBytes16, List.cons_append, List.nil_append, List.length_cons]
  omega

/-- A header is right exactly if its parameter length is that of the parameters. -/
theorem framed_iff (c : BitVec 8) (tid plen : BitVec 16) (rest : List (BitVec 8)) :
    Framed (c :: (beBytes16 tid ++ (beBytes16 plen ++ rest))) ↔ plen.toNat = rest.length := by
  rw [Framed, beWord16_header, length_header, Nat.add_sub_cancel_left]
  exact and_iff_right (Nat.le_add_right _ _)

/-- The response with attributes. -/
theorem sendAttrRsp_eq (tid : BitVec 16) (pdu : SdpPdu) {attrs : List (BitVec 8)}
    (h : attrs.length ≤ 1024) :
    sendAttrRsp tid pdu attrs = some (pdu.byte :: (beBytes16 tid ++
      (beBytes16 (BitVec.ofNat 16 (2 + attrs.length + 1)) ++
        (beBytes16 (BitVec.ofNat 16 attrs.length) ++ (attrs ++ [0#8]))))) := by
  obtain ⟨hdr, hhdr⟩ : ∃ hdr, hdr = pdu.byte :: (beBytes16 tid ++
      beBytes16 (BitVec.ofNat 16 (2 + attrs.length + 1)) ++
        beBytes16 (BitVec.ofNat 16 attrs.length)) := ⟨_, rfl⟩
  have hlen : hdr.length = 7 := by rw [hhdr]; rfl
  have hwrite : Buf.write (List.replicate (7 + 1024 + 1) 0#8) 0 hdr =
      some (hdr ++ List.replicate 1025 0#8) := by
    have hw := Buf.write_front [] hdr 0#8 (7 + 1024 + 1) (by omega)
    rw [hlen] at hw
    exact hw
  have hbody : Buf.write (hdr ++ List.replicate 1025 0#8) 7 attrs =
      some (hdr ++ attrs ++ List.replicate (1025 - attrs.length) 0#8) := by
    rw [← hlen]
    exact Buf.write_front hdr attrs 0#8 1025 (by omega)
  have hend : Buf.write (hdr ++ attrs ++ List.replicate (1025 - attrs.length) 0#8)
      (7 + attrs.length) [0#8] =
      some (hdr ++ attrs ++ [0#8] ++ List.replicate (1025 - attrs.length - 1) 0#8) := by
    have hoff : 7 + attrs.length = (hdr ++ attrs).length := by rw [List.length_append, hlen]
    rw [hoff]
    exact Buf.write_front (hdr ++ attrs) [0#8] 0#8 (1025 - attrs.length)
      (by rw [List.length_singleton]; omega)
  have hslice : Buf.slice attrs attrs.length = some attrs := by
    rw [Buf.slice_of_le le_rfl, List.take_length]
  have hlast : Buf.slice (hdr ++ attrs ++ [0#8] ++ List.replicate (1025 - attrs.length - 1) 0#8)
      (7 + attrs.length + 1) = some (hdr ++ attrs ++ [0#8]) :=
    Buf.slice_left (by rw [List.length_append, List.length_append, hlen, List.length_singleton])
  simp only [sendAttrRsp, ← hhdr, Nat.min_eq_left h, Option.bind_eq_bind, hwrite, hslice, hbody,
    hend, hlast, Option.bind_some]
  rw [hhdr]
  simp

/-- The response with attributes is right. -/
theorem sendAttrRsp_framed (tid : BitVec 16) (pdu : SdpPdu) (hpdu : pdu ≠ .serviceSearchRsp)
    {attrs : List (BitVec 8)} (h : attrs.length ≤ 1024) :
    ∃ rsp, sendAttrRsp tid pdu attrs = some rsp ∧ Framed rsp ∧
      (rsp.head? = some SdpPdu.serviceSearchRsp.byte → SearchResponse rsp) := by
  refine ⟨_, sendAttrRsp_eq tid pdu h, ?_, fun hhead => ?_⟩
  · rw [framed_iff, BitVec.toNat_ofNat, Nat.mod_eq_of_lt (by omega)]
    simp only [beBytes16, List.cons_append, List.nil_append, List.length_cons, List.length_append,
      List.length_nil]
    omega
  · have hbyte : pdu.byte = SdpPdu.serviceSearchRsp.byte := Option.some.inj hhead
    cases pdu <;> first | exact absurd rfl hpdu | exact absurd hbyte (by decide)

theorem sendErrorRsp_framed (tid errorCode : BitVec 16) :
    Framed (sendErrorRsp tid errorCode) ∧
      ((sendErrorRsp tid errorCode).head? = some SdpPdu.serviceSearchRsp.byte →
        SearchResponse (sendErrorRsp tid errorCode)) := by
  refine ⟨(framed_iff _ _ _ _).2 rfl, fun hhead => ?_⟩
  exact absurd (Option.some.inj hhead) (by decide)

/-- A search is never answered as it should be. -/
theorem handleServiceSearch_not_framed (db : SdpDb) (tid : BitVec 16) {pdu : List (BitVec 8)}
    (h : db.handleServiceSearch tid = some pdu) : ¬ Framed pdu := by
  rw [handleServiceSearch_eq] at h
  split at h
  · rename_i hroom
    cases h
    have hle : db.handles.length < 16 := hroom
    rw [framed_iff, BitVec.toNat_ofNat, Nat.mod_eq_of_lt (by omega), List.length_append,
      List.length_append, length_flatMap_beBytes32]
    change ¬ 5 + 4 * db.handles.length = 2 + (4 * db.handles.length + 1)
    omega
  · cases h

theorem handleServiceAttr_served (db : SdpDb) (tid : BitVec 16) {params : List (BitVec 8)} :
    (∃ pdus, db.handleServiceAttr tid params = some pdus ∧ ∀ pdu ∈ pdus, Framed pdu ∧
      (pdu.head? = some SdpPdu.serviceSearchRsp.byte → SearchResponse pdu)) ↔
    (4 ≤ params.length → ∀ rec ∈ db.validRecords.find? fun r => r.handle == beWord32 params 0,
      AttrsFit rec.validAttrs 512) := by
  rw [handleServiceAttr]
  by_cases hlen : params.length < 4
  · rw [if_pos hlen]
    exact iff_of_true ⟨[], rfl, by simp⟩ fun h => absurd h (not_le.2 hlen)
  · rw [if_neg hlen]
    dsimp only
    cases hfind : db.validRecords.find? fun r => r.handle == beWord32 params 0 with
    | none =>
        refine iff_of_true ⟨_, rfl, ?_⟩ fun _ rec hrec => absurd hrec (Option.not_mem_none _)
        exact List.forall_mem_singleton.2 (sendErrorRsp_framed _ _)
    | some rec =>
        have hspec := serializeAttrs_spec rec.validAttrs
          (Nat.zero_le (List.replicate 512 0#8).length)
        rw [List.length_replicate, Nat.sub_zero] at hspec
        have hle := attrsLen_le rec.validAttrs 512
        by_cases hfit : AttrsFit rec.validAttrs 512
        · obtain ⟨out, hout, hrun⟩ := hspec.1 hfit
          rw [Nat.zero_add] at hrun
          have hattrs : (out.take (attrsLen rec.validAttrs 512)).length ≤ 1024 := by
            rw [List.length_take]
            omega
          obtain ⟨rsp, hsend, hframed⟩ := sendAttrRsp_framed tid .serviceAttrRsp (by decide) hattrs
          refine iff_of_true ⟨[rsp], ?_, List.forall_mem_singleton.2 hframed⟩ ?_
          · simp only [Option.bind_eq_bind, hrun, Option.bind_some,
              Buf.slice_of_le (hle.trans_eq hout.symm), hsend]
            rfl
          · rintro - rec' hrec'
            cases hrec'
            exact hfit
        · refine iff_of_false ?_ fun h => hfit (h (not_lt.1 hlen) rec rfl)
          rintro ⟨pdus, hpdus, -⟩
          simp only [Option.bind_eq_bind, hspec.2 hfit, Option.bind_none] at hpdus
          cases hpdus

theorem handleServiceSearchAttr_served (db : SdpDb) (tid : BitVec 16) :
    (∃ pdu, db.handleServiceSearchAttr tid = some pdu ∧ Framed pdu ∧
      (pdu.head? = some SdpPdu.serviceSearchRsp.byte → SearchResponse pdu)) ↔
    RecordsFit db.validRecords 1024 := by
  have hspec := searchAttrLoop_spec db.validRecords
    (Nat.zero_le (List.replicate 1024 0#8).length)
  rw [List.length_replicate, Nat.sub_zero] at hspec
  by_cases hfit : RecordsFit db.validRecords 1024
  · obtain ⟨body, total, hbody, htotal, hrun⟩ := hspec.1 hfit
    have hattrs : (body.take total).length ≤ 1024 := by
      rw [List.length_take]
      omega
    obtain ⟨rsp, hsend, hframed⟩ := sendAttrRsp_framed tid .serviceSearchAttrRsp (by decide) hattrs
    refine iff_of_true ⟨rsp, ?_, hframed⟩ hfit
    simp only [handleServiceSearchAttr, Option.bind_eq_bind, hrun, Option.bind_some,
      Buf.slice_of_le (htotal.trans_eq hbody.symm), hsend]
  · refine iff_of_false ?_ hfit
    rintro ⟨pdu, hpdu, -⟩
    simp only [handleServiceSearchAttr, Option.bind_eq_bind, hspec.2 hfit, Option.bind_none] at hpdu
    cases hpdu

end SdpDb

/-- For every table and every string of bytes: the request is answered without a fault and with well
formed PDUs exactly if it is not a search, and no attribute that it asks for, and that still fits in
the response, claims more bytes than it has room for. -/
theorem sdp_served_iff (db : SdpDb) (data : List (BitVec 8)) :
    db.WellServed data ↔ db.Servable data := by
  rw [SdpDb.WellServed, SdpDb.recvPdu, SdpDb.Servable]
  by_cases hlen : data.length < 5
  · rw [if_pos hlen]
    exact iff_of_true ⟨[], rfl, by simp⟩ fun h => absurd h (not_le.2 hlen)
  · rw [if_neg hlen, imp_iff_right (not_lt.1 hlen)]
    dsimp only
    by_cases hsearch : data.getD 0 0#8 = SdpPdu.serviceSearchReq.byte
    · rw [if_pos hsearch]
      refine iff_of_false ?_ fun h => h.1 hsearch
      rintro ⟨pdus, hpdus, hall⟩
      obtain ⟨pdu, hpdu, hreturn⟩ := Option.bind_eq_some_iff.1 hpdus
      cases hreturn
      exact SdpDb.handleServiceSearch_not_framed db _ hpdu (hall pdu List.mem_cons_self).1
    rw [if_neg hsearch, and_iff_right hsearch]
    by_cases hattr : data.getD 0 0#8 = SdpPdu.serviceAttrReq.byte
    · have hother : data.getD 0 0#8 ≠ SdpPdu.serviceSearchAttrReq.byte := by
        rw [hattr]
        decide
      rw [if_pos hattr, SdpDb.handleServiceAttr_served, imp_iff_right hattr,
        and_iff_left fun h => absurd h hother, List.length_drop]
      exact imp_congr_left (by omega)
    rw [if_neg hattr, and_iff_right fun h => absurd h hattr]
    by_cases hall : data.getD 0 0#8 = SdpPdu.serviceSearchAttrReq.byte
    · rw [if_pos hall, imp_iff_right hall, ← SdpDb.handleServiceSearchAttr_served db
        (beWord16 data 1)]
      constructor
      · rintro ⟨pdus, hpdus, hframed⟩
        obtain ⟨pdu, hpdu, hreturn⟩ := Option.bind_eq_some_iff.1 hpdus
        cases hreturn
        exact ⟨pdu, hpdu, hframed pdu List.mem_cons_self⟩
      · rintro ⟨pdu, hpdu, hframed⟩
        refine ⟨[pdu], ?_, List.forall_mem_singleton.2 hframed⟩
        rw [hpdu]
        rfl
    · rw [if_neg hall]
      refine iff_of_true ⟨_, rfl, ?_⟩ fun h => absurd h hall
      exact List.forall_mem_singleton.2 (SdpDb.sendErrorRsp_framed _ _)

/-! ### Records that are built with `add_attr` -/

/-- No attribute of a record claims more bytes than it has room for. -/
def ServiceRecord.Built (rec : ServiceRecord) : Prop :=
  ∀ i, (rec.attrs i).dataLen.toNat ≤ maxAttrData

namespace ServiceRecord

theorem built_empty : empty.Built := fun _ => Nat.zero_le _

theorem Built.update {rec : ServiceRecord} (h : rec.Built) (i : Fin maxAttrs) {attr : SdpAttr}
    (hattr : attr.dataLen.toNat ≤ maxAttrData) :
    ({ rec with attrs := Function.update rec.attrs i attr } : ServiceRecord).Built := by
  intro j
  dsimp only
  rw [Function.update_apply]
  split
  · exact hattr
  · exact h j

/-- `add_attr` cuts the data to the room that there is. -/
theorem Built.addAttr {rec rec' : ServiceRecord} (h : rec.Built) {id : BitVec 16}
    {data : List (BitVec 8)} (hadd : rec.addAttr id data = .ok rec') : rec'.Built := by
  have hlen : (BitVec.ofNat 8 (min data.length maxAttrData)).toNat ≤ maxAttrData := by
    rw [BitVec.toNat_ofNat]
    exact (Nat.mod_le _ _).trans (Nat.min_le_right _ _)
  rw [ServiceRecord.addAttr] at hadd
  dsimp only at hadd
  split at hadd
  · cases hadd
    exact h.update _ hlen
  · split at hadd
    · cases hadd
      exact h.update _ hlen
    · cases hadd

theorem Built.validAttrs {rec : ServiceRecord} (h : rec.Built) :
    ∀ a ∈ rec.validAttrs, a.dataLen.toNat ≤ maxAttrData := by
  intro a ha
  obtain ⟨i, rfl⟩ := (List.mem_ofFn' rec.attrs a).1 (List.mem_filter.1 ha).1
  exact h i

end ServiceRecord

namespace SdpDb

/-- The tables that registering such records and unregistering leads to. -/
inductive Built : SdpDb → Prop
  | new : Built new
  | register {db : SdpDb} {record : ServiceRecord} :
      Built db → record.Built → Built (db.registerService record).2
  | unregister {db : SdpDb} (handle : BitVec 32) : Built db → Built (db.unregisterService handle)

theorem Built.records {db : SdpDb} (h : db.Built) : ∀ i, (db.records i).Built := by
  induction h with
  | new => exact fun _ => ServiceRecord.built_empty
  | register _ hrecord ih =>
      intro i
      rw [registerService]
      dsimp only
      split
      · dsimp only
        rw [Function.update_apply]
        split
        · exact hrecord
        · exact ih i
      · exact ih i
  | unregister handle _ ih =>
      intro i
      rw [unregisterService]
      split
      · dsimp only
        rw [Function.update_apply]
        split
        · exact ih _
        · exact ih i
      · exact ih i

theorem Built.recordsFit {db : SdpDb} (h : db.Built) (room : ℕ) :
    RecordsFit db.validRecords room := by
  have hall : ∀ rec ∈ db.validRecords, rec.Built := by
    intro rec hrec
    obtain ⟨i, rfl⟩ := (List.mem_ofFn' db.records rec).1 (List.mem_filter.1 hrec).1
    exact h.records i
  generalize db.validRecords = recs at hall
  induction recs generalizing room with
  | nil => trivial
  | cons rec rest ih =>
      rw [List.forall_mem_cons] at hall
      exact ⟨attrsFit_of_le hall.1.validAttrs room, ih _ hall.2⟩

/-- With records that are built with `add_attr`, the searches are the only requests that are not
answered as they should be. -/
theorem Built.servable_iff {db : SdpDb} (h : db.Built) (data : List (BitVec 8)) :
    db.Servable data ↔
      (5 ≤ data.length → data.getD 0 0#8 ≠ SdpPdu.serviceSearchReq.byte) := by
  refine imp_congr_right fun _ => and_iff_left ⟨fun _ _ rec hrec => ?_, fun _ => h.recordsFit 1024⟩
  obtain ⟨i, rfl⟩ := (List.mem_ofFn' db.records rec).1
    (List.mem_filter.1 (List.mem_of_find?_eq_some hrec)).1
  exact attrsFit_of_le (h.records i).validAttrs 512

end SdpDb

/-- A table with as many records as it has room for. -/
def fullSdpDb : SdpDb :=
  (List.range maxServiceRecords).foldl (fun db _ => (db.registerService ServiceRecord.empty).2)
    SdpDb.new

/-- A search, with transaction identifier 1. -/
def searchRequest : List (BitVec 8) := [2#8, 0#8, 1#8, 0#8, 0#8]

/-- The response to a search in the empty table claims five bytes of parameters and has three, and a
search in a full table is a fault. -/
theorem sdp_search_fails :
    SdpDb.new.recvPdu searchRequest = some [[3#8, 0#8, 1#8, 0#8, 5#8, 0#8, 0#8, 0#8]] ∧
      ¬ SdpDb.new.WellServed searchRequest ∧
      fullSdpDb.recvPdu searchRequest = none ∧ ¬ fullSdpDb.WellServed searchRequest := by
  have hempty : SdpDb.new.recvPdu searchRequest =
      some [[3#8, 0#8, 1#8, 0#8, 5#8, 0#8, 0#8, 0#8]] := by decide +kernel
  have hfull : fullSdpDb.recvPdu searchRequest = none := by decide +kernel
  refine ⟨hempty, ?_, hfull, ?_⟩
  · rintro ⟨pdus, hpdus, hall⟩
    rw [hempty] at hpdus
    cases hpdus
    exact absurd (hall _ List.mem_cons_self).1.2 (by decide)
  · rintro ⟨pdus, hpdus, -⟩
    rw [hfull] at hpdus
    cases hpdus

end StarOS
