/-
The transports of a tunnel (`net/xray.rs`).

A payload is framed with its length: in 7, 16 or 64 bits for a WebSocket, where it is also masked
with a rolling key, in 32 bits for gRPC, and in 16 bits for Reality.  `Transport::wrap` does not
look whether the length fits, so that a Reality frame says the length of a large payload modulo
2^16.

* `StarOS.WebSocketTransport.encodeFrame`, `StarOS.decodeFrame` — WebSocket frames;
* `StarOS.grpcEncode`, `StarOS.grpcDecode` — gRPC frames;
* `StarOS.Transport.wrap`, `StarOS.Transport.unwrap` — all transports; a call that panics is `none`;
* `StarOS.transport_lossless_iff` — which payloads come out as they went in.
-/

import StarOS.BigEndian
import StarOS.Error

set_option autoImplicit false

namespace StarOS

/-! ### WebSocket frames -/

/-- `WebSocketTransport`, as far as frames read and write it. -/
structure WebSocketTransport where
  maskKey : BitVec 32
  deriving DecidableEq, Repr

/-- `u32::to_le_bytes`. -/
def leBytes32 (v : BitVec 32) : Bytes :=
  [v.extractLsb' 0 8, v.extractLsb' 8 8, v.extractLsb' 16 8, v.extractLsb' 24 8]

/-- A payload from its byte `i` on, masked. -/
def maskFrom (mask : Bytes) : ℕ → Bytes → Bytes
  | _, [] => []
  | i, b :: payload => (b ^^^ mask.getD (i % 4) 0#8) :: maskFrom mask (i + 1) payload

/-- The length of a payload, with the bit that says that it is masked. -/
def wsLength (len : ℕ) : Bytes :=
  if len < 126 then [0x80#8 ||| BitVec.ofNat 8 len]
  else if len < 65536 then (0x80#8 ||| 126#8) :: beBytes 2 len
  else (0x80#8 ||| 127#8) :: beBytes 8 len

/-- `encode_frame`. -/
def WebSocketTransport.encodeFrame (ws : WebSocketTransport) (payload : Bytes) :
    Bytes × WebSocketTransport :=
  let mask := leBytes32 ws.maskKey
  ([0x82#8] ++ (wsLength payload.length ++ (mask ++ maskFrom mask 0 payload)),
    { ws with maskKey := ws.maskKey + 1#32 })

/-- `decode_frame` from the check of the payload on.  The sum wraps. -/
def decodePayload (data : Bytes) (mask : Option Bytes) (payloadLen offset : ℕ) :
    Option (Except KernelError (Bytes × ℕ)) :=
  let stop := (offset + payloadLen) % 2 ^ 64
  if data.length < stop then some (.error (.invalidParameter "WS payload truncated"))
  else (byteSlice data offset stop).map fun payload =>
    .ok (match mask with
      | some mask => maskFrom mask 0 payload
      | none => payload, stop)

/-- `decode_frame` from the masking key on. -/
def decodeMasked (data : Bytes) (masked : Bool) (payloadLen offset : ℕ) :
    Option (Except KernelError (Bytes × ℕ)) :=
  if masked then
    if data.length < offset + 4 then some (.error (.invalidParameter "WS no mask"))
    else decodePayload data (some ((data.drop offset).take 4)) payloadLen (offset + 4)
  else decodePayload data none payloadLen offset

/-- `decode_frame`. -/
def decodeFrame (data : Bytes) : Option (Except KernelError (Bytes × ℕ)) :=
  if data.length < 2 then some (.error (.invalidParameter "WS frame too short"))
  else
    let masked := data.getD 1 0#8 &&& 0x80#8 != 0#8
    let payloadLen := (data.getD 1 0#8 &&& 0x7F#8).toNat
    if payloadLen = 126 then
      if data.length < 4 then some (.error (.invalidParameter "WS frame truncated"))
      else decodeMasked data masked (beNat ((data.drop 2).take 2)) 4
    else if payloadLen = 127 then
      if data.length < 10 then some (.error (.invalidParameter "WS frame truncated"))
      else decodeMasked data masked (beNat ((data.drop 2).take 8)) 10
    else decodeMasked data masked payloadLen 2

/-! ### gRPC frames -/

/-- `GrpcTransport`; frames do not read it. -/
structure GrpcTransport where
  streamId : BitVec 32
  deriving DecidableEq, Repr

/-- `GrpcTransport::encode`. -/
def grpcEncode (payload : Bytes) : Bytes := [0x00#8] ++ (beBytes 4 payload.length ++ payload)

/-- `GrpcTransport::decode`. -/
def grpcDecode (data : Bytes) : Option (Except KernelError Bytes) :=
  if data.length < 5 then some (.error (.invalidParameter "gRPC frame too short"))
  else
    let len := beNat ((data.drop 1).take 4)
    if data.length < 5 + len then some (.error (.invalidParameter "gRPC frame truncated"))
    else (byteSlice data 5 (5 + len)).map .ok

/-! ### All transports -/

/-- `Transport`.  What Reality transports hold is not looked at by frames. -/
inductive Transport where
  | tcp
  | webSocket (ws : WebSocketTransport)
  | grpc (stream : GrpcTransport)
  | reality
  deriving DecidableEq, Repr

/-- The TLS record of a payload. -/
def realityEncode (payload : Bytes) : Bytes :=
  [0x17#8, 0x03#8, 0x03#8] ++ (beBytes 2 payload.length ++ payload)

/-- The payload of a TLS record. -/
def realityDecode (data : Bytes) : Option (Except KernelError Bytes) :=
  if data.length < 5 ∨ data.getD 0 0#8 ≠ 0x17#8 then
    some (.error (.invalidParameter "not TLS app data"))
  else
    let len := beNat ((data.drop 3).take 2)
    if data.length < 5 + len then some (.error (.invalidParameter "TLS record truncated"))
    else (byteSlice data 5 (5 + len)).map .ok

namespace Transport

/-- `wrap`. -/
def wrap (t : Transport) (payload : Bytes) : Bytes × Transport :=
  match t with
  | .tcp => (payload, .tcp)
  | .webSocket ws => ((ws.encodeFrame payload).1, .webSocket (ws.encodeFrame payload).2)
  | .grpc stream => (grpcEncode payload, .grpc stream)
  | .reality => (realityEncode payload, .reality)

/-- `unwrap`. -/
def unwrap (t : Transport) (data : Bytes) : Option (Except KernelError Bytes) :=
  match t with
  | .tcp => some (.ok data)
  | .webSocket _ => (decodeFrame data).map fun res => res.map Prod.fst
  | .grpc _ => grpcDecode data
  | .reality => realityDecode data

end Transport

/-! ### Frames of one transport -/

section Frames

variable {payload mask : Bytes}

theorem length_maskFrom (i : ℕ) : (maskFrom mask i payload).length = payload.length := by
  induction payload generalizing i with
  | nil => rfl
  | cons b payload ih => rw [maskFrom, List.length_cons, ih, List.length_cons]

/-- Masking twice is masking not at all. -/
theorem maskFrom_maskFrom (i : ℕ) : maskFrom mask i (maskFrom mask i payload) = payload := by
  induction payload generalizing i with
  | nil => rfl
  | cons b payload ih =>
      rw [maskFrom, maskFrom, ih, BitVec.xor_assoc, BitVec.xor_self, BitVec.xor_zero]

/-- The part behind a front of a known length. -/
theorem take_drop_mid (start n : ℕ) {front mid back : Bytes} (hstart : start = front.length)
    (hn : n = mid.length) : ((front ++ (mid ++ back)).drop start).take n = mid := by
  rw [hstart, hn, List.drop_left, List.take_left]

/-- A masked payload behind a front is decoded. -/
theorem decodeMasked_frame (front payload : Bytes) (hmask : mask.length = 4)
    (hlen : front.length + 4 + payload.length < 2 ^ 64) :
    decodeMasked (front ++ (mask ++ maskFrom mask 0 payload)) true payload.length front.length =
      some (.ok (payload, front.length + 4 + payload.length)) := by
  have hlength : (front ++ (mask ++ maskFrom mask 0 payload)).length =
      front.length + 4 + payload.length := by
    rw [List.length_append, List.length_append, length_maskFrom, hmask, Nat.add_assoc]
  have hslice : byteSlice (front ++ (mask ++ maskFrom mask 0 payload)) (front.length + 4)
      (front.length + 4 + payload.length) = some (maskFrom mask 0 payload) := by
    have hfront : front.length + 4 = (front ++ mask).length := by rw [List.length_append, hmask]
    have h := byteSlice_mid (front ++ mask) (maskFrom mask 0 payload) [] hfront
      (congrArg₂ HAdd.hAdd hfront (length_maskFrom 0).symm)
    rwa [List.append_nil, List.append_assoc] at h
  rw [decodeMasked, if_pos rfl, hlength, if_neg (by omega),
    take_drop_mid front.length 4 rfl hmask.symm, decodePayload]
  dsimp only
  rw [Nat.mod_eq_of_lt hlen, hlength, if_neg (by omega), hslice, Option.map_some,
    maskFrom_maskFrom]

/-- The byte of a small length. -/
theorem lengthByte (b : BitVec 8) (h : b < 0x80#8) :
    ((0x80#8 ||| b) &&& 0x80#8 != 0#8) = true ∧ (0x80#8 ||| b) &&& 0x7F#8 = b := by
  revert b
  decide +kernel

/-- A masked frame with a length of 7 bits. -/
theorem decodeFrame_short {data : Bytes} {n : ℕ} (hlen : 2 ≤ data.length) (hn : n < 126)
    (hbyte : data.getD 1 0#8 = 0x80#8 ||| BitVec.ofNat 8 n) :
    decodeFrame data = decodeMasked data true n 2 := by
  obtain ⟨hmasked, hlow⟩ := lengthByte (BitVec.ofNat 8 n) (by
    rw [BitVec.lt_def, BitVec.toNat_ofNat, BitVec.toNat_ofNat]
    omega)
  have htoNat : (BitVec.ofNat 8 n).toNat = n := by
    rw [BitVec.toNat_ofNat]
    omega
  rw [decodeFrame, if_neg (not_lt.2 hlen), hbyte, hmasked, hlow, htoNat]
  dsimp only
  rw [if_neg (by omega), if_neg (by omega)]

/-- A masked frame with a length of 16 bits. -/
theorem decodeFrame_medium {data : Bytes} (hlen : 4 ≤ data.length)
    (hbyte : data.getD 1 0#8 = 0x80#8 ||| 126#8) :
    decodeFrame data = decodeMasked data true (beNat ((data.drop 2).take 2)) 4 := by
  obtain ⟨hmasked, hlow⟩ := lengthByte 126#8 (by decide)
  have heq : (126#8).toNat = 126 := rfl
  rw [decodeFrame, if_neg (by omega), hbyte, hmasked, hlow]
  dsimp only
  rw [if_pos heq, if_neg (not_lt.2 hlen)]

/-- A masked frame with a length of 64 bits. -/
theorem decodeFrame_long {data : Bytes} (hlen : 10 ≤ data.length)
    (hbyte : data.getD 1 0#8 = 0x80#8 ||| 127#8) :
    decodeFrame data = decodeMasked data true (beNat ((data.drop 2).take 8)) 10 := by
  obtain ⟨hmasked, hlow⟩ := lengthByte 127#8 (by decide)
  have hne : (127#8).toNat ≠ 126 := by decide
  have heq : (127#8).toNat = 127 := rfl
  rw [decodeFrame, if_neg (by omega), hbyte, hmasked, hlow]
  dsimp only
  rw [if_neg hne, if_pos heq, if_neg (not_lt.2 hlen)]

/-- What is wrapped into a WebSocket frame is unwrapped. -/
theorem decodeFrame_encodeFrame (ws : WebSocketTransport) (h : payload.length < 2 ^ 32) :
    ∃ len, decodeFrame (ws.encodeFrame payload).1 = some (.ok (payload, len)) := by
  have hmask : (leBytes32 ws.maskKey).length = 4 := rfl
  rw [WebSocketTransport.encodeFrame, wsLength]
  generalize leBytes32 ws.maskKey = mask at hmask
  dsimp only
  -- In each case the front of the frame is what comes before the masking key.
  split
  · rename_i hlt
    have hframe := decodeMasked_frame [0x82#8, 0x80#8 ||| BitVec.ofNat 8 payload.length] payload
      hmask (by
        change 2 + 4 + payload.length < 2 ^ 64
        omega)
    refine ⟨_, (decodeFrame_short ?_ hlt rfl).trans hframe⟩
    exact Nat.le_add_left 2 _
  split
  · rename_i hlt
    have hfront : ([0x82#8, 0x80#8 ||| 126#8] ++ beBytes 2 payload.length).length = 4 := by
      rw [List.length_append, length_beBytes]
      rfl
    have hlen : beNat (beBytes 2 payload.length) = payload.length := by
      rw [beNat_beBytes]
      exact Nat.mod_eq_of_lt hlt
    have hframe := decodeMasked_frame ([0x82#8, 0x80#8 ||| 126#8] ++ beBytes 2 payload.length)
      payload hmask (by omega)
    rw [hfront, List.append_assoc] at hframe
    refine ⟨4 + 4 + payload.length, ?_⟩
    change decodeFrame ([0x82#8, 0x80#8 ||| 126#8] ++
      (beBytes 2 payload.length ++ (mask ++ maskFrom mask 0 payload))) = _
    rw [decodeFrame_medium ?_ rfl, take_drop_mid 2 2 rfl length_beBytes.symm, hlen, hframe]
    rw [← List.append_assoc, List.length_append, hfront]
    exact Nat.le_add_right 4 _
  · have hfront : ([0x82#8, 0x80#8 ||| 127#8] ++ beBytes 8 payload.length).length = 10 := by
      rw [List.length_append, length_beBytes]
      rfl
    have hlen : beNat (beBytes 8 payload.length) = payload.length := by
      rw [beNat_beBytes]
      exact Nat.mod_eq_of_lt (h.trans (by decide))
    have hframe := decodeMasked_frame ([0x82#8, 0x80#8 ||| 127#8] ++ beBytes 8 payload.length)
      payload hmask (by omega)
    rw [hfront, List.append_assoc] at hframe
    refine ⟨10 + 4 + payload.length, ?_⟩
    change decodeFrame ([0x82#8, 0x80#8 ||| 127#8] ++
      (beBytes 8 payload.length ++ (mask ++ maskFrom mask 0 payload))) = _
    rw [decodeFrame_long ?_ rfl, take_drop_mid 2 8 rfl length_beBytes.symm, hlen, hframe]
    rw [← List.append_assoc, List.length_append, hfront]
    exact Nat.le_add_right 10 _

/-- What is wrapped into a gRPC frame is unwrapped. -/
theorem grpcDecode_grpcEncode (h : payload.length < 2 ^ 32) :
    grpcDecode (grpcEncode payload) = some (.ok payload) := by
  have hfront : ([0x00#8] ++ beBytes 4 payload.length).length = 5 := by
    rw [List.length_append, length_beBytes]
    rfl
  have hlength : (grpcEncode payload).length = 5 + payload.length := by
    rw [grpcEncode, ← List.append_assoc, List.length_append, hfront]
  have hlen : beNat (((grpcEncode payload).drop 1).take 4) = payload.length := by
    rw [grpcEncode, take_drop_mid 1 4 rfl length_beBytes.symm, beNat_beBytes]
    exact Nat.mod_eq_of_lt h
  have hslice : byteSlice (grpcEncode payload) 5 (5 + payload.length) = some payload := by
    have h := byteSlice_mid ([0x00#8] ++ beBytes 4 payload.length) payload [] hfront.symm
      (congrArg (· + payload.length) hfront.symm)
    rwa [List.append_nil, List.append_assoc] at h
  rw [grpcDecode, hlength, if_neg (by omega), hlen]
  dsimp only
  rw [if_neg (lt_irrefl _), hslice, Option.map_some]

/-- A Reality frame holds the payload up to its length modulo 2^16. -/
theorem realityDecode_realityEncode (payload : Bytes) :
    realityDecode (realityEncode payload) =
      some (.ok (payload.take (payload.length % 65536))) := by
  have hfront : ([0x17#8, 0x03#8, 0x03#8] ++ beBytes 2 payload.length).length = 5 := by
    rw [List.length_append, length_beBytes]
    rfl
  have hlength : (realityEncode payload).length = 5 + payload.length := by
    rw [realityEncode, ← List.append_assoc, List.length_append, hfront]
  have hlen : beNat (((realityEncode payload).drop 3).take 2) = payload.length % 65536 := by
    rw [realityEncode, take_drop_mid 3 2 rfl length_beBytes.symm, beNat_beBytes]
    rfl
  have hle : payload.length % 65536 ≤ payload.length := Nat.mod_le _ _
  have hslice : byteSlice (realityEncode payload) 5 (5 + payload.length % 65536) =
      some (payload.take (payload.length % 65536)) := by
    have htake := List.length_take_of_le hle
    have h := byteSlice_mid ([0x17#8, 0x03#8, 0x03#8] ++ beBytes 2 payload.length)
      (payload.take (payload.length % 65536)) (payload.drop (payload.length % 65536)) hfront.symm
      (congrArg₂ HAdd.hAdd hfront htake).symm
    rwa [List.take_append_drop, List.append_assoc] at h
  have hfirst : (realityEncode payload).getD 0 0#8 = 0x17#8 := rfl
  rw [realityDecode, hlength, hfirst, if_neg (by rintro (hlt | hne) <;> [omega; exact hne rfl]),
    hlen]
  dsimp only
  rw [if_neg (by omega), hslice, Option.map_some]

end Frames

/-- Every payload below 2^32 bytes is unwrapped as it was wrapped, except by Reality if it has 2^16
bytes or more. -/
theorem transport_lossless_iff (t : Transport) (payload : Bytes) (h : payload.length < 2 ^ 32) :
    (t.wrap payload).2.unwrap (t.wrap payload).1 = some (.ok payload) ↔
      (t = .reality → payload.length < 65536) := by
  cases t with
  | tcp => exact ⟨fun _ heq => (by cases heq), fun _ => rfl⟩
  | webSocket ws =>
      refine ⟨fun _ heq => (by cases heq), fun _ => ?_⟩
      obtain ⟨len, hlen⟩ := decodeFrame_encodeFrame ws h
      dsimp only [Transport.wrap, Transport.unwrap]
      rw [hlen]
      rfl
  | grpc stream => exact ⟨fun _ heq => (by cases heq), fun _ => grpcDecode_grpcEncode h⟩
  | reality =>
      dsimp only [Transport.wrap, Transport.unwrap]
      rw [realityDecode_realityEncode]
      constructor
      · intro heq _
        have hlen := congrArg List.length (Except.ok.inj (Option.some.inj heq))
        rw [List.length_take] at hlen
        omega
      · intro hlt
        rw [Nat.mod_eq_of_lt (hlt rfl), List.take_length]

/-- A short payload through a WebSocket. -/
theorem transport_lossless_hello :
    (Transport.unwrap ((Transport.webSocket ⟨0x12345678#32⟩).wrap [0x68#8, 0x69#8]).2
      ((Transport.webSocket ⟨0x12345678#32⟩).wrap [0x68#8, 0x69#8]).1) =
        some (.ok [0x68#8, 0x69#8]) :=
  (transport_lossless_iff (.webSocket ⟨0x12345678#32⟩) [0x68#8, 0x69#8] (by decide)).2
    fun heq => by cases heq

/-- 2^16 bytes through Reality come out as none. -/
theorem transport_reality_loses :
    ¬ ((Transport.reality.wrap (List.replicate 65536 0x61#8)).2.unwrap
      (Transport.reality.wrap (List.replicate 65536 0x61#8)).1 =
        some (.ok (List.replicate 65536 0x61#8))) := by
  intro h
  have hlen : (List.replicate 65536 0x61#8).length = 65536 := List.length_replicate
  have hdecode := realityDecode_realityEncode (List.replicate 65536 0x61#8)
  rw [hlen] at hdecode
  have heq := Except.ok.inj (Option.some.inj (hdecode.symm.trans h))
  have hzero := congrArg List.length heq
  rw [List.length_take, hlen] at hzero
  omega

end StarOS
