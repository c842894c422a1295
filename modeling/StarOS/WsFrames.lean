/-
Decoding WebSocket frames (`WebSocketTransport::decode_frame` in `net/xray.rs`), for any string of
bytes.

The length of a frame may be given in 64 bits, and is added to the length of the header before it is
compared with the string.  If the sum wraps around, the end of the payload is before its start, and
the slice between them is a panic.

* `StarOS.WsFrame`, `StarOS.WsFrame.bytes` — the frames, and their bytes;
* `StarOS.WsSafe`, `StarOS.WsOverrun` — the law, and the headers whose sum wraps around;
* `StarOS.decodeFrame_of_field` — the three forms of the length;
* `StarOS.WsFrame.decodeFrame_bytes`, `StarOS.decodeFrame_sound` — a frame is decoded, whatever
  follows it, and nothing else is;
* `StarOS.ws_decode_safe_iff` — when a string is decoded safely.
-/

import StarOS.ByteFields
import StarOS.Xray

set_option autoImplicit false

namespace StarOS

/-! ### Frames -/

/-- A length in the seven low bits of a byte and the bytes behind it. -/
inductive WsLengthField : BitVec 8 → Bytes → ℕ → Prop
  | short {low : BitVec 8} : low.toNat < 126 → WsLengthField low [] low.toNat
  | medium {ext : Bytes} : ext.length = 2 → WsLengthField 126#8 ext (beNat ext)
  | long {ext : Bytes} : ext.length = 8 → WsLengthField 127#8 ext (beNat ext)

/-- The bit that says that a payload is masked. -/
def maskBit (masked : Bool) : BitVec 8 := if masked then 0x80#8 else 0#8

/-- A payload behind its masking key, or as it is. -/
def maskedPart : Option (Vector (BitVec 8) 4) → Bytes → Bytes
  | some mask, payload => mask.toList ++ maskFrom mask.toList 0 payload
  | none, payload => payload

/-- A frame: its first byte, its length in one of three forms, and its payload, masked or not. -/
structure WsFrame where
  first : BitVec 8
  low : BitVec 8
  ext : Bytes
  mask : Option (Vector (BitVec 8) 4)
  payload : Bytes
  field : WsLengthField low ext payload.length

/-- The bytes of a frame. -/
def WsFrame.bytes (f : WsFrame) : Bytes :=
  f.first :: (maskBit f.mask.isSome ||| f.low) :: f.ext ++ maskedPart f.mask f.payload

/-- The law: the decoder returns; a payload that it returns is that of a frame at the front of the
string, of the length that it returns, and stays the same when more follows. -/
def WsSafe (data : Bytes) : Prop :=
  ∃ out, decodeFrame data = some out ∧ ∀ payload n, out = .ok (payload, n) →
    n ≤ data.length ∧ (∃ f : WsFrame, f.bytes = data.take n ∧ f.payload = payload) ∧
      ∀ more, decodeFrame (data ++ more) = some (.ok (payload, n))

/-- A whole header with a length in 64 bits that adds up to 2^64 with the length of the header. -/
def WsOverrun (data : Bytes) : Prop :=
  ∃ (first : BitVec 8) (ext : Bytes) (masked : Bool) (back : Bytes),
    data = first :: (maskBit masked ||| 127#8) :: ext ++ back ∧ ext.length = 8 ∧
      (masked = true → 4 ≤ back.length) ∧
        2 ^ 64 ≤ 10 + (if masked = true then 4 else 0) + beNat ext

/-! ### Decoding the header -/

section Header

variable {low : BitVec 8} {ext back : Bytes} {len : ℕ} {masked : Bool}

/-- The parts of the second byte. -/
theorem maskBit_or (masked : Bool) (low : BitVec 8) (h : low < 0x80#8) :
    ((maskBit masked ||| low) &&& 0x80#8 != 0#8) = masked ∧
      (maskBit masked ||| low) &&& 0x7F#8 = low := by
  revert low
  cases masked <;> decide +kernel

theorem exists_maskBit (b : BitVec 8) :
    ∃ masked low, b = maskBit masked ||| low ∧ low < 0x80#8 := by
  have h : ∀ b : BitVec 8,
      b = maskBit (b &&& 0x80#8 != 0#8) ||| (b &&& 0x7F#8) ∧ b &&& 0x7F#8 < 0x80#8 := by
    decide +kernel
  exact ⟨_, _, h b⟩

theorem WsLengthField.low_lt (h : WsLengthField low ext len) : low < 0x80#8 := by
  cases h with
  | short hlow =>
      rw [BitVec.lt_def]
      exact hlow.trans (by decide)
  | medium => decide
  | long => decide

/-- A header with a length in one of the three forms is decoded. -/
theorem decodeFrame_of_field (h : WsLengthField low ext len) (first : BitVec 8) (masked : Bool)
    (back : Bytes) :
    decodeFrame (first :: (maskBit masked ||| low) :: ext ++ back) =
      decodeMasked (first :: (maskBit masked ||| low) :: ext ++ back) masked len
        (2 + ext.length) := by
  obtain ⟨hmasked, hlow⟩ := maskBit_or masked low h.low_lt
  have hget : (first :: (maskBit masked ||| low) :: ext ++ back).getD 1 0#8 =
      maskBit masked ||| low := rfl
  have hlen : (first :: (maskBit masked ||| low) :: ext ++ back).length =
      2 + ext.length + back.length := by
    simp only [List.cons_append, List.length_cons, List.length_append]
    omega
  have hext : ∀ n, ext.length = n →
      ((first :: (maskBit masked ||| low) :: ext ++ back).drop 2).take n = ext := by
    rintro n rfl
    exact List.take_left
  have h126 : (126#8).toNat = 126 := rfl
  have h127 : (127#8).toNat = 127 := rfl
  rw [decodeFrame, if_neg (by omega), hget, hmasked, hlow]
  dsimp only
  cases h with
  | short hshort => rw [if_neg (by omega), if_neg (by omega)]; rfl
  | medium h2 => rw [if_pos h126, if_neg (by omega), hext 2 h2, h2]
  | long h8 => rw [if_neg (by decide), if_pos h127, if_neg (by omega), hext 8 h8, h8]

/-- A string without a whole header is refused. -/
theorem decodeFrame_cases (data : Bytes) :
    (∃ e, decodeFrame data = some (.error e)) ∨
      ∃ first masked low ext back len, data = first :: (maskBit masked ||| low) :: ext ++ back ∧
        WsLengthField low ext len := by
  match data with
  | [] => exact .inl ⟨_, rfl⟩
  | [_] => exact .inl ⟨_, rfl⟩
  | first :: b :: rest =>
      obtain ⟨masked, low, rfl, hlt⟩ := exists_maskBit b
      obtain ⟨hmasked, hlow⟩ := maskBit_or masked low hlt
      by_cases hshort : low.toNat < 126
      · exact .inr ⟨first, masked, low, [], rest, _, rfl, .short hshort⟩
      have hget : (first :: (maskBit masked ||| low) :: rest).getD 1 0#8 =
          maskBit masked ||| low := rfl
      have hlen : (first :: (maskBit masked ||| low) :: rest).length = rest.length + 2 := rfl
      rw [BitVec.lt_def] at hlt
      have hcases : low = 126#8 ∨ low = 127#8 := by
        rw [← BitVec.toNat_inj, ← BitVec.toNat_inj]
        change low.toNat = 126 ∨ low.toNat = 127
        change low.toNat < 128 at hlt
        omega
      rcases hcases with rfl | rfl
      · by_cases hrest : rest.length < 2
        · refine .inl ⟨.invalidParameter "WS frame truncated", ?_⟩
          rw [decodeFrame, if_neg (by omega), hget, hmasked, hlow]
          dsimp only
          rw [if_pos (show (126#8).toNat = 126 from rfl), if_pos (by omega)]
        · exact .inr ⟨first, masked, _, rest.take 2, rest.drop 2, _, by
            rw [List.cons_append, List.cons_append, List.take_append_drop],
            .medium (List.length_take_of_le (by omega))⟩
      · by_cases hrest : rest.length < 8
        · refine .inl ⟨.invalidParameter "WS frame truncated", ?_⟩
          rw [decodeFrame, if_neg (by omega), hget, hmasked, hlow]
          dsimp only
          rw [if_neg (by decide), if_pos (show (127#8).toNat = 127 from rfl), if_pos (by omega)]
        · exact .inr ⟨first, masked, _, rest.take 8, rest.drop 8, _, by
            rw [List.cons_append, List.cons_append, List.take_append_drop],
            .long (List.length_take_of_le (by omega))⟩

end Header

/-! ### Decoding the payload -/

section Payload

variable {low : BitVec 8} {ext front back payload : Bytes} {len n : ℕ} {masked : Bool}

/-- The payload that a key is applied to, if there is one. -/
def unmasked : Option Bytes → Bytes → Bytes
  | some mask, payload => maskFrom mask 0 payload
  | none, payload => payload

/-- The payload is as long as the header says. -/
theorem decodePayload_append (front back : Bytes) (mask : Option Bytes) (more : Bytes)
    (hlt : front.length + back.length < 2 ^ 64) :
    decodePayload (front ++ (back ++ more)) mask back.length front.length =
      some (.ok (unmasked mask back, front.length + back.length)) := by
  rw [decodePayload, Nat.mod_eq_of_lt hlt, if_neg (by simp only [List.length_append]; omega),
    byteSlice_mid front back more rfl rfl, Option.map_some]
  cases mask <;> rfl

/-- The string is shorter than the header says. -/
theorem decodePayload_short (mask : Option Bytes) (hlt : front.length + len < 2 ^ 64)
    (hshort : back.length < len) :
    decodePayload (front ++ back) mask len front.length =
      some (.error (.invalidParameter "WS payload truncated")) := by
  rw [decodePayload, Nat.mod_eq_of_lt hlt, if_pos (by rw [List.length_append]; omega)]

/-- The sum wraps around to an end before the start. -/
theorem decodePayload_overrun (mask : Option Bytes) (hlen : len < 2 ^ 64)
    (hover : 2 ^ 64 ≤ front.length + len) (hfront : front.length < 2 ^ 64) :
    decodePayload (front ++ back) mask len front.length = none := by
  have hmod : (front.length + len) % 2 ^ 64 = front.length + len - 2 ^ 64 := by
    rw [Nat.mod_eq_sub_mod hover, Nat.mod_eq_of_lt (by omega)]
  rw [decodePayload, hmod, if_neg (by rw [List.length_append]; omega), byteSlice,
    if_neg (by omega)]
  rfl

/-- A masked payload is decoded behind its key. -/
theorem decodeMasked_some (mask : Vector (BitVec 8) 4) :
    decodeMasked (front ++ (mask.toList ++ back)) true len front.length =
      decodePayload (front ++ mask.toList ++ back) (some mask.toList) len
        (front ++ mask.toList).length := by
  have hkey : ((front ++ (mask.toList ++ back)).drop front.length).take 4 = mask.toList := by
    rw [List.drop_left]
    exact List.take_left' Vector.length_toList
  rw [decodeMasked, if_pos rfl, if_neg (by simp), hkey, List.append_assoc, List.length_append,
    Vector.length_toList]

theorem decodeMasked_none : decodeMasked (front ++ back) false len front.length =
    decodePayload (front ++ back) none len front.length := if_neg (by decide)

/-- What is in front of the masking key. -/
theorem length_wsHeader (first second : BitVec 8) (ext : Bytes) :
    (first :: second :: ext).length = 2 + ext.length := by
  rw [List.length_cons, List.length_cons, Nat.add_assoc, Nat.add_comm]

/-- A frame at the front of a string is decoded, whatever follows it. -/
theorem WsFrame.decodeFrame_bytes (f : WsFrame) (hlt : f.bytes.length < 2 ^ 64) (more : Bytes) :
    decodeFrame (f.bytes ++ more) = some (.ok (f.payload, f.bytes.length)) := by
  obtain ⟨first, low, ext, mask, payload, hfield⟩ := f
  have hlen := length_wsHeader first (maskBit mask.isSome ||| low) ext
  have hdecode := decodeFrame_of_field hfield first mask.isSome (maskedPart mask payload ++ more)
  rw [← hlen] at hdecode
  cases mask with
  | none =>
      have hbytes : bytes ⟨first, low, ext, none, payload, hfield⟩ =
          first :: (maskBit false ||| low) :: ext ++ payload := rfl
      rw [hbytes, List.length_append] at hlt ⊢
      rw [List.append_assoc]
      exact (hdecode.trans decodeMasked_none).trans (decodePayload_append _ _ none more hlt)
  | some mask =>
      have hbytes : bytes ⟨first, low, ext, some mask, payload, hfield⟩ =
          first :: (maskBit true ||| low) :: ext ++
            (mask.toList ++ maskFrom mask.toList 0 payload) := rfl
      have hpayload := decodePayload_append (first :: (maskBit true ||| low) :: ext ++ mask.toList)
        (maskFrom mask.toList 0 payload) (some mask.toList) more (by
          rw [← List.length_append, List.append_assoc]
          exact hlt)
      rw [unmasked, maskFrom_maskFrom, ← List.length_append, length_maskFrom,
        List.append_assoc _ mask.toList (maskFrom mask.toList 0 payload), ← hbytes] at hpayload
      rw [maskedPart, List.append_assoc, Option.isSome_some, decodeMasked_some, hpayload] at hdecode
      rw [← hdecode, hbytes, List.append_assoc, List.append_assoc]

/-- A header that does not overrun adds up to less than 2^64 with the length that it gives. -/
theorem WsLengthField.sum_lt (h : WsLengthField low ext len) (first : BitVec 8)
    (hkey : masked = true → 4 ≤ back.length)
    (hsafe : ¬ WsOverrun (first :: (maskBit masked ||| low) :: ext ++ back)) :
    2 + ext.length + (if masked = true then 4 else 0) + len < 2 ^ 64 := by
  have hkeylen : (if masked = true then 4 else 0) ≤ 4 := by split <;> decide
  cases h with
  | short hlow =>
      rw [List.length_nil]
      omega
  | medium h2 =>
      have hlt := beNat_lt ext
      rw [h2] at hlt ⊢
      omega
  | long h8 =>
      by_contra hge
      rw [h8] at hge
      exact hsafe ⟨first, ext, masked, back, rfl, h8, hkey, Nat.le_of_not_lt hge⟩

/-- A string that is not refused, and whose header does not overrun, has a frame at its front. -/
theorem decodeFrame_sound {data : Bytes} (hsafe : ¬ WsOverrun data) :
    (∃ e, decodeFrame data = some (.error e)) ∨
      ∃ (f : WsFrame) (more : Bytes), data = f.bytes ++ more ∧ f.bytes.length < 2 ^ 64 := by
  rcases decodeFrame_cases data with herror | ⟨first, masked, low, ext, back, len, rfl, hfield⟩
  · exact .inl herror
  have hlen := length_wsHeader first (maskBit masked ||| low) ext
  have hdecode := decodeFrame_of_field hfield first masked back
  rw [← hlen] at hdecode
  rw [hdecode]
  cases masked with
  | false =>
      have hsum := hfield.sum_lt first (fun h => by cases h) hsafe
      rw [if_neg (by decide)] at hsum
      rw [decodeMasked_none]
      by_cases hshort : back.length < len
      · exact .inl ⟨_, decodePayload_short none (by omega) hshort⟩
      have htake : (back.take len).length = len := List.length_take_of_le (by omega)
      have hfield' : WsLengthField low ext (back.take len).length := by rwa [htake]
      refine .inr ⟨⟨first, low, ext, none, back.take len, hfield'⟩, back.drop len, ?_, ?_⟩
      · change _ = (first :: (maskBit false ||| low) :: ext ++ back.take len) ++ back.drop len
        rw [List.append_assoc, List.take_append_drop]
      · change (first :: (maskBit false ||| low) :: ext ++ back.take len).length < 2 ^ 64
        rw [List.length_append, hlen, htake]
        omega
  | true =>
      by_cases hkey : back.length < 4
      · refine .inl ⟨.invalidParameter "WS no mask", ?_⟩
        rw [decodeMasked, if_pos rfl, if_pos (by rw [List.length_append]; omega)]
      have hsum := hfield.sum_lt first (fun _ => Nat.le_of_not_lt hkey) hsafe
      obtain ⟨mask, back, rfl⟩ := exists_bytes4 _ (Nat.le_of_not_lt hkey)
      have hfront : (first :: (maskBit true ||| low) :: ext ++ mask.toList).length =
          2 + ext.length + 4 := by
        rw [List.length_append, hlen, Vector.length_toList]
      rw [if_pos rfl] at hsum
      rw [decodeMasked_some]
      by_cases hshort : back.length < len
      · exact .inl ⟨_, decodePayload_short _ (by omega) hshort⟩
      -- the payload is masked twice: once as it was read, and again in the bytes of the frame
      have htake : (maskFrom mask.toList 0 (back.take len)).length = len := by
        rw [length_maskFrom, List.length_take_of_le (by omega)]
      have hfield' : WsLengthField low ext (maskFrom mask.toList 0 (back.take len)).length := by
        rwa [htake]
      have hbytes : WsFrame.bytes ⟨first, low, ext, some mask,
          maskFrom mask.toList 0 (back.take len), hfield'⟩ =
          first :: (maskBit true ||| low) :: ext ++ mask.toList ++ back.take len := by
        change first :: (maskBit true ||| low) :: ext ++
          (mask.toList ++ maskFrom mask.toList 0 (maskFrom mask.toList 0 (back.take len))) = _
        rw [maskFrom_maskFrom, List.append_assoc]
      refine .inr ⟨⟨first, low, ext, some mask, maskFrom mask.toList 0 (back.take len), hfield'⟩,
        back.drop len, ?_, ?_⟩
      · rw [hbytes, List.append_assoc, List.append_assoc, List.take_append_drop]
      · rw [hbytes, List.length_append, hfront, List.length_take_of_le (by omega)]
        omega

/-- A header that overruns is a panic. -/
theorem WsOverrun.decodeFrame {data : Bytes} (h : WsOverrun data) : decodeFrame data = none := by
  obtain ⟨first, ext, masked, back, rfl, h8, hkey, hover⟩ := h
  have hlt : beNat ext < 2 ^ 64 := by
    have hlt := beNat_lt ext
    rwa [h8] at hlt
  have hlen := length_wsHeader first (maskBit masked ||| 127#8) ext
  rw [decodeFrame_of_field (.long h8), ← hlen]
  cases masked with
  | false =>
      rw [if_neg (by decide)] at hover
      rw [decodeMasked_none]
      exact decodePayload_overrun none hlt (by omega) (by omega)
  | true =>
      obtain ⟨mask, back, rfl⟩ := exists_bytes4 _ (hkey rfl)
      have hfront : (first :: (maskBit true ||| 127#8) :: ext ++ mask.toList).length =
          2 + ext.length + 4 := by
        rw [List.length_append, hlen, Vector.length_toList]
      rw [if_pos rfl] at hover
      rw [decodeMasked_some]
      exact decodePayload_overrun _ hlt (by omega) (by omega)

end Payload

/-- **When a string is decoded safely.**  The decoder returns, and a payload is that of a frame at
the front of the string whatever follows, unless the header gives a length in 64 bits that adds up
to 2^64 or more with the length of the header. -/
theorem ws_decode_safe_iff (data : Bytes) : WsSafe data ↔ ¬ WsOverrun data := by
  constructor
  · rintro ⟨out, hdecode, -⟩ hover
    rw [hover.decodeFrame] at hdecode
    cases hdecode
  · intro hsafe
    rcases decodeFrame_sound hsafe with ⟨e, herror⟩ | ⟨f, more, rfl, hlt⟩
    · exact ⟨_, herror, fun payload n h => by cases h⟩
    · refine ⟨_, f.decodeFrame_bytes hlt more, fun payload n h => ?_⟩
      cases h
      refine ⟨?_, ⟨f, List.take_left.symm, rfl⟩, fun more' => ?_⟩
      · rw [List.length_append]
        exact Nat.le_add_right _ _
      · rw [List.append_assoc]
        exact f.decodeFrame_bytes hlt (more ++ more')

/-- A header of ten bytes with the length 2^64 - 1: the end of the payload is computed as 9. -/
theorem ws_decode_overrun :
    decodeFrame ([0x82#8, 0x7F#8] ++ List.replicate 8 0xFF#8) = none ∧
      ¬ WsSafe ([0x82#8, 0x7F#8] ++ List.replicate 8 0xFF#8) := by
  have hnone : decodeFrame ([0x82#8, 0x7F#8] ++ List.replicate 8 0xFF#8) = none := by decide
  refine ⟨hnone, ?_⟩
  rintro ⟨out, hdecode, -⟩
  rw [hnone] at hdecode
  cases hdecode

end StarOS
