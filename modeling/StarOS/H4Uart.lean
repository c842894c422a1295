/-
Packets of a Bluetooth controller behind a UART (`drivers/bluetooth/hci_uart.rs`).

The bytes of the UART are put together to packets by a state machine with a buffer of 512 bytes.  A
packet that fits is handed to the device when its last byte comes, and the machine is idle again.
Of a longer one the buffer takes the first 512 bytes, and then its length never comes to the length
that is expected: nothing is handed on any more, neither the packet nor what follows it.

* `StarOS.H4Rx`, `StarOS.H4Rx.pushByte` — the machine, and what it does with a byte;
* `StarOS.H4Packet`, `StarOS.H4Packet.encode` — packets and their bytes on the line;
* `StarOS.H4Rx.Holds` — the buffer holds the first bytes of a packet;
* `StarOS.H4Rx.feed_encode` — a packet that fits comes through;
* `StarOS.H4Rx.Stuck` — the machine waits for a length that does not come;
* `StarOS.h4_reassembly_iff` — when a stream of packets comes through.
-/

import StarOS.FdtParser
import StarOS.L2cap
import Mathlib

set_option autoImplicit false

namespace StarOS

/-! ### The code -/

/-- `HCI_EVENT_PKT`. -/
def hciEventPkt : BitVec 8 := 0x04#8

/-- `HCI_ACLDATA_PKT`. -/
def hciAclDataPkt : BitVec 8 := 0x02#8

/-- `H4_BUF_SIZE`. -/
def h4BufSize : ℕ := 512

/-- `H4State`. -/
inductive H4State where
  | idle | header | payload
  deriving DecidableEq, Repr

/-- `H4Rx`. -/
structure H4Rx where
  state : H4State
  pktType : BitVec 8
  buf : Bytes
  bufLen : ℕ
  expected : ℕ
  length_buf : buf.length = h4BufSize
  bufLen_le : bufLen ≤ h4BufSize

/-- A call of `recv_event` or `recv_acl`. -/
inductive HciDelivery where
  | event (data : Bytes)
  | acl (data : Bytes)
  deriving DecidableEq, Repr

/-- What a packet of a type is handed to. -/
def hciDeliver (pktType : BitVec 8) (data : Bytes) : Option HciDelivery :=
  if pktType = hciEventPkt then some (.event data)
  else if pktType = hciAclDataPkt then some (.acl data)
  else none

namespace H4Rx

/-- `H4Rx::new`. -/
def new : H4Rx :=
  ⟨.idle, 0#8, List.replicate h4BufSize 0#8, 0, 0, List.length_replicate, Nat.zero_le _⟩

/-- `H4Rx::reset`. -/
def reset (rx : H4Rx) : H4Rx :=
  { rx with state := .idle, pktType := 0#8, bufLen := 0, expected := 0, bufLen_le := Nat.zero_le _ }

/-- A type byte. -/
def start (rx : H4Rx) (byte : BitVec 8) : H4Rx :=
  let expected := if byte = hciEventPkt then 2 else if byte = hciAclDataPkt then 4 else 0
  { rx with
    pktType := byte
    bufLen := 0
    expected := expected
    state := if 0 < expected then .header else rx.state
    bufLen_le := Nat.zero_le _ }

/-- A byte goes to the buffer, if there is room. -/
def store (rx : H4Rx) (byte : BitVec 8) : H4Rx :=
  if h : rx.bufLen < h4BufSize then
    { rx with
      buf := rx.buf.set rx.bufLen byte
      bufLen := rx.bufLen + 1
      length_buf := List.length_set.trans rx.length_buf
      bufLen_le := h }
  else rx

/-- The length of the payload that the header gives. -/
def payloadLen (rx : H4Rx) : ℕ :=
  if rx.pktType = hciEventPkt then (rx.buf.getD 1 0#8).toNat
  else if rx.pktType = hciAclDataPkt then (leWord rx.buf 2).toNat
  else 0

/-- A header that is complete gives the length of the packet. -/
def size (rx : H4Rx) : H4Rx :=
  if rx.state = .header ∧ rx.bufLen = rx.expected then
    { rx with expected := rx.expected + rx.payloadLen, state := .payload }
  else rx

/-- A packet that is complete is handed on. -/
def finish (rx : H4Rx) : H4Rx × Option HciDelivery :=
  if rx.bufLen = rx.expected ∧ 0 < rx.expected then
    (rx.reset, hciDeliver rx.pktType (rx.buf.take rx.bufLen))
  else (rx, none)

/-- `h4_push_byte`. -/
def pushByte (rx : H4Rx) (byte : BitVec 8) : H4Rx × Option HciDelivery :=
  match rx.state with
  | .idle => (rx.start byte, none)
  | .header => (rx.store byte).size.finish
  | .payload => (rx.store byte).size.finish

/-- The loop of the interrupt handler: byte by byte, with what is handed on at each. -/
def feed : H4Rx → Bytes → H4Rx × List (Option HciDelivery)
  | rx, [] => (rx, [])
  | rx, b :: bs =>
      ((feed (rx.pushByte b).1 bs).1, (rx.pushByte b).2 :: (feed (rx.pushByte b).1 bs).2)

end H4Rx

/-! ### Packets -/

/-- An event with its parameters, or ACL data. -/
inductive H4Packet where
  | event (code : BitVec 8) (params : Bytes) (fits : params.length < 2 ^ 8)
  | acl (handle : BitVec 16) (data : Bytes) (fits : data.length < 2 ^ 16)

namespace H4Packet

/-- The type byte. -/
def type : H4Packet → BitVec 8
  | .event .. => hciEventPkt
  | .acl .. => hciAclDataPkt

/-- The header. -/
def header : H4Packet → Bytes
  | .event code params _ => [code, BitVec.ofNat 8 params.length]
  | .acl handle data _ =>
      [handle.setWidth 8, (handle >>> 8).setWidth 8, BitVec.ofNat 8 data.length,
        BitVec.ofNat 8 (data.length / 256)]

/-- The payload. -/
def payload : H4Packet → Bytes
  | .event _ params _ => params
  | .acl _ data _ => data

/-- The bytes of the packet on the line. -/
def encode (p : H4Packet) : Bytes := p.type :: (p.header ++ p.payload)

/-- The call that the packet is for. -/
def delivery : H4Packet → HciDelivery
  | p@(.event ..) => .event (p.header ++ p.payload)
  | p@(.acl ..) => .acl (p.header ++ p.payload)

/-- What is to be handed on while the bytes of the packet come: the packet, with the last byte. -/
def outcome (p : H4Packet) : List (Option HciDelivery) :=
  List.replicate (p.header ++ p.payload).length none ++ [some p.delivery]

/-- The buffer has room for the packet. -/
def Fits (p : H4Packet) : Prop := (p.header ++ p.payload).length ≤ h4BufSize

@[simp] theorem length_encode (p : H4Packet) :
    p.encode.length = (p.header ++ p.payload).length + 1 := rfl

/-- The buffer has room for every event. -/
theorem fits_event (code : BitVec 8) (params : Bytes) (fits : params.length < 2 ^ 8) :
    (event code params fits).Fits := by
  simp only [Fits, header, payload, List.length_append, List.length_cons, List.length_nil,
    h4BufSize]
  omega

/-- The buffer has room for 508 bytes of ACL data. -/
theorem fits_acl_iff (handle : BitVec 16) (data : Bytes) (fits : data.length < 2 ^ 16) :
    (acl handle data fits).Fits ↔ data.length ≤ 508 := by
  simp only [Fits, header, payload, List.length_append, List.length_cons, List.length_nil,
    h4BufSize]
  omega

theorem hciDeliver_type (p : H4Packet) :
    hciDeliver p.type (p.header ++ p.payload) = some p.delivery := by
  cases p with
  | event code params fits => rfl
  | acl handle data fits => rfl

/-- The header has at most four bytes, of which there is a last one. -/
theorem exists_header (p : H4Packet) :
    ∃ front b, p.header = front ++ [b] ∧ front.length + 1 ≤ 4 := by
  cases p with
  | event code params fits => exact ⟨[code], _, rfl, by simp⟩
  | acl handle data fits => exact ⟨[_, _, _], _, rfl, by simp⟩

theorem encode_eq {p : H4Packet} {front : Bytes} {b : BitVec 8} (hp : p.header = front ++ [b]) :
    p.encode = (p.type :: front) ++ (b :: p.payload) := by
  simp [encode, hp]

end H4Packet

/-! ### A packet in the buffer -/

namespace H4Rx

variable {rx : H4Rx} {st : H4State} {t : BitVec 8} {xs : Bytes} {n : ℕ}

theorem feed_append (rx : H4Rx) (xs ys : Bytes) :
    rx.feed (xs ++ ys) =
      (((rx.feed xs).1.feed ys).1, (rx.feed xs).2 ++ ((rx.feed xs).1.feed ys).2) := by
  induction xs generalizing rx with
  | nil => rfl
  | cons b xs ih => simp [feed, ih]

/-- The machine is in the middle of a packet of a type, and the buffer holds the bytes that have
come; `n` are expected. -/
structure Holds (rx : H4Rx) (st : H4State) (t : BitVec 8) (xs : Bytes) (n : ℕ) : Prop where
  state : rx.state = st
  pktType : rx.pktType = t
  bufLen : rx.bufLen = xs.length
  taken : rx.buf.take xs.length = xs
  expected : rx.expected = n

theorem Holds.getD (h : rx.Holds st t xs n) {i : ℕ} (hi : i < xs.length) :
    rx.buf.getD i 0#8 = xs.getD i 0#8 := by
  have hget : rx.buf[i]? = xs[i]? := by
    conv_rhs => rw [← h.taken]
    rw [List.getElem?_take_of_lt hi]
  rw [List.getD_eq_getElem?_getD, List.getD_eq_getElem?_getD, hget]

/-- The next byte is added to the ones that have come. -/
theorem Holds.store (h : rx.Holds st t xs n) (hroom : xs.length < h4BufSize) (b : BitVec 8) :
    (rx.store b).Holds st t (xs ++ [b]) n := by
  have hlt : rx.bufLen < h4BufSize := h.bufLen.trans_lt hroom
  have htake : (rx.buf.set xs.length b).take (xs.length + 1) = xs ++ [b] := by
    have hlen : xs.length < (rx.buf.set xs.length b).length := by
      rw [List.length_set, rx.length_buf]
      exact hroom
    rw [← List.take_append_getElem hlen, List.getElem_set_self,
      List.take_set_of_le (Nat.le_refl _), h.taken]
  rw [H4Rx.store, dif_pos hlt]
  refine ⟨h.state, h.pktType, ?_, ?_, h.expected⟩
  · simp [h.bufLen]
  · simpa [h.bufLen] using htake

/-- Beyond the type byte every byte is treated alike. -/
theorem Holds.pushByte (h : rx.Holds st t xs n) (hst : st ≠ .idle) (b : BitVec 8) :
    rx.pushByte b = (rx.store b).size.finish := by
  rw [H4Rx.pushByte, h.state]
  cases st with
  | idle => exact absurd rfl hst
  | header => rfl
  | payload => rfl

/-- A byte that completes neither the header nor the packet. -/
theorem Holds.push_more (h : rx.Holds st t xs n) (hst : st ≠ .idle)
    (hroom : xs.length < h4BufSize) (hn : xs.length + 1 < n) (b : BitVec 8) :
    (rx.pushByte b).2 = none ∧ (rx.pushByte b).1.Holds st t (xs ++ [b]) n := by
  have hstore := h.store hroom b
  have hne : (rx.store b).bufLen ≠ (rx.store b).expected := by
    rw [hstore.bufLen, hstore.expected, List.length_append, List.length_singleton]
    omega
  have hsize : (rx.store b).size = rx.store b := if_neg fun hc => hne hc.2
  rw [h.pushByte hst, hsize, finish, if_neg fun hc => hne hc.1]
  exact ⟨rfl, hstore⟩

/-- Bytes that complete neither the header nor the packet. -/
theorem Holds.feed_more (h : rx.Holds st t xs n) (hst : st ≠ .idle) (ys : Bytes)
    (hroom : xs.length + ys.length ≤ h4BufSize) (hn : xs.length + ys.length < n) :
    (rx.feed ys).2 = List.replicate ys.length none ∧ (rx.feed ys).1.Holds st t (xs ++ ys) n := by
  induction ys generalizing rx xs with
  | nil => exact ⟨rfl, by simpa [feed] using h⟩
  | cons b ys ih =>
      simp only [List.length_cons] at hroom hn
      obtain ⟨hnone, hnext⟩ := h.push_more hst (by omega) (by omega) b
      obtain ⟨hout, hrest⟩ := ih hnext (by simp; omega) (by simp; omega)
      refine ⟨?_, ?_⟩
      · rw [feed, hnone, hout, List.length_cons, List.replicate_succ]
      · rw [List.append_assoc, List.singleton_append] at hrest
        exact hrest

/-- The last byte of a packet hands it on. -/
theorem Holds.finish (h : rx.Holds .payload t xs xs.length) (hpos : 0 < xs.length) :
    rx.finish.2 = hciDeliver t xs ∧ rx.finish.1.state = .idle := by
  have hc : rx.bufLen = rx.expected ∧ 0 < rx.expected := by
    rw [h.bufLen, h.expected]
    exact ⟨rfl, hpos⟩
  rw [H4Rx.finish, if_pos hc, h.pktType, h.bufLen, h.taken]
  exact ⟨rfl, rfl⟩

/-- The last byte of a header gives the length of the packet. -/
theorem Holds.size (h : rx.Holds .header t xs xs.length) :
    rx.size.Holds .payload t xs (xs.length + rx.payloadLen) := by
  have hc : rx.state = .header ∧ rx.bufLen = rx.expected := by
    rw [h.state, h.bufLen, h.expected]
    exact ⟨rfl, rfl⟩
  rw [H4Rx.size, if_pos hc]
  exact ⟨rfl, h.pktType, h.bufLen, h.taken, congrArg (· + rx.payloadLen) h.expected⟩

/-- A header in the buffer gives the length of the payload. -/
theorem Holds.payloadLen {p : H4Packet} (h : rx.Holds st p.type p.header n) :
    rx.payloadLen = p.payload.length := by
  cases p with
  | event code params fits =>
      have h1 := h.getD (i := 1) (by simp [H4Packet.header])
      rw [H4Rx.payloadLen, h.pktType, H4Packet.type, if_pos rfl, h1]
      simp only [H4Packet.header, H4Packet.payload, List.getD_cons_succ, List.getD_cons_zero,
        BitVec.toNat_ofNat]
      exact Nat.mod_eq_of_lt fits
  | acl handle data fits =>
      have h2 := h.getD (i := 2) (by simp [H4Packet.header])
      have h3 := h.getD (i := 3) (by simp [H4Packet.header])
      rw [H4Rx.payloadLen, h.pktType, H4Packet.type, if_neg (by decide), if_pos rfl, leWord, h2, h3]
      simp only [H4Packet.header, H4Packet.payload, List.getD_cons_succ, List.getD_cons_zero,
        BitVec.toNat_append, BitVec.toNat_ofNat]
      rw [← Nat.shiftLeft_add_eq_or_of_lt (by omega), Nat.shiftLeft_eq]
      omega

/-! ### A packet that fits -/

theorem start_holds (rx : H4Rx) (p : H4Packet) :
    (rx.start p.type).Holds .header p.type [] p.header.length := by
  cases p <;> exact ⟨rfl, rfl, rfl, rfl, rfl⟩

/-- The type byte and the header, but for its last byte. -/
theorem feed_front (h : rx.state = .idle) {p : H4Packet} {front : Bytes} {b : BitVec 8}
    (hp : p.header = front ++ [b]) :
    (rx.feed (p.type :: front)).2 = List.replicate (front.length + 1) none ∧
      (rx.feed (p.type :: front)).1.Holds .header p.type front (front.length + 1) := by
  have hlen : p.header.length = front.length + 1 := by simp [hp]
  have hshort : p.header.length ≤ 4 := by cases p <;> simp [H4Packet.header]
  have hpush : rx.pushByte p.type = (rx.start p.type, none) := by rw [pushByte, h]
  have hstart := rx.start_holds p
  rw [hlen] at hstart hshort
  obtain ⟨hout, hrest⟩ := hstart.feed_more (by simp) front
    (by rw [List.length_nil, h4BufSize]; omega) (by simp)
  refine ⟨?_, ?_⟩
  · rw [feed, hpush, hout, List.replicate_succ]
  · rw [feed, hpush]
    exact hrest

/-- The last byte of the header: the packet is handed on if it has no payload. -/
theorem Holds.push_header {p : H4Packet} {front : Bytes} {b : BitVec 8}
    (h : rx.Holds .header p.type front (front.length + 1)) (hp : p.header = front ++ [b]) :
    (p.payload = [] → (rx.pushByte b).2 = some p.delivery ∧ (rx.pushByte b).1.state = .idle) ∧
      (p.payload ≠ [] → (rx.pushByte b).2 = none ∧
        (rx.pushByte b).1.Holds .payload p.type p.header (p.header ++ p.payload).length) := by
  have hshort : p.header.length ≤ 4 := by cases p <;> simp [H4Packet.header]
  have hlen : p.header.length = front.length + 1 := by simp [hp]
  have hstore := h.store (by rw [h4BufSize]; omega) b
  rw [← hp, ← hlen] at hstore
  have hsize := hstore.size
  rw [hstore.payloadLen, ← List.length_append] at hsize
  rw [h.pushByte (by simp)]
  refine ⟨fun hnil => ?_, fun hne => ?_⟩
  · have hdeliver := p.hciDeliver_type
    rw [hnil, List.append_nil] at hsize hdeliver
    rw [← hdeliver]
    exact hsize.finish (by omega)
  · have hpos := List.length_pos_of_ne_nil hne
    have hwait : ((rx.store b).size).bufLen ≠ ((rx.store b).size).expected := by
      rw [hsize.bufLen, hsize.expected, List.length_append]
      omega
    rw [H4Rx.finish, if_neg fun hc => hwait hc.1]
    exact ⟨rfl, hsize⟩

/-- The payload: the packet is handed on with the last byte. -/
theorem Holds.feed_payload {p : H4Packet} {front : Bytes} {b : BitVec 8}
    (h : rx.Holds .payload p.type p.header (p.header ++ p.payload).length) (hfits : p.Fits)
    (hp : p.payload = front ++ [b]) :
    (rx.feed p.payload).2 = List.replicate front.length none ++ [some p.delivery] ∧
      (rx.feed p.payload).1.state = .idle := by
  have hlen : (p.header ++ p.payload).length = (p.header ++ front).length + 1 := by
    simp [hp, Nat.add_assoc]
  have hroom : (p.header ++ front).length + 1 ≤ h4BufSize := hlen.symm.trans_le hfits
  rw [List.length_append] at hroom
  rw [hlen, List.length_append] at h
  obtain ⟨hout, hnext⟩ := h.feed_more (by simp) front (by omega) (by omega)
  have hstore := hnext.store (by rw [List.length_append]; omega) b
  rw [List.append_assoc, ← hp] at hstore
  have hsize : ((rx.feed front).1.store b).size = (rx.feed front).1.store b :=
    if_neg fun hc => by rw [hstore.state] at hc; cases hc.1
  have hpush := hnext.pushByte (by simp) b
  rw [hsize] at hpush
  rw [← List.length_append, ← hlen] at hstore
  obtain ⟨hdeliver, hidle⟩ := hstore.finish (by rw [hlen]; exact Nat.succ_pos _)
  rw [p.hciDeliver_type, ← hpush] at hdeliver
  rw [← hpush] at hidle
  rw [hp, feed_append, hout]
  refine ⟨?_, hidle⟩
  rw [feed, feed, hdeliver]

/-- **A packet that fits comes through**: it is handed on with its last byte, and the machine is
idle again. -/
theorem feed_encode (h : rx.state = .idle) {p : H4Packet} (hfits : p.Fits) :
    (rx.feed p.encode).2 = p.outcome ∧ (rx.feed p.encode).1.state = .idle := by
  obtain ⟨front, b, hheader, -⟩ := p.exists_header
  obtain ⟨hfront, hholds⟩ := feed_front h hheader
  obtain ⟨hnil, hcons⟩ := hholds.push_header hheader
  have hlast : p.header.length = front.length + 1 := by simp [hheader]
  rw [H4Packet.encode_eq hheader, feed_append, hfront, feed]
  rcases List.eq_nil_or_concat p.payload with hp | ⟨ys, c, hp⟩
  · obtain ⟨hout, hidle⟩ := hnil hp
    rw [hout, H4Packet.outcome, hp, List.append_nil, hlast]
    exact ⟨rfl, hidle⟩
  · rw [List.concat_eq_append] at hp
    obtain ⟨hout, hnext⟩ := hcons (by simp [hp])
    obtain ⟨hrest, hidle⟩ := hnext.feed_payload hfits hp
    refine ⟨?_, hidle⟩
    have hlen : (p.header ++ p.payload).length = front.length + 1 + (ys.length + 1) := by
      simp [hlast, hp]
    have hnone : List.replicate (front.length + 1 + (ys.length + 1)) (none : Option HciDelivery) =
        List.replicate (front.length + 1) none ++ none :: List.replicate ys.length none := by
      rw [← List.replicate_append_replicate, List.replicate_succ (n := ys.length)]
    rw [hout, hrest, H4Packet.outcome, hlen, hnone, List.append_assoc, List.cons_append]

/-! ### A packet that does not fit -/

/-- The buffer is full, and more bytes are expected. -/
structure Stuck (rx : H4Rx) : Prop where
  state : rx.state = .payload
  full : rx.bufLen = h4BufSize
  expected : h4BufSize < rx.expected

/-- A machine that is stuck takes no notice of a byte. -/
theorem Stuck.pushByte (h : rx.Stuck) (b : BitVec 8) : rx.pushByte b = (rx, none) := by
  have hstore : rx.store b = rx := dif_neg (by rw [h.full]; exact Nat.lt_irrefl _)
  have hsize : rx.size = rx := if_neg fun hc => by rw [h.state] at hc; cases hc.1
  have hne : rx.bufLen ≠ rx.expected := by
    rw [h.full]
    exact Nat.ne_of_lt h.expected
  rw [H4Rx.pushByte, h.state]
  change (rx.store b).size.finish = _
  rw [hstore, hsize, H4Rx.finish, if_neg fun hc => hne hc.1]

theorem Stuck.feed (h : rx.Stuck) (ys : Bytes) :
    rx.feed ys = (rx, List.replicate ys.length none) := by
  induction ys with
  | nil => rfl
  | cons b ys ih => rw [H4Rx.feed, h.pushByte, ih, List.length_cons, List.replicate_succ]

/-- **A packet that does not fit** is not handed on, and leaves the machine stuck. -/
theorem feed_oversized (h : rx.state = .idle) {p : H4Packet} (hfits : ¬ p.Fits) :
    (rx.feed p.encode).2 = List.replicate p.encode.length none ∧ (rx.feed p.encode).1.Stuck := by
  obtain ⟨front, b, hheader, hshort⟩ := p.exists_header
  obtain ⟨hfront, hholds⟩ := feed_front h hheader
  obtain ⟨-, hcons⟩ := hholds.push_header hheader
  have hlast : p.header.length = front.length + 1 := by simp [hheader]
  have hlong : h4BufSize < (p.header ++ p.payload).length := Nat.not_le.1 hfits
  have hp : p.payload ≠ [] := by
    intro hnil
    rw [hnil, List.append_nil, h4BufSize] at hlong
    omega
  obtain ⟨hout, hnext⟩ := hcons hp
  -- the first part of the payload fills the buffer
  have hroom : p.header.length + (p.payload.take (h4BufSize - p.header.length)).length =
      h4BufSize := by
    rw [List.length_append] at hlong
    rw [List.length_take, h4BufSize] at *
    omega
  obtain ⟨hfill, hfull⟩ := hnext.feed_more (by simp)
    (p.payload.take (h4BufSize - p.header.length)) hroom.le (hroom.trans_lt hlong)
  have hstuck := Stuck.mk hfull.state
    (hfull.bufLen.trans (by rw [List.length_append, hroom])) (hfull.expected.symm ▸ hlong)
  have hpayload := List.take_append_drop (h4BufSize - p.header.length) p.payload
  rw [H4Packet.encode_eq hheader]
  nth_rewrite 1 3 [← hpayload]
  rw [feed_append, hfront, H4Rx.feed, hout, feed_append, hfill, hstuck.feed]
  refine ⟨List.eq_replicate_iff.2 ⟨?_, fun x hx => ?_⟩, hstuck⟩
  · simp only [List.length_append, List.length_cons, List.length_replicate]
    rw [← List.length_append, hpayload]
  · simp only [List.mem_append, List.mem_cons, List.mem_replicate] at hx
    rcases hx with hx | hx | hx | hx
    · exact hx.2
    · exact hx
    · exact hx.2
    · exact hx.2

/-- What follows a packet that does not fit leaves the machine stuck. -/
theorem feed_behind (h : rx.state = .idle) {p : H4Packet} (hfits : ¬ p.Fits)
    (ps : List H4Packet) : (rx.feed ((p :: ps).flatMap H4Packet.encode)).1.Stuck := by
  obtain ⟨-, hstuck⟩ := feed_oversized h hfits
  rw [List.flatMap_cons, feed_append, hstuck.feed]
  exact hstuck

end H4Rx

/-! ### Streams of packets -/

open H4Packet

/-- **When a stream of packets comes through.**  From the idle state, the packets of a stream are
all handed on, each with its last byte, and the machine is idle afterwards, exactly if the buffer
has room for every one of them. -/
theorem h4_reassembly_iff (ps : List H4Packet) {rx : H4Rx} (h : rx.state = .idle) :
    ((rx.feed (ps.flatMap encode)).2 = ps.flatMap outcome ∧
      (rx.feed (ps.flatMap encode)).1.state = .idle) ↔ ∀ p ∈ ps, p.Fits := by
  induction ps generalizing rx with
  | nil => simp [H4Rx.feed, h]
  | cons p ps ih =>
      rw [List.flatMap_cons, List.flatMap_cons, H4Rx.feed_append, List.forall_mem_cons]
      by_cases hfits : p.Fits
      · obtain ⟨hout, hidle⟩ := H4Rx.feed_encode h hfits
        rw [hout, List.append_cancel_left_eq, ih hidle, and_iff_right hfits]
      · refine iff_of_false ?_ fun hall => hfits hall.1
        rintro ⟨-, hidle⟩
        have hstuck := (H4Rx.feed_behind h hfits ps).state
        rw [List.flatMap_cons, H4Rx.feed_append] at hstuck
        rw [hstuck] at hidle
        cases hidle

/-- An event without parameters and two bytes of ACL data. -/
def shortStream : List H4Packet :=
  [.event 0x10#8 [] (by simp), .acl 0x0001#16 [0x0A#8, 0x0B#8] (by simp)]

theorem h4_reassembly_short :
    (H4Rx.new.feed (shortStream.flatMap H4Packet.encode)).2 =
        shortStream.flatMap H4Packet.outcome ∧
      (H4Rx.new.feed (shortStream.flatMap H4Packet.encode)).1.state = .idle := by
  refine (h4_reassembly_iff shortStream rfl).2 fun p hp => ?_
  rcases List.mem_cons.1 hp with rfl | hp
  · exact H4Packet.fits_event _ _ _
  · rw [List.mem_singleton.1 hp, H4Packet.fits_acl_iff]
    simp

/-- ACL data that is one byte too long. -/
def longPacket : H4Packet :=
  .acl 0x0001#16 (List.replicate 509 0#8) (by rw [List.length_replicate]; omega)

/-- After a packet that is too long the machine is not idle again, and the event behind it is lost.
-/
theorem h4_reassembly_stuck :
    ¬ ((H4Rx.new.feed (([longPacket, .event 0x10#8 [] (by simp)] : List H4Packet).flatMap
        H4Packet.encode)).2 =
        ([longPacket, .event 0x10#8 [] (by simp)] : List H4Packet).flatMap H4Packet.outcome ∧
      (H4Rx.new.feed (([longPacket, .event 0x10#8 [] (by simp)] : List H4Packet).flatMap
        H4Packet.encode)).1.state = .idle) := by
  rintro ⟨-, hidle⟩
  have hlong : ¬ (List.replicate 509 0#8).length ≤ 508 := by
    rw [List.length_replicate]
    omega
  have hfits : ¬ longPacket.Fits := (H4Packet.fits_acl_iff _ _ _).not.2 hlong
  have hidle₀ : H4Rx.new.state = .idle := rfl
  have hstuck := (H4Rx.feed_behind hidle₀ hfits [.event 0x10#8 [] (by simp)]).state
  exact absurd (hstuck.symm.trans hidle) (by simp)

end StarOS
