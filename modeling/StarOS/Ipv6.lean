/-
IPv6 output and input (`net/ipv6/mod.rs`), on a little-endian target.

Version, traffic class and flow label share one word in network byte order.  The accessors and the
setters convert it, but `Ipv6Header::new` stores the version without a conversion.  On a
little-endian target it lands in another byte, which `set_flow_label` then overwrites: every packet
that `ipv6_output` builds has version zero, and `ipv6_rcv` rejects it.

* `StarOS.Ipv6Header` — the header, its accessors and setters;
* `StarOS.Ipv6Header.toBytes`, `StarOS.Ipv6Header.load` — the header in memory;
* `StarOS.ipv6Rcv`, `StarOS.ipv6Output` — input and output;
* `StarOS.Ipv6Header.trafficClass_setTrafficClass`, `StarOS.Ipv6Header.flowLabel_setFlowLabel` and
  the lemmas beside them — a setter changes its own field;
* `StarOS.Ipv6Accepted` — the law for one packet;
* `StarOS.ipv6_output_rejected` — no packet meets it;
* `StarOS.ipv6_output_version_zero` — a packet with version zero.
-/

import StarOS.Packet

set_option autoImplicit false

namespace StarOS

/-! ### The header -/

/-- `IPV6VERSION`. -/
def ipv6Version : BitVec 8 := 6#8

/-- `IPV6_DEFAULT_HOPLIMIT`. -/
def ipv6DefaultHoplimit : BitVec 8 := 64#8

/-- `IPV6_HEADER_LEN`. -/
def ipv6HeaderLen : ℕ := 40

/-- An IPv6 address. -/
structure Ipv6Addr where
  addr : Fin 16 → BitVec 8
  deriving DecidableEq

/-- The header, with its integers as they are stored. -/
@[ext] structure Ipv6Header where
  /-- Version, traffic class and flow label. -/
  versionTcFlow : BitVec 32
  payloadLen : BitVec 16
  nexthdr : BitVec 8
  hopLimit : BitVec 8
  saddr : Ipv6Addr
  daddr : Ipv6Addr
  deriving DecidableEq

namespace Ipv6Header

/-- `Ipv6Header::new`. -/
def new (saddr daddr : Ipv6Addr) (nexthdr : BitVec 8) (payloadLen : BitVec 16) : Ipv6Header where
  versionTcFlow := (ipv6Version.setWidth 32) <<< 28
  payloadLen := swap16 payloadLen
  nexthdr := nexthdr
  hopLimit := ipv6DefaultHoplimit
  saddr := saddr
  daddr := daddr

/-- `Ipv6Header::version`. -/
def version (h : Ipv6Header) : BitVec 8 := (swap32 h.versionTcFlow >>> 28).setWidth 8

/-- `Ipv6Header::traffic_class`. -/
def trafficClass (h : Ipv6Header) : BitVec 8 :=
  ((swap32 h.versionTcFlow >>> 20) &&& 0xFF#32).setWidth 8

/-- `Ipv6Header::flow_label`. -/
def flowLabel (h : Ipv6Header) : BitVec 32 := swap32 h.versionTcFlow &&& 0xFFFFF#32

/-- `Ipv6Header::payload_len`. -/
def getPayloadLen (h : Ipv6Header) : BitVec 16 := swap16 h.payloadLen

/-- `Ipv6Header::set_traffic_class`. -/
def setTrafficClass (h : Ipv6Header) (tc : BitVec 8) : Ipv6Header :=
  let val := swap32 h.versionTcFlow
  let val := (val &&& ~~~0x0FF00000#32) ||| (tc.setWidth 32 <<< 20)
  { h with versionTcFlow := swap32 val }

/-- `Ipv6Header::set_flow_label`. -/
def setFlowLabel (h : Ipv6Header) (flow : BitVec 32) : Ipv6Header :=
  let val := swap32 h.versionTcFlow
  let val := (val &&& ~~~0xFFFFF#32) ||| (flow &&& 0xFFFFF#32)
  { h with versionTcFlow := swap32 val }

/-- The header in memory. -/
def toBytes (h : Ipv6Header) : List (BitVec 8) :=
  bytes32 h.versionTcFlow ++ bytes16 h.payloadLen ++ [h.nexthdr, h.hopLimit] ++
    List.ofFn h.saddr.addr ++ List.ofFn h.daddr.addr

/-- The header at an address. -/
def load (mem : PacketMem) (a : ℕ) : Ipv6Header where
  versionTcFlow := word32At mem a
  payloadLen := word16At mem (a + 4)
  nexthdr := mem (a + 6)
  hopLimit := mem (a + 7)
  saddr := ⟨fun i => mem (a + 8 + i)⟩
  daddr := ⟨fun i => mem (a + 24 + i)⟩

end Ipv6Header

/-! ### The setters -/

namespace Ipv6Header

variable (h : Ipv6Header)

theorem version_setTrafficClass (tc : BitVec 8) : (h.setTrafficClass tc).version = h.version := by
  simp only [version, setTrafficClass, swap32_swap32]
  refine BitVec.eq_of_getLsbD_eq fun i hi => ?_
  interval_cases i <;> simp

@[simp] theorem trafficClass_setTrafficClass (tc : BitVec 8) :
    (h.setTrafficClass tc).trafficClass = tc := by
  simp only [trafficClass, setTrafficClass, swap32_swap32]
  refine BitVec.eq_of_getLsbD_eq fun i hi => ?_
  interval_cases i <;> simp

theorem flowLabel_setTrafficClass (tc : BitVec 8) :
    (h.setTrafficClass tc).flowLabel = h.flowLabel := by
  simp only [flowLabel, setTrafficClass, swap32_swap32]
  refine BitVec.eq_of_getLsbD_eq fun i hi => ?_
  interval_cases i <;> simp

theorem version_setFlowLabel (flow : BitVec 32) : (h.setFlowLabel flow).version = h.version := by
  simp only [version, setFlowLabel, swap32_swap32]
  refine BitVec.eq_of_getLsbD_eq fun i hi => ?_
  interval_cases i <;> simp

theorem trafficClass_setFlowLabel (flow : BitVec 32) :
    (h.setFlowLabel flow).trafficClass = h.trafficClass := by
  simp only [trafficClass, setFlowLabel, swap32_swap32]
  refine BitVec.eq_of_getLsbD_eq fun i hi => ?_
  interval_cases i <;> simp

@[simp] theorem flowLabel_setFlowLabel (flow : BitVec 32) :
    (h.setFlowLabel flow).flowLabel = flow &&& 0xFFFFF#32 := by
  simp only [flowLabel, setFlowLabel, swap32_swap32]
  refine BitVec.eq_of_getLsbD_eq fun i hi => ?_
  interval_cases i <;> simp

/-- Two headers that agree in everything but the word with the three fields. -/
structure SameRest (h h' : Ipv6Header) : Prop where
  payloadLen : h'.payloadLen = h.payloadLen
  nexthdr : h'.nexthdr = h.nexthdr
  hopLimit : h'.hopLimit = h.hopLimit
  saddr : h'.saddr = h.saddr
  daddr : h'.daddr = h.daddr

theorem sameRest_setTrafficClass (tc : BitVec 8) : h.SameRest (h.setTrafficClass tc) :=
  ⟨rfl, rfl, rfl, rfl, rfl⟩

theorem sameRest_setFlowLabel (flow : BitVec 32) : h.SameRest (h.setFlowLabel flow) :=
  ⟨rfl, rfl, rfl, rfl, rfl⟩

/-! ### The header in memory -/

theorem length_toBytes : h.toBytes.length = ipv6HeaderLen := by
  simp [toBytes, bytes32, bytes16, ipv6HeaderLen]

/-- The addresses start after eight bytes. -/
theorem toBytes_getD (i : ℕ) :
    h.toBytes.getD (8 + i) 0#8 = (List.ofFn h.saddr.addr ++ List.ofFn h.daddr.addr).getD i 0#8 := by
  rw [toBytes, List.append_assoc]
  rw [List.getD_append_right _ _ _ _ (by simp [bytes32, bytes16])]
  congr 1
  simp [bytes32, bytes16]

/-- A header that was copied to memory is loaded from there. -/
theorem load_copyTo (mem : PacketMem) (a : ℕ) : load (copyTo mem a h.toBytes) a = h := by
  have hlen := h.length_toBytes
  rw [ipv6HeaderLen] at hlen
  ext1
  · change word32At (copyTo mem a h.toBytes) (a + 0) = _
    rw [word32At_copyTo _ _ _ (by omega)]
    exact word32_bytes32 _
  · change word16At (copyTo mem a h.toBytes) (a + 4) = _
    rw [word16At_copyTo _ _ _ (by omega)]
    exact word16_bytes16 _
  · exact copyTo_add _ _ _ (by omega)
  · exact copyTo_add _ _ _ (by omega)
  · change (⟨fun i : Fin 16 => copyTo mem a h.toBytes (a + 8 + i)⟩ : Ipv6Addr) = _
    congr 1
    funext i
    rw [Nat.add_assoc, copyTo_add _ _ _ (by omega), toBytes_getD,
      List.getD_append _ _ _ _ (by simp), List.getD_eq_getElem _ _ (by simp), List.getElem_ofFn]
  · change (⟨fun i : Fin 16 => copyTo mem a h.toBytes (a + 24 + i)⟩ : Ipv6Addr) = _
    congr 1
    funext i
    have hsplit : 24 + (i : ℕ) = 8 + (16 + i) := by omega
    rw [Nat.add_assoc, copyTo_add _ _ _ (by omega), hsplit, toBytes_getD,
      List.getD_append_right _ _ _ _ (by simp), List.getD_eq_getElem _ _ (by simp),
      List.getElem_ofFn]
    simp

end Ipv6Header

/-! ### Input and output -/

/-- IPv6 errors. -/
inductive Ipv6Error where
  | tooShort | badVersion | hopLimitExpired | unknownProtocol | noSpace | allocFailed
  | deviceNotFound | transmitFailed
  deriving DecidableEq, Repr

/-- `ipv6_local_deliver` and `ipv6_local_deliver_finish`: the result, and the buffer that is handed
on. -/
def ipv6LocalDeliver (mem : PacketMem) (skb : SkBuff) : Except Ipv6Error Unit × SkBuff :=
  let nexthdr := (Ipv6Header.load mem skb.dataPtr).nexthdr
  let skb' := (skb.pull ipv6HeaderLen).2
  if nexthdr = ipprotoIcmp ∨ nexthdr = ipprotoTcp ∨ nexthdr = ipprotoUdp then (.ok (), skb')
  else (.error .unknownProtocol, skb')

/-- The checks of `ipv6_rcv`. -/
def ipv6Check (mem : PacketMem) (skb : SkBuff) : Except Ipv6Error Unit :=
  if skb.len.toNat < ipv6HeaderLen then .error .tooShort
  else
    let ip6h := Ipv6Header.load mem skb.dataPtr
    if ip6h.version ≠ ipv6Version then .error .badVersion
    else if skb.len.toNat < ipv6HeaderLen + ip6h.getPayloadLen.toNat then .error .tooShort
    else if ip6h.hopLimit = 0#8 then .error .hopLimitExpired
    else .ok ()

/-- `ipv6_rcv`. -/
def ipv6Rcv (mem : PacketMem) (skb : SkBuff) : Except Ipv6Error Unit × SkBuff :=
  match ipv6Check mem skb with
  | .ok _ => ipv6LocalDeliver mem skb
  | .error e => (.error e, skb)

/-- `ipv6_flow_label`, with the counter before the call. -/
def ipv6FlowLabel (counter : BitVec 32) : BitVec 32 := counter &&& 0xFFFFF#32

/-- `ipv6_output`: memory and the buffer that is handed to the device. -/
def ipv6Output (mem : PacketMem) (skb : SkBuff) (saddr daddr : Ipv6Addr) (nexthdr : BitVec 8)
    (counter : BitVec 32) : Except Ipv6Error (PacketMem × SkBuff) :=
  let payloadLen := skb.len.setWidth 16
  match skb.push ipv6HeaderLen with
  | (.error _, _) => .error .noSpace
  | (.ok slice, skb') =>
      let ip6h := (Ipv6Header.new saddr daddr nexthdr payloadLen).setFlowLabel
        (ipv6FlowLabel counter)
      .ok (copyTo mem (skb'.head + slice.start) ip6h.toBytes, skb')

/-! ### Output against input -/

/-- The header that `ipv6_output` builds. -/
def ipv6OutputHeader (skb : SkBuff) (saddr daddr : Ipv6Addr) (nexthdr : BitVec 8)
    (counter : BitVec 32) : Ipv6Header :=
  (Ipv6Header.new saddr daddr nexthdr (skb.len.setWidth 16)).setFlowLabel (ipv6FlowLabel counter)

/-- With enough headroom the header is stored where the data starts then. -/
theorem ipv6Output_eq_ok (mem : PacketMem) {skb : SkBuff} (saddr daddr : Ipv6Addr)
    (nexthdr : BitVec 8) (counter : BitVec 32) (hroom : ipv6HeaderLen ≤ skb.headroom) :
    ∃ mem' skb', ipv6Output mem skb saddr daddr nexthdr counter = .ok (mem', skb') ∧
      Ipv6Header.load mem' skb'.dataPtr = ipv6OutputHeader skb saddr daddr nexthdr counter := by
  rw [ipv6Output, SkBuff.push_ok hroom]
  exact ⟨_, _, rfl, Ipv6Header.load_copyTo ..⟩

/-- The version was stored in the byte that the flow label goes to. -/
theorem version_ipv6OutputHeader (skb : SkBuff) (saddr daddr : Ipv6Addr) (nexthdr : BitVec 8)
    (counter : BitVec 32) :
    (ipv6OutputHeader skb saddr daddr nexthdr counter).version = 0#8 := by
  rw [ipv6OutputHeader, Ipv6Header.version_setFlowLabel]
  change (swap32 (ipv6Version.setWidth 32 <<< 28) >>> 28).setWidth 8 = 0#8
  decide +kernel

theorem trafficClass_ipv6OutputHeader (skb : SkBuff) (saddr daddr : Ipv6Addr) (nexthdr : BitVec 8)
    (counter : BitVec 32) :
    (ipv6OutputHeader skb saddr daddr nexthdr counter).trafficClass = 0#8 := by
  rw [ipv6OutputHeader, Ipv6Header.trafficClass_setFlowLabel]
  change ((swap32 (ipv6Version.setWidth 32 <<< 28) >>> 20) &&& 0xFF#32).setWidth 8 = 0#8
  decide +kernel

theorem flowLabel_ipv6OutputHeader (skb : SkBuff) (saddr daddr : Ipv6Addr) (nexthdr : BitVec 8)
    (counter : BitVec 32) :
    (ipv6OutputHeader skb saddr daddr nexthdr counter).flowLabel = ipv6FlowLabel counter := by
  rw [ipv6OutputHeader, Ipv6Header.flowLabel_setFlowLabel, ipv6FlowLabel, BitVec.and_assoc,
    BitVec.and_self]

theorem ipv6Check_of_version {mem : PacketMem} {skb : SkBuff}
    (h : (Ipv6Header.load mem skb.dataPtr).version ≠ ipv6Version) :
    ipv6Check mem skb = .error .tooShort ∨ ipv6Check mem skb = .error .badVersion := by
  rw [ipv6Check]
  split
  · exact .inl rfl
  · exact .inr (if_pos h)

/-- What the checks reject is not delivered, and its buffer is left alone. -/
theorem ipv6Rcv_of_error {mem : PacketMem} {skb : SkBuff} {e : Ipv6Error}
    (h : ipv6Check mem skb = .error e) : ipv6Rcv mem skb = (.error e, skb) := by
  rw [ipv6Rcv, h]

/-- The law for one packet: what `ipv6_output` hands to the device has version 6, traffic class 0,
the flow label that was generated and the length of the payload, and it passes the checks of
`ipv6_rcv`. -/
def Ipv6Accepted (mem : PacketMem) (skb : SkBuff) (saddr daddr : Ipv6Addr) (nexthdr : BitVec 8)
    (counter : BitVec 32) : Prop :=
  ∀ mem' skb', ipv6Output mem skb saddr daddr nexthdr counter = .ok (mem', skb') →
    let ip6h := Ipv6Header.load mem' skb'.dataPtr
    ip6h.version = ipv6Version ∧ ip6h.trafficClass = 0#8 ∧
      ip6h.flowLabel = ipv6FlowLabel counter ∧
      ip6h.getPayloadLen.toNat = skb.len.toNat ∧ ipv6Check mem' skb' = .ok ()

/-- No packet that `ipv6_output` builds meets the law: with enough headroom the packet has version
0, with the traffic class and the flow label as they should be, and `ipv6_rcv` rejects it.  The
setters change only their own field. -/
theorem ipv6_output_rejected (mem : PacketMem) (skb : SkBuff) (saddr daddr : Ipv6Addr)
    (nexthdr : BitVec 8) (counter : BitVec 32) (hroom : ipv6HeaderLen ≤ skb.headroom) :
    ¬ Ipv6Accepted mem skb saddr daddr nexthdr counter ∧
    (∃ mem' skb', ipv6Output mem skb saddr daddr nexthdr counter = .ok (mem', skb') ∧
      (Ipv6Header.load mem' skb'.dataPtr).version = 0#8 ∧
      (Ipv6Header.load mem' skb'.dataPtr).trafficClass = 0#8 ∧
      (Ipv6Header.load mem' skb'.dataPtr).flowLabel = ipv6FlowLabel counter ∧
      (ipv6Rcv mem' skb' = (.error .tooShort, skb') ∨
        ipv6Rcv mem' skb' = (.error .badVersion, skb'))) ∧
    (∀ (h : Ipv6Header) (tc : BitVec 8), (h.setTrafficClass tc).trafficClass = tc ∧
      (h.setTrafficClass tc).version = h.version ∧
      (h.setTrafficClass tc).flowLabel = h.flowLabel ∧ h.SameRest (h.setTrafficClass tc)) ∧
    (∀ (h : Ipv6Header) (flow : BitVec 32),
      (h.setFlowLabel flow).flowLabel = flow &&& 0xFFFFF#32 ∧
      (h.setFlowLabel flow).version = h.version ∧
      (h.setFlowLabel flow).trafficClass = h.trafficClass ∧
      h.SameRest (h.setFlowLabel flow)) := by
  obtain ⟨mem', skb', hok, hload⟩ := ipv6Output_eq_ok mem saddr daddr nexthdr counter hroom
  have hversion : (Ipv6Header.load mem' skb'.dataPtr).version = 0#8 := by
    rw [hload, version_ipv6OutputHeader]
  refine ⟨fun h => ?_, ⟨mem', skb', hok, hversion, ?_, ?_, ?_⟩, fun h tc => ?_, fun h flow => ?_⟩
  · exact absurd (h mem' skb' hok).1 (by rw [hversion]; decide)
  · rw [hload, trafficClass_ipv6OutputHeader]
  · rw [hload, flowLabel_ipv6OutputHeader]
  · have hcheck : ipv6Check mem' skb' = .error .tooShort ∨
        ipv6Check mem' skb' = .error .badVersion :=
      ipv6Check_of_version (by rw [hversion]; decide)
    exact hcheck.imp ipv6Rcv_of_error ipv6Rcv_of_error
  · exact ⟨h.trafficClass_setTrafficClass tc, h.version_setTrafficClass tc,
      h.flowLabel_setTrafficClass tc, h.sameRest_setTrafficClass tc⟩
  · exact ⟨h.flowLabel_setFlowLabel flow, h.version_setFlowLabel flow,
      h.trafficClass_setFlowLabel flow, h.sameRest_setFlowLabel flow⟩

/-- The loopback address. -/
def ipv6Loopback : Ipv6Addr := ⟨fun i => if i.val = 15 then 1#8 else 0#8⟩

/-- A buffer with room for the header, and eight bytes of payload. -/
def datagram : SkBuff := ⟨0, 40#16, 48#16, 64#16, 8#32, 1#32⟩

theorem ipv6_output_rejected_datagram :
    ¬ Ipv6Accepted (fun _ => 0#8) datagram ipv6Loopback ipv6Loopback ipprotoUdp 0#32 :=
  (ipv6_output_rejected (fun _ => 0#8) datagram ipv6Loopback ipv6Loopback ipprotoUdp 0#32
    (by decide)).1

/-- The packet that `ipv6_output` builds for eight bytes of payload is rejected for its version. -/
theorem ipv6_output_version_zero :
    ∃ mem' skb',
      ipv6Output (fun _ => 0#8) datagram ipv6Loopback ipv6Loopback ipprotoUdp 0#32 =
        .ok (mem', skb') ∧
      (Ipv6Header.load mem' skb'.dataPtr).version = 0#8 ∧
      ipv6Check mem' skb' = .error .badVersion ∧
      ¬ Ipv6Accepted (fun _ => 0#8) datagram ipv6Loopback ipv6Loopback ipprotoUdp 0#32 := by
  obtain ⟨mem', skb', hok, hload⟩ := ipv6Output_eq_ok (fun _ => 0#8) ipv6Loopback ipv6Loopback
    ipprotoUdp 0#32 (by decide : ipv6HeaderLen ≤ datagram.headroom)
  have hversion : (Ipv6Header.load mem' skb'.dataPtr).version = 0#8 := by
    rw [hload, version_ipv6OutputHeader]
  have hlen : ¬ skb'.len.toNat < ipv6HeaderLen := by
    rw [ipv6Output, SkBuff.push_ok (by decide)] at hok
    cases hok
    decide
  refine ⟨mem', skb', hok, hversion, ?_, fun h => ?_⟩
  · rw [ipv6Check, if_neg hlen]
    exact if_pos (by rw [hversion]; decide)
  · exact absurd (h mem' skb' hok).1 (by rw [hversion]; decide)

end StarOS
