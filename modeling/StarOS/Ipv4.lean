/-
IPv4 output and input (`net/ipv4/mod.rs`), on a little-endian target.

`ip_output` computes the total length in 16 bits from a length of 32 bits; the packet passes the
checks of `ip_rcv`, and its payload comes out as it went in, exactly if the packet is shorter than
2¹⁶ bytes.  `ip_rcv` accepts a buffer that is longer than the total length of the packet, and hands
on what is left of it after the header: the payload is what the header says exactly if the buffer
was as long as the packet.

* `StarOS.IpHeader` — the header, its accessors and its checksum;
* `StarOS.foldSum` — folding a sum of words to 16 bits;
* `StarOS.ipRcv`, `StarOS.ipOutput` — input and output;
* `StarOS.IpHeader.verifyChecksum_calculateChecksum` — a checksum that was calculated is verified;
* `StarOS.IpAccepted` — the law for one packet that is sent;
* `StarOS.ip_output_input_iff` — when the law holds, and when a received packet is handed on without
  padding;
* `StarOS.ip_padding_delivered` — a packet whose padding is handed on, and one whose length wraps.
-/

import StarOS.Packet

set_option autoImplicit false

namespace StarOS

/-! ### The header -/

/-- `IPVERSION`. -/
def ipVersion : BitVec 8 := 4#8

/-- `IPDEFTTL`. -/
def ipDefTtl : BitVec 8 := 64#8

/-- `MIN_IP_HEADER_LEN`. -/
def minIpHeaderLen : ℕ := 20

/-- `MAX_IP_HEADER_LEN`. -/
def maxIpHeaderLen : ℕ := 60

/-- The header, with its integers as they are stored. -/
@[ext] structure IpHeader where
  versionIhl : BitVec 8
  tos : BitVec 8
  totLen : BitVec 16
  id : BitVec 16
  fragOff : BitVec 16
  ttl : BitVec 8
  protocol : BitVec 8
  check : BitVec 16
  saddr : BitVec 32
  daddr : BitVec 32
  deriving DecidableEq, Repr

/-- Folding a sum of words to 16 bits. -/
def foldSum (sum : ℕ) : ℕ :=
  if sum / 2 ^ 16 = 0 then sum else foldSum (sum % 2 ^ 16 + sum / 2 ^ 16)
  termination_by sum

namespace IpHeader

/-- `IpHeader::new`. -/
def new (saddr daddr : BitVec 32) (protocol : BitVec 8) (totLen : BitVec 16) : IpHeader where
  versionIhl := (ipVersion <<< 4) ||| 5#8
  tos := 0#8
  totLen := swap16 totLen
  id := 0#16
  fragOff := 0#16
  ttl := ipDefTtl
  protocol := protocol
  check := 0#16
  saddr := swap32 saddr
  daddr := swap32 daddr

/-- `IpHeader::version`. -/
def version (h : IpHeader) : BitVec 8 := h.versionIhl >>> 4

/-- `IpHeader::ihl`. -/
def ihl (h : IpHeader) : ℕ := (h.versionIhl &&& 0x0F#8).toNat * 4

/-- `IpHeader::tot_len`. -/
def getTotLen (h : IpHeader) : BitVec 16 := swap16 h.totLen

/-- `IpHeader::frag_off`. -/
def getFragOff (h : IpHeader) : BitVec 16 := swap16 h.fragOff

/-- `IpHeader::is_mf`. -/
def isMf (h : IpHeader) : Bool := h.getFragOff &&& 0x2000#16 != 0#16

/-- `IpHeader::fragment_offset`. -/
def fragmentOffset (h : IpHeader) : BitVec 16 := (h.getFragOff &&& 0x1FFF#16) * 8#16

/-- The header in memory. -/
def toBytes (h : IpHeader) : List (BitVec 8) :=
  [h.versionIhl, h.tos] ++ bytes16 h.totLen ++ bytes16 h.id ++ bytes16 h.fragOff ++
    [h.ttl, h.protocol] ++ bytes16 h.check ++ bytes32 h.saddr ++ bytes32 h.daddr

/-- The header at an address. -/
def load (mem : PacketMem) (a : ℕ) : IpHeader where
  versionIhl := mem (a + 0)
  tos := mem (a + 1)
  totLen := word16At mem (a + 2)
  id := word16At mem (a + 4)
  fragOff := word16At mem (a + 6)
  ttl := mem (a + 8)
  protocol := mem (a + 9)
  check := word16At mem (a + 10)
  saddr := word32At mem (a + 12)
  daddr := word32At mem (a + 16)

end IpHeader

/-- The sum of the first `n` words at an address, each in network byte order. -/
def wordSum (mem : PacketMem) (a n : ℕ) : ℕ :=
  ((List.range n).map fun k => (swap16 (word16At mem (a + 2 * k))).toNat).sum

/-- `IpHeader::verify_checksum` of the header at an address. -/
def verifyChecksum (mem : PacketMem) (a : ℕ) : Bool :=
  foldSum (wordSum mem a ((IpHeader.load mem a).ihl / 2)) == 0xFFFF

/-- The sum of the words of a header that lies in a local variable. -/
def IpHeader.sum (h : IpHeader) : ℕ :=
  ((List.range (h.ihl / 2)).map fun k =>
    (swap16 (ofBytes16 (h.toBytes.getD (2 * k) 0#8) (h.toBytes.getD (2 * k + 1) 0#8))).toNat).sum

/-- `IpHeader::calculate_checksum`. -/
def IpHeader.calculateChecksum (h : IpHeader) : IpHeader :=
  let h₀ := { h with check := 0#16 }
  { h with check := swap16 ((~~~(BitVec.ofNat 32 (foldSum h₀.sum))).setWidth 16) }

/-! ### The checksum -/

/-- What folding keeps of a sum. -/
theorem foldSum_spec (s : ℕ) :
    foldSum s < 2 ^ 16 ∧ foldSum s % 65535 = s % 65535 ∧ (foldSum s = 0 ↔ s = 0) := by
  induction s using foldSum.induct with
  | case1 s hfits =>
      rw [foldSum, if_pos hfits]
      exact ⟨by omega, rfl, Iff.rfl⟩
  | case2 s hover ih =>
      rw [foldSum, if_neg hover]
      refine ⟨ih.1, ?_, ?_⟩
      · rw [ih.2.1]
        omega
      · rw [ih.2.2]
        omega

/-- A sum folds to all ones exactly if it is a multiple of `0xFFFF`, and not zero. -/
theorem foldSum_eq_ones {s : ℕ} (hpos : 0 < s) (hdvd : s % 65535 = 0) : foldSum s = 0xFFFF := by
  obtain ⟨hlt, hmod, hzero⟩ := foldSum_spec s
  have hne : foldSum s ≠ 0 := fun h => absurd (hzero.1 h) (by omega)
  omega

namespace IpHeader

variable (h : IpHeader)

theorem length_toBytes : h.toBytes.length = minIpHeaderLen := by
  simp [toBytes, bytes16, bytes32, minIpHeaderLen]

/-- A header that was copied to memory is loaded from there. -/
theorem load_copyTo (mem : PacketMem) (a : ℕ) : load (copyTo mem a h.toBytes) a = h := by
  have hlen : h.toBytes.length = 20 := h.length_toBytes
  ext1
  · exact copyTo_add _ _ _ (by omega)
  · exact copyTo_add _ _ _ (by omega)
  · exact (word16At_copyTo _ _ _ (by omega)).trans (word16_bytes16 _)
  · exact (word16At_copyTo _ _ _ (by omega)).trans (word16_bytes16 _)
  · exact (word16At_copyTo _ _ _ (by omega)).trans (word16_bytes16 _)
  · exact copyTo_add _ _ _ (by omega)
  · exact copyTo_add _ _ _ (by omega)
  · exact (word16At_copyTo _ _ _ (by omega)).trans (word16_bytes16 _)
  · exact (word32At_copyTo _ _ _ (by omega)).trans (word32_bytes32 _)
  · exact (word32At_copyTo _ _ _ (by omega)).trans (word32_bytes32 _)

/-- The checksum is one of the ten words that are summed. -/
theorem sum_eq (hihl : h.ihl = minIpHeaderLen) :
    h.sum = { h with check := 0#16 }.sum + (swap16 h.check).toNat := by
  have hihl' : { h with check := 0#16 }.ihl = minIpHeaderLen := hihl
  have hcheck : ofBytes16 (BitVec.extractLsb' 0 8 h.check) (BitVec.extractLsb' 8 8 h.check) =
      h.check := word16_bytes16 h.check
  have hzero : (swap16 (ofBytes16 0#8 0#8)).toNat = 0 := by decide
  rw [sum, sum, hihl, hihl']
  simp only [minIpHeaderLen, toBytes, bytes16, bytes32, Nat.reduceDiv, List.range_succ,
    List.range_zero, List.map_cons, List.map_nil, List.sum_cons, List.sum_nil, List.nil_append,
    List.cons_append, Nat.reduceMul, List.getD_cons_zero, List.getD_cons_succ, hcheck, hzero,
    BitVec.extractLsb'_zero]
  omega

/-- The first word of a header with a version is not zero. -/
theorem sum_pos (hihl : h.ihl = minIpHeaderLen) : 0 < h.sum := by
  have hword : (swap16 (ofBytes16 h.versionIhl h.tos)).toNat ∈
      (List.range (h.ihl / 2)).map fun k => (swap16 (ofBytes16 (h.toBytes.getD (2 * k) 0#8)
        (h.toBytes.getD (2 * k + 1) 0#8))).toNat :=
    List.mem_map.2 ⟨0, by rw [hihl]; decide, rfl⟩
  rw [Nat.pos_iff_ne_zero]
  intro hsum
  have hzero := List.sum_eq_zero_iff_forall_eq_nat.1 hsum _ hword
  -- a word that is zero has no header length in it
  have hfirst : swap16 (ofBytes16 h.versionIhl h.tos) = 0#16 := BitVec.eq_of_toNat_eq hzero
  have hbytes : ofBytes16 h.versionIhl h.tos = 0#16 := by
    rw [← swap16_swap16 (ofBytes16 _ _), hfirst]
    decide
  have hversion : h.versionIhl = 0#8 := by
    have : (ofBytes16 h.versionIhl h.tos).setWidth 8 = h.versionIhl := by
      rw [ofBytes16, BitVec.setWidth_append]
      simp
    rw [← this, hbytes]
    decide
  rw [ihl, hversion] at hihl
  exact absurd hihl (by decide)

/-- The checksum makes up for the sum of the other words. -/
theorem sum_calculateChecksum (hihl : h.ihl = minIpHeaderLen) :
    h.calculateChecksum.sum =
      { h with check := 0#16 }.sum + (0xFFFF - foldSum { h with check := 0#16 }.sum) := by
  have hlt : foldSum { h with check := 0#16 }.sum < 2 ^ 16 := (foldSum_spec _).1
  rw [h.calculateChecksum.sum_eq hihl]
  change { h with check := 0#16 }.sum + (swap16 (swap16 _)).toNat = _
  rw [swap16_swap16, BitVec.toNat_setWidth, BitVec.toNat_not, BitVec.toNat_ofNat]
  omega

/-- A checksum that was calculated is verified. -/
theorem verifyChecksum_calculateChecksum (mem : PacketMem) (a : ℕ)
    (hihl : h.ihl = minIpHeaderLen) :
    verifyChecksum (copyTo mem a h.calculateChecksum.toBytes) a = true := by
  have hihl' : h.calculateChecksum.ihl = minIpHeaderLen := hihl
  have hsum : wordSum (copyTo mem a h.calculateChecksum.toBytes) a (minIpHeaderLen / 2) =
      h.calculateChecksum.sum := by
    rw [wordSum, sum, hihl']
    refine congrArg List.sum (List.map_congr_left fun k hk => ?_)
    have hk' : k < 10 := List.mem_range.1 hk
    rw [word16At_copyTo _ _ _ (by rw [length_toBytes, minIpHeaderLen]; omega)]
  have hspec := foldSum_spec { h with check := 0#16 }.sum
  rw [verifyChecksum, load_copyTo, hihl', hsum, beq_iff_eq]
  refine foldSum_eq_ones (h.calculateChecksum.sum_pos hihl') ?_
  rw [h.sum_calculateChecksum hihl]
  omega

end IpHeader

/-! ### Input and output -/

/-- IPv4 errors. -/
inductive IpError where
  | tooShort | badVersion | badHeaderLen | badChecksum | badLength | ttlExpired | unknownProtocol
  | fragmentationNotSupported | noSpace | allocFailed | deviceNotFound | transmitFailed
  deriving DecidableEq, Repr

/-- `ip_local_deliver_finish`: the result, and the buffer that is handed on. -/
def ipLocalDeliverFinish (mem : PacketMem) (skb : SkBuff) : Except IpError Unit × SkBuff :=
  let iph := IpHeader.load mem skb.dataPtr
  let skb' := (skb.pull iph.ihl).2
  if iph.protocol = ipprotoIcmp ∨ iph.protocol = ipprotoTcp ∨ iph.protocol = ipprotoUdp then
    (.ok (), skb')
  else (.error .unknownProtocol, skb')

/-- `ip_local_deliver`, with `ip_defrag`. -/
def ipLocalDeliver (mem : PacketMem) (skb : SkBuff) : Except IpError Unit × SkBuff :=
  let iph := IpHeader.load mem skb.dataPtr
  if iph.isMf ∨ iph.fragmentOffset ≠ 0#16 then (.error .fragmentationNotSupported, skb)
  else ipLocalDeliverFinish mem skb

/-- The checks of `ip_rcv`. -/
def ipCheck (mem : PacketMem) (skb : SkBuff) : Except IpError Unit :=
  if skb.len.toNat < minIpHeaderLen then .error .tooShort
  else
    let iph := IpHeader.load mem skb.dataPtr
    if iph.version ≠ ipVersion then .error .badVersion
    else if iph.ihl < minIpHeaderLen ∨ maxIpHeaderLen < iph.ihl then .error .badHeaderLen
    else if skb.len.toNat < iph.ihl then .error .tooShort
    else if verifyChecksum mem skb.dataPtr = false then .error .badChecksum
    else if iph.getTotLen.toNat < iph.ihl ∨ skb.len.toNat < iph.getTotLen.toNat then
      .error .badLength
    else if iph.ttl = 0#8 then .error .ttlExpired
    else .ok ()

/-- `ip_rcv`. -/
def ipRcv (mem : PacketMem) (skb : SkBuff) : Except IpError Unit × SkBuff :=
  match ipCheck mem skb with
  | .ok _ => ipLocalDeliver mem skb
  | .error e => (.error e, skb)

/-- `ip_output`: memory and the buffer that is handed to the device.  `ident` is the identification
that `ip_select_ident` returns. -/
def ipOutput (mem : PacketMem) (skb : SkBuff) (saddr daddr : BitVec 32) (protocol : BitVec 8)
    (ident : BitVec 16) : Except IpError (PacketMem × SkBuff) :=
  let payloadLen := skb.len.setWidth 16
  let totLen := BitVec.ofNat 16 minIpHeaderLen + payloadLen
  match skb.push minIpHeaderLen with
  | (.error _, _) => .error .noSpace
  | (.ok slice, skb') =>
      let iph := { IpHeader.new saddr daddr protocol totLen with id := swap16 ident }
      .ok (copyTo mem (skb'.head + slice.start) iph.calculateChecksum.toBytes, skb')

/-! ### Output against input -/

/-- The header that `ip_output` stores. -/
def ipOutputHeader (saddr daddr : BitVec 32) (protocol : BitVec 8) (totLen ident : BitVec 16) :
    IpHeader :=
  { IpHeader.new saddr daddr protocol totLen with id := swap16 ident }.calculateChecksum

section Output

variable (mem : PacketMem) (skb : SkBuff) (saddr daddr : BitVec 32) (protocol : BitVec 8)
  (ident : BitVec 16)

theorem ihl_ipOutputHeader (totLen : BitVec 16) :
    (ipOutputHeader saddr daddr protocol totLen ident).ihl = minIpHeaderLen := by
  change (((ipVersion <<< 4) ||| 5#8) &&& 0x0F#8).toNat * 4 = minIpHeaderLen
  decide

theorem getTotLen_ipOutputHeader (totLen : BitVec 16) :
    (ipOutputHeader saddr daddr protocol totLen ident).getTotLen = totLen := swap16_swap16 totLen

/-- With enough headroom the header is stored where the data starts then. -/
theorem ipOutput_eq_ok (hroom : minIpHeaderLen ≤ skb.headroom) :
    ipOutput mem skb saddr daddr protocol ident =
      .ok (copyTo mem (skb.push minIpHeaderLen).2.dataPtr
        (ipOutputHeader saddr daddr protocol
          (BitVec.ofNat 16 minIpHeaderLen + skb.len.setWidth 16) ident).toBytes,
        (skb.push minIpHeaderLen).2) := by
  rw [ipOutput, SkBuff.push_ok hroom]
  rfl

/-- Without, nothing is sent. -/
theorem ipOutput_eq_error (hroom : skb.headroom < minIpHeaderLen) :
    ipOutput mem skb saddr daddr protocol ident = .error .noSpace := by
  rw [ipOutput, SkBuff.push_error hroom]

/-- A header that was stored by `ip_output` passes all checks but those on the length. -/
theorem ipCheck_copyTo {totLen : BitVec 16} :
    ipCheck (copyTo mem skb.dataPtr
        (ipOutputHeader saddr daddr protocol totLen ident).toBytes) skb =
      if skb.len.toNat < minIpHeaderLen then .error .tooShort
      else if totLen.toNat < minIpHeaderLen ∨ skb.len.toNat < totLen.toNat then .error .badLength
      else .ok () := by
  have hihl := ihl_ipOutputHeader saddr daddr protocol ident totLen
  have hversion : (ipOutputHeader saddr daddr protocol totLen ident).version = ipVersion := by
    change ((ipVersion <<< 4) ||| 5#8) >>> 4 = ipVersion
    decide
  have hchecksum : verifyChecksum (copyTo mem skb.dataPtr
      (ipOutputHeader saddr daddr protocol totLen ident).toBytes) skb.dataPtr = true :=
    IpHeader.verifyChecksum_calculateChecksum _ _ _ hihl
  have httl : (ipOutputHeader saddr daddr protocol totLen ident).ttl ≠ 0#8 := by
    change ipDefTtl ≠ 0#8
    decide
  rw [ipCheck, IpHeader.load_copyTo]
  dsimp only
  rw [hihl]
  by_cases hshort : skb.len.toNat < minIpHeaderLen
  · rw [if_pos hshort, if_pos hshort]
  · rw [if_neg hshort, if_neg hshort, if_neg (not_not.2 hversion), if_neg (by decide),
      if_neg (by rw [hchecksum]; decide), getTotLen_ipOutputHeader, if_neg httl, if_neg hshort]

/-- A packet that was sent to a protocol that is handled is handed on without its header. -/
theorem ipLocalDeliver_copyTo {totLen : BitVec 16}
    (hprotocol : protocol = ipprotoIcmp ∨ protocol = ipprotoTcp ∨ protocol = ipprotoUdp) :
    ipLocalDeliver (copyTo mem skb.dataPtr
        (ipOutputHeader saddr daddr protocol totLen ident).toBytes) skb =
      (.ok (), (skb.pull minIpHeaderLen).2) := by
  have hwhole : ¬ ((ipOutputHeader saddr daddr protocol totLen ident).isMf ∨
      (ipOutputHeader saddr daddr protocol totLen ident).fragmentOffset ≠ 0#16) := by
    change ¬ ((swap16 0#16 &&& 0x2000#16 != 0#16) = true ∨
      (swap16 0#16 &&& 0x1FFF#16) * 8#16 ≠ 0#16)
    decide +kernel
  rw [ipLocalDeliver, IpHeader.load_copyTo, if_neg hwhole, ipLocalDeliverFinish,
    IpHeader.load_copyTo, ihl_ipOutputHeader]
  exact if_pos hprotocol

/-- The law for one packet: what `ip_output` hands to the device passes the checks of `ip_rcv`, its
total length is the length of the packet, and it is delivered with the payload that was sent. -/
def IpAccepted : Prop :=
  ∀ mem' skb', ipOutput mem skb saddr daddr protocol ident = .ok (mem', skb') →
    ipCheck mem' skb' = .ok () ∧
    (IpHeader.load mem' skb'.dataPtr).getTotLen.toNat = skb'.len.toNat ∧
    (ipRcv mem' skb').1 = .ok () ∧ (ipRcv mem' skb').2.packet mem' = skb.packet mem

/-- The length of the packet in the buffer, in 32 bits. -/
theorem len_push (hroom : minIpHeaderLen ≤ skb.headroom) :
    (skb.push minIpHeaderLen).2.len.toNat = (skb.len.toNat + minIpHeaderLen) % 2 ^ 32 := by
  rw [SkBuff.push_ok hroom]
  change (skb.len + BitVec.ofNat 32 minIpHeaderLen).toNat = _
  rw [BitVec.toNat_add, BitVec.toNat_ofNat, Nat.add_mod_mod]

/-- The length of the packet in the header, in 16 bits. -/
theorem totLen_toNat :
    (BitVec.ofNat 16 minIpHeaderLen + skb.len.setWidth 16).toNat =
      (skb.len.toNat + minIpHeaderLen) % 2 ^ 16 := by
  rw [BitVec.toNat_add, BitVec.toNat_ofNat, BitVec.toNat_setWidth, ← Nat.add_mod, Nat.add_comm]

/-- Taking the header off again leads back to the buffer. -/
theorem pull_push (hroom : minIpHeaderLen ≤ skb.headroom)
    (hlen : skb.len.toNat + minIpHeaderLen < 2 ^ 32) :
    ((skb.push minIpHeaderLen).2.pull minIpHeaderLen).2 = skb := by
  have hlen' : minIpHeaderLen ≤ (skb.push minIpHeaderLen).2.len.toNat := by
    rw [len_push skb hroom, Nat.mod_eq_of_lt hlen]
    omega
  rw [SkBuff.pull_ok hlen', SkBuff.push_ok hroom]
  dsimp only
  rw [BitVec.sub_add_cancel, BitVec.add_sub_cancel]

/-- The data of the packet starts where the header ends. -/
theorem dataPtr_push (hroom : minIpHeaderLen ≤ skb.headroom) :
    (skb.push minIpHeaderLen).2.dataPtr + minIpHeaderLen = skb.dataPtr := by
  have hdata : minIpHeaderLen ≤ skb.data.toNat := hroom
  have hword : (BitVec.ofNat 16 minIpHeaderLen).toNat = minIpHeaderLen := by decide
  rw [SkBuff.push_ok hroom, SkBuff.dataPtr, SkBuff.dataPtr]
  dsimp only
  rw [BitVec.toNat_sub_of_le (BitVec.le_def.2 (by omega)), hword]
  omega

/-- A packet that is sent meets the law exactly if it is shorter than 2¹⁶ bytes. -/
theorem ipAccepted_iff
    (hprotocol : protocol = ipprotoIcmp ∨ protocol = ipprotoTcp ∨ protocol = ipprotoUdp) :
    IpAccepted mem skb saddr daddr protocol ident ↔
      (minIpHeaderLen ≤ skb.headroom → skb.len.toNat + minIpHeaderLen < 2 ^ 16) := by
  by_cases hroom : minIpHeaderLen ≤ skb.headroom
  · have hbound : skb.len.toNat < 2 ^ 32 := skb.len.isLt
    rw [IpAccepted, ipOutput_eq_ok mem skb saddr daddr protocol ident hroom]
    constructor
    · intro h _
      -- the check on the length and the total length together leave no multiple of 2¹⁶
      obtain ⟨hcheck, htot, -⟩ := h _ _ rfl
      rw [IpHeader.load_copyTo, getTotLen_ipOutputHeader, totLen_toNat, len_push skb hroom] at htot
      rw [ipCheck_copyTo, len_push skb hroom] at hcheck
      split at hcheck
      · cases hcheck
      · rename_i hlong
        rw [minIpHeaderLen] at hlong htot ⊢
        omega
    · rintro h mem' skb' heq
      obtain ⟨rfl, rfl⟩ := Prod.mk.inj (Except.ok.inj heq)
      have hfits := h hroom
      have hcheck : ipCheck (copyTo mem (skb.push minIpHeaderLen).2.dataPtr
          (ipOutputHeader saddr daddr protocol
            (BitVec.ofNat 16 minIpHeaderLen + skb.len.setWidth 16) ident).toBytes)
          (skb.push minIpHeaderLen).2 = .ok () := by
        rw [ipCheck_copyTo, len_push skb hroom, totLen_toNat,
          if_neg (by rw [minIpHeaderLen] at hfits ⊢; omega),
          if_neg (by rw [minIpHeaderLen] at hfits ⊢; omega)]
      refine ⟨hcheck, ?_, ?_⟩
      · rw [IpHeader.load_copyTo, getTotLen_ipOutputHeader, totLen_toNat, len_push skb hroom]
        omega
      · rw [ipRcv, hcheck]
        dsimp only
        rw [ipLocalDeliver_copyTo _ _ _ _ _ _ hprotocol, pull_push _ hroom (by omega)]
        refine ⟨rfl, memBytes_copyTo_of_ge _ _ _ _ ?_⟩
        rw [IpHeader.length_toBytes, dataPtr_push _ hroom]
  · rw [IpAccepted, ipOutput_eq_error _ _ _ _ _ _ (Nat.lt_of_not_le hroom)]
    exact iff_of_true (fun _ _ h => by cases h) fun h => absurd h hroom

/-- In a buffer whose window lies in it there is room for a header only if the packet is short
enough. -/
theorem SkBuff.Window.packet_fits {skb : SkBuff} (h : skb.Window)
    (hroom : minIpHeaderLen ≤ skb.headroom) : skb.len.toNat + minIpHeaderLen < 2 ^ 16 := by
  obtain ⟨hdata, htail, hlen⟩ := h
  have hdata' : minIpHeaderLen ≤ skb.data.toNat := hroom
  have hend : skb.end_.toNat < 2 ^ 16 := skb.end_.isLt
  omega

/-- So what is sent from such a buffer is accepted. -/
theorem ipAccepted_of_window (h : skb.Window)
    (hprotocol : protocol = ipprotoIcmp ∨ protocol = ipprotoTcp ∨ protocol = ipprotoUdp) :
    IpAccepted mem skb saddr daddr protocol ident :=
  (ipAccepted_iff mem skb saddr daddr protocol ident hprotocol).2 h.packet_fits

/-! ### Input -/

variable {mem skb}

/-- The lengths of a packet that passes the checks. -/
theorem ipCheck_lengths (h : ipCheck mem skb = .ok ()) :
    (IpHeader.load mem skb.dataPtr).ihl ≤ (IpHeader.load mem skb.dataPtr).getTotLen.toNat ∧
      (IpHeader.load mem skb.dataPtr).getTotLen.toNat ≤ skb.len.toNat := by
  rw [ipCheck] at h
  split at h
  · cases h
  · dsimp only at h
    split at h
    · cases h
    split at h
    · cases h
    split at h
    · cases h
    split at h
    · cases h
    split at h
    · cases h
    · rename_i hlen
      omega

theorem ipLocalDeliverFinish_snd :
    (ipLocalDeliverFinish mem skb).2 = (skb.pull (IpHeader.load mem skb.dataPtr).ihl).2 := by
  rw [ipLocalDeliverFinish]
  split <;> rfl

/-- What is handed on of a packet that is delivered: all that follows its header. -/
theorem ipRcv_len (h : (ipRcv mem skb).1 = .ok ()) :
    (ipRcv mem skb).2.len.toNat = skb.len.toNat - (IpHeader.load mem skb.dataPtr).ihl ∧
      (IpHeader.load mem skb.dataPtr).ihl ≤ (IpHeader.load mem skb.dataPtr).getTotLen.toNat ∧
      (IpHeader.load mem skb.dataPtr).getTotLen.toNat ≤ skb.len.toNat := by
  rw [ipRcv] at h ⊢
  cases hcheck : ipCheck mem skb with
  | error e =>
      rw [hcheck] at h
      cases h
  | ok _ =>
      obtain ⟨hihl, htot⟩ := ipCheck_lengths hcheck
      rw [hcheck] at h
      dsimp only at h ⊢
      rw [ipLocalDeliver] at h ⊢
      split at h
      · cases h
      · rename_i hwhole
        have hsmall : (IpHeader.load mem skb.dataPtr).ihl < 2 ^ 32 := by
          have := skb.len.isLt
          omega
        have hword : (BitVec.ofNat 32 (IpHeader.load mem skb.dataPtr).ihl).toNat =
            (IpHeader.load mem skb.dataPtr).ihl := by
          rw [BitVec.toNat_ofNat, Nat.mod_eq_of_lt hsmall]
        refine ⟨?_, hihl, htot⟩
        rw [if_neg hwhole, ipLocalDeliverFinish_snd, SkBuff.pull_ok (hihl.trans htot)]
        dsimp only
        rw [BitVec.toNat_sub_of_le (BitVec.le_def.2 (by omega)), hword]

end Output

/-- Output and input.  What `ip_output` sends, for a protocol that is handled, is accepted and
delivered as it was sent exactly if there was no room for the header, or the packet is shorter than
2¹⁶ bytes.  What is handed on of a packet that is received and delivered has the length that the
header says exactly if the buffer was as long as the packet. -/
theorem ip_output_input_iff (mem : PacketMem) (skb : SkBuff) (saddr daddr : BitVec 32)
    (protocol : BitVec 8) (ident : BitVec 16) :
    (protocol = ipprotoIcmp ∨ protocol = ipprotoTcp ∨ protocol = ipprotoUdp →
      (IpAccepted mem skb saddr daddr protocol ident ↔
        (minIpHeaderLen ≤ skb.headroom → skb.len.toNat + minIpHeaderLen < 2 ^ 16))) ∧
    ((ipRcv mem skb).1 = .ok () →
      ((ipRcv mem skb).2.len.toNat =
          (IpHeader.load mem skb.dataPtr).getTotLen.toNat - (IpHeader.load mem skb.dataPtr).ihl ↔
        skb.len.toNat = (IpHeader.load mem skb.dataPtr).getTotLen.toNat)) := by
  refine ⟨ipAccepted_iff mem skb saddr daddr protocol ident, fun h => ?_⟩
  obtain ⟨hlen, hihl, htot⟩ := ipRcv_len h
  omega

/-- A received frame of 46 bytes. -/
def paddedFrame : SkBuff := ⟨0, 0#16, 46#16, 64#16, 46#32, 1#32⟩

/-- The packet of 28 bytes in it. -/
def paddedMem : PacketMem :=
  copyTo (fun _ => 0#8) paddedFrame.dataPtr
    (ipOutputHeader 0x7F000001#32 0x7F000001#32 ipprotoUdp 28#16 0#16).toBytes

theorem ipRcv_paddedFrame : (ipRcv paddedMem paddedFrame).1 = .ok () ∧
    (IpHeader.load paddedMem paddedFrame.dataPtr).getTotLen = 28#16 ∧
    (IpHeader.load paddedMem paddedFrame.dataPtr).ihl = 20 ∧
    (ipRcv paddedMem paddedFrame).2.len = 26#32 := by
  have hcheck := @ipCheck_copyTo (fun _ => 0#8) paddedFrame 0x7F000001#32 0x7F000001#32 ipprotoUdp
    0#16 28#16
  rw [if_neg (by decide), if_neg (by decide)] at hcheck
  rw [paddedMem, ipRcv, hcheck]
  dsimp only
  rw [ipLocalDeliver_copyTo _ _ _ _ _ _ (by decide), IpHeader.load_copyTo]
  exact ⟨rfl, swap16_swap16 _, by decide, by decide⟩

theorem ip_output_input_frame :
    IpAccepted (fun _ => 0#8) (etherBuffer.next (.reserve 54)) 0x7F000001#32 0x7F000001#32
      ipprotoUdp 0#16 ∧
    (ipRcv paddedMem paddedFrame).2.len.toNat ≠ 28 - 20 := by
  obtain ⟨hok, htotal, hihl, -⟩ := ipRcv_paddedFrame
  constructor
  · exact ((ip_output_input_iff _ _ _ _ _ _).1 (by decide)).2 (by decide)
  · have hiff := (ip_output_input_iff paddedMem paddedFrame 0#32 0#32 0#8 0#16).2 hok
    rw [htotal, hihl] at hiff
    exact fun h => absurd (hiff.1 h) (by decide)

/-- A packet with 8 bytes of payload in a frame that was padded to 46 bytes is delivered with 26.
And after a `put` that wraps, the packet that is sent is not accepted as it was sent. -/
theorem ip_padding_delivered :
    (∃ mem, (ipRcv mem paddedFrame).1 = .ok () ∧
      (IpHeader.load mem paddedFrame.dataPtr).getTotLen = 28#16 ∧
      (IpHeader.load mem paddedFrame.dataPtr).ihl = 20 ∧
      (ipRcv mem paddedFrame).2.len = 26#32) ∧
    (∃ skb, skb = ((etherBuffer.next (.reserve 54)).next (.put 65536)) ∧
      ¬ IpAccepted (fun _ => 0#8) skb 0x7F000001#32 0x7F000001#32 ipprotoUdp 0#16) := by
  refine ⟨⟨paddedMem, ipRcv_paddedFrame⟩, _, rfl, ?_⟩
  rw [ipAccepted_iff _ _ _ _ _ _ (by decide)]
  intro h
  exact absurd (h (by decide)) (by decide)

end StarOS
