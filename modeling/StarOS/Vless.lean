/-
Request headers of the tunnel (`net/vless.rs`).

A header has three parts of variable length: the addons, of which there are none, an address of a
fixed length for its type, and a domain, whose length is written as one byte.  A domain of 256 bytes
or more is written whole behind the rest of its length modulo 256, so a reader finds the end of the
header inside it.

* `StarOS.VlessRequest.encode`, `StarOS.VlessTunnel.encapsulate` — the code;
* `StarOS.readVlessRequest` — a reader of the documented format;
* `StarOS.DestAddress.short`, `StarOS.DestAddress.spill` — what is read of an address, and what is
  left over;
* `StarOS.readVlessRequest_encode` — what is read of a header and a payload;
* `StarOS.vless_request_unique` — headers of addresses that fit are uniquely decodable;
* `StarOS.encapsulate_read` — the tunnel's frames are read back;
* `StarOS.vless_request_read_iff` — when a header and a payload are read back.
-/

import StarOS.ByteFields
import StarOS.Readers
import StarOS.Uuid

set_option autoImplicit false

namespace StarOS

open Readers

/-! ### The code -/

/-- `VLESS_VERSION`. -/
def vlessVersion : BitVec 8 := 0#8

/-- `VLESS_MAX_PAYLOAD`. -/
def vlessMaxPayload : ℕ := 16384

/-- `VlessCommand`. -/
inductive VlessCommand where
  | tcp | udp | mux
  deriving DecidableEq, Repr

/-- `command as u8`. -/
def VlessCommand.byte : VlessCommand → BitVec 8
  | .tcp => 0x01#8
  | .udp => 0x02#8
  | .mux => 0x03#8

/-- `AddressType`. -/
inductive AddressType where
  | ipv4 | domain | ipv6
  deriving DecidableEq, Repr

/-- `AddressType as u8`. -/
def AddressType.byte : AddressType → BitVec 8
  | .ipv4 => 0x01#8
  | .domain => 0x02#8
  | .ipv6 => 0x03#8

/-- `DestAddress`. -/
inductive DestAddress where
  | ipv4 (addr : Vector (BitVec 8) 4)
  | ipv6 (addr : Vector (BitVec 8) 16)
  | domain (name : List (BitVec 8))
  deriving DecidableEq, Repr

/-- `VlessRequest`. -/
structure VlessRequest where
  uuid : Uuid
  command : VlessCommand
  destPort : BitVec 16
  destAddr : DestAddress
  deriving DecidableEq, Repr

/-- The address type and the address, in `encode`. -/
def DestAddress.encode : DestAddress → List (BitVec 8)
  | .ipv4 addr => AddressType.ipv4.byte :: addr.toList
  | .ipv6 addr => AddressType.ipv6.byte :: addr.toList
  -- the length is cast to a byte, and all of the name follows
  | .domain name => AddressType.domain.byte :: BitVec.ofNat 8 name.length :: name

/-- `VlessRequest::encode`. -/
def VlessRequest.encode (req : VlessRequest) : List (BitVec 8) :=
  vlessVersion :: (req.uuid.bytes.toList ++
    (0#8 :: req.command.byte :: (beBytes16 req.destPort ++ req.destAddr.encode)))

/-- `VlessConfig`, as far as a frame depends on it. -/
structure VlessConfig where
  uuid : Uuid
  deriving DecidableEq, Repr

/-- `TunnelStats`, as far as `encapsulate` counts. -/
structure TunnelStats where
  bytesTx : BitVec 64
  packetsTx : BitVec 64
  deriving DecidableEq, Repr

/-- `VlessTunnel`. -/
structure VlessTunnel where
  config : Option VlessConfig
  stats : TunnelStats
  active : Bool
  deriving DecidableEq, Repr

/-- The address that a slice is, by its length. -/
def destAddrOf (destIp : List (BitVec 8)) : Except KernelError DestAddress :=
  if h : destIp.length = 4 then .ok (.ipv4 ⟨destIp.toArray, h⟩)
  else if h : destIp.length = 16 then .ok (.ipv6 ⟨destIp.toArray, h⟩)
  else .error .invalidAddress

/-- `VlessTunnel::encapsulate`. -/
def VlessTunnel.encapsulate (t : VlessTunnel) (destIp : List (BitVec 8)) (destPort : BitVec 16)
    (payload : List (BitVec 8)) : Except KernelError (List (BitVec 8)) × VlessTunnel :=
  if !t.active then (.error .notInitialized, t)
  else if payload.length > vlessMaxPayload then (.error (.invalidParameter "payload too large"), t)
  else
    match destAddrOf destIp with
    | .error e => (.error e, t)
    | .ok destAddr =>
        match t.config with
        | none => (.error .notInitialized, t)
        | some cfg =>
            let request : VlessRequest := ⟨cfg.uuid, .tcp, destPort, destAddr⟩
            (.ok (request.encode ++ payload),
              { t with stats := ⟨t.stats.bytesTx + BitVec.ofNat 64 payload.length,
                  t.stats.packetsTx + 1#64⟩ })

/-! ### The documented format -/

/-- Reads a UUID. -/
def readUuid : Reader (BitVec 8) Uuid := (vector 16).map Uuid.mk

/-- Reads `[addon_len(1)] [addon(...)]`. -/
def skipAddons : Reader (BitVec 8) Unit :=
  item.bind fun addonLen => (items addonLen.toNat).map fun _ => ()

/-- Reads a command. -/
def readCommand : Reader (BitVec 8) VlessCommand :=
  item.bind fun b =>
    if b = 0x01#8 then give .tcp
    else if b = 0x02#8 then give .udp
    else if b = 0x03#8 then give .mux
    else refuse

/-- Reads a big-endian number of two bytes. -/
def readPort : Reader (BitVec 8) (BitVec 16) :=
  item.bind fun hi => item.map fun lo => hi ++ lo

/-- Reads a domain behind its length. -/
def readDomain : Reader (BitVec 8) (List (BitVec 8)) :=
  item.bind fun len => items len.toNat

/-- Reads an address type and an address of this type. -/
def readDestAddress : Reader (BitVec 8) DestAddress :=
  item.bind fun b =>
    if b = 0x01#8 then (vector 4).map .ipv4
    else if b = 0x02#8 then readDomain.map .domain
    else if b = 0x03#8 then (vector 16).map .ipv6
    else refuse

/-- Reads `[cmd(1)] [port(2)] [addr_type(1)] [addr(...)]`. -/
def readDestination (uuid : Uuid) : Reader (BitVec 8) VlessRequest :=
  readCommand.bind fun command => readPort.bind fun port =>
    readDestAddress.map fun destAddr => ⟨uuid, command, port, destAddr⟩

/-- Reads `[version(1)] [uuid(16)] [addon_len(1)] [addon(...)] [cmd(1)] [port(2)] [addr_type(1)]
[addr(...)]`. -/
def readVlessRequest : Reader (BitVec 8) VlessRequest :=
  item.bind fun version =>
    if version = vlessVersion then
      readUuid.bind fun uuid => skipAddons.bind fun _ => readDestination uuid
    else refuse

/-- The address with as much of a domain as its length byte says. -/
def DestAddress.short : DestAddress → DestAddress
  | .domain name => .domain (name.take (name.length % 256))
  | addr => addr

/-- The rest of the domain. -/
def DestAddress.spill : DestAddress → List (BitVec 8)
  | .domain name => name.drop (name.length % 256)
  | _ => []

/-- The length of a domain fits into its byte. -/
def DestAddress.Fits : DestAddress → Prop
  | .domain name => name.length < 256
  | _ => True

/-! ### Headers are read -/

theorem reads_readCommand (command : VlessCommand) :
    ReadsAs readCommand [command.byte] command := by
  intro rest
  cases command <;> rfl

theorem reads_readPort (port : BitVec 16) : ReadsAs readPort (beBytes16 port) port := by
  have hlo := (reads_item (port.extractLsb' 0 8)).map fun lo => port.extractLsb' 8 8 ++ lo
  rw [extractLsb'_append_extractLsb'] at hlo
  exact (reads_item (port.extractLsb' 8 8)).bind hlo

theorem reads_readDomain {name : List (BitVec 8)} (h : name.length < 256) :
    ReadsAs readDomain (BitVec.ofNat 8 name.length :: name) name := by
  have hlen : (BitVec.ofNat 8 name.length).toNat = name.length := by
    rw [BitVec.toNat_ofNat]
    exact Nat.mod_eq_of_lt h
  have hname : ReadsAs (items (BitVec.ofNat 8 name.length).toNat) name name := by
    rw [hlen]
    exact reads_items name
  exact (reads_item (BitVec.ofNat 8 name.length)).bind hname

/-- An address that fits is read. -/
theorem reads_readDestAddress {addr : DestAddress} (h : addr.Fits) :
    ReadsAs readDestAddress addr.encode addr := by
  cases addr with
  | ipv4 addr =>
      exact (reads_item AddressType.ipv4.byte).bind ((reads_vector addr).map DestAddress.ipv4)
  | ipv6 addr =>
      exact (reads_item AddressType.ipv6.byte).bind ((reads_vector addr).map DestAddress.ipv6)
  | domain name =>
      exact (reads_item AddressType.domain.byte).bind ((reads_readDomain h).map DestAddress.domain)

theorem reads_readDestination {req : VlessRequest} (h : req.destAddr.Fits) :
    ReadsAs (readDestination req.uuid)
      (req.command.byte :: (beBytes16 req.destPort ++ req.destAddr.encode)) req := by
  have hport : ReadsAs (readPort.bind fun port => readDestAddress.map fun destAddr =>
      (⟨req.uuid, req.command, port, destAddr⟩ : VlessRequest))
      (beBytes16 req.destPort ++ req.destAddr.encode) req :=
    (reads_readPort req.destPort).bind ((reads_readDestAddress h).map _)
  exact (reads_readCommand req.command).bind hport

/-- A request whose address fits is read. -/
theorem reads_readVlessRequest (req : VlessRequest) (h : req.destAddr.Fits) :
    ReadsAs readVlessRequest req.encode req := by
  have haddons : ReadsAs skipAddons [0#8] () := (reads_item 0#8).bind ((reads_items []).map _)
  have huuid : ReadsAs readUuid req.uuid.bytes.toList req.uuid := (reads_vector _).map Uuid.mk
  have hfields : ReadsAs (readUuid.bind fun uuid => skipAddons.bind fun _ => readDestination uuid)
      (req.uuid.bytes.toList ++
        (0#8 :: req.command.byte :: (beBytes16 req.destPort ++ req.destAddr.encode))) req :=
    huuid.bind (haddons.bind (reads_readDestination h))
  exact (reads_item vlessVersion).bind hfields

/-! ### What is read of a header -/

theorem DestAddress.fits_short (addr : DestAddress) : addr.short.Fits := by
  cases addr with
  | ipv4 addr => trivial
  | ipv6 addr => trivial
  | domain name =>
      show (name.take (name.length % 256)).length < 256
      rw [List.length_take]
      omega

/-- The bytes of an address are those of what is read of it, and what is left over. -/
theorem DestAddress.encode_eq (addr : DestAddress) :
    addr.encode = addr.short.encode ++ addr.spill := by
  cases addr with
  | ipv4 addr => exact (List.append_nil _).symm
  | ipv6 addr => exact (List.append_nil _).symm
  | domain name =>
      have hlen : (name.take (name.length % 256)).length = name.length % 256 := by
        rw [List.length_take, Nat.min_eq_left (Nat.mod_le _ _)]
      have hbyte : BitVec.ofNat 8 (name.length % 256) = BitVec.ofNat 8 name.length := by
        apply BitVec.eq_of_toNat_eq
        rw [BitVec.toNat_ofNat, BitVec.toNat_ofNat, Nat.mod_mod]
      simp only [DestAddress.encode, DestAddress.short, DestAddress.spill, hlen, hbyte,
        List.cons_append, List.take_append_drop]

/-- Of a header and a payload, the request with the shortened address is read. -/
theorem readVlessRequest_encode (req : VlessRequest) (payload : List (BitVec 8)) :
    readVlessRequest (req.encode ++ payload) =
      some ({ req with destAddr := req.destAddr.short }, req.destAddr.spill ++ payload) := by
  rw [← reads_readVlessRequest { req with destAddr := req.destAddr.short }
    req.destAddr.fits_short (req.destAddr.spill ++ payload)]
  simp only [VlessRequest.encode, req.destAddr.encode_eq, List.cons_append, List.append_assoc]

theorem DestAddress.short_eq_iff {addr : DestAddress} : addr.short = addr ↔ addr.Fits := by
  cases addr with
  | ipv4 addr => exact iff_of_true rfl trivial
  | ipv6 addr => exact iff_of_true rfl trivial
  | domain name =>
      rw [DestAddress.short, DestAddress.domain.injEq, List.take_eq_self_iff]
      show name.length ≤ name.length % 256 ↔ name.length < 256
      omega

theorem DestAddress.Fits.spill_eq {addr : DestAddress} (h : addr.Fits) : addr.spill = [] := by
  cases addr with
  | ipv4 addr => rfl
  | ipv6 addr => rfl
  | domain name =>
      rw [DestAddress.spill, Nat.mod_eq_of_lt h, List.drop_length]

/-- Headers of addresses that fit are uniquely decodable. -/
theorem vless_request_unique {req req' : VlessRequest} {payload payload' : List (BitVec 8)}
    (h : req.destAddr.Fits) (h' : req'.destAddr.Fits)
    (heq : req.encode ++ payload = req'.encode ++ payload') : req = req' ∧ payload = payload' := by
  obtain ⟨hreq, -, hpayload⟩ :=
    (reads_readVlessRequest _ h).unique (reads_readVlessRequest _ h') heq
  exact ⟨hreq, hpayload⟩

/-- The tunnel sends no domains. -/
theorem destAddrOf_fits {destIp : List (BitVec 8)} {destAddr : DestAddress}
    (h : destAddrOf destIp = .ok destAddr) : destAddr.Fits := by
  rw [destAddrOf] at h
  split at h
  · cases h
    trivial
  split at h
  · cases h
    trivial
  · cases h

/-- A frame of the tunnel is read as a request for its user, the address and the port, and the
payload. -/
theorem encapsulate_read {t : VlessTunnel} {destIp payload frame : List (BitVec 8)}
    {destPort : BitVec 16} (h : (t.encapsulate destIp destPort payload).1 = .ok frame) :
    ∃ cfg destAddr, t.config = some cfg ∧ destAddrOf destIp = .ok destAddr ∧
      readVlessRequest frame = some (⟨cfg.uuid, .tcp, destPort, destAddr⟩, payload) := by
  rw [VlessTunnel.encapsulate] at h
  split at h
  · cases h
  split at h
  · cases h
  split at h
  · cases h
  rename_i destAddr haddr
  split at h
  · cases h
  rename_i cfg hcfg
  obtain rfl := Except.ok.inj h
  refine ⟨cfg, destAddr, hcfg, haddr, ?_⟩
  exact reads_readVlessRequest _ (destAddrOf_fits haddr) payload

/-- A frame with one byte for 10.0.0.1. -/
theorem encapsulate_read_ipv4 :
    let t : VlessTunnel := ⟨some ⟨⟨Vector.replicate 16 7#8⟩⟩, ⟨0#64, 0#64⟩, true⟩
    ∃ frame cfg destAddr, (t.encapsulate [10#8, 0#8, 0#8, 1#8] 443#16 [1#8]).1 = .ok frame ∧
      t.config = some cfg ∧
      readVlessRequest frame = some (⟨cfg.uuid, .tcp, 443#16, destAddr⟩, [1#8]) := by
  intro t
  have hframe : (t.encapsulate [10#8, 0#8, 0#8, 1#8] 443#16 [1#8]).1 = .ok _ := rfl
  obtain ⟨cfg, destAddr, hcfg, -, hread⟩ := encapsulate_read hframe
  exact ⟨_, cfg, destAddr, hframe, hcfg, hread⟩

/-- A request and a payload are read back from the bytes of both exactly when a domain has at most
255 bytes. -/
theorem vless_request_read_iff (req : VlessRequest) (payload : List (BitVec 8)) :
    readVlessRequest (req.encode ++ payload) = some (req, payload) ↔ req.destAddr.Fits := by
  rw [readVlessRequest_encode, Option.some.injEq, Prod.mk.injEq]
  constructor
  · rintro ⟨hreq, -⟩
    exact DestAddress.short_eq_iff.1 (congrArg VlessRequest.destAddr hreq)
  · intro h
    rw [DestAddress.short_eq_iff.2 h, h.spill_eq]
    exact ⟨rfl, rfl⟩

/-- A request for a domain of 256 bytes is that for the empty domain with 256 bytes of payload. -/
theorem vless_domain_length_wraps :
    let req : VlessRequest := ⟨⟨Vector.replicate 16 0#8⟩, .tcp, 443#16, .domain []⟩
    let long : VlessRequest := { req with destAddr := .domain (List.replicate 256 0x61#8) }
    long.encode ++ [] = req.encode ++ List.replicate 256 0x61#8 ∧
      readVlessRequest (long.encode ++ []) ≠ some (long, []) := by
  intro req long
  have hbytes : long.encode ++ [] = req.encode ++ List.replicate 256 0x61#8 := by
    have hlen : BitVec.ofNat 8 256 = BitVec.ofNat 8 0 := by decide
    simp only [long, req, VlessRequest.encode, DestAddress.encode, List.length_replicate,
      List.length_nil, hlen, List.append_nil, List.cons_append, List.nil_append, List.append_assoc]
  have hread : ReadsAs readVlessRequest req.encode req :=
    reads_readVlessRequest _ (Nat.zero_lt_succ 255)
  refine ⟨hbytes, ?_⟩
  rw [hbytes, hread]
  intro h
  cases congrArg VlessRequest.destAddr (Prod.mk.inj (Option.some.inj h)).1

end StarOS
