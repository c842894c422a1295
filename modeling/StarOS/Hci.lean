/-
The connections of a Bluetooth controller (`net/bluetooth/hci.rs`).

The events of the controller insert, remove and update entries of a table with 16 slots.  An entry
is inserted without a search for its handle, and is removed also by a DISCONN_COMPLETE that says
that the connection was not closed.  The table is a map by handle exactly if the controller does
neither, and the link types of its events mean what the code takes them for.

* `StarOS.HciDev`, `StarOS.HciDev.recvEvent`, `StarOS.HciDev.connByHandle` — the code;
* `StarOS.HciNews`, `StarOS.hciNews` — what a packet says of connections;
* `StarOS.HciDev.recvEvent_effect` — what a packet does to the table;
* `StarOS.HciRun`, `StarOS.HciRun.next` — runs, with the connections that are open by what the
  events said;
* `StarOS.hci_table_iff` — when the table is a map by handle all along a run.
-/

import StarOS.L2cap
import StarOS.Runs
import StarOS.Slots

set_option autoImplicit false

namespace StarOS

/-! ### Data -/

/-- A device address. -/
abbrev Bdaddr := Vector (BitVec 8) 6

/-- `ConnType`. -/
inductive ConnType where
  | acl | sco | lowEnergy
  deriving DecidableEq, Repr

/-- `ConnState`. -/
inductive HciConnState where
  | closed | connecting | connected | disconnecting
  deriving DecidableEq, Repr

/-- `HciConn`. -/
structure HciConn where
  handle : BitVec 16
  bdaddr : Bdaddr
  connType : ConnType
  state : HciConnState
  encrypt : Bool
  auth : Bool
  lsto : BitVec 16
  flushTo : BitVec 16
  valid : Bool
  deriving DecidableEq, Repr

/-- `HciConn::empty`. -/
def HciConn.empty : HciConn where
  handle := 0#16
  bdaddr := Vector.replicate 6 0#8
  connType := .acl
  state := .closed
  encrypt := false
  auth := false
  lsto := 0x7D00#16
  flushTo := 0xFFFF#16
  valid := false

/-- `InquiryResult`. -/
structure InquiryResult where
  bdaddr : Bdaddr
  classDev : Vector (BitVec 8) 3
  clockOffset : BitVec 16
  rssi : Int
  valid : Bool
  deriving DecidableEq, Repr

/-- `InquiryResult::empty`. -/
def InquiryResult.empty : InquiryResult :=
  ⟨Vector.replicate 6 0#8, Vector.replicate 3 0#8, 0#16, -100, false⟩

/-- `MAX_HCI_CONNS`. -/
def maxHciConns : ℕ := 16

/-- `MAX_INQUIRY_RES`. -/
def maxInquiryRes : ℕ := 32

/-- The entries of the connection table. -/
abbrev HciConns := Fin maxHciConns → HciConn

/-- `HciDev`, as far as events read and write it. -/
structure HciDev where
  bdaddr : Bdaddr
  hciVer : BitVec 8
  lmpVer : BitVec 8
  manufacturer : BitVec 32
  cmdCnt : BitVec 8
  conns : HciConns
  inquiry : Fin maxInquiryRes → InquiryResult
  inquiryCnt : BitVec 32
  flags : BitVec 32

/-- `HciDev::new`. -/
def HciDev.new : HciDev where
  bdaddr := Vector.replicate 6 0#8
  hciVer := 0#8
  lmpVer := 0#8
  manufacturer := 0#32
  cmdCnt := 1#8
  conns := fun _ => HciConn.empty
  inquiry := fun _ => InquiryResult.empty
  inquiryCnt := 0#32
  flags := 0#32

/-- `hci_flags::INQUIRY`. -/
def hciFlagInquiry : BitVec 32 := 1#32 <<< 2

namespace HciEvent

/-- `event::INQUIRY_COMPLETE`. -/
def inquiryComplete : BitVec 8 := 0x01#8

/-- `event::INQUIRY_RESULT`. -/
def inquiryResult : BitVec 8 := 0x02#8

/-- `event::CONN_COMPLETE`. -/
def connComplete : BitVec 8 := 0x03#8

/-- `event::DISCONN_COMPLETE`. -/
def disconnComplete : BitVec 8 := 0x05#8

/-- `event::AUTH_COMPLETE`. -/
def authComplete : BitVec 8 := 0x06#8

/-- `event::ENCRYPT_CHANGE`. -/
def encryptChange : BitVec 8 := 0x08#8

/-- `event::CMD_COMPLETE`. -/
def cmdComplete : BitVec 8 := 0x0E#8

/-- `event::CMD_STATUS`. -/
def cmdStatus : BitVec 8 := 0x0F#8

/-- `event::LE_META`. -/
def leMeta : BitVec 8 := 0x3E#8

/-- `le_event::CONN_COMPLETE`. -/
def leConnComplete : BitVec 8 := 0x01#8

end HciEvent

/-- `opcode::READ_BD_ADDR`. -/
def hciReadBdAddr : BitVec 16 := 0x1009#16

/-- `opcode::READ_LOCAL_VERSION`. -/
def hciReadLocalVersion : BitVec 16 := 0x1001#16

/-- The byte at a place of the parameters. -/
def paramByte (p : List (BitVec 8)) (i : ℕ) : BitVec 8 := p.getD i 0#8

/-- `n` bytes of the parameters. -/
def paramBytes (p : List (BitVec 8)) (i n : ℕ) : Vector (BitVec 8) n :=
  Vector.ofFn fun k : Fin n => paramByte p (i + k.val)

/-! ### The table -/

namespace HciConns

/-- The entry is valid, and that of the handle. -/
def isAt (conns : HciConns) (handle : BitVec 16) (i : Fin maxHciConns) : Bool :=
  (conns i).valid && (conns i).handle == handle

/-- The first slot that is not valid is taken for a connection; if there is none, the connection is
not recorded. -/
def insert (conns : HciConns) (handle : BitVec 16) (bdaddr : Bdaddr) (connType : ConnType) :
    HciConns :=
  match Slots.first fun i => !(conns i).valid with
  | some i =>
      Function.update conns i { HciConn.empty with
        handle := handle
        bdaddr := bdaddr
        connType := connType
        state := .connected
        valid := true }
  | none => conns

/-- The first valid entry of the handle is changed. -/
def modify (conns : HciConns) (handle : BitVec 16) (f : HciConn → HciConn) : HciConns :=
  match Slots.first (conns.isAt handle) with
  | some i => Function.update conns i (f (conns i))
  | none => conns

/-- The first valid entry of the handle. -/
def lookup (conns : HciConns) (handle : BitVec 16) : Option HciConn :=
  (Slots.first (conns.isAt handle)).map conns

/-- Every entry is valid. -/
def Full (conns : HciConns) : Prop := ∀ i, (conns i).valid = true

instance decidableFull (conns : HciConns) : Decidable conns.Full :=
  inferInstanceAs (Decidable (∀ i, (conns i).valid = true))

/-- At most one valid entry exists for each handle. -/
def Unique (conns : HciConns) : Prop :=
  ∀ handle i j, conns.isAt handle i = true → conns.isAt handle j = true → i = j

section Table

variable {conns : HciConns} {handle other : BitVec 16} {i j : Fin maxHciConns} {c : HciConn}

theorem isAt_iff :
    conns.isAt handle i = true ↔ (conns i).valid = true ∧ (conns i).handle = handle := by
  rw [isAt, Bool.and_eq_true, beq_iff_eq]

theorem isAt_update : isAt (Function.update conns i c) handle j =
    if j = i then c.valid && c.handle == handle else conns.isAt handle j := by
  unfold isAt
  by_cases hj : j = i
  · rw [if_pos hj, hj, Function.update_self]
  · rw [if_neg hj, Function.update_of_ne hj]

theorem lookup_eq_none : conns.lookup handle = none ↔ ∀ i, conns.isAt handle i = false := by
  rw [lookup, Option.map_eq_none_iff, Slots.first_eq_none]

/-- Where handles are unique, the entry of a handle is found. -/
theorem Unique.lookup_eq (h : conns.Unique) (hi : conns.isAt handle i = true) :
    conns.lookup handle = some (conns i) := by
  rw [lookup, Slots.first_of_unique hi fun j hj => h handle j i hj hi, Option.map_some]

/-- An entry that is written does not matter to the handles that it does not have, before and
after. -/
theorem lookup_update_of_ne (hi : conns.isAt other i = false)
    (hc : (c.valid && c.handle == other) = false) :
    lookup (Function.update conns i c) other = conns.lookup other := by
  have hsame : isAt (Function.update conns i c) other = conns.isAt other := by
    funext j
    rw [isAt_update]
    split
    · rename_i hj
      rw [hj, hi, hc]
    · rfl
  rw [lookup, lookup, hsame]
  cases hfirst : Slots.first (conns.isAt other) with
  | none => rfl
  | some j =>
      have hj : j ≠ i := by
        rintro rfl
        rw [Slots.first_eq_some hfirst] at hi
        cases hi
      rw [Option.map_some, Option.map_some, Function.update_of_ne hj]

/-- What is written into a slot keeps handles unique, if no other slot has its handle. -/
theorem Unique.update (h : conns.Unique)
    (hc : c.valid = true → ∀ j, j ≠ i → conns.isAt c.handle j = false) :
    Unique (Function.update conns i c) := by
  have hother : ∀ handle j, (c.valid && c.handle == handle) = true → j ≠ i →
      conns.isAt handle j = false := by
    intro handle j hhandle hj
    rw [Bool.and_eq_true, beq_iff_eq] at hhandle
    rw [← hhandle.2]
    exact hc hhandle.1 j hj
  intro handle j k hj hk
  rw [isAt_update] at hj hk
  split at hj
  · rename_i hji
    split at hk
    · rename_i hki
      rw [hji, hki]
    · rename_i hki
      rw [hother handle k hj hki] at hk
      cases hk
  · rename_i hji
    split at hk
    · rw [hother handle j hk hji] at hj
      cases hj
    · exact h handle j k hj hk

theorem insert_of_full (h : conns.Full) (bdaddr : Bdaddr) (connType : ConnType) :
    conns.insert handle bdaddr connType = conns := by
  have hnone : Slots.first (fun i => !(conns i).valid) = none :=
    Slots.first_eq_none.2 fun i => by rw [h i, Bool.not_true]
  rw [insert, hnone]

/-- A new entry is written into a slot that was not valid. -/
theorem insert_of_not_full (h : ¬ conns.Full) (handle : BitVec 16) (bdaddr : Bdaddr)
    (connType : ConnType) :
    ∃ i c, (conns i).valid = false ∧
      conns.insert handle bdaddr connType = Function.update conns i c ∧
      c.valid = true ∧ c.handle = handle ∧ c.bdaddr = bdaddr ∧ c.connType = connType := by
  obtain ⟨k, hk⟩ := not_forall.1 h
  obtain ⟨i, hi⟩ := Slots.exists_first (p := fun i => !(conns i).valid) (i := k)
    (by rw [Bool.eq_false_iff.2 hk, Bool.not_false])
  have hfree := Slots.first_eq_some hi
  rw [Bool.not_eq_true'] at hfree
  rw [insert, hi]
  exact ⟨i, _, hfree, rfl, rfl, rfl, rfl, rfl⟩

theorem modify_of_none (h : ∀ i, conns.isAt handle i = false) (f : HciConn → HciConn) :
    conns.modify handle f = conns := by
  rw [modify, Slots.first_eq_none.2 h]

theorem Unique.modify_eq (h : conns.Unique) (hi : conns.isAt handle i = true)
    (f : HciConn → HciConn) : conns.modify handle f = Function.update conns i (f (conns i)) := by
  rw [modify, Slots.first_of_unique hi fun j hj => h handle j i hj hi]

end Table

end HciConns

namespace HciDev

/-- What the code takes a link type for. -/
def linkConnType (linkType : BitVec 8) : ConnType := if linkType = 1#8 then .sco else .acl

/-- `handle_conn_complete`. -/
def handleConnComplete (dev : HciDev) (p : List (BitVec 8)) : HciDev :=
  if p.length < 11 then dev
  else if paramByte p 0 ≠ 0#8 then dev
  else { dev with
    conns := dev.conns.insert (leWord p 1) (paramBytes p 3 6) (linkConnType (paramByte p 9)) }

/-- `handle_le_conn_complete`. -/
def handleLeConnComplete (dev : HciDev) (p : List (BitVec 8)) : HciDev :=
  if p.length < 18 then dev
  else if paramByte p 0 ≠ 0#8 then dev
  else { dev with conns := dev.conns.insert (leWord p 1) (paramBytes p 4 6) .lowEnergy }

/-- `handle_disconn_complete`.  The status is not looked at. -/
def handleDisconnComplete (dev : HciDev) (p : List (BitVec 8)) : HciDev :=
  if p.length < 4 then dev
  else { dev with
    conns := dev.conns.modify (leWord p 1) fun c => { c with state := .closed, valid := false } }

/-- `handle_auth_complete`. -/
def handleAuthComplete (dev : HciDev) (p : List (BitVec 8)) : HciDev :=
  if p.length < 3 then dev
  else if paramByte p 0 ≠ 0#8 then dev
  else { dev with conns := dev.conns.modify (leWord p 1) fun c => { c with auth := true } }

/-- `handle_encrypt_change`. -/
def handleEncryptChange (dev : HciDev) (p : List (BitVec 8)) : HciDev :=
  if p.length < 4 then dev
  else if paramByte p 0 ≠ 0#8 then dev
  else { dev with
    conns := dev.conns.modify (leWord p 1) fun c => { c with encrypt := paramByte p 3 ≠ 0#8 } }

/-- `handle_cmd_complete`. -/
def handleCmdComplete (dev : HciDev) (p : List (BitVec 8)) : HciDev :=
  if p.length < 3 then dev
  else
    let dev := { dev with cmdCnt := paramByte p 0 }
    let opcode := leWord p 1
    let ret := if 3 < p.length then paramByte p 3 else 0#8
    if ret ≠ 0#8 then dev
    else if opcode = hciReadBdAddr then
      if 10 ≤ p.length then { dev with bdaddr := paramBytes p 4 6 } else dev
    else if opcode = hciReadLocalVersion then
      if 9 ≤ p.length then
        { dev with
          hciVer := paramByte p 4
          lmpVer := paramByte p 6
          manufacturer := (leWord p 7).setWidth 32 }
      else dev
    else dev

/-- `handle_cmd_status`. -/
def handleCmdStatus (dev : HciDev) (p : List (BitVec 8)) : HciDev :=
  if 2 ≤ p.length then { dev with cmdCnt := paramByte p 1 } else dev

/-- `cnt % MAX_INQUIRY_RES`. -/
def inquirySlot (cnt : BitVec 32) : Fin maxInquiryRes :=
  ⟨cnt.toNat % maxInquiryRes, Nat.mod_lt _ (by decide)⟩

/-- The response at an offset of an inquiry result. -/
def inquiryEntry (p : List (BitVec 8)) (off : ℕ) : InquiryResult :=
  { InquiryResult.empty with
    bdaddr := paramBytes p off 6
    classDev := paramBytes p (off + 9) 3
    clockOffset := leWord p (off + 12)
    valid := true }

/-- The loop of `handle_inquiry_result` over the responses from `i` on. -/
def inquiryLoop (p : List (BitVec 8)) : ℕ → ℕ → HciDev → HciDev
  | 0, _, dev => dev
  | left + 1, i, dev =>
      let off := 1 + i * 14
      if p.length < off + 14 then dev
      else inquiryLoop p left (i + 1)
        { dev with
          inquiry := Function.update dev.inquiry (inquirySlot dev.inquiryCnt) (inquiryEntry p off)
          inquiryCnt := dev.inquiryCnt + 1#32 }

/-- `handle_inquiry_result`. -/
def handleInquiryResult (dev : HciDev) (p : List (BitVec 8)) : HciDev :=
  if p = [] then dev else inquiryLoop p (paramByte p 0).toNat 0 dev

/-- `handle_le_meta`.  Advertising reports are not looked at. -/
def handleLeMeta (dev : HciDev) (p : List (BitVec 8)) : HciDev :=
  if p = [] then dev
  else if paramByte p 0 = HciEvent.leConnComplete then dev.handleLeConnComplete (p.drop 1)
  else dev

/-- The dispatch on the code of an event. -/
def handleEvent (dev : HciDev) (code : BitVec 8) (p : List (BitVec 8)) : HciDev :=
  if code = HciEvent.connComplete then dev.handleConnComplete p
  else if code = HciEvent.disconnComplete then dev.handleDisconnComplete p
  else if code = HciEvent.cmdComplete then dev.handleCmdComplete p
  else if code = HciEvent.cmdStatus then dev.handleCmdStatus p
  else if code = HciEvent.inquiryResult then dev.handleInquiryResult p
  else if code = HciEvent.inquiryComplete then
    { dev with flags := dev.flags &&& ~~~hciFlagInquiry }
  else if code = HciEvent.authComplete then dev.handleAuthComplete p
  else if code = HciEvent.encryptChange then dev.handleEncryptChange p
  else if code = HciEvent.leMeta then dev.handleLeMeta p
  else dev

/-- `recv_event`. -/
def recvEvent (dev : HciDev) (data : List (BitVec 8)) : HciDev :=
  if data.length < 2 then dev
  else if data.length < 2 + (paramByte data 1).toNat then dev
  else dev.handleEvent (paramByte data 0) ((data.drop 2).take (paramByte data 1).toNat)

/-- `conn_by_handle`. -/
def connByHandle (dev : HciDev) (handle : BitVec 16) : Option HciConn :=
  dev.conns.lookup handle

end HciDev

/-! ### What a packet says -/

/-- What a packet says of connections.  The link type is that of a CONN_COMPLETE; there is none if
the connection is a low energy one. -/
inductive HciNews where
  | opened (handle : BitVec 16) (bdaddr : Bdaddr) (linkType : Option (BitVec 8))
  | closed (status : BitVec 8) (handle : BitVec 16)
  | authenticated (status : BitVec 8) (handle : BitVec 16)
  | encrypted (status : BitVec 8) (handle : BitVec 16) (enabled : Bool)
  | other
  deriving DecidableEq, Repr

/-- What an event with the given parameters says.  A connection that was not made is no news. -/
def eventNews (code : BitVec 8) (p : List (BitVec 8)) : HciNews :=
  if code = HciEvent.connComplete then
    if 11 ≤ p.length ∧ paramByte p 0 = 0#8 then
      .opened (leWord p 1) (paramBytes p 3 6) (some (paramByte p 9))
    else .other
  else if code = HciEvent.disconnComplete then
    if 4 ≤ p.length then .closed (paramByte p 0) (leWord p 1) else .other
  else if code = HciEvent.authComplete then
    if 3 ≤ p.length then .authenticated (paramByte p 0) (leWord p 1) else .other
  else if code = HciEvent.encryptChange then
    if 4 ≤ p.length then .encrypted (paramByte p 0) (leWord p 1) (paramByte p 3 ≠ 0#8) else .other
  else if code = HciEvent.leMeta then
    if paramByte p 0 = HciEvent.leConnComplete ∧ 18 ≤ (p.drop 1).length ∧
        paramByte (p.drop 1) 0 = 0#8 then
      .opened (leWord (p.drop 1) 1) (paramBytes (p.drop 1) 4 6) none
    else .other
  else .other

/-- What a packet says.  A truncated one says nothing. -/
def hciNews (data : List (BitVec 8)) : HciNews :=
  if 2 + (paramByte data 1).toNat ≤ data.length then
    eventNews (paramByte data 0) ((data.drop 2).take (paramByte data 1).toNat)
  else .other

/-- The type of a connection, given what the link types mean. -/
def newsConnType (meaning : BitVec 8 → ConnType) : Option (BitVec 8) → ConnType
  | some linkType => meaning linkType
  | none => .lowEnergy

/-- What the code makes of the news. -/
def HciConns.apply (conns : HciConns) : HciNews → HciConns
  | .opened handle bdaddr linkType =>
      conns.insert handle bdaddr (newsConnType HciDev.linkConnType linkType)
  | .closed _ handle => conns.modify handle fun c => { c with state := .closed, valid := false }
  | .authenticated status handle =>
      if status = 0#8 then conns.modify handle fun c => { c with auth := true } else conns
  | .encrypted status handle enabled =>
      if status = 0#8 then conns.modify handle fun c => { c with encrypt := enabled } else conns
  | .other => conns

namespace HciDev

theorem inquiryLoop_conns (p : List (BitVec 8)) (left i : ℕ) (dev : HciDev) :
    (inquiryLoop p left i dev).conns = dev.conns := by
  induction left generalizing i dev with
  | zero => rfl
  | succ left ih =>
      rw [inquiryLoop]
      split
      · rfl
      · rw [ih]

theorem handleCmdComplete_conns (dev : HciDev) (p : List (BitVec 8)) :
    (dev.handleCmdComplete p).conns = dev.conns := by
  unfold handleCmdComplete
  dsimp only
  repeat' split
  all_goals rfl

theorem handleConnComplete_conns (dev : HciDev) (p : List (BitVec 8)) :
    (dev.handleConnComplete p).conns = dev.conns.apply (eventNews HciEvent.connComplete p) := by
  rw [handleConnComplete, eventNews, if_pos rfl]
  split
  · rw [if_neg fun h => by omega]
    rfl
  split
  · rename_i hstatus
    rw [if_neg fun h => hstatus h.2]
    rfl
  · rename_i hlen hstatus
    rw [if_pos ⟨not_lt.1 hlen, not_not.1 hstatus⟩]
    rfl

theorem handleDisconnComplete_conns (dev : HciDev) (p : List (BitVec 8)) :
    (dev.handleDisconnComplete p).conns =
      dev.conns.apply (eventNews HciEvent.disconnComplete p) := by
  have hnews : eventNews HciEvent.disconnComplete p =
      if 4 ≤ p.length then .closed (paramByte p 0) (leWord p 1) else .other := by
    rw [eventNews, if_neg (by decide), if_pos rfl]
  rw [hnews, handleDisconnComplete]
  split
  · rw [if_neg (by omega)]
    rfl
  · rw [if_pos (by omega)]
    rfl

theorem handleAuthComplete_conns (dev : HciDev) (p : List (BitVec 8)) :
    (dev.handleAuthComplete p).conns = dev.conns.apply (eventNews HciEvent.authComplete p) := by
  have hnews : eventNews HciEvent.authComplete p =
      if 3 ≤ p.length then .authenticated (paramByte p 0) (leWord p 1) else .other := by
    rw [eventNews, if_neg (by decide), if_neg (by decide), if_pos rfl]
  rw [hnews, handleAuthComplete]
  split
  · rw [if_neg (by omega)]
    rfl
  · rename_i hlen
    rw [if_pos (not_lt.1 hlen)]
    unfold HciConns.apply
    split
    · rename_i hstatus
      exact (if_neg hstatus).symm
    · rename_i hstatus
      exact (if_pos (not_not.1 hstatus)).symm

theorem handleEncryptChange_conns (dev : HciDev) (p : List (BitVec 8)) :
    (dev.handleEncryptChange p).conns =
      dev.conns.apply (eventNews HciEvent.encryptChange p) := by
  have hnews : eventNews HciEvent.encryptChange p =
      if 4 ≤ p.length then .encrypted (paramByte p 0) (leWord p 1) (paramByte p 3 ≠ 0#8)
      else .other := by
    rw [eventNews, if_neg (by decide), if_neg (by decide), if_neg (by decide), if_pos rfl]
  rw [hnews, handleEncryptChange]
  split
  · rw [if_neg (by omega)]
    rfl
  · rename_i hlen
    rw [if_pos (not_lt.1 hlen)]
    unfold HciConns.apply
    split
    · rename_i hstatus
      exact (if_neg hstatus).symm
    · rename_i hstatus
      exact (if_pos (not_not.1 hstatus)).symm

theorem handleLeMeta_conns (dev : HciDev) (p : List (BitVec 8)) :
    (dev.handleLeMeta p).conns = dev.conns.apply (eventNews HciEvent.leMeta p) := by
  have hnews : eventNews HciEvent.leMeta p =
      if paramByte p 0 = HciEvent.leConnComplete ∧ 18 ≤ (p.drop 1).length ∧
          paramByte (p.drop 1) 0 = 0#8 then
        .opened (leWord (p.drop 1) 1) (paramBytes (p.drop 1) 4 6) none
      else .other := by
    rw [eventNews, if_neg (by decide), if_neg (by decide), if_neg (by decide),
      if_neg (by decide), if_pos rfl]
  rw [hnews, handleLeMeta]
  split
  · rename_i hnil
    rw [if_neg fun h => absurd h.2.1 (by rw [hnil]; decide)]
    rfl
  split
  · rename_i hcode
    rw [handleLeConnComplete]
    split
    · rw [if_neg fun h => by omega]
      rfl
    split
    · rename_i hstatus
      rw [if_neg fun h => hstatus h.2.2]
      rfl
    · rename_i hlen hstatus
      rw [if_pos ⟨hcode, not_lt.1 hlen, not_not.1 hstatus⟩]
      rfl
  · rename_i hcode
    rw [if_neg fun h => hcode h.1]
    rfl

/-- The codes of the other events that are looked at. -/
theorem eventNews_other {code : BitVec 8} (p : List (BitVec 8))
    (h : code = HciEvent.cmdComplete ∨ code = HciEvent.cmdStatus ∨
      code = HciEvent.inquiryResult ∨ code = HciEvent.inquiryComplete) :
    eventNews code p = .other := by
  rcases h with rfl | rfl | rfl | rfl <;>
    rw [eventNews, if_neg (by decide), if_neg (by decide), if_neg (by decide),
      if_neg (by decide), if_neg (by decide)]

theorem handleEvent_conns (dev : HciDev) (code : BitVec 8) (p : List (BitVec 8)) :
    (dev.handleEvent code p).conns = dev.conns.apply (eventNews code p) := by
  rw [handleEvent]
  split
  · rename_i h
    rw [h, handleConnComplete_conns]
  split
  · rename_i h
    rw [h, handleDisconnComplete_conns]
  split
  · rename_i h
    rw [eventNews_other p (.inl h), handleCmdComplete_conns]
    rfl
  split
  · rename_i h
    rw [eventNews_other p (.inr (.inl h)), handleCmdStatus]
    split <;> rfl
  split
  · rename_i h
    rw [eventNews_other p (.inr (.inr (.inl h))), handleInquiryResult]
    split
    · rfl
    · exact inquiryLoop_conns _ _ _ _
  split
  · rename_i h
    rw [eventNews_other p (.inr (.inr (.inr h)))]
    rfl
  split
  · rename_i h
    rw [h, handleAuthComplete_conns]
  split
  · rename_i h
    rw [h, handleEncryptChange_conns]
  split
  · rename_i h
    rw [h, handleLeMeta_conns]
  · rename_i h₁ h₂ _ _ _ _ h₃ h₄ h₅
    rw [eventNews, if_neg h₁, if_neg h₂, if_neg h₃, if_neg h₄, if_neg h₅]
    rfl

/-- What a packet does to the table. -/
theorem recvEvent_effect (dev : HciDev) (data : List (BitVec 8)) :
    (dev.recvEvent data).conns = dev.conns.apply (hciNews data) := by
  rw [recvEvent, hciNews]
  split
  · rw [if_neg (by omega)]
    rfl
  split
  · rw [if_neg (by omega)]
    rfl
  · rw [if_pos (by omega)]
    exact handleEvent_conns _ _ _

end HciDev

/-! ### Runs -/

/-- A run: the device, and the address and type of each connection that is open by what the events
said. -/
structure HciRun where
  dev : HciDev
  opened : BitVec 16 → Option (Bdaddr × ConnType)

namespace HciRun

/-- Before the first event. -/
def fresh : HciRun := ⟨HciDev.new, fun _ => none⟩

/-- The connections that are open after the news.  One that is made while the table is full is not
recorded. -/
def openedAfter (meaning : BitVec 8 → ConnType) (r : HciRun) :
    HciNews → BitVec 16 → Option (Bdaddr × ConnType)
  | .opened handle bdaddr linkType =>
      if r.dev.conns.Full then r.opened
      else Function.update r.opened handle (some (bdaddr, newsConnType meaning linkType))
  | .closed status handle =>
      if status = 0#8 then Function.update r.opened handle none else r.opened
  | _ => r.opened

/-- The next event packet. -/
def next (meaning : BitVec 8 → ConnType) (r : HciRun) (data : List (BitVec 8)) : HciRun :=
  ⟨r.dev.recvEvent data, r.openedAfter meaning (hciNews data)⟩

/-- The table is the map of the connections that are open. -/
structure MapOk (r : HciRun) : Prop where
  unique : r.dev.conns.Unique
  lookup : ∀ handle,
    (r.dev.connByHandle handle).map (fun c => (c.bdaddr, c.connType)) = r.opened handle

/-- What is asked of an event: the table is the map of the open connections afterwards, and the
flags of a connection change only by an event that names it and was successful. -/
structure StepOk (meaning : BitVec 8 → ConnType) (r : HciRun) (data : List (BitVec 8)) : Prop where
  map : (r.next meaning data).MapOk
  auth : ∀ handle c c', r.dev.connByHandle handle = some c →
    (r.next meaning data).dev.connByHandle handle = some c' → c.auth ≠ c'.auth →
    hciNews data = .authenticated 0#8 handle
  encrypt : ∀ handle c c', r.dev.connByHandle handle = some c →
    (r.next meaning data).dev.connByHandle handle = some c' → c.encrypt ≠ c'.encrypt →
    ∃ enabled, hciNews data = .encrypted 0#8 handle enabled

/-- What the code does not check: a connection that is recorded has a new handle, and a link type
that means what the code takes it for, and no open connection is named by a failed
DISCONN_COMPLETE. -/
def Proper (meaning : BitVec 8 → ConnType) (r : HciRun) (data : List (BitVec 8)) : Prop :=
  match hciNews data with
  | .opened handle _ linkType => ¬ r.dev.conns.Full →
      (∀ i, r.dev.conns.isAt handle i = false) ∧
        newsConnType HciDev.linkConnType linkType = newsConnType meaning linkType
  | .closed status handle => status ≠ 0#8 → ∀ i, r.dev.conns.isAt handle i = false
  | _ => True

theorem mapOk_fresh : fresh.MapOk where
  unique _ i _ hi := by cases hi
  lookup handle := by
    have hnone : fresh.dev.conns.lookup handle = none := HciConns.lookup_eq_none.2 fun _ => rfl
    rw [HciDev.connByHandle, hnone]
    rfl

/-- What is asked of the table `conns'` that comes after `conns`. -/
structure ConnsOk (opened : BitVec 16 → Option (Bdaddr × ConnType)) (conns conns' : HciConns)
    (news : HciNews) : Prop where
  unique : conns'.Unique
  lookup : ∀ handle,
    (conns'.lookup handle).map (fun c => (c.bdaddr, c.connType)) = opened handle
  auth : ∀ handle c c', conns.lookup handle = some c → conns'.lookup handle = some c' →
    c.auth ≠ c'.auth → news = .authenticated 0#8 handle
  encrypt : ∀ handle c c', conns.lookup handle = some c → conns'.lookup handle = some c' →
    c.encrypt ≠ c'.encrypt → ∃ enabled, news = .encrypted 0#8 handle enabled

variable {meaning : BitVec 8 → ConnType} {r : HciRun} {data : List (BitVec 8)}

theorem stepOk_iff_connsOk : r.StepOk meaning data ↔
    ConnsOk (r.openedAfter meaning (hciNews data)) r.dev.conns
      (r.dev.conns.apply (hciNews data)) (hciNews data) := by
  have heffect := HciDev.recvEvent_effect r.dev data
  constructor
  · rintro ⟨⟨hunique, hlookup⟩, hauth, hencrypt⟩
    rw [← heffect]
    exact ⟨hunique, hlookup, hauth, hencrypt⟩
  · rw [← heffect]
    rintro ⟨hunique, hlookup, hauth, hencrypt⟩
    exact ⟨⟨hunique, hlookup⟩, hauth, hencrypt⟩

/-- An event that leaves the table alone. -/
theorem MapOk.unchanged (h : r.MapOk) (news : HciNews) :
    ConnsOk r.opened r.dev.conns r.dev.conns news := by
  refine ⟨h.unique, h.lookup, fun handle c c' hc hc' hne => ?_, fun handle c c' hc hc' hne => ?_⟩
  all_goals
    rw [hc] at hc'
    exact absurd (congrArg _ (Option.some.inj hc')) hne

/-- An entry that is written matters to one handle only. -/
theorem MapOk.written {i : Fin maxHciConns} {c : HciConn} {handle : BitVec 16} {news : HciNews}
    {opened' : BitVec 16 → Option (Bdaddr × ConnType)} (h : r.MapOk)
    (hold : ∀ other, other ≠ handle → r.dev.conns.isAt other i = false)
    (hnew : ∀ other, other ≠ handle → (c.valid && c.handle == other) = false)
    (hunique : HciConns.Unique (Function.update r.dev.conns i c))
    (hopened : ∀ other, other ≠ handle → opened' other = r.opened other)
    (hlookup : (HciConns.lookup (Function.update r.dev.conns i c) handle).map
      (fun c => (c.bdaddr, c.connType)) = opened' handle)
    (hauth : ∀ d d', r.dev.conns.lookup handle = some d →
      HciConns.lookup (Function.update r.dev.conns i c) handle = some d' → d.auth ≠ d'.auth →
      news = .authenticated 0#8 handle)
    (hencrypt : ∀ d d', r.dev.conns.lookup handle = some d →
      HciConns.lookup (Function.update r.dev.conns i c) handle = some d' → d.encrypt ≠ d'.encrypt →
      ∃ enabled, news = .encrypted 0#8 handle enabled) :
    ConnsOk opened' r.dev.conns (Function.update r.dev.conns i c) news := by
  have hsame : ∀ other, other ≠ handle →
      HciConns.lookup (Function.update r.dev.conns i c) other = r.dev.conns.lookup other :=
    fun other hne => HciConns.lookup_update_of_ne (hold other hne) (hnew other hne)
  refine ⟨hunique, fun other => ?_, fun other d d' hd hd' hne => ?_,
    fun other d d' hd hd' hne => ?_⟩
  · by_cases heq : other = handle
    · rw [heq, hlookup]
    · rw [hsame other heq, hopened other heq]
      exact h.lookup other
  · by_cases heq : other = handle
    · rw [heq] at hd hd' ⊢
      exact hauth d d' hd hd' hne
    · rw [hsame other heq, hd] at hd'
      exact absurd (congrArg _ (Option.some.inj hd')) hne
  · by_cases heq : other = handle
    · rw [heq] at hd hd' ⊢
      exact hencrypt d d' hd hd' hne
    · rw [hsame other heq, hd] at hd'
      exact absurd (congrArg _ (Option.some.inj hd')) hne

/-- The slot of a handle is that of no other one. -/
theorem isAt_other {conns : HciConns} {handle other : BitVec 16} {i : Fin maxHciConns}
    (hi : conns.isAt handle i = true) (hne : other ≠ handle) : conns.isAt other i = false := by
  rw [Bool.eq_false_iff]
  intro hother
  exact hne ((HciConns.isAt_iff.1 hother).2.symm.trans (HciConns.isAt_iff.1 hi).2)

/-- A connection that is recorded under a new handle. -/
theorem MapOk.inserted {handle : BitVec 16} {bdaddr : Bdaddr} {linkType : Option (BitVec 8)}
    (h : r.MapOk) (hfull : ¬ r.dev.conns.Full) (hfree : ∀ i, r.dev.conns.isAt handle i = false)
    (connType : ConnType) :
    ConnsOk (Function.update r.opened handle (some (bdaddr, connType))) r.dev.conns
      (r.dev.conns.insert handle bdaddr connType) (.opened handle bdaddr linkType) := by
  obtain ⟨i, c, hi, hinsert, hvalid, rfl, hbdaddr, hconnType⟩ :=
    HciConns.insert_of_not_full hfull handle bdaddr connType
  have hat : HciConns.isAt (Function.update r.dev.conns i c) c.handle i = true := by
    rw [HciConns.isAt_update, if_pos rfl, hvalid, beq_self_eq_true, Bool.and_self]
  have hunique := h.unique.update (i := i) (c := c) fun _ j _ => hfree j
  have hnone := HciConns.lookup_eq_none.2 hfree
  rw [hinsert]
  refine h.written (fun other _ => ?_) (fun other hne => ?_) hunique
    (fun other hne => Function.update_of_ne hne _ _) ?_ (fun d d' hd => ?_) (fun d d' hd => ?_)
  · rw [HciConns.isAt, hi, Bool.false_and]
  · rw [beq_eq_false_iff_ne.2 hne.symm, Bool.and_false]
  · rw [hunique.lookup_eq hat, Function.update_self, Function.update_self, Option.map_some,
      hbdaddr, hconnType]
  · rw [hnone] at hd
    cases hd
  · rw [hnone] at hd
    cases hd

/-- A connection that is closed. -/
theorem MapOk.closed {handle : BitVec 16} {i : Fin maxHciConns} (h : r.MapOk)
    (hi : r.dev.conns.isAt handle i = true) (status : BitVec 8) :
    ConnsOk (Function.update r.opened handle none) r.dev.conns
      (r.dev.conns.modify handle fun c => { c with state := .closed, valid := false })
      (.closed status handle) := by
  rw [h.unique.modify_eq hi]
  have hunique := h.unique.update (i := i)
    (c := { r.dev.conns i with state := .closed, valid := false }) fun hf => by cases hf
  have hnone : HciConns.lookup (Function.update r.dev.conns i
      { r.dev.conns i with state := .closed, valid := false }) handle = none := by
    refine HciConns.lookup_eq_none.2 fun j => ?_
    rw [HciConns.isAt_update]
    split
    · rfl
    · rename_i hj
      exact Bool.eq_false_iff.2 fun hjat => hj (h.unique handle j i hjat hi)
  refine h.written (fun other hne => isAt_other hi hne) (fun _ _ => rfl) hunique
    (fun other hne => Function.update_of_ne hne _ _) ?_ (fun d d' _ hd' => ?_)
    (fun d d' _ hd' => ?_)
  · rw [hnone, Function.update_self]
    rfl
  · rw [hnone] at hd'
    cases hd'
  · rw [hnone] at hd'
    cases hd'

/-- A flag of a connection that is changed. -/
theorem MapOk.flagged {handle : BitVec 16} {i : Fin maxHciConns} {news : HciNews} (h : r.MapOk)
    (hi : r.dev.conns.isAt handle i = true) {f : HciConn → HciConn}
    (hkeep : ∀ c, (f c).valid = c.valid ∧ (f c).handle = c.handle ∧ (f c).bdaddr = c.bdaddr ∧
      (f c).connType = c.connType)
    (hauth : ∀ c, c.auth ≠ (f c).auth → news = .authenticated 0#8 handle)
    (hencrypt : ∀ c, c.encrypt ≠ (f c).encrypt → ∃ enabled, news = .encrypted 0#8 handle enabled) :
    ConnsOk r.opened r.dev.conns (r.dev.conns.modify handle f) news := by
  obtain ⟨hvalid, hhandle, hbdaddr, hconnType⟩ := hkeep (r.dev.conns i)
  obtain ⟨hival, hihandle⟩ := HciConns.isAt_iff.1 hi
  have hat : HciConns.isAt (Function.update r.dev.conns i (f (r.dev.conns i))) handle i = true := by
    rw [HciConns.isAt_update, if_pos rfl, hvalid, hhandle, hival, hihandle, beq_self_eq_true,
      Bool.and_self]
  have hunique := h.unique.update (i := i) (c := f (r.dev.conns i)) fun _ j hj => by
    rw [hhandle, hihandle]
    exact Bool.eq_false_iff.2 fun hjat => hj (h.unique handle j i hjat hi)
  have hlookup := hunique.lookup_eq hat
  rw [Function.update_self] at hlookup
  rw [h.unique.modify_eq hi]
  refine h.written (fun other hne => isAt_other hi hne) (fun other hne => ?_) hunique
    (fun _ _ => rfl) ?_ (fun d d' hd hd' hne => ?_) (fun d d' hd hd' hne => ?_)
  · rw [hhandle, hihandle, beq_eq_false_iff_ne.2 hne.symm, Bool.and_false]
  · rw [hlookup, Option.map_some, hbdaddr, hconnType, ← h.lookup handle, HciDev.connByHandle,
      h.unique.lookup_eq hi, Option.map_some]
  · rw [hlookup] at hd'
    rw [h.unique.lookup_eq hi] at hd
    rw [← Option.some.inj hd, ← Option.some.inj hd'] at hne
    exact hauth _ hne
  · rw [hlookup] at hd'
    rw [h.unique.lookup_eq hi] at hd
    rw [← Option.some.inj hd, ← Option.some.inj hd'] at hne
    exact hencrypt _ hne

/-- A flag that is changed if the event was successful. -/
theorem MapOk.flag {status : BitVec 8} {handle : BitVec 16} {news : HciNews} (h : r.MapOk)
    {f : HciConn → HciConn}
    (hkeep : ∀ c, (f c).valid = c.valid ∧ (f c).handle = c.handle ∧ (f c).bdaddr = c.bdaddr ∧
      (f c).connType = c.connType)
    (hauth : status = 0#8 → ∀ c, c.auth ≠ (f c).auth → news = .authenticated 0#8 handle)
    (hencrypt : status = 0#8 → ∀ c, c.encrypt ≠ (f c).encrypt →
      ∃ enabled, news = .encrypted 0#8 handle enabled) :
    ConnsOk r.opened r.dev.conns
      (if status = 0#8 then r.dev.conns.modify handle f else r.dev.conns) news := by
  split
  · rename_i hstatus
    by_cases hopen : ∀ i, r.dev.conns.isAt handle i = false
    · rw [HciConns.modify_of_none hopen]
      exact h.unchanged _
    · obtain ⟨i, hi⟩ := not_forall.1 hopen
      exact h.flagged (Bool.not_eq_false _ ▸ hi) hkeep (hauth hstatus) (hencrypt hstatus)
  · exact h.unchanged _

/-- Recording a connection keeps the map exactly if its handle is new and its type is right. -/
theorem MapOk.insert_iff {handle : BitVec 16} {bdaddr : Bdaddr} {linkType : Option (BitVec 8)}
    (h : r.MapOk) (hfull : ¬ r.dev.conns.Full) (connType connType' : ConnType) :
    ConnsOk (Function.update r.opened handle (some (bdaddr, connType'))) r.dev.conns
        (r.dev.conns.insert handle bdaddr connType) (.opened handle bdaddr linkType) ↔
      (∀ i, r.dev.conns.isAt handle i = false) ∧ connType = connType' := by
  constructor
  · intro hok
    obtain ⟨i, c, hi, hinsert, hvalid, hhandle, hbdaddr, hconnType⟩ :=
      HciConns.insert_of_not_full hfull handle bdaddr connType
    have hunique := hok.unique
    have hlookup := hok.lookup handle
    rw [hinsert] at hunique hlookup
    have hat : HciConns.isAt (Function.update r.dev.conns i c) handle i = true := by
      rw [HciConns.isAt_update, if_pos rfl, hvalid, hhandle, beq_self_eq_true, Bool.and_self]
    constructor
    · -- another slot with the handle would still have it
      intro j
      refine Bool.eq_false_iff.2 fun hj => ?_
      have hji : j ≠ i := by
        rintro rfl
        rw [HciConns.isAt, hi, Bool.false_and] at hj
        cases hj
      refine hji (hunique handle j i ?_ hat)
      rw [HciConns.isAt_update, if_neg hji, hj]
    · rw [hunique.lookup_eq hat, Function.update_self, Function.update_self, Option.map_some,
        hconnType] at hlookup
      exact (Prod.mk.inj (Option.some.inj hlookup)).2
  · rintro ⟨hfree, rfl⟩
    exact h.inserted hfull hfree connType

/-- A DISCONN_COMPLETE keeps the map exactly if it was successful, or names no open connection. -/
theorem MapOk.close_iff {handle : BitVec 16} (h : r.MapOk) (status : BitVec 8) :
    ConnsOk (if status = 0#8 then Function.update r.opened handle none else r.opened) r.dev.conns
        (r.dev.conns.modify handle fun c => { c with state := .closed, valid := false })
        (.closed status handle) ↔
      (status ≠ 0#8 → ∀ i, r.dev.conns.isAt handle i = false) := by
  by_cases hopen : ∀ i, r.dev.conns.isAt handle i = false
  · rw [HciConns.modify_of_none hopen]
    have hnone : r.opened handle = none := by
      rw [← h.lookup handle, HciDev.connByHandle, HciConns.lookup_eq_none.2 hopen]
      rfl
    have hsame : (if status = 0#8 then Function.update r.opened handle none else r.opened) =
        r.opened := by
      split
      · exact Function.update_eq_self_iff.2 hnone.symm
      · rfl
    rw [hsame]
    exact ⟨fun _ _ => hopen, fun _ => h.unchanged _⟩
  · obtain ⟨i, hi⟩ := not_forall.1 hopen
    have hat : r.dev.conns.isAt handle i = true := Bool.not_eq_false _ ▸ hi
    have hclosed := h.closed hat status
    constructor
    · intro hok hstatus
      rw [if_neg hstatus] at hok
      have hlookup := hok.lookup handle
      rw [hclosed.lookup handle, Function.update_self, ← h.lookup handle, HciDev.connByHandle,
        h.unique.lookup_eq hat] at hlookup
      cases hlookup
    · intro hproper
      have hstatus : status = 0#8 := by
        by_contra hne
        exact hopen (hproper hne)
      rw [if_pos hstatus]
      exact hclosed

/-- The step lemma: the table stays the map of the open connections exactly if the event is a proper
one. -/
theorem MapOk.stepOk_iff (h : r.MapOk) : r.StepOk meaning data ↔ r.Proper meaning data := by
  rw [stepOk_iff_connsOk, Proper]
  generalize hciNews data = news
  cases news with
  | opened handle bdaddr linkType =>
      dsimp only [openedAfter, HciConns.apply]
      by_cases hfull : r.dev.conns.Full
      · rw [if_pos hfull, HciConns.insert_of_full hfull]
        exact ⟨fun _ hnot => absurd hfull hnot, fun _ => h.unchanged _⟩
      · rw [if_neg hfull, h.insert_iff hfull]
        exact ⟨fun hok _ => hok, fun hproper => hproper hfull⟩
  | closed status handle => exact h.close_iff status
  | authenticated status handle =>
      refine ⟨fun _ => trivial, fun _ => h.flag (fun _ => ⟨rfl, rfl, rfl, rfl⟩)
        (fun hstatus _ _ => ?_) (fun _ _ hne => absurd rfl hne)⟩
      rw [hstatus]
  | encrypted status handle enabled =>
      refine ⟨fun _ => trivial, fun _ => h.flag (fun _ => ⟨rfl, rfl, rfl, rfl⟩)
        (fun _ _ hne => absurd rfl hne) (fun hstatus _ _ => ⟨enabled, ?_⟩)⟩
      rw [hstatus]
  | other => exact ⟨fun _ => trivial, fun _ => h.unchanged _⟩

end HciRun

/-- Whatever link types mean: the table is the map of the open connections all along a run exactly
if every connection that is recorded has a new handle and a link type that means what the code takes
it for, and no open connection is named by a failed DISCONN_COMPLETE. -/
theorem hci_table_iff (meaning : BitVec 8 → ConnType) (events : List (List (BitVec 8))) :
    HciRun.fresh.MapOk ∧
        Runs.Along (HciRun.next meaning) (HciRun.StepOk meaning) HciRun.fresh events ↔
      Runs.Along (HciRun.next meaning) (HciRun.Proper meaning) HciRun.fresh events := by
  rw [and_iff_right HciRun.mapOk_fresh]
  exact Runs.along_iff (I := HciRun.MapOk) (fun _ _ hr _ => hr.stepOk_iff)
    (fun _ _ hr _ hproper => (hr.stepOk_iff.2 hproper).map) HciRun.mapOk_fresh
    (Runs.along_true _ _ events)

/-- A CONN_COMPLETE for the handle 5. -/
def connCompletePacket : List (BitVec 8) :=
  [HciEvent.connComplete, 11#8, 0x00#8, 0x05#8, 0x00#8, 0xAA#8, 0xBB#8, 0xCC#8, 0xDD#8, 0xEE#8,
    0xFF#8, 0x01#8, 0x00#8]

/-- A DISCONN_COMPLETE that says that the connection 5 was not closed. -/
def failedDisconnectPacket : List (BitVec 8) :=
  [HciEvent.disconnComplete, 4#8, 0x0C#8, 0x05#8, 0x00#8, 0x13#8]

/-- A DISCONN_COMPLETE that failed removes its connection, even if link types mean what the code
takes them for. -/
theorem hci_failed_disconnect :
    ¬ Runs.Along (HciRun.next HciDev.linkConnType) (HciRun.StepOk HciDev.linkConnType) HciRun.fresh
      [connCompletePacket, failedDisconnectPacket] := by
  rintro ⟨-, hok, -⟩
  exact absurd (hok.map.lookup 5#16) (by decide +kernel)

end StarOS
