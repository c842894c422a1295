/-
The serial channels over Bluetooth (`net/bluetooth/rfcomm.rs`): sessions, the data link connections
in them, and the frames that arrive.

A `SABM` and a local open take a free slot without a look at the slots in use, data is handed to the
callback of a connected slot without a look at the session, and a slot that was taken stays taken
when the `SABM` for it cannot be sent.

* `StarOS.parseFrame` — the checks on a frame, `StarOS.parseFrame_shortFrame` and
  `StarOS.parseFrame_dataFrame` — the frames that are sent pass them;
* `StarOS.RfcommState`, `StarOS.RfcommState.recvFrame`, `StarOS.RfcommState.dlcOpen` — the sessions
  and the calls;
* `StarOS.RfcommRun.Keeps` — the law;
* `StarOS.RfcommRun.Fits` — the condition on a call;
* `StarOS.rfcomm_dlcs_iff` — the law holds along a run exactly if every call meets the condition;
* `StarOS.rfcomm_broken_runs` — a repeated `SABM`, data behind a `DISC`, and a `SABM` that is not
  sent.
-/

import StarOS.L2capFrames

set_option autoImplicit false

namespace StarOS

/-! ### Frames -/

namespace FrameType

/-- `frame_type::SABM`. -/
def sabm : BitVec 8 := 0x2F#8

/-- `frame_type::UA`. -/
def ua : BitVec 8 := 0x63#8

/-- `frame_type::DM`. -/
def dm : BitVec 8 := 0x0F#8

/-- `frame_type::DISC`. -/
def disc : BitVec 8 := 0x43#8

/-- `frame_type::UIH`. -/
def uih : BitVec 8 := 0xEF#8

end FrameType

/-- `mcc_type::PN`. -/
def mccTypePn : BitVec 8 := 0x20#8

/-- One step in the computation of `FCS_TABLE`. -/
def fcsStep (v : BitVec 8) : BitVec 8 :=
  if v &&& 0x01#8 ≠ 0#8 then (v >>> 1) ^^^ 0xE0#8 else v >>> 1

/-- `FCS_TABLE`. -/
def fcsTable (i : BitVec 8) : BitVec 8 := fcsStep^[8] i

/-- `rfcomm_fcs`. -/
def rfcommFcs (data : List (BitVec 8)) : BitVec 8 :=
  ~~~(data.foldl (fun fcs b => fcsTable (fcs ^^^ b)) 0xFF#8)

/-- A frame that has passed the checks. -/
structure RfcommFrame where
  dlci : BitVec 8
  cr : BitVec 8
  frameType : BitVec 8
  payload : List (BitVec 8)
  deriving DecidableEq, Repr

/-- The checks of `rfcomm_recv_frame`. -/
def parseFrame (data : List (BitVec 8)) : Option RfcommFrame :=
  if data.length < 4 then none
  else
    let addr := data.getD 0 0#8
    let ctrl := data.getD 1 0#8
    let b₂ := data.getD 2 0#8
    let len := if b₂ &&& 0x01#8 ≠ 0#8 then (b₂ >>> 1).toNat
      else (data.getD 3 0#8).toNat <<< 7 ||| (b₂ >>> 1).toNat
    let dataOff := if b₂ &&& 0x01#8 ≠ 0#8 then 3 else 4
    let dlci := addr >>> 2
    let frameType := ctrl &&& 0xEF#8
    if 61#8 < dlci then none
    else if data.length < dataOff + len + 1 then none
    else
      -- for `UIH` the length is not checked
      let expected := if frameType = FrameType.uih then rfcommFcs (data.take 2)
        else rfcommFcs (data.take dataOff)
      if data.getD (dataOff + len) 0#8 ≠ expected then none
      else some ⟨dlci, (addr >>> 1) &&& 0x01#8, frameType, (data.drop dataOff).take len⟩

/-- A frame without data. -/
def shortFrame (frameType dlci : BitVec 8) : List (BitVec 8) :=
  let header := [(dlci <<< 2) ||| 0x03#8, frameType ||| 0x10#8, 0x01#8]
  header ++ [rfcommFcs header]

/-- The frame of `rfcomm_send_ua`. -/
def uaFrame (dlci : BitVec 8) : List (BitVec 8) := shortFrame FrameType.ua dlci

/-- The frame of `rfcomm_send_sabm`. -/
def sabmFrame (dlci : BitVec 8) : List (BitVec 8) := shortFrame FrameType.sabm dlci

/-- `RFCOMM_MAX_FRAME`. -/
def rfcommMaxFrame : ℕ := 127

/-- The frame of `rfcomm_send_data`, for data of at most `RFCOMM_MAX_FRAME` bytes. -/
def dataFrame (dlci : BitVec 8) (data : List (BitVec 8)) : List (BitVec 8) :=
  let header := [(dlci <<< 2) ||| 0x01#8, FrameType.uih ||| 0x10#8]
  header ++ (((BitVec.ofNat 8 data.length) <<< 1) ||| 0x01#8) :: (data ++ [rfcommFcs header])

/-- The address of a frame holds the identifier. -/
theorem addr_shiftRight : ∀ dlci : BitVec 8, ¬ 61#8 < dlci →
    ((dlci <<< 2) ||| 0x03#8) >>> 2 = dlci ∧ ((dlci <<< 2) ||| 0x01#8) >>> 2 = dlci := by
  decide +kernel

/-- A frame without data passes the checks. -/
theorem parseFrame_shortFrame {frameType dlci : BitVec 8} (hdlci : ¬ 61#8 < dlci)
    (htype : (frameType ||| 0x10#8) &&& 0xEF#8 = frameType) (hdata : frameType ≠ FrameType.uih) :
    ∃ cr, parseFrame (shortFrame frameType dlci) = some ⟨dlci, cr, frameType, []⟩ := by
  have hlen : ((0x01#8) >>> 1).toNat = 0 := rfl
  have hbit : (0x01#8) &&& 0x01#8 ≠ 0#8 := by decide
  have hshort : (shortFrame frameType dlci).length = 4 := rfl
  refine ⟨(((dlci <<< 2) ||| 0x03#8) >>> 1) &&& 0x01#8, ?_⟩
  rw [parseFrame, hshort, if_neg (lt_irrefl 4)]
  simp only [shortFrame, List.cons_append, List.nil_append, List.getD_cons_zero,
    List.getD_cons_succ, if_pos hbit, hlen, htype, (addr_shiftRight dlci hdlci).1, if_neg hdlci,
    if_neg hdata]
  simp

/-- The length of a data frame is in one byte. -/
theorem length_shiftRight {n : ℕ} (h : n ≤ rfcommMaxFrame) :
    (((BitVec.ofNat 8 n) <<< 1) ||| 0x01#8) &&& 0x01#8 ≠ 0#8 ∧
      ((((BitVec.ofNat 8 n) <<< 1) ||| 0x01#8) >>> 1).toNat = n := by
  have hall : ∀ k : Fin 128, (((BitVec.ofNat 8 k.val) <<< 1) ||| 0x01#8) &&& 0x01#8 ≠ 0#8 ∧
      ((((BitVec.ofNat 8 k.val) <<< 1) ||| 0x01#8) >>> 1).toNat = k.val := by decide +kernel
  have hlt : n < 128 := Nat.lt_succ_of_le h
  exact hall ⟨n, hlt⟩

/-- A data frame passes the checks, and is for its data. -/
theorem parseFrame_dataFrame {dlci : BitVec 8} (hdlci : ¬ 61#8 < dlci) {data : List (BitVec 8)}
    (hlen : data.length ≤ rfcommMaxFrame) :
    ∃ cr, parseFrame (dataFrame dlci data) = some ⟨dlci, cr, FrameType.uih, data⟩ := by
  obtain ⟨hbit, hcount⟩ := length_shiftRight hlen
  have htype : (FrameType.uih ||| 0x10#8) &&& 0xEF#8 = FrameType.uih := by decide
  have hlong : (dataFrame dlci data).length = data.length + 4 := by simp [dataFrame]
  refine ⟨(((dlci <<< 2) ||| 0x01#8) >>> 1) &&& 0x01#8, ?_⟩
  rw [parseFrame, hlong, if_neg (by omega)]
  simp only [dataFrame, List.cons_append, List.nil_append, List.getD_cons_zero,
    List.getD_cons_succ, if_pos hbit, hcount, htype, (addr_shiftRight dlci hdlci).2, if_neg hdlci]
  rw [if_neg (by omega)]
  simp [Nat.add_comm 3]

/-! ### Sessions -/

/-- `DlcState`. -/
inductive DlcState where
  | closed | waitUA | connected | waitDisconn
  deriving DecidableEq, Repr

/-- `RfcommDlc`. -/
structure RfcommDlc where
  dlci : BitVec 8
  /-- The channel that the connection is on. -/
  scid : BitVec 16
  state : DlcState
  mtu : BitVec 16
  credits : BitVec 8
  /-- Address of the receive callback. -/
  rxCb : Option ℕ
  valid : Bool
  deriving DecidableEq, Repr

/-- `RfcommDlc::empty`. -/
def RfcommDlc.empty : RfcommDlc where
  dlci := 0#8
  scid := 0#16
  state := .closed
  mtu := 127#16
  credits := 7#8
  rxCb := none
  valid := false

/-- `MAX_RFCOMM_DLC`. -/
def maxRfcommDlc : ℕ := 16

/-- `MAX_RFCOMM_SESSIONS`. -/
def maxRfcommSessions : ℕ := 4

/-- `SessionState`. -/
inductive SessionState where
  | closed | waitUA | open_
  deriving DecidableEq, Repr

/-- `RfcommSession`. -/
structure RfcommSession where
  scid : BitVec 16
  state : SessionState
  dlcs : Fin maxRfcommDlc → RfcommDlc
  valid : Bool

/-- `RfcommState`. -/
structure RfcommState where
  sessions : Fin maxRfcommSessions → RfcommSession

namespace RfcommSession

/-- `RfcommSession::empty`. -/
def empty : RfcommSession := ⟨0#16, .closed, fun _ => .empty, false⟩

/-- The slot that `find_dlc_mut` finds. -/
def findDlc (s : RfcommSession) (dlci : BitVec 8) : Option (Fin maxRfcommDlc) :=
  (List.finRange maxRfcommDlc).find? fun j => (s.dlcs j).valid && (s.dlcs j).dlci == dlci

/-- The slot that `alloc_dlc` finds. -/
def allocDlc (s : RfcommSession) : Option (Fin maxRfcommDlc) :=
  (List.finRange maxRfcommDlc).find? fun j => !(s.dlcs j).valid

/-- The slot that data is for. -/
def findConnected (s : RfcommSession) (dlci : BitVec 8) : Option (Fin maxRfcommDlc) :=
  (List.finRange maxRfcommDlc).find? fun j =>
    (s.dlcs j).valid && (s.dlcs j).dlci == dlci && (s.dlcs j).state == .connected

/-- Writing a slot. -/
def setDlc (s : RfcommSession) (j : Fin maxRfcommDlc) (d : RfcommDlc) : RfcommSession :=
  { s with dlcs := Function.update s.dlcs j d }

/-- Changing the slot that `find_dlc_mut` finds. -/
def updateDlc (s : RfcommSession) (dlci : BitVec 8) (f : RfcommDlc → RfcommDlc) :
    RfcommSession :=
  match s.findDlc dlci with
  | some j => s.setDlc j (f (s.dlcs j))
  | none => s

/-- Writing the slot that `alloc_dlc` finds. -/
def insertDlc (s : RfcommSession) (d : RfcommDlc) : RfcommSession :=
  match s.allocDlc with
  | some j => s.setDlc j d
  | none => s

end RfcommSession

/-- The call of a receive callback, with the session and the slot that it was found in. -/
structure DataCall where
  session : Fin maxRfcommSessions
  slot : Fin maxRfcommDlc
  callback : ℕ
  dlci : BitVec 8
  data : List (BitVec 8)
  deriving DecidableEq, Repr

namespace RfcommState

/-- `RfcommState::new`. -/
def new : RfcommState := ⟨fun _ => .empty⟩

/-- The session of a channel. -/
def findSession (st : RfcommState) (scid : BitVec 16) : Option (Fin maxRfcommSessions) :=
  (List.finRange maxRfcommSessions).find? fun i =>
    (st.sessions i).valid && (st.sessions i).scid == scid

/-- Changing the session of a channel. -/
def updateSession (st : RfcommState) (scid : BitVec 16) (f : RfcommSession → RfcommSession) :
    RfcommState :=
  match st.findSession scid with
  | some i => ⟨Function.update st.sessions i (f (st.sessions i))⟩
  | none => st

/-- `rfcomm_recv_sabm`, without the `UA` that is sent. -/
def recvSabm (st : RfcommState) (scid : BitVec 16) (dlci _cr : BitVec 8) : RfcommState :=
  if dlci = 0#8 then st.updateSession scid fun sess => { sess with state := .open_ }
  else
    st.updateSession scid fun sess => sess.insertDlc
      { RfcommDlc.empty with dlci := dlci, scid := scid, state := .connected, valid := true }

/-- `rfcomm_recv_ua`. -/
def recvUa (st : RfcommState) (scid : BitVec 16) (dlci : BitVec 8) : RfcommState :=
  if dlci = 0#8 then st.updateSession scid fun sess => { sess with state := .open_ }
  else
    st.updateSession scid fun sess =>
      sess.updateDlc dlci fun dlc => { dlc with state := .connected }

/-- `rfcomm_recv_disc`, without the `UA` that is sent. -/
def recvDisc (st : RfcommState) (scid : BitVec 16) (dlci : BitVec 8) : RfcommState :=
  st.updateSession scid fun sess =>
    -- the slots stay as they are
    if dlci = 0#8 then { sess with state := .closed }
    else sess.updateDlc dlci fun dlc => { dlc with state := .closed, valid := false }

/-- `rfcomm_recv_dm`. -/
def recvDm (st : RfcommState) (scid : BitVec 16) (dlci : BitVec 8) : RfcommState :=
  st.updateSession scid fun sess =>
    sess.updateDlc dlci fun dlc => { dlc with state := .closed, valid := false }

/-- `rfcomm_recv_data`: the callback that is called. -/
def recvData (st : RfcommState) (scid : BitVec 16) (dlci : BitVec 8)
    (payload : List (BitVec 8)) : Option DataCall :=
  (st.findSession scid).bind fun i =>
    ((st.sessions i).findConnected dlci).bind fun j =>
      (((st.sessions i).dlcs j).rxCb).map fun cb => ⟨i, j, cb, dlci, payload⟩

/-- `rfcomm_recv_pn`. -/
def recvPn (st : RfcommState) (scid : BitVec 16) (data : List (BitVec 8)) : RfcommState :=
  if data.length < 8 then st
  else
    let dlci := data.getD 0 0#8 &&& 0x3F#8
    let mtu := leWord data 4
    st.updateSession scid fun sess => sess.updateDlc dlci fun dlc => { dlc with mtu := mtu }

/-- `rfcomm_recv_mcc`. -/
def recvMcc (st : RfcommState) (scid : BitVec 16) (data : List (BitVec 8)) : RfcommState :=
  if data.length < 2 then st
  else
    let mccType := data.getD 0 0#8 &&& ~~~0x01#8
    let mccLen := (data.getD 1 0#8 >>> 1).toNat
    if data.length < 2 + mccLen then st
    else
      let mccData := (data.drop 2).take mccLen
      if mccType = mccTypePn then st.recvPn scid mccData else st

/-- The handler that `rfcomm_recv_frame` calls for a frame. -/
def recv (st : RfcommState) (scid : BitVec 16) (f : RfcommFrame) :
    RfcommState × Option DataCall :=
  if f.frameType = FrameType.sabm then (st.recvSabm scid f.dlci f.cr, none)
  else if f.frameType = FrameType.ua then (st.recvUa scid f.dlci, none)
  else if f.frameType = FrameType.disc then (st.recvDisc scid f.dlci, none)
  else if f.frameType = FrameType.dm then (st.recvDm scid f.dlci, none)
  else if f.frameType = FrameType.uih then
    if f.dlci = 0#8 then (st.recvMcc scid f.payload, none)
    else (st, st.recvData scid f.dlci f.payload)
  else (st, none)

/-- `rfcomm_recv_frame`: the state afterwards, and the callback that is called. -/
def recvFrame (st : RfcommState) (scid : BitVec 16) (data : List (BitVec 8)) :
    RfcommState × Option DataCall :=
  match parseFrame data with
  | some f => st.recv scid f
  | none => (st, none)

/-- `rfcomm_session_open`. -/
def sessionOpen (st : RfcommState) (scid : BitVec 16) : Except KernelError Unit × RfcommState :=
  match (List.finRange maxRfcommSessions).find? fun i => !(st.sessions i).valid with
  | some i =>
      let sess := { RfcommSession.empty with scid := scid, state := .waitUA, valid := true }
      (.ok (), ⟨Function.update st.sessions i sess⟩)
  | none => (.error .resourceExhausted, st)

/-- `rfcomm_dlc_open`, with the channels that the `SABM` is sent on. -/
def dlcOpen (l2cap : L2capState) (st : RfcommState) (scid : BitVec 16)
    (serverChannel : BitVec 8) (rxCb : ℕ) : Except KernelError (BitVec 8) × RfcommState :=
  let dlci := serverChannel <<< 1
  match st.findSession scid with
  | none => (.error .notFound, st)
  | some i =>
      match (st.sessions i).allocDlc with
      | none => (.error .resourceExhausted, st)
      | some j =>
          let dlc := { RfcommDlc.empty with
            dlci := dlci
            scid := scid
            state := .waitUA
            rxCb := some rxCb
            valid := true }
          let st := ⟨Function.update st.sessions i ((st.sessions i).setDlc j dlc)⟩
          match l2capSend l2cap scid (sabmFrame dlci) with
          | .ok _ => (.ok dlci, st)
          | .error e => (.error e, st)

end RfcommState

/-! ### The law -/

/-- A call of the serial channels. -/
inductive RfcommCall where
  | sessionOpen (scid : BitVec 16)
  | dlcOpen (l2cap : L2capState) (scid : BitVec 16) (serverChannel : BitVec 8) (rxCb : ℕ)
  | recvFrame (scid : BitVec 16) (data : List (BitVec 8))

/-- The state, and the sessions that a `DISC` for the whole session has reached. -/
structure RfcommRun where
  st : RfcommState
  ended : Fin maxRfcommSessions → Bool

namespace RfcommState

/-- The state after a call. -/
def next (st : RfcommState) : RfcommCall → RfcommState
  | .sessionOpen scid => (st.sessionOpen scid).2
  | .dlcOpen l2cap scid serverChannel rxCb => (st.dlcOpen l2cap scid serverChannel rxCb).2
  | .recvFrame scid data => (st.recvFrame scid data).1

/-- The callback that is called. -/
def delivered (st : RfcommState) : RfcommCall → Option DataCall
  | .recvFrame scid data => (st.recvFrame scid data).2
  | _ => none

/-- The session that a call ends: a `DISC` on `DLCI` 0. -/
def ends (st : RfcommState) : RfcommCall → Option (Fin maxRfcommSessions)
  | .recvFrame scid data => (parseFrame data).bind fun f =>
      if f.frameType = FrameType.disc ∧ f.dlci = 0#8 then st.findSession scid else none
  | _ => none

end RfcommState

/-- A session has one slot for an identifier. -/
def RfcommSession.Unique (sess : RfcommSession) : Prop :=
  ∀ j k, (sess.dlcs j).valid = true → (sess.dlcs k).valid = true →
    (sess.dlcs j).dlci = (sess.dlcs k).dlci → j = k

/-- Every session has one slot for an identifier. -/
def RfcommState.Unique (st : RfcommState) : Prop :=
  ∀ i, (st.sessions i).valid = true → (st.sessions i).Unique

namespace RfcommState

/-- A failed `rfcomm_dlc_open` leaves the slots as they are. -/
def OpenFails (st : RfcommState) (res : Except KernelError (BitVec 8) × RfcommState) : Prop :=
  ∀ e, res.1 = .error e → ∀ i, (res.2.sessions i).dlcs = (st.sessions i).dlcs

end RfcommState

namespace RfcommRun

/-- The start. -/
def new : RfcommRun := ⟨.new, fun _ => false⟩

/-- A run goes on. -/
def next (r : RfcommRun) (call : RfcommCall) : RfcommRun where
  st := r.st.next call
  ended := match r.st.ends call with
    | some i => Function.update r.ended i true
    | none => r.ended

/-- What is asked of a call: the sessions have one slot for an identifier afterwards; data goes to a
connected slot of an open session that no `DISC` has ended; and a failed `rfcomm_dlc_open` leaves
the slots as they are. -/
structure Keeps (r : RfcommRun) (call : RfcommCall) : Prop where
  unique : (r.st.next call).Unique
  delivers : ∀ d ∈ r.st.delivered call, (r.st.sessions d.session).valid = true ∧
    (r.st.sessions d.session).state = .open_ ∧ r.ended d.session = false ∧
    ((r.st.sessions d.session).dlcs d.slot).valid = true ∧
    ((r.st.sessions d.session).dlcs d.slot).state = .connected
  fails : ∀ l2cap scid serverChannel rxCb, call = .dlcOpen l2cap scid serverChannel rxCb →
    r.st.OpenFails (r.st.dlcOpen l2cap scid serverChannel rxCb)

end RfcommRun

namespace RfcommSession

/-- There is a free slot. -/
def HasRoom (sess : RfcommSession) : Prop := ∃ j, (sess.dlcs j).valid = false

/-- No slot is for an identifier. -/
def Absent (sess : RfcommSession) (dlci : BitVec 8) : Prop :=
  ∀ j, (sess.dlcs j).valid = true → (sess.dlcs j).dlci ≠ dlci

/-- A connected slot with a callback is for an identifier. -/
def Listens (sess : RfcommSession) (dlci : BitVec 8) : Prop :=
  ∃ j, (sess.dlcs j).valid = true ∧ (sess.dlcs j).dlci = dlci ∧
    (sess.dlcs j).state = .connected ∧ (sess.dlcs j).rxCb.isSome

end RfcommSession

namespace RfcommState

/-- The condition on `rfcomm_dlc_open`, for its session: where it takes a free slot, no slot is for
its identifier, and the `SABM` can be sent. -/
def OpenFits (l2cap : L2capState) (st : RfcommState) (scid : BitVec 16)
    (serverChannel : BitVec 8) (i : Fin maxRfcommSessions) : Prop :=
  (st.sessions i).HasRoom → (st.sessions i).Absent (serverChannel <<< 1) ∧
    ∃ frame, l2capSend l2cap scid (sabmFrame (serverChannel <<< 1)) = .ok frame

end RfcommState

/-- The condition on a frame, for its session: a `SABM` that takes a free slot is for an identifier
that no slot is for, and data for a connected slot with a callback comes to an open session that no
`DISC` has ended. -/
def RfcommRun.FrameFits (r : RfcommRun) (f : RfcommFrame) (i : Fin maxRfcommSessions) : Prop :=
  (f.frameType = FrameType.sabm → (r.st.sessions i).HasRoom →
    (r.st.sessions i).Absent f.dlci) ∧
  (f.frameType = FrameType.uih → (r.st.sessions i).Listens f.dlci →
    (r.st.sessions i).state = .open_ ∧ r.ended i = false)

/-- The condition on a call. -/
def RfcommRun.Fits (r : RfcommRun) : RfcommCall → Prop
  | .sessionOpen _ => True
  | .dlcOpen l2cap scid serverChannel _ =>
      ∀ i ∈ r.st.findSession scid, r.st.OpenFits l2cap scid serverChannel i
  | .recvFrame scid data => ∀ f ∈ parseFrame data, ∀ i ∈ r.st.findSession scid, f.dlci ≠ 0#8 →
      r.FrameFits f i

/-! ### Slots -/

namespace RfcommSession

variable {sess sess' : RfcommSession} {dlci : BitVec 8}

theorem findDlc_valid {j : Fin maxRfcommDlc} (h : sess.findDlc dlci = some j) :
    (sess.dlcs j).valid = true := by
  have hfound := List.find?_some h
  rw [Bool.and_eq_true] at hfound
  exact hfound.1

/-- The slots that are in use are so before, with the same identifiers. -/
theorem Unique.of_shrinks (h : sess.Unique) (hdlcs : ∀ j, (sess'.dlcs j).valid = true →
    (sess.dlcs j).valid = true ∧ (sess'.dlcs j).dlci = (sess.dlcs j).dlci) : sess'.Unique := by
  intro j k hj hk hjk
  obtain ⟨hvj, hdj⟩ := hdlcs j hj
  obtain ⟨hvk, hdk⟩ := hdlcs k hk
  exact h j k hvj hvk (hdj.symm.trans (hjk.trans hdk))

/-- Changing a slot without changing its identifier. -/
theorem Unique.updateDlc (h : sess.Unique) {f : RfcommDlc → RfcommDlc}
    (hf : ∀ d, (f d).dlci = d.dlci) : (sess.updateDlc dlci f).Unique := by
  rw [RfcommSession.updateDlc]
  split
  · rename_i j hfind
    refine h.of_shrinks fun k hk => ?_
    rw [setDlc] at hk ⊢
    dsimp only at hk ⊢
    by_cases hkj : k = j
    · rw [hkj, Function.update_self]
      exact ⟨findDlc_valid hfind, hf _⟩
    · rw [Function.update_of_ne hkj] at hk ⊢
      exact ⟨hk, rfl⟩
  · exact h

theorem HasRoom.allocDlc (h : sess.HasRoom) :
    ∃ j, sess.allocDlc = some j ∧ (sess.dlcs j).valid = false := by
  obtain ⟨k, hk⟩ := h
  cases hfind : sess.allocDlc with
  | none =>
      have hnone := List.find?_eq_none.1 hfind k (List.mem_finRange k)
      rw [hk] at hnone
      exact absurd rfl hnone
  | some j =>
      have hfree := List.find?_some hfind
      exact ⟨j, rfl, by simpa using hfree⟩

theorem allocDlc_of_full (h : ¬ sess.HasRoom) : sess.allocDlc = none := by
  refine List.find?_eq_none.2 fun j _ hfree => h ⟨j, ?_⟩
  simpa using hfree

/-- Writing a free slot keeps the law exactly if no other slot is for the identifier. -/
theorem setDlc_unique_iff (h : sess.Unique) {j : Fin maxRfcommDlc}
    (hj : (sess.dlcs j).valid = false) {d : RfcommDlc} (hd : d.valid = true) :
    (sess.setDlc j d).Unique ↔ sess.Absent d.dlci := by
  have hself : (sess.setDlc j d).dlcs j = d := Function.update_self _ _ _
  have hother : ∀ k, k ≠ j → (sess.setDlc j d).dlcs k = sess.dlcs k :=
    fun k hk => Function.update_of_ne hk _ _
  constructor
  · intro hnew k hk hdlci
    have hkj : k ≠ j := by
      rintro rfl
      exact Bool.false_ne_true (hj.symm.trans hk)
    refine hkj (hnew k j ?_ ?_ ?_)
    · rwa [hother k hkj]
    · rwa [hself]
    · rw [hother k hkj, hself, hdlci]
  · intro habsent k l hk hl hkl
    by_cases hkj : k = j <;> by_cases hlj : l = j
    · rw [hkj, hlj]
    · rw [hkj, hself, hother l hlj] at hkl
      rw [hother l hlj] at hl
      exact absurd hkl.symm (habsent l hl)
    · rw [hlj, hself, hother k hkj] at hkl
      rw [hother k hkj] at hk
      exact absurd hkl (habsent k hk)
    · rw [hother k hkj, hother l hlj] at hkl
      rw [hother k hkj] at hk
      rw [hother l hlj] at hl
      exact h k l hk hl hkl

/-- Taking a free slot keeps the law exactly if no other slot is for the identifier. -/
theorem insertDlc_unique_iff (h : sess.Unique) {d : RfcommDlc} (hd : d.valid = true) :
    (sess.insertDlc d).Unique ↔ (sess.HasRoom → sess.Absent d.dlci) := by
  rw [insertDlc]
  by_cases hroom : sess.HasRoom
  · obtain ⟨j, hfind, hj⟩ := hroom.allocDlc
    rw [hfind]
    exact (setDlc_unique_iff h hj hd).trans ⟨fun habsent _ => habsent, fun hall => hall hroom⟩
  · rw [allocDlc_of_full hroom]
    exact iff_of_true h fun hr => absurd hr hroom

/-- Of the slots for an identifier one is connected and has a callback. -/
theorem listens_iff (h : sess.Unique) : sess.Listens dlci ↔
    ∃ j, sess.findConnected dlci = some j ∧ (sess.dlcs j).rxCb.isSome := by
  constructor
  · rintro ⟨j, hvalid, hdlci, hstate, hcb⟩
    cases hfind : sess.findConnected dlci with
    | none =>
        have hnone := List.find?_eq_none.1 hfind j (List.mem_finRange j)
        rw [hvalid, hdlci, hstate, beq_self_eq_true, beq_self_eq_true] at hnone
        exact absurd rfl hnone
    | some k =>
        have hk := List.find?_some hfind
        simp only [Bool.and_eq_true, beq_iff_eq] at hk
        rw [h k j hk.1.1 hvalid (hk.1.2.trans hdlci.symm)]
        exact ⟨j, rfl, hcb⟩
  · rintro ⟨j, hfind, hcb⟩
    have hj := List.find?_some hfind
    simp only [Bool.and_eq_true, beq_iff_eq] at hj
    exact ⟨j, hj.1.1, hj.1.2, hj.2, hcb⟩

end RfcommSession

/-! ### Calls -/

namespace RfcommState

variable {st : RfcommState} {scid : BitVec 16}

theorem findSession_valid {i : Fin maxRfcommSessions} (h : st.findSession scid = some i) :
    (st.sessions i).valid = true := by
  have hfound := List.find?_some h
  rw [Bool.and_eq_true] at hfound
  exact hfound.1

/-- Writing a session. -/
theorem Unique.update_iff (h : st.Unique) (i : Fin maxRfcommSessions) {sess : RfcommSession}
    (hsess : sess.valid = true) :
    (⟨Function.update st.sessions i sess⟩ : RfcommState).Unique ↔ sess.Unique := by
  constructor
  · intro hnew
    have hi := hnew i
    dsimp only at hi
    rw [Function.update_self] at hi
    exact hi hsess
  · intro hsess k hk
    dsimp only at hk ⊢
    by_cases hki : k = i
    · rwa [hki, Function.update_self]
    · rw [Function.update_of_ne hki] at hk ⊢
      exact h k hk

theorem updateDlc_valid (sess : RfcommSession) (dlci : BitVec 8) (f : RfcommDlc → RfcommDlc) :
    (sess.updateDlc dlci f).valid = sess.valid := by
  rw [RfcommSession.updateDlc]
  split <;> rfl

theorem insertDlc_valid (sess : RfcommSession) (d : RfcommDlc) :
    (sess.insertDlc d).valid = sess.valid := by
  rw [RfcommSession.insertDlc]
  split <;> rfl

/-- Changing a session keeps the law exactly if the session is as it should be afterwards. -/
theorem Unique.updateSession_iff (h : st.Unique) {f : RfcommSession → RfcommSession}
    (hf : ∀ sess, (f sess).valid = sess.valid) :
    (st.updateSession scid f).Unique ↔ ∀ i ∈ st.findSession scid, (f (st.sessions i)).Unique := by
  rw [RfcommState.updateSession]
  cases hfind : st.findSession scid with
  | none => exact iff_of_true h fun i hi => absurd hi (Option.not_mem_none i)
  | some i =>
      refine (h.update_iff i ((hf _).trans (findSession_valid hfind))).trans ?_
      exact ⟨fun hsess k hk => Option.mem_some_iff.1 hk ▸ hsess, fun hall => hall i rfl⟩

/-- A change that keeps the law for every session. -/
theorem Unique.updateSession (h : st.Unique) {f : RfcommSession → RfcommSession}
    (hf : ∀ sess, (f sess).valid = sess.valid)
    (hkeeps : ∀ sess : RfcommSession, sess.Unique → (f sess).Unique) :
    (st.updateSession scid f).Unique :=
  (h.updateSession_iff hf).2 fun _ hi => hkeeps _ (h _ (findSession_valid hi))

theorem Unique.updateDlc (h : st.Unique) (dlci : BitVec 8) {f : RfcommDlc → RfcommDlc}
    (hf : ∀ d, (f d).dlci = d.dlci) :
    (st.updateSession scid fun sess => sess.updateDlc dlci f).Unique :=
  h.updateSession (fun sess => updateDlc_valid sess dlci f) fun _ hsess => hsess.updateDlc hf

/-- Changing the state of a session. -/
theorem Unique.setState (h : st.Unique) (state : SessionState) :
    (st.updateSession scid fun sess => { sess with state := state }).Unique :=
  h.updateSession (fun _ => rfl) fun _ hsess => hsess

/-- A `SABM` keeps the law exactly if no slot is for its identifier. -/
theorem Unique.recvSabm_iff (h : st.Unique) (dlci cr : BitVec 8) :
    (st.recvSabm scid dlci cr).Unique ↔ ∀ i ∈ st.findSession scid, dlci ≠ 0#8 →
      (st.sessions i).HasRoom → (st.sessions i).Absent dlci := by
  rw [recvSabm]
  split
  · rename_i hzero
    exact iff_of_true (h.setState _) fun _ _ hne => absurd hzero hne
  · rename_i hzero
    refine (h.updateSession_iff fun sess => insertDlc_valid sess _).trans ?_
    refine forall₂_congr fun i hi => ?_
    refine (RfcommSession.insertDlc_unique_iff (h i (findSession_valid hi)) rfl).trans ?_
    exact ⟨fun hall _ => hall, fun hall => hall hzero⟩

theorem Unique.recvUa (h : st.Unique) (dlci : BitVec 8) : (st.recvUa scid dlci).Unique := by
  rw [RfcommState.recvUa]
  split
  · exact h.setState _
  · exact h.updateDlc dlci fun _ => rfl

theorem Unique.recvDisc (h : st.Unique) (dlci : BitVec 8) : (st.recvDisc scid dlci).Unique := by
  rw [RfcommState.recvDisc]
  by_cases hzero : dlci = 0#8
  · simp only [if_pos hzero]
    exact h.setState _
  · simp only [if_neg hzero]
    exact h.updateDlc dlci fun _ => rfl

theorem Unique.recvMcc (h : st.Unique) (data : List (BitVec 8)) :
    (st.recvMcc scid data).Unique := by
  rw [RfcommState.recvMcc]
  dsimp only
  split
  · exact h
  split
  · exact h
  split
  · rw [recvPn]
    split
    · exact h
    · exact h.updateDlc _ fun _ => rfl
  · exact h

/-- `rfcomm_session_open` adds no slot. -/
theorem Unique.sessionOpen (h : st.Unique) (scid : BitVec 16) : (st.sessionOpen scid).2.Unique := by
  rw [RfcommState.sessionOpen]
  split
  · exact (h.update_iff _ rfl).2 fun j k hj => by cases hj
  · exact h

/-- `rfcomm_dlc_open` with a free slot takes it, whether the `SABM` can be sent or not. -/
theorem dlcOpen_of_room {i : Fin maxRfcommSessions} {j : Fin maxRfcommDlc}
    (hfind : st.findSession scid = some i) (halloc : (st.sessions i).allocDlc = some j)
    (l2cap : L2capState) (serverChannel : BitVec 8) (rxCb : ℕ) :
    ∃ d : RfcommDlc, d.valid = true ∧ d.dlci = serverChannel <<< 1 ∧
      st.dlcOpen l2cap scid serverChannel rxCb =
        ((l2capSend l2cap scid (sabmFrame (serverChannel <<< 1))).map fun _ => serverChannel <<< 1,
          ⟨Function.update st.sessions i ((st.sessions i).setDlc j d)⟩) := by
  refine ⟨{ RfcommDlc.empty with
    dlci := serverChannel <<< 1
    scid := scid
    state := .waitUA
    rxCb := some rxCb
    valid := true }, rfl, rfl, ?_⟩
  rw [dlcOpen, hfind]
  dsimp only
  rw [halloc]
  dsimp only
  cases l2capSend l2cap scid (sabmFrame (serverChannel <<< 1)) <;> rfl

/-- `rfcomm_dlc_open` without a free slot fails, and changes nothing. -/
theorem dlcOpen_of_full {i : Fin maxRfcommSessions} (hfind : st.findSession scid = some i)
    (hroom : ¬ (st.sessions i).HasRoom) (l2cap : L2capState) (serverChannel : BitVec 8)
    (rxCb : ℕ) :
    st.dlcOpen l2cap scid serverChannel rxCb = (.error .resourceExhausted, st) := by
  rw [dlcOpen, hfind]
  dsimp only
  rw [RfcommSession.allocDlc_of_full hroom]

/-- `rfcomm_dlc_open` keeps the law exactly if no slot is for its identifier, and the `SABM` can be
sent. -/
theorem Unique.dlcOpen_iff (h : st.Unique) (l2cap : L2capState) (serverChannel : BitVec 8)
    (rxCb : ℕ) :
    (st.dlcOpen l2cap scid serverChannel rxCb).2.Unique ∧
      st.OpenFails (st.dlcOpen l2cap scid serverChannel rxCb) ↔
      ∀ i ∈ st.findSession scid, st.OpenFits l2cap scid serverChannel i := by
  cases hfind : st.findSession scid with
  | none =>
      have hnone : st.dlcOpen l2cap scid serverChannel rxCb = (.error .notFound, st) := by
        rw [dlcOpen, hfind]
      rw [hnone]
      exact iff_of_true ⟨h, fun _ _ _ => rfl⟩ fun i hi => absurd hi (Option.not_mem_none i)
  | some i =>
      have hsome : (∀ k ∈ some i, st.OpenFits l2cap scid serverChannel k) ↔
          st.OpenFits l2cap scid serverChannel i :=
        ⟨fun hall => hall i rfl, fun hi k hk => Option.mem_some_iff.1 hk ▸ hi⟩
      rw [hsome]
      by_cases hroom : (st.sessions i).HasRoom
      · obtain ⟨j, halloc, hj⟩ := hroom.allocDlc
        obtain ⟨d, hvalid, hdlci, hopen⟩ := dlcOpen_of_room hfind halloc l2cap serverChannel rxCb
        have hsession := findSession_valid hfind
        have hset : ((st.sessions i).setDlc j d).valid = true := hsession
        have hunique :
            (⟨Function.update st.sessions i ((st.sessions i).setDlc j d)⟩ : RfcommState).Unique ↔
              (st.sessions i).Absent d.dlci :=
          (h.update_iff i hset).trans (RfcommSession.setDlc_unique_iff (h i hsession) hj hvalid)
        rw [hopen, OpenFits, ← hdlci]
        cases hsend : l2capSend l2cap scid (sabmFrame d.dlci) with
        | ok frame =>
            refine ⟨fun hlaw _ => ⟨hunique.1 hlaw.1, frame, rfl⟩, fun hall => ⟨?_, fun e he => ?_⟩⟩
            · exact hunique.2 (hall hroom).1
            · cases he
        | error e =>
            refine iff_of_false (fun hlaw => ?_) fun hall => ?_
            · -- the slot stays taken
              have hsame := congrFun (hlaw.2 e rfl i) j
              dsimp only at hsame
              rw [Function.update_self] at hsame
              have hset : ((st.sessions i).setDlc j d).dlcs j = d := Function.update_self _ _ _
              rw [← hsame, hset, hvalid] at hj
              cases hj
            · obtain ⟨-, frame, hframe⟩ := hall hroom
              cases hframe
      · rw [dlcOpen_of_full hfind hroom]
        exact iff_of_true ⟨h, fun _ _ _ => rfl⟩ fun hr => absurd hr hroom

/-- Only a `SABM` takes a slot. -/
theorem Unique.recv_iff (h : st.Unique) (f : RfcommFrame) :
    (st.recv scid f).1.Unique ↔ ∀ i ∈ st.findSession scid, f.dlci ≠ 0#8 →
      f.frameType = FrameType.sabm → (st.sessions i).HasRoom → (st.sessions i).Absent f.dlci := by
  by_cases hsabm : f.frameType = FrameType.sabm
  · have hrecv : (st.recv scid f).1 = st.recvSabm scid f.dlci f.cr := by
      rw [recv, if_pos hsabm]
    rw [hrecv, h.recvSabm_iff]
    exact forall₃_congr fun i hi hne => ⟨fun hall _ => hall, fun hall => hall hsabm⟩
  · refine iff_of_true ?_ fun _ _ _ hcontra => absurd hcontra hsabm
    rw [recv, if_neg hsabm]
    split
    · exact h.recvUa f.dlci
    split
    · exact h.recvDisc f.dlci
    split
    · exact h.updateDlc f.dlci fun _ => rfl
    split
    · split
      · exact h.recvMcc f.payload
      · exact h
    · exact h

/-- Only data calls a callback. -/
theorem recv_snd (f : RfcommFrame) : (st.recv scid f).2 =
    if f.frameType = FrameType.uih ∧ f.dlci ≠ 0#8 then st.recvData scid f.dlci f.payload
    else none := by
  have huih : FrameType.uih ≠ FrameType.sabm ∧ FrameType.uih ≠ FrameType.ua ∧
      FrameType.uih ≠ FrameType.disc ∧ FrameType.uih ≠ FrameType.dm := by decide
  by_cases htype : f.frameType = FrameType.uih
  · rw [recv, htype, if_neg huih.1, if_neg huih.2.1, if_neg huih.2.2.1, if_neg huih.2.2.2,
      if_pos rfl]
    by_cases hzero : f.dlci = 0#8
    · rw [if_pos hzero, if_neg fun hand => hand.2 hzero]
    · rw [if_neg hzero, if_pos ⟨rfl, hzero⟩]
  · rw [if_neg fun hand => htype hand.1, recv, if_neg htype]
    split_ifs <;> rfl

/-- Data goes to the first connected slot. -/
theorem mem_recvData {dlci : BitVec 8} {payload : List (BitVec 8)} {d : DataCall} :
    d ∈ st.recvData scid dlci payload ↔ ∃ i j cb, st.findSession scid = some i ∧
      (st.sessions i).findConnected dlci = some j ∧ ((st.sessions i).dlcs j).rxCb = some cb ∧
      d = ⟨i, j, cb, dlci, payload⟩ := by
  rw [recvData, Option.mem_def, Option.bind_eq_some_iff]
  constructor
  · rintro ⟨i, hi, hrest⟩
    obtain ⟨j, hj, hmap⟩ := Option.bind_eq_some_iff.1 hrest
    obtain ⟨cb, hcb, rfl⟩ := Option.map_eq_some_iff.1 hmap
    exact ⟨i, j, cb, hi, hj, hcb, rfl⟩
  · rintro ⟨i, j, cb, hi, hj, hcb, rfl⟩
    exact ⟨i, hi, Option.bind_eq_some_iff.2 ⟨j, hj, Option.map_eq_some_iff.2 ⟨cb, hcb, rfl⟩⟩⟩

/-- Data calls the callback of an open session exactly if it comes to one, or to no callback. -/
theorem Unique.recvData_iff (h : st.Unique) (ended : Fin maxRfcommSessions → Bool)
    (dlci : BitVec 8) (payload : List (BitVec 8)) :
    (∀ d ∈ st.recvData scid dlci payload, (st.sessions d.session).valid = true ∧
      (st.sessions d.session).state = .open_ ∧ ended d.session = false ∧
      ((st.sessions d.session).dlcs d.slot).valid = true ∧
      ((st.sessions d.session).dlcs d.slot).state = .connected) ↔
    ∀ i ∈ st.findSession scid, (st.sessions i).Listens dlci →
      (st.sessions i).state = .open_ ∧ ended i = false := by
  constructor
  · intro hlaw i hi hlistens
    obtain ⟨j, hj, hsome⟩ :=
      (RfcommSession.listens_iff (h i (findSession_valid hi))).1 hlistens
    obtain ⟨cb, hcb⟩ := Option.isSome_iff_exists.1 hsome
    have hd := hlaw _ (mem_recvData.2 ⟨i, j, cb, hi, hj, hcb, rfl⟩)
    exact ⟨hd.2.1, hd.2.2.1⟩
  · intro hall d hd
    obtain ⟨i, j, cb, hi, hj, hcb, rfl⟩ := mem_recvData.1 hd
    have hvalid := findSession_valid hi
    have hfound := List.find?_some hj
    simp only [Bool.and_eq_true, beq_iff_eq] at hfound
    obtain ⟨hstate, hended⟩ := hall i hi ((RfcommSession.listens_iff (h i hvalid)).2
      ⟨j, hj, Option.isSome_iff_exists.2 ⟨cb, hcb⟩⟩)
    exact ⟨hvalid, hstate, hended, hfound.1.1, hfound.2⟩

end RfcommState

/-! ### Runs -/

namespace RfcommRun

variable {r : RfcommRun}

theorem unique_new : new.st.Unique := fun _ hi => by cases hi

/-- A call keeps the law exactly if it meets the condition. -/
theorem keeps_iff (h : r.st.Unique) (call : RfcommCall) : r.Keeps call ↔ r.Fits call := by
  cases call with
  | sessionOpen scid =>
      refine iff_of_true ⟨h.sessionOpen scid, fun d hd => absurd hd (Option.not_mem_none d), ?_⟩
        trivial
      intro _ _ _ _ hcall
      cases hcall
  | dlcOpen l2cap scid serverChannel rxCb =>
      refine Iff.trans ?_ (h.dlcOpen_iff l2cap serverChannel rxCb)
      refine ⟨fun hlaw => ⟨hlaw.unique, hlaw.fails _ _ _ _ rfl⟩, fun hlaw => ⟨hlaw.1, ?_, ?_⟩⟩
      · exact fun d hd => absurd hd (Option.not_mem_none d)
      · intro _ _ _ _ hcall
        cases hcall
        exact hlaw.2
  | recvFrame scid data =>
      have hlaw : r.Keeps (.recvFrame scid data) ↔ (r.st.recvFrame scid data).1.Unique ∧
          ∀ d ∈ (r.st.recvFrame scid data).2, _ :=
        ⟨fun hlaw => ⟨hlaw.unique, hlaw.delivers⟩, fun hlaw => ⟨hlaw.1, hlaw.2, by
          intro _ _ _ _ hcall
          cases hcall⟩⟩
      rw [hlaw, RfcommState.recvFrame, Fits]
      cases parseFrame data with
      | none =>
          exact iff_of_true ⟨h, fun d hd => absurd hd (Option.not_mem_none d)⟩
            fun f hf => absurd hf (Option.not_mem_none f)
      | some f =>
          have hsome : (∀ g ∈ some f, ∀ i ∈ r.st.findSession scid, g.dlci ≠ 0#8 →
              r.FrameFits g i) ↔
              ((∀ i ∈ r.st.findSession scid, f.dlci ≠ 0#8 → f.frameType = FrameType.sabm →
                (r.st.sessions i).HasRoom → (r.st.sessions i).Absent f.dlci) ∧
              (f.frameType = FrameType.uih ∧ f.dlci ≠ 0#8 → ∀ i ∈ r.st.findSession scid,
                (r.st.sessions i).Listens f.dlci →
                (r.st.sessions i).state = .open_ ∧ r.ended i = false)) := by
            constructor
            · intro hall
              exact ⟨fun i hi hne => (hall f rfl i hi hne).1,
                fun htype i hi => (hall f rfl i hi htype.2).2 htype.1⟩
            · rintro ⟨hsabm, huih⟩ g hg i hi hne
              cases hg
              exact ⟨hsabm i hi hne, fun htype => huih ⟨htype, hne⟩ i hi⟩
          dsimp only
          rw [hsome, h.recv_iff, RfcommState.recv_snd]
          refine and_congr_right fun _ => ?_
          split
          · rename_i htype
            refine (h.recvData_iff r.ended f.dlci f.payload).trans ?_
            exact ⟨fun hall _ => hall, fun hall => hall htype⟩
          · rename_i htype
            exact iff_of_true (fun d hd => absurd hd (Option.not_mem_none d))
              fun hand => absurd hand htype

end RfcommRun

/-- Along a run the sessions have one slot for an identifier, data goes to connected slots of open
sessions that no `DISC` has ended, and a failed open changes no slot, exactly if every call meets
the condition. -/
theorem rfcomm_dlcs_iff (calls : List RfcommCall) :
    Runs.Along RfcommRun.next RfcommRun.Keeps .new calls ↔
      Runs.Along RfcommRun.next RfcommRun.Fits .new calls := by
  have hstep : ∀ (r : RfcommRun) (call : RfcommCall), r.st.Unique → True →
      (r.Keeps call ↔ r.Fits call) := fun r call h _ => r.keeps_iff h call
  have hnext : ∀ (r : RfcommRun) (call : RfcommCall), r.st.Unique → True → r.Fits call →
      (r.next call).st.Unique := fun r call h _ hfits => ((r.keeps_iff h call).2 hfits).unique
  exact Runs.along_iff hstep hnext RfcommRun.unique_new (Runs.along_true _ _ _)

/-! ### Broken runs -/

/-- A channel is open. -/
def openChannel : L2capState where
  chans := Function.update L2capState.new.chans firstChannel
    { L2capChan.empty with scid := 0x40#16, dcid := 0x41#16, state := .open_, valid := true }
  psmReg := L2capState.new.psmReg
  nextCid := 0x41#16

namespace RfcommRun

/-- A session is opened. -/
def openedCalls : List RfcommCall := [.sessionOpen 0x40#16]

/-- A `SABM` has come to the session. -/
def sabmCalls : List RfcommCall := openedCalls ++ [.recvFrame 0x40#16 (sabmFrame 2#8)]

/-- A connection of the session is opened and acknowledged, and the session is ended. -/
def endedCalls : List RfcommCall :=
  openedCalls ++ [.recvFrame 0x40#16 (uaFrame 0#8), .dlcOpen openChannel 0x40#16 1#8 7,
    .recvFrame 0x40#16 (uaFrame 2#8), .recvFrame 0x40#16 (shortFrame FrameType.disc 0#8)]

/-- The `SABM` takes a second slot. -/
theorem not_keeps_sabm :
    ¬ (sabmCalls.foldl next new).Keeps (.recvFrame 0x40#16 (sabmFrame 2#8)) := by
  intro h
  have hslots : ∀ j : Fin maxRfcommDlc, j.val < 2 →
      ((((sabmCalls.foldl next new).st.next (.recvFrame 0x40#16 (sabmFrame 2#8))).sessions
        ⟨0, by decide⟩).dlcs j).valid = true ∧
      ((((sabmCalls.foldl next new).st.next (.recvFrame 0x40#16 (sabmFrame 2#8))).sessions
        ⟨0, by decide⟩).dlcs j).dlci = 2#8 := by decide +kernel
  obtain ⟨hvalid₀, hdlci₀⟩ := hslots ⟨0, by decide⟩ (by decide)
  obtain ⟨hvalid₁, hdlci₁⟩ := hslots ⟨1, by decide⟩ (by decide)
  have heq := h.unique ⟨0, by decide⟩ (by decide +kernel) _ _ hvalid₀ hvalid₁
    (hdlci₀.trans hdlci₁.symm)
  exact absurd (congrArg Fin.val heq) Nat.zero_ne_one

/-- The data is handed over. -/
theorem not_keeps_data :
    ¬ (endedCalls.foldl next new).Keeps (.recvFrame 0x40#16 (dataFrame 2#8 [1#8])) := by
  intro h
  have hdelivered : (endedCalls.foldl next new).st.delivered
      (.recvFrame 0x40#16 (dataFrame 2#8 [1#8])) =
        some ⟨⟨0, by decide⟩, ⟨0, by decide⟩, 7, 2#8, [1#8]⟩ := by decide +kernel
  have hclosed : ∀ i, ((endedCalls.foldl next new).st.sessions i).state ≠ .open_ := by
    decide +kernel
  exact hclosed _ (h.delivers _ hdelivered).2.1

/-- The slot is taken, although the open fails. -/
theorem not_keeps_open :
    ¬ (openedCalls.foldl next new).Keeps (.dlcOpen .new 0x40#16 1#8 7) := by
  intro h
  have hfails : ((openedCalls.foldl next new).st.dlcOpen .new 0x40#16 1#8 7).1 =
      .error .notFound := rfl
  have hsame := congrFun (h.fails _ _ _ _ rfl _ hfails ⟨0, by decide⟩) ⟨0, by decide⟩
  have htaken : ((((openedCalls.foldl next new).st.dlcOpen .new 0x40#16 1#8 7).2.sessions
      ⟨0, by decide⟩).dlcs ⟨0, by decide⟩).valid = true := by decide +kernel
  have hfree : (((openedCalls.foldl next new).st.sessions ⟨0, by decide⟩).dlcs
      ⟨0, by decide⟩).valid = false := by decide +kernel
  rw [hsame, hfree] at htaken
  cases htaken

end RfcommRun

/-- A repeated `SABM` takes a second slot; data is handed over after the `DISC` of the session; and
the slot of a `SABM` that cannot be sent stays taken. -/
theorem rfcomm_broken_runs :
    ¬ Runs.Along RfcommRun.next RfcommRun.Keeps .new
      (RfcommRun.sabmCalls ++ [.recvFrame 0x40#16 (sabmFrame 2#8)]) ∧
    ¬ Runs.Along RfcommRun.next RfcommRun.Keeps .new
      (RfcommRun.endedCalls ++ [.recvFrame 0x40#16 (dataFrame 2#8 [1#8])]) ∧
    ¬ Runs.Along RfcommRun.next RfcommRun.Keeps .new
      (RfcommRun.openedCalls ++ [.dlcOpen .new 0x40#16 1#8 7]) :=
  ⟨fun h => RfcommRun.not_keeps_sabm (Runs.along_concat.1 h).2,
    fun h => RfcommRun.not_keeps_data (Runs.along_concat.1 h).2,
    fun h => RfcommRun.not_keeps_open (Runs.along_concat.1 h).2⟩

end StarOS
