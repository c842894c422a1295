/-
The frames of the Bluetooth channel layer: how they are built, and how they are read again.

A frame starts with the length of its payload and the identifier of a channel, and a signalling
command with its code and the length of its parameters.  What one host builds is what the other one
takes apart, as long as the lengths fit their sixteen bits.

* `StarOS.sendAcl`, `StarOS.sendConnRsp` and the other senders;
* `StarOS.l2capSend` — sending on an open channel;
* `StarOS.L2capState.receive` — `l2cap_recv_frame` with the frames that are sent in response;
* `StarOS.frameCommands_sigFrame` — a signalling frame carries its command;
* `StarOS.recvFrame_sendAcl` — a frame for a channel is dispatched.
-/

import StarOS.ByteFields
import StarOS.L2capTable

set_option autoImplicit false

namespace StarOS

/-! ### Building frames -/

/-- `build_sig_hdr`. -/
def buildSigHdr (code ident : BitVec 8) (plen : BitVec 16) : List (BitVec 8) :=
  code :: ident :: leBytes16 plen

/-- `l2cap_send_acl`: the header that is built, with the payload that goes after it. -/
def sendAcl (cid : BitVec 16) (payload : List (BitVec 8)) : List (BitVec 8) :=
  leBytes16 (BitVec.ofNat 16 payload.length) ++ leBytes16 cid ++ payload

/-- `l2cap_send_conn_rsp`. -/
def sendConnRsp (rsp : ConnRsp) : List (BitVec 8) :=
  sendAcl l2capCidSignaling (buildSigHdr SigCommand.connRsp rsp.ident 8#16 ++
    (leBytes16 rsp.dcid ++ (leBytes16 rsp.scid ++ (leBytes16 rsp.result ++ leBytes16 0#16))))

/-- `l2cap_send_conf_rsp`. -/
def sendConfRsp (ident : BitVec 8) (scid result : BitVec 16) : List (BitVec 8) :=
  sendAcl l2capCidSignaling
    (buildSigHdr SigCommand.confRsp ident 4#16 ++ (leBytes16 scid ++ leBytes16 result))

/-- `l2cap_send_disconn_rsp`. -/
def sendDisconnRsp (ident : BitVec 8) (dcid scid : BitVec 16) : List (BitVec 8) :=
  sendAcl l2capCidSignaling
    (buildSigHdr SigCommand.disconnRsp ident 4#16 ++ (leBytes16 dcid ++ leBytes16 scid))

/-- A signalling frame with one command. -/
def sigFrame (code ident : BitVec 8) (params : List (BitVec 8)) : List (BitVec 8) :=
  sendAcl l2capCidSignaling (buildSigHdr code ident (BitVec.ofNat 16 params.length) ++ params)

/-- `l2cap_send`: the frame that is sent. -/
def l2capSend (st : L2capState) (scid : BitVec 16) (data : List (BitVec 8)) :
    Except KernelError (List (BitVec 8)) :=
  match st.findSlot fun c => c.valid && c.scid == scid && c.state == .open_ with
  | some i => .ok (sendAcl (st.chans i).dcid data)
  | none => .error .notFound

namespace L2capState

/-- The frames that are sent in response to a command. -/
def commandResponse (hcon : BitVec 16) (st : L2capState) (cmd : SigCommand) :
    List (List (BitVec 8)) :=
  if cmd.code = SigCommand.connReq then
    (st.connReqResponse hcon cmd.ident cmd.params).toList.map sendConnRsp
  else if cmd.code = SigCommand.confReq then
    if cmd.params.length < 2 then []
    else [sendConfRsp cmd.ident (leWord cmd.params 0) 0#16]
  else if cmd.code = SigCommand.disconnReq then
    if cmd.params.length < 4 then []
    else [sendDisconnRsp cmd.ident (leWord cmd.params 0) (leWord cmd.params 2)]
  else []

/-- One command of a frame, with the frames that are sent in response. -/
def receiveCommand (hcon : BitVec 16) (s : L2capState × List (List (BitVec 8)))
    (cmd : SigCommand) : L2capState × List (List (BitVec 8)) :=
  (s.1.handleCommand hcon cmd, s.2 ++ s.1.commandResponse hcon cmd)

/-- The commands of a frame, with the frames that are sent in response. -/
def receive (hcon : BitVec 16) (st : L2capState) (data : List (BitVec 8)) :
    L2capState × List (List (BitVec 8)) :=
  (frameCommands data).foldl (receiveCommand hcon) (st, [])

/-- The state is that of `l2cap_recv_frame`. -/
theorem receive_fst (hcon : BitVec 16) (st : L2capState) (data : List (BitVec 8)) :
    (st.receive hcon data).1 = (st.recvFrame hcon data).1 := by
  have hfold : ∀ (cmds : List SigCommand) (s : L2capState × List (List (BitVec 8))),
      (cmds.foldl (receiveCommand hcon) s).1 = cmds.foldl (handleCommand hcon) s.1 := by
    intro cmds
    induction cmds with
    | nil => exact fun _ => rfl
    | cons cmd cmds ih => exact fun s => ih _
  rw [recvFrame_fst]
  exact hfold _ _

theorem receive_of_singleton {hcon : BitVec 16} {st : L2capState} {data : List (BitVec 8)}
    {cmd : SigCommand} (h : frameCommands data = [cmd]) :
    st.receive hcon data = (st.handleCommand hcon cmd, st.commandResponse hcon cmd) := by
  rw [receive, h]
  rfl

end L2capState

/-! ### Reading frames -/

theorem leWord_leBytes16 (v : BitVec 16) (rest : List (BitVec 8)) :
    leWord (leBytes16 v ++ rest) 0 = v := extractLsb'_append_extractLsb' v

/-- A word behind a prefix. -/
theorem leWord_append (pre rest : List (BitVec 8)) (i : ℕ) :
    leWord (pre ++ rest) (pre.length + i) = leWord rest i := by
  have hget : ∀ k, (pre ++ rest).getD (pre.length + k) 0#8 = rest.getD k 0#8 := by
    intro k
    rw [List.getD_eq_getElem?_getD, List.getElem?_append_right (Nat.le_add_right _ _),
      Nat.add_sub_cancel_left, List.getD_eq_getElem?_getD]
  rw [leWord, leWord, Nat.add_assoc, hget, hget]

theorem leWord_two (v : BitVec 16) (rest : List (BitVec 8)) :
    leWord (leBytes16 v ++ rest) 2 = leWord rest 0 := leWord_append (leBytes16 v) rest 0

theorem leWord_four (v w : BitVec 16) (rest : List (BitVec 8)) :
    leWord (leBytes16 v ++ (leBytes16 w ++ rest)) 4 = leWord rest 0 :=
  (leWord_append (leBytes16 v) _ 2).trans (leWord_two w rest)

section Header

variable (cid : BitVec 16) (payload : List (BitVec 8))

theorem sendAcl_length : (sendAcl cid payload).length = 4 + payload.length := by
  rw [sendAcl, List.length_append, List.length_append, leBytes16_length, leBytes16_length]

theorem leWord_sendAcl_zero : leWord (sendAcl cid payload) 0 = BitVec.ofNat 16 payload.length := by
  rw [sendAcl, List.append_assoc, leWord_leBytes16]

theorem leWord_sendAcl_two : leWord (sendAcl cid payload) 2 = cid := by
  rw [sendAcl, List.append_assoc, leWord_two, leWord_leBytes16]

theorem drop_sendAcl : (sendAcl cid payload).drop 4 = payload := rfl

end Header

/-- A signalling frame carries its command. -/
theorem frameCommands_sigFrame (code ident : BitVec 8) {params : List (BitVec 8)}
    (h : 4 + params.length < 2 ^ 16) :
    L2capState.frameCommands (sigFrame code ident params) = [⟨code, ident, params⟩] := by
  have hlen : (buildSigHdr code ident (BitVec.ofNat 16 params.length) ++ params).length =
      4 + params.length := by
    rw [List.length_append]
    rfl
  have hfits : (BitVec.ofNat 16 (4 + params.length)).toNat = 4 + params.length := by
    rw [BitVec.toNat_ofNat, Nat.mod_eq_of_lt h]
  have hparams : (BitVec.ofNat 16 params.length).toNat = params.length := by
    rw [BitVec.toNat_ofNat, Nat.mod_eq_of_lt (by omega)]
  rw [sigFrame, L2capState.frameCommands, leWord_sendAcl_zero, leWord_sendAcl_two, sendAcl_length,
    drop_sendAcl, hlen, hfits, ← hlen, List.take_length]
  rw [if_neg (by omega), if_pos (.inl rfl), buildSigHdr]
  change L2capState.sigCommands (code :: ident :: _ :: _ :: params) = _
  rw [L2capState.sigCommands, extractLsb'_append_extractLsb']
  rw [hparams, if_neg (lt_irrefl _), List.take_length, List.drop_length, L2capState.sigCommands]
  simp

/-- A frame for a channel is dispatched, with as much of its payload as the length counts. -/
theorem recvFrame_sendAcl {cid : BitVec 16} (hcid : l2capCidDynStart.toNat ≤ cid.toNat)
    (hcon : BitVec 16) (st : L2capState) (payload : List (BitVec 8)) :
    (st.recvFrame hcon (sendAcl cid payload)).2 =
      st.dispatchToChan hcon cid (payload.take (payload.length % 2 ^ 16)) := by
  have hlow : ∀ c : BitVec 16, c.toNat < l2capCidDynStart.toNat → cid ≠ c := by
    rintro c hc rfl
    omega
  have hle := Nat.mod_le payload.length (2 ^ 16)
  rw [L2capState.recvFrame, leWord_sendAcl_zero, leWord_sendAcl_two, sendAcl_length, drop_sendAcl,
    BitVec.toNat_ofNat]
  dsimp only
  rw [if_neg (by omega), if_neg (by omega), if_neg (hlow _ (by decide)),
    if_neg (hlow _ (by decide)), if_neg (hlow _ (by decide)), if_neg (hlow _ (by decide))]

end StarOS
