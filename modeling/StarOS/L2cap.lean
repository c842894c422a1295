/-
The receive path of the Bluetooth channel layer (`net/bluetooth/l2cap.rs`): the table of channels,
and the frames that arrive on a connection.

A frame can carry any number of signalling commands.  The requests among them are looked up in the
channels of the connection that the frame came from, but the replies (`CONN_RSP`, `CONF_RSP` and
`DISCONN_RSP`) in the channels of all connections: they find the first channel with the given local
identifier.  So a frame changes a channel of another connection exactly if the replies in it that
are applied to this channel do not happen to leave it as it was.

* `StarOS.L2capChan`, `StarOS.L2capState`, `StarOS.SigCommand` — the data;
* `StarOS.L2capState.handleConnReq`, `StarOS.L2capState.handleConnRsp` and the other handlers;
* `StarOS.L2capState.handleSignaling`, `StarOS.L2capState.recvFrame` — the loop over the commands of
  a frame, and the entry point;
* `StarOS.L2capState.Isolated` — the law;
* `StarOS.L2capState.frameReplies`, `StarOS.L2capChan.Harmless` — the replies of a frame that are
  applied to a channel, and the condition on them;
* `StarOS.l2cap_isolated_iff` — the law holds exactly if all replies are harmless;
* `StarOS.l2cap_disconnects_other` — a frame that closes a channel of another connection.
-/

import StarOS.Word
import Mathlib.Data.List.FinRange
import Mathlib.Tactic.Cases

set_option autoImplicit false

namespace StarOS

/-! ### Data -/

/-- `ChanState`. -/
inductive ChanState where
  | closed | waitConn | waitConnRsp | config | open_ | waitDisconn
  deriving DecidableEq, Repr

/-- `ChanMode`. -/
inductive ChanMode where
  | basic | retrans | flowCtrl | ertm | streaming | leCoc
  deriving DecidableEq, Repr

/-- A slot of the channel table. -/
@[ext] structure L2capChan where
  /-- Local identifier. -/
  scid : BitVec 16
  /-- Remote identifier. -/
  dcid : BitVec 16
  psm : BitVec 16
  /-- The connection that the channel lives on. -/
  hcon : BitVec 16
  state : ChanState
  mode : ChanMode
  imtu : BitVec 16
  omtu : BitVec 16
  confState : BitVec 8
  ident : BitVec 8
  /-- Address of the receive callback. -/
  rxCb : Option ℕ
  valid : Bool
  deriving DecidableEq, Repr

/-- `L2capChan::empty`. -/
def L2capChan.empty : L2capChan where
  scid := 0#16
  dcid := 0#16
  psm := 0#16
  hcon := 0#16
  state := .closed
  mode := .basic
  imtu := 672#16
  omtu := 672#16
  confState := 0#8
  ident := 0#8
  rxCb := none
  valid := false

/-- A slot of the protocol registry. -/
structure PsmEntry where
  psm : BitVec 16
  /-- Address of the handler. -/
  handler : ℕ
  valid : Bool
  deriving DecidableEq, Repr

/-- `MAX_L2CAP_CHANS`. -/
def maxL2capChans : ℕ := 32

/-- `MAX_PSM`. -/
def maxPsm : ℕ := 16

/-- `L2CAP_CID_SIGNALING`. -/
def l2capCidSignaling : BitVec 16 := 0x0001#16

/-- `L2CAP_CID_ATT`. -/
def l2capCidAtt : BitVec 16 := 0x0004#16

/-- `L2CAP_CID_LE_SIGNALING`. -/
def l2capCidLeSignaling : BitVec 16 := 0x0005#16

/-- `L2CAP_CID_SMP`. -/
def l2capCidSmp : BitVec 16 := 0x0006#16

/-- `L2CAP_CID_DYN_START`. -/
def l2capCidDynStart : BitVec 16 := 0x0040#16

/-- The state of the channel layer. -/
structure L2capState where
  chans : Fin maxL2capChans → L2capChan
  psmReg : Fin maxPsm → PsmEntry
  nextCid : BitVec 16

/-- A signalling command. -/
structure SigCommand where
  code : BitVec 8
  ident : BitVec 8
  params : List (BitVec 8)
  deriving DecidableEq, Repr

namespace SigCommand

/-- `sig_cmd::CONN_REQ`. -/
def connReq : BitVec 8 := 0x02#8

/-- `sig_cmd::CONN_RSP`. -/
def connRsp : BitVec 8 := 0x03#8

/-- `sig_cmd::CONF_REQ`. -/
def confReq : BitVec 8 := 0x04#8

/-- `sig_cmd::CONF_RSP`. -/
def confRsp : BitVec 8 := 0x05#8

/-- `sig_cmd::DISCONN_REQ`. -/
def disconnReq : BitVec 8 := 0x06#8

/-- `sig_cmd::DISCONN_RSP`. -/
def disconnRsp : BitVec 8 := 0x07#8

end SigCommand

/-- `u16::from_le_bytes` of the bytes at `i` and `i + 1`. -/
def leWord (p : List (BitVec 8)) (i : ℕ) : BitVec 16 := p.getD (i + 1) 0#8 ++ p.getD i 0#8

/-- The call of a protocol handler. -/
structure HandlerCall where
  handler : ℕ
  hcon : BitVec 16
  scid : BitVec 16
  data : List (BitVec 8)
  deriving DecidableEq, Repr

/-! ### Handlers -/

namespace L2capState

/-- The first slot that meets a condition. -/
def findSlot (st : L2capState) (p : L2capChan → Bool) : Option (Fin maxL2capChans) :=
  (List.finRange maxL2capChans).find? fun i => p (st.chans i)

/-- Changing the first slot that meets a condition. -/
def updateFirst (st : L2capState) (p : L2capChan → Bool) (f : L2capChan → L2capChan) :
    L2capState :=
  match st.findSlot p with
  | some i => { st with chans := Function.update st.chans i (f (st.chans i)) }
  | none => st

/-- `handle_conn_req`, without the response that is sent. -/
def handleConnReq (hcon : BitVec 16) (st : L2capState) (ident : BitVec 8) (p : List (BitVec 8)) :
    L2capState :=
  if p.length < 4 then st
  else
    let psm := leWord p 0
    let dcid := leWord p 2
    if (List.finRange maxPsm).any fun i => (st.psmReg i).valid && (st.psmReg i).psm == psm then
      let scid := st.nextCid
      -- the identifiers start over behind the largest one
      let nextCid := if st.nextCid + 1#16 < l2capCidDynStart then l2capCidDynStart
        else st.nextCid + 1#16
      { st with nextCid := nextCid }.updateFirst (fun slot => !slot.valid) fun _ =>
        { L2capChan.empty with
          scid := scid
          dcid := dcid
          psm := psm
          hcon := hcon
          state := .config
          ident := ident
          valid := true }
    else st

/-- `handle_conn_rsp`. -/
def handleConnRsp (_hcon : BitVec 16) (st : L2capState) (_ident : BitVec 8)
    (p : List (BitVec 8)) : L2capState :=
  if p.length < 8 then st
  else
    let dcid := leWord p 0
    let scid := leWord p 2
    let result := leWord p 4
    if result ≠ 0#16 then st
    else
      -- the connection that the reply came from is not compared
      st.updateFirst (fun slot => slot.valid && slot.scid == scid) fun slot =>
        { slot with dcid := dcid, state := .config }

/-- `handle_conf_req`, without the response that is sent. -/
def handleConfReq (hcon : BitVec 16) (st : L2capState) (_ident : BitVec 8)
    (p : List (BitVec 8)) : L2capState :=
  if p.length < 2 then st
  else
    let dcid := leWord p 0
    st.updateFirst (fun slot => slot.valid && slot.hcon == hcon && slot.scid == dcid) fun slot =>
      { slot with
        confState := slot.confState ||| 0x01#8
        state := if slot.confState ||| 0x01#8 = 0x03#8 then .open_ else slot.state }

/-- `handle_conf_rsp`. -/
def handleConfRsp (_hcon : BitVec 16) (st : L2capState) (_ident : BitVec 8)
    (p : List (BitVec 8)) : L2capState :=
  if p.length < 4 then st
  else
    let scid := leWord p 0
    let result := leWord p 2
    if result ≠ 0#16 then st
    else
      st.updateFirst (fun slot => slot.valid && slot.scid == scid) fun slot =>
        { slot with
          confState := slot.confState ||| 0x02#8
          state := if slot.confState ||| 0x02#8 = 0x03#8 then .open_ else slot.state }

/-- `handle_disconn_req`, without the response that is sent. -/
def handleDisconnReq (hcon : BitVec 16) (st : L2capState) (_ident : BitVec 8)
    (p : List (BitVec 8)) : L2capState :=
  if p.length < 4 then st
  else
    let dcid := leWord p 0
    st.updateFirst (fun slot => slot.valid && slot.hcon == hcon && slot.scid == dcid) fun slot =>
      { slot with state := .closed, valid := false }

/-- `handle_disconn_rsp`. -/
def handleDisconnRsp (_hcon : BitVec 16) (st : L2capState) (_ident : BitVec 8)
    (p : List (BitVec 8)) : L2capState :=
  if p.length < 4 then st
  else
    let scid := leWord p 0
    st.updateFirst (fun slot => slot.valid && slot.scid == scid) fun slot =>
      { slot with state := .closed, valid := false }

/-- The handler that `handle_signaling` calls for a command. -/
def handleCommand (hcon : BitVec 16) (st : L2capState) (cmd : SigCommand) : L2capState :=
  if cmd.code = SigCommand.connReq then st.handleConnReq hcon cmd.ident cmd.params
  else if cmd.code = SigCommand.connRsp then st.handleConnRsp hcon cmd.ident cmd.params
  else if cmd.code = SigCommand.confReq then st.handleConfReq hcon cmd.ident cmd.params
  else if cmd.code = SigCommand.confRsp then st.handleConfRsp hcon cmd.ident cmd.params
  else if cmd.code = SigCommand.disconnReq then st.handleDisconnReq hcon cmd.ident cmd.params
  else if cmd.code = SigCommand.disconnRsp then st.handleDisconnRsp hcon cmd.ident cmd.params
  else st

/-- `handle_signaling`.  It stops at a truncated command. -/
def handleSignaling (hcon : BitVec 16) (st : L2capState) : List (BitVec 8) → L2capState
  | code :: ident :: len₀ :: len₁ :: rest =>
      let len := (len₁ ++ len₀).toNat
      if rest.length < len then st
      else
        handleSignaling hcon (st.handleCommand hcon ⟨code, ident, rest.take len⟩) (rest.drop len)
  | _ => st
  termination_by data => data.length
  decreasing_by simp only [List.length_drop, List.length_cons]; omega

/-- `dispatch_to_chan`: the handler that is called. -/
def dispatchToChan (hcon : BitVec 16) (st : L2capState) (dcid : BitVec 16)
    (data : List (BitVec 8)) : Option HandlerCall :=
  match st.findSlot fun c =>
      c.valid && c.hcon == hcon && c.dcid == dcid && c.state == .open_ with
  | none => none
  | some i =>
      let c := st.chans i
      match (List.finRange maxPsm).find? fun k =>
          (st.psmReg k).valid && (st.psmReg k).psm == c.psm with
      | none => none
      | some k => some ⟨(st.psmReg k).handler, hcon, c.scid, data⟩

/-- `l2cap_recv_frame`: the state afterwards, and the handler that is called. -/
def recvFrame (hcon : BitVec 16) (st : L2capState) (data : List (BitVec 8)) :
    L2capState × Option HandlerCall :=
  if data.length < 4 then (st, none)
  else
    let len := (leWord data 0).toNat
    let cid := leWord data 2
    if data.length < 4 + len then (st, none)
    else
      let payload := (data.drop 4).take len
      if cid = l2capCidSignaling then (st.handleSignaling hcon payload, none)
      else if cid = l2capCidLeSignaling then (st.handleSignaling hcon payload, none)
      else if cid = l2capCidAtt then (st, none)
      else if cid = l2capCidSmp then (st, none)
      else (st, st.dispatchToChan hcon cid payload)

end L2capState

/-! ### The law -/

/-- A channel of another connection. -/
def L2capChan.Foreign (hcon : BitVec 16) (c : L2capChan) : Prop :=
  c.valid = true ∧ c.hcon ≠ hcon

namespace L2capState

/-- The law: a frame that is received on a connection leaves the channels of the other connections
as they are, and a handler is called only for an open channel of this connection. -/
def Isolated (hcon : BitVec 16) (st : L2capState) (data : List (BitVec 8)) : Prop :=
  (∀ i, (st.chans i).Foreign hcon → (st.recvFrame hcon data).1.chans i = st.chans i) ∧
  ∀ call ∈ (st.recvFrame hcon data).2, call.hcon = hcon ∧
    ∃ i, (st.chans i).valid = true ∧ (st.chans i).hcon = hcon ∧ (st.chans i).state = .open_ ∧
      (st.chans i).scid = call.scid

end L2capState

/-! ### Replies -/

namespace SigCommand

/-- The local identifier that a reply is looked up with.  Requests, replies that are too short and
replies that report a failure have none. -/
def replyScid (cmd : SigCommand) : Option (BitVec 16) :=
  if cmd.code = connRsp then
    if cmd.params.length < 8 ∨ leWord cmd.params 4 ≠ 0#16 then none else some (leWord cmd.params 2)
  else if cmd.code = confRsp then
    if cmd.params.length < 4 ∨ leWord cmd.params 2 ≠ 0#16 then none else some (leWord cmd.params 0)
  else if cmd.code = disconnRsp then
    if cmd.params.length < 4 then none else some (leWord cmd.params 0)
  else none

/-- What a reply does to the channel that it is applied to. -/
def replyEffect (cmd : SigCommand) (c : L2capChan) : L2capChan :=
  if cmd.code = connRsp then { c with dcid := leWord cmd.params 0, state := .config }
  else if cmd.code = confRsp then
    { c with
      confState := c.confState ||| 0x02#8
      state := if c.confState ||| 0x02#8 = 0x03#8 then .open_ else c.state }
  else { c with state := .closed, valid := false }

variable (cmd : SigCommand)

theorem replyScid_connRsp (h : cmd.code = connRsp) :
    cmd.replyScid =
      if cmd.params.length < 8 ∨ leWord cmd.params 4 ≠ 0#16 then none
      else some (leWord cmd.params 2) := if_pos h

theorem replyScid_confRsp (h : cmd.code = confRsp) :
    cmd.replyScid =
      if cmd.params.length < 4 ∨ leWord cmd.params 2 ≠ 0#16 then none
      else some (leWord cmd.params 0) := by
  rw [replyScid, if_neg (by rw [h]; decide)]
  exact if_pos h

theorem replyScid_disconnRsp (h : cmd.code = disconnRsp) :
    cmd.replyScid = if cmd.params.length < 4 then none else some (leWord cmd.params 0) := by
  rw [replyScid, if_neg (by rw [h]; decide), if_neg (by rw [h]; decide)]
  exact if_pos h

theorem replyEffect_connRsp (h : cmd.code = connRsp) :
    cmd.replyEffect = fun c => { c with dcid := leWord cmd.params 0, state := .config } :=
  funext fun _ => if_pos h

theorem replyEffect_confRsp (h : cmd.code = confRsp) :
    cmd.replyEffect = fun c =>
      { c with
        confState := c.confState ||| 0x02#8
        state := if c.confState ||| 0x02#8 = 0x03#8 then .open_ else c.state } := by
  funext c
  rw [replyEffect, if_neg (by rw [h]; decide)]
  exact if_pos h

theorem replyEffect_disconnRsp (h : cmd.code = disconnRsp) :
    cmd.replyEffect = fun c => { c with state := .closed, valid := false } := by
  funext c
  rw [replyEffect, if_neg (by rw [h]; decide), if_neg (by rw [h]; decide)]

/-- The remote identifier that a reply sets. -/
def replyDcid (cmd : SigCommand) : Option (BitVec 16) :=
  if cmd.code = connRsp then some (leWord cmd.params 0) else none

/-- The state that a reply sets, if it is applied to a channel with the given configuration flags.
-/
def replyState (confState : BitVec 8) (cmd : SigCommand) : Option ChanState :=
  if cmd.code = connRsp then some .config
  else if cmd.code = confRsp ∧ confState ||| 0x02#8 = 0x03#8 then some .open_
  else none

end SigCommand

/-- Replies that leave a channel as it is: none closes it, none confirms a configuration that was
not confirmed before, the last one that sets the remote identifier sets the one that it has, and the
last one that sets the state sets the one that it is in. -/
structure L2capChan.Harmless (c : L2capChan) (replies : List SigCommand) : Prop where
  open_ : ∀ cmd ∈ replies, cmd.code ≠ SigCommand.disconnRsp
  conf : ∀ cmd ∈ replies, cmd.code = SigCommand.confRsp → c.confState ||| 0x02#8 = c.confState
  dcid : ∀ dcid ∈ (replies.filterMap SigCommand.replyDcid).getLast?, dcid = c.dcid
  state : ∀ s ∈ (replies.filterMap (SigCommand.replyState c.confState)).getLast?, s = c.state

namespace L2capState

/-- The slot that a reply is applied to. -/
def repliesTo (st : L2capState) (cmd : SigCommand) : Option (Fin maxL2capChans) :=
  cmd.replyScid.bind fun scid => st.findSlot fun slot => slot.valid && slot.scid == scid

/-- The commands of a signalling frame. -/
def sigCommands : List (BitVec 8) → List SigCommand
  | code :: ident :: len₀ :: len₁ :: rest =>
      let len := (len₁ ++ len₀).toNat
      if rest.length < len then []
      else ⟨code, ident, rest.take len⟩ :: sigCommands (rest.drop len)
  | _ => []
  termination_by data => data.length
  decreasing_by simp only [List.length_drop, List.length_cons]; omega

/-- The replies among the commands that are applied to the slot `i`, each in the state before it. -/
def replies (hcon : BitVec 16) (i : Fin maxL2capChans) : L2capState → List SigCommand →
    List SigCommand
  | _, [] => []
  | st, cmd :: cmds =>
      if st.repliesTo cmd = some i then cmd :: replies hcon i (st.handleCommand hcon cmd) cmds
      else replies hcon i (st.handleCommand hcon cmd) cmds

/-- The commands of a frame. -/
def frameCommands (data : List (BitVec 8)) : List SigCommand :=
  let len := (leWord data 0).toNat
  let cid := leWord data 2
  if data.length < 4 ∨ data.length < 4 + len then []
  else if cid = l2capCidSignaling ∨ cid = l2capCidLeSignaling then
    sigCommands ((data.drop 4).take len)
  else []

/-- The replies of a frame that are applied to the slot `i`. -/
def frameReplies (hcon : BitVec 16) (st : L2capState) (data : List (BitVec 8))
    (i : Fin maxL2capChans) : List SigCommand := replies hcon i st (frameCommands data)

/-! ### What a command does to the table -/

variable {hcon : BitVec 16} {st : L2capState}

theorem findSlot_eq_some {p : L2capChan → Bool} {i : Fin maxL2capChans}
    (h : st.findSlot p = some i) : p (st.chans i) = true := by
  have := List.find?_some h
  exact this

theorem updateFirst_chans (st : L2capState) (p : L2capChan → Bool) (f : L2capChan → L2capChan)
    (i : Fin maxL2capChans) :
    (st.updateFirst p f).chans i =
      if st.findSlot p = some i then f (st.chans i) else st.chans i := by
  rw [updateFirst]
  cases hfind : st.findSlot p with
  | none => rfl
  | some j =>
      dsimp only
      by_cases hij : i = j
      · rw [hij, Function.update_self, if_pos rfl]
      · rw [Function.update_of_ne hij, if_neg fun h => hij (Option.some.inj h).symm]

/-- A slot that does not meet the condition stays as it is. -/
theorem updateFirst_chans_of_not {p : L2capChan → Bool} {f : L2capChan → L2capChan}
    {i : Fin maxL2capChans} (h : p (st.chans i) = false) :
    (st.updateFirst p f).chans i = st.chans i := by
  rw [updateFirst_chans]
  refine if_neg fun hfind => ?_
  rw [findSlot_eq_some hfind] at h
  cases h

/-- A slot of no other connection is of no other connection afterwards, if the change makes it so.
-/
theorem updateFirst_not_foreign {p : L2capChan → Bool} {f : L2capChan → L2capChan}
    {i : Fin maxL2capChans} (h : ¬ (st.chans i).Foreign hcon)
    (hf : ∀ c, p c = true → ¬ c.Foreign hcon → ¬ (f c).Foreign hcon) :
    ¬ ((st.updateFirst p f).chans i).Foreign hcon := by
  rw [updateFirst_chans]
  split
  · exact hf _ (findSlot_eq_some ‹_›) h
  · exact h

/-- `CONN_REQ` takes a free slot. -/
theorem handleConnReq_foreign {i : Fin maxL2capChans} (h : (st.chans i).Foreign hcon)
    (ident : BitVec 8) (p : List (BitVec 8)) :
    (st.handleConnReq hcon ident p).chans i = st.chans i := by
  rw [handleConnReq]
  split
  · rfl
  · dsimp only
    split
    · exact updateFirst_chans_of_not (by simp [h.1])
    · rfl

/-- `CONF_REQ` is looked up in the channels of the connection. -/
theorem handleConfReq_foreign {i : Fin maxL2capChans} (h : (st.chans i).Foreign hcon)
    (ident : BitVec 8) (p : List (BitVec 8)) :
    (st.handleConfReq hcon ident p).chans i = st.chans i := by
  rw [handleConfReq]
  split
  · rfl
  · exact updateFirst_chans_of_not (by simp [h.2])

/-- `DISCONN_REQ` is looked up in the channels of the connection. -/
theorem handleDisconnReq_foreign {i : Fin maxL2capChans} (h : (st.chans i).Foreign hcon)
    (ident : BitVec 8) (p : List (BitVec 8)) :
    (st.handleDisconnReq hcon ident p).chans i = st.chans i := by
  rw [handleDisconnReq]
  split
  · rfl
  · exact updateFirst_chans_of_not (by simp [h.2])

/-- A command that is looked up in all connections is applied to the first channel with the
identifier. -/
theorem handleCommand_reply {cmd : SigCommand}
    (h : cmd.code = SigCommand.connRsp ∨ cmd.code = SigCommand.confRsp ∨
      cmd.code = SigCommand.disconnRsp) :
    st.handleCommand hcon cmd =
      match cmd.replyScid with
      | some scid =>
          st.updateFirst (fun slot => slot.valid && slot.scid == scid) cmd.replyEffect
      | none => st := by
  rcases h with h | h | h
  · have hcommand : st.handleCommand hcon cmd = st.handleConnRsp hcon cmd.ident cmd.params := by
      rw [handleCommand, if_neg (by rw [h]; decide), if_pos h]
    rw [hcommand, handleConnRsp, cmd.replyScid_connRsp h, cmd.replyEffect_connRsp h]
    by_cases hlen : cmd.params.length < 8
    · simp [hlen]
    · by_cases hresult : leWord cmd.params 4 = 0#16 <;> simp [hlen, hresult]
  · have hcommand : st.handleCommand hcon cmd = st.handleConfRsp hcon cmd.ident cmd.params := by
      rw [handleCommand, if_neg (by rw [h]; decide), if_neg (by rw [h]; decide),
        if_neg (by rw [h]; decide), if_pos h]
    rw [hcommand, handleConfRsp, cmd.replyScid_confRsp h, cmd.replyEffect_confRsp h]
    by_cases hlen : cmd.params.length < 4
    · simp [hlen]
    · by_cases hresult : leWord cmd.params 2 = 0#16 <;> simp [hlen, hresult]
  · have hcommand : st.handleCommand hcon cmd = st.handleDisconnRsp hcon cmd.ident cmd.params := by
      rw [handleCommand, if_neg (by rw [h]; decide), if_neg (by rw [h]; decide),
        if_neg (by rw [h]; decide), if_neg (by rw [h]; decide), if_neg (by rw [h]; decide),
        if_pos h]
    rw [hcommand, handleDisconnRsp, cmd.replyScid_disconnRsp h, cmd.replyEffect_disconnRsp h]
    by_cases hlen : cmd.params.length < 4 <;> simp [hlen]

theorem replyScid_eq_none {cmd : SigCommand}
    (h : ¬ (cmd.code = SigCommand.connRsp ∨ cmd.code = SigCommand.confRsp ∨
      cmd.code = SigCommand.disconnRsp)) : cmd.replyScid = none := by
  push Not at h
  rw [SigCommand.replyScid, if_neg h.1, if_neg h.2.1, if_neg h.2.2]

/-- A command that is not a reply changes no channel of another connection, and one that is a reply
changes the channel that it is applied to. -/
theorem handleCommand_foreign (cmd : SigCommand) {i : Fin maxL2capChans}
    (h : (st.chans i).Foreign hcon) :
    (st.handleCommand hcon cmd).chans i =
      if st.repliesTo cmd = some i then cmd.replyEffect (st.chans i) else st.chans i := by
  by_cases hreply : cmd.code = SigCommand.connRsp ∨ cmd.code = SigCommand.confRsp ∨
      cmd.code = SigCommand.disconnRsp
  · rw [handleCommand_reply hreply, repliesTo]
    cases cmd.replyScid with
    | none => rfl
    | some scid => exact updateFirst_chans ..
  · rw [repliesTo, replyScid_eq_none hreply, if_neg (by simp), handleCommand]
    push Not at hreply
    obtain ⟨hconn, hconf, hdisconn⟩ := hreply
    rw [if_neg hconn, if_neg hconf, if_neg hdisconn]
    split
    · exact handleConnReq_foreign h ..
    · split
      · exact handleConfReq_foreign h ..
      · split
        · exact handleDisconnReq_foreign h ..
        · rfl

/-- A command makes no slot a channel of another connection. -/
theorem handleCommand_not_foreign (cmd : SigCommand) {i : Fin maxL2capChans}
    (h : ¬ (st.chans i).Foreign hcon) :
    ¬ ((st.handleCommand hcon cmd).chans i).Foreign hcon := by
  have hclosed : ∀ c : L2capChan,
      ¬ ({ c with state := .closed, valid := false } : L2capChan).Foreign hcon :=
    fun c hc => absurd hc.1 (by simp)
  rw [handleCommand]
  split
  · rw [handleConnReq]
    split
    · exact h
    · dsimp only
      split
      · exact updateFirst_not_foreign h fun _ _ _ hnew => hnew.2 rfl
      · exact h
  split
  · rw [handleConnRsp]
    dsimp only
    split
    · exact h
    · split
      · exact h
      · exact updateFirst_not_foreign h fun _ _ hc => hc
  split
  · rw [handleConfReq]
    split
    · exact h
    · exact updateFirst_not_foreign h fun _ _ hc => hc
  split
  · rw [handleConfRsp]
    dsimp only
    split
    · exact h
    · split
      · exact h
      · exact updateFirst_not_foreign h fun _ _ hc => hc
  split
  · rw [handleDisconnReq]
    split
    · exact h
    · exact updateFirst_not_foreign h fun c _ _ => hclosed c
  split
  · rw [handleDisconnRsp]
    split
    · exact h
    · exact updateFirst_not_foreign h fun c _ _ => hclosed c
  · exact h

/-! ### Frames -/

theorem handleSignaling_eq (hcon : BitVec 16) (st : L2capState) (data : List (BitVec 8)) :
    st.handleSignaling hcon data = (sigCommands data).foldl (handleCommand hcon) st := by
  induction st, data using handleSignaling.induct hcon with
  | case1 st code ident len₀ len₁ rest len hshort =>
      rw [handleSignaling, sigCommands]
      rw [if_pos hshort, if_pos hshort]
      rfl
  | case2 st code ident len₀ len₁ rest len hlong ih =>
      rw [handleSignaling, sigCommands]
      rw [if_neg hlong, if_neg hlong, ih]
      rfl
  | case3 st data hdata =>
      rw [handleSignaling, sigCommands]
      · rfl
      · exact hdata
      · exact hdata

theorem recvFrame_fst (hcon : BitVec 16) (st : L2capState) (data : List (BitVec 8)) :
    (st.recvFrame hcon data).1 = (frameCommands data).foldl (handleCommand hcon) st := by
  rw [recvFrame, frameCommands]
  dsimp only
  by_cases hshort : data.length < 4
  · rw [if_pos hshort, if_pos (.inl hshort)]
    rfl
  · rw [if_neg hshort]
    by_cases htrunc : data.length < 4 + (leWord data 0).toNat
    · rw [if_pos htrunc, if_pos (.inr htrunc)]
      rfl
    · rw [if_neg htrunc, if_neg (not_or.2 ⟨hshort, htrunc⟩)]
      by_cases hsig : leWord data 2 = l2capCidSignaling
      · rw [if_pos hsig, if_pos (.inl hsig)]
        exact handleSignaling_eq ..
      · rw [if_neg hsig]
        by_cases hle : leWord data 2 = l2capCidLeSignaling
        · rw [if_pos hle, if_pos (.inr hle)]
          exact handleSignaling_eq ..
        · rw [if_neg hle, if_neg (not_or.2 ⟨hsig, hle⟩)]
          split
          · rfl
          · split <;> rfl

/-- The handler is called for an open channel of the connection. -/
theorem dispatchToChan_eq_some {hcon dcid : BitVec 16} {st : L2capState} {data : List (BitVec 8)}
    {call : HandlerCall} (h : st.dispatchToChan hcon dcid data = some call) :
    call.hcon = hcon ∧ ∃ i, (st.chans i).valid = true ∧ (st.chans i).hcon = hcon ∧
      (st.chans i).state = .open_ ∧ (st.chans i).scid = call.scid := by
  rw [dispatchToChan] at h
  split at h
  · cases h
  · rename_i i hfind
    have hmatch := findSlot_eq_some hfind
    simp only [Bool.and_eq_true, beq_iff_eq] at hmatch
    obtain ⟨⟨⟨hvalid, hhcon⟩, -⟩, hopen⟩ := hmatch
    dsimp only at h
    split at h
    · cases h
    · cases h
      exact ⟨rfl, i, hvalid, hhcon, hopen, rfl⟩

theorem recvFrame_call {hcon : BitVec 16} {st : L2capState} {data : List (BitVec 8)}
    {call : HandlerCall} (h : call ∈ (st.recvFrame hcon data).2) :
    call.hcon = hcon ∧ ∃ i, (st.chans i).valid = true ∧ (st.chans i).hcon = hcon ∧
      (st.chans i).state = .open_ ∧ (st.chans i).scid = call.scid := by
  rw [recvFrame] at h
  split at h
  · cases h
  · dsimp only at h
    split at h
    · cases h
    split at h
    · cases h
    split at h
    · cases h
    split at h
    · cases h
    split at h
    · cases h
    · exact dispatchToChan_eq_some h

/-! ### The replies applied to a channel -/

/-- A slot that is no channel of another connection does not become one. -/
theorem foldl_not_foreign {i : Fin maxL2capChans} (h : ¬ (st.chans i).Foreign hcon)
    (cmds : List SigCommand) :
    ¬ ((cmds.foldl (handleCommand hcon) st).chans i).Foreign hcon := by
  induction cmds generalizing st with
  | nil => exact h
  | cons cmd cmds ih => exact ih (handleCommand_not_foreign cmd h)

/-- A reply that is applied to a channel of another connection leaves it one, or closes it. -/
theorem replyEffect_foreign {c : L2capChan} (h : c.Foreign hcon) (cmd : SigCommand) :
    (cmd.replyEffect c).Foreign hcon ↔
      (cmd.code = SigCommand.connRsp ∨ cmd.code = SigCommand.confRsp) := by
  rw [SigCommand.replyEffect]
  split
  · exact iff_of_true h (.inl ‹_›)
  · rename_i hconn
    split
    · exact iff_of_true h (.inr ‹_›)
    · rename_i hconf
      exact iff_of_false (fun hclosed => absurd hclosed.1 (by simp)) (not_or.2 ⟨hconn, hconf⟩)

theorem reply_code {cmd : SigCommand} {i : Fin maxL2capChans} (h : st.repliesTo cmd = some i) :
    cmd.code = SigCommand.connRsp ∨ cmd.code = SigCommand.confRsp ∨
      cmd.code = SigCommand.disconnRsp := by
  by_contra hno
  rw [repliesTo, replyScid_eq_none hno] at h
  cases h

/-- A frame leaves a channel of another connection one, unless a reply closes it; and then it does
to it what the replies do that are applied to it. -/
theorem foldl_foreign {i : Fin maxL2capChans} (h : (st.chans i).Foreign hcon)
    (cmds : List SigCommand) :
    (((cmds.foldl (handleCommand hcon) st).chans i).Foreign hcon ↔
      ∀ cmd ∈ replies hcon i st cmds, cmd.code ≠ SigCommand.disconnRsp) ∧
    (((cmds.foldl (handleCommand hcon) st).chans i).Foreign hcon →
      (cmds.foldl (handleCommand hcon) st).chans i =
        (replies hcon i st cmds).foldl (fun c cmd => cmd.replyEffect c) (st.chans i)) := by
  induction cmds generalizing st with
  | nil => exact ⟨iff_of_true h (by simp [replies]), fun _ => rfl⟩
  | cons cmd cmds ih =>
      have hstep := handleCommand_foreign cmd h
      rw [List.foldl_cons, replies]
      by_cases hreply : st.repliesTo cmd = some i
      · rw [if_pos hreply] at hstep ⊢
        by_cases hopen : cmd.code = SigCommand.disconnRsp
        · -- the channel is closed, and stays so
          have hclosed : ¬ ((st.handleCommand hcon cmd).chans i).Foreign hcon := by
            rw [hstep, replyEffect_foreign h, hopen]
            decide
          have hlost := foldl_not_foreign hclosed cmds
          exact ⟨iff_of_false hlost fun hall => hall cmd List.mem_cons_self hopen,
            fun hforeign => absurd hforeign hlost⟩
        · -- the channel stays one of the other connection, and the rest of the frame follows
          have hforeign : ((st.handleCommand hcon cmd).chans i).Foreign hcon := by
            rw [hstep, replyEffect_foreign h]
            rcases reply_code hreply with hcode | hcode | hcode
            · exact .inl hcode
            · exact .inr hcode
            · exact absurd hcode hopen
          obtain ⟨hiff, heq⟩ := ih hforeign
          rw [List.forall_mem_cons, List.foldl_cons, ← hstep]
          exact ⟨hiff.trans (and_iff_right hopen).symm, heq⟩
      · rw [if_neg hreply] at hstep ⊢
        have hforeign : ((st.handleCommand hcon cmd).chans i).Foreign hcon := by rwa [hstep]
        rw [← hstep]
        exact ih hforeign

theorem code_of_mem_replies {i : Fin maxL2capChans} {cmds : List SigCommand} {cmd : SigCommand}
    (h : cmd ∈ replies hcon i st cmds) :
    cmd.code = SigCommand.connRsp ∨ cmd.code = SigCommand.confRsp ∨
      cmd.code = SigCommand.disconnRsp := by
  induction cmds generalizing st with
  | nil => cases h
  | cons cmd' cmds ih =>
      rw [replies] at h
      split at h
      · rcases List.mem_cons.1 h with rfl | h
        · exact reply_code ‹_›
        · exact ih h
      · exact ih h

end L2capState

/-- What replies that do not close the channel do to it: the last one that sets a field decides. -/
theorem L2capChan.foldl_replyEffect (c : L2capChan) (replies : List SigCommand)
    (h : ∀ cmd ∈ replies, cmd.code = SigCommand.connRsp ∨ cmd.code = SigCommand.confRsp) :
    replies.foldl (fun c cmd => cmd.replyEffect c) c =
      { c with
        dcid := (replies.filterMap SigCommand.replyDcid).getLast?.getD c.dcid
        confState := if ∃ cmd ∈ replies, cmd.code = SigCommand.confRsp then c.confState ||| 0x02#8
          else c.confState
        state :=
          (replies.filterMap (SigCommand.replyState c.confState)).getLast?.getD c.state } := by
  induction replies using List.reverseRecOn with
  | nil => simp
  | append_singleton replies cmd ih =>
      rw [List.forall_mem_append, List.forall_mem_singleton] at h
      rw [List.foldl_append, List.foldl_cons, List.foldl_nil, ih h.1]
      rcases h.2 with hcode | hcode
      · have hne : cmd.code ≠ SigCommand.confRsp := by rw [hcode]; decide
        have hdcid : [cmd].filterMap SigCommand.replyDcid = [leWord cmd.params 0] := by
          simp [SigCommand.replyDcid, hcode]
        have hstate : [cmd].filterMap (SigCommand.replyState c.confState) = [.config] := by
          simp [SigCommand.replyState, hcode]
        rw [cmd.replyEffect_connRsp hcode, List.filterMap_append, List.filterMap_append, hdcid,
          hstate, List.getLast?_concat, List.getLast?_concat]
        simp [hne, or_and_right, exists_or]
      · have hdcid : [cmd].filterMap SigCommand.replyDcid = [] := by
          simp [SigCommand.replyDcid, hcode, SigCommand.confRsp, SigCommand.connRsp]
        have hconf : (if ∃ cmd ∈ replies, cmd.code = SigCommand.confRsp then
            c.confState ||| 0x02#8 else c.confState) ||| 0x02#8 = c.confState ||| 0x02#8 := by
          split
          · rw [BitVec.or_assoc, BitVec.or_self]
          · rfl
        have hany : ∃ cmd' ∈ replies ++ [cmd], cmd'.code = SigCommand.confRsp :=
          ⟨cmd, by simp, hcode⟩
        -- the flag may be set already, by a reply before
        rw [cmd.replyEffect_confRsp hcode, List.filterMap_append, List.filterMap_append, hdcid,
          List.append_nil, if_pos hany]
        dsimp only
        rw [hconf]
        by_cases hopen : c.confState ||| 0x02#8 = 0x03#8
        · have hstate : [cmd].filterMap (SigCommand.replyState c.confState) = [.open_] := by
            simp [SigCommand.replyState, hcode, hopen, SigCommand.confRsp, SigCommand.connRsp]
          rw [if_pos hopen, hstate, List.getLast?_concat]
          rfl
        · have hstate : [cmd].filterMap (SigCommand.replyState c.confState) = [] := by
            simp [SigCommand.replyState, hcode, hopen, SigCommand.confRsp, SigCommand.connRsp]
          rw [if_neg hopen, hstate, List.append_nil]

theorem getD_eq_self_iff {α : Type*} (o : Option α) (a : α) : o.getD a = a ↔ ∀ b ∈ o, b = a := by
  cases o <;> simp

/-- Replies that do not close the channel leave it as it is exactly if they are harmless. -/
theorem L2capChan.foldl_replyEffect_eq_iff (c : L2capChan) (replies : List SigCommand)
    (h : ∀ cmd ∈ replies, cmd.code = SigCommand.connRsp ∨ cmd.code = SigCommand.confRsp) :
    replies.foldl (fun c cmd => cmd.replyEffect c) c = c ↔ c.Harmless replies := by
  have hopen : ∀ cmd ∈ replies, cmd.code ≠ SigCommand.disconnRsp := by
    intro cmd hcmd
    rcases h cmd hcmd with hcode | hcode <;> (rw [hcode]; decide)
  have hconf : (if ∃ cmd ∈ replies, cmd.code = SigCommand.confRsp then c.confState ||| 0x02#8
      else c.confState) = c.confState ↔
      ∀ cmd ∈ replies, cmd.code = SigCommand.confRsp → c.confState ||| 0x02#8 = c.confState := by
    split
    · rename_i hany
      obtain ⟨cmd, hcmd, hcode⟩ := hany
      exact ⟨fun heq _ _ _ => heq, fun hall => hall cmd hcmd hcode⟩
    · rename_i hnone
      exact iff_of_true rfl fun cmd hcmd hcode => absurd ⟨cmd, hcmd, hcode⟩ hnone
  rw [c.foldl_replyEffect replies h, L2capChan.ext_iff]
  constructor
  · intro heq
    exact ⟨hopen, hconf.1 heq.2.2.2.2.2.2.2.2.1, (getD_eq_self_iff _ _).1 heq.2.1,
      (getD_eq_self_iff _ _).1 heq.2.2.2.2.1⟩
  · intro hharmless
    exact ⟨rfl, (getD_eq_self_iff _ _).2 hharmless.dcid, rfl, rfl,
      (getD_eq_self_iff _ _).2 hharmless.state, rfl, rfl, rfl, hconf.2 hharmless.conf, rfl, rfl,
      rfl⟩

/-- For every table, every connection and every string of bytes: a frame leaves the channels of the
other connections as they are, and calls no handler for them, exactly if the replies in it that are
applied to each of these channels are harmless. -/
theorem l2cap_isolated_iff (hcon : BitVec 16) (st : L2capState) (data : List (BitVec 8)) :
    st.Isolated hcon data ↔
      ∀ i, (st.chans i).Foreign hcon → (st.chans i).Harmless (st.frameReplies hcon data i) := by
  have hslot : ∀ i, (st.chans i).Foreign hcon →
      ((st.recvFrame hcon data).1.chans i = st.chans i ↔
        (st.chans i).Harmless (st.frameReplies hcon data i)) := by
    intro i hforeign
    obtain ⟨hiff, heq⟩ := L2capState.foldl_foreign hforeign (L2capState.frameCommands data)
    rw [L2capState.recvFrame_fst]
    by_cases hopen : ∀ cmd ∈ st.frameReplies hcon data i, cmd.code ≠ SigCommand.disconnRsp
    · have hcodes : ∀ cmd ∈ st.frameReplies hcon data i,
          cmd.code = SigCommand.connRsp ∨ cmd.code = SigCommand.confRsp := by
        intro cmd hcmd
        rcases L2capState.code_of_mem_replies hcmd with hcode | hcode | hcode
        · exact .inl hcode
        · exact .inr hcode
        · exact absurd hcode (hopen cmd hcmd)
      rw [heq (hiff.2 hopen)]
      exact L2capChan.foldl_replyEffect_eq_iff _ _ hcodes
    · -- a reply closes the channel, and nothing brings it back
      refine iff_of_false (fun hsame => hopen (hiff.1 ?_)) fun hharmless => hopen hharmless.open_
      rwa [hsame]
  constructor
  · intro h i hforeign
    exact (hslot i hforeign).1 (h.1 i hforeign)
  · intro h
    exact ⟨fun i hforeign => (hslot i hforeign).2 (h i hforeign),
      fun call hcall => L2capState.recvFrame_call hcall⟩

/-- The first slot of the table. -/
def firstChannel : Fin maxL2capChans := ⟨0, by decide⟩

/-- A table with one channel, on connection `1`. -/
def oneChannel : L2capState where
  chans i :=
    if i = firstChannel then
      { L2capChan.empty with scid := 0x40#16, psm := 3#16, hcon := 1#16, state := .waitConn,
                             valid := true }
    else L2capChan.empty
  psmReg _ := ⟨0#16, 0, false⟩
  nextCid := 0x41#16

/-- A signalling frame with one `DISCONN_RSP`. -/
def disconnRspFrame : List (BitVec 8) :=
  [8#8, 0#8, 1#8, 0#8, 7#8, 1#8, 4#8, 0#8, 0x40#8, 0#8, 0x50#8, 0#8]

/-- A `DISCONN_RSP` that arrives on connection `2` closes the channel of connection `1`. -/
theorem l2cap_disconnects_other :
    (oneChannel.chans firstChannel).valid = true ∧
      (oneChannel.chans firstChannel).hcon = 1#16 ∧
      ((oneChannel.recvFrame 2#16 disconnRspFrame).1.chans firstChannel).valid = false ∧
      ¬ oneChannel.Isolated 2#16 disconnRspFrame := by
  have hcommands : L2capState.frameCommands disconnRspFrame =
      [⟨7#8, 1#8, [0x40#8, 0#8, 0x50#8, 0#8]⟩] := by
    simp [L2capState.frameCommands, disconnRspFrame, leWord, l2capCidSignaling,
      L2capState.sigCommands]
  have hclosed :
      ((oneChannel.recvFrame 2#16 disconnRspFrame).1.chans firstChannel).valid = false := by
    rw [L2capState.recvFrame_fst, hcommands]
    decide +kernel
  refine ⟨rfl, rfl, hclosed, fun h => ?_⟩
  rw [h.1 firstChannel ⟨rfl, by decide⟩] at hclosed
  cases hclosed

end StarOS
