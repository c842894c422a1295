/-
Two hosts that set up a channel.

Host A waits for the answer to its `CONN_REQ`, and each host sends a `CONF_REQ`; the messages, and
the responses to them, arrive in any order.  The response to a `CONN_REQ` names the two channels in
the order in which the other host does not read them, and the response to a `CONF_REQ` names the
channel of the host that sends it.  So nothing that arrives at A is taken for its channel, unless
both hosts happen to use the same identifier.  Then a configuration that arrives early opens the
channel of A before it is connected.

* `StarOS.PeerState`, `StarOS.Peers`, `StarOS.Peers.system` — the hosts, the messages in flight, and
  the runs;
* `StarOS.Peers.Law` — what is asked of the two channels;
* `StarOS.Peers.Fit`, `StarOS.Peers.Guard` — the conditions on the start, and on the steps;
* `StarOS.l2cap_peers_agree` — the hosts agree in every state of a run that meets the conditions;
* `StarOS.l2cap_opens_unconnected` — a channel that opens without a connection.
-/

import StarOS.L2capFrames

set_option autoImplicit false

namespace StarOS

/-! ### Runs -/

/-- A message to one of the hosts. -/
structure PeerMsg where
  toB : Bool
  data : List (BitVec 8)
  deriving DecidableEq, Repr

/-- The two hosts, the messages in flight, and those that have arrived. -/
structure PeerState where
  a : L2capState
  b : L2capState
  flight : List PeerMsg
  seen : List PeerMsg

/-- The setting: the handles that the hosts have for their connection, the protocol, the channel of
A with its slot, and the hosts; the rest of the first messages is arbitrary. -/
structure Peers where
  hconA : BitVec 16
  hconB : BitVec 16
  psm : BitVec 16
  cidA : BitVec 16
  slot : Fin maxL2capChans
  a : L2capState
  b : L2capState
  connIdent : BitVec 8
  confIdentA : BitVec 8
  confIdentB : BitVec 8
  optsA : List (BitVec 8)
  optsB : List (BitVec 8)

namespace Peers

/-- The identifier that B gives to its channel. -/
def cidB (p : Peers) : BitVec 16 := p.b.nextCid

/-- The messages of a run: the first three are in flight at the start, the others are responses. -/
inductive Kind where
  | connReq | confReqToB | confReqToA | connRsp | confRspToA | confRspToB
  deriving DecidableEq, Repr

/-- Whether a message goes to B. -/
def Kind.toB : Kind → Bool
  | .connReq | .confReqToB | .confRspToB => true
  | .confReqToA | .connRsp | .confRspToA => false

/-- The command of a message. -/
def command (p : Peers) : Kind → SigCommand
  | .connReq => ⟨SigCommand.connReq, p.connIdent, leBytes16 p.psm ++ leBytes16 p.cidA⟩
  | .confReqToB => ⟨SigCommand.confReq, p.confIdentA, leBytes16 p.cidB ++ p.optsA⟩
  | .confReqToA => ⟨SigCommand.confReq, p.confIdentB, leBytes16 p.cidA ++ p.optsB⟩
  | .connRsp => ⟨SigCommand.connRsp, p.connIdent, leBytes16 p.cidA ++ (leBytes16 p.cidB ++
      (leBytes16 L2capResult.success ++ leBytes16 0#16))⟩
  | .confRspToA => ⟨SigCommand.confRsp, p.confIdentA, leBytes16 p.cidB ++ leBytes16 0#16⟩
  | .confRspToB => ⟨SigCommand.confRsp, p.confIdentB, leBytes16 p.cidA ++ leBytes16 0#16⟩

/-- A message. -/
def msg (p : Peers) (k : Kind) : PeerMsg :=
  ⟨k.toB, sigFrame (p.command k).code (p.command k).ident (p.command k).params⟩

/-- The start: the `CONN_REQ` of A and the `CONF_REQ` of each host are in flight. -/
def start (p : Peers) : PeerState :=
  ⟨p.a, p.b, [p.msg .connReq, p.msg .confReqToB, p.msg .confReqToA], []⟩

/-- A message arrives, and the responses to it are in flight. -/
def deliver (p : Peers) (s : PeerState) (m : PeerMsg) : PeerState :=
  if m.toB then
    let (b, out) := s.b.receive p.hconB m.data
    ⟨s.a, b, s.flight.erase m ++ out.map (PeerMsg.mk false), m :: s.seen⟩
  else
    let (a, out) := s.a.receive p.hconA m.data
    ⟨a, s.b, s.flight.erase m ++ out.map (PeerMsg.mk true), m :: s.seen⟩

/-- The runs: the messages in flight arrive in any order. -/
def system (p : Peers) : Runs.System PeerState PeerMsg where
  init s := s = p.start
  step s m s' := m ∈ s.flight ∧ s' = p.deliver s m

/-- The setting of a connection: the channel of A is as `l2cap_chan_create` leaves it, B has a
handler for the protocol, and the tables of both hosts are in order. -/
structure Ok (p : Peers) : Prop where
  valid : (p.a.chans p.slot).valid = true
  scid : (p.a.chans p.slot).scid = p.cidA
  hcon : (p.a.chans p.slot).hcon = p.hconA
  psm : (p.a.chans p.slot).psm = p.psm
  state : (p.a.chans p.slot).state = .waitConn
  confState : (p.a.chans p.slot).confState = 0#8
  registered : p.b.hasPsm p.psm = true
  countedA : p.a.Counted
  countedB : p.b.Counted
  optsA : p.optsA.length < 2 ^ 15
  optsB : p.optsB.length < 2 ^ 15

end Peers

/-! ### The law -/

namespace SigCommand

/-- A `CONN_RSP` that reports success. -/
def ConnAccepted (cmd : SigCommand) : Prop := cmd.code = connRsp ∧ leWord cmd.params 4 = 0#16

/-- A `CONF_RSP` that reports success. -/
def ConfAccepted (cmd : SigCommand) : Prop := cmd.code = confRsp ∧ leWord cmd.params 2 = 0#16

end SigCommand

/-- A host has received a command. -/
def PeerState.Received (s : PeerState) (toB : Bool) (P : SigCommand → Prop) : Prop :=
  ∃ m ∈ s.seen, m.toB = toB ∧ ∃ cmd ∈ L2capState.frameCommands m.data, P cmd

/-- The handler of a protocol. -/
def L2capState.handlerOf (st : L2capState) (psm : BitVec 16) : Option ℕ :=
  ((List.finRange maxPsm).find? fun k => (st.psmReg k).valid && (st.psmReg k).psm == psm).map
    fun k => (st.psmReg k).handler

/-- What is sent on the channel `scid` of one host is handed to the other host's handler as coming
from its channel `peer`. -/
def Delivers (src dst : L2capState) (scid peer hcon psm : BitVec 16) : Prop :=
  ∀ data, ∃ frame, l2capSend src scid data = .ok frame ∧ ∀ h, dst.handlerOf psm = some h →
    ∃ call, (dst.recvFrame hcon frame).2 = some call ∧ call.handler = h ∧ call.hcon = hcon ∧
      call.scid = peer ∧ (data.length < 2 ^ 16 → call.data = data)

namespace Peers

/-- The channel of A. -/
def chanA (p : Peers) (s : PeerState) : L2capChan := s.a.chans p.slot

/-- The channel of B, in slot `j`. -/
def IsChanB (p : Peers) (s : PeerState) (j : Fin maxL2capChans) : Prop :=
  (s.b.chans j).valid = true ∧ (s.b.chans j).hcon = p.hconB ∧ (s.b.chans j).scid = p.cidB

/-- What is asked of the two channels. -/
structure Law (p : Peers) (s : PeerState) : Prop where
  agrees : (p.chanA s).state ≠ .waitConn → ∃ j, p.IsChanB s j ∧
    (p.chanA s).dcid = (s.b.chans j).scid ∧ (s.b.chans j).dcid = p.cidA
  openA : (p.chanA s).state = .open_ →
    s.Received false SigCommand.ConnAccepted ∧
    s.Received false (fun cmd => cmd.code = SigCommand.confReq) ∧
    s.Received false SigCommand.ConfAccepted
  openB : ∀ j, p.IsChanB s j → (s.b.chans j).state = .open_ →
    s.Received true (fun cmd => cmd.code = SigCommand.connReq) ∧
    s.Received true (fun cmd => cmd.code = SigCommand.confReq) ∧
    s.Received true SigCommand.ConfAccepted
  delivers : ∀ j, p.IsChanB s j → (p.chanA s).state = .open_ → (s.b.chans j).state = .open_ →
    Delivers s.a s.b p.cidA p.cidB p.hconB p.psm ∧ Delivers s.b s.a p.cidB p.cidA p.hconA p.psm

/-- Where both hosts use the same identifier: B has a free slot, and no other open channel of the
connection has this identifier as that of its peer. -/
structure Fit (p : Peers) : Prop where
  room : p.b.HasRoom
  aloneA : ∀ i, i ≠ p.slot → (p.a.chans i).valid = true → (p.a.chans i).hcon = p.hconA →
    (p.a.chans i).state = .open_ → (p.a.chans i).dcid ≠ p.cidA
  aloneB : ∀ i, (p.b.chans i).valid = true → (p.b.chans i).hcon = p.hconB →
    (p.b.chans i).state = .open_ → (p.b.chans i).dcid ≠ p.cidB

/-- Where both hosts use the same identifier: of the messages that configure the channel of A only
one arrives while it waits for its connection. -/
def Guard (p : Peers) (s : PeerState) (m : PeerMsg) : Prop :=
  p.cidA = p.cidB → m.toB = false → ∀ cmd ∈ L2capState.frameCommands m.data,
    cmd.code = SigCommand.confReq ∨ cmd.code = SigCommand.confRsp →
      (p.chanA s).state = .waitConn → (p.chanA s).confState = 0#8

end Peers

/-! ### What the commands do -/

theorem SigCommand.connRsp_ne : connRsp ≠ connReq := by decide

theorem SigCommand.confReq_ne : confReq ≠ connReq ∧ confReq ≠ connRsp := by decide

theorem SigCommand.confRsp_ne :
    confRsp ≠ connReq ∧ confRsp ≠ connRsp ∧ confRsp ≠ confReq := by decide

/-- A channel that one of the two configuration messages has reached. -/
def L2capChan.configured (bit : BitVec 8) (c : L2capChan) : L2capChan :=
  { c with
    confState := c.confState ||| bit
    state := if c.confState ||| bit = 0x03#8 then .open_ else c.state }

/-- A channel that a `CONN_RSP` has reached. -/
def L2capChan.connected (dcid : BitVec 16) (c : L2capChan) : L2capChan :=
  { c with dcid := dcid, state := .config }

namespace L2capState

variable {st : L2capState} {hcon : BitVec 16} {i : Fin maxL2capChans}

/-- The slot that alone meets the condition is found. -/
theorem findSlot_of_unique {p : L2capChan → Bool} (hi : p (st.chans i) = true)
    (hall : ∀ j, p (st.chans j) = true → j = i) : st.findSlot p = some i := by
  cases hfind : st.findSlot p with
  | none => exact absurd hi (List.find?_eq_none.1 hfind i (List.mem_finRange i))
  | some j => rw [hall j (findSlot_eq_some hfind)]

/-- Only one slot meets the condition. -/
theorem updateFirst_of_unique {p : L2capChan → Bool} (f : L2capChan → L2capChan)
    (hi : p (st.chans i) = true) (hall : ∀ j, p (st.chans j) = true → j = i) :
    st.updateFirst p f = { st with chans := Function.update st.chans i (f (st.chans i)) } := by
  rw [updateFirst, findSlot_of_unique hi hall]

/-- No slot meets the condition. -/
theorem updateFirst_of_none {p : L2capChan → Bool} (f : L2capChan → L2capChan)
    (hall : ∀ j, p (st.chans j) = false) : st.updateFirst p f = st := by
  have hfind : st.findSlot p = none := by
    refine List.find?_eq_none.2 fun j _ => ?_
    rw [hall j]
    exact Bool.false_ne_true
  rw [updateFirst, hfind]

theorem updateFirst_nextCid (p : L2capChan → Bool) (f : L2capChan → L2capChan) :
    (st.updateFirst p f).nextCid = st.nextCid := by
  rw [updateFirst]
  split <;> rfl

theorem updateFirst_psmReg (p : L2capChan → Bool) (f : L2capChan → L2capChan) :
    (st.updateFirst p f).psmReg = st.psmReg := by
  rw [updateFirst]
  split <;> rfl

/-- A slot that does not meet the condition, or that the change leaves as it is in some respect. -/
theorem updateFirst_chans_cases (p : L2capChan → Bool) (f : L2capChan → L2capChan)
    (i : Fin maxL2capChans) : (st.updateFirst p f).chans i = st.chans i ∨
      (p (st.chans i) = true ∧ (st.updateFirst p f).chans i = f (st.chans i)) := by
  rw [updateFirst_chans]
  split
  · exact .inr ⟨findSlot_eq_some ‹_›, rfl⟩
  · exact .inl rfl

theorem handleCommand_confReq (ident : BitVec 8) (cid : BitVec 16) (opts : List (BitVec 8)) :
    st.handleCommand hcon ⟨SigCommand.confReq, ident, leBytes16 cid ++ opts⟩ =
      st.updateFirst (fun slot => slot.valid && slot.hcon == hcon && slot.scid == cid)
        (L2capChan.configured 0x01#8) := by
  rw [handleCommand, if_neg SigCommand.confReq_ne.1, if_neg SigCommand.confReq_ne.2, if_pos rfl,
    handleConfReq, leWord_leBytes16]
  refine if_neg ?_
  rw [List.length_append, leBytes16_length]
  omega

theorem handleCommand_confRsp (ident : BitVec 8) (cid : BitVec 16) :
    st.handleCommand hcon ⟨SigCommand.confRsp, ident, leBytes16 cid ++ leBytes16 0#16⟩ =
      st.updateFirst (fun slot => slot.valid && slot.scid == cid)
        (L2capChan.configured 0x02#8) := by
  have hresult : leWord (leBytes16 cid ++ leBytes16 0#16) 2 = 0#16 := by
    rw [leWord_two, ← List.append_nil (leBytes16 0#16), leWord_leBytes16]
  rw [handleCommand, if_neg SigCommand.confRsp_ne.1, if_neg SigCommand.confRsp_ne.2.1,
    if_neg SigCommand.confRsp_ne.2.2, if_pos rfl, handleConfRsp, leWord_leBytes16, hresult]
  rfl

theorem handleCommand_connRsp (ident : BitVec 8) (dcid scid : BitVec 16) :
    st.handleCommand hcon ⟨SigCommand.connRsp, ident, leBytes16 dcid ++ (leBytes16 scid ++
        (leBytes16 L2capResult.success ++ leBytes16 0#16))⟩ =
      st.updateFirst (fun slot => slot.valid && slot.scid == scid) (L2capChan.connected dcid) := by
  rw [handleCommand, if_neg SigCommand.connRsp_ne, if_pos rfl, handleConnRsp, leWord_leBytes16,
    leWord_two, leWord_leBytes16, leWord_four, leWord_leBytes16]
  rfl

theorem handleCommand_connReq' (ident : BitVec 8) {psm : BitVec 16} (dcid : BitVec 16)
    (hpsm : st.hasPsm psm = true) :
    st.handleCommand hcon ⟨SigCommand.connReq, ident, leBytes16 psm ++ leBytes16 dcid⟩ =
      ({ st with nextCid := afterCid st.nextCid } : L2capState).updateFirst
        (fun slot => !slot.valid)
        fun _ => acceptedChan hcon st.nextCid ident (leBytes16 psm ++ leBytes16 dcid) := by
  rw [handleCommand_connReq hcon rfl, handleConnReq_eq (Nat.le_refl _)]
  rwa [leWord_leBytes16]

theorem commandResponse_connReq (ident : BitVec 8) {psm : BitVec 16} (dcid : BitVec 16)
    (hpsm : st.hasPsm psm = true) :
    st.commandResponse hcon ⟨SigCommand.connReq, ident, leBytes16 psm ++ leBytes16 dcid⟩ =
      [sendConnRsp ⟨hcon, ident, st.nextCid, dcid, L2capResult.success⟩] := by
  have hdcid : leWord (leBytes16 psm ++ leBytes16 dcid) 2 = dcid := by
    rw [leWord_two, ← List.append_nil (leBytes16 dcid), leWord_leBytes16]
  rw [commandResponse, if_pos rfl, connReqResponse_eq (Nat.le_refl _), hdcid]
  · rfl
  · rwa [leWord_leBytes16]

theorem commandResponse_confReq (ident : BitVec 8) (cid : BitVec 16) (opts : List (BitVec 8)) :
    st.commandResponse hcon ⟨SigCommand.confReq, ident, leBytes16 cid ++ opts⟩ =
      [sendConfRsp ident cid 0#16] := by
  rw [commandResponse, if_neg SigCommand.confReq_ne.1, if_pos rfl, leWord_leBytes16]
  refine if_neg ?_
  rw [List.length_append, leBytes16_length]
  omega

theorem commandResponse_of_reply {cmd : SigCommand}
    (h : cmd.code = SigCommand.connRsp ∨ cmd.code = SigCommand.confRsp) :
    st.commandResponse hcon cmd = [] := by
  rw [commandResponse]
  rcases h with h | h <;> rw [h] <;> rfl

end L2capState

/-! ### Messages -/

namespace Peers

variable {p : Peers} {s s' : PeerState}

/-- A message carries its command. -/
theorem frameCommands_msg (h : p.Ok) (k : Kind) :
    L2capState.frameCommands (p.msg k).data = [p.command k] := by
  have hA := h.optsA
  have hB := h.optsB
  refine frameCommands_sigFrame _ _ ?_
  cases k <;> simp only [command, List.length_append, leBytes16_length] <;> omega

theorem code_of_msg_eq (h : p.Ok) {k k' : Kind} (heq : p.msg k = p.msg k') :
    (p.command k).code = (p.command k').code := by
  have hcmd : [p.command k] = [p.command k'] := by
    rw [← frameCommands_msg h k, heq, frameCommands_msg h]
  exact congrArg SigCommand.code (List.singleton_inj.1 hcmd)

/-- Only the first message is a `CONN_REQ`. -/
theorem msg_ne_connReq (h : p.Ok) {k : Kind} (hk : k ≠ .connReq) :
    p.msg k ≠ p.msg .connReq := by
  intro heq
  have hcode := code_of_msg_eq h heq
  cases k with
  | connReq => exact hk rfl
  | confReqToB | confReqToA => exact SigCommand.confReq_ne.1 hcode
  | connRsp => exact SigCommand.connRsp_ne hcode
  | confRspToA | confRspToB => exact SigCommand.confRsp_ne.1 hcode

theorem deliver_toB (h : p.Ok) {k : Kind} (hk : k.toB = true) :
    p.deliver s (p.msg k) =
      ⟨s.a, s.b.handleCommand p.hconB (p.command k), s.flight.erase (p.msg k) ++
        (s.b.commandResponse p.hconB (p.command k)).map (PeerMsg.mk false), p.msg k :: s.seen⟩ := by
  have htoB : (p.msg k).toB = true := hk
  rw [deliver, if_pos htoB, L2capState.receive_of_singleton (frameCommands_msg h k)]

theorem deliver_toA (h : p.Ok) {k : Kind} (hk : k.toB = false) :
    p.deliver s (p.msg k) =
      ⟨s.a.handleCommand p.hconA (p.command k), s.b, s.flight.erase (p.msg k) ++
        (s.a.commandResponse p.hconA (p.command k)).map (PeerMsg.mk true), p.msg k :: s.seen⟩ := by
  have htoB : ¬ (p.msg k).toB = true := by
    change ¬ k.toB = true
    rw [hk]
    exact Bool.false_ne_true
  rw [deliver, if_neg htoB, L2capState.receive_of_singleton (frameCommands_msg h k)]

/-! ### The messages in flight -/

/-- The messages that a message is answered with. -/
def responses : Kind → List Kind
  | .connReq => [.connRsp]
  | .confReqToB => [.confRspToA]
  | .confReqToA => [.confRspToB]
  | _ => []

/-- What is in flight are the messages of the setting, the `CONN_REQ` at most once, and before it
arrives B has not taken the identifier. -/
structure Wire (p : Peers) (s : PeerState) : Prop where
  known : ∀ m ∈ s.flight, ∃ k, m = p.msg k
  once : s.flight.count (p.msg .connReq) ≤ 1
  fresh : p.msg .connReq ∈ s.flight → s.b.nextCid = p.cidB
  psmA : s.a.psmReg = p.a.psmReg
  psmB : s.b.psmReg = p.b.psmReg

theorem wire_start (h : p.Ok) : p.Wire p.start where
  known m hm := by
    simp only [start, List.mem_cons, List.not_mem_nil, or_false] at hm
    rcases hm with rfl | rfl | rfl
    · exact ⟨_, rfl⟩
    · exact ⟨_, rfl⟩
    · exact ⟨_, rfl⟩
  once := by
    have h₁ : p.msg .confReqToB ≠ p.msg .connReq := msg_ne_connReq h (by decide)
    have h₂ : p.msg .confReqToA ≠ p.msg .connReq := msg_ne_connReq h (by decide)
    rw [start, List.count_cons_self, List.count_cons_of_ne h₁, List.count_cons_of_ne h₂,
      List.count_nil]
  fresh _ := rfl
  psmA := rfl
  psmB := rfl

theorem Wire.hasPsm (hw : p.Wire s) (h : p.Ok) : s.b.hasPsm p.psm = true := by
  have hreg := h.registered
  rw [L2capState.hasPsm] at hreg ⊢
  rwa [hw.psmB]

/-- What a message does: the receiving host handles its command, and the responses are sent. -/
theorem Wire.deliver_eq (hw : p.Wire s) (h : p.Ok) {k : Kind} (hk : p.msg k ∈ s.flight) :
    p.deliver s (p.msg k) =
      ⟨if k.toB then s.a else s.a.handleCommand p.hconA (p.command k),
        if k.toB then s.b.handleCommand p.hconB (p.command k) else s.b,
        s.flight.erase (p.msg k) ++ (responses k).map p.msg, p.msg k :: s.seen⟩ := by
  cases k with
  | connReq =>
      have hresp : s.b.commandResponse p.hconB (p.command .connReq) = _ :=
        L2capState.commandResponse_connReq p.connIdent p.cidA (hw.hasPsm h)
      rw [deliver_toB h rfl, hresp, hw.fresh hk]
      rfl
  | confReqToB =>
      have hresp : s.b.commandResponse p.hconB (p.command .confReqToB) = _ :=
        L2capState.commandResponse_confReq p.confIdentA p.cidB p.optsA
      rw [deliver_toB h rfl, hresp]
      rfl
  | confReqToA =>
      have hresp : s.a.commandResponse p.hconA (p.command .confReqToA) = _ :=
        L2capState.commandResponse_confReq p.confIdentB p.cidA p.optsB
      rw [deliver_toA h rfl, hresp]
      rfl
  | connRsp => rw [deliver_toA h rfl, L2capState.commandResponse_of_reply (.inl rfl)]; rfl
  | confRspToA => rw [deliver_toA h rfl, L2capState.commandResponse_of_reply (.inr rfl)]; rfl
  | confRspToB => rw [deliver_toB h rfl, L2capState.commandResponse_of_reply (.inr rfl)]; rfl

/-- No command changes the protocols. -/
theorem handleCommand_psmReg {st : L2capState} {hcon : BitVec 16} {k : Kind}
    (hpsm : k = .connReq → st.hasPsm p.psm = true) :
    (st.handleCommand hcon (p.command k)).psmReg = st.psmReg := by
  cases k with
  | connReq =>
      rw [command, L2capState.handleCommand_connReq' _ _ (hpsm rfl), L2capState.updateFirst_psmReg]
  | confReqToB | confReqToA =>
      rw [command, L2capState.handleCommand_confReq, L2capState.updateFirst_psmReg]
  | connRsp => rw [command, L2capState.handleCommand_connRsp, L2capState.updateFirst_psmReg]
  | confRspToA | confRspToB =>
      rw [command, L2capState.handleCommand_confRsp, L2capState.updateFirst_psmReg]

/-- Only a `CONN_REQ` takes an identifier. -/
theorem handleCommand_nextCid {st : L2capState} {hcon : BitVec 16} {k : Kind}
    (hk : k ≠ .connReq) : (st.handleCommand hcon (p.command k)).nextCid = st.nextCid := by
  cases k with
  | connReq => exact absurd rfl hk
  | confReqToB | confReqToA =>
      rw [command, L2capState.handleCommand_confReq, L2capState.updateFirst_nextCid]
  | connRsp => rw [command, L2capState.handleCommand_connRsp, L2capState.updateFirst_nextCid]
  | confRspToA | confRspToB =>
      rw [command, L2capState.handleCommand_confRsp, L2capState.updateFirst_nextCid]

/-- A `CONN_REQ` is not sent again. -/
theorem Wire.connReq_mem (hw : p.Wire s) (h : p.Ok) {k : Kind}
    (hmem : p.msg .connReq ∈ s.flight.erase (p.msg k) ++ (responses k).map p.msg) :
    k ≠ .connReq ∧ p.msg .connReq ∈ s.flight := by
  rcases List.mem_append.1 hmem with hold | hnew
  · refine ⟨?_, List.mem_of_mem_erase hold⟩
    rintro rfl
    have hcount := List.count_pos_iff.2 hold
    rw [List.count_erase_self] at hcount
    have honce := hw.once
    omega
  · obtain ⟨k', hk', heq⟩ := List.mem_map.1 hnew
    have hne : k' ≠ .connReq := by
      rintro rfl
      cases k <;> simp [responses] at hk'
    exact absurd heq (msg_ne_connReq h hne)

theorem Wire.deliver (hw : p.Wire s) (h : p.Ok) {k : Kind} (hk : p.msg k ∈ s.flight) :
    p.Wire (p.deliver s (p.msg k)) := by
  rw [hw.deliver_eq h hk]
  refine ⟨fun m hm => ?_, ?_, fun hmem => ?_, ?_, ?_⟩
  · rcases List.mem_append.1 hm with hold | hnew
    · exact hw.known m (List.mem_of_mem_erase hold)
    · obtain ⟨k', -, rfl⟩ := List.mem_map.1 hnew
      exact ⟨k', rfl⟩
  · have hnew : ((responses k).map p.msg).count (p.msg .connReq) = 0 := by
      refine List.count_eq_zero.2 fun hmem => ?_
      obtain ⟨k', hk', heq⟩ := List.mem_map.1 hmem
      have hne : k' ≠ .connReq := by
        rintro rfl
        cases k <;> simp [responses] at hk'
      exact msg_ne_connReq h hne heq
    rw [List.count_append, hnew]
    exact ((s.flight.erase_sublist).count_le _).trans hw.once
  · obtain ⟨hne, hold⟩ := hw.connReq_mem h hmem
    dsimp only
    split
    · rw [handleCommand_nextCid hne, hw.fresh hold]
    · exact hw.fresh hold
  · dsimp only
    split
    · exact hw.psmA
    · rename_i hto
      have hpsm : k = .connReq → s.a.hasPsm p.psm = true := by
        rintro rfl
        exact absurd rfl hto
      rw [handleCommand_psmReg hpsm, hw.psmA]
  · dsimp only
    split
    · rw [handleCommand_psmReg fun _ => hw.hasPsm h, hw.psmB]
    · exact hw.psmB

/-! ### Hosts that use different identifiers -/

/-- The configuration of a channel is not complete: `CONF_REQ` has reached it, or nothing. -/
def HalfConfigured (c : L2capChan) : Prop := c.confState = 0x00#8 ∨ c.confState = 0x01#8

theorem HalfConfigured.configured {c : L2capChan} (h : HalfConfigured c) :
    HalfConfigured (c.configured 0x01#8) ∧ (c.configured 0x01#8).state = c.state := by
  have hconf : c.confState ||| 0x01#8 = 0x01#8 := by
    rcases h with h | h <;> rw [h] <;> rfl
  have hhalf : (0x01#8) ≠ 0x03#8 := by decide
  rw [L2capChan.configured, hconf, if_neg hhalf]
  exact ⟨.inr rfl, rfl⟩

/-- The channel of A waits for its connection, and is not configured. -/
structure Waiting (p : Peers) (c : L2capChan) : Prop where
  waiting : c.state = .waitConn
  scid : c.scid = p.cidA
  half : HalfConfigured c

/-- A channel with the identifier of B's is not open. -/
def Unopened (p : Peers) (c : L2capChan) : Prop :=
  c.valid = true → c.scid = p.cidB → c.state ≠ .open_ ∧ HalfConfigured c

/-- Nothing but a `CONF_REQ` reaches either channel. -/
structure Apart (p : Peers) (s : PeerState) : Prop where
  waiting : p.Waiting (p.chanA s)
  unopened : ∀ j, p.Unopened (s.b.chans j)

/-- No channel of B has the next identifier. -/
theorem Ok.fresh (h : p.Ok) (j : Fin maxL2capChans) (hj : (p.b.chans j).valid = true) :
    (p.b.chans j).scid ≠ p.cidB := by
  intro heq
  have hlt := (h.countedB.inRange j hj).2
  rw [heq] at hlt
  exact absurd hlt (lt_irrefl _)

theorem apart_start (h : p.Ok) : p.Apart p.start where
  waiting := ⟨h.state, h.scid, .inl h.confState⟩
  unopened j hj hscid := absurd hscid (h.fresh j hj)

theorem Apart.law (hs : p.Apart s) : p.Law s where
  agrees hne := absurd hs.waiting.waiting hne
  openA hopen := absurd (hs.waiting.waiting.symm.trans hopen) (by decide)
  openB j hj hopen := absurd hopen (hs.unopened j hj.1 hj.2.2).1
  delivers j hj _ hopen := absurd hopen (hs.unopened j hj.1 hj.2.2).1

/-- A message to A leaves its channel waiting. -/
theorem Waiting.handleCommand {st : L2capState} {i : Fin maxL2capChans}
    (hw : p.Waiting (st.chans i)) (hne : p.cidA ≠ p.cidB) {k : Kind} (hk : k.toB = false)
    (hcon : BitVec 16) : p.Waiting ((st.handleCommand hcon (p.command k)).chans i) := by
  -- what is looked up with the other identifier does not find the channel
  have hother : ∀ f, ((st.updateFirst (fun slot => slot.valid && slot.scid == p.cidB) f).chans i) =
      st.chans i := by
    intro f
    refine L2capState.updateFirst_chans_of_not ?_
    rw [hw.scid, beq_eq_false_iff_ne.2 hne, Bool.and_false]
  cases k with
  | connReq | confReqToB | confRspToB => cases hk
  | confReqToA =>
      rw [command, L2capState.handleCommand_confReq]
      rcases st.updateFirst_chans_cases _ (L2capChan.configured 0x01#8) i with hsame | ⟨-, hnew⟩
      · rwa [hsame]
      · obtain ⟨hhalf, hstate⟩ := hw.half.configured
        rw [hnew]
        exact ⟨hstate.trans hw.waiting, hw.scid, hhalf⟩
  | connRsp =>
      rw [command, L2capState.handleCommand_connRsp, hother]
      exact hw
  | confRspToA =>
      rw [command, L2capState.handleCommand_confRsp, hother]
      exact hw

/-- A message to B opens no channel with its identifier. -/
theorem Unopened.handleCommand {st : L2capState} {j : Fin maxL2capChans}
    (hw : p.Unopened (st.chans j)) (hpsm : st.hasPsm p.psm = true) (hne : p.cidA ≠ p.cidB)
    {k : Kind} (hk : k.toB = true) (hcon : BitVec 16) :
    p.Unopened ((st.handleCommand hcon (p.command k)).chans j) := by
  cases k with
  | confReqToA | connRsp | confRspToA => cases hk
  | connReq =>
      rw [command, L2capState.handleCommand_connReq' _ _ hpsm]
      rcases L2capState.updateFirst_chans_cases _ _ j with hsame | ⟨-, hnew⟩
      · rw [hsame]
        exact hw
      · rw [hnew]
        intro _ _
        refine ⟨?_, .inl rfl⟩
        intro hopen
        cases hopen
  | confReqToB =>
      rw [command, L2capState.handleCommand_confReq]
      rcases st.updateFirst_chans_cases _ (L2capChan.configured 0x01#8) j with hsame | ⟨-, hnew⟩
      · rwa [hsame]
      · rw [hnew]
        intro hvalid hscid
        obtain ⟨hstate, hhalf⟩ := hw hvalid hscid
        obtain ⟨hhalf', hstate'⟩ := hhalf.configured
        exact ⟨hstate' ▸ hstate, hhalf'⟩
  | confRspToB =>
      rw [command, L2capState.handleCommand_confRsp]
      rcases st.updateFirst_chans_cases _ (L2capChan.configured 0x02#8) j with hsame | ⟨hp, hnew⟩
      · rwa [hsame]
      · rw [hnew]
        intro _ hscid
        have hcid := beq_iff_eq.1 (Bool.and_eq_true_iff.1 hp).2
        exact absurd (hcid.symm.trans hscid) hne

theorem Apart.deliver (hs : p.Apart s) (hw : p.Wire s) (h : p.Ok) (hne : p.cidA ≠ p.cidB)
    {k : Kind} (hk : p.msg k ∈ s.flight) : p.Apart (p.deliver s (p.msg k)) := by
  rw [hw.deliver_eq h hk]
  cases hto : k.toB with
  | true => exact ⟨hs.waiting, fun j => (hs.unopened j).handleCommand (hw.hasPsm h) hne hto _⟩
  | false => exact ⟨hs.waiting.handleCommand hne hto _, hs.unopened⟩

/-! ### Hosts that use the same identifier -/

theorem received_deliver (hw : p.Wire s) (h : p.Ok) {k : Kind} (hk : p.msg k ∈ s.flight)
    {P : SigCommand → Prop} (hP : P (p.command k)) :
    (p.deliver s (p.msg k)).Received k.toB P := by
  rw [hw.deliver_eq h hk]
  refine ⟨p.msg k, List.mem_cons_self, rfl, p.command k, ?_, hP⟩
  rw [frameCommands_msg h k]
  exact List.mem_cons_self

theorem received_mono (hw : p.Wire s) (h : p.Ok) {k : Kind} (hk : p.msg k ∈ s.flight)
    {toB : Bool} {P : SigCommand → Prop} (hr : s.Received toB P) :
    (p.deliver s (p.msg k)).Received toB P := by
  rw [hw.deliver_eq h hk]
  obtain ⟨m, hm, hrest⟩ := hr
  exact ⟨m, List.mem_cons_of_mem _ hm, hrest⟩

/-- The flags of a configuration, of which either half may have happened. -/
def confFlags (r q : Bool) : BitVec 8 :=
  (if r then 0x01#8 else 0x00#8) ||| (if q then 0x02#8 else 0x00#8)

/-- The configuration flags of a channel are set only if the messages for them have come, and it is
open only if both are set. -/
def ConfOf (c : L2capChan) (R Q : Prop) : Prop :=
  ∃ r q : Bool, c.confState = confFlags r q ∧ (r = true → R) ∧ (q = true → Q) ∧
    (c.state = .open_ → r = true ∧ q = true)

section ConfOf

variable {c : L2capChan} {R Q R' Q' : Prop}

theorem ConfOf.mono (h : ConfOf c R Q) (hR : R → R') (hQ : Q → Q') : ConfOf c R' Q' := by
  obtain ⟨r, q, hconf, hr, hq, hopen⟩ := h
  exact ⟨r, q, hconf, fun h => hR (hr h), fun h => hQ (hq h), hopen⟩

theorem ConfOf.request (h : ConfOf c R Q) (hR : R') (hQ : Q → Q') :
    ConfOf (c.configured 0x01#8) R' Q' := by
  obtain ⟨r, q, hconf, hr, hq, hopen⟩ := h
  have hflags : c.confState ||| 0x01#8 = confFlags true q := by
    rw [hconf]
    cases r <;> cases q <;> rfl
  refine ⟨true, q, hflags, fun _ => hR, fun h => hQ (hq h), fun hstate => ⟨rfl, ?_⟩⟩
  rw [L2capChan.configured] at hstate
  dsimp only at hstate
  rw [hflags] at hstate
  cases q with
  | true => rfl
  | false => exact (hopen hstate).2

theorem ConfOf.response (h : ConfOf c R Q) (hR : R → R') (hQ : Q') :
    ConfOf (c.configured 0x02#8) R' Q' := by
  obtain ⟨r, q, hconf, hr, hq, hopen⟩ := h
  have hflags : c.confState ||| 0x02#8 = confFlags r true := by
    rw [hconf]
    cases r <;> cases q <;> rfl
  refine ⟨r, true, hflags, fun h => hR (hr h), fun _ => hQ, fun hstate => ⟨?_, rfl⟩⟩
  rw [L2capChan.configured] at hstate
  dsimp only at hstate
  rw [hflags] at hstate
  cases r with
  | true => rfl
  | false => exact (hopen hstate).1

theorem ConfOf.connected (h : ConfOf c R Q) (hR : R → R') (hQ : Q → Q') (dcid : BitVec 16) :
    ConfOf (c.connected dcid) R' Q' := by
  obtain ⟨r, q, hconf, hr, hq, -⟩ := h
  exact ⟨r, q, hconf, fun h => hR (hr h), fun h => hQ (hq h), fun hopen => by cases hopen⟩

end ConfOf

/-- The channel of A, and the other channels of A. -/
structure SideA (p : Peers) (s : PeerState) : Prop where
  other : ∀ i, i ≠ p.slot → s.a.chans i = p.a.chans i
  valid : (p.chanA s).valid = true
  scid : (p.chanA s).scid = p.cidA
  hcon : (p.chanA s).hcon = p.hconA
  psm : (p.chanA s).psm = p.psm
  conf : ConfOf (p.chanA s) (s.Received false fun cmd => cmd.code = SigCommand.confReq)
    (s.Received false SigCommand.ConfAccepted)
  linked : (p.chanA s).state ≠ .waitConn →
    (p.chanA s).dcid = p.cidB ∧ s.Received false SigCommand.ConnAccepted

/-- The channel that B has made, and its other channels. -/
structure SideB (p : Peers) (s : PeerState) (j : Fin maxL2capChans) : Prop where
  other : ∀ i, i ≠ j → s.b.chans i = p.b.chans i
  isChan : p.IsChanB s j
  dcid : (s.b.chans j).dcid = p.cidA
  psm : (s.b.chans j).psm = p.psm
  conf : ConfOf (s.b.chans j) (s.Received true fun cmd => cmd.code = SigCommand.confReq)
    (s.Received true SigCommand.ConfAccepted)
  requested : s.Received true fun cmd => cmd.code = SigCommand.connReq

/-- Either the `CONN_REQ` has not arrived at B, or it has, and B has made its channel. -/
structure Together (p : Peers) (s : PeerState) : Prop where
  sideA : p.SideA s
  sideB : (s.b.chans = p.b.chans ∧ (p.chanA s).state = .waitConn ∧ p.msg .connRsp ∉ s.flight) ∨
    (p.msg .connReq ∉ s.flight ∧ ∃ j, p.SideB s j)

theorem together_start (h : p.Ok) : p.Together p.start where
  sideA := by
    refine ⟨fun _ _ => rfl, h.valid, h.scid, h.hcon, h.psm, ?_, fun hne => absurd h.state hne⟩
    refine ⟨false, false, h.confState, fun hr => absurd hr Bool.false_ne_true,
      fun hq => absurd hq Bool.false_ne_true, fun hopen => ?_⟩
    exact absurd (h.state.symm.trans hopen) (by decide)
  sideB := by
    refine .inl ⟨rfl, h.state, fun hmem => ?_⟩
    simp only [start, List.mem_cons, List.not_mem_nil, or_false] at hmem
    rcases hmem with heq | heq | heq
    · exact SigCommand.connRsp_ne (code_of_msg_eq h heq)
    · exact SigCommand.confReq_ne.2 (code_of_msg_eq h heq).symm
    · exact SigCommand.confReq_ne.2 (code_of_msg_eq h heq).symm

/-- No other channel of A has the identifier. -/
theorem SideA.unique (hs : p.SideA s) (h : p.Ok) {i : Fin maxL2capChans}
    (hi : (s.a.chans i).valid = true) (hscid : (s.a.chans i).scid = p.cidA) : i = p.slot := by
  by_contra hne
  rw [hs.other i hne] at hi hscid
  exact hne (h.countedA.injective i p.slot hi h.valid (hscid.trans h.scid.symm))

/-- No other channel of B has the identifier. -/
theorem SideB.unique {j : Fin maxL2capChans} (hs : p.SideB s j) (h : p.Ok)
    {i : Fin maxL2capChans} (hi : (s.b.chans i).valid = true)
    (hscid : (s.b.chans i).scid = p.cidB) : i = j := by
  by_contra hne
  rw [hs.other i hne] at hi hscid
  exact h.fresh i hi hscid

/-- What a message does to the channel of A. -/
def effectA (p : Peers) : Kind → L2capChan → L2capChan
  | .confReqToA => L2capChan.configured 0x01#8
  | .connRsp => L2capChan.connected p.cidA
  | .confRspToA => L2capChan.configured 0x02#8
  | _ => id

/-- What a configuration message does to the channel of B. -/
def effectB : Kind → L2capChan → L2capChan
  | .confReqToB => L2capChan.configured 0x01#8
  | .confRspToB => L2capChan.configured 0x02#8
  | _ => id

/-- A message to A changes its channel. -/
theorem SideA.handleCommand (hs : p.SideA s) (h : p.Ok) (heq : p.cidA = p.cidB) {k : Kind}
    (hk : k.toB = false) : s.a.handleCommand p.hconA (p.command k) =
      { s.a with chans := Function.update s.a.chans p.slot (p.effectA k (p.chanA s)) } := by
  have hmatch : (p.chanA s).valid && (p.chanA s).scid == p.cidA := by
    rw [hs.valid, hs.scid, beq_self_eq_true]
    rfl
  have hreply : ∀ f, s.a.updateFirst (fun slot => slot.valid && slot.scid == p.cidB) f =
      { s.a with chans := Function.update s.a.chans p.slot (f (p.chanA s)) } := by
    intro f
    refine L2capState.updateFirst_of_unique f (heq ▸ hmatch) fun j hj => ?_
    rw [Bool.and_eq_true, beq_iff_eq] at hj
    exact hs.unique h hj.1 (hj.2.trans heq.symm)
  cases k with
  | connReq | confReqToB | confRspToB => cases hk
  | confReqToA =>
      rw [command, L2capState.handleCommand_confReq]
      refine L2capState.updateFirst_of_unique _ ?_ fun j hj => ?_
      · change ((p.chanA s).valid && (p.chanA s).hcon == p.hconA && (p.chanA s).scid == p.cidA) = _
        rw [hs.valid, hs.hcon, hs.scid, beq_self_eq_true, beq_self_eq_true]
        rfl
      · rw [Bool.and_eq_true, Bool.and_eq_true, beq_iff_eq, beq_iff_eq] at hj
        exact hs.unique h hj.1.1 hj.2
  | connRsp =>
      rw [command, L2capState.handleCommand_connRsp]
      exact hreply _
  | confRspToA =>
      rw [command, L2capState.handleCommand_confRsp]
      exact hreply _

/-- Before B has made its channel, configuration messages to B change nothing. -/
theorem handleCommand_of_fresh (h : p.Ok) (heq : p.cidA = p.cidB) {st : L2capState}
    (hchans : st.chans = p.b.chans) {k : Kind} (hk : k = .confReqToB ∨ k = .confRspToB) :
    st.handleCommand p.hconB (p.command k) = st := by
  have hnone : ∀ j, ((st.chans j).valid && (st.chans j).scid == p.cidB) = false := by
    intro j
    rw [hchans, Bool.and_eq_false_iff, beq_eq_false_iff_ne]
    cases hv : (p.b.chans j).valid with
    | true => exact .inr (h.fresh j hv)
    | false => exact .inl rfl
  rcases hk with rfl | rfl
  · rw [command, L2capState.handleCommand_confReq]
    refine L2capState.updateFirst_of_none _ fun j => ?_
    rw [Bool.and_right_comm, hnone j, Bool.false_and]
  · rw [command, L2capState.handleCommand_confRsp, heq]
    exact L2capState.updateFirst_of_none _ hnone

/-- A configuration message to B changes its channel. -/
theorem SideB.handleCommand {j : Fin maxL2capChans} (hs : p.SideB s j) (h : p.Ok)
    (heq : p.cidA = p.cidB) {k : Kind} (hk : k = .confReqToB ∨ k = .confRspToB) :
    s.b.handleCommand p.hconB (p.command k) =
      { s.b with chans := Function.update s.b.chans j (effectB k (s.b.chans j)) } := by
  obtain ⟨hvalid, hhcon, hscid⟩ := hs.isChan
  rcases hk with rfl | rfl
  · rw [command, L2capState.handleCommand_confReq]
    refine L2capState.updateFirst_of_unique _ ?_ fun i hi => ?_
    · rw [hvalid, hhcon, hscid, beq_self_eq_true, beq_self_eq_true]
      rfl
    · rw [Bool.and_eq_true, Bool.and_eq_true, beq_iff_eq, beq_iff_eq] at hi
      exact hs.unique h hi.1.1 hi.2
  · rw [command, L2capState.handleCommand_confRsp]
    refine L2capState.updateFirst_of_unique _ ?_ fun i hi => ?_
    · rw [hvalid, hscid, heq, beq_self_eq_true]
      rfl
    · rw [Bool.and_eq_true, beq_iff_eq] at hi
      exact hs.unique h hi.1 (hi.2.trans heq)

/-- A `CONN_RSP` is sent only in response to the `CONN_REQ`. -/
theorem connRsp_mem (h : p.Ok) {k : Kind}
    (hmem : p.msg .connRsp ∈ s.flight.erase (p.msg k) ++ (responses k).map p.msg) :
    k = .connReq ∨ p.msg .connRsp ∈ s.flight := by
  rcases List.mem_append.1 hmem with hold | hnew
  · exact .inr (List.mem_of_mem_erase hold)
  · obtain ⟨k', hk', heq⟩ := List.mem_map.1 hnew
    have hcode := code_of_msg_eq h heq
    cases k with
    | connReq => exact .inl rfl
    | confReqToB | confReqToA =>
        rw [responses, List.mem_singleton] at hk'
        subst hk'
        exact absurd hcode SigCommand.confRsp_ne.2.1
    | connRsp | confRspToA | confRspToB => cases hk'

/-- A channel that waits, and that nothing has configured, waits on after one message. -/
theorem configured_waitConn {c : L2capChan} (hstate : c.state = .waitConn)
    (hconf : c.confState = 0#8) {bit : BitVec 8} (hbit : bit ≠ 0x03#8) :
    (c.configured bit).state = .waitConn := by
  rw [L2capChan.configured, hconf, BitVec.zero_or, if_neg hbit, hstate]

/-- The `CONN_RSP` reports success. -/
theorem connAccepted_command (p : Peers) : (p.command .connRsp).ConnAccepted := by
  refine ⟨rfl, ?_⟩
  rw [command, leWord_four, leWord_leBytes16]
  rfl

/-- The `CONF_RSP` to A reports success. -/
theorem confAccepted_command (p : Peers) : (p.command .confRspToA).ConfAccepted := by
  refine ⟨rfl, ?_⟩
  rw [command, leWord_two, ← List.append_nil (leBytes16 0#16), leWord_leBytes16]

/-- The `CONF_RSP` to B reports success. -/
theorem confAccepted_command' (p : Peers) : (p.command .confRspToB).ConfAccepted := by
  refine ⟨rfl, ?_⟩
  rw [command, leWord_two, ← List.append_nil (leBytes16 0#16), leWord_leBytes16]

/-- A message to A. -/
theorem SideA.deliver (hs : p.SideA s) (hw : p.Wire s) (h : p.Ok) (heq : p.cidA = p.cidB)
    {k : Kind} (hk : p.msg k ∈ s.flight) (hto : k.toB = false)
    (hguard : p.Guard s (p.msg k)) :
    p.SideA (p.deliver s (p.msg k)) ∧
      (k ≠ .connRsp → (p.chanA s).state = .waitConn →
        (p.chanA (p.deliver s (p.msg k))).state = .waitConn) := by
  have hnew : p.chanA (p.deliver s (p.msg k)) = p.effectA k (p.chanA s) := by
    rw [hw.deliver_eq h hk, chanA, hto, hs.handleCommand h heq hto]
    exact Function.update_self _ _ _
  have hother : ∀ i, i ≠ p.slot → (p.deliver s (p.msg k)).a.chans i = p.a.chans i := by
    intro i hi
    rw [hw.deliver_eq h hk, hto, hs.handleCommand h heq hto]
    exact (Function.update_of_ne hi _ _).trans (hs.other i hi)
  have hmono : ∀ {P}, s.Received false P → (p.deliver s (p.msg k)).Received false P :=
    fun hr => received_mono hw h hk hr
  have hrec : ∀ {P}, P (p.command k) → (p.deliver s (p.msg k)).Received false P :=
    fun hP => hto ▸ received_deliver hw h hk hP
  -- what configures the channel while it waits is the first message to do so
  have hwait : (p.command k).code = SigCommand.confReq ∨ (p.command k).code = SigCommand.confRsp →
      (p.chanA s).state = .waitConn → (p.chanA s).confState = 0#8 := by
    refine hguard heq hto (p.command k) ?_
    rw [frameCommands_msg h k]
    exact List.mem_cons_self
  have hlinked : ∀ bit, (p.chanA (p.deliver s (p.msg k))) = (p.chanA s).configured bit →
      bit ≠ 0x03#8 → ((p.chanA s).state = .waitConn → (p.chanA s).confState = 0#8) →
      ((p.chanA (p.deliver s (p.msg k))).state ≠ .waitConn →
        (p.chanA (p.deliver s (p.msg k))).dcid = p.cidB ∧
          (p.deliver s (p.msg k)).Received false SigCommand.ConnAccepted) ∧
      ((p.chanA s).state = .waitConn →
        (p.chanA (p.deliver s (p.msg k))).state = .waitConn) := by
    intro bit hconf hbit hzero
    have hstays : (p.chanA s).state = .waitConn →
        (p.chanA (p.deliver s (p.msg k))).state = .waitConn := by
      intro hstate
      rw [hconf, configured_waitConn hstate (hzero hstate) hbit]
    refine ⟨fun hne => ?_, hstays⟩
    obtain ⟨hdcid, hrecd⟩ := hs.linked fun hstate => hne (hstays hstate)
    rw [hconf]
    exact ⟨hdcid, hmono hrecd⟩
  -- no message changes what the channel is
  have hsame : (p.effectA k (p.chanA s)).valid = true ∧ (p.effectA k (p.chanA s)).scid = p.cidA ∧
      (p.effectA k (p.chanA s)).hcon = p.hconA ∧ (p.effectA k (p.chanA s)).psm = p.psm := by
    cases k <;> exact ⟨hs.valid, hs.scid, hs.hcon, hs.psm⟩
  rw [← hnew] at hsame
  obtain ⟨hvalid, hscid, hhcon, hpsm⟩ := hsame
  cases k with
  | connReq | confReqToB | confRspToB => cases hto
  | confReqToA =>
      obtain ⟨hlink, hstays⟩ := hlinked 0x01#8 hnew (by decide) (hwait (.inl rfl))
      refine ⟨⟨hother, hvalid, hscid, hhcon, hpsm, ?_, hlink⟩, fun _ => hstays⟩
      rw [hnew]
      exact hs.conf.request (hrec rfl) hmono
  | confRspToA =>
      obtain ⟨hlink, hstays⟩ := hlinked 0x02#8 hnew (by decide) (hwait (.inr rfl))
      refine ⟨⟨hother, hvalid, hscid, hhcon, hpsm, ?_, hlink⟩, fun _ => hstays⟩
      rw [hnew]
      exact hs.conf.response hmono (hrec p.confAccepted_command)
  | connRsp =>
      refine ⟨⟨hother, hvalid, hscid, hhcon, hpsm, ?_, ?_⟩, fun hne => absurd rfl hne⟩
      · rw [hnew]
        exact hs.conf.connected hmono hmono _
      · rw [hnew]
        exact fun _ => ⟨heq, hrec p.connAccepted_command⟩

/-- What has been received at A, and the channels of A, are all that its side depends on. -/
theorem SideA.mono (hs : p.SideA s) (ha : s'.a = s.a)
    (hrec : ∀ P, s.Received false P → s'.Received false P) : p.SideA s' := by
  have hchan : p.chanA s' = p.chanA s := congrArg (fun st => st.chans p.slot) ha
  refine ⟨?_, ?_, ?_, ?_, ?_, ?_, ?_⟩
  · rw [ha]
    exact hs.other
  · rw [hchan]
    exact hs.valid
  · rw [hchan]
    exact hs.scid
  · rw [hchan]
    exact hs.hcon
  · rw [hchan]
    exact hs.psm
  · rw [hchan]
    exact hs.conf.mono (hrec _) (hrec _)
  · rw [hchan]
    exact fun hne => ⟨(hs.linked hne).1, hrec _ (hs.linked hne).2⟩

theorem SideB.mono {j : Fin maxL2capChans} (hs : p.SideB s j) (hb : s'.b = s.b)
    (hrec : ∀ P, s.Received true P → s'.Received true P) : p.SideB s' j := by
  refine ⟨?_, ?_, ?_, ?_, ?_, hrec _ hs.requested⟩
  · rw [hb]
    exact hs.other
  · rw [IsChanB, hb]
    exact hs.isChan
  · rw [hb]
    exact hs.dcid
  · rw [hb]
    exact hs.psm
  · rw [hb]
    exact hs.conf.mono (hrec _) (hrec _)

/-- The `CONN_REQ` arrives at B, which makes its channel. -/
theorem sideB_connReq (hw : p.Wire s) (h : p.Ok) (hroom : p.b.HasRoom)
    (hk : p.msg .connReq ∈ s.flight) (hchans : s.b.chans = p.b.chans) :
    ∃ j, p.SideB (p.deliver s (p.msg .connReq)) j := by
  have hroom' : s.b.HasRoom := by
    rw [L2capState.HasRoom, hchans]
    exact hroom
  obtain ⟨j, hfind, -⟩ := hroom'.findSlot
  have hfind' : ({ s.b with nextCid := L2capState.afterCid s.b.nextCid } : L2capState).findSlot
      (fun slot => !slot.valid) = some j := hfind
  have hnew : (p.deliver s (p.msg .connReq)).b.chans = Function.update p.b.chans j
      (L2capState.acceptedChan p.hconB p.cidB p.connIdent
        (leBytes16 p.psm ++ leBytes16 p.cidA)) := by
    have hcommand : s.b.handleCommand p.hconB (p.command .connReq) = _ :=
      L2capState.handleCommand_connReq' p.connIdent p.cidA (hw.hasPsm h)
    rw [hw.deliver_eq h hk]
    change (s.b.handleCommand p.hconB (p.command .connReq)).chans = _
    rw [hcommand, L2capState.updateFirst, hfind', hw.fresh hk, ← hchans]
  have hself : (p.deliver s (p.msg .connReq)).b.chans j = _ :=
    (congrFun hnew j).trans (Function.update_self _ _ _)
  refine ⟨j, ?_, ?_, ?_, ?_, ?_, received_deliver hw h hk rfl⟩
  · intro i hi
    rw [hnew, Function.update_of_ne hi]
  · rw [IsChanB, hself]
    exact ⟨rfl, rfl, rfl⟩
  · rw [hself]
    change leWord (leBytes16 p.psm ++ leBytes16 p.cidA) 2 = p.cidA
    rw [leWord_two, ← List.append_nil (leBytes16 p.cidA), leWord_leBytes16]
  · rw [hself]
    exact leWord_leBytes16 _ _
  · rw [hself]
    refine ⟨false, false, rfl, fun hr => absurd hr Bool.false_ne_true,
      fun hq => absurd hq Bool.false_ne_true, fun hopen => ?_⟩
    cases hopen

/-- A configuration message to B. -/
theorem SideB.deliver {j : Fin maxL2capChans} (hs : p.SideB s j) (hw : p.Wire s) (h : p.Ok)
    (heq : p.cidA = p.cidB) {k : Kind} (hmem : p.msg k ∈ s.flight)
    (hk : k = .confReqToB ∨ k = .confRspToB) : p.SideB (p.deliver s (p.msg k)) j := by
  have hto : k.toB = true := by
    rcases hk with rfl | rfl <;> rfl
  have hchans : (p.deliver s (p.msg k)).b.chans =
      Function.update s.b.chans j (effectB k (s.b.chans j)) := by
    rw [hw.deliver_eq h hmem, hto, if_pos rfl]
    exact congrArg L2capState.chans (hs.handleCommand h heq hk)
  have hself : (p.deliver s (p.msg k)).b.chans j = effectB k (s.b.chans j) :=
    (congrFun hchans j).trans (Function.update_self _ _ _)
  have hmono : ∀ {P}, s.Received true P → (p.deliver s (p.msg k)).Received true P :=
    fun hr => received_mono hw h hmem hr
  have hrec : ∀ {P}, P (p.command k) → (p.deliver s (p.msg k)).Received true P :=
    fun hP => hto ▸ received_deliver hw h hmem hP
  have hother : ∀ i, i ≠ j → (p.deliver s (p.msg k)).b.chans i = p.b.chans i := by
    intro i hi
    rw [hchans, Function.update_of_ne hi]
    exact hs.other i hi
  rcases hk with rfl | rfl
  · refine ⟨hother, ?_, ?_, ?_, ?_, hmono hs.requested⟩
    · rw [IsChanB, hself]
      exact hs.isChan
    · rw [hself]
      exact hs.dcid
    · rw [hself]
      exact hs.psm
    · rw [hself]
      exact hs.conf.request (hrec rfl) hmono
  · refine ⟨hother, ?_, ?_, ?_, ?_, hmono hs.requested⟩
    · rw [IsChanB, hself]
      exact hs.isChan
    · rw [hself]
      exact hs.dcid
    · rw [hself]
      exact hs.psm
    · rw [hself]
      exact hs.conf.response hmono (hrec p.confAccepted_command')

/-- A message that arrives. -/
theorem Together.deliver (hs : p.Together s) (hw : p.Wire s) (h : p.Ok) (hroom : p.b.HasRoom)
    (heq : p.cidA = p.cidB) {k : Kind} (hk : p.msg k ∈ s.flight) (hguard : p.Guard s (p.msg k)) :
    p.Together (p.deliver s (p.msg k)) := by
  have hflight : (p.deliver s (p.msg k)).flight =
      s.flight.erase (p.msg k) ++ (responses k).map p.msg := by
    rw [hw.deliver_eq h hk]
  cases hto : k.toB with
  | false =>
      have hb : (p.deliver s (p.msg k)).b = s.b := by
        rw [hw.deliver_eq h hk, hto]
        rfl
      obtain ⟨hA, hstays⟩ := hs.sideA.deliver hw h heq hk hto hguard
      refine ⟨hA, ?_⟩
      rcases hs.sideB with ⟨hchans, hwait, hnone⟩ | ⟨hnone, j, hB⟩
      · have hne : k ≠ .connRsp := by
          rintro rfl
          exact hnone hk
        refine .inl ⟨by rw [hb, hchans], hstays hne hwait, fun hmem => ?_⟩
        rw [hflight] at hmem
        rcases connRsp_mem h hmem with rfl | hold
        · cases hto
        · exact hnone hold
      · refine .inr ⟨fun hmem => ?_, j, hB.mono hb fun _ => received_mono hw h hk⟩
        rw [hflight] at hmem
        exact hnone (hw.connReq_mem h hmem).2
  | true =>
      have ha : (p.deliver s (p.msg k)).a = s.a := by
        rw [hw.deliver_eq h hk, hto]
        rfl
      have hchan : p.chanA (p.deliver s (p.msg k)) = p.chanA s :=
        congrArg (fun st => st.chans p.slot) ha
      refine ⟨hs.sideA.mono ha fun _ => received_mono hw h hk, ?_⟩
      have hother : k = .connReq ∨ k = .confReqToB ∨ k = .confRspToB := by
        cases k <;> simp_all [Kind.toB]
      rcases hother with rfl | hother
      · -- the request arrives: B has not made its channel before
        rcases hs.sideB with ⟨hchans, -, -⟩ | ⟨hnone, -⟩
        · refine .inr ⟨fun hmem => ?_, sideB_connReq hw h hroom hk hchans⟩
          rw [hflight] at hmem
          exact (hw.connReq_mem h hmem).1 rfl
        · exact absurd hk hnone
      rcases hs.sideB with ⟨hchans, hwait, hnone⟩ | ⟨hnone, j, hB⟩
      · refine .inl ⟨?_, hchan ▸ hwait, fun hmem => ?_⟩
        · rw [hw.deliver_eq h hk, hto, if_pos rfl, handleCommand_of_fresh h heq hchans hother]
          exact hchans
        · rw [hflight] at hmem
          rcases connRsp_mem h hmem with rfl | hold
          · rcases hother with hother | hother <;> cases hother
          · exact hnone hold
      · refine .inr ⟨fun hmem => ?_, j, hB.deliver hw h heq hk hother⟩
        rw [hflight] at hmem
        exact hnone (hw.connReq_mem h hmem).2

end Peers

/-- Sending on the only channel with an identifier, to a host that has only one open channel with
the identifier of the peer. -/
theorem delivers_of_unique {src dst : L2capState} {i j : Fin maxL2capChans}
    {scid cid peer hcon psm : BitVec 16}
    (hi : (src.chans i).valid = true ∧ (src.chans i).scid = scid ∧ (src.chans i).dcid = cid ∧
      (src.chans i).state = .open_)
    (hsrc : ∀ k, (src.chans k).valid = true → (src.chans k).scid = scid → k = i)
    (hj : (dst.chans j).valid = true ∧ (dst.chans j).hcon = hcon ∧ (dst.chans j).dcid = cid ∧
      (dst.chans j).state = .open_)
    (hdst : ∀ k, (dst.chans k).valid = true → (dst.chans k).hcon = hcon →
      (dst.chans k).dcid = cid → (dst.chans k).state = .open_ → k = j)
    (hpeer : (dst.chans j).scid = peer) (hpsm : (dst.chans j).psm = psm)
    (hdyn : l2capCidDynStart.toNat ≤ cid.toNat) : Delivers src dst scid peer hcon psm := by
  have hsend : src.findSlot (fun c => c.valid && c.scid == scid && c.state == .open_) = some i := by
    refine L2capState.findSlot_of_unique ?_ fun k hk => ?_
    · rw [hi.1, hi.2.1, hi.2.2.2, beq_self_eq_true, beq_self_eq_true]
      rfl
    · simp only [Bool.and_eq_true, beq_iff_eq] at hk
      exact hsrc k hk.1.1 hk.1.2
  have hfind : dst.findSlot (fun c => c.valid && c.hcon == hcon &&
      c.dcid == cid && c.state == .open_) = some j := by
    refine L2capState.findSlot_of_unique ?_ fun k hk => ?_
    · rw [hj.1, hj.2.1, hj.2.2.1, hj.2.2.2, beq_self_eq_true, beq_self_eq_true, beq_self_eq_true]
      rfl
    · simp only [Bool.and_eq_true, beq_iff_eq] at hk
      exact hdst k hk.1.1.1 hk.1.1.2 hk.1.2 hk.2
  intro data
  refine ⟨sendAcl cid data, ?_, fun handler hhandler => ?_⟩
  · rw [l2capSend, hsend]
    dsimp only
    rw [hi.2.2.1]
  obtain ⟨k, hk, rfl⟩ := Option.map_eq_some_iff.1 hhandler
  refine ⟨⟨(dst.psmReg k).handler, hcon, peer, data.take (data.length % 2 ^ 16)⟩, ?_, rfl, rfl, rfl,
    fun hlen => ?_⟩
  · rw [recvFrame_sendAcl hdyn, L2capState.dispatchToChan, hfind]
    dsimp only
    rw [hpsm, hk, hpeer]
  · dsimp only
    rw [Nat.mod_eq_of_lt hlen, List.take_length]

namespace Peers

variable {p : Peers} {s s' : PeerState}

theorem Together.law (hs : p.Together s) (h : p.Ok) (hfit : p.Fit) (heq : p.cidA = p.cidB) :
    p.Law s := by
  have hA := hs.sideA
  have hdyn : l2capCidDynStart.toNat ≤ p.cidB.toNat := h.countedB.start_le
  -- once A has left its first state, B has made its channel
  have hmade : (p.chanA s).state ≠ .waitConn → ∃ j, p.SideB s j := by
    intro hne
    rcases hs.sideB with ⟨-, hwait, -⟩ | ⟨-, hB⟩
    · exact absurd hwait hne
    · exact hB
  have hisB : ∀ j, p.IsChanB s j → p.SideB s j := by
    intro j hj
    rcases hs.sideB with ⟨hchans, -, -⟩ | ⟨-, j', hB⟩
    · rw [IsChanB, hchans] at hj
      exact absurd hj.2.2 (h.fresh j hj.1)
    · exact hB.unique h hj.1 hj.2.2 ▸ hB
  refine ⟨fun hne => ?_, fun hopen => ?_, fun j hj hopen => ?_, fun j hj hopenA hopenB => ?_⟩
  · obtain ⟨j, hB⟩ := hmade hne
    exact ⟨j, hB.isChan, (hA.linked hne).1.trans hB.isChan.2.2.symm, hB.dcid⟩
  · obtain ⟨r, q, -, hr, hq, hflags⟩ := hA.conf
    have hne : (p.chanA s).state ≠ .waitConn := by
      rw [hopen]
      intro heq
      cases heq
    exact ⟨(hA.linked hne).2, hr (hflags hopen).1, hq (hflags hopen).2⟩
  · have hB := hisB j hj
    obtain ⟨r, q, -, hr, hq, hflags⟩ := hB.conf
    exact ⟨hB.requested, hr (hflags hopen).1, hq (hflags hopen).2⟩
  · have hB := hisB j hj
    have hne : (p.chanA s).state ≠ .waitConn := by
      rw [hopenA]
      intro heq
      cases heq
    have hdcid := (hA.linked hne).1
    obtain ⟨hvalid, hhcon, hscid⟩ := hj
    constructor
    · refine delivers_of_unique (i := p.slot) (j := j) ⟨hA.valid, hA.scid, hdcid, hopenA⟩
        (fun k hk hkscid => hA.unique h hk hkscid)
        ⟨hvalid, hhcon, hB.dcid.trans heq, hopenB⟩ (fun k hk hkcon hkdcid hkopen => ?_) hscid hB.psm
        hdyn
      by_contra hkj
      rw [hB.other k hkj] at hk hkcon hkdcid hkopen
      exact hfit.aloneB k hk hkcon hkopen hkdcid
    · refine delivers_of_unique (i := j) (j := p.slot) ⟨hvalid, hscid, hB.dcid, hopenB⟩
        (fun k hk hkscid => hB.unique h hk hkscid)
        ⟨hA.valid, hA.hcon, hdcid.trans heq.symm, hopenA⟩ (fun k hk hkcon hkdcid hkopen => ?_)
        hA.scid hA.psm (heq ▸ hdyn)
      by_contra hkj
      rw [hA.other k hkj] at hk hkcon hkdcid hkopen
      exact hfit.aloneA k hkj hk hkcon hkopen hkdcid

/-- The messages in flight, and the invariant of either case. -/
def Inv (p : Peers) (s : PeerState) : Prop :=
  p.Wire s ∧ if p.cidA = p.cidB then p.Together s else p.Apart s

theorem inv_start (h : p.Ok) : p.Inv p.start := by
  refine ⟨wire_start h, ?_⟩
  split
  · exact together_start h
  · exact apart_start h

theorem Inv.deliver (hs : p.Inv s) (h : p.Ok) (hfit : p.cidA = p.cidB → p.Fit) {m : PeerMsg}
    (hm : m ∈ s.flight) (hguard : p.Guard s m) : p.Inv (p.deliver s m) := by
  obtain ⟨hw, hcase⟩ := hs
  obtain ⟨k, rfl⟩ := hw.known m hm
  refine ⟨hw.deliver h hm, ?_⟩
  split
  · rename_i heq
    rw [if_pos heq] at hcase
    exact hcase.deliver hw h (hfit heq).room heq hm hguard
  · rename_i hne
    rw [if_neg hne] at hcase
    exact hcase.deliver hw h hne hm

theorem Inv.law (hs : p.Inv s) (h : p.Ok) (hfit : p.cidA = p.cidB → p.Fit) : p.Law s := by
  obtain ⟨-, hcase⟩ := hs
  split at hcase
  · rename_i heq
    exact hcase.law h (hfit heq) heq
  · exact hcase.law

end Peers

/-- In a run whose steps all meet the condition the hosts agree in every state. -/
theorem l2cap_peers_agree {p : Peers} (h : p.Ok) (hfit : p.cidA = p.cidB → p.Fit) {s : PeerState}
    (hs : p.system.Reach p.Guard s) : p.Law s := by
  have hinv : p.Inv s := by
    refine hs.invariant (fun s hinit => ?_) fun s m s' hs hguard hstep => ?_
    · rw [show s = p.start from hinit]
      exact Peers.inv_start h
    · obtain ⟨hm, rfl⟩ := hstep
      exact hs.deliver h hfit hm hguard
  exact hinv.law h hfit

/-! ### Two hosts -/

/-- Two hosts on which nothing has been connected before: both use the first identifier. -/
def firstPeers : Peers where
  hconA := 1#16
  hconB := 1#16
  psm := 3#16
  cidA := l2capCidDynStart
  slot := firstChannel
  a := (L2capState.new.chanCreate 1#16 3#16).2
  b := (L2capState.new.registerPsm 3#16 1).2
  connIdent := 1#8
  confIdentA := 2#8
  confIdentB := 2#8
  optsA := []
  optsB := []

theorem firstPeers_ok : firstPeers.Ok where
  valid := by decide +kernel
  scid := by decide +kernel
  hcon := by decide +kernel
  psm := by decide +kernel
  state := by decide +kernel
  confState := by decide +kernel
  registered := by decide +kernel
  countedA := L2capState.counted_chanCreate L2capState.counted_new _ _ (.inr ⟨⟨0, by decide⟩, rfl⟩)
  countedB := L2capState.counted_registerPsm L2capState.counted_new _ _
  optsA := by decide
  optsB := by decide

theorem firstPeers_fit : firstPeers.Fit where
  room := ⟨⟨0, by decide⟩, by decide +kernel⟩
  aloneA := by decide +kernel
  aloneB := by decide +kernel

/-- The channel is connected first. -/
def connectedState : PeerState :=
  [.connReq, .connRsp].foldl (fun s k => firstPeers.deliver s (firstPeers.msg k)) firstPeers.start

theorem reach_connectedState : firstPeers.system.Reach firstPeers.Guard connectedState := by
  have hinit : firstPeers.system.Reach firstPeers.Guard firstPeers.start := .init rfl
  have hreq := hinit.step (a := firstPeers.msg .connReq) (fun _ hto => by cases hto)
    ⟨by decide +kernel, rfl⟩
  refine hreq.step (a := firstPeers.msg .connRsp) (fun _ _ cmd hcmd hcode => ?_)
    ⟨by decide +kernel, rfl⟩
  rw [Peers.frameCommands_msg firstPeers_ok, List.mem_singleton] at hcmd
  subst hcmd
  rcases hcode with hcode | hcode
  · exact absurd hcode.symm SigCommand.confReq_ne.2
  · exact absurd hcode.symm SigCommand.confRsp_ne.2.1

/-- Both sides know the channel of the other. -/
theorem l2cap_peers_connected :
    (firstPeers.chanA connectedState).state = .config ∧ firstPeers.Law connectedState :=
  ⟨by decide +kernel,
    l2cap_peers_agree firstPeers_ok (fun _ => firstPeers_fit) reach_connectedState⟩

/-- The channel is configured first. -/
def configuredState : PeerState :=
  [.confReqToB, .confReqToA, .confRspToA].foldl
    (fun s k => firstPeers.deliver s (firstPeers.msg k)) firstPeers.start

/-- The channel of A is open, its peer is none, and B has no channel. -/
theorem l2cap_opens_unconnected :
    firstPeers.Ok ∧ firstPeers.Fit ∧ firstPeers.system.Reach Runs.anyStep configuredState ∧
      (firstPeers.chanA configuredState).state = .open_ ∧
      (firstPeers.chanA configuredState).dcid = 0#16 ∧
      (∀ j, (configuredState.b.chans j).valid = false) ∧ ¬ firstPeers.Law configuredState := by
  have hopen : (firstPeers.chanA configuredState).state = .open_ := by decide +kernel
  have hnone : ∀ j, (configuredState.b.chans j).valid = false := by decide +kernel
  refine ⟨firstPeers_ok, firstPeers_fit, ?_, hopen, by decide +kernel, hnone, fun hlaw => ?_⟩
  · have hinit : firstPeers.system.Reach Runs.anyStep firstPeers.start := .init rfl
    have hreqB := hinit.step (a := firstPeers.msg .confReqToB) trivial ⟨by decide +kernel, rfl⟩
    have hreqA := hreqB.step (a := firstPeers.msg .confReqToA) trivial ⟨by decide +kernel, rfl⟩
    exact hreqA.step (a := firstPeers.msg .confRspToA) trivial ⟨by decide +kernel, rfl⟩
  · have hne : (firstPeers.chanA configuredState).state ≠ .waitConn := by
      rw [hopen]
      intro heq
      cases heq
    obtain ⟨j, hj, -⟩ := hlaw.agrees hne
    exact Bool.false_ne_true ((hnone j).symm.trans hj.1)

end StarOS
