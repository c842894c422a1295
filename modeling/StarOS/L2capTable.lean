/-
The table of Bluetooth channels over whole runs.

Two calls take a channel's identifier from one counter.  `l2cap_chan_create` refuses when the
counter has passed the largest identifier, and counts before it looks for a free slot; a `CONN_REQ`
does not compare the counter with the largest identifier, and is answered with success whether it
found a free slot or not.

* `StarOS.L2capState.chanCreate` and the other calls;
* `StarOS.L2capState.response` — the response to a `CONN_REQ`;
* `StarOS.L2capState.TableOk`, `StarOS.L2capCall`, `StarOS.L2capState.Keeps` — the law;
* `StarOS.L2capState.Counted` — the invariant;
* `StarOS.l2cap_table_iff` — the law holds along a run exactly if every allocation finds a free
  slot and an identifier;
* `StarOS.l2cap_full_table` — a `CONN_REQ` that is accepted although the table is full.
-/

import StarOS.Error
import StarOS.L2cap
import StarOS.Runs

set_option autoImplicit false

namespace StarOS

/-! ### The calls -/

/-- `L2CAP_CID_DYN_END`. -/
def l2capCidDynEnd : BitVec 16 := 0x7FFF#16

namespace L2capResult

/-- `l2cap_result::SUCCESS`. -/
def success : BitVec 16 := 0x0000#16

/-- `l2cap_result::REFUSED_PSM`. -/
def refusedPsm : BitVec 16 := 0x0002#16

end L2capResult

/-- `PsmEntry::empty`, with the address of `psm_nop`. -/
def PsmEntry.empty : PsmEntry := ⟨0#16, 0, false⟩

/-- A `CONN_RSP`, as it is handed to `l2cap_send_conn_rsp`. -/
structure ConnRsp where
  hcon : BitVec 16
  ident : BitVec 8
  scid : BitVec 16
  dcid : BitVec 16
  result : BitVec 16
  deriving DecidableEq, Repr

namespace L2capState

/-- `L2capState::new`. -/
def new : L2capState where
  chans _ := .empty
  psmReg _ := .empty
  nextCid := l2capCidDynStart

/-- `l2cap_register_psm`. -/
def registerPsm (st : L2capState) (psm : BitVec 16) (handler : ℕ) :
    Except KernelError Unit × L2capState :=
  match (List.finRange maxPsm).find? fun i => !(st.psmReg i).valid with
  | some i => (.ok (), { st with psmReg := Function.update st.psmReg i ⟨psm, handler, true⟩ })
  | none => (.error .resourceExhausted, st)

/-- `l2cap_chan_create`. -/
def chanCreate (st : L2capState) (hcon psm : BitVec 16) :
    Except KernelError (BitVec 16) × L2capState :=
  let scid := st.nextCid
  if l2capCidDynEnd < scid then (.error .resourceExhausted, st)
  else
    let st := { st with nextCid := st.nextCid + 1#16 }
    match st.findSlot fun slot => !slot.valid with
    | some i =>
        let chan := { L2capChan.empty with
          scid := scid
          psm := psm
          hcon := hcon
          state := .waitConn
          valid := true }
        (.ok scid, { st with chans := Function.update st.chans i chan })
    | none => (.error .resourceExhausted, st)

/-- `l2cap_chan_close`. -/
def chanClose (st : L2capState) (scid : BitVec 16) : L2capState :=
  st.updateFirst (fun slot => slot.valid && slot.scid == scid) fun slot =>
    { slot with state := .closed, valid := false }

/-- Whether a protocol is registered. -/
def hasPsm (st : L2capState) (psm : BitVec 16) : Bool :=
  (List.finRange maxPsm).any fun i => (st.psmReg i).valid && (st.psmReg i).psm == psm

/-- The response that `handle_conn_req` sends. -/
def connReqResponse (hcon : BitVec 16) (st : L2capState) (ident : BitVec 8)
    (p : List (BitVec 8)) : Option ConnRsp :=
  if p.length < 4 then none
  else if st.hasPsm (leWord p 0) then
    some ⟨hcon, ident, st.nextCid, leWord p 2, L2capResult.success⟩
  else some ⟨hcon, ident, 0#16, leWord p 2, L2capResult.refusedPsm⟩

/-- The `CONN_RSP` that is sent in response to a command. -/
def response (hcon : BitVec 16) (st : L2capState) (cmd : SigCommand) : Option ConnRsp :=
  if cmd.code = SigCommand.connReq then st.connReqResponse hcon cmd.ident cmd.params else none

end L2capState

/-! ### The law -/

/-- A call of the channel layer. -/
inductive L2capCall where
  | registerPsm (psm : BitVec 16) (handler : ℕ)
  | chanCreate (hcon psm : BitVec 16)
  | chanClose (scid : BitVec 16)
  | recvFrame (hcon : BitVec 16) (data : List (BitVec 8))

namespace L2capState

/-- The state after a call. -/
def next (st : L2capState) : L2capCall → L2capState
  | .registerPsm psm handler => (st.registerPsm psm handler).2
  | .chanCreate hcon psm => (st.chanCreate hcon psm).2
  | .chanClose scid => st.chanClose scid
  | .recvFrame hcon data => (st.recvFrame hcon data).1

/-- The channels have different identifiers, in the range for them. -/
structure TableOk (st : L2capState) : Prop where
  inRange : ∀ i, (st.chans i).valid = true →
    l2capCidDynStart ≤ (st.chans i).scid ∧ (st.chans i).scid ≤ l2capCidDynEnd
  injective : ∀ i j, (st.chans i).valid = true → (st.chans j).valid = true →
    (st.chans i).scid = (st.chans j).scid → i = j

/-- The channel that a response names is there. -/
def Names (st : L2capState) (rsp : ConnRsp) : Prop :=
  ∃ i, (st.chans i).valid = true ∧ (st.chans i).scid = rsp.scid ∧ (st.chans i).hcon = rsp.hcon ∧
    (st.chans i).dcid = rsp.dcid

/-- A command leaves the table as it should be, and a response that reports success names a channel.
-/
def CommandKeeps (hcon : BitVec 16) (st : L2capState) (cmd : SigCommand) : Prop :=
  (st.handleCommand hcon cmd).TableOk ∧
    ∀ rsp ∈ st.response hcon cmd, rsp.result = L2capResult.success →
      (st.handleCommand hcon cmd).Names rsp

/-- A call leaves the table as it should be; a failed `l2cap_chan_create` changes nothing, and every
command of a frame keeps the law. -/
def Keeps (st : L2capState) (call : L2capCall) : Prop :=
  (st.next call).TableOk ∧
    match call with
    | .chanCreate hcon psm => ∀ e, (st.chanCreate hcon psm).1 = .error e →
        (st.chanCreate hcon psm).2 = st
    | .recvFrame hcon data =>
        Runs.Along (handleCommand hcon) (CommandKeeps hcon) st (frameCommands data)
    | _ => True

/-- There is a free slot. -/
def HasRoom (st : L2capState) : Prop := ∃ i, (st.chans i).valid = false

/-- A `CONN_REQ` for a registered protocol finds a free slot and an identifier in the range. -/
def CommandFits (st : L2capState) (cmd : SigCommand) : Prop :=
  cmd.code = SigCommand.connReq → 4 ≤ cmd.params.length →
    st.hasPsm (leWord cmd.params 0) = true → st.nextCid ≤ l2capCidDynEnd ∧ st.HasRoom

/-- `l2cap_chan_create` finds a free slot, or no identifier is left; every command of a frame fits.
-/
def Fits (st : L2capState) : L2capCall → Prop
  | .chanCreate _ _ => l2capCidDynEnd < st.nextCid ∨ st.HasRoom
  | .recvFrame hcon data =>
      Runs.Along (handleCommand hcon) CommandFits st (frameCommands data)
  | _ => True

/-! ### The invariant -/

/-- The channels have different identifiers, all of which were counted. -/
structure Counted (st : L2capState) : Prop where
  start_le : l2capCidDynStart.toNat ≤ st.nextCid.toNat
  le_end : st.nextCid.toNat ≤ l2capCidDynEnd.toNat + 1
  inRange : ∀ i, (st.chans i).valid = true →
    l2capCidDynStart.toNat ≤ (st.chans i).scid.toNat ∧ (st.chans i).scid.toNat < st.nextCid.toNat
  injective : ∀ i j, (st.chans i).valid = true → (st.chans j).valid = true →
    (st.chans i).scid = (st.chans j).scid → i = j

variable {st st' : L2capState}

theorem Counted.tableOk (h : st.Counted) : st.TableOk where
  inRange i hi := by
    obtain ⟨hstart, hlt⟩ := h.inRange i hi
    have hend := h.le_end
    exact ⟨hstart, BitVec.le_def.2 (by omega)⟩
  injective := h.injective

theorem counted_new : new.Counted where
  start_le := le_refl _
  le_end := by decide
  inRange _ hi := by cases hi
  injective _ _ hi := by cases hi

/-- A change that adds no channel keeps the invariant. -/
theorem Counted.of_shrinks (h : st.Counted) (hnext : st'.nextCid = st.nextCid)
    (hchans : ∀ i, (st'.chans i).valid = true →
      (st.chans i).valid = true ∧ (st'.chans i).scid = (st.chans i).scid) : st'.Counted where
  start_le := hnext ▸ h.start_le
  le_end := hnext ▸ h.le_end
  inRange i hi := by
    obtain ⟨hvalid, hscid⟩ := hchans i hi
    rw [hscid, hnext]
    exact h.inRange i hvalid
  injective i j hi hj hij := by
    obtain ⟨hvi, hsi⟩ := hchans i hi
    obtain ⟨hvj, hsj⟩ := hchans j hj
    exact h.injective i j hvi hvj (hsi.symm.trans (hij.trans hsj))

/-- Changing a channel without changing its identifier adds no channel. -/
theorem Counted.updateFirst (h : st.Counted) {p : L2capChan → Bool}
    {f : L2capChan → L2capChan} (hp : ∀ c, p c = true → c.valid = true)
    (hf : ∀ c, (f c).scid = c.scid) : (st.updateFirst p f).Counted := by
  refine h.of_shrinks ?_ fun i hi => ?_
  · rw [L2capState.updateFirst]
    split <;> rfl
  · rw [updateFirst_chans] at hi ⊢
    split at hi
    · rename_i hfind
      rw [if_pos hfind]
      exact ⟨hp _ (findSlot_eq_some hfind), hf _⟩
    · rename_i hfind
      rw [if_neg hfind]
      exact ⟨hi, rfl⟩

/-- A channel with the next identifier in a free slot keeps the invariant. -/
theorem Counted.insert (h : st.Counted) {i : Fin maxL2capChans} {c : L2capChan}
    (hfree : (st.chans i).valid = false) (hend : st.nextCid ≤ l2capCidDynEnd)
    (hnext : st'.nextCid = st.nextCid + 1#16) (hscid : c.scid = st.nextCid)
    (hchans : st'.chans = Function.update st.chans i c) : st'.Counted := by
  have hlt : st.nextCid.toNat < 0x8000 := by
    have hle := BitVec.le_def.1 hend
    change st.nextCid.toNat ≤ 0x7FFF at hle
    omega
  have hnat : st'.nextCid.toNat = st.nextCid.toNat + 1 := by
    rw [hnext, BitVec.toNat_add]
    change (st.nextCid.toNat + 1) % 2 ^ 16 = _
    omega
  have hstart := h.start_le
  have hcases : ∀ j, (st'.chans j).valid = true →
      (j = i ∧ (st'.chans j).scid = st.nextCid) ∨
        (j ≠ i ∧ (st.chans j).valid = true ∧ (st'.chans j).scid = (st.chans j).scid) := by
    intro j hj
    rw [hchans] at hj ⊢
    by_cases hji : j = i
    · refine .inl ⟨hji, ?_⟩
      rw [hji, Function.update_self, hscid]
    · rw [Function.update_of_ne hji] at hj ⊢
      exact .inr ⟨hji, hj, rfl⟩
  -- the identifiers that are in use were counted before
  have hfresh : ∀ j, (st.chans j).valid = true → (st.chans j).scid ≠ st.nextCid := by
    intro j hj heq
    have hlt := (h.inRange j hj).2
    rw [heq] at hlt
    exact absurd hlt (lt_irrefl _)
  refine ⟨by omega, ?_, fun j hj => ?_, fun j k hj hk hjk => ?_⟩
  · change st'.nextCid.toNat ≤ 0x7FFF + 1
    omega
  · rcases hcases j hj with ⟨-, hs⟩ | ⟨-, hvalid, hs⟩
    · rw [hs]
      omega
    · have hold := h.inRange j hvalid
      rw [hs]
      omega
  · rcases hcases j hj with ⟨rfl, hsj⟩ | ⟨-, hvj, hsj⟩ <;>
      rcases hcases k hk with ⟨hki, hsk⟩ | ⟨-, hvk, hsk⟩
    · exact hki.symm
    · exact absurd (hsk.symm.trans (hjk.symm.trans hsj)) (hfresh k hvk)
    · exact absurd (hsj.symm.trans (hjk.trans hsk)) (hfresh j hvj)
    · exact h.injective j k hvj hvk (hsj.symm.trans (hjk.trans hsk))

/-! ### Free slots -/

theorem HasRoom.findSlot (h : st.HasRoom) :
    ∃ i, st.findSlot (fun slot => !slot.valid) = some i ∧ (st.chans i).valid = false := by
  obtain ⟨j, hj⟩ := h
  cases hfind : st.findSlot fun slot => !slot.valid with
  | none =>
      have hnone := List.find?_eq_none.1 hfind j (List.mem_finRange j)
      dsimp only at hnone
      rw [hj] at hnone
      exact absurd rfl hnone
  | some i =>
      have hfree := findSlot_eq_some hfind
      exact ⟨i, rfl, by simpa using hfree⟩

theorem findSlot_of_full (h : ¬ st.HasRoom) : st.findSlot (fun slot => !slot.valid) = none := by
  refine List.find?_eq_none.2 fun i _ hfree => h ⟨i, ?_⟩
  simpa using hfree

/-! ### The calls -/

theorem counted_registerPsm (h : st.Counted) (psm : BitVec 16) (handler : ℕ) :
    (st.registerPsm psm handler).2.Counted := by
  rw [registerPsm]
  split
  · exact h.of_shrinks rfl fun i hi => ⟨hi, rfl⟩
  · exact h

theorem counted_chanClose (h : st.Counted) (scid : BitVec 16) : (st.chanClose scid).Counted :=
  h.updateFirst (fun c hc => by simp_all) fun _ => rfl

theorem chanCreate_of_exhausted (h : l2capCidDynEnd < st.nextCid) (hcon psm : BitVec 16) :
    st.chanCreate hcon psm = (.error .resourceExhausted, st) := if_pos h

/-- `l2cap_chan_create` with a free slot. -/
theorem chanCreate_of_room (hend : ¬ l2capCidDynEnd < st.nextCid) (h : st.HasRoom)
    (hcon psm : BitVec 16) : ∃ i c, (st.chans i).valid = false ∧ c.scid = st.nextCid ∧
      st.chanCreate hcon psm = (.ok st.nextCid,
        { st with nextCid := st.nextCid + 1#16, chans := Function.update st.chans i c }) := by
  obtain ⟨i, hfind, hfree⟩ := h.findSlot
  refine ⟨i, { L2capChan.empty with
    scid := st.nextCid
    psm := psm
    hcon := hcon
    state := .waitConn
    valid := true }, hfree, rfl, ?_⟩
  rw [chanCreate, if_neg hend]
  have hfind' : ({ st with nextCid := st.nextCid + 1#16 } : L2capState).findSlot
      (fun slot => !slot.valid) = some i := hfind
  dsimp only
  rw [hfind']

/-- `l2cap_chan_create` with a full table: the counter has moved. -/
theorem chanCreate_of_full (hend : ¬ l2capCidDynEnd < st.nextCid) (h : ¬ st.HasRoom)
    (hcon psm : BitVec 16) : st.chanCreate hcon psm =
      (.error .resourceExhausted, { st with nextCid := st.nextCid + 1#16 }) := by
  have hfind : ({ st with nextCid := st.nextCid + 1#16 } : L2capState).findSlot
      (fun slot => !slot.valid) = none := findSlot_of_full h
  rw [chanCreate, if_neg hend]
  dsimp only
  rw [hfind]

theorem not_lt_end_iff : ¬ l2capCidDynEnd < st.nextCid ↔ st.nextCid ≤ l2capCidDynEnd := by
  rw [BitVec.lt_def, BitVec.le_def]
  exact Nat.not_lt

theorem counted_chanCreate (h : st.Counted) (hcon psm : BitVec 16)
    (hfits : st.Fits (.chanCreate hcon psm)) : (st.chanCreate hcon psm).2.Counted := by
  by_cases hend : l2capCidDynEnd < st.nextCid
  · rw [chanCreate_of_exhausted hend]
    exact h
  · obtain ⟨i, c, hfree, hscid, heq⟩ := chanCreate_of_room hend (hfits.resolve_left hend) hcon psm
    rw [heq]
    exact h.insert hfree (not_lt_end_iff.1 hend) rfl hscid rfl

/-- A failed `l2cap_chan_create` changes nothing exactly if it does not find the table full. -/
theorem chanCreate_unchanged_iff (hcon psm : BitVec 16) :
    (∀ e, (st.chanCreate hcon psm).1 = .error e → (st.chanCreate hcon psm).2 = st) ↔
      st.Fits (.chanCreate hcon psm) := by
  by_cases hend : l2capCidDynEnd < st.nextCid
  · rw [chanCreate_of_exhausted hend]
    exact iff_of_true (fun _ _ => rfl) (.inl hend)
  by_cases hroom : st.HasRoom
  · obtain ⟨i, c, -, -, heq⟩ := chanCreate_of_room hend hroom hcon psm
    rw [heq]
    exact iff_of_true (fun e he => by cases he) (.inr hroom)
  · rw [chanCreate_of_full hend hroom]
    refine iff_of_false (fun hsame => ?_) fun hfits => hroom (hfits.resolve_left hend)
    have hcid : st.nextCid + 1#16 = st.nextCid := congrArg nextCid (hsame _ rfl)
    have hne : st.nextCid + 1#16 ≠ st.nextCid := by simp
    exact hne hcid

/-! ### The commands -/

/-- A command that is no `CONN_REQ` adds no channel. -/
theorem Counted.otherCommand (h : st.Counted) (hcon : BitVec 16) {cmd : SigCommand}
    (hcode : cmd.code ≠ SigCommand.connReq) : (st.handleCommand hcon cmd).Counted := by
  rw [handleCommand, if_neg hcode]
  split
  · rw [handleConnRsp]
    dsimp only
    split
    · exact h
    split
    · exact h
    · exact h.updateFirst (fun c hc => by simp_all) fun _ => rfl
  split
  · rw [handleConfReq]
    split
    · exact h
    · exact h.updateFirst (fun c hc => by simp_all) fun _ => rfl
  split
  · rw [handleConfRsp]
    dsimp only
    split
    · exact h
    split
    · exact h
    · exact h.updateFirst (fun c hc => by simp_all) fun _ => rfl
  split
  · rw [handleDisconnReq]
    split
    · exact h
    · exact h.updateFirst (fun c hc => by simp_all) fun _ => rfl
  split
  · rw [handleDisconnRsp]
    split
    · exact h
    · exact h.updateFirst (fun c hc => by simp_all) fun _ => rfl
  · exact h

theorem handleCommand_connReq (hcon : BitVec 16) {cmd : SigCommand}
    (hcode : cmd.code = SigCommand.connReq) :
    st.handleCommand hcon cmd = st.handleConnReq hcon cmd.ident cmd.params := if_pos hcode

theorem response_connReq (hcon : BitVec 16) {cmd : SigCommand}
    (hcode : cmd.code = SigCommand.connReq) :
    st.response hcon cmd = st.connReqResponse hcon cmd.ident cmd.params := if_pos hcode

/-- A `CONN_REQ` that is too short, or for an unknown protocol, is not accepted. -/
theorem handleConnReq_of_not {p : List (BitVec 8)} (hcon : BitVec 16) (ident : BitVec 8)
    (h : ¬ (4 ≤ p.length ∧ st.hasPsm (leWord p 0) = true)) :
    st.handleConnReq hcon ident p = st ∧
      ∀ rsp ∈ st.connReqResponse hcon ident p, rsp.result ≠ L2capResult.success := by
  rw [handleConnReq, connReqResponse]
  by_cases hlen : p.length < 4
  · rw [if_pos hlen, if_pos hlen]
    exact ⟨rfl, fun _ hrsp => absurd hrsp (Option.not_mem_none _)⟩
  · have hpsm : ¬ st.hasPsm (leWord p 0) = true := fun hpsm => h ⟨Nat.not_lt.1 hlen, hpsm⟩
    rw [if_neg hlen, if_neg hlen, if_neg hpsm]
    refine ⟨if_neg hpsm, fun rsp hrsp => ?_⟩
    cases hrsp
    have hne : L2capResult.refusedPsm ≠ L2capResult.success := by decide
    exact hne

/-- The counter after a `CONN_REQ`. -/
def afterCid (cid : BitVec 16) : BitVec 16 :=
  if cid + 1#16 < l2capCidDynStart then l2capCidDynStart else cid + 1#16

/-- The channel of a `CONN_REQ` that is accepted. -/
def acceptedChan (hcon scid : BitVec 16) (ident : BitVec 8) (p : List (BitVec 8)) : L2capChan :=
  { L2capChan.empty with
    scid := scid
    dcid := leWord p 2
    psm := leWord p 0
    hcon := hcon
    state := .config
    ident := ident
    valid := true }

/-- A `CONN_REQ` that is accepted. -/
theorem handleConnReq_eq {p : List (BitVec 8)} (hlen : 4 ≤ p.length)
    (hpsm : st.hasPsm (leWord p 0) = true) (hcon : BitVec 16) (ident : BitVec 8) :
    st.handleConnReq hcon ident p =
      ({ st with nextCid := afterCid st.nextCid } : L2capState).updateFirst
        (fun slot => !slot.valid) fun _ => acceptedChan hcon st.nextCid ident p := by
  rw [handleConnReq, if_neg (Nat.not_lt.2 hlen)]
  exact if_pos hpsm

theorem connReqResponse_eq {p : List (BitVec 8)} (hlen : 4 ≤ p.length)
    (hpsm : st.hasPsm (leWord p 0) = true) (hcon : BitVec 16) (ident : BitVec 8) :
    st.connReqResponse hcon ident p =
      some ⟨hcon, ident, st.nextCid, leWord p 2, L2capResult.success⟩ := by
  rw [connReqResponse, if_neg (Nat.not_lt.2 hlen), if_pos hpsm]

theorem afterCid_of_le {cid : BitVec 16} (hstart : l2capCidDynStart.toNat ≤ cid.toNat)
    (hend : cid ≤ l2capCidDynEnd) : afterCid cid = cid + 1#16 := by
  refine if_neg fun hlt => ?_
  have hle := BitVec.le_def.1 hend
  have hlt := BitVec.lt_def.1 hlt
  rw [BitVec.toNat_add] at hlt
  change cid.toNat ≤ 0x7FFF at hle
  change (cid.toNat + 1) % 2 ^ 16 < 0x40 at hlt
  change 0x40 ≤ cid.toNat at hstart
  omega

/-- A `CONN_REQ` that is accepted keeps the law exactly if it finds a free slot and an identifier in
the range; then the invariant is kept. -/
theorem Counted.connReq (h : st.Counted) {p : List (BitVec 8)} (hlen : 4 ≤ p.length)
    (hpsm : st.hasPsm (leWord p 0) = true) (hcon : BitVec 16) (ident : BitVec 8) :
    (((st.handleConnReq hcon ident p).TableOk ∧
      ∀ rsp ∈ st.connReqResponse hcon ident p, rsp.result = L2capResult.success →
        (st.handleConnReq hcon ident p).Names rsp) ↔
      st.nextCid ≤ l2capCidDynEnd ∧ st.HasRoom) ∧
    (st.nextCid ≤ l2capCidDynEnd ∧ st.HasRoom → (st.handleConnReq hcon ident p).Counted) := by
  rw [handleConnReq_eq hlen hpsm, connReqResponse_eq hlen hpsm]
  by_cases hroom : st.HasRoom
  · obtain ⟨i, hfind, hfree⟩ := hroom.findSlot
    have hfind' : ({ st with nextCid := afterCid st.nextCid } : L2capState).findSlot
        (fun slot => !slot.valid) = some i := hfind
    rw [L2capState.updateFirst, hfind']
    dsimp only
    have hkeeps : st.nextCid ≤ l2capCidDynEnd → L2capState.Counted
        { chans := Function.update st.chans i (acceptedChan hcon st.nextCid ident p)
          psmReg := st.psmReg
          nextCid := afterCid st.nextCid } := fun hend =>
      h.insert hfree hend (afterCid_of_le h.start_le hend) rfl rfl
    refine ⟨⟨fun hlaw => ⟨?_, hroom⟩, fun hfits => ⟨(hkeeps hfits.1).tableOk, ?_⟩⟩,
      fun hfits => hkeeps hfits.1⟩
    · have hrange := (hlaw.1.inRange i (by simp [acceptedChan])).2
      dsimp only at hrange
      rwa [Function.update_self] at hrange
    · intro rsp hrsp _
      cases hrsp
      exact ⟨i, by simp [acceptedChan]⟩
  · have hfind : ({ st with nextCid := afterCid st.nextCid } : L2capState).findSlot
        (fun slot => !slot.valid) = none := findSlot_of_full hroom
    rw [L2capState.updateFirst, hfind]
    refine ⟨iff_of_false (fun hlaw => ?_) fun hfits => hroom hfits.2,
      fun hfits => absurd hfits.2 hroom⟩
    -- no channel has the identifier that the response names
    obtain ⟨i, hvalid, hscid, -⟩ := hlaw.2 _ rfl rfl
    have hlt := (h.inRange i hvalid).2
    rw [hscid] at hlt
    exact absurd hlt (lt_irrefl _)

/-- A command keeps the law exactly if it fits; then the invariant is kept. -/
theorem Counted.command (h : st.Counted) (hcon : BitVec 16) (cmd : SigCommand) :
    (CommandKeeps hcon st cmd ↔ st.CommandFits cmd) ∧
      (st.CommandFits cmd → (st.handleCommand hcon cmd).Counted) := by
  rw [CommandKeeps, CommandFits]
  by_cases hcode : cmd.code = SigCommand.connReq
  · rw [handleCommand_connReq hcon hcode, response_connReq hcon hcode]
    by_cases haccept : 4 ≤ cmd.params.length ∧ st.hasPsm (leWord cmd.params 0) = true
    · obtain ⟨hiff, hnext⟩ := h.connReq haccept.1 haccept.2 hcon cmd.ident
      have hfits : (cmd.code = SigCommand.connReq → 4 ≤ cmd.params.length →
          st.hasPsm (leWord cmd.params 0) = true → st.nextCid ≤ l2capCidDynEnd ∧ st.HasRoom) ↔
          st.nextCid ≤ l2capCidDynEnd ∧ st.HasRoom :=
        ⟨fun hall => hall hcode haccept.1 haccept.2, fun hfits _ _ _ => hfits⟩
      rw [hfits]
      exact ⟨hiff, hnext⟩
    · obtain ⟨hsame, hrefused⟩ := handleConnReq_of_not hcon cmd.ident haccept
      rw [hsame]
      refine ⟨iff_of_true ⟨h.tableOk, fun rsp hrsp hok => absurd hok (hrefused rsp hrsp)⟩
        fun _ hlen hpsm => absurd ⟨hlen, hpsm⟩ haccept, fun _ => h⟩
  · have hnext := h.otherCommand hcon hcode
    have hnone : st.response hcon cmd = none := if_neg hcode
    rw [hnone]
    exact ⟨iff_of_true ⟨hnext.tableOk, fun _ hrsp => absurd hrsp (Option.not_mem_none _)⟩
      fun hreq => absurd hreq hcode, fun _ => hnext⟩

/-- The commands of a frame. -/
theorem Counted.frame (h : st.Counted) (hcon : BitVec 16) {cmds : List SigCommand}
    (hfits : Runs.Along (handleCommand hcon) CommandFits st cmds) :
    (cmds.foldl (handleCommand hcon) st).Counted := by
  induction cmds generalizing st with
  | nil => exact h
  | cons cmd cmds ih => exact ih ((h.command hcon cmd).2 hfits.1) hfits.2

/-- A call keeps the law exactly if it fits; then the invariant is kept. -/
theorem Counted.call (h : st.Counted) (call : L2capCall) :
    (st.Keeps call ↔ st.Fits call) ∧ (st.Fits call → (st.next call).Counted) := by
  cases call with
  | registerPsm psm handler =>
      have hnext := counted_registerPsm h psm handler
      exact ⟨iff_of_true ⟨hnext.tableOk, trivial⟩ trivial, fun _ => hnext⟩
  | chanClose scid =>
      have hnext := counted_chanClose h scid
      exact ⟨iff_of_true ⟨hnext.tableOk, trivial⟩ trivial, fun _ => hnext⟩
  | chanCreate hcon psm =>
      have hnext := counted_chanCreate h hcon psm
      exact ⟨⟨fun hkeeps => (chanCreate_unchanged_iff hcon psm).1 hkeeps.2,
        fun hfits => ⟨(hnext hfits).tableOk, (chanCreate_unchanged_iff hcon psm).2 hfits⟩⟩, hnext⟩
  | recvFrame hcon data =>
      have hlaw : Runs.Along (handleCommand hcon) (CommandKeeps hcon) st (frameCommands data) ↔
          Runs.Along (handleCommand hcon) CommandFits st (frameCommands data) :=
        Runs.along_iff (fun s cmd hs _ => (hs.command hcon cmd).1)
          (fun s cmd hs _ => (hs.command hcon cmd).2) h (Runs.along_true _ _ _)
      have hnext : st.Fits (.recvFrame hcon data) → (st.next (.recvFrame hcon data)).Counted := by
        intro hfits
        rw [next, recvFrame_fst]
        exact h.frame hcon hfits
      exact ⟨⟨fun hkeeps => hlaw.1 hkeeps.2, fun hfits => ⟨(hnext hfits).tableOk, hlaw.2 hfits⟩⟩,
        hnext⟩

end L2capState

/-- Along a run the table is as it should be, no response names a channel that is not there, and no
failed call changes anything, exactly if every allocation fits. -/
theorem l2cap_table_iff (calls : List L2capCall) :
    Runs.Along L2capState.next L2capState.Keeps .new calls ↔
      Runs.Along L2capState.next L2capState.Fits .new calls :=
  Runs.along_iff (fun _ call h _ => (h.call call).1) (fun _ call h _ => (h.call call).2)
    L2capState.counted_new (Runs.along_true _ _ _)

/-! ### A full table -/

/-- A protocol is registered, and every slot is taken. -/
def fullTableCalls : List L2capCall :=
  .registerPsm 3#16 1 :: List.replicate maxL2capChans (.chanCreate 1#16 3#16)

/-- A signalling frame with a `CONN_REQ` for the protocol, from the remote channel `0x50`. -/
def connReqFrame : List (BitVec 8) :=
  [8#8, 0#8, 1#8, 0#8, 2#8, 1#8, 4#8, 0#8, 3#8, 0#8, 0x50#8, 0#8]

/-- The request is answered with success, and with an identifier that no channel has. -/
theorem l2cap_full_table :
    (fullTableCalls.foldl L2capState.next .new).response 1#16
        ⟨2#8, 1#8, [3#8, 0#8, 0x50#8, 0#8]⟩ =
      some ⟨1#16, 1#8, 0x60#16, 0x50#16, L2capResult.success⟩ ∧
    ¬ Runs.Along L2capState.next L2capState.Keeps .new
      (fullTableCalls ++ [.recvFrame 1#16 connReqFrame]) := by
  have hresponse : (fullTableCalls.foldl L2capState.next .new).response 1#16
      ⟨2#8, 1#8, [3#8, 0#8, 0x50#8, 0#8]⟩ =
        some ⟨1#16, 1#8, 0x60#16, 0x50#16, L2capResult.success⟩ := by decide +kernel
  have hcommands : L2capState.frameCommands connReqFrame =
      [⟨2#8, 1#8, [3#8, 0#8, 0x50#8, 0#8]⟩] := by
    simp [L2capState.frameCommands, connReqFrame, leWord, l2capCidSignaling,
      L2capState.sigCommands]
  have hmissing : ∀ i, (((fullTableCalls.foldl L2capState.next .new).handleCommand 1#16
      ⟨2#8, 1#8, [3#8, 0#8, 0x50#8, 0#8]⟩).chans i).scid ≠ 0x60#16 := by decide +kernel
  refine ⟨hresponse, fun hrun => ?_⟩
  obtain ⟨-, -, halong⟩ := Runs.along_concat.1 hrun
  dsimp only at halong
  rw [hcommands] at halong
  obtain ⟨i, -, hscid, -⟩ := halong.1.2 _ hresponse rfl
  exact hmissing i hscid

end StarOS
