/-
I2C by setting the lines (`drivers/i2c/algo.rs`): a list of messages on a bus of two lines.

`bit_xfer` speaks I2C: the messages are seen on the bus as a start, the address and the data of each
message with acknowledgements, starts between them (behind a stop where a message asks for it), and
a stop.  What is read into the buffers is what the devices present, and all bytes read are
acknowledged but the last one of a message.

* `StarOS.I2cMsg`, `StarOS.I2cBitOps`, `StarOS.XferState` — messages, what the lines answer, and the
  bus with the messages of a transfer;
* `StarOS.I2cAlgoBitData.bitXfer` — the code, with its helpers;
* `StarOS.I2cAlgoBitData.Works`, `StarOS.I2cMsg.Plain` — what is taken for granted;
* `StarOS.I2cAlgoBitData.i2cOutb_low`, `StarOS.I2cAlgoBitData.i2cInb_low`,
  `StarOS.I2cAlgoBitData.acknak_low` — bytes on the lines, from one low clock to another;
* `StarOS.transferEvents` — what should be seen;
* `StarOS.i2c_bitXfer` — it is.
-/

import StarOS.I2cClients
import StarOS.TwoWire
import StarOS.Word

set_option autoImplicit false

namespace StarOS

open TwoWire

/-! ### Messages and lines -/

/-- `I2C_M_RD`. -/
def i2cMRd : BitVec 16 := 0x0001#16

/-- `I2C_M_TEN`. -/
def i2cMTen : BitVec 16 := 0x0010#16

/-- `I2C_M_RECV_LEN`. -/
def i2cMRecvLen : BitVec 16 := 0x0400#16

/-- `I2C_M_NO_RD_ACK`. -/
def i2cMNoRdAck : BitVec 16 := 0x0800#16

/-- `I2C_M_IGNORE_NAK`. -/
def i2cMIgnoreNak : BitVec 16 := 0x1000#16

/-- `I2C_M_REV_DIR_ADDR`. -/
def i2cMRevDirAddr : BitVec 16 := 0x2000#16

/-- `I2C_M_NOSTART`. -/
def i2cMNostart : BitVec 16 := 0x4000#16

/-- `I2C_M_STOP`. -/
def i2cMStop : BitVec 16 := 0x8000#16

/-- `I2C_SMBUS_BLOCK_MAX`. -/
def i2cSmbusBlockMax : ℕ := 32

/-- `I2cMsg`. -/
structure I2cMsg where
  addr : BitVec 16
  flags : BitVec 16
  buf : List (BitVec 8)
  deriving DecidableEq, Repr

/-- A flag of a message is set. -/
def I2cMsg.has (msg : I2cMsg) (flag : BitVec 16) : Bool := decide (msg.flags &&& flag ≠ 0#16)

/-- `I2cBitOps`: the devices on the bus, whether the data line can be read, what reading the clock
answers after the events so far and so many reads since the clock changed, and what `pre_xfer`
returns.  Setting a line changes the bus; `post_xfer` and the delays do not. -/
structure I2cBitOps where
  devices : Devices
  sdaReadable : Bool
  scl : List Event → ℕ → Option Bool
  preXfer : Except I2cError Unit

/-- `I2cAlgoBitData`, without the delay. -/
structure I2cAlgoBitData where
  ops : I2cBitOps
  timeout : BitVec 32

/-- The bus, and the messages of the transfer. -/
structure XferState where
  bus : Bus
  msgs : List I2cMsg
  deriving DecidableEq, Repr

/-- A step of a transfer.  It may fail with an error, or panic (`none`). -/
abbrev Xfer := EStateM (Option I2cError) XferState

/-- The result of a step that may have failed. -/
def attempt {α : Type} (x : Xfer α) : Xfer (Except I2cError α) := fun s =>
  match x s with
  | .ok a t => .ok (.ok a) t
  | .error (some e) t => .ok (.error e) t
  | .error none t => .error none t

/-- `set_sda`. -/
def setSda (level : Bool) : Xfer Unit := modify fun s => { s with bus := s.bus.setSda level }

/-- `msgs[i]`. -/
def getMsg (i : ℕ) : Xfer I2cMsg := do
  match (← get).msgs[i]? with
  | some msg => pure msg
  | none => throw none

/-- A change of the buffer of `msgs[i]`. -/
def modifyBuf (i : ℕ) (f : List (BitVec 8) → List (BitVec 8)) : Xfer Unit :=
  modify fun s => { s with msgs := s.msgs.modify i fun msg => { msg with buf := f msg.buf } }

namespace I2cAlgoBitData

variable (d : I2cAlgoBitData)

/-- `set_scl`. -/
def setScl (level : Bool) : Xfer Unit :=
  modify fun s => { s with bus := s.bus.setScl d.ops.devices level }

/-- `get_sda`. -/
def getSda : Xfer (Option Bool) := do
  let s ← get
  pure (if d.ops.sdaReadable then some (s.bus.line d.ops.devices) else none)

/-- `get_scl`. -/
def getScl : Xfer (Option Bool) := do
  let s ← get
  set { s with bus := { s.bus with polls := s.bus.polls + 1 } }
  pure (d.ops.scl s.bus.events s.bus.polls)

/-- The loop of `sclhi`, with the number of rounds left. -/
def waitScl : ℕ → Xfer Unit
  | 0 => do
      match ← d.getScl with
      | some false =>
          match ← d.getScl with
          | some false => throw (some .timeout)
          | _ => pure ()
      | _ => pure ()
  | n + 1 => do
      match ← d.getScl with
      | some false => waitScl n
      | _ => pure ()

/-- `sclhi`. -/
def sclhi : Xfer Unit := do
  d.setScl true
  match ← d.getScl with
  | some _ => d.waitScl (d.timeout * 1000#32).toNat
  | none => pure ()

/-- `i2c_start`. -/
def i2cStart : Xfer Unit := do
  setSda false
  d.setScl false

/-- `i2c_repstart`. -/
def i2cRepstart : Xfer Unit := do
  setSda true
  d.sclhi
  setSda false
  d.setScl false

/-- `i2c_stop`. -/
def i2cStop : Xfer Unit := do
  setSda false
  d.sclhi
  setSda true

/-- The loop of `i2c_outb`, over the indices of the bits. -/
def outBits (c : BitVec 8) : List ℕ → Xfer Unit
  | [] => pure ()
  | i :: is => do
      setSda (decide ((c >>> i) &&& 1#8 ≠ 0#8))
      d.sclhi
      d.setScl false
      outBits c is

/-- `i2c_outb`. -/
def i2cOutb (c : BitVec 8) : Xfer ℕ := do
  d.outBits c (List.range 8).reverse
  setSda true
  d.sclhi
  let sda ← d.getSda
  d.setScl false
  pure (if sda = some true then 0 else 1)

/-- The loop of `i2c_inb`, with the number of bits left. -/
def inBits : ℕ → BitVec 8 → Xfer (BitVec 8)
  | 0, indata => pure indata
  | n + 1, indata => do
      d.sclhi
      let sda ← d.getSda
      d.setScl false
      inBits n (if sda = some true then indata <<< 1 ||| 1#8 else indata <<< 1)

/-- `i2c_inb`. -/
def i2cInb : Xfer (BitVec 8) := do
  setSda true
  d.inBits 8 0#8

/-- `try_address`. -/
def tryAddress (addr : BitVec 8) : ℕ → Xfer ℕ
  | 0 => d.i2cOutb addr
  | retries + 1 => do
      let ret ← d.i2cOutb addr
      if ret = 1 then pure ret
      else do
        d.i2cStop
        d.i2cStart
        tryAddress addr retries

/-- The loop of `sendbytes`. -/
def sendFrom (nakOk : Bool) : List (BitVec 8) → ℕ → Xfer ℕ
  | [], wrcount => pure wrcount
  | byte :: bytes, wrcount => do
      let retval ← d.i2cOutb byte
      if 0 < retval ∨ nakOk = true then sendFrom nakOk bytes (wrcount + 1)
      else throw (some .ioError)

/-- `sendbytes`. -/
def sendbytes (msg : I2cMsg) : Xfer ℕ := d.sendFrom (msg.has i2cMIgnoreNak) msg.buf 0

/-- `acknak`. -/
def acknak (isAck : Bool) : Xfer Unit := do
  if isAck then setSda false else pure ()
  d.sclhi
  d.setScl false

/-- `acknak`, unless the flags ask for no acknowledgements. -/
def acknakUnless (flags : BitVec 16) (isAck : Bool) : Xfer Unit :=
  if flags &&& i2cMNoRdAck = 0#16 then d.acknak isAck else pure ()

/-- The part of `readbytes` after the first byte if it is the number of those that follow: the count
of bytes afterwards. -/
def recvLen (i : ℕ) (flags : BitVec 16) (rdcount count : ℕ) (inval : BitVec 8) : Xfer ℕ :=
  if rdcount = 1 ∧ flags &&& i2cMRecvLen ≠ 0#16 then
    if inval = 0#8 ∨ i2cSmbusBlockMax < inval.toNat then do
      d.acknakUnless flags false
      throw (some .ioError)
    else do
      modifyBuf i fun buf => buf ++ List.replicate (count + inval.toNat - buf.length) 0#8
      pure (count + inval.toNat)
  else pure count

/-- The loop of `readbytes`, with the number of rounds left, the count of bytes read, and that of
all bytes. -/
def readFrom (i : ℕ) (flags : BitVec 16) : ℕ → ℕ → ℕ → Xfer ℕ
  | 0, rdcount, _ => pure rdcount
  | n + 1, rdcount, count => do
      let inval ← d.i2cInb
      modifyBuf i fun buf => buf.set rdcount inval
      let count ← d.recvLen i flags (rdcount + 1) count inval
      d.acknakUnless flags (decide (0 < count - (rdcount + 1)))
      readFrom i flags n (rdcount + 1) count

/-- `readbytes`. -/
def readbytes (i : ℕ) : Xfer ℕ := do
  match ← d.getSda with
  | none => throw (some .notSupported)
  | some _ => do
      let msg ← getMsg i
      d.readFrom i msg.flags msg.buf.length 0 msg.buf.length

/-- An answer to an address that is not an acknowledgement is an error, unless that is ignored. -/
def checkAck (nakOk : Bool) (e : I2cError) (ret : ℕ) : Xfer Unit :=
  if ret ≠ 1 ∧ nakOk = false then throw (some e) else pure ()

/-- `bit_do_address`. -/
def bitDoAddress (msg : I2cMsg) (retries : ℕ) : Xfer Unit :=
  let nakOk := msg.has i2cMIgnoreNak
  if msg.has i2cMTen then do
    let addr := 0xf0#8 ||| ((msg.addr >>> 7) &&& 0x06#16).setWidth 8
    let ret ← d.tryAddress addr retries
    checkAck nakOk .notFound ret
    let ret ← d.i2cOutb ((msg.addr &&& 0xff#16).setWidth 8)
    checkAck nakOk .notFound ret
    if msg.has i2cMRd then do
      d.i2cRepstart
      let ret ← d.tryAddress (addr ||| 0x01#8) retries
      checkAck nakOk .ioError ret
    else pure ()
  else do
    let addr := ((msg.addr <<< 1) ||| if msg.has i2cMRd then 1#16 else 0#16).setWidth 8
    let ret ← d.tryAddress (if msg.has i2cMRevDirAddr then addr ^^^ 1#8 else addr) retries
    checkAck nakOk .notFound ret

/-- The end of a transfer that has failed. -/
def abortXfer (e : I2cError) : Xfer Unit := do
  let _ ← attempt d.i2cStop
  throw (some e)

/-- The part of `bit_xfer` between two messages. -/
def nextMsg (i : ℕ) : Xfer Unit :=
  if 0 < i then do
    let prev ← getMsg (i - 1)
    if prev.has i2cMStop then do
      d.i2cStop
      d.i2cStart
    else d.i2cRepstart
  else pure ()

/-- The part of `bit_xfer` that addresses a message. -/
def addressMsg (i retries : ℕ) (msg : I2cMsg) : Xfer Unit := do
  d.nextMsg i
  match ← attempt (d.bitDoAddress msg retries) with
  | .ok _ => pure ()
  | .error e => if msg.has i2cMIgnoreNak then pure () else d.abortXfer e

/-- A round of the loop of `bit_xfer`. -/
def xferMsg (i retries : ℕ) : Xfer Unit := do
  let msg ← getMsg i
  if msg.has i2cMNostart then pure () else d.addressMsg i retries msg
  match ← attempt (if msg.has i2cMRd then d.readbytes i else d.sendbytes msg) with
  | .ok _ => pure ()
  | .error e => d.abortXfer e

/-- The loop of `bit_xfer`, with the number of messages left. -/
def xferFrom (retries : ℕ) : ℕ → ℕ → Xfer Unit
  | 0, _ => pure ()
  | n + 1, i => do
      d.xferMsg i retries
      xferFrom retries n (i + 1)

/-- `bit_xfer`, with the `retries` of the adapter. -/
def bitXfer (retries : ℕ) : Xfer ℕ := do
  match d.ops.preXfer with
  | .error e => throw (some e)
  | .ok _ => do
      d.i2cStart
      let s ← get
      d.xferFrom retries s.msgs.length 0
      d.i2cStop
      pure s.msgs.length

end I2cAlgoBitData

/-! ### Pulses of the clock -/

namespace I2cAlgoBitData

/-- No device holds the clock low for longer than `sclhi` waits for it. -/
def NoTimeout (d : I2cAlgoBitData) : Prop :=
  ∀ h, d.ops.scl h 0 = none ∨
    ∃ k ≤ (d.timeout * 1000#32).toNat + 1, d.ops.scl h (1 + k) ≠ some false

section Pulses

variable {d : I2cAlgoBitData} {v : Bool} {h : List Event} {p n : ℕ} {M : List I2cMsg}

theorem getScl_up : d.getScl ⟨.up v h p, M⟩ = .ok (d.ops.scl h p) ⟨.up v h (p + 1), M⟩ := rfl

theorem getSda_up (hsda : d.ops.sdaReadable = true) :
    d.getSda ⟨.up v h p, M⟩ = .ok (some (v && d.ops.devices h)) ⟨.up v h p, M⟩ := by
  change EStateM.Result.ok (if d.ops.sdaReadable = true then _ else none) _ = _
  rw [if_pos hsda]
  rfl

theorem setSda_low (level : Bool) :
    setSda level ⟨.low v h, M⟩ = .ok () ⟨.low level h, M⟩ := by
  change EStateM.Result.ok () (⟨(Bus.low v h).setSda level, M⟩ : XferState) = _
  rw [Bus.setSda_low]

theorem setScl_up : d.setScl false ⟨.up v h p, M⟩ =
    .ok () ⟨.low v (h ++ [.bit (v && d.ops.devices h)]), M⟩ := by
  change EStateM.Result.ok () (⟨(Bus.up v h p).setScl d.ops.devices false, M⟩ : XferState) = _
  rw [Bus.setScl_up]

theorem waitScl_up (hlow : ∃ k ≤ n + 1, d.ops.scl h (p + k) ≠ some false) :
    ∃ p', d.waitScl n ⟨.up v h p, M⟩ = .ok () ⟨.up v h p', M⟩ := by
  induction n generalizing p with
  | zero =>
      rw [waitScl, run_bind getScl_up]
      rcases hfirst : d.ops.scl h p with _ | _ | _
      · exact ⟨p + 1, rfl⟩
      · -- the clock is read once more before the timeout
        dsimp only
        rw [run_bind getScl_up]
        rcases hsecond : d.ops.scl h (p + 1) with _ | _ | _
        · exact ⟨p + 2, rfl⟩
        · obtain ⟨k, hk, hne⟩ := hlow
          have hcases : k = 0 ∨ k = 1 := by omega
          rcases hcases with rfl | rfl
          · exact absurd hfirst hne
          · exact absurd hsecond hne
        · exact ⟨p + 2, rfl⟩
      · exact ⟨p + 1, rfl⟩
  | succ n ih =>
      rw [waitScl, run_bind getScl_up]
      rcases hfirst : d.ops.scl h p with _ | _ | _
      · exact ⟨p + 1, rfl⟩
      · obtain ⟨k, hk, hne⟩ := hlow
        cases k with
        | zero => exact absurd hfirst hne
        | succ k => exact ih ⟨k, by omega, by rwa [Nat.add_assoc, Nat.add_comm 1]⟩
      · exact ⟨p + 1, rfl⟩

/-- The clock goes up. -/
theorem sclhi_low (htime : d.NoTimeout) :
    ∃ p, d.sclhi ⟨.low v h, M⟩ = .ok () ⟨.up v h p, M⟩ := by
  have hrise : d.setScl true ⟨.low v h, M⟩ = .ok () ⟨.up v h 0, M⟩ := by
    change EStateM.Result.ok () (⟨(Bus.low v h).setScl d.ops.devices true, M⟩ : XferState) = _
    rw [Bus.setScl_low]
  rw [sclhi, run_bind hrise, run_bind getScl_up]
  cases hread : d.ops.scl h 0 with
  | none => exact ⟨1, rfl⟩
  | some level =>
      rcases htime h with hnone | hlow
      · rw [hnone] at hread
        cases hread
      · exact waitScl_up hlow

/-- A start while nothing happens on the bus. -/
theorem i2cStart_idle (quiet : Bool) :
    d.i2cStart ⟨⟨true, true, quiet, h, p⟩, M⟩ = .ok () ⟨.low false (h ++ [.start]), M⟩ := by
  change EStateM.Result.ok ()
    (⟨((⟨true, true, quiet, h, p⟩ : Bus).setSda false).setScl d.ops.devices false, M⟩ :
      XferState) = _
  rw [Bus.start_eq]

/-- A start within a transfer. -/
theorem i2cRepstart_low (htime : d.NoTimeout) :
    d.i2cRepstart ⟨.low v h, M⟩ = .ok () ⟨.low false (h ++ [.start]), M⟩ := by
  obtain ⟨p, hp⟩ := sclhi_low (v := true) (h := h) (M := M) htime
  rw [i2cRepstart, run_bind (setSda_low true), run_bind hp]
  exact i2cStart_idle true

/-- A stop leaves both lines high. -/
theorem i2cStop_low (htime : d.NoTimeout) :
    ∃ p, d.i2cStop ⟨.low v h, M⟩ = .ok () ⟨⟨true, true, false, h ++ [.stop], p⟩, M⟩ := by
  obtain ⟨p, hp⟩ := sclhi_low (v := false) (h := h) (M := M) htime
  refine ⟨p, ?_⟩
  rw [i2cStop, run_bind (setSda_low false), run_bind hp]
  change EStateM.Result.ok () (⟨(Bus.up false h p).setSda true, M⟩ : XferState) = _
  rw [Bus.stop_eq]

end Pulses

/-! ### Bytes -/

/-- What the lines and devices are taken to do. -/
structure Works (d : I2cAlgoBitData) : Prop where
  noTimeout : d.NoTimeout
  sdaReadable : d.ops.sdaReadable = true
  conforms : Conforms d.ops.devices

section Bytes

variable {d : I2cAlgoBitData} {v : Bool} {h : List Event} {M : List I2cMsg}

theorem bit_eq_getLsbD (c : BitVec 8) (i : ℕ) : decide ((c >>> i) &&& 1#8 ≠ 0#8) = c.getLsbD i := by
  have hmod : ((c >>> i) &&& 1#8).toNat = c.toNat / 2 ^ i % 2 := by
    rw [BitVec.toNat_and, BitVec.toNat_ushiftRight, Nat.shiftRight_eq_div_pow]
    exact Nat.and_one_is_mod _
  rw [BitVec.getLsbD, Nat.testBit_eq_decide_div_mod_eq, decide_eq_decide, ne_eq, ← BitVec.toNat_inj,
    hmod, BitVec.toNat_zero]
  omega

/-- Bits that the master writes, while the devices leave the line to it. -/
theorem outBits_low (hworks : d.Works) (c : BitVec 8) {l : List ℕ}
    (hreleased : ∀ bits : List Bool, bits.length < l.length →
      d.ops.devices (h ++ bitEvents bits) = true) :
    ∃ v', d.outBits c l ⟨.low v h, M⟩ =
      .ok () ⟨.low v' (h ++ bitEvents (l.map c.getLsbD)), M⟩ := by
  induction l generalizing v h with
  | nil => exact ⟨v, by rw [outBits, List.map_nil, bitEvents, List.map_nil, List.append_nil]; rfl⟩
  | cons i l ih =>
      have hnow := hreleased [] (by simp)
      rw [bitEvents, List.map_nil, List.append_nil] at hnow
      obtain ⟨p, hp⟩ := sclhi_low (v := c.getLsbD i) (h := h) (M := M) hworks.noTimeout
      obtain ⟨v', hrest⟩ := ih (v := c.getLsbD i) (h := h ++ [.bit (c.getLsbD i)])
        (fun bits hlt => by
          have hlater := hreleased (c.getLsbD i :: bits) (by simpa using hlt)
          rw [List.append_assoc]
          exact hlater)
      refine ⟨v', ?_⟩
      rw [outBits, bit_eq_getLsbD, run_bind (setSda_low _), run_bind hp, run_bind setScl_up, hnow,
        Bool.and_true, hrest, List.append_assoc]
      rfl

/-- A byte that the master writes. -/
theorem i2cOutb_low (hworks : d.Works) (hh : Fresh h ∨ Addressed false h) (c : BitVec 8) :
    d.i2cOutb c ⟨.low v h, M⟩ = .ok 1 ⟨.low true (h ++ written c), M⟩ := by
  obtain ⟨v', hbits⟩ := outBits_low (v := v) (M := M) hworks c (l := (List.range 8).reverse)
    (fun bits hlt => hworks.conforms.released h bits hh (by simpa using hlt))
  obtain ⟨p, hp⟩ := sclhi_low (v := true) (h := h ++ bitEvents (byteBits c)) (M := M)
    hworks.noTimeout
  have hack := hworks.conforms.acknowledges h (byteBits c) hh (length_byteBits c)
  rw [i2cOutb, run_bind hbits, run_bind (setSda_low true)]
  change (d.sclhi >>= _) ⟨.low true (h ++ bitEvents (byteBits c)), M⟩ = _
  rw [run_bind hp, run_bind (getSda_up hworks.sdaReadable), run_bind setScl_up, hack,
    Bool.and_false,
    written, bitEvents_append, List.append_assoc]
  rfl

/-- Bits that the master reads. -/
theorem inBits_low (hworks : d.Works) (n : ℕ) (indata : BitVec 8) :
    d.inBits n indata ⟨.low true h, M⟩ =
      .ok ((presented d.ops.devices h n).foldl
        (fun v level => if level = true then v <<< 1 ||| 1#8 else v <<< 1) indata)
        ⟨.low true (h ++ bitEvents (presented d.ops.devices h n)), M⟩ := by
  induction n generalizing h indata with
  | zero => rw [presented, bitEvents, List.map_nil, List.append_nil]; rfl
  | succ n ih =>
      obtain ⟨p, hp⟩ := sclhi_low (v := true) (h := h) (M := M) hworks.noTimeout
      rw [inBits, run_bind hp, run_bind (getSda_up hworks.sdaReadable), run_bind setScl_up,
        Bool.true_and, ih, presented, List.foldl_cons, List.append_assoc]
      simp only [Option.some.injEq]
      rfl

/-- The bits are put together to their byte. -/
theorem foldl_bits_eq_byteOf (bits : List Bool) :
    bits.foldl (fun (v : BitVec 8) level => if level = true then v <<< 1 ||| 1#8 else v <<< 1) 0#8 =
      byteOf bits := by
  have hshift : ∀ n : ℕ, BitVec.ofNat 8 n <<< 1 = BitVec.ofNat 8 (2 * n) := by
    intro n
    refine BitVec.eq_of_toNat_eq ?_
    rw [BitVec.toNat_shiftLeft, Nat.shiftLeft_eq, BitVec.toNat_ofNat, BitVec.toNat_ofNat]
    omega
  have hstep : ∀ (n : ℕ) (level : Bool),
      (if level = true then BitVec.ofNat 8 n <<< 1 ||| 1#8 else BitVec.ofNat 8 n <<< 1) =
        BitVec.ofNat 8 (2 * n + level.toNat) := by
    intro n level
    rw [hshift]
    cases level with
    | false => rfl
    | true =>
        refine BitVec.eq_of_toNat_eq ?_
        rw [if_pos rfl, BitVec.toNat_or, BitVec.toNat_ofNat, BitVec.toNat_ofNat, BitVec.toNat_ofNat,
          or_eq_add (i := 1) (by omega) (by decide), Bool.toNat_true]
        omega
  have hfold : ∀ n : ℕ, bits.foldl
      (fun (v : BitVec 8) level => if level = true then v <<< 1 ||| 1#8 else v <<< 1)
        (BitVec.ofNat 8 n) =
          BitVec.ofNat 8 (bits.foldl (fun v level => 2 * v + level.toNat) n) := by
    induction bits with
    | nil => exact fun n => rfl
    | cons level bits ih =>
        intro n
        rw [List.foldl_cons, List.foldl_cons, hstep, ih]
  exact hfold 0

/-- A byte that the devices write, but for its acknowledgement. -/
theorem i2cInb_low (hworks : d.Works) :
    d.i2cInb ⟨.low v h, M⟩ = .ok (byteOf (presented d.ops.devices h 8))
      ⟨.low true (h ++ bitEvents (presented d.ops.devices h 8)), M⟩ := by
  rw [i2cInb, run_bind (setSda_low true), inBits_low hworks, foldl_bits_eq_byteOf]

/-- The acknowledgement of the master, to which the devices listen. -/
theorem acknak_low (hworks : d.Works) (isAck : Bool) (hlistens : d.ops.devices h = true) :
    d.acknak isAck ⟨.low true h, M⟩ = .ok () ⟨.low (!isAck) (h ++ [.bit (!isAck)]), M⟩ := by
  cases isAck with
  | false =>
      obtain ⟨p, hp⟩ := sclhi_low (v := true) (h := h) (M := M) hworks.noTimeout
      change (d.sclhi >>= fun _ => d.setScl false) _ = _
      rw [run_bind hp, setScl_up, hlistens]
      rfl
  | true =>
      obtain ⟨p, hp⟩ := sclhi_low (v := false) (h := h) (M := M) hworks.noTimeout
      change (setSda false >>= fun _ => d.sclhi >>= fun _ => d.setScl false) _ = _
      rw [run_bind (setSda_low false), run_bind hp, setScl_up]
      rfl

end Bytes

/-! ### Data -/

section Data

variable {d : I2cAlgoBitData} {v : Bool} {h : List Event} {pre post : List I2cMsg} {msg : I2cMsg}
  {bus : Bus}

theorem getMsg_mid (bus : Bus) (pre post : List I2cMsg) (msg : I2cMsg) :
    getMsg pre.length ⟨bus, pre ++ msg :: post⟩ = .ok msg ⟨bus, pre ++ msg :: post⟩ := by
  have hget : (pre ++ msg :: post)[pre.length]? = some msg := by simp
  change (match (pre ++ msg :: post)[pre.length]? with
    | some msg => (pure msg : Xfer I2cMsg)
    | none => throw none) ⟨bus, pre ++ msg :: post⟩ = _
  rw [hget]
  rfl

theorem modifyBuf_mid (f : List (BitVec 8) → List (BitVec 8)) :
    modifyBuf pre.length f ⟨bus, pre ++ msg :: post⟩ =
      .ok () ⟨bus, pre ++ { msg with buf := f msg.buf } :: post⟩ := by
  have hmodify : (pre ++ msg :: post).modify pre.length (fun m => { m with buf := f m.buf }) =
      pre ++ { msg with buf := f msg.buf } :: post := by
    induction pre with
    | nil => rfl
    | cons m pre ih => simpa using ih
  change EStateM.Result.ok ()
    (⟨bus, (pre ++ msg :: post).modify pre.length fun m => { m with buf := f m.buf }⟩ :
      XferState) = _
  rw [hmodify]

/-- The bytes of a message that is written. -/
theorem sendFrom_low {M : List I2cMsg} (hworks : d.Works) (hh : Addressed false h) (nakOk : Bool)
    (bytes : List (BitVec 8)) (wrcount : ℕ) :
    ∃ v', d.sendFrom nakOk bytes wrcount ⟨.low v h, M⟩ =
      .ok (wrcount + bytes.length) ⟨.low v' (h ++ (bytes.map written).flatten), M⟩ := by
  induction bytes generalizing v h wrcount with
  | nil => exact ⟨v, by rw [List.map_nil, List.flatten_nil, List.append_nil]; rfl⟩
  | cons byte bytes ih =>
      obtain ⟨v', hrest⟩ := ih (v := true) (hh.written byte) (wrcount + 1)
      refine ⟨v', ?_⟩
      rw [sendFrom, run_bind (i2cOutb_low hworks (Or.inr hh) byte),
        if_pos (Or.inl Nat.one_pos), hrest,
        List.map_cons, List.flatten_cons, List.length_cons, List.append_assoc,
        Nat.add_assoc, Nat.add_comm 1]

/-- The bytes of a message that is read, into the rest of its buffer. -/
theorem readFrom_low (pre post : List I2cMsg) (msg : I2cMsg) (hworks : d.Works)
    (hh : Addressed true h)
    (hlen : msg.flags &&& i2cMRecvLen = 0#16) (hack : msg.flags &&& i2cMNoRdAck = 0#16)
    {front rest : List (BitVec 8)} (hbuf : msg.buf = front ++ rest) :
    ∃ v', d.readFrom pre.length msg.flags rest.length front.length msg.buf.length
        ⟨.low v h, pre ++ msg :: post⟩ =
      .ok msg.buf.length ⟨.low v' (h ++ (bytesRead d.ops.devices h rest.length).1),
        pre ++ { msg with buf := front ++ (bytesRead d.ops.devices h rest.length).2 } :: post⟩ := by
  induction rest generalizing v h msg front with
  | nil =>
      rw [List.append_nil] at hbuf
      refine ⟨v, ?_⟩
      rw [List.length_nil, bytesRead, List.append_nil, List.append_nil, ← hbuf]
      rfl
  | cons byte rest ih =>
      set bits := presented d.ops.devices h 8 with hbits
      set events := bitEvents (bits ++ [decide (rest.length = 0)]) with hevents
      have hcount : msg.buf.length = front.length + 1 + rest.length := by
        rw [hbuf, List.length_append, List.length_cons, Nat.add_assoc, Nat.add_comm 1]
      have hset : msg.buf.set front.length (byteOf bits) = front ++ [byteOf bits] ++ rest := by
        rw [hbuf]
        simp
      have hmore :
          decide (0 < msg.buf.length - (front.length + 1)) = !decide (rest.length = 0) := by
        rw [hcount, Nat.add_sub_cancel_left]
        cases rest <;> rfl
      have hlisten := hworks.conforms.listens h bits hh (by rw [hbits, length_presented])
      have hnext : Addressed true (h ++ events) :=
        hh.addressed (by rw [List.length_append, hbits, length_presented]; rfl)
      obtain ⟨v', hrest⟩ := ih (v := decide (rest.length = 0)) (h := h ++ events)
        { msg with buf := front ++ [byteOf bits] ++ rest } hnext hlen hack rfl
      refine ⟨v', ?_⟩
      have hrecv : ∀ inval, d.recvLen pre.length msg.flags (front.length + 1) msg.buf.length inval =
          pure msg.buf.length := by
        intro inval
        rw [recvLen, if_neg (fun hflag => hflag.2 hlen)]
      rw [List.length_cons, readFrom, run_bind (i2cInb_low hworks), run_bind (modifyBuf_mid _),
        hset,
        hrecv, pure_bind, acknakUnless, if_pos hack, hmore, run_bind (acknak_low hworks _ hlisten),
        Bool.not_not]
      have hsize : (front ++ [byteOf bits] ++ rest).length = msg.buf.length := by
        rw [← hset, List.length_set]
      have hbytes : bytesRead d.ops.devices h (rest.length + 1) =
          (events ++ (bytesRead d.ops.devices (h ++ events) rest.length).1,
            byteOf bits :: (bytesRead d.ops.devices (h ++ events) rest.length).2) := rfl
      have hjoin : h ++ bitEvents bits ++ [Event.bit (decide (rest.length = 0))] = h ++ events := by
        rw [hevents, bitEvents_append, List.append_assoc]
        rfl
      dsimp only at hrest
      rw [hsize, List.length_append, List.length_singleton] at hrest
      rw [hjoin, hrest, hbytes, List.append_assoc, List.append_assoc, List.singleton_append]

/-- `readbytes` fills the buffer. -/
theorem readbytes_low (pre post : List I2cMsg) (hworks : d.Works) (hh : Addressed true h)
    (hlen : msg.flags &&& i2cMRecvLen = 0#16) (hack : msg.flags &&& i2cMNoRdAck = 0#16) :
    ∃ v', d.readbytes pre.length ⟨.low v h, pre ++ msg :: post⟩ =
      .ok msg.buf.length ⟨.low v' (h ++ (bytesRead d.ops.devices h msg.buf.length).1),
        pre ++ { msg with buf := (bytesRead d.ops.devices h msg.buf.length).2 } :: post⟩ := by
  have hsda : d.getSda ⟨.low v h, pre ++ msg :: post⟩ =
      .ok (some (v && d.ops.devices h)) ⟨.low v h, pre ++ msg :: post⟩ := by
    change EStateM.Result.ok (if d.ops.sdaReadable = true then _ else none) _ = _
    rw [if_pos hworks.sdaReadable]
    rfl
  obtain ⟨v', hread⟩ := readFrom_low (v := v) pre post msg hworks hh hlen hack
    (List.nil_append _).symm
  refine ⟨v', ?_⟩
  rw [readbytes, run_bind hsda]
  dsimp only
  rw [run_bind (getMsg_mid _ _ _ _)]
  exact hread

end Data

/-! ### Addresses -/

end I2cAlgoBitData

namespace I2cMsg

/-- A message that uses no flags but `I2C_M_RD`, `I2C_M_TEN` and `I2C_M_STOP`, with an address of 7
or 10 bits. -/
structure Plain (msg : I2cMsg) : Prop where
  flags : msg.flags &&& ~~~(i2cMRd ||| i2cMTen ||| i2cMStop) = 0#16
  addr : msg.addr.toNat < 2 ^ (if msg.has i2cMTen then 10 else 7)

/-- Other flags are not set. -/
theorem Plain.has_eq_false {msg : I2cMsg} (h : msg.Plain) {flag : BitVec 16}
    (hflag : flag &&& (i2cMRd ||| i2cMTen ||| i2cMStop) = 0#16) : msg.flags &&& flag = 0#16 := by
  refine BitVec.eq_of_getLsbD_eq fun i hi => ?_
  have hother := congrArg (fun w => w.getLsbD i) h.flags
  have hnone := congrArg (fun w => w.getLsbD i) hflag
  simp only [BitVec.getLsbD_and, BitVec.getLsbD_not, hi, decide_true, Bool.true_and,
    BitVec.getLsbD_zero] at hother hnone ⊢
  cases hm : msg.flags.getLsbD i <;> cases hf : flag.getLsbD i <;> simp_all

/-- The bytes that address the message, the second time for a read with an address of 10 bits. -/
def addressing (msg : I2cMsg) : List Event :=
  if msg.has i2cMTen then
    written (BitVec.ofNat 8 (0xF0 + 2 * (msg.addr.toNat / 2 ^ 8))) ++
      written (BitVec.ofNat 8 (msg.addr.toNat % 2 ^ 8)) ++
        if msg.has i2cMRd then
          [.start] ++ written (BitVec.ofNat 8 (0xF0 + 2 * (msg.addr.toNat / 2 ^ 8) + 1))
        else []
  else written (BitVec.ofNat 8 (2 * msg.addr.toNat + (msg.has i2cMRd).toNat))

end I2cMsg

namespace I2cAlgoBitData

section Addresses

variable {d : I2cAlgoBitData} {v : Bool} {h : List Event} {M : List I2cMsg} {msg : I2cMsg}

theorem address_seven (addr : BitVec 16) (rd : Bool) :
    ((addr <<< 1) ||| if rd then 1#16 else 0#16).setWidth 8 =
      BitVec.ofNat 8 (2 * addr.toNat + rd.toNat) := by
  refine BitVec.eq_of_toNat_eq ?_
  have hbit : (if rd then 1#16 else 0#16).toNat = rd.toNat := by cases rd <;> rfl
  have hlt : rd.toNat < 2 ^ 1 := by cases rd <;> decide
  rw [BitVec.toNat_setWidth, BitVec.toNat_or, hbit, BitVec.toNat_shiftLeft, Nat.shiftLeft_eq,
    or_eq_add (i := 1) (by omega) hlt, BitVec.toNat_ofNat]
  omega

theorem address_ten {addr : BitVec 16} (haddr : addr.toNat < 2 ^ 10) :
    0xf0#8 ||| ((addr >>> 7) &&& 0x06#16).setWidth 8 =
        BitVec.ofNat 8 (0xF0 + 2 * (addr.toNat / 2 ^ 8)) ∧
      (0xf0#8 ||| ((addr >>> 7) &&& 0x06#16).setWidth 8) ||| 0x01#8 =
        BitVec.ofNat 8 (0xF0 + 2 * (addr.toNat / 2 ^ 8) + 1) ∧
      (addr &&& 0xff#16).setWidth 8 = BitVec.ofNat 8 (addr.toNat % 2 ^ 8) := by
  -- the two bits above the others are the ones that the mask keeps
  have hmask : ∀ k < 8, 0xf0 ||| (k &&& 0x06) % 2 ^ 8 = 0xF0 + 2 * (k / 2) := by decide
  have hbits : (0xf0#8 ||| ((addr >>> 7) &&& 0x06#16).setWidth 8).toNat =
      0xF0 + 2 * (addr.toNat / 2 ^ 8) := by
    have hk := hmask (addr.toNat / 2 ^ 7) (by omega)
    rw [BitVec.toNat_or, BitVec.toNat_setWidth, BitVec.toNat_and, BitVec.toNat_ushiftRight,
      Nat.shiftRight_eq_div_pow]
    refine hk.trans ?_
    omega
  refine ⟨BitVec.eq_of_toNat_eq ?_, BitVec.eq_of_toNat_eq ?_, BitVec.eq_of_toNat_eq ?_⟩
  · rw [hbits, BitVec.toNat_ofNat]
    omega
  · have hone : (0x01#8).toNat = 1 := rfl
    rw [BitVec.toNat_or, hbits, hone, or_eq_add (i := 1) (by omega) (by decide), BitVec.toNat_ofNat]
    omega
  · have hlow : addr.toNat &&& 2 ^ 8 - 1 = addr.toNat % 2 ^ 8 := Nat.and_two_pow_sub_one_eq_mod _ 8
    rw [BitVec.toNat_setWidth, BitVec.toNat_and, BitVec.toNat_ofNat]
    exact congrArg (fun n => n % 2 ^ 8) hlow

theorem tryAddress_low (hworks : d.Works) (hh : Fresh h) (c : BitVec 8) (retries : ℕ) :
    d.tryAddress c retries ⟨.low v h, M⟩ = .ok 1 ⟨.low true (h ++ written c), M⟩ := by
  cases retries with
  | zero => exact i2cOutb_low hworks (Or.inl hh) c
  | succ retries => rw [tryAddress, run_bind (i2cOutb_low hworks (Or.inl hh) c), if_pos rfl]; rfl

theorem checkAck_one (nakOk : Bool) (e : I2cError) : checkAck nakOk e 1 = pure () :=
  if_neg fun h => h.1 rfl

/-- The bit of a byte that says who writes what follows. -/
theorem getLsbD_zero_ofNat (n : ℕ) : (BitVec.ofNat 8 n).getLsbD 0 = decide (n % 2 = 1) := by
  rw [BitVec.getLsbD_ofNat, Nat.testBit_zero]
  rfl

/-- After a start the lowest bit of the first byte says who writes. -/
theorem addressed_written (hh : Fresh h) {n : ℕ} {rd : Bool} (hrd : decide (n % 2 = 1) = rd) :
    Addressed rd (h ++ written (BitVec.ofNat 8 n)) := by
  refine hh.addressed (by rw [List.length_append, length_byteBits]; rfl) ?_
  rw [getElem?_byteBits_last, getLsbD_zero_ofNat, hrd]

/-- The two bytes of an address of 10 bits. -/
theorem tenBits_low (hworks : d.Works) (hh : Fresh h) (nakOk : Bool) (retries : ℕ)
    {high : BitVec 8} (hhigh : Addressed false (h ++ written high)) (low : BitVec 8)
    (f : Unit → Xfer Unit) :
    (d.tryAddress high retries >>= fun ret => checkAck nakOk .notFound ret >>= fun _ =>
      d.i2cOutb low >>= fun ret => checkAck nakOk .notFound ret >>= f) ⟨.low v h, M⟩ =
      f () ⟨.low true (h ++ (written high ++ written low)), M⟩ := by
  rw [run_bind (tryAddress_low hworks hh high retries), checkAck_one, pure_bind,
    run_bind (i2cOutb_low hworks (Or.inr hhigh) low), checkAck_one, pure_bind, List.append_assoc]

/-- Addressing a message with an address of 7 bits. -/
theorem bitDoAddress_seven (hworks : d.Works) (hmsg : msg.Plain) (hten : msg.has i2cMTen = false)
    (hh : Fresh h) (retries : ℕ) :
    Addressed (msg.has i2cMRd) (h ++ msg.addressing) ∧
      d.bitDoAddress msg retries ⟨.low v h, M⟩ =
        .ok () ⟨.low true (h ++ msg.addressing), M⟩ := by
  have hrev : msg.has i2cMRevDirAddr = false :=
    decide_eq_false (not_not_intro (hmsg.has_eq_false (by decide)))
  have hrd : decide ((2 * msg.addr.toNat + (msg.has i2cMRd).toNat) % 2 = 1) = msg.has i2cMRd := by
    cases msg.has i2cMRd <;> simp [Nat.add_mod]
  have hwave : msg.addressing =
      written (BitVec.ofNat 8 (2 * msg.addr.toNat + (msg.has i2cMRd).toNat)) := by
    simp [I2cMsg.addressing, hten]
  refine ⟨by rw [hwave]; exact addressed_written hh hrd, ?_⟩
  rw [bitDoAddress, hten, hrev, hwave]
  simp only [Bool.false_eq_true, if_false, address_seven]
  rw [run_bind (tryAddress_low hworks hh _ retries), checkAck_one]
  rfl

/-- Addressing a message with an address of 10 bits. -/
theorem bitDoAddress_ten (hworks : d.Works) (hmsg : msg.Plain) (hten : msg.has i2cMTen = true)
    (hh : Fresh h) (retries : ℕ) :
    Addressed (msg.has i2cMRd) (h ++ msg.addressing) ∧
      d.bitDoAddress msg retries ⟨.low v h, M⟩ =
        .ok () ⟨.low true (h ++ msg.addressing), M⟩ := by
  have haddr := hmsg.addr
  rw [hten, if_pos rfl] at haddr
  obtain ⟨hhigh, hhigh', hlow⟩ := address_ten haddr
  rw [hhigh] at hhigh'
  have hfirst : Addressed false
      (h ++ written (BitVec.ofNat 8 (0xF0 + 2 * (msg.addr.toNat / 2 ^ 8)))) :=
    addressed_written hh (by simp [Nat.add_mod])
  have hsecond := hfirst.written (BitVec.ofNat 8 (msg.addr.toNat % 2 ^ 8))
  rw [List.append_assoc] at hsecond
  rw [bitDoAddress, hten, if_pos rfl, hhigh, hlow]
  cases hrd : msg.has i2cMRd with
  | false =>
      have hwave : msg.addressing =
          written (BitVec.ofNat 8 (0xF0 + 2 * (msg.addr.toNat / 2 ^ 8))) ++
            written (BitVec.ofNat 8 (msg.addr.toNat % 2 ^ 8)) := by
        simp [I2cMsg.addressing, hten, hrd]
      rw [hwave]
      exact ⟨hsecond, tenBits_low hworks hh _ retries hfirst _ _⟩
  | true =>
      have hwave : msg.addressing =
          written (BitVec.ofNat 8 (0xF0 + 2 * (msg.addr.toNat / 2 ^ 8))) ++
            written (BitVec.ofNat 8 (msg.addr.toNat % 2 ^ 8)) ++
              ([.start] ++ written (BitVec.ofNat 8 (0xF0 + 2 * (msg.addr.toNat / 2 ^ 8) + 1))) := by
        simp [I2cMsg.addressing, hten, hrd]
      have hlast : decide ((0xF0 + 2 * (msg.addr.toNat / 2 ^ 8) + 1) % 2 = 1) = true :=
        decide_eq_true (by omega)
      rw [hwave]
      refine ⟨?_, (tenBits_low hworks hh _ retries hfirst _ _).trans ?_⟩
      · rw [← List.append_assoc, ← List.append_assoc]
        exact addressed_written (fresh_start _) hlast
      · -- the read goes to the same device after a start of its own
        rw [if_pos rfl, run_bind (i2cRepstart_low hworks.noTimeout), hhigh',
          run_bind (tryAddress_low hworks (fresh_start _) _ retries), checkAck_one,
          List.append_assoc, List.append_assoc]
        rfl

/-- Addressing a message: afterwards the side that the message says writes. -/
theorem bitDoAddress_low (hworks : d.Works) (hmsg : msg.Plain) (hh : Fresh h) (retries : ℕ) :
    Addressed (msg.has i2cMRd) (h ++ msg.addressing) ∧
      d.bitDoAddress msg retries ⟨.low v h, M⟩ =
        .ok () ⟨.low true (h ++ msg.addressing), M⟩ := by
  cases hten : msg.has i2cMTen with
  | false => exact bitDoAddress_seven hworks hmsg hten hh retries
  | true => exact bitDoAddress_ten hworks hmsg hten hh retries

end Addresses

end I2cAlgoBitData

/-! ### Transfers -/

/-- What is between a message and the one before. -/
def separator : Option I2cMsg → List Event
  | none => []
  | some prev => if prev.has i2cMStop then [.stop, .start] else [.start]

/-- The data of a message, with its buffer afterwards. -/
def I2cMsg.data (msg : I2cMsg) (devices : Devices) (h : List Event) :
    List Event × List (BitVec 8) :=
  if msg.has i2cMRd then bytesRead devices h msg.buf.length
  else ((msg.buf.map written).flatten, msg.buf)

/-- The messages of a transfer, with their buffers afterwards. -/
def messageEvents (devices : Devices) (h : List Event) (prev : Option I2cMsg) :
    List I2cMsg → List Event × List I2cMsg
  | [] => ([], [])
  | msg :: msgs =>
      let front := separator prev ++ msg.addressing
      let data := msg.data devices (h ++ front)
      let rest := messageEvents devices (h ++ (front ++ data.1)) (some msg) msgs
      (front ++ data.1 ++ rest.1, { msg with buf := data.2 } :: rest.2)

/-- What should be seen of a transfer after a history, with the messages afterwards. -/
def transferEvents (devices : Devices) (h : List Event) (msgs : List I2cMsg) :
    List Event × List I2cMsg :=
  let rest := messageEvents devices (h ++ [.start]) none msgs
  ([.start] ++ rest.1 ++ [.stop], rest.2)

namespace I2cAlgoBitData

section Transfers

variable {d : I2cAlgoBitData} {v : Bool} {h : List Event} {pre post : List I2cMsg} {msg : I2cMsg}

theorem attempt_ok {α : Type} {x : Xfer α} {s t : XferState} {a : α} (hx : x s = .ok a t) :
    attempt x s = .ok (.ok a) t := by rw [attempt, hx]

/-- Between two messages there is a start. -/
theorem nextMsg_low (post : List I2cMsg) (hworks : d.Works) (hready : pre = [] → Fresh h) :
    Fresh (h ++ separator pre.getLast?) ∧
      ∃ v', d.nextMsg pre.length ⟨.low v h, pre ++ post⟩ =
        .ok () ⟨.low v' (h ++ separator pre.getLast?), pre ++ post⟩ := by
  induction pre using List.reverseRecOn with
  | nil =>
      rw [List.getLast?_nil, separator, List.append_nil]
      exact ⟨hready rfl, v, rfl⟩
  | append_singleton pre prev =>
      have hget := getMsg_mid (.low v h) pre post prev
      rw [List.getLast?_concat, separator, List.length_append, List.length_singleton, nextMsg,
        if_pos (Nat.succ_pos _), Nat.add_sub_cancel, List.append_assoc, List.singleton_append,
        run_bind hget]
      cases prev.has i2cMStop with
      | false => exact ⟨fresh_start h, false, i2cRepstart_low hworks.noTimeout⟩
      | true =>
          obtain ⟨p, hstop⟩ := i2cStop_low (v := v) (h := h) (M := pre ++ prev :: post)
            hworks.noTimeout
          have hjoin : h ++ [Event.stop, .start] = h ++ [.stop] ++ [.start] := by simp
          simp only [if_true]
          rw [hjoin]
          refine ⟨fresh_start _, false, ?_⟩
          rw [run_bind hstop]
          exact i2cStart_idle false

/-- A message. -/
theorem xferMsg_low (post : List I2cMsg) (hworks : d.Works) (hmsg : msg.Plain)
    (hready : pre = [] → Fresh h)
    (retries : ℕ) :
    ∃ v', d.xferMsg pre.length retries ⟨.low v h, pre ++ msg :: post⟩ =
      .ok () ⟨.low v' (h ++ (separator pre.getLast? ++ msg.addressing ++
          (msg.data d.ops.devices (h ++ (separator pre.getLast? ++ msg.addressing))).1)),
        pre ++ { msg with
          buf := (msg.data d.ops.devices (h ++ (separator pre.getLast? ++ msg.addressing))).2 } ::
            post⟩ := by
  have hnostart : msg.has i2cMNostart = false :=
    decide_eq_false (not_not_intro (hmsg.has_eq_false (by decide)))
  obtain ⟨hfresh, v₁, hnext⟩ := nextMsg_low (v := v) (msg :: post) hworks hready
  obtain ⟨haddressed, haddress⟩ := bitDoAddress_low (v := v₁) (M := pre ++ msg :: post) hworks hmsg
    hfresh retries
  rw [List.append_assoc] at haddressed haddress
  have hfront : d.addressMsg pre.length retries msg ⟨.low v h, pre ++ msg :: post⟩ =
      .ok () ⟨.low true (h ++ (separator pre.getLast? ++ msg.addressing)), pre ++ msg :: post⟩ := by
    rw [addressMsg, run_bind hnext, run_bind (attempt_ok haddress)]
    rfl
  rw [xferMsg, run_bind (getMsg_mid _ _ _ _), hnostart]
  simp only [Bool.false_eq_true, if_false]
  rw [run_bind hfront]
  generalize separator pre.getLast? ++ msg.addressing = front at haddressed ⊢
  rw [← List.append_assoc]
  cases hrd : msg.has i2cMRd with
  | true =>
      rw [hrd] at haddressed
      obtain ⟨v', hread⟩ := readbytes_low (v := true) pre post hworks haddressed
        (hmsg.has_eq_false (by decide)) (hmsg.has_eq_false (by decide))
      refine ⟨v', ?_⟩
      rw [if_pos rfl, run_bind (attempt_ok hread), I2cMsg.data, hrd]
      rfl
  | false =>
      rw [hrd] at haddressed
      obtain ⟨v', hsend⟩ := sendFrom_low (v := true) (M := pre ++ msg :: post) hworks haddressed
        (msg.has i2cMIgnoreNak) msg.buf 0
      refine ⟨v', ?_⟩
      rw [if_neg Bool.false_ne_true, sendbytes, run_bind (attempt_ok hsend), I2cMsg.data, hrd]
      rfl


/-- The messages that are left. -/
theorem xferFrom_low (pre : List I2cMsg) (hworks : d.Works) (retries : ℕ) {msgs : List I2cMsg}
    (hmsgs : ∀ msg ∈ msgs, msg.Plain) (hready : pre = [] → Fresh h) :
    ∃ v', d.xferFrom retries msgs.length pre.length ⟨.low v h, pre ++ msgs⟩ =
      .ok () ⟨.low v' (h ++ (messageEvents d.ops.devices h pre.getLast? msgs).1),
        pre ++ (messageEvents d.ops.devices h pre.getLast? msgs).2⟩ := by
  induction msgs generalizing v h pre with
  | nil =>
      refine ⟨v, ?_⟩
      simp only [messageEvents, List.append_nil]
      rfl
  | cons msg msgs ih =>
      obtain ⟨v₁, hmsg⟩ := xferMsg_low (v := v) msgs hworks (hmsgs msg List.mem_cons_self)
        hready retries
      generalize hfront : separator pre.getLast? ++ msg.addressing = front at hmsg
      set data := msg.data d.ops.devices (h ++ front) with hdata
      set done := pre ++ [{ msg with buf := data.2 }] with hdone
      obtain ⟨v', hrest⟩ := ih (v := v₁) (h := h ++ (front ++ data.1)) done
        (fun m hm => hmsgs m (List.mem_cons_of_mem _ hm)) (fun hnil => by simp [hdone] at hnil)
      have hevents : messageEvents d.ops.devices h pre.getLast? (msg :: msgs) =
          (front ++ data.1 ++
            (messageEvents d.ops.devices (h ++ (front ++ data.1)) (some msg) msgs).1,
            { msg with buf := data.2 } ::
              (messageEvents d.ops.devices (h ++ (front ++ data.1)) (some msg) msgs).2) := by
        rw [messageEvents, hfront]
      -- what follows depends on the flags of the message only
      have hlast : messageEvents d.ops.devices (h ++ (front ++ data.1)) done.getLast? msgs =
          messageEvents d.ops.devices (h ++ (front ++ data.1)) (some msg) msgs := by
        rw [hdone, List.getLast?_concat]
        cases msgs <;> rfl
      rw [hlast, hdone, List.append_assoc, List.singleton_append, List.length_append,
        List.length_singleton] at hrest
      refine ⟨v', ?_⟩
      rw [List.length_cons, xferFrom, run_bind hmsg, hrest, hevents]
      simp only [List.append_assoc, List.singleton_append]

end Transfers

end I2cAlgoBitData

/-- **I2C.**  A transfer of plain messages on an idle bus with devices that answer is seen as it
should be, fills the buffers with what the devices present, and leaves the bus idle. -/
theorem i2c_bitXfer (d : I2cAlgoBitData) (hworks : d.Works) (hpre : d.ops.preXfer = .ok ())
    (retries : ℕ) (msgs : List I2cMsg) (hmsgs : ∀ msg ∈ msgs, msg.Plain) (bus : Bus)
    (hsda : bus.sda = true) (hscl : bus.scl = true) :
    ∃ bus', d.bitXfer retries ⟨bus, msgs⟩ =
        .ok msgs.length ⟨bus', (transferEvents d.ops.devices bus.events msgs).2⟩ ∧
      bus'.events = bus.events ++ (transferEvents d.ops.devices bus.events msgs).1 ∧
        bus'.sda = true ∧ bus'.scl = true := by
  obtain ⟨sda, scl, quiet, h, polls⟩ := bus
  obtain rfl : sda = true := hsda
  obtain rfl : scl = true := hscl
  have hstart := I2cAlgoBitData.i2cStart_idle (d := d) (h := h) (p := polls) (M := msgs) quiet
  obtain ⟨v, hxfer⟩ := I2cAlgoBitData.xferFrom_low (v := false) (h := h ++ [.start]) [] hworks
    retries hmsgs (fun _ => fresh_start h)
  rw [List.nil_append, List.nil_append, List.length_nil, List.getLast?_nil] at hxfer
  obtain ⟨p, hstop⟩ := I2cAlgoBitData.i2cStop_low (d := d) (v := v)
    (h := h ++ [.start] ++ (messageEvents d.ops.devices (h ++ [.start]) none msgs).1)
    (M := (messageEvents d.ops.devices (h ++ [.start]) none msgs).2) hworks.noTimeout
  have hget : (get : Xfer XferState) ⟨.low false (h ++ [.start]), msgs⟩ =
      .ok ⟨.low false (h ++ [.start]), msgs⟩ ⟨.low false (h ++ [.start]), msgs⟩ := rfl
  have hrun : d.bitXfer retries ⟨⟨true, true, quiet, h, polls⟩, msgs⟩ =
      .ok msgs.length ⟨⟨true, true, false,
        h ++ [.start] ++ (messageEvents d.ops.devices (h ++ [.start]) none msgs).1 ++ [.stop], p⟩,
          (messageEvents d.ops.devices (h ++ [.start]) none msgs).2⟩ := by
    rw [I2cAlgoBitData.bitXfer, hpre]
    dsimp only
    rw [run_bind hstart, run_bind hget, run_bind hxfer, run_bind hstop]
    rfl
  exact ⟨_, hrun, by simp [transferEvents], rfl, rfl⟩

/-- A device that acknowledges all addresses, and presents `10101010` in every byte. -/
def alternating : Devices := fun h =>
  match sinceStart h with
  | none => true
  | some bits =>
      if 9 ≤ bits.length ∧ bits[7]? = some true then decide (bits.length % 9 % 2 = 0)
      else decide (bits.length % 9 ≠ 8)

/-- Within a byte that the master writes, the device releases all bits but the ninth. -/
theorem alternating_writing {h : List Event} {bits : List Bool}
    (hh : Fresh h ∨ Addressed false h) (hlen : bits.length < 9) :
    alternating (h ++ bitEvents bits) = decide (bits.length ≠ 8) := by
  rcases hh with hfresh | ⟨before, hbefore, hmod, hread⟩
  · have hpos : ¬(9 ≤ ([] ++ bits).length ∧ ([] ++ bits)[7]? = some true) := by
      rw [List.nil_append]
      omega
    rw [alternating, sinceStart_bitEvents hfresh]
    dsimp only
    rw [if_neg hpos, List.nil_append, Nat.mod_eq_of_lt hlen]
  · have hlt : 7 < before.length := (List.getElem?_eq_some_iff.1 hread).1
    have hpos : ¬(9 ≤ (before ++ bits).length ∧ (before ++ bits)[7]? = some true) := by
      rw [List.getElem?_append_left hlt, hread]
      simp
    have hslot : (before ++ bits).length % 9 = bits.length := by
      rw [List.length_append]
      omega
    rw [alternating, sinceStart_bitEvents hbefore]
    dsimp only
    rw [if_neg hpos, hslot]

theorem alternating_conforms : Conforms alternating where
  released := fun h bits hh hlen => by
    rw [alternating_writing hh (by omega), decide_eq_true_iff]
    omega
  acknowledges := fun h bits hh hlen => by
    rw [alternating_writing hh (by omega), decide_eq_false_iff_not]
    omega
  listens := fun h bits ⟨before, hbefore, hmod, hread⟩ hlen => by
    have hlt : 7 < before.length := (List.getElem?_eq_some_iff.1 hread).1
    have hslot : (before ++ bits).length % 9 = 8 := by
      rw [List.length_append]
      omega
    have hpos : 9 ≤ (before ++ bits).length ∧ (before ++ bits)[7]? = some true := by
      rw [List.getElem?_append_left hlt, hread, List.length_append]
      exact ⟨by omega, rfl⟩
    rw [alternating, sinceStart_bitEvents hbefore]
    dsimp only
    rw [if_pos hpos, hslot]
    rfl

/-- Lines with that device, on which the clock cannot be read. -/
def alternatingAlgo : I2cAlgoBitData where
  ops :=
    { devices := alternating
      sdaReadable := true
      scl := fun _ _ => none
      preXfer := .ok () }
  timeout := 1

/-- A byte written to the device 0x50, and two bytes read from 0x150. -/
def writeRead : List I2cMsg :=
  [⟨0x50, i2cMStop, [0x12]⟩, ⟨0x150, i2cMRd ||| i2cMTen, [0, 0]⟩]

/-- The two messages are seen as they should be. -/
theorem i2c_writeRead :
    ∃ bus', alternatingAlgo.bitXfer 3 ⟨⟨true, true, true, [], 0⟩, writeRead⟩ =
        .ok 2 ⟨bus', (transferEvents alternating [] writeRead).2⟩ ∧
      bus'.events = [] ++ (transferEvents alternating [] writeRead).1 ∧
        bus'.sda = true ∧ bus'.scl = true :=
  i2c_bitXfer alternatingAlgo ⟨fun _ => Or.inl rfl, rfl, alternating_conforms⟩ rfl 3 writeRead
    (fun msg hmsg => by
      rcases List.mem_pair.1 hmsg with rfl | rfl
      · exact ⟨by decide, by decide⟩
      · exact ⟨by decide, by decide⟩)
    ⟨true, true, true, [], 0⟩ rfl rfl

/-- The bytes that are read. -/
example : (transferEvents alternating [] writeRead).2.map I2cMsg.buf = [[0x12], [0xAA, 0xAA]] := by
  decide

end StarOS
