/-
The supplicant's side of the WPA2 handshake (`net/mac80211/auth.rs`).

`process_eapol_key` tells the kinds of EAPOL-Key frames apart by bits of the frame, and looks at no
more of its state than the replay counter: a message 3 is taken without its MIC, a group message in
any state and with any counter, and a message 1 with any counter as long as the counter is 0.  What
is asked of a run holds exactly if the frames themselves do what the code does not check.

* `StarOS.AuthCtx`, `StarOS.EapolKeyHdr`, `StarOS.derivePtk`, `StarOS.verifyEapolMic`,
  `StarOS.processEapolKey` — the code;
* `StarOS.EapolOutcome`, `StarOS.processEapolKey_outcome` — what a frame does;
* `StarOS.EapolRun`, `StarOS.EapolRun.next` — runs, with the keys that were derived and the frames
  that were accepted;
* `StarOS.eapol_connected_iff` — when a run connects through the handshake only;
* `StarOS.eapol_replay_iff` — when the counters of the accepted frames increase.
-/

import StarOS.Error
import StarOS.Runs
import Mathlib.Data.BitVec

set_option autoImplicit false

namespace StarOS

/-! ### Data -/

/-- `[u8; 6]`. -/
abbrev Mac := Vector (BitVec 8) 6

/-- `[u8; PMK_LEN]`. -/
abbrev Pmk := Vector (BitVec 8) 32

/-- `[u8; NONCE_LEN]`. -/
abbrev Nonce := Vector (BitVec 8) 32

/-- `[u8; PTK_LEN]`. -/
abbrev Ptk := Vector (BitVec 8) 64

/-- `AuthState`. -/
inductive AuthState where
  | idle | authenticating | authenticated | associating | associated
  /-- The handshake is in progress. -/
  | handshaking
  /-- The keys are installed. -/
  | connected
  | disconnecting
  deriving DecidableEq, Repr

/-- `AuthCtx`. -/
structure AuthCtx where
  state : AuthState
  algorithm : BitVec 16
  tries : BitVec 8
  anonce : Nonce
  snonce : Nonce
  ptk : Ptk
  gtk : Vector (BitVec 8) 32
  gtkLen : BitVec 8
  replayCounter : BitVec 64
  keyFlags : BitVec 32
  deriving DecidableEq, Repr

/-- `AUTH_ALG_OPEN`. -/
def authAlgOpen : BitVec 16 := 0#16

/-- `AuthCtx::new`. -/
def AuthCtx.new : AuthCtx where
  state := .idle
  algorithm := authAlgOpen
  tries := 0#8
  anonce := Vector.replicate 32 0#8
  snonce := Vector.replicate 32 0#8
  ptk := Vector.replicate 64 0#8
  gtk := Vector.replicate 32 0#8
  gtkLen := 0#8
  replayCounter := 0#64
  keyFlags := 0#32

/-- `EapolKeyHdr`. -/
structure EapolKeyHdr where
  version : BitVec 8
  packetType : BitVec 8
  bodyLen : Vector (BitVec 8) 2
  descriptorType : BitVec 8
  keyInfo : Vector (BitVec 8) 2
  keyLength : Vector (BitVec 8) 2
  replayCounter : Vector (BitVec 8) 8
  keyNonce : Nonce
  keyIv : Vector (BitVec 8) 16
  keyRsc : Vector (BitVec 8) 8
  reserved : Vector (BitVec 8) 8
  keyMic : Vector (BitVec 8) 16
  keyDataLen : Vector (BitVec 8) 2
  deriving DecidableEq, Repr

namespace KeyInfoBits

/-- `KEY_TYPE`: set for a pairwise key. -/
def keyType : BitVec 16 := 1#16 <<< 3

/-- `KEY_ACK`. -/
def keyAck : BitVec 16 := 1#16 <<< 7

/-- `KEY_MIC`. -/
def keyMic : BitVec 16 := 1#16 <<< 8

/-- `KEY_INSTALL`. -/
def keyInstall : BitVec 16 := 1#16 <<< 6

end KeyInfoBits

/-- `from_be_bytes`. -/
def fromBeBytes {n : ℕ} (w : ℕ) (bytes : Vector (BitVec 8) n) : BitVec w :=
  BitVec.ofNat w (bytes.toList.foldl (fun v b => v * 256 + b.toNat) 0)

namespace EapolKeyHdr

/-- `key_info_u16`. -/
def keyInfoU16 (hdr : EapolKeyHdr) : BitVec 16 := fromBeBytes 16 hdr.keyInfo

/-- `replay_counter_u64`. -/
def replayCounterU64 (hdr : EapolKeyHdr) : BitVec 64 := fromBeBytes 64 hdr.replayCounter

/-- The test of a bit of the key information. -/
def hasBit (hdr : EapolKeyHdr) (bit : BitVec 16) : Bool := hdr.keyInfoU16 &&& bit != 0#16

/-- Message 1: pairwise, acknowledged, without a MIC. -/
def isMessage1 (hdr : EapolKeyHdr) : Bool :=
  hdr.hasBit KeyInfoBits.keyType && hdr.hasBit KeyInfoBits.keyAck && !hdr.hasBit KeyInfoBits.keyMic

/-- Message 3: pairwise, acknowledged, with a MIC, and to be installed. -/
def isMessage3 (hdr : EapolKeyHdr) : Bool :=
  hdr.hasBit KeyInfoBits.keyType && hdr.hasBit KeyInfoBits.keyAck &&
    hdr.hasBit KeyInfoBits.keyMic && hdr.hasBit KeyInfoBits.keyInstall

/-- Message 1 of the group key handshake: not pairwise, acknowledged, with a MIC. -/
def isGroupMessage (hdr : EapolKeyHdr) : Bool :=
  !hdr.hasBit KeyInfoBits.keyType && hdr.hasBit KeyInfoBits.keyAck &&
    hdr.hasBit KeyInfoBits.keyMic

/-- The bytes of a frame, with the MIC field zeroed. -/
def macInput (hdr : EapolKeyHdr) (data : List (BitVec 8)) : List (BitVec 8) :=
  [hdr.version, hdr.packetType] ++ hdr.bodyLen.toList ++ [hdr.descriptorType] ++
    hdr.keyInfo.toList ++ hdr.keyLength.toList ++ hdr.replayCounter.toList ++
    hdr.keyNonce.toList ++ hdr.keyIv.toList ++ hdr.keyRsc.toList ++ hdr.reserved.toList ++
    List.replicate 16 0#8 ++ hdr.keyDataLen.toList ++ data

end EapolKeyHdr

/-! ### Keys -/

/-- `b"Pairwise key expansion"`. -/
def ptkLabel : List (BitVec 8) :=
  [0x50#8, 0x61#8, 0x69#8, 0x72#8, 0x77#8, 0x69#8, 0x73#8, 0x65#8, 0x20#8, 0x6b#8, 0x65#8, 0x79#8,
    0x20#8, 0x65#8, 0x78#8, 0x70#8, 0x61#8, 0x6e#8, 0x73#8, 0x69#8, 0x6f#8, 0x6e#8]

/-- The comparison `<=` of byte arrays, which is lexicographic. -/
def bytesLe : List (BitVec 8) → List (BitVec 8) → Bool
  | [], _ => true
  | _ :: _, [] => false
  | a :: as, b :: bs => a < b || (a == b && bytesLe as bs)

/-- The two arrays, the smaller one first. -/
def minMax {n : ℕ} (a b : Vector (BitVec 8) n) : Vector (BitVec 8) n × Vector (BitVec 8) n :=
  if bytesLe a.toList b.toList then (a, b) else (b, a)

/-- `derive_ptk`. -/
def derivePtk (pmk : Pmk) (anonce snonce : Nonce) (apMac staMac : Mac) : Ptk :=
  let (m₀, m₁) := minMax apMac staMac
  let (n₀, n₁) := minMax anonce snonce
  Vector.ofFn fun i : Fin 64 =>
    let li := ptkLabel.getD (i.val % ptkLabel.length) 0#8
    let mi := if i.val < 6 then m₀.toList.getD i.val 0#8
      else m₁.toList.getD ((i.val - 6) % 6) 0#8
    let ni := if i.val < 32 then n₀.toList.getD i.val 0#8 else n₁.toList.getD (i.val - 32) 0#8
    let ki := pmk.toList.getD (i.val % 32) 0#8
    ki ^^^ li ^^^ mi ^^^ ni

/-- The MIC that `verify_eapol_mic` expects. -/
def expectedMic (kck frame : List (BitVec 8)) : Vector (BitVec 8) 16 :=
  frame.zipIdx.foldl (fun expected e =>
    expected.setIfInBounds (e.2 % 16) (expected.toList.getD (e.2 % 16) 0#8 ^^^
      (e.1 ^^^ kck.getD (e.2 % max kck.length 1) 0#8))) (Vector.replicate 16 0#8)

/-- `verify_eapol_mic`. -/
def verifyEapolMic (kck frame : List (BitVec 8)) (mic : Vector (BitVec 8) 16) : Bool :=
  expectedMic kck frame == mic

/-! ### Frames -/

/-- `HandshakeResult`. -/
inductive HandshakeResult where
  | sendMsg2
  | sendMsg4KeysInstalled
  | groupKeyInstalled
  | drop
  | error (e : KernelError)
  deriving DecidableEq, Repr

/-- The frame was neither dropped nor answered with an error. -/
def HandshakeResult.accepted : HandshakeResult → Bool
  | .drop => false
  | .error _ => false
  | _ => true

/-- The simplified nonce of the station. -/
def stationNonce (replay : BitVec 64) (staMac : Mac) : Nonce :=
  Vector.ofFn fun i : Fin 32 =>
    replay.setWidth 8 + BitVec.ofNat 8 i.val + staMac.toList.getD (i.val % 6) 0#8

/-- `process_eapol_key`. -/
def processEapolKey (ctx : AuthCtx) (hdr : EapolKeyHdr) (_data : List (BitVec 8)) (pmk : Pmk)
    (apMac staMac : Mac) : HandshakeResult × AuthCtx :=
  let replay := hdr.replayCounterU64
  if hdr.isMessage1 then
    if ctx.replayCounter ≠ 0#64 ∧ replay ≤ ctx.replayCounter then (.drop, ctx)
    else
      let snonce := stationNonce replay staMac
      (.sendMsg2,
        { ctx with
          replayCounter := replay
          anonce := hdr.keyNonce
          state := .handshaking
          snonce := snonce
          ptk := derivePtk pmk hdr.keyNonce snonce apMac staMac })
  else if hdr.isMessage3 then
    if replay ≤ ctx.replayCounter then (.drop, ctx)
    else (.sendMsg4KeysInstalled, { ctx with replayCounter := replay, state := .connected })
  else if hdr.isGroupMessage then (.groupKeyInstalled, { ctx with state := .connected })
  else (.drop, ctx)

/-- The arguments of a call of `process_eapol_key`. -/
structure EapolCall where
  hdr : EapolKeyHdr
  data : List (BitVec 8)
  pmk : Pmk
  apMac : Mac
  staMac : Mac
  deriving DecidableEq, Repr

/-- The result of a call, and the context afterwards. -/
def EapolCall.apply (c : EapolCall) (ctx : AuthCtx) : HandshakeResult × AuthCtx :=
  processEapolKey ctx c.hdr c.data c.pmk c.apMac c.staMac

section Outcome

variable {ctx : AuthCtx} {c : EapolCall}

/-- The context after a message 1. -/
def EapolCall.handshaking (c : EapolCall) (ctx : AuthCtx) : AuthCtx :=
  { ctx with
    replayCounter := c.hdr.replayCounterU64
    anonce := c.hdr.keyNonce
    state := .handshaking
    snonce := stationNonce c.hdr.replayCounterU64 c.staMac
    ptk := derivePtk c.pmk c.hdr.keyNonce (stationNonce c.hdr.replayCounterU64 c.staMac) c.apMac
      c.staMac }

/-- What a call does. -/
inductive EapolOutcome (ctx : AuthCtx) (c : EapolCall) : HandshakeResult × AuthCtx → Prop
  | message1 : c.hdr.isMessage1 = true →
      (ctx.replayCounter ≠ 0#64 → ctx.replayCounter < c.hdr.replayCounterU64) →
      EapolOutcome ctx c (.sendMsg2, c.handshaking ctx)
  | message3 : c.hdr.isMessage3 = true → ctx.replayCounter < c.hdr.replayCounterU64 →
      EapolOutcome ctx c (.sendMsg4KeysInstalled,
        { ctx with replayCounter := c.hdr.replayCounterU64, state := .connected })
  | groupMessage : c.hdr.isGroupMessage = true →
      EapolOutcome ctx c (.groupKeyInstalled, { ctx with state := .connected })
  | dropped : (c.hdr.isMessage1 = true →
        ctx.replayCounter ≠ 0#64 ∧ ¬ ctx.replayCounter < c.hdr.replayCounterU64) →
      (c.hdr.isMessage3 = true → ¬ ctx.replayCounter < c.hdr.replayCounterU64) →
      c.hdr.isGroupMessage = false → EapolOutcome ctx c (.drop, ctx)

theorem EapolKeyHdr.not_isMessage3 {hdr : EapolKeyHdr} (h : hdr.isMessage1 = true) :
    hdr.isMessage3 = false := by
  rw [isMessage1, Bool.and_eq_true, Bool.not_eq_true'] at h
  rw [isMessage3, h.2, Bool.and_false, Bool.false_and]

theorem EapolKeyHdr.hasBit_keyType {hdr : EapolKeyHdr}
    (h : hdr.isMessage1 = true ∨ hdr.isMessage3 = true) :
    hdr.hasBit KeyInfoBits.keyType = true := by
  rcases h with h | h
  · rw [isMessage1, Bool.and_eq_true, Bool.and_eq_true] at h
    exact h.1.1
  · rw [isMessage3, Bool.and_eq_true, Bool.and_eq_true, Bool.and_eq_true] at h
    exact h.1.1.1

/-- A pairwise message is no group message. -/
theorem EapolKeyHdr.not_isGroupMessage {hdr : EapolKeyHdr}
    (h : hdr.isMessage1 = true ∨ hdr.isMessage3 = true) : hdr.isGroupMessage = false := by
  rw [isGroupMessage, hasBit_keyType h]
  rfl

theorem processEapolKey_outcome (ctx : AuthCtx) (c : EapolCall) :
    EapolOutcome ctx c (c.apply ctx) := by
  rw [EapolCall.apply, processEapolKey]
  split
  · rename_i h₁
    split
    · rename_i hold
      refine .dropped (fun _ => ⟨hold.1, BitVec.not_lt.2 hold.2⟩) (fun h₃ => ?_)
        (EapolKeyHdr.not_isGroupMessage (.inl h₁))
      rw [EapolKeyHdr.not_isMessage3 h₁] at h₃
      cases h₃
    · rename_i hnew
      refine .message1 h₁ fun hne => ?_
      exact BitVec.not_le.1 fun hle => hnew ⟨hne, hle⟩
  rename_i h₁
  split
  · rename_i h₃
    split
    · rename_i hle
      exact .dropped (fun h => absurd h h₁) (fun _ => BitVec.not_lt.2 hle)
        (EapolKeyHdr.not_isGroupMessage (.inr h₃))
    · rename_i hlt
      exact .message3 h₃ (BitVec.not_le.1 hlt)
  split
  · rename_i hgroup
    exact .groupMessage hgroup
  · rename_i h₃ hgroup
    exact .dropped (fun h => absurd h h₁) (fun h => absurd h h₃) (Bool.eq_false_iff.2 hgroup)

end Outcome

/-! ### Runs -/

/-- A run: the context, the keys derived from the messages 1 that were accepted, and the headers of
the accepted frames. -/
structure EapolRun where
  ctx : AuthCtx
  ptks : List Ptk
  accepted : List EapolKeyHdr
  deriving DecidableEq, Repr

namespace EapolRun

/-- Before the first frame. -/
def start : EapolRun := ⟨AuthCtx.new, [], []⟩

/-- The next call of `process_eapol_key`. -/
def next (r : EapolRun) (c : EapolCall) : EapolRun :=
  let (res, ctx) := c.apply r.ctx
  if res.accepted then
    { ctx := ctx
      ptks := if res = .sendMsg2 then
          r.ptks ++ [derivePtk c.pmk c.hdr.keyNonce ctx.snonce c.apMac c.staMac]
        else r.ptks
      accepted := r.accepted ++ [c.hdr] }
  else { r with ctx := ctx }

/-- The MIC of the frame verifies under a key derived from a message 1 that was accepted before. -/
def MicVerifies (r : EapolRun) (c : EapolCall) : Prop :=
  ∃ ptk ∈ r.ptks,
    verifyEapolMic (ptk.toList.take 16) (c.hdr.macInput c.data) c.hdr.keyMic = true

/-- What is asked of a call: an accepted frame leaves the context connected only if it is a
message 3 whose MIC verifies, or a group message on a connected context; and no frame connects an
idle one. -/
structure ConnectsOk (r : EapolRun) (c : EapolCall) : Prop where
  connected : (c.apply r.ctx).1.accepted = true → (c.apply r.ctx).2.state = .connected →
    (c.hdr.isMessage3 = true ∧ r.MicVerifies c) ∨
      (c.hdr.isGroupMessage = true ∧ r.ctx.state = .connected)
  idle : r.ctx.state = .idle → (c.apply r.ctx).2.state ≠ .connected

/-- The frame does what the code does not check: a message 3 with a new counter has a MIC that
verifies, and a group message arrives on a connected context. -/
structure Genuine (r : EapolRun) (c : EapolCall) : Prop where
  message3 : c.hdr.isMessage3 = true → r.ctx.replayCounter < c.hdr.replayCounterU64 →
    r.MicVerifies c
  groupMessage : c.hdr.isGroupMessage = true → r.ctx.state = .connected

/-- What is asked of the counters: that of an accepted frame is above those of all frames accepted
before, and a dropped frame changes nothing. -/
structure ReplayOk (r : EapolRun) (c : EapolCall) : Prop where
  increasing : (c.apply r.ctx).1.accepted = true →
    ∀ hdr ∈ r.accepted, hdr.replayCounterU64 < c.hdr.replayCounterU64
  dropped : (c.apply r.ctx).1 = .drop → (c.apply r.ctx).2 = r.ctx

/-- The frame does what the code does not check: the counter of a group message is new, also that of
a message 1 while the context has the counter 0, and that of a pairwise message that is taken is
above those of the group messages before. -/
structure Ordered (r : EapolRun) (c : EapolCall) : Prop where
  groupMessage : c.hdr.isGroupMessage = true →
    ∀ hdr ∈ r.accepted, hdr.replayCounterU64 < c.hdr.replayCounterU64
  message1 : c.hdr.isMessage1 = true → r.ctx.replayCounter = 0#64 →
    ∀ hdr ∈ r.accepted, hdr.replayCounterU64 < c.hdr.replayCounterU64
  pairwise : c.hdr.isMessage1 = true ∨ c.hdr.isMessage3 = true →
    r.ctx.replayCounter < c.hdr.replayCounterU64 →
    ∀ hdr ∈ r.accepted, hdr.isGroupMessage = true →
      hdr.replayCounterU64 < c.hdr.replayCounterU64

variable {r : EapolRun} {c : EapolCall}

theorem next_of_accepted (h : (c.apply r.ctx).1.accepted = true) :
    r.next c =
      { ctx := (c.apply r.ctx).2
        ptks := if (c.apply r.ctx).1 = .sendMsg2 then
            r.ptks ++ [derivePtk c.pmk c.hdr.keyNonce (c.apply r.ctx).2.snonce c.apMac c.staMac]
          else r.ptks
        accepted := r.accepted ++ [c.hdr] } := if_pos h

theorem next_of_dropped (h : c.apply r.ctx = (.drop, r.ctx)) : r.next c = r := by
  rw [next, h]
  rfl

/-! ### Connecting -/

/-- A key was derived on the way only. -/
def Derived (r : EapolRun) : Prop := r.ptks ≠ [] → r.ctx.state ≠ .idle

theorem Derived.next (h : r.Derived) (c : EapolCall) : (r.next c).Derived := by
  generalize hout : c.apply r.ctx = out
  have houtcome := processEapolKey_outcome r.ctx c
  rw [hout] at houtcome
  cases houtcome with
  | message1 _ _ =>
      rw [next_of_accepted (by rw [hout]; rfl), hout]
      exact fun _ heq => by cases heq
  | message3 _ _ =>
      rw [next_of_accepted (by rw [hout]; rfl), hout]
      exact fun _ heq => by cases heq
  | groupMessage _ =>
      rw [next_of_accepted (by rw [hout]; rfl), hout]
      exact fun _ heq => by cases heq
  | dropped _ _ _ => rwa [next_of_dropped hout]

/-- A frame that connects as it should does what the code does not check. -/
theorem ConnectsOk.genuine (hok : r.ConnectsOk c) : r.Genuine c := by
  have houtcome := processEapolKey_outcome r.ctx c
  have hconnected := hok.connected
  generalize c.apply r.ctx = out at houtcome hconnected
  cases houtcome with
  | message1 h₁ _ =>
      have hgroup := EapolKeyHdr.not_isGroupMessage (.inl h₁)
      refine ⟨fun h₃ => ?_, fun hg => ?_⟩
      · rw [EapolKeyHdr.not_isMessage3 h₁] at h₃
        cases h₃
      · rw [hgroup] at hg
        cases hg
  | message3 h₃ _ =>
      have hgroup := EapolKeyHdr.not_isGroupMessage (.inr h₃)
      refine ⟨fun _ _ => ?_, fun hg => ?_⟩
      · rcases hconnected rfl rfl with ⟨-, hmic⟩ | ⟨hg, -⟩
        · exact hmic
        · rw [hgroup] at hg
          cases hg
      · rw [hgroup] at hg
        cases hg
  | groupMessage hgroup =>
      have h₃ : c.hdr.isMessage3 ≠ true := by
        intro h₃
        rw [EapolKeyHdr.not_isGroupMessage (.inr h₃)] at hgroup
        cases hgroup
      refine ⟨fun h => absurd h h₃, fun _ => ?_⟩
      rcases hconnected rfl rfl with ⟨h, -⟩ | ⟨-, hstate⟩
      · exact absurd h h₃
      · exact hstate
  | dropped _ hold hgroup =>
      refine ⟨fun h₃ hlt => absurd hlt (hold h₃), fun hg => ?_⟩
      rw [hgroup] at hg
      cases hg

/-- A frame that does what the code does not check connects as it should. -/
theorem Genuine.connectsOk (hgenuine : r.Genuine c) (h : r.Derived) : r.ConnectsOk c := by
  generalize hout : c.apply r.ctx = out
  have houtcome := processEapolKey_outcome r.ctx c
  rw [hout] at houtcome
  constructor
  · rw [hout]
    cases houtcome with
    | message1 _ _ => exact fun _ heq => by cases heq
    | message3 h₃ hlt => exact fun _ _ => .inl ⟨h₃, hgenuine.message3 h₃ hlt⟩
    | groupMessage hgroup => exact fun _ _ => .inr ⟨hgroup, hgenuine.groupMessage hgroup⟩
    | dropped _ _ _ => exact fun hacc => by cases hacc
  · rw [hout]
    intro hidle
    cases houtcome with
    | message1 _ _ => exact fun heq => by cases heq
    | message3 h₃ hlt =>
        obtain ⟨ptk, hptk, -⟩ := hgenuine.message3 h₃ hlt
        exact absurd hidle (h (List.ne_nil_of_mem hptk))
    | groupMessage hgroup =>
        have hstate := hgenuine.groupMessage hgroup
        rw [hidle] at hstate
        cases hstate
    | dropped _ _ _ =>
        change r.ctx.state ≠ .connected
        rw [hidle]
        exact fun heq => by cases heq

theorem connectsOk_iff (h : r.Derived) : r.ConnectsOk c ↔ r.Genuine c :=
  ⟨fun hok => hok.genuine, fun hgenuine => hgenuine.connectsOk h⟩

end EapolRun

/-- A run connects through the handshake only, exactly if every message 3 with a new counter has a
MIC that verifies, and every group message arrives on a connected context. -/
theorem eapol_connected_iff (calls : List EapolCall) :
    Runs.Along EapolRun.next EapolRun.ConnectsOk EapolRun.start calls ↔
      Runs.Along EapolRun.next EapolRun.Genuine EapolRun.start calls :=
  Runs.along_iff (I := EapolRun.Derived) (fun _ _ hr _ => EapolRun.connectsOk_iff hr)
    (fun _ c hr _ _ => hr.next c) (fun hne => absurd rfl hne) (Runs.along_true _ _ calls)

/-- A header with the given bytes of the key information, and the given counter. -/
def plainHdr (high low replayCounter : BitVec 8) : EapolKeyHdr where
  version := 2#8
  packetType := 3#8
  bodyLen := #v[0#8, 0#8]
  descriptorType := 2#8
  keyInfo := #v[high, low]
  keyLength := #v[0#8, 16#8]
  replayCounter := #v[0#8, 0#8, 0#8, 0#8, 0#8, 0#8, 0#8, replayCounter]
  keyNonce := Vector.replicate 32 0#8
  keyIv := Vector.replicate 16 0#8
  keyRsc := Vector.replicate 8 0#8
  reserved := Vector.replicate 8 0#8
  keyMic := Vector.replicate 16 0#8
  keyDataLen := #v[0#8, 0#8]

/-- A group message, with counter 5. -/
def groupCall : EapolCall where
  hdr := plainHdr 0x01#8 0x80#8 5#8
  data := []
  pmk := Vector.replicate 32 0#8
  apMac := Vector.replicate 6 0#8
  staMac := Vector.replicate 6 0#8

/-- A first frame that is a group message connects an idle context. -/
theorem eapol_group_connects :
    ¬ Runs.Along EapolRun.next EapolRun.ConnectsOk EapolRun.start [groupCall] := by
  rintro ⟨hok, -⟩
  exact hok.idle rfl (by decide +kernel)

namespace EapolRun

variable {r : EapolRun} {c : EapolCall}

/-! ### Counters -/

/-- The pairwise frames that were accepted do not have counters above that of the context. -/
def Counted (r : EapolRun) : Prop :=
  ∀ hdr ∈ r.accepted, hdr.isGroupMessage = false → hdr.replayCounterU64 ≤ r.ctx.replayCounter

theorem Counted.next (h : r.Counted) (hok : r.ReplayOk c) : (r.next c).Counted := by
  generalize hout : c.apply r.ctx = out
  have houtcome := processEapolKey_outcome r.ctx c
  have hincreasing := hok.increasing
  rw [hout] at houtcome hincreasing
  cases houtcome with
  | message1 _ _ =>
      rw [next_of_accepted (by rw [hout]; rfl), hout]
      intro hdr hhdr _
      rcases List.mem_append.1 hhdr with hhdr | hhdr
      · exact BitVec.le_of_lt (hincreasing rfl hdr hhdr)
      · rw [List.mem_singleton.1 hhdr]
        exact BitVec.le_refl _
  | message3 _ _ =>
      rw [next_of_accepted (by rw [hout]; rfl), hout]
      intro hdr hhdr _
      rcases List.mem_append.1 hhdr with hhdr | hhdr
      · exact BitVec.le_of_lt (hincreasing rfl hdr hhdr)
      · rw [List.mem_singleton.1 hhdr]
        exact BitVec.le_refl _
  | groupMessage hgroup =>
      rw [next_of_accepted (by rw [hout]; rfl), hout]
      intro hdr hhdr hpair
      rcases List.mem_append.1 hhdr with hhdr | hhdr
      · exact h hdr hhdr hpair
      · rw [List.mem_singleton.1 hhdr, hgroup] at hpair
        cases hpair
  | dropped _ _ _ => rwa [next_of_dropped hout]

/-- A pairwise message that is taken is above all frames that were accepted before. -/
theorem Ordered.above (h : r.Counted) (hordered : r.Ordered c)
    (hpair : c.hdr.isMessage1 = true ∨ c.hdr.isMessage3 = true)
    (hlt : r.ctx.replayCounter < c.hdr.replayCounterU64) :
    ∀ hdr ∈ r.accepted, hdr.replayCounterU64 < c.hdr.replayCounterU64 := by
  intro hdr hhdr
  cases hgroup : hdr.isGroupMessage with
  | true => exact hordered.pairwise hpair hlt hdr hhdr hgroup
  | false =>
      have hle := BitVec.le_def.1 (h hdr hhdr hgroup)
      exact BitVec.lt_def.2 (hle.trans_lt (BitVec.lt_def.1 hlt))

theorem replayOk_iff (h : r.Counted) : r.ReplayOk c ↔ r.Ordered c := by
  generalize hout : c.apply r.ctx = out
  have houtcome := processEapolKey_outcome r.ctx c
  rw [hout] at houtcome
  constructor
  · intro hok
    have hincreasing := hok.increasing
    rw [hout] at hincreasing
    cases houtcome with
    | message1 h₁ _ =>
        exact ⟨fun _ => hincreasing rfl, fun _ _ => hincreasing rfl,
          fun _ _ hdr hhdr _ => hincreasing rfl hdr hhdr⟩
    | message3 h₃ _ =>
        exact ⟨fun _ => hincreasing rfl, fun _ _ => hincreasing rfl,
          fun _ _ hdr hhdr _ => hincreasing rfl hdr hhdr⟩
    | groupMessage hgroup =>
        exact ⟨fun _ => hincreasing rfl, fun _ _ => hincreasing rfl,
          fun _ _ hdr hhdr _ => hincreasing rfl hdr hhdr⟩
    | dropped h₁ h₃ hgroup =>
        refine ⟨fun hg => ?_, fun hm hzero => absurd hzero (h₁ hm).1, fun hpair hlt => ?_⟩
        · rw [hgroup] at hg
          cases hg
        · rcases hpair with hm | hm
          · exact absurd hlt (h₁ hm).2
          · exact absurd hlt (h₃ hm)
  · intro hordered
    constructor
    · rw [hout]
      cases houtcome with
      | message1 h₁ hnew =>
          intro _
          by_cases hzero : r.ctx.replayCounter = 0#64
          · exact hordered.message1 h₁ hzero
          · exact hordered.above h (.inl h₁) (hnew hzero)
      | message3 h₃ hlt => exact fun _ => hordered.above h (.inr h₃) hlt
      | groupMessage hgroup => exact fun _ => hordered.groupMessage hgroup
      | dropped _ _ _ => exact fun hacc => by cases hacc
    · rw [hout]
      cases houtcome with
      | message1 _ _ => exact fun heq => by cases heq
      | message3 _ _ => exact fun heq => by cases heq
      | groupMessage _ => exact fun heq => by cases heq
      | dropped _ _ _ => exact fun _ => rfl

end EapolRun

/-- The counters of the accepted frames increase, and a dropped frame changes nothing, exactly if
the frames are ordered where the code does not check it. -/
theorem eapol_replay_iff (calls : List EapolCall) :
    Runs.Along EapolRun.next EapolRun.ReplayOk EapolRun.start calls ↔
      Runs.Along EapolRun.next EapolRun.Ordered EapolRun.start calls :=
  Runs.along_iff (I := EapolRun.Counted) (fun _ _ hr _ => EapolRun.replayOk_iff hr)
    (fun _ _ hr _ hordered => hr.next ((EapolRun.replayOk_iff hr).2 hordered))
    (fun _ hhdr => absurd hhdr List.not_mem_nil) (Runs.along_true _ _ calls)

/-- A group message is accepted a second time. -/
theorem eapol_group_repeats :
    ¬ Runs.Along EapolRun.next EapolRun.ReplayOk EapolRun.start [groupCall, groupCall] := by
  rintro ⟨-, hok, -⟩
  have hlt := hok.increasing (by decide +kernel) groupCall.hdr (by decide +kernel)
  exact absurd hlt (by decide +kernel)

end StarOS
