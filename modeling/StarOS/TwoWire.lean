/-
A bus with a data line and a clock line, which everybody on it can pull low.

The master changes the lines, and what the others see of it are events: the data line falls or rises
while the clock is high (a start, and a stop), or the clock falls after it was high with the data
line left alone (a bit, the level of the line then).  The devices pull the data line low, or not, by
what they have seen so far.  After a start the bits come in bytes, each with a ninth bit as its
acknowledgement; the last bit of the first byte says who writes the others.

* `TwoWire.Bus`, `TwoWire.Bus.setSda`, `TwoWire.Bus.setScl` — the lines, and the changes of the
  master;
* `TwoWire.Bus.low`, `TwoWire.Bus.up` — the lines between the changes;
* `TwoWire.sinceStart`, `TwoWire.Fresh`, `TwoWire.Addressed` — where in a transfer a history ends;
* `TwoWire.Conforms` — devices that release the line for others, and acknowledge all that is
  written;
* `TwoWire.written`, `TwoWire.presented`, `TwoWire.bytesRead` — the bits of a byte written, those
  that the devices present, and the bits of bytes read, with the bytes;
* `TwoWire.run_bind` — running a program step by step.
-/

import Mathlib.Data.BitVec
import Mathlib.Data.Nat.Notation

set_option autoImplicit false

namespace TwoWire

/-! ### The lines -/

/-- What is seen on the lines. -/
inductive Event where
  | start
  | stop
  | bit (level : Bool)
  deriving DecidableEq, Repr

/-- The level that the devices leave the data line at (`true`: released) after what they have seen.
-/
abbrev Devices := List Event → Bool

/-- The lines as the master drives them; whether it left the data line alone since the clock
changed; what was seen; and how often the clock was read since it changed. -/
structure Bus where
  sda : Bool
  scl : Bool
  quiet : Bool
  events : List Event
  polls : ℕ
  deriving DecidableEq, Repr

namespace Bus

/-- The level of the data line. -/
def line (devices : Devices) (b : Bus) : Bool := b.sda && devices b.events

/-- The master drives the data line. -/
def setSda (b : Bus) (level : Bool) : Bus :=
  if b.scl = true ∧ b.sda ≠ level then
    { b with
      sda := level
      quiet := false
      events := b.events ++ [if level then .stop else .start] }
  else { b with sda := level }

/-- The master drives the clock. -/
def setScl (devices : Devices) (b : Bus) (level : Bool) : Bus :=
  if b.scl = level then b
  else
    { b with
      scl := level
      quiet := true
      polls := 0
      events := if b.scl = true ∧ b.quiet = true then b.events ++ [.bit (b.line devices)]
        else b.events }

/-- The clock is low. -/
def low (level : Bool) (h : List Event) : Bus := ⟨level, false, true, h, 0⟩

/-- The clock is high, and the data line was left alone since. -/
def up (level : Bool) (h : List Event) (polls : ℕ) : Bus := ⟨level, true, true, h, polls⟩

section Changes

variable {devices : Devices} {level level' quiet : Bool} {h : List Event} {polls : ℕ}

@[simp]
theorem setSda_low : (low level h).setSda level' = low level' h := by simp [setSda, low]

@[simp]
theorem setScl_low : (low level h).setScl devices true = up level h 0 := by
  simp [setScl, low, up]

@[simp]
theorem setScl_up : (up level h polls).setScl devices false =
    low level (h ++ [.bit (level && devices h)]) := by
  simp [setScl, low, up, line]

/-- A start, and the clock falls without a bit. -/
theorem start_eq : ((⟨true, true, quiet, h, polls⟩ : Bus).setSda false).setScl devices false =
    low false (h ++ [.start]) := by
  simp [setSda, setScl, low]

theorem stop_eq :
    (up false h polls).setSda true = ⟨true, true, false, h ++ [.stop], polls⟩ := by
  simp [setSda, up]

end Changes

end Bus

/-! ### Histories -/

/-- The bits since the last start, unless there was a stop since. -/
def sinceStart (h : List Event) : Option (List Bool) :=
  h.foldl (fun bits e =>
    match e with
    | .start => some []
    | .stop => none
    | .bit level => bits.map fun bits => bits ++ [level]) none

/-- Bits on the lines. -/
def bitEvents (bits : List Bool) : List Event := bits.map .bit

/-- The next byte is the first one after a start. -/
def Fresh (h : List Event) : Prop := sinceStart h = some []

/-- The next byte is one behind the first one, which says whether the devices write it. -/
def Addressed (read : Bool) (h : List Event) : Prop :=
  ∃ bits, sinceStart h = some bits ∧ bits.length % 9 = 0 ∧ bits[7]? = some read

/-- The devices leave the line to the master for what it writes, and for its acknowledgements, and
acknowledge every byte that it writes. -/
structure Conforms (devices : Devices) : Prop where
  released : ∀ h bits, (Fresh h ∨ Addressed false h) → bits.length < 8 →
    devices (h ++ bitEvents bits) = true
  acknowledges : ∀ h bits, (Fresh h ∨ Addressed false h) → bits.length = 8 →
    devices (h ++ bitEvents bits) = false
  listens : ∀ h bits, Addressed true h → bits.length = 8 → devices (h ++ bitEvents bits) = true

variable {h : List Event} {devices : Devices}

theorem bitEvents_append (bits bits' : List Bool) :
    bitEvents (bits ++ bits') = bitEvents bits ++ bitEvents bits' := List.map_append

theorem sinceStart_bitEvents {bits : List Bool} (hbits : sinceStart h = some bits)
    (bits' : List Bool) : sinceStart (h ++ bitEvents bits') = some (bits ++ bits') := by
  induction bits' generalizing h bits with
  | nil => simpa [bitEvents] using hbits
  | cons level bits' ih =>
      have hnext : sinceStart (h ++ [.bit level]) = some (bits ++ [level]) := by
        rw [sinceStart] at hbits ⊢
        rw [List.foldl_append, hbits]
        rfl
      have htail := ih hnext
      rw [List.append_assoc, List.append_assoc] at htail
      exact htail

theorem fresh_start (h : List Event) : Fresh (h ++ [.start]) := by
  rw [Fresh, sinceStart, List.foldl_append]
  rfl

/-- The first byte says who writes. -/
theorem Fresh.addressed (hh : Fresh h) {bits : List Bool} {read : Bool} (hlen : bits.length = 9)
    (hread : bits[7]? = some read) : Addressed read (h ++ bitEvents bits) :=
  ⟨bits, sinceStart_bitEvents hh bits, by rw [hlen], hread⟩

/-- The bytes that follow are written by the same side. -/
theorem Addressed.addressed {read : Bool} (hh : Addressed read h) {bits : List Bool}
    (hlen : bits.length = 9) : Addressed read (h ++ bitEvents bits) := by
  obtain ⟨before, hbefore, hmod, hread⟩ := hh
  have hlt : 7 < before.length := (List.getElem?_eq_some_iff.1 hread).1
  refine ⟨before ++ bits, sinceStart_bitEvents hbefore bits, ?_, ?_⟩
  · rw [List.length_append, hlen, Nat.add_mod_right, hmod]
  · rw [List.getElem?_append_left hlt, hread]

/-! ### Bytes -/

/-- The bits of a byte, the highest first. -/
def byteBits (c : BitVec 8) : List Bool := (List.range 8).reverse.map c.getLsbD

/-- The byte with such bits. -/
def byteOf (bits : List Bool) : BitVec 8 :=
  BitVec.ofNat 8 (bits.foldl (fun v level => 2 * v + level.toNat) 0)

/-- A byte that is written, and acknowledged. -/
def written (c : BitVec 8) : List Event := bitEvents (byteBits c ++ [false])

/-- The next bits that the devices present. -/
def presented (devices : Devices) (h : List Event) : ℕ → List Bool
  | 0 => []
  | n + 1 => devices h :: presented devices (h ++ [.bit (devices h)]) n

/-- Bytes that are read, each but the last one acknowledged. -/
def bytesRead (devices : Devices) (h : List Event) : ℕ → List Event × List (BitVec 8)
  | 0 => ([], [])
  | n + 1 =>
      let bits := presented devices h 8
      let events := bitEvents (bits ++ [decide (n = 0)])
      let rest := bytesRead devices (h ++ events) n
      (events ++ rest.1, byteOf bits :: rest.2)

@[simp]
theorem length_byteBits (c : BitVec 8) : (byteBits c).length = 8 := by simp [byteBits]

@[simp]
theorem length_presented (devices : Devices) (h : List Event) (n : ℕ) :
    (presented devices h n).length = n := by
  induction n generalizing h with
  | zero => rfl
  | succ n ih => rw [presented, List.length_cons, ih]

/-- The last bit of a byte is the lowest. -/
theorem getElem?_byteBits_last (c : BitVec 8) (level : Bool) :
    (byteBits c ++ [level])[7]? = some (c.getLsbD 0) := rfl

/-- After a written byte the same side writes. -/
theorem Addressed.written {read : Bool} (hh : Addressed read h) (c : BitVec 8) :
    Addressed read (h ++ written c) :=
  hh.addressed (by rw [List.length_append, length_byteBits]; rfl)

/-! ### Running programs -/

universe u

variable {ε σ α β : Type u}

/-- A program goes on where its first step has ended. -/
theorem run_bind {x : EStateM ε σ α} {f : α → EStateM ε σ β} {s t : σ} {a : α}
    (hx : x s = .ok a t) : (x >>= f) s = f a t := by
  change EStateM.bind x f s = f a t
  rw [EStateM.bind, hx]

end TwoWire
