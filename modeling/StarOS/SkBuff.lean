/-
Socket buffers (`net/skbuff.rs`): the window of packet data in a buffer, and the calls that move it.

The offsets `data`, `tail` and `end` are 16 bits wide, and lengths are passed as `usize`.  `put`
truncates the length and adds it with wrap-around before it compares with the end of the buffer, so
a length that does not fit can pass the check; `put` then returns a slice of the length it was asked
for.  The window stays in the buffer exactly in the runs in which every `put` that does not fit is
one that still does not fit modulo 2¹⁶, and no `reserve` moves the tail over the end.

* `StarOS.SkBuff`, `StarOS.Slice`, `StarOS.SkBuffError` — the data;
* `StarOS.SkBuff.alloc`, `StarOS.SkBuff.reserve`, `StarOS.SkBuff.put`, `StarOS.SkBuff.pull`,
  `StarOS.SkBuff.push`, `StarOS.SkBuff.dataSlice` — the operations;
* `StarOS.SkBuff.Window` — the invariant;
* `StarOS.SkbCall`, `StarOS.SkBuff.InBounds` — the calls, and what a call has to respect;
* `StarOS.SkBuff.NoWrap` — the condition on the state before a call;
* `StarOS.skb_window_iff` — the window stays in the buffer exactly if all calls meet the condition;
* `StarOS.skb_put_wraps` — a `put` that returns a slice beyond the buffer.
-/

import StarOS.Runs
import StarOS.Word
import Mathlib.Tactic.Cases

set_option autoImplicit false

namespace StarOS

/-! ### Data -/

/-- The window of a socket buffer, and what `clone` and `drop` look at. -/
structure SkBuff where
  /-- Address of the buffer. -/
  head : ℕ
  /-- Offset of the first byte of data from the head. -/
  data : BitVec 16
  /-- Offset of the first byte after the data. -/
  tail : BitVec 16
  /-- Offset of the end of the buffer. -/
  end_ : BitVec 16
  /-- Length of the data. -/
  len : BitVec 32
  /-- Reference count. -/
  users : BitVec 32
  deriving DecidableEq, Repr

/-- Socket buffer errors. -/
inductive SkBuffError where
  | allocFailed | tooLarge | overflow | underflow | invalid
  deriving DecidableEq, Repr

/-- A slice of a buffer: the offset of its first byte from the head, and its length. -/
structure Slice where
  start : ℕ
  length : ℕ
  deriving DecidableEq, Repr

/-- `MAX_SKB_SIZE`. -/
def maxSkbSize : ℕ := 65536

/-- `SKB_SHARED_INFO_SIZE`. -/
def skbSharedInfoSize : ℕ := 320

/-! ### Operations

Arithmetic wraps, as in a release build. -/

namespace SkBuff

/-- `SkBuff::alloc`, when the allocator returns the address `head`. -/
def alloc (head size : ℕ) : Except SkBuffError SkBuff :=
  if maxSkbSize < size then .error .tooLarge
  else if 65535 < size then .error .tooLarge
  else .ok
    { head := head
      data := 0#16
      tail := 0#16
      end_ := BitVec.ofNat 16 size
      len := 0#32
      users := 1#32 }

/-- `SkBuff::reserve`. -/
def reserve (s : SkBuff) (len : ℕ) : SkBuff :=
  { s with data := s.data + BitVec.ofNat 16 len, tail := s.tail + BitVec.ofNat 16 len }

/-- `SkBuff::put`. -/
def put (s : SkBuff) (len : ℕ) : Except SkBuffError Slice × SkBuff :=
  -- `self.tail + len as u16`: the length is truncated, and the sum wraps
  let newTail := s.tail + BitVec.ofNat 16 len
  if s.end_ < newTail then (.error .overflow, s)
  else
    (.ok ⟨s.tail.toNat, len⟩, { s with tail := newTail, len := s.len + BitVec.ofNat 32 len })

/-- `SkBuff::pull`. -/
def pull (s : SkBuff) (len : ℕ) : Except SkBuffError Unit × SkBuff :=
  if s.len.toNat < len then (.error .underflow, s)
  else
    (.ok (), { s with data := s.data + BitVec.ofNat 16 len, len := s.len - BitVec.ofNat 32 len })

/-- `SkBuff::push`. -/
def push (s : SkBuff) (len : ℕ) : Except SkBuffError Slice × SkBuff :=
  if s.data.toNat < len then (.error .underflow, s)
  else
    (.ok ⟨(s.data - BitVec.ofNat 16 len).toNat, len⟩,
      { s with data := s.data - BitVec.ofNat 16 len, len := s.len + BitVec.ofNat 32 len })

/-- `SkBuff::data_slice`. -/
def dataSlice (s : SkBuff) : Slice := ⟨s.data.toNat, s.len.toNat⟩

/-- `SkBuff::headroom`. -/
def headroom (s : SkBuff) : ℕ := s.data.toNat

/-- `SkBuff::tailroom`. -/
def tailroom (s : SkBuff) : ℕ := (s.end_ - s.tail).toNat

/-! ### The window -/

/-- The window of the data lies in the buffer, and `len` is its width. -/
structure Window (s : SkBuff) : Prop where
  data_le : s.data.toNat ≤ s.tail.toNat
  tail_le : s.tail.toNat ≤ s.end_.toNat
  len_eq : s.len.toNat = s.tail.toNat - s.data.toNat

/-- A slice lies in the buffer. -/
def Within (s : SkBuff) (slice : Slice) : Prop := slice.start + slice.length ≤ s.end_.toNat

theorem Window.dataSlice {s : SkBuff} (h : s.Window) : s.Within s.dataSlice := by
  obtain ⟨hdata, htail, hlen⟩ := h
  simp only [Within, SkBuff.dataSlice]
  omega

theorem Window.room {s : SkBuff} (h : s.Window) :
    s.headroom + s.len.toNat + s.tailroom = s.end_.toNat := by
  obtain ⟨hdata, htail, hlen⟩ := h
  rw [headroom, tailroom, BitVec.toNat_sub_of_le (BitVec.le_def.2 htail)]
  omega

theorem alloc_eq_ok {head size : ℕ} {s : SkBuff} (h : alloc head size = .ok s) :
    s.Window ∧ s.head = head ∧ s.end_.toNat = size ∧ s.users = 1#32 := by
  rw [alloc] at h
  split at h
  · cases h
  · split at h
    · cases h
    · cases h
      refine ⟨⟨le_refl _, Nat.zero_le _, rfl⟩, rfl, ?_, rfl⟩
      rw [BitVec.toNat_ofNat]
      exact Nat.mod_eq_of_lt (by omega)

/-- A 16-bit offset after a length was added to it. -/
theorem toNat_add_ofNat (offset : BitVec 16) (len : ℕ) :
    (offset + BitVec.ofNat 16 len).toNat = (offset.toNat + len) % 2 ^ 16 := by
  rw [BitVec.toNat_add, BitVec.toNat_ofNat, Nat.add_mod_mod]

end SkBuff

/-! ### Calls -/

/-- The calls that move the window. -/
inductive SkbCall where
  | reserve (len : ℕ)
  | put (len : ℕ)
  | pull (len : ℕ)
  | push (len : ℕ)
  deriving DecidableEq, Repr

namespace SkBuff

/-- What a call returns, with the slice if it returns one, and the buffer afterwards. -/
def call (s : SkBuff) : SkbCall → Except SkBuffError (Option Slice) × SkBuff
  | .reserve len => (.ok none, s.reserve len)
  | .put len => ((s.put len).1.map some, (s.put len).2)
  | .pull len => ((s.pull len).1.map fun _ => none, (s.pull len).2)
  | .push len => ((s.push len).1.map some, (s.push len).2)

/-- The buffer after a call. -/
def next (s : SkBuff) (c : SkbCall) : SkBuff := (s.call c).2

/-- The precondition of `reserve` that a debug build asserts; the other calls have none. -/
def InRoom (s : SkBuff) : SkbCall → Prop
  | .reserve len => s.data.toNat + len ≤ s.end_.toNat
  | _ => True

/-- What a call has to respect: the window lies in the buffer afterwards, and so do the slice it
returns and the data; a call that fails changes nothing. -/
structure InBounds (s : SkBuff) (c : SkbCall) : Prop where
  window : (s.next c).Window
  slice : ∀ slice, (s.call c).1 = .ok (some slice) → s.Within slice
  data : (s.next c).Within (s.next c).dataSlice
  error : ∀ e, (s.call c).1 = .error e →
    (s.next c).data = s.data ∧ (s.next c).tail = s.tail ∧ (s.next c).len = s.len

/-- The condition on the state before a call: a `put` that does not fit in the buffer does not fit
modulo 2¹⁶ either, and `reserve` leaves the tail in the buffer. -/
def NoWrap (s : SkBuff) : SkbCall → Prop
  | .reserve len => s.tail.toNat + len ≤ s.end_.toNat
  | .put len => s.end_.toNat < s.tail.toNat + len → s.end_.toNat < (s.tail.toNat + len) % 2 ^ 16
  | _ => True

/-! ### What each call does to the window -/

variable {s : SkBuff}

/-- `put` is rejected if the length does not fit modulo 2¹⁶. -/
theorem put_error {len : ℕ} (h : s.end_.toNat < (s.tail.toNat + len) % 2 ^ 16) :
    s.put len = (.error .overflow, s) := by
  rw [put]
  exact if_pos (by rwa [BitVec.lt_def, toNat_add_ofNat])

/-- `put` is accepted if the length fits modulo 2¹⁶. -/
theorem put_ok {len : ℕ} (h : (s.tail.toNat + len) % 2 ^ 16 ≤ s.end_.toNat) :
    s.put len = (.ok ⟨s.tail.toNat, len⟩,
      { s with tail := s.tail + BitVec.ofNat 16 len, len := s.len + BitVec.ofNat 32 len }) := by
  rw [put]
  refine if_neg ?_
  rw [BitVec.lt_def, toNat_add_ofNat]
  omega

theorem pull_ok {len : ℕ} (h : len ≤ s.len.toNat) :
    s.pull len = (.ok (),
      { s with data := s.data + BitVec.ofNat 16 len, len := s.len - BitVec.ofNat 32 len }) := by
  rw [pull]
  exact if_neg (by omega)

theorem push_ok {len : ℕ} (h : len ≤ s.data.toNat) :
    s.push len = (.ok ⟨(s.data - BitVec.ofNat 16 len).toNat, len⟩,
      { s with data := s.data - BitVec.ofNat 16 len, len := s.len + BitVec.ofNat 32 len }) := by
  rw [push]
  exact if_neg (by omega)

theorem push_error {len : ℕ} (h : s.data.toNat < len) : s.push len = (.error .underflow, s) := by
  rw [push]
  exact if_pos h

/-- A call that fails and leaves the buffer as it is respects the window. -/
theorem Window.inBounds_of_error (h : s.Window) {c : SkbCall} (e : SkBuffError)
    (hc : s.call c = (.error e, s)) : s.InBounds c := by
  have hnext : s.next c = s := by rw [next, hc]
  constructor
  case window => rwa [hnext]
  case slice =>
    intro slice hok
    rw [hc] at hok
    cases hok
  case data =>
    rw [hnext]
    exact h.dataSlice
  case error =>
    intro _ _
    rw [hnext]
    exact ⟨rfl, rfl, rfl⟩

/-- A call that succeeds respects the window if it leads to one of the same buffer, and the slice
it returns lies in the buffer. -/
theorem inBounds_of_ok {c : SkbCall} (slice : Option Slice) (s' : SkBuff)
    (hc : s.call c = (.ok slice, s')) (hw : s'.Window)
    (hslice : ∀ sl, slice = some sl → s.Within sl) : s.InBounds c := by
  have hnext : s.next c = s' := by rw [next, hc]
  constructor
  case window => rwa [hnext]
  case slice =>
    intro sl hok
    rw [hc] at hok
    exact hslice sl (Except.ok.inj hok)
  case data =>
    rw [hnext]
    exact hw.dataSlice
  case error =>
    intro e he
    rw [hc] at he
    cases he

/-- `reserve` within the buffer respects the window exactly if the tail stays in the buffer. -/
theorem Window.reserve_iff (h : s.Window) {len : ℕ} (hroom : s.data.toNat + len ≤ s.end_.toNat) :
    s.InBounds (.reserve len) ↔ s.tail.toNat + len ≤ s.end_.toNat := by
  obtain ⟨hdata, htail, hlen⟩ := h
  have hend : s.end_.toNat < 2 ^ 16 := s.end_.isLt
  have hdata' : (s.reserve len).data.toNat = s.data.toNat + len := by
    rw [reserve, toNat_add_ofNat]
    exact Nat.mod_eq_of_lt (by omega)
  have htail' : (s.reserve len).tail.toNat = (s.tail.toNat + len) % 2 ^ 16 := toNat_add_ofNat _ _
  constructor
  · rintro ⟨⟨hle, hle', -⟩, -, -, -⟩
    change (s.reserve len).data.toNat ≤ (s.reserve len).tail.toNat at hle
    change (s.reserve len).tail.toNat ≤ s.end_.toNat at hle'
    omega
  · intro hfits
    rw [Nat.mod_eq_of_lt (by omega)] at htail'
    refine inBounds_of_ok none (s.reserve len) rfl ⟨?_, ?_, ?_⟩ nofun
    · omega
    · exact htail' ▸ hfits
    · change s.len.toNat = _
      omega

/-- `put` respects the window exactly if a length that does not fit is rejected. -/
theorem Window.put_iff (h : s.Window) {len : ℕ} :
    s.InBounds (.put len) ↔
      (s.end_.toNat < s.tail.toNat + len → s.end_.toNat < (s.tail.toNat + len) % 2 ^ 16) := by
  have hend : s.end_.toNat < 2 ^ 16 := s.end_.isLt
  constructor
  · intro hbounds hover
    by_contra hfits
    -- the length is accepted, and the slice ends where it says
    have hcall : s.call (.put len) = (.ok (some ⟨s.tail.toNat, len⟩), (s.put len).2) := by
      rw [call, put_ok (Nat.le_of_not_lt hfits)]
      rfl
    have hslice := hbounds.slice ⟨s.tail.toNat, len⟩ (by rw [hcall])
    exact absurd hover (Nat.not_lt_of_le hslice)
  · intro hno
    by_cases hover : s.end_.toNat < s.tail.toNat + len
    · refine h.inBounds_of_error .overflow ?_
      rw [call, put_error (hno hover)]
      rfl
    · obtain ⟨hdata, htail, hlen⟩ := h
      -- the length fits, and so nothing was truncated
      have hmod : (s.tail.toNat + len) % 2 ^ 16 = s.tail.toNat + len := Nat.mod_eq_of_lt (by omega)
      have hcall : s.put len = _ := put_ok (by omega)
      refine inBounds_of_ok (some ⟨s.tail.toNat, len⟩) (s.put len).2 ?_ ?_ ?_
      · rw [call, hcall]
        rfl
      · rw [hcall]
        refine ⟨?_, ?_, ?_⟩
        · rw [toNat_add_ofNat, hmod]
          dsimp only
          omega
        · rw [toNat_add_ofNat, hmod]
          dsimp only
          omega
        · dsimp only
          rw [toNat_add_ofNat, hmod, BitVec.toNat_add, BitVec.toNat_ofNat]
          omega
      · intro sl hsl
        rw [← Option.some.inj hsl]
        change s.tail.toNat + len ≤ s.end_.toNat
        omega

/-- `pull` respects the window. -/
theorem Window.pull (h : s.Window) (len : ℕ) : s.InBounds (.pull len) := by
  by_cases hlen : len ≤ s.len.toNat
  · have hcall := pull_ok hlen
    refine inBounds_of_ok none (s.pull len).2 (by rw [call, hcall]; rfl) ?_ nofun
    obtain ⟨hdata, htail, hlen'⟩ := h
    have hend : s.end_.toNat < 2 ^ 16 := s.end_.isLt
    have hdata' : (s.data + BitVec.ofNat 16 len).toNat = s.data.toNat + len := by
      rw [toNat_add_ofNat]
      exact Nat.mod_eq_of_lt (by omega)
    have hlen32 : (BitVec.ofNat 32 len).toNat = len := by
      rw [BitVec.toNat_ofNat]
      exact Nat.mod_eq_of_lt (by omega)
    rw [hcall]
    refine ⟨?_, htail, ?_⟩
    · rw [hdata']
      dsimp only
      omega
    · dsimp only
      rw [hdata', BitVec.toNat_sub_of_le (BitVec.le_def.2 (by omega)), hlen32]
      omega
  · refine h.inBounds_of_error .underflow ?_
    rw [call, SkBuff.pull, if_pos (by omega)]
    rfl

/-- `push` respects the window. -/
theorem Window.push (h : s.Window) (len : ℕ) : s.InBounds (.push len) := by
  by_cases hlen : len ≤ s.data.toNat
  · have hcall := push_ok hlen
    obtain ⟨hdata, htail, hlen'⟩ := h
    have hend : s.end_.toNat < 2 ^ 16 := s.end_.isLt
    have hlen16 : (BitVec.ofNat 16 len).toNat = len := by
      rw [BitVec.toNat_ofNat]
      exact Nat.mod_eq_of_lt (by omega)
    have hdata' : (s.data - BitVec.ofNat 16 len).toNat = s.data.toNat - len := by
      rw [BitVec.toNat_sub_of_le (BitVec.le_def.2 (by omega)), hlen16]
    refine inBounds_of_ok (some ⟨(s.data - BitVec.ofNat 16 len).toNat, len⟩) (s.push len).2 ?_ ?_ ?_
    · rw [call, hcall]
      rfl
    · rw [hcall]
      refine ⟨?_, htail, ?_⟩
      · rw [hdata']
        dsimp only
        omega
      · dsimp only
        rw [hdata', BitVec.toNat_add, BitVec.toNat_ofNat]
        omega
    · rintro sl hsl
      rw [← Option.some.inj hsl, Within]
      dsimp only
      omega
  · refine h.inBounds_of_error .underflow ?_
    rw [call, push_error (by omega)]
    rfl

/-- A call respects the window exactly if it meets the condition. -/
theorem Window.inBounds_iff (h : s.Window) {c : SkbCall} (hroom : s.InRoom c) :
    s.InBounds c ↔ s.NoWrap c := by
  cases c with
  | reserve len => exact h.reserve_iff hroom
  | put len => exact h.put_iff
  | pull len => exact iff_of_true (h.pull len) trivial
  | push len => exact iff_of_true (h.push len) trivial

end SkBuff

/-- For every buffer and every run of calls, with `reserve` called as it may be: the window lies in
the buffer at the start, and every call respects it exactly if every call meets the condition. -/
theorem skb_window_iff (head size : ℕ) (s : SkBuff) (halloc : SkBuff.alloc head size = .ok s)
    (calls : List SkbCall) (hroom : Runs.Along SkBuff.next SkBuff.InRoom s calls) :
    s.Window ∧ (Runs.Along SkBuff.next SkBuff.InBounds s calls ↔
      Runs.Along SkBuff.next SkBuff.NoWrap s calls) := by
  have hwindow : s.Window := (SkBuff.alloc_eq_ok halloc).1
  refine ⟨hwindow, Runs.along_iff (fun _ _ hw hr => hw.inBounds_iff hr) ?_ hwindow hroom⟩
  intro s c hw hr hno
  exact ((hw.inBounds_iff hr).2 hno).window

/-- A buffer of 1500 bytes, with room for the link header. -/
def etherBuffer : SkBuff := (⟨0, 0#16, 0#16, 1500#16, 0#32, 1#32⟩ : SkBuff)

theorem etherBuffer_room (len : ℕ) (h : len ≤ 1500) :
    etherBuffer.data.toNat + len ≤ etherBuffer.end_.toNat := by
  change 0 + len ≤ 1500
  omega

theorem skb_window_packet :
    Runs.Along SkBuff.next SkBuff.InBounds etherBuffer [.reserve 54, .put 1000, .push 20] :=
  (skb_window_iff 0 1500 etherBuffer rfl [.reserve 54, .put 1000, .push 20]
    ⟨etherBuffer_room 54 (by decide), trivial, trivial, trivial⟩).2.2
    ⟨etherBuffer_room 54 (by decide), fun h => absurd h (by decide), trivial, trivial⟩

/-- `put` of 2¹⁶ bytes passes the check, and returns a slice far beyond the buffer. -/
theorem skb_put_wraps :
    SkBuff.alloc 0 1500 = .ok etherBuffer ∧ (etherBuffer.put 65536).1 = .ok ⟨0, 65536⟩ ∧
      ¬ etherBuffer.Within ⟨0, 65536⟩ ∧
      ¬ (etherBuffer.next (.put 65536)).Window ∧
      ¬ Runs.Along SkBuff.next SkBuff.InBounds etherBuffer [.put 65536] := by
  have hput : (etherBuffer.put 65536).1 = .ok ⟨0, 65536⟩ := by decide
  have hout : ¬ etherBuffer.Within ⟨0, 65536⟩ := by simp [SkBuff.Within, etherBuffer]
  refine ⟨rfl, hput, hout, fun h => absurd h.len_eq (by decide), fun h => hout ?_⟩
  exact h.1.slice _ (by rw [SkBuff.call, hput]; rfl)

end StarOS
