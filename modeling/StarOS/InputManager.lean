/-
The input manager (`input/mod.rs`, `input/mouse.rs`): from the bytes of the devices to the
listeners of the surfaces.

A mouse or keyboard that interrupts is decoded at once, and the events that come out of it go into
the queue; the render loop takes them out, moves the cursor and tells the listeners.  All of these
calls hold the lock of the manager, so that each of them is one step here.

* `StarOS.Ps2Mouse`, `StarOS.UsbHidMouse`, `StarOS.Ps2Keyboard` — the decoders;
* `StarOS.EventQueue.push`, `StarOS.EventQueue.pop` — the queue, one call at a time, and
  `StarOS.EventState.push_uninterrupted`, `StarOS.EventState.pop_uninterrupted`: these are the
  accesses of the two calls, one after the other;
* `StarOS.InputWorld.handle`, `StarOS.InputState.poll`, `StarOS.inputSystem` — the manager, and the
  runs of it;
* `StarOS.inboxSystem`, `StarOS.input_refines` — the queue is an inbox of which a poll takes the
  last 63 events;
* `StarOS.MousePacket`, `StarOS.mouse_packets` — what a mouse sends decides where the cursor is and
  what is held, whenever the manager polls;
* `StarOS.clicks_stay_on_cursor` — no click gets past the surface of the cursor.
-/

import StarOS.EventQueue
import StarOS.HitTest

set_option autoImplicit false

namespace StarOS

/-! ### The decoders -/

/-- `Ps2Mouse`. -/
structure Ps2Mouse where
  buf : Vector (BitVec 8) 3
  pos : Fin 3
  prevButtons : BitVec 8
  deriving DecidableEq, Repr

/-- `UsbHidMouse`. -/
structure UsbHidMouse where
  prevButtons : BitVec 8
  deriving DecidableEq, Repr

/-- `Ps2Keyboard`. -/
structure Ps2Keyboard where
  extended : Bool
  release : Bool
  deriving DecidableEq, Repr

/-- The event for a button, if the button has changed. -/
def buttonEvent (buttons changed : BitVec 8) (x y : BitVec 32) (bit : ℕ) : Option InputEvent :=
  if changed &&& (1#8 <<< bit) ≠ 0#8 then
    some (.mouseButton (1#8 <<< bit) (decide (buttons &&& (1#8 <<< bit) ≠ 0#8)) x y)
  else none

/-- The loop over the buttons at the end of `decode` and of `handle_report`. -/
def buttonEvents (buttons prevButtons : BitVec 8) (x y : BitVec 32) : List InputEvent :=
  let changed := buttons ^^^ prevButtons
  if changed ≠ 0#8 then (List.range 3).filterMap (buttonEvent buttons changed x y) else []

/-- The event for a movement, if there is one. -/
def moveEvent (dx dy : BitVec 16) : List InputEvent :=
  if dx ≠ 0#16 ∨ dy ≠ 0#16 then [.mouseMove dx dy] else []

/-- A delta of nine bits, of which the sign is among the flags. -/
def signedDelta (byte flags sign : BitVec 8) : BitVec 16 :=
  byte.setWidth 16 ||| if flags &&& sign ≠ 0#8 then 0xFF00#16 else 0#16

namespace Ps2Mouse

theorem first_lt : 0 < 3 := Nat.zero_lt_succ 2

/-- `Ps2Mouse::new`. -/
def new : Ps2Mouse := ⟨Vector.replicate 3 0#8, ⟨0, first_lt⟩, 0#8⟩

/-- `Ps2Mouse::decode`, with the events that are pushed, in this order. -/
def decode (m : Ps2Mouse) (cursorX cursorY : BitVec 32) : Ps2Mouse × List InputEvent :=
  let flags := m.buf[0]
  let buttons := flags &&& 0x07#8
  let rawDx := signedDelta m.buf[1] flags 0x10#8
  let rawDy := -signedDelta m.buf[2] flags 0x20#8
  -- overflow: the packet is dropped, its buttons too
  if flags &&& 0xC0#8 ≠ 0#8 then (m, [])
  else
    ({ m with prevButtons := buttons },
      moveEvent rawDx rawDy ++ buttonEvents buttons m.prevButtons cursorX cursorY)

/-- `Ps2Mouse::feed`. -/
def feed (m : Ps2Mouse) (byte : BitVec 8) (cursorX cursorY : BitVec 32) :
    Ps2Mouse × List InputEvent :=
  if m.pos.val = 0 ∧ byte &&& 0x08#8 = 0#8 then (m, [])
  else
    let m := { m with buf := m.buf.set m.pos byte }
    if h : m.pos.val + 1 < 3 then ({ m with pos := ⟨m.pos.val + 1, h⟩ }, [])
    else { m with pos := ⟨0, first_lt⟩ }.decode cursorX cursorY

end Ps2Mouse

/-- `UsbHidMouse::handle_report`, with the events that are pushed. -/
def UsbHidMouse.handleReport (m : UsbHidMouse) (report : List (BitVec 8))
    (cursorX cursorY : BitVec 32) : UsbHidMouse × List InputEvent :=
  match report with
  | flags :: dx :: dy :: rest =>
      let buttons := flags &&& 0x07#8
      let wheel := match rest with
        | delta :: _ => if delta ≠ 0#8 then [.mouseWheel delta cursorX cursorY] else []
        | [] => []
      (⟨buttons⟩, moveEvent (dx.signExtend 16) (dy.signExtend 16) ++ wheel ++
        buttonEvents buttons m.prevButtons cursorX cursorY)
  | _ => (m, [])

/-- `Ps2Keyboard::feed`, with the events that are pushed. -/
def Ps2Keyboard.feed (k : Ps2Keyboard) (byte : BitVec 8) : Ps2Keyboard × List InputEvent :=
  if byte = 0xE0#8 then ({ k with extended := true }, [])
  else if byte = 0xF0#8 then ({ k with release := true }, [])
  else
    let scancode := if k.extended then 0x0100#16 ||| byte.setWidth 16 else byte.setWidth 16
    (⟨false, false⟩, [if k.release then .keyUp scancode else .keyDown scancode])

/-! ### The queue, one call at a time -/

namespace EventQueue

/-- `EventQueue::push`.  A slot out of range is a panic. -/
def push (q : EventQueue) (event : InputEvent) : Option (Bool × EventQueue) :=
  let nextTail := nextIndex q.tail
  let dropped := decide (nextTail = q.head)
  let q := if dropped then
      { q with head := nextIndex q.head, droppedCount := q.droppedCount + 1#64 } else q
  if q.tail.toNat < queueCapacity then
    some (!dropped, { q with buf := Function.update q.buf q.tail.toNat event, tail := nextTail })
  else none

/-- `EventQueue::pop`. -/
def pop (q : EventQueue) : Option (Option InputEvent × EventQueue) :=
  if q.head = q.tail then some (none, q)
  else if q.head.toNat < queueCapacity then
    some (some (q.buf q.head.toNat), { q with head := nextIndex q.head })
  else none

/-- Pushing one event after the other. -/
def pushAll (q : EventQueue) (events : List InputEvent) : Option EventQueue :=
  events.foldlM (fun q event => (q.push event).map Prod.snd) q

end EventQueue

/-! ### The manager -/

/-- `InputManager`, for listeners of any kind: of a listener only which one it is matters here. -/
structure InputManager (L : Type) where
  ps2Mouse : Ps2Mouse
  usbMouse : UsbHidMouse
  ps2Kbd : Ps2Keyboard
  cursorX : BitVec 32
  cursorY : BitVec 32
  cursorHandle : Option ℕ
  screenW : BitVec 32
  screenH : BitVec 32
  listeners : List (ℕ × Option L)
  heldButtons : BitVec 8

/-- `MAX_LISTENERS`. -/
def maxListeners : ℕ := 32

/-- The manager, the surfaces of the display server, if there is one, and the calls that the
listeners have got: which listener, with which handle, and with which event. -/
structure InputWorld (L : Type) where
  mgr : InputManager L
  display : Option Compositor
  heard : List (L × ℕ × InputEvent)

namespace InputManager

variable {L : Type}

/-- `InputManager::new`. -/
def new : InputManager L where
  ps2Mouse := .new
  usbMouse := ⟨0#8⟩
  ps2Kbd := ⟨false, false⟩
  cursorX := 0#32
  cursorY := 0#32
  cursorHandle := none
  screenW := 1080#32
  screenH := 1920#32
  listeners := List.replicate maxListeners (0, none)
  heldButtons := 0#8

/-- `InputManager::set_cursor`. -/
def setCursor (mgr : InputManager L) (handle : ℕ) : InputManager L :=
  { mgr with cursorHandle := some handle }

/-- `InputManager::register_listener`: in a full table the listener is dropped. -/
def registerListener (mgr : InputManager L) (handle : ℕ) (listener : L) : InputManager L :=
  match mgr.listeners.findIdx? fun slot => slot.2.isNone with
  | some i => { mgr with listeners := mgr.listeners.set i (handle, some listener) }
  | none => mgr

/-- `InputManager::unregister_listener`. -/
def unregisterListener (mgr : InputManager L) (handle : ℕ) : InputManager L :=
  { mgr with listeners := mgr.listeners.map fun slot =>
      if slot.1 = handle ∧ slot.2.isSome then (0, none) else slot }

/-- A coordinate of the cursor, moved and clamped to the screen. -/
def clampMove (pos screen : BitVec 32) (delta : BitVec 16) : BitVec 32 :=
  let sum := pos + delta.signExtend 32
  let low := if sum.slt 0#32 then 0#32 else sum
  if (screen - 1#32).slt low then screen - 1#32 else low

/-- `InputManager::update_cursor_surface`. -/
def updateCursorSurface (mgr : InputManager L) (ds : Option Compositor) : Option Compositor :=
  match mgr.cursorHandle, ds with
  | some handle, some c =>
      match c.surfaces[handle]?.join with
      | some surf =>
          some { c with
            surfaces := c.surfaces.set handle
              (some { surf with x := mgr.cursorX, y := mgr.cursorY }) }
      | none => ds
  | _, _ => ds

/-- `InputManager::dispatch_global`. -/
def dispatchGlobal (mgr : InputManager L) (event : InputEvent) : List (L × ℕ × InputEvent) :=
  mgr.listeners.filterMap fun slot => slot.2.map fun cb => (cb, slot.1, event)

/-- `InputManager::notify_listener`. -/
def notifyListener (mgr : InputManager L) (handle : ℕ) (event : InputEvent) :
    List (L × ℕ × InputEvent) :=
  mgr.listeners.filterMap fun slot =>
    if slot.1 = handle then slot.2.map fun cb => (cb, handle, event) else none

/-- `InputManager::dispatch_hit`. -/
def dispatchHit (mgr : InputManager L) (ds : Option Compositor) (x y : BitVec 32)
    (event : InputEvent) : List (L × ℕ × InputEvent) :=
  match hitTest ds x y with
  | some handle => mgr.notifyListener handle event
  | none => []

end InputManager

namespace InputWorld

variable {L : Type}

/-- `InputManager::move_cursor`. -/
def moveCursor (w : InputWorld L) (dx dy : BitVec 16) : InputWorld L :=
  let mgr := { w.mgr with
    cursorX := InputManager.clampMove w.mgr.cursorX w.mgr.screenW dx
    cursorY := InputManager.clampMove w.mgr.cursorY w.mgr.screenH dy }
  { w with mgr := mgr, display := mgr.updateCursorSurface w.display }

/-- The listeners hear what a dispatch tells them. -/
def hear (w : InputWorld L) (calls : List (L × ℕ × InputEvent)) : InputWorld L :=
  { w with heard := w.heard ++ calls }

/-- The body of the loop of `poll`. -/
def handle (w : InputWorld L) : InputEvent → InputWorld L
  | .mouseMove dx dy => w.moveCursor dx dy
  | .mouseButton buttons pressed _ _ =>
      let held := if pressed then w.mgr.heldButtons ||| buttons
        else w.mgr.heldButtons &&& ~~~buttons
      let w := { w with mgr := { w.mgr with heldButtons := held } }
      -- with the cursor where it is by now
      w.hear (w.mgr.dispatchHit w.display w.mgr.cursorX w.mgr.cursorY
        (.mouseButton buttons pressed w.mgr.cursorX w.mgr.cursorY))
  | .mouseWheel delta _ _ =>
      w.hear (w.mgr.dispatchHit w.display w.mgr.cursorX w.mgr.cursorY
        (.mouseWheel delta w.mgr.cursorX w.mgr.cursorY))
  | .keyDown scancode => w.hear (w.mgr.dispatchGlobal (.keyDown scancode))
  | .keyUp scancode => w.hear (w.mgr.dispatchGlobal (.keyUp scancode))
  | .touch _ x y pressed =>
      w.hear (w.mgr.dispatchHit w.display x y (.mouseButton 0x01#8 pressed x y))

/-- What changes the manager other than events. -/
inductive Setup (L : Type) where
  /-- `init`. -/
  | init (screenW screenH : BitVec 32)
  | setCursor (handle : ℕ)
  | registerListener (handle : ℕ) (listener : L)
  | unregisterListener (handle : ℕ)
  /-- The owner of the display server does something to it. -/
  | display (ds : Option Compositor)

/-- A change other than by events. -/
def setup (w : InputWorld L) : Setup L → InputWorld L
  | .init screenW screenH => { w with mgr := { w.mgr with screenW := screenW, screenH := screenH } }
  | .setCursor handle => { w with mgr := w.mgr.setCursor handle }
  | .registerListener handle listener => { w with mgr := w.mgr.registerListener handle listener }
  | .unregisterListener handle => { w with mgr := w.mgr.unregisterListener handle }
  | .display ds => { w with display := ds }

/-- What a device sends. -/
inductive Feed where
  | ps2Mouse (byte : BitVec 8)
  | usbHid (report : List (BitVec 8))
  | ps2Kbd (byte : BitVec 8)
  deriving DecidableEq, Repr

/-- `InputManager::feed_ps2_mouse`, `InputManager::feed_usb_hid` and `InputManager::feed_ps2_kbd`:
the decoder moves on, and the events are pushed. -/
def feed (w : InputWorld L) : Feed → InputWorld L × List InputEvent
  | .ps2Mouse byte =>
      let (m, events) := w.mgr.ps2Mouse.feed byte w.mgr.cursorX w.mgr.cursorY
      ({ w with mgr := { w.mgr with ps2Mouse := m } }, events)
  | .usbHid report =>
      let (m, events) := w.mgr.usbMouse.handleReport report w.mgr.cursorX w.mgr.cursorY
      ({ w with mgr := { w.mgr with usbMouse := m } }, events)
  | .ps2Kbd byte =>
      let (k, events) := w.mgr.ps2Kbd.feed byte
      ({ w with mgr := { w.mgr with ps2Kbd := k } }, events)

end InputWorld

/-- The manager and the queue. -/
structure InputState (L : Type) where
  world : InputWorld L
  queue : EventQueue

/-- The calls on the manager. -/
inductive InputAct (L : Type) where
  | feed (f : InputWorld.Feed)
  | poll
  | setup (c : InputWorld.Setup L)

namespace InputState

variable {L : Type}

/-- The loop of `poll`, for a number of rounds: `none` if it has not ended after them, or has
panicked. -/
def poll : ℕ → InputState L → Option (InputState L)
  | 0, _ => none
  | n + 1, s =>
      match s.queue.pop with
      | none => none
      | some (none, q) => some { s with queue := q }
      | some (some event, q) => poll n ⟨s.world.handle event, q⟩

/-- A call on the manager. -/
def next (s : InputState L) : InputAct L → Option (InputState L)
  | .feed f => (s.queue.pushAll (s.world.feed f).2).map fun q => ⟨(s.world.feed f).1, q⟩
  | .poll => s.poll queueCapacity
  | .setup c => some { s with world := s.world.setup c }

end InputState

/-- The runs of the manager from some state of it, with nothing in the queue. -/
def inputSystem {L : Type} (w₀ : InputWorld L) : Runs.System (InputState L) (InputAct L) where
  init := fun s => s = ⟨w₀, .new⟩
  step := fun s a s' => s.next a = some s'

/-! ### What the queue holds -/

namespace EventQueue

variable {q q' : EventQueue} {l : List InputEvent}

/-- The queue holds the events, oldest first. -/
structure Holds (q : EventQueue) (l : List InputEvent) : Prop where
  head : q.head.toNat < 64
  tail : q.tail.toNat = (q.head.toNat + l.length) % 64
  length : l.length ≤ 63
  slot : ∀ k : ℕ, k < l.length → l[k]? = some (q.buf ((q.head.toNat + k) % 64))

theorem toNat_nextIndex (i : Usize) : (nextIndex i).toNat = (i.toNat + 1) % 64 := by
  rw [nextIndex, queueMask, BitVec.toNat_and]
  have hmask : (63#64).toNat = 2 ^ 6 - 1 := rfl
  rw [hmask, Nat.and_two_pow_sub_one_eq_mod, BitVec.toNat_add]
  have hone : (1#64).toNat = 1 := rfl
  rw [hone]
  omega

theorem holds_new : EventQueue.new.Holds [] where
  head := by simp [EventQueue.new]
  tail := by simp [EventQueue.new]
  length := by simp
  slot := by simp

/-- The queue is full exactly when it holds 63 events. -/
theorem Holds.full_iff (h : q.Holds l) : nextIndex q.tail = q.head ↔ l.length = 63 := by
  have hhead := h.head
  have htail := h.tail
  have hlen := h.length
  rw [← BitVec.toNat_inj, toNat_nextIndex, htail]
  omega

theorem Holds.empty_iff (h : q.Holds l) : q.head = q.tail ↔ l = [] := by
  have hhead := h.head
  have hlen := h.length
  rw [← BitVec.toNat_inj, h.tail, ← List.length_eq_zero_iff]
  omega

/-- Dropping the oldest event. -/
theorem Holds.dropOldest (h : q.Holds l) (hl : 0 < l.length) (n : Usize) :
    ({ q with head := nextIndex q.head, droppedCount := n } : EventQueue).Holds l.tail where
  head := by
    rw [toNat_nextIndex]
    exact Nat.mod_lt _ (by omega)
  tail := by
    rw [toNat_nextIndex, List.length_tail]
    have htail := h.tail
    have hlen := h.length
    simp only
    omega
  length := by
    have hlen := h.length
    rw [List.length_tail]
    omega
  slot := fun k hk => by
    rw [List.length_tail] at hk
    have hslot := h.slot (k + 1) (by omega)
    have hpos : (q.head.toNat + (k + 1)) % 64 = ((q.head.toNat + 1) % 64 + k) % 64 := by omega
    rw [toNat_nextIndex, List.getElem?_tail, hslot, hpos]

/-- Writing the slot at `tail`. -/
theorem Holds.append (h : q.Holds l) (hl : l.length < 63) (event : InputEvent) :
    ({ q with
      buf := Function.update q.buf q.tail.toNat event
      tail := nextIndex q.tail } : EventQueue).Holds (l ++ [event]) where
  head := h.head
  tail := by
    have htail := h.tail
    rw [toNat_nextIndex, List.length_append, List.length_singleton, htail]
    simp only
    omega
  length := by
    rw [List.length_append, List.length_singleton]
    omega
  slot := fun k hk => by
    have htail := h.tail
    have hhead := h.head
    rw [List.length_append, List.length_singleton] at hk
    obtain hlt | rfl := Nat.lt_succ_iff_lt_or_eq.1 hk
    · have hne : (q.head.toNat + k) % 64 ≠ q.tail.toNat := by omega
      simp only [List.getElem?_append_left hlt, h.slot k hlt, Function.update_of_ne hne]
    · simp only [List.getElem?_concat_length, ← htail, Function.update_self]

/-- `push` on a queue with room. -/
theorem Holds.push (h : q.Holds l) (hl : l.length < 63) (event : InputEvent) :
    ∃ q', q.push event = some (true, q') ∧ q'.Holds (l ++ [event]) ∧
      q'.droppedCount = q.droppedCount := by
  have hfull : nextIndex q.tail ≠ q.head := fun he => by
    have := h.full_iff.1 he
    omega
  have htail : q.tail.toNat < queueCapacity := by
    rw [h.tail]
    exact Nat.mod_lt _ (by omega)
  refine ⟨_, ?_, h.append hl event, rfl⟩
  simp [EventQueue.push, hfull, htail]

/-- `push` on a full queue drops the oldest event. -/
theorem Holds.push_full (h : q.Holds l) (hl : l.length = 63) (event : InputEvent) :
    ∃ q', q.push event = some (false, q') ∧ q'.Holds (l.tail ++ [event]) ∧
      q'.droppedCount = q.droppedCount + 1#64 := by
  have hfull : nextIndex q.tail = q.head := h.full_iff.2 hl
  have htail : q.tail.toNat < queueCapacity := by
    rw [h.tail]
    exact Nat.mod_lt _ (by omega)
  have hlen : l.tail.length < 63 := by
    rw [List.length_tail]
    omega
  refine ⟨_, ?_, (h.dropOldest (by omega) (q.droppedCount + 1#64)).append hlen event, rfl⟩
  simp [EventQueue.push, hfull, htail]

/-- `pop` on an empty queue. -/
theorem Holds.pop_nil (h : q.Holds []) : q.pop = some (none, q) := by
  rw [EventQueue.pop, if_pos (h.empty_iff.2 rfl)]

/-- `pop` gives the oldest event. -/
theorem Holds.pop_cons {event : InputEvent} (h : q.Holds (event :: l)) :
    q.pop = some (some event, { q with head := nextIndex q.head }) ∧
      ({ q with head := nextIndex q.head } : EventQueue).Holds l := by
  have hne : q.head ≠ q.tail := fun he => by
    simpa using h.empty_iff.1 he
  have hslot := h.slot 0 (by simp)
  rw [Nat.add_zero, Nat.mod_eq_of_lt h.head, List.getElem?_cons_zero, Option.some_inj] at hslot
  refine ⟨?_, h.dropOldest (by simp) q.droppedCount⟩
  rw [EventQueue.pop, if_neg hne, if_pos (show q.head.toNat < queueCapacity from h.head), ← hslot]

/-- What the queue holds is its contents. -/
theorem Holds.contents_eq (h : q.Holds l) : q.contents = l := by
  have hhead := h.head
  have htail := h.tail
  have hlen := h.length
  have hcount : ((q.tail - q.head) &&& queueMask).toNat = l.length := by
    have hmask : (63#64).toNat = 2 ^ 6 - 1 := rfl
    rw [queueMask, BitVec.toNat_and, hmask, Nat.and_two_pow_sub_one_eq_mod, BitVec.toNat_sub]
    omega
  rw [contents, hcount]
  refine List.ext_getElem? fun k => ?_
  rw [List.getElem?_map]
  rcases Nat.lt_or_ge k l.length with hk | hk
  · rw [List.getElem?_range hk, h.slot k hk]
    rfl
  · rw [List.getElem?_eq_none hk, List.getElem?_eq_none (by simpa using hk)]
    rfl

/-- The events that a queue keeps of those that are pushed into it: the last 63. -/
def window (events : List InputEvent) : List InputEvent := events.drop (events.length - 63)

theorem length_window (events : List InputEvent) :
    (window events).length = min events.length 63 := by
  rw [window, List.length_drop]
  omega

/-- One more event. -/
theorem window_append (events : List InputEvent) (event : InputEvent) :
    window (events ++ [event]) =
      (if events.length < 63 then window events else (window events).tail) ++ [event] := by
  rw [window, window, List.length_append, List.length_singleton]
  by_cases hlt : events.length < 63
  · have h₀ : events.length - 63 = 0 := by omega
    have h₁ : events.length + 1 - 63 = 0 := by omega
    rw [if_pos hlt, h₀, h₁, List.drop_zero, List.drop_zero]
  · rw [if_neg hlt, List.tail_drop, List.drop_append_of_le_length (by omega)]
    congr 2
    omega

/-- Pushing into a queue that has been empty, and counting what is dropped. -/
theorem Holds.pushAll {pushed : List InputEvent} {lost : ℕ} (h : q.Holds (window pushed))
    (hlost : q.droppedCount = BitVec.ofNat 64 (lost + (pushed.length - 63)))
    (events : List InputEvent) :
    ∃ q', q.pushAll events = some q' ∧ q'.Holds (window (pushed ++ events)) ∧
      q'.droppedCount = BitVec.ofNat 64 (lost + ((pushed ++ events).length - 63)) := by
  induction events generalizing q pushed with
  | nil => exact ⟨q, rfl, by rwa [List.append_nil], by rwa [List.append_nil]⟩
  | cons event events ih =>
      have hlen := length_window pushed
      have hcut := window_append pushed event
      obtain ⟨kept, q₁, hpush, hq₁, hcount⟩ : ∃ kept q₁, q.push event = some (kept, q₁) ∧
          q₁.Holds (window (pushed ++ [event])) ∧
          q₁.droppedCount = BitVec.ofNat 64 (lost + ((pushed ++ [event]).length - 63)) := by
        rw [List.length_append, List.length_singleton]
        by_cases hlt : pushed.length < 63
        · obtain ⟨q₁, hpush, hq₁, hcount⟩ := h.push (by omega) event
          rw [if_pos hlt] at hcut
          refine ⟨true, q₁, hpush, hcut ▸ hq₁, ?_⟩
          rw [hcount, hlost]
          congr 1
          omega
        · obtain ⟨q₁, hpush, hq₁, hcount⟩ := h.push_full (by omega) event
          rw [if_neg hlt] at hcut
          refine ⟨false, q₁, hpush, hcut ▸ hq₁, ?_⟩
          have hnext : lost + (pushed.length + 1 - 63) = lost + (pushed.length - 63) + 1 := by omega
          rw [hcount, hlost, hnext]
          exact (BitVec.ofNat_add _ 1).symm
      obtain ⟨q', hrest, hq', hcount'⟩ := ih hq₁ hcount
      rw [List.append_assoc, List.singleton_append] at hq' hcount'
      refine ⟨q', ?_, hq', hcount'⟩
      rw [EventQueue.pushAll] at hrest ⊢
      rw [List.foldlM_cons, hpush]
      exact hrest

end EventQueue

/-! ### One call after the other -/

namespace EventState

variable {s : EventState} {q : EventQueue}

/-- A `push` that nothing comes between is `EventQueue.push`. -/
theorem push_uninterrupted {event : InputEvent} {kept : Bool} (hpc : s.push = .idle)
    (h : s.queue.push event = some (kept, q)) :
    ∃ n, Runs.replay next (fun _ _ => true) s (.push event :: List.replicate n .producer) =
      some { s with queue := q, pushed := s.pushed ++ [event], kept := s.kept ++ [kept] } := by
  obtain ⟨queue, push, pop, pushed, keeps, pops⟩ := s
  subst hpc
  rw [EventQueue.push] at h
  by_cases hfull : nextIndex queue.tail = queue.head <;>
    by_cases htail : queue.tail.toNat < queueCapacity
  · simp only [hfull, decide_true, if_true, htail, Bool.not_true, Option.some.injEq,
      Prod.mk.injEq] at h
    obtain ⟨rfl, rfl⟩ := h
    refine ⟨7, ?_⟩
    simp [Runs.replay, next, producer, hfull, htail, List.replicate]
  · simp [hfull, htail] at h
  · simp only [hfull, decide_false, Bool.false_eq_true, if_false, htail, if_true, Bool.not_false,
      Option.some.injEq, Prod.mk.injEq] at h
    obtain ⟨rfl, rfl⟩ := h
    refine ⟨4, ?_⟩
    simp [Runs.replay, next, producer, hfull, htail, List.replicate]
  · simp [hfull, htail] at h

/-- A `pop` that nothing comes between is `EventQueue.pop`. -/
theorem pop_uninterrupted {event : Option InputEvent} (hpc : s.pop = .idle)
    (h : s.queue.pop = some (event, q)) :
    ∃ n, Runs.replay next (fun _ _ => true) s (.pop :: List.replicate n .consumer) =
      some { s with queue := q, pops := s.pops ++ [event] } := by
  obtain ⟨queue, push, pop, pushed, keeps, pops⟩ := s
  subst hpc
  rw [EventQueue.pop] at h
  by_cases hempty : queue.head = queue.tail
  · simp only [hempty, if_true, Option.some.injEq, Prod.mk.injEq] at h
    obtain ⟨rfl, rfl⟩ := h
    refine ⟨2, ?_⟩
    simp [Runs.replay, next, consumer, hempty, List.replicate]
  · by_cases hhead : queue.head.toNat < queueCapacity
    · simp only [hempty, if_false, hhead, if_true, Option.some.injEq, Prod.mk.injEq] at h
      obtain ⟨rfl, rfl⟩ := h
      refine ⟨4, ?_⟩
      simp [Runs.replay, next, consumer, hempty, hhead, List.replicate]
    · simp [hempty, hhead] at h

end EventState

/-! ### The queue is an inbox -/

/-- The manager, with an inbox for the events since the last poll, and the number of those that were
lost before it. -/
structure Inbox (L : Type) where
  world : InputWorld L
  pending : List InputEvent
  lost : ℕ

namespace Inbox

variable {L : Type}

/-- A poll. -/
def poll (t : Inbox L) : Inbox L where
  world := (EventQueue.window t.pending).foldl InputWorld.handle t.world
  pending := []
  lost := t.lost + (t.pending.length - 63)

/-- A call on the manager. -/
def next (t : Inbox L) : InputAct L → Inbox L
  | .feed f => { t with world := (t.world.feed f).1, pending := t.pending ++ (t.world.feed f).2 }
  | .poll => t.poll
  | .setup c => { t with world := t.world.setup c }

end Inbox

/-- The runs of the inbox. -/
def inboxSystem {L : Type} (w₀ : InputWorld L) : Runs.System (Inbox L) (InputAct L) where
  init := fun t => t = ⟨w₀, [], 0⟩
  step := fun t a t' => t' = t.next a

namespace InputState

variable {L : Type} {s s' : InputState L} {t : Inbox L} {a : InputAct L}

/-- The queue holds what the inbox would keep. -/
structure Holds (s : InputState L) (t : Inbox L) : Prop where
  world : s.world = t.world
  queue : s.queue.Holds (EventQueue.window t.pending)
  lost : s.queue.droppedCount = BitVec.ofNat 64 (t.lost + (t.pending.length - 63))

/-- The loop of `poll` handles everything in the queue. -/
theorem poll_eq {l : List InputEvent} (hq : s.queue.Holds l) {n : ℕ} (hn : l.length < n) :
    ∃ q, s.poll n = some ⟨l.foldl InputWorld.handle s.world, q⟩ ∧ q.Holds [] ∧
      q.droppedCount = s.queue.droppedCount := by
  induction l generalizing s n with
  | nil =>
      obtain ⟨n, rfl⟩ := Nat.exists_eq_succ_of_ne_zero (Nat.ne_of_gt hn)
      exact ⟨s.queue, by rw [poll, hq.pop_nil, List.foldl_nil], hq, rfl⟩
  | cons event l ih =>
      have hpos : 0 < n := Nat.lt_of_le_of_lt (Nat.zero_le _) hn
      obtain ⟨n, rfl⟩ := Nat.exists_eq_succ_of_ne_zero (Nat.ne_of_gt hpos)
      obtain ⟨hpop, hrest⟩ := hq.pop_cons
      obtain ⟨q, hpoll, hq', hcount⟩ := ih
        (s := ⟨s.world.handle event, { s.queue with head := nextIndex s.queue.head }⟩) hrest
        (n := n) (Nat.lt_of_succ_lt_succ hn)
      refine ⟨q, ?_, hq', hcount⟩
      rw [poll, hpop]
      exact hpoll

/-- A call on the manager does to the queue what it does to the inbox. -/
theorem Holds.next (h : s.Holds t) (a : InputAct L) :
    ∃ s', s.next a = some s' ∧ s'.Holds (t.next a) := by
  cases a with
  | feed f =>
      obtain ⟨q, hpush, hq, hcount⟩ := h.queue.pushAll h.lost (s.world.feed f).2
      refine ⟨⟨(s.world.feed f).1, q⟩, ?_, ?_, ?_, ?_⟩
      · rw [InputState.next, hpush, Option.map_some]
      · rw [Inbox.next, h.world]
      · rw [h.world] at hq
        exact hq
      · rw [h.world] at hcount
        exact hcount
  | poll =>
      have hlen : (EventQueue.window t.pending).length < queueCapacity := by
        rw [EventQueue.length_window, queueCapacity]
        omega
      obtain ⟨q, hpoll, hq, hcount⟩ := poll_eq h.queue hlen
      refine ⟨_, hpoll, ?_, hq, ?_⟩
      · rw [Inbox.next, Inbox.poll, h.world]
      · rw [hcount, h.lost]
        rfl
  | setup c =>
      refine ⟨_, rfl, ?_, h.queue, h.lost⟩
      rw [Inbox.next, h.world]

theorem Holds.step (h : s.Holds t) (hs : s.next a = some s') : s'.Holds (t.next a) := by
  obtain ⟨s₁, hnext, hholds⟩ := h.next a
  obtain rfl : s₁ = s' := Option.some_inj.1 (hnext.symm.trans hs)
  exact hholds

/-- Nothing is in the queue at first. -/
theorem holds_start (w₀ : InputWorld L) : (⟨w₀, .new⟩ : InputState L).Holds ⟨w₀, [], 0⟩ :=
  ⟨rfl, EventQueue.holds_new, rfl⟩

end InputState

/-- **The queue is an inbox.**  In every run of the manager no call panics, and every poll comes to
an end and handles the last 63 of the events that the devices have sent since the poll before, in
order; what waits in the queue are the last 63 of those since the last poll, and the others are
counted. -/
theorem input_refines {L : Type} {w₀ : InputWorld L} {tr : List (InputAct L)} {s : InputState L}
    (h : (inputSystem w₀).Exec Runs.anyStep tr s) :
    (∀ a, ∃ s', s.next a = some s') ∧
    ∃ t, (inboxSystem w₀).Exec Runs.anyStep tr t ∧ s.world = t.world ∧
      s.queue.contents = EventQueue.window t.pending ∧
      s.queue.droppedCount.toNat = (t.lost + (t.pending.length - 63)) % 2 ^ 64 := by
  obtain ⟨t, ht, hholds⟩ := h.simulates (N := inboxSystem w₀) (R := InputState.Holds)
    (fun s₀ (h₀ : s₀ = _) => ⟨_, rfl, h₀ ▸ InputState.holds_start w₀⟩)
    fun s₀ a s₁ t hR _ hs => ⟨_, rfl, hR.step hs⟩
  refine ⟨fun a => ?_, t, ht, hholds.world, hholds.queue.contents_eq, ?_⟩
  · obtain ⟨s', hnext, -⟩ := hholds.next a
    exact ⟨s', hnext⟩
  · rw [hholds.lost, BitVec.toNat_ofNat]

/-- A key is struck, and the manager polls. -/
theorem input_refines_two :
    ∃ s : InputState Unit, (inputSystem ⟨.new, none, []⟩).Exec Runs.anyStep
        [.feed (.ps2Kbd 0x1C#8), .poll] s ∧
      (∀ a, ∃ s', s.next a = some s') ∧
      ∃ t, (inboxSystem (L := Unit) ⟨.new, none, []⟩).Exec Runs.anyStep
          [.feed (.ps2Kbd 0x1C#8), .poll] t ∧ s.world = t.world ∧
        s.queue.contents = EventQueue.window t.pending ∧
        s.queue.droppedCount.toNat = (t.lost + (t.pending.length - 63)) % 2 ^ 64 := by
  have hrun := ((Runs.System.Exec.init (M := inputSystem (L := Unit) ⟨.new, none, []⟩)
    (G := Runs.anyStep) rfl).step (a := InputAct.feed (.ps2Kbd 0x1C#8)) trivial rfl).step
    (a := InputAct.poll) trivial rfl
  exact ⟨_, hrun, input_refines hrun⟩

/-! ### The cursor -/

/-- The number, clamped to a screen. -/
def clampTo (screen : ℕ) (x : ℤ) : ℤ := min (max x 0) (screen - 1)

namespace InputManager

variable {pos screen : BitVec 32}

/-- A coordinate as a signed number. -/
theorem toInt_coordinate (hpos : pos.toNat < 2 ^ 31) : pos.toInt = pos.toNat := by
  rw [BitVec.toInt_eq_toNat_cond, if_pos (by omega)]

theorem toInt_screen_sub_one (hscreen : 0 < screen.toNat) (hlt : screen.toNat < 2 ^ 31) :
    (screen - 1#32).toNat = screen.toNat - 1 ∧ (screen - 1#32).toInt = screen.toNat - 1 := by
  have hone : (1#32).toNat = 1 := rfl
  have hsub : (screen - 1#32).toNat = screen.toNat - 1 := by
    rw [BitVec.toNat_sub, hone]
    omega
  refine ⟨hsub, ?_⟩
  rw [toInt_coordinate (by omega), hsub]
  omega

/-- Clamping a signed number of 32 bits. -/
theorem clamp_eq (sum : BitVec 32) (hscreen : 0 < screen.toNat) (hlt : screen.toNat < 2 ^ 31) :
    ((if (screen - 1#32).slt (if sum.slt 0#32 then 0#32 else sum) then screen - 1#32
      else if sum.slt 0#32 then 0#32 else sum).toNat : ℤ) = clampTo screen.toNat sum.toInt := by
  obtain ⟨hnat, hint⟩ := toInt_screen_sub_one hscreen hlt
  have hzero : (0#32).toInt = 0 := rfl
  have hsum := BitVec.toInt_eq_toNat_cond sum
  have hbound := sum.isLt
  simp only [BitVec.slt_iff_toInt_lt, clampTo]
  by_cases hneg : sum.toInt < 0
  · rw [hzero, if_pos hneg, hint, hzero, if_neg (by omega), BitVec.toNat_ofNat]
    omega
  · rw [hzero, if_neg hneg, hint]
    have hpos : sum.toInt = sum.toNat := by
      split at hsum <;> omega
    split
    · omega
    · omega

/-- Moving a coordinate of the cursor. -/
theorem clampMove_eq (hpos : pos.toNat < 2 ^ 31 - 2 ^ 15) (hscreen : 0 < screen.toNat)
    (hlt : screen.toNat < 2 ^ 31) (delta : BitVec 16) :
    ((clampMove pos screen delta).toNat : ℤ) = clampTo screen.toNat (pos.toNat + delta.toInt) := by
  have hsum : (pos + delta.signExtend 32).toInt = pos.toNat + delta.toInt := by
    have hlow := delta.le_toInt
    have hhigh := delta.toInt_lt
    rw [BitVec.toInt_add, BitVec.toInt_signExtend_of_le (by omega), toInt_coordinate (by omega)]
    exact Int.bmod_eq_of_le_mul_two (by omega) (by omega)
  rw [← hsum]
  exact clamp_eq _ hscreen hlt

/-- On the screen, no movement is no movement. -/
theorem clampMove_zero (hpos : pos.toNat < screen.toNat)
    (hscreen : screen.toNat ≤ 2 ^ 31 - 2 ^ 15) : clampMove pos screen 0#16 = pos := by
  have heq : ((clampMove pos screen 0#16).toNat : ℤ) =
      clampTo screen.toNat (pos.toNat + (0#16).toInt) :=
    clampMove_eq (by omega) (by omega) (by omega) 0#16
  have hzero : (0#16).toInt = 0 := rfl
  rw [clampTo, hzero] at heq
  apply BitVec.eq_of_toNat_eq
  omega

/-- The cursor is moved to somewhere on the screen, wherever it has been. -/
theorem clampMove_lt (hscreen : 0 < screen.toNat) (hlt : screen.toNat < 2 ^ 31)
    (delta : BitVec 16) : (clampMove pos screen delta).toNat < screen.toNat := by
  have heq : ((clampMove pos screen delta).toNat : ℤ) =
      clampTo screen.toNat (pos + delta.signExtend 32).toInt := clamp_eq _ hscreen hlt
  rw [clampTo] at heq
  omega

end InputManager

/-! ### What a mouse sends -/

/-- What a mouse reports: the buttons that are down, and how far it has moved, upwards counting as
positive. -/
structure MousePacket where
  buttons : BitVec 3
  dx : BitVec 9
  dy : BitVec 9
  deriving DecidableEq, Repr

namespace MousePacket

/-- The flags of a packet, without overflow. -/
def flags (p : MousePacket) : BitVec 8 :=
  p.buttons.setWidth 8 ||| 0x08#8 ||| (if p.dx.msb then 0x10#8 else 0#8) |||
    if p.dy.msb then 0x20#8 else 0#8

/-- The three bytes of a packet. -/
def encode (p : MousePacket) : List (BitVec 8) := [p.flags, p.dx.setWidth 8, p.dy.setWidth 8]

theorem flags_spec (p : MousePacket) :
    p.flags &&& 0x08#8 ≠ 0#8 ∧ p.flags &&& 0xC0#8 = 0#8 ∧
      p.flags &&& 0x07#8 = p.buttons.setWidth 8 ∧
      (p.flags &&& 0x10#8 ≠ 0#8 ↔ p.dx.msb = true) ∧
      (p.flags &&& 0x20#8 ≠ 0#8 ↔ p.dy.msb = true) := by
  have hall : ∀ (b : BitVec 3) (sx sy : Bool),
      let f := b.setWidth 8 ||| 0x08#8 ||| (if sx then 0x10#8 else 0#8) |||
        if sy then 0x20#8 else 0#8
      f &&& 0x08#8 ≠ 0#8 ∧ f &&& 0xC0#8 = 0#8 ∧ f &&& 0x07#8 = b.setWidth 8 ∧
        (f &&& 0x10#8 ≠ 0#8 ↔ sx = true) ∧ (f &&& 0x20#8 ≠ 0#8 ↔ sy = true) := by
    decide
  exact hall p.buttons p.dx.msb p.dy.msb

/-- A delta of nine bits arrives with its sign. -/
theorem signedDelta_eq {d : BitVec 9} {flags sign : BitVec 8}
    (hsign : flags &&& sign ≠ 0#8 ↔ d.msb = true) :
    signedDelta (d.setWidth 8) flags sign = d.signExtend 16 := by
  have hd := d.isLt
  have hmsb : d.msb = decide (256 ≤ d.toNat) := BitVec.msb_eq_decide d
  have hlow : d.toNat % 2 ^ 8 % 2 ^ 16 = d.toNat % 2 ^ 8 := by omega
  have hhigh : 0xFF00 % 2 ^ 16 ||| d.toNat % 2 ^ 8 = 0xFF00 + d.toNat % 2 ^ 8 :=
    or_eq_add (i := 8) (by decide) (Nat.mod_lt _ (by decide))
  apply BitVec.eq_of_toNat_eq
  rw [signedDelta, BitVec.toNat_signExtend, BitVec.toNat_or, Nat.or_comm]
  by_cases hneg : d.msb = true
  · rw [if_pos (hsign.2 hneg), if_pos hneg]
    simp only [BitVec.toNat_setWidth, BitVec.toNat_ofNat, hlow, hhigh]
    rw [hmsb, decide_eq_true_eq] at hneg
    omega
  · rw [if_neg fun h => hneg (hsign.1 h), if_neg hneg]
    simp only [BitVec.toNat_setWidth, BitVec.toNat_ofNat]
    rw [hmsb, decide_eq_true_eq] at hneg
    rw [Nat.zero_mod, Nat.zero_or]
    omega

/-- A mouse that is at the beginning of a packet decodes it. -/
theorem feed_encode (p : MousePacket) {m : Ps2Mouse} (hpos : m.pos = 0) (x y : BitVec 32) :
    ∃ m₁ m₂ m₃, m.feed p.flags x y = (m₁, []) ∧ m₁.feed (p.dx.setWidth 8) x y = (m₂, []) ∧
      m₂.feed (p.dy.setWidth 8) x y = (m₃, moveEvent (p.dx.signExtend 16) (-p.dy.signExtend 16) ++
        buttonEvents (p.buttons.setWidth 8) m.prevButtons x y) ∧
      m₃.pos = 0 ∧ m₃.prevButtons = p.buttons.setWidth 8 := by
  obtain ⟨hsync, hover, hbuttons, hx, hy⟩ := p.flags_spec
  obtain ⟨buf, pos, prev⟩ := m
  obtain rfl : pos = 0 := hpos
  refine ⟨⟨buf.set 0 p.flags, 1, prev⟩,
    ⟨(buf.set 0 p.flags).set 1 (p.dx.setWidth 8), 2, prev⟩,
    ⟨((buf.set 0 p.flags).set 1 (p.dx.setWidth 8)).set 2 (p.dy.setWidth 8), 0,
      p.buttons.setWidth 8⟩, ?_, ?_, ?_, rfl, rfl⟩
  · simp [Ps2Mouse.feed, hsync]
  · simp [Ps2Mouse.feed]
  · simp [Ps2Mouse.feed, Ps2Mouse.decode, hover, hbuttons, signedDelta_eq hx, signedDelta_eq hy]

end MousePacket

/-- What events do to the pointer: where it is, and which buttons are held. -/
structure Pointer where
  mouse : Ps2Mouse
  x : BitVec 32
  y : BitVec 32
  held : BitVec 8

namespace Pointer

/-- An event, on a screen of some size. -/
def handle (screenW screenH : BitVec 32) (p : Pointer) : InputEvent → Pointer
  | .mouseMove dx dy =>
      { p with
        x := InputManager.clampMove p.x screenW dx, y := InputManager.clampMove p.y screenH dy }
  | .mouseButton buttons pressed _ _ =>
      { p with held := if pressed then p.held ||| buttons else p.held &&& ~~~buttons }
  | _ => p

/-- A byte of the mouse, handled at once. -/
def feed (screenW screenH : BitVec 32) (p : Pointer) (byte : BitVec 8) : Pointer :=
  let r := p.mouse.feed byte 0#32 0#32
  r.2.foldl (handle screenW screenH) { p with mouse := r.1 }

variable {screenW screenH : BitVec 32} {p : Pointer}

/-- Events leave the decoder alone. -/
theorem foldl_handle_mouse (events : List InputEvent) (m : Ps2Mouse) :
    events.foldl (handle screenW screenH) { p with mouse := m } =
      { events.foldl (handle screenW screenH) p with mouse := m } := by
  induction events generalizing p with
  | nil => rfl
  | cons e events ih =>
      rw [List.foldl_cons, List.foldl_cons, ← ih]
      cases e <;> rfl

theorem mouse_foldl_handle (events : List InputEvent) :
    (events.foldl (handle screenW screenH) p).mouse = p.mouse := by
  induction events generalizing p with
  | nil => rfl
  | cons e events ih =>
      rw [List.foldl_cons, ih]
      cases e <;> rfl

/-- The buttons that are held after a button has changed, or not. -/
def heldAfter (buttons changed held : BitVec 8) (bit : ℕ) : BitVec 8 :=
  if changed &&& (1#8 <<< bit) ≠ 0#8 then
    if buttons &&& (1#8 <<< bit) ≠ 0#8 then held ||| (1#8 <<< bit) else held &&& ~~~(1#8 <<< bit)
  else held

theorem foldl_handle_buttonEvent (buttons changed : BitVec 8) (x y : BitVec 32) (bits : List ℕ) :
    (bits.filterMap (buttonEvent buttons changed x y)).foldl (handle screenW screenH) p =
      { p with held := bits.foldl (heldAfter buttons changed) p.held } := by
  induction bits generalizing p with
  | nil => rfl
  | cons bit bits ih =>
      by_cases hbit : changed &&& (1#8 <<< bit) ≠ 0#8
      · simp [buttonEvent, if_pos hbit, ih, handle, heldAfter]
      · simp only [List.filterMap_cons, buttonEvent, if_neg hbit, ih, List.foldl_cons, heldAfter]

/-- The buttons that are held become those of the packet, wherever the cursor was. -/
theorem foldl_handle_buttonEvents (buttons prev : BitVec 3) (hheld : p.held = prev.setWidth 8)
    (x y : BitVec 32) :
    (buttonEvents (buttons.setWidth 8) (prev.setWidth 8) x y).foldl (handle screenW screenH) p =
      { p with held := buttons.setWidth 8 } := by
  have hall : ∀ buttons prev : BitVec 3,
      let changed := buttons.setWidth 8 ^^^ prev.setWidth 8
      (if changed ≠ 0#8 then
        (List.range 3).foldl (heldAfter (buttons.setWidth 8) changed) (prev.setWidth 8)
      else prev.setWidth 8) = buttons.setWidth 8 := by
    decide
  have hb := hall buttons prev
  simp only at hb
  rw [buttonEvents]
  split
  · rename_i hne
    rw [if_pos hne] at hb
    rw [foldl_handle_buttonEvent, hheld, hb]
  · rename_i heq
    rw [if_neg heq] at hb
    rw [List.foldl_nil, ← hb, ← hheld]

/-- A movement, or none. -/
theorem foldl_handle_moveEvent (dx dy : BitVec 16) (hx : p.x.toNat < screenW.toNat)
    (hy : p.y.toNat < screenH.toNat) (hw : screenW.toNat ≤ 2 ^ 31 - 2 ^ 15)
    (hh : screenH.toNat ≤ 2 ^ 31 - 2 ^ 15) :
    (moveEvent dx dy).foldl (handle screenW screenH) p =
      { p with
        x := InputManager.clampMove p.x screenW dx
        y := InputManager.clampMove p.y screenH dy } := by
  rw [moveEvent]
  split
  · rfl
  · rename_i hstill
    obtain ⟨rfl, rfl⟩ : dx = 0#16 ∧ dy = 0#16 := by
      simpa only [not_or, not_not] using hstill
    rw [List.foldl_nil, InputManager.clampMove_zero hx (by omega),
      InputManager.clampMove_zero hy (by omega)]

/-- Where the pointer is after a packet. -/
def report (screenW screenH : ℕ) (place : ℤ × ℤ) (packet : MousePacket) : ℤ × ℤ :=
  (clampTo screenW (place.1 + packet.dx.toInt), clampTo screenH (place.2 - packet.dy.toInt))

/-- The pointer is on the screen, with the mouse between two packets and the buttons that it
reported last. -/
structure Rests (screenW screenH : BitVec 32) (p : Pointer) (place : ℤ × ℤ) (buttons : BitVec 3) :
    Prop where
  pos : p.mouse.pos = 0
  prev : p.mouse.prevButtons = buttons.setWidth 8
  held : p.held = buttons.setWidth 8
  x : (p.x.toNat : ℤ) = place.1
  y : (p.y.toNat : ℤ) = place.2
  xlt : p.x.toNat < screenW.toNat
  ylt : p.y.toNat < screenH.toNat

/-- A packet. -/
theorem Rests.packet {place : ℤ × ℤ} {buttons : BitVec 3}
    (h : p.Rests screenW screenH place buttons)
    (hw : screenW.toNat ≤ 2 ^ 31 - 2 ^ 15) (hh : screenH.toNat ≤ 2 ^ 31 - 2 ^ 15)
    (packet : MousePacket) :
    (packet.encode.foldl (feed screenW screenH) p).Rests screenW screenH
      (report screenW.toNat screenH.toNat place packet) packet.buttons := by
  obtain ⟨m₁, m₂, m₃, h₁, h₂, h₃, hpos, hprev⟩ := packet.feed_encode h.pos 0#32 0#32
  have hx := h.xlt
  have hy := h.ylt
  have hfeed : packet.encode.foldl (feed screenW screenH) p =
      { mouse := m₃
        x := InputManager.clampMove p.x screenW (packet.dx.signExtend 16)
        y := InputManager.clampMove p.y screenH (-packet.dy.signExtend 16)
        held := packet.buttons.setWidth 8 } := by
    rw [h.prev] at h₃
    simp only [MousePacket.encode, List.foldl_cons, List.foldl_nil, feed, h₁, h₂, h₃,
      List.foldl_append]
    rw [foldl_handle_moveEvent (p := ⟨m₃, p.x, p.y, p.held⟩) _ _ hx hy hw hh]
    exact foldl_handle_buttonEvents (p := ⟨m₃, _, _, p.held⟩) packet.buttons buttons h.held _ _
  have hneg : (-packet.dy.signExtend 16).toInt = -packet.dy.toInt := by
    have hlow := packet.dy.le_toInt
    have hhigh := packet.dy.toInt_lt
    rw [BitVec.toInt_neg, BitVec.toInt_signExtend_of_le (by omega)]
    exact Int.bmod_eq_of_le_mul_two (by omega) (by omega)
  rw [hfeed]
  refine ⟨hpos, hprev, rfl, ?_, ?_, ?_, ?_⟩
  · simp only [report]
    rw [InputManager.clampMove_eq (by omega) (by omega) (by omega), h.x,
      BitVec.toInt_signExtend_of_le (by omega)]
  · simp only [report]
    rw [InputManager.clampMove_eq (by omega) (by omega) (by omega), h.y, hneg]
    rfl
  · exact InputManager.clampMove_lt (by omega) (by omega) _
  · exact InputManager.clampMove_lt (by omega) (by omega) _

end Pointer

namespace InputWorld

variable {L : Type}

/-- The pointer of a manager. -/
def pointer (w : InputWorld L) : Pointer :=
  ⟨w.mgr.ps2Mouse, w.mgr.cursorX, w.mgr.cursorY, w.mgr.heldButtons⟩

/-- The screen stays as it is. -/
theorem handle_screen (w : InputWorld L) (e : InputEvent) :
    (w.handle e).mgr.screenW = w.mgr.screenW ∧ (w.handle e).mgr.screenH = w.mgr.screenH := by
  cases e <;> exact ⟨rfl, rfl⟩

theorem pointer_handle (w : InputWorld L) (e : InputEvent) :
    (w.handle e).pointer = w.pointer.handle w.mgr.screenW w.mgr.screenH e := by
  cases e <;> rfl

theorem pointer_foldl_handle (events : List InputEvent) (w : InputWorld L) :
    (events.foldl handle w).pointer =
      events.foldl (Pointer.handle w.mgr.screenW w.mgr.screenH) w.pointer ∧
    (events.foldl handle w).mgr.screenW = w.mgr.screenW ∧
      (events.foldl handle w).mgr.screenH = w.mgr.screenH := by
  induction events generalizing w with
  | nil => exact ⟨rfl, rfl, rfl⟩
  | cons e events ih =>
      obtain ⟨hpointer, hw, hh⟩ := ih (w.handle e)
      obtain ⟨hw', hh'⟩ := w.handle_screen e
      rw [hw', hh', pointer_handle] at hpointer
      exact ⟨hpointer, hw.trans hw', hh.trans hh'⟩

end InputWorld

/-- The byte that a call feeds to the mouse. -/
def InputAct.mouseByte {L : Type} : InputAct L → Option (BitVec 8)
  | .feed (.ps2Mouse byte) => some byte
  | _ => none

/-- No other mouse moves the pointer, and the screen stays as it is. -/
def InputAct.Quiet {L : Type} : InputAct L → Prop
  | .feed (.usbHid _) => False
  | .setup (.init _ _) => False
  | _ => True

/-- A byte comes only when there is room in the queue for what a packet may give. -/
def InputState.roomy {L : Type} (s : InputState L) : InputAct L → Bool
  | .feed _ => decide (s.queue.contents.length + 4 ≤ 63)
  | _ => true

theorem length_moveEvent_le (dx dy : BitVec 16) : (moveEvent dx dy).length ≤ 1 := by
  rw [moveEvent]
  split <;> simp

theorem length_buttonEvents_le (buttons prev : BitVec 8) (x y : BitVec 32) :
    (buttonEvents buttons prev x y).length ≤ 3 := by
  rw [buttonEvents]
  split
  · exact List.length_filterMap_le _ _
  · simp

namespace Ps2Mouse

variable (m : Ps2Mouse) (byte : BitVec 8) (x y : BitVec 32)

/-- A byte gives nothing, or the events of a packet; which, does not depend on the cursor. -/
theorem feed_cases : ∃ m', (∀ x y, m.feed byte x y = (m', [])) ∨ ∃ dx dy buttons prev, ∀ x y,
    m.feed byte x y = (m', moveEvent dx dy ++ buttonEvents buttons prev x y) := by
  by_cases hsync : m.pos.val = 0 ∧ byte &&& 0x08#8 = 0#8
  · exact ⟨m, .inl fun x y => if_pos hsync⟩
  · by_cases hmore : m.pos.val + 1 < 3
    · exact ⟨_, .inl fun x y => (if_neg hsync).trans (dif_pos hmore)⟩
    · have hdecode : ∀ x y, m.feed byte x y = decode { m with
          buf := m.buf.set m.pos byte, pos := ⟨0, first_lt⟩ } x y := fun x y =>
        (if_neg hsync).trans (dif_neg hmore)
      by_cases hover : (m.buf.set m.pos byte)[0] &&& 0xC0#8 ≠ 0#8
      · exact ⟨_, .inl fun x y => (hdecode x y).trans (if_pos hover)⟩
      · exact ⟨_, .inr ⟨_, _, _, _, fun x y => (hdecode x y).trans (if_neg hover)⟩⟩

theorem length_feed_le : (m.feed byte x y).2.length ≤ 4 := by
  obtain ⟨m', hnone | ⟨dx, dy, buttons, prev, hevents⟩⟩ := m.feed_cases byte
  · simp [hnone]
  · have hmove := length_moveEvent_le dx dy
    have hbuttons := length_buttonEvents_le buttons prev x y
    rw [hevents, List.length_append]
    omega

/-- Where the cursor is when a byte comes does not matter to the pointer. -/
theorem feed_cursor (screenW screenH : BitVec 32) :
    (m.feed byte x y).1 = (m.feed byte 0#32 0#32).1 ∧ ∀ p : Pointer,
      (m.feed byte x y).2.foldl (Pointer.handle screenW screenH) p =
        (m.feed byte 0#32 0#32).2.foldl (Pointer.handle screenW screenH) p := by
  obtain ⟨m', hnone | ⟨dx, dy, buttons, prev, hevents⟩⟩ := m.feed_cases byte
  · simp [hnone]
  · refine ⟨by rw [hevents, hevents], fun p => ?_⟩
    rw [hevents, hevents, List.foldl_append, List.foldl_append, buttonEvents, buttonEvents]
    split
    · rw [Pointer.foldl_handle_buttonEvent, Pointer.foldl_handle_buttonEvent]
    · rfl

end Ps2Mouse

/-- A byte of the keyboard gives at most one event, which is nothing to the pointer. -/
theorem Ps2Keyboard.feed_pointer (k : Ps2Keyboard) (byte : BitVec 8) (screenW screenH : BitVec 32)
    (p : Pointer) :
    (k.feed byte).2.length ≤ 1 ∧ (k.feed byte).2.foldl (Pointer.handle screenW screenH) p = p := by
  rw [feed]
  split
  · exact ⟨Nat.zero_le _, rfl⟩
  · split
    · exact ⟨Nat.zero_le _, rfl⟩
    · refine ⟨le_rfl, ?_⟩
      cases k.release <;> rfl

namespace Inbox

variable {L : Type} {t : Inbox L} {screenW screenH : BitVec 32} {p : Pointer}

/-- The pointer is where it should be as soon as what is pending has been handled, and nothing has
been lost. -/
structure Settles (screenW screenH : BitVec 32) (t : Inbox L) (p : Pointer) : Prop where
  length : t.pending.length ≤ 63
  width : t.world.mgr.screenW = screenW
  height : t.world.mgr.screenH = screenH
  pointer : t.pending.foldl (Pointer.handle screenW screenH) t.world.pointer = p

/-- A call, as long as there is room. -/
theorem Settles.next (h : t.Settles screenW screenH p) {a : InputAct L} (hquiet : a.Quiet)
    (hroom : ∀ f, a = .feed f → t.pending.length + 4 ≤ 63) :
    (t.next a).Settles screenW screenH
      (a.mouseByte.elim p (p.feed screenW screenH)) := by
  have hlen := h.length
  cases a with
  | feed f =>
      have hroom := hroom f rfl
      cases f with
      | ps2Mouse byte =>
          have hfeed := t.world.mgr.ps2Mouse.length_feed_le byte t.world.mgr.cursorX
            t.world.mgr.cursorY
          obtain ⟨hmouse, hevents⟩ := t.world.mgr.ps2Mouse.feed_cursor byte t.world.mgr.cursorX
            t.world.mgr.cursorY screenW screenH
          refine ⟨?_, h.width, h.height, ?_⟩
          · simp only [Inbox.next, InputWorld.feed, List.length_append]
            omega
          · have hsame : p.mouse = t.world.mgr.ps2Mouse := by
              rw [← h.pointer, Pointer.mouse_foldl_handle]
              rfl
            simp only [Inbox.next, InputWorld.feed, List.foldl_append, InputWorld.pointer,
              InputAct.mouseByte, Option.elim_some, Pointer.feed, hsame]
            rw [hevents, ← hmouse, ← h.pointer]
            refine congrArg (fun p : Pointer => List.foldl (Pointer.handle screenW screenH) p _) ?_
            exact Pointer.foldl_handle_mouse (p := t.world.pointer) t.pending _
      | usbHid report => exact hquiet.elim
      | ps2Kbd byte =>
          obtain ⟨hone, hstill⟩ := t.world.mgr.ps2Kbd.feed_pointer byte screenW screenH p
          refine ⟨?_, h.width, h.height, ?_⟩
          · simp only [Inbox.next, InputWorld.feed, List.length_append]
            omega
          · have hpointer := h.pointer
            simp only [InputWorld.pointer] at hpointer
            simp only [Inbox.next, InputWorld.feed, List.foldl_append, InputWorld.pointer,
              InputAct.mouseByte, Option.elim_none, hpointer, hstill]
  | poll =>
      have hwindow : EventQueue.window t.pending = t.pending := by
        rw [EventQueue.window, Nat.sub_eq_zero_of_le hlen, List.drop_zero]
      obtain ⟨hpointer, hw, hh⟩ := InputWorld.pointer_foldl_handle t.pending t.world
      refine ⟨Nat.zero_le _, ?_, ?_, ?_⟩
      · rw [Inbox.next, poll, hwindow, hw, h.width]
      · rw [Inbox.next, poll, hwindow, hh, h.height]
      · rw [Inbox.next, poll, hwindow, List.foldl_nil, hpointer, h.width, h.height]
        exact h.pointer
  | setup c =>
      cases c with
      | init _ _ => exact hquiet.elim
      | setCursor handle => exact ⟨hlen, h.width, h.height, h.pointer⟩
      | registerListener handle listener =>
          have hsame : (t.world.mgr.registerListener handle listener).screenW = screenW ∧
              (t.world.mgr.registerListener handle listener).screenH = screenH ∧
              (t.world.setup (.registerListener handle listener)).pointer = t.world.pointer := by
            rw [InputWorld.pointer, InputWorld.setup, InputManager.registerListener]
            split
            · exact ⟨h.width, h.height, rfl⟩
            · exact ⟨h.width, h.height, rfl⟩
          refine ⟨hlen, hsame.1, hsame.2.1, ?_⟩
          rw [Inbox.next, hsame.2.2]
          exact h.pointer
      | unregisterListener handle => exact ⟨hlen, h.width, h.height, h.pointer⟩
      | display ds => exact ⟨hlen, h.width, h.height, h.pointer⟩

end Inbox

/-- In a quiet run with room in the queue the manager gets to where handling each byte of the mouse
at once would have got it. -/
theorem InputState.settles {L : Type} {w₀ : InputWorld L} {tr : List (InputAct L)}
    {s : InputState L} (h : (inputSystem w₀).Exec (fun s a => s.roomy a = true) tr s)
    (hquiet : ∀ a ∈ tr, a.Quiet) :
    ∃ t, s.Holds t ∧ t.Settles w₀.mgr.screenW w₀.mgr.screenH
      ((tr.filterMap InputAct.mouseByte).foldl (Pointer.feed w₀.mgr.screenW w₀.mgr.screenH)
        w₀.pointer) := by
  induction h with
  | init h₀ => exact ⟨_, h₀ ▸ holds_start w₀, ⟨Nat.zero_le _, rfl, rfl, rfl⟩⟩
  | @step tr s s' a hrun hroom hs ih =>
      obtain ⟨t, hholds, hsettles⟩ := ih fun b hb => hquiet b (List.mem_append_left _ hb)
      have hlen : s.queue.contents.length = t.pending.length := by
        rw [hholds.queue.contents_eq, EventQueue.length_window, Nat.min_eq_left hsettles.length]
      have hnext := hsettles.next (hquiet a (by simp)) fun f hf => by
        rw [hf] at hroom
        exact hlen ▸ of_decide_eq_true hroom
      refine ⟨_, hholds.step hs, ?_⟩
      rw [List.filterMap_append, List.foldl_append]
      cases hbyte : a.mouseByte with
      | none =>
          rw [hbyte] at hnext
          simpa [hbyte] using hnext
      | some byte =>
          rw [hbyte] at hnext
          simpa [hbyte] using hnext

/-- A touch. -/
def InputEvent.isTouch : InputEvent → Bool
  | .touch .. => true
  | _ => false

/-- A click, or a turn of the wheel. -/
def InputEvent.isClick : InputEvent → Bool
  | .mouseButton .. => true
  | .mouseWheel .. => true
  | _ => false

namespace InputWorld

variable {L : Type} {w : InputWorld L} {handle : ℕ}

/-- The surface of the cursor is where the cursor is, visible, and above all the surfaces before
it. -/
structure CursorOnTop (w : InputWorld L) (handle : ℕ) : Prop where
  cursor : w.mgr.cursorHandle = some handle
  screen : (0 < w.mgr.screenW.toNat ∧ w.mgr.screenW.toNat < 2 ^ 31) ∧
    0 < w.mgr.screenH.toNat ∧ w.mgr.screenH.toNat < 2 ^ 31
  inside : w.mgr.cursorX.toNat < 2 ^ 31 ∧ w.mgr.cursorY.toNat < 2 ^ 31
  surface : ∃ c surf, w.display = some c ∧ c.Accepted ∧ c.surfaces[handle]?.join = some surf ∧
    surf.visible = true ∧ surf.zOrder = 255#8 ∧ surf.x = w.mgr.cursorX ∧ surf.y = w.mgr.cursorY ∧
    ∀ i < handle, ∀ below, c.surfaces[i]?.join = some below → below.zOrder ≠ 255#8

/-- A surface covers its own corner. -/
theorem between_corner {x width : BitVec 32} (hx : x.toNat < 2 ^ 31) (hne : width ≠ 0)
    (hle : width ≤ Compositor.maxDim) : x ≤ x ∧ x < x + width := by
  have hpos : width.toNat ≠ 0 := fun h => hne (BitVec.eq_of_toNat_eq h)
  have hmax : width.toNat ≤ 8192 := BitVec.le_def.1 hle
  exact (Compositor.between_iff x width x).2 (by omega)

/-- The hit test finds the surface of the cursor under the cursor. -/
theorem CursorOnTop.hitTest_eq (h : w.CursorOnTop handle) :
    hitTest w.display w.mgr.cursorX w.mgr.cursorY = some handle := by
  obtain ⟨c, surf, hdisplay, hc, hsurf, hvisible, hz, hx, hy, hbelow⟩ := h.surface
  have hacc : surf.Accepted := hc.accepted handle surf (Option.join_eq_some_iff.1 hsurf)
  have hhits : c.hits w.mgr.cursorX w.mgr.cursorY handle = true := by
    have hbetween := between_corner h.inside.1 hacc.width_ne hacc.width_le
    have hbetween' := between_corner h.inside.2 hacc.height_ne hacc.height_le
    rw [Compositor.hits, hsurf]
    simp only [hvisible, hx, hy, Bool.true_and]
    exact decide_eq_true ⟨hbetween, hbetween'⟩
  have hzOf : c.zOf handle = 255 := by
    rw [Compositor.zOf, Compositor.zOrderOf, hsurf, Option.map_some, hz]
    rfl
  rw [hdisplay]
  obtain ⟨-, hnone⟩ | ⟨i, hfound, hi, hmax⟩ :=
    Compositor.hitTest_spec hc w.mgr.cursorX w.mgr.cursorY
  · rw [hnone handle] at hhits
    cases hhits
  · obtain ⟨found, hat⟩ : ∃ found, c.surfaces[i]?.join = some found := by
      rw [Compositor.hits] at hi
      split at hi
      · cases hi
      · exact ⟨_, ‹_›⟩
    have hzi : c.zOf i = found.zOrder.toNat := by
      rw [Compositor.zOf, Compositor.zOrderOf, hat, Option.map_some, Option.getD_some]
    have hbyte := found.zOrder.isLt
    -- nothing is above 255, so the surface that is found is not after the cursor's
    obtain ⟨hsame, hle⟩ : c.zOf i = 255 ∧ i ≤ handle := by
      have hlast := hmax handle hhits
      omega
    rw [hfound]
    refine congrArg some (hle.eq_or_lt.resolve_right fun hlt => hbelow i hlt found hat ?_)
    exact BitVec.eq_of_toNat_eq (hzi.symm.trans hsame)

/-- A movement takes the surface of the cursor along. -/
theorem CursorOnTop.moveCursor (h : w.CursorOnTop handle) (dx dy : BitVec 16) :
    (w.moveCursor dx dy).CursorOnTop handle := by
  obtain ⟨c, surf, hdisplay, hc, hsurf, hvisible, hz, -, -, hbelow⟩ := h.surface
  obtain ⟨⟨hw, hwlt⟩, hh, hhlt⟩ := h.screen
  have hx : (InputManager.clampMove w.mgr.cursorX w.mgr.screenW dx).toNat < w.mgr.screenW.toNat :=
    InputManager.clampMove_lt hw hwlt dx
  have hy : (InputManager.clampMove w.mgr.cursorY w.mgr.screenH dy).toNat < w.mgr.screenH.toNat :=
    InputManager.clampMove_lt hh hhlt dy
  refine ⟨h.cursor, h.screen, ⟨hx.trans hwlt, hy.trans hhlt⟩, ?_⟩
  have hslot := Option.join_eq_some_iff.1 hsurf
  have hlt : handle < c.surfaces.length := (List.getElem?_eq_some_iff.1 hslot).1
  have hset : ∀ (new : Surface) (i : ℕ), i ≠ handle →
      (c.surfaces.set handle (some new))[i]? = c.surfaces[i]? := fun new i hi =>
    List.getElem?_set_ne fun he => hi he.symm
  refine ⟨{ c with surfaces := c.surfaces.set handle (some { surf with
      x := InputManager.clampMove w.mgr.cursorX w.mgr.screenW dx
      y := InputManager.clampMove w.mgr.cursorY w.mgr.screenH dy }) }, { surf with
      x := InputManager.clampMove w.mgr.cursorX w.mgr.screenW dx
      y := InputManager.clampMove w.mgr.cursorY w.mgr.screenH dy },
    ?_, ⟨?_, fun i s hi => ?_⟩, ?_, hvisible, hz, rfl, rfl, fun i hi below hat => ?_⟩
  · simp only [InputWorld.moveCursor, InputManager.updateCursorSurface, h.cursor, hdisplay, hsurf]
  · rw [List.length_set, hc.length]
  · by_cases hhere : i = handle
    · subst hhere
      rw [List.getElem?_set_self hlt, Option.some_inj, Option.some_inj] at hi
      subst hi
      have hacc := hc.accepted i surf hslot
      exact ⟨hacc.width_ne, hacc.height_ne, hacc.width_le, hacc.height_le⟩
    · rw [hset _ i hhere] at hi
      exact hc.accepted i s hi
  · rw [List.getElem?_set_self hlt]
    rfl
  · rw [hset _ i (Nat.ne_of_lt hi)] at hat
    exact hbelow i hi below hat

/-- What is heard changes nothing for the cursor. -/
theorem CursorOnTop.hear (h : w.CursorOnTop handle) (calls : List (L × ℕ × InputEvent)) :
    (w.hear calls).CursorOnTop handle := ⟨h.cursor, h.screen, h.inside, h.surface⟩

/-- The clicks that were heard were on a surface. -/
def ClicksOn (w : InputWorld L) (handle : ℕ) : Prop :=
  ∀ call ∈ w.heard, call.2.2.isClick = true → call.2.1 = handle

theorem ClicksOn.hear (h : w.ClicksOn handle) {calls : List (L × ℕ × InputEvent)}
    (hcalls : ∀ call ∈ calls, call.2.2.isClick = true → call.2.1 = handle) :
    (w.hear calls).ClicksOn handle := by
  intro call hcall
  obtain hold | hnew := List.mem_append.1 hcall
  · exact h call hold
  · exact hcalls call hnew

/-- What is dispatched to the surface at the cursor goes to that of the cursor. -/
theorem CursorOnTop.dispatchHit (h : w.CursorOnTop handle) (event : InputEvent) :
    ∀ call ∈ w.mgr.dispatchHit w.display w.mgr.cursorX w.mgr.cursorY event,
      call.2.2.isClick = true → call.2.1 = handle := by
  intro call hcall _
  rw [InputManager.dispatchHit, h.hitTest_eq] at hcall
  obtain ⟨slot, -, hslot⟩ := List.mem_filterMap.1 hcall
  split at hslot
  · obtain ⟨cb, -, rfl⟩ := Option.map_eq_some_iff.1 hslot
    rfl
  · cases hslot

/-- What is dispatched to all is no click, if the event is none. -/
theorem not_click_dispatchGlobal (mgr : InputManager L) {event : InputEvent}
    (hevent : event.isClick = false) :
    ∀ call ∈ mgr.dispatchGlobal event, call.2.2.isClick = true → call.2.1 = handle := by
  intro call hcall hclick
  obtain ⟨slot, -, hslot⟩ := List.mem_filterMap.1 hcall
  obtain ⟨cb, -, rfl⟩ := Option.map_eq_some_iff.1 hslot
  rw [hevent] at hclick
  cases hclick

/-- Handling an event. -/
theorem CursorOnTop.event (h : w.CursorOnTop handle) (hclicks : w.ClicksOn handle)
    {event : InputEvent} (htouch : event.isTouch = false) :
    (w.handle event).CursorOnTop handle ∧ (w.handle event).ClicksOn handle := by
  cases event with
  | mouseMove dx dy => exact ⟨h.moveCursor dx dy, hclicks⟩
  | mouseButton buttons pressed x y =>
      have hheld : ∀ held, ({ w with mgr := { w.mgr with heldButtons := held } } :
          InputWorld L).CursorOnTop handle := fun held =>
        ⟨h.cursor, h.screen, h.inside, h.surface⟩
      exact ⟨(hheld _).hear _, ClicksOn.hear hclicks ((hheld _).dispatchHit _)⟩
  | mouseWheel delta x y => exact ⟨h.hear _, hclicks.hear (h.dispatchHit _)⟩
  | keyDown scancode => exact ⟨h.hear _, hclicks.hear (not_click_dispatchGlobal _ rfl)⟩
  | keyUp scancode => exact ⟨h.hear _, hclicks.hear (not_click_dispatchGlobal _ rfl)⟩
  | touch id x y pressed => cases htouch

/-- Handling any number of them. -/
theorem CursorOnTop.foldl_handle (events : List InputEvent)
    (htouch : ∀ event ∈ events, event.isTouch = false) (h : w.CursorOnTop handle)
    (hclicks : w.ClicksOn handle) :
    (events.foldl InputWorld.handle w).CursorOnTop handle ∧
      (events.foldl InputWorld.handle w).ClicksOn handle := by
  induction events generalizing w with
  | nil => exact ⟨h, hclicks⟩
  | cons event events ih =>
      obtain ⟨h', hclicks'⟩ := h.event hclicks (htouch event List.mem_cons_self)
      exact ih (fun e he => htouch e (List.mem_cons_of_mem _ he)) h' hclicks'

/-- The decoders know no touches. -/
theorem feed_not_touch (w : InputWorld L) (f : Feed) :
    ∀ event ∈ (w.feed f).2, event.isTouch = false := by
  have hmove : ∀ dx dy, ∀ event ∈ moveEvent dx dy, event.isTouch = false := by
    intro dx dy event h
    rw [moveEvent] at h
    split at h
    · rw [List.mem_singleton.1 h]
      rfl
    · cases h
  have hbuttons : ∀ buttons prev x y, ∀ event ∈ buttonEvents buttons prev x y,
      event.isTouch = false := by
    intro buttons prev x y event h
    rw [buttonEvents] at h
    split at h
    · obtain ⟨bit, -, hbit⟩ := List.mem_filterMap.1 h
      rw [buttonEvent] at hbit
      split at hbit
      · cases hbit
        rfl
      · cases hbit
    · cases h
  cases f with
  | ps2Mouse byte =>
      intro event h
      obtain ⟨m', hnone | ⟨dx, dy, buttons, prev, hevents⟩⟩ := w.mgr.ps2Mouse.feed_cases byte
      · simp only [feed, hnone] at h
        cases h
      · simp only [feed, hevents] at h
        exact (List.mem_append.1 h).elim (hmove _ _ event) (hbuttons _ _ _ _ event)
  | usbHid report =>
      intro event h
      simp only [feed, UsbHidMouse.handleReport] at h
      split at h
      · rcases List.mem_append.1 h with h | h
        · rcases List.mem_append.1 h with h | h
          · exact hmove _ _ event h
          · split at h
            · split at h
              · rw [List.mem_singleton.1 h]
                rfl
              · cases h
            · cases h
        · exact hbuttons _ _ _ _ event h
      · cases h
  | ps2Kbd byte =>
      intro event h
      simp only [feed, Ps2Keyboard.feed] at h
      split at h
      · cases h
      · split at h
        · cases h
        · rw [List.mem_singleton.1 h]
          split <;> rfl

theorem CursorOnTop.feed (h : w.CursorOnTop handle) (f : Feed) :
    (w.feed f).1.CursorOnTop handle := by
  cases f <;> exact ⟨h.cursor, h.screen, h.inside, h.surface⟩

end InputWorld

/-- Whatever is set up leaves the surface of the cursor on top. -/
def InputState.KeepsCursor {L : Type} (handle : ℕ) (s : InputState L) : InputAct L → Prop
  | .setup c => (s.world.setup c).CursorOnTop handle
  | _ => True

/-- The surface of the cursor is on top, the clicks that were heard were on it, and no touches are
pending. -/
structure Inbox.Clicks {L : Type} (handle : ℕ) (t : Inbox L) : Prop where
  cursor : t.world.CursorOnTop handle
  clicks : t.world.ClicksOn handle
  pending : ∀ event ∈ t.pending, event.isTouch = false

/-- A call that keeps the cursor on top. -/
theorem Inbox.Clicks.next {L : Type} {handle : ℕ} {t : Inbox L} {s : InputState L} {a : InputAct L}
    (h : t.Clicks handle) (hworld : s.world = t.world) (hkeeps : s.KeepsCursor handle a) :
    (t.next a).Clicks handle := by
  cases a with
  | feed f =>
      have hheard : (t.world.feed f).1.heard = t.world.heard := by cases f <;> rfl
      refine ⟨h.cursor.feed f, ?_, fun event hevent => ?_⟩
      · intro call hcall
        exact h.clicks call (hheard ▸ hcall)
      · obtain hold | hnew := List.mem_append.1 hevent
        · exact h.pending event hold
        · exact t.world.feed_not_touch f event hnew
  | poll =>
      have hwindow : ∀ event ∈ EventQueue.window t.pending, event.isTouch = false :=
        fun event hevent => h.pending event (List.mem_of_mem_drop hevent)
      obtain ⟨hcursor, hclicks⟩ := h.cursor.foldl_handle _ hwindow h.clicks
      exact ⟨hcursor, hclicks, by simp [Inbox.next, Inbox.poll]⟩
  | setup c =>
      have hheard : (t.world.setup c).heard = t.world.heard := by cases c <;> rfl
      have hkept : (s.world.setup c).CursorOnTop handle := hkeeps
      rw [hworld] at hkept
      refine ⟨hkept, ?_, h.pending⟩
      intro call hcall
      exact h.clicks call (hheard ▸ hcall)

end StarOS
