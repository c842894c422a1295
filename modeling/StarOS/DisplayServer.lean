/-
The display server (`display_server/`): frames composed in a back buffer and flipped to the screen.

A frame is composed in the back buffer, surfaces first and labels of text over them, and then goes to
the screen: `present` copies it, and `present_async` leaves the copying to the DMA engine and keeps
the cookie of the transfer until `wait_flip` has seen it complete.  There is one back buffer.  While
a transfer is in flight the engine copies the pixels in any order, one at a time, interleaved with
every call.

If no frame is composed while a flip is pending, and `wait_flip` waits for the pending flip, the
screen shows one whole frame whenever no flip is pending, and otherwise of each pixel the old frame
or the new one: no frame is torn, and none is lost.  `present_async` itself sees to it that at most
one transfer is in flight.

* `StarOS.TextSurface`, `StarOS.DoubleBuffer`, `StarOS.DmaFlip`, `StarOS.DisplayServer` — the
  server;
* `StarOS.DisplayServer.doCompose`, `StarOS.DisplayServer.present`,
  `StarOS.DisplayServer.presentAsync`, `StarOS.DisplayServer.waitFlip` — the code; a panic is `none`;
* `StarOS.displaySystem` — the calls, interleaved with the copying;
* `StarOS.frameSystem` — a screen that shows one frame after the other;
* `StarOS.display_refines` — the server is such a screen.
-/

import StarOS.Compositor
import StarOS.Font
import StarOS.Runs
import Mathlib.Data.List.ReduceOption

set_option autoImplicit false

namespace StarOS

open Raster Shifts

/-! ### Labels of text -/

/-- `MAX_TEXT_LEN`. -/
def MAX_TEXT_LEN : ℕ := 128

/-- A byte within a character of several bytes. -/
def isUtf8Continuation (b : BitVec 8) : Bool := 0x80#8 ≤ b && b ≤ 0xBF#8

/-- The first two bytes of a character of three: no overlong forms, and no surrogates. -/
def isUtf8Three (a b : BitVec 8) : Bool :=
  (a = 0xE0#8 && 0xA0#8 ≤ b && b ≤ 0xBF#8) ||
    (0xE1#8 ≤ a && a ≤ 0xEC#8 && isUtf8Continuation b) ||
    (a = 0xED#8 && 0x80#8 ≤ b && b ≤ 0x9F#8) ||
    (0xEE#8 ≤ a && a ≤ 0xEF#8 && isUtf8Continuation b)

/-- The first two bytes of a character of four. -/
def isUtf8Four (a b : BitVec 8) : Bool :=
  (a = 0xF0#8 && 0x90#8 ≤ b && b ≤ 0xBF#8) ||
    (0xF1#8 ≤ a && a ≤ 0xF3#8 && isUtf8Continuation b) ||
    (a = 0xF4#8 && 0x80#8 ≤ b && b ≤ 0x8F#8)

/-- `core::str::from_utf8` succeeds. -/
def isUtf8 : List (BitVec 8) → Bool
  | [] => true
  | [a] => a < 0x80#8
  | a :: b :: s =>
      if a < 0x80#8 then isUtf8 (b :: s)
      else if 0xC2#8 ≤ a && a ≤ 0xDF#8 then isUtf8Continuation b && isUtf8 s
      else
        match s with
        | [] => false
        | c :: s =>
            if isUtf8Three a b then isUtf8Continuation c && isUtf8 s
            else
              match s with
              | [] => false
              | d :: s =>
                  isUtf8Four a b && isUtf8Continuation c && isUtf8Continuation d && isUtf8 s

/-- A label of text. -/
structure TextSurface where
  x : BitVec 32
  y : BitVec 32
  zOrder : BitVec 8
  visible : Bool
  fg : BitVec 32
  bg : Option (BitVec 32)
  buf : List (BitVec 8)
  len : ℕ
  length_buf : buf.length = MAX_TEXT_LEN
  len_le : len ≤ MAX_TEXT_LEN

namespace TextSurface

/-- `TextSurface::set_text`. -/
def setText (ts : TextSurface) (text : List (BitVec 8)) : TextSurface :=
  let n := min text.length MAX_TEXT_LEN
  { ts with
    buf := text.take n ++ ts.buf.drop n
    len := n
    length_buf := by
      have h := ts.length_buf
      rw [List.length_append, List.length_take, List.length_drop, h]
      omega
    len_le := Nat.min_le_right _ _ }

/-- `TextSurface::new`. -/
def new (x y : BitVec 32) (text : List (BitVec 8)) (fg : BitVec 32) (bg : Option (BitVec 32)) :
    TextSurface :=
  setText
    { x, y, zOrder := 0, visible := true, fg, bg, buf := List.replicate MAX_TEXT_LEN 0, len := 0,
      length_buf := List.length_replicate, len_le := Nat.zero_le _ } text

/-- `TextSurface::push_byte`. -/
def pushByte (ts : TextSurface) (b : BitVec 8) : TextSurface :=
  if h : ts.len < MAX_TEXT_LEN then
    { ts with
      buf := ts.buf.set ts.len b
      len := ts.len + 1
      length_buf := by rw [List.length_set, ts.length_buf]
      len_le := h }
  else ts

/-- `TextSurface::pop_byte`. -/
def popByte (ts : TextSurface) : TextSurface :=
  { ts with len := ts.len - 1, len_le := Nat.le_trans (Nat.sub_le _ _) ts.len_le }

/-- `TextSurface::clear_text`. -/
def clearText (ts : TextSurface) : TextSurface := { ts with len := 0, len_le := Nat.zero_le _ }

/-- The bytes in use. -/
def bytes (ts : TextSurface) : List (BitVec 8) := ts.buf.take ts.len

/-- `TextSurface::text`: nothing, if a character was cut off. -/
def text (ts : TextSurface) : List (BitVec 8) := if isUtf8 ts.bytes then ts.bytes else []

/-- `TextSurface::render_into`. -/
def renderInto (ts : TextSurface) (backBuf : List (BitVec 32)) (stride height : BitVec 32) :
    Option (List (BitVec 32)) :=
  if ts.visible then
    (drawStr backBuf stride height ts.x ts.y ts.text ts.fg ts.bg).map fun p => p.1
  else some backBuf

end TextSurface

/-! ### The buffers and the flip -/

/-- The geometry of a `Framebuffer`; the pixels of the screen are in `DisplayState`. -/
structure Framebuffer where
  width : BitVec 32
  height : BitVec 32
  stride : BitVec 32
  deriving DecidableEq, Repr

/-- A back buffer. -/
structure DoubleBuffer where
  back : List (BitVec 32)
  width : BitVec 32
  height : BitVec 32
  stride : BitVec 32
  deriving DecidableEq, Repr

namespace DoubleBuffer

/-- How many pixels of the storage are in use. -/
def len (db : DoubleBuffer) : ℕ := (db.stride * db.height).toNat

/-- `DoubleBuffer::new`: `none` if the storage is too small. -/
def new (fb : Framebuffer) (storage : List (BitVec 32)) : Option DoubleBuffer :=
  if storage.length < (fb.stride * fb.height).toNat then none
  else some ⟨List.replicate storage.length 0, fb.width, fb.height, fb.stride⟩

/-- `DoubleBuffer::back_buffer`. -/
def backBuffer (db : DoubleBuffer) : List (BitVec 32) := db.back.take db.len

/-- `DoubleBuffer::clear`. -/
def clear (db : DoubleBuffer) (color : BitVec 32) : Option DoubleBuffer :=
  if db.len ≤ db.back.length then
    some { db with back := List.replicate db.len color ++ db.back.drop db.len }
  else none

end DoubleBuffer

/-- `Framebuffer::blit_full`. -/
def Framebuffer.blitFull (fb : Framebuffer) (screen src : List (BitVec 32)) :
    Option (List (BitVec 32)) :=
  let total := (fb.stride * fb.height).toNat
  forRange (fun i screen => src[i]?.bind fun px => setCell screen i px) 0 (min src.length total)
    screen

/-- `DoubleBuffer::flip`. -/
def DoubleBuffer.flip (db : DoubleBuffer) (fb : Framebuffer) (screen : List (BitVec 32)) :
    Option (List (BitVec 32)) :=
  if db.len ≤ db.back.length then fb.blitFull screen db.backBuffer else none

/-- The helper for flips by the DMA engine. -/
structure DmaFlip where
  fbPhys : BitVec 64
  bbPhys : BitVec 64
  transferLen : BitVec 64
  pending : Option (BitVec 32)
  deriving DecidableEq, Repr

/-- `DmaFlip::new`. -/
def DmaFlip.new (fbPhys bbPhys transferLen : BitVec 64) : DmaFlip :=
  ⟨fbPhys, bbPhys, transferLen, none⟩

/-- `DmaFlipError`. -/
inductive DmaFlipError where
  | prepFailed (errno : BitVec 32)
  | busy
  deriving DecidableEq, Repr

/-! ### The server -/

/-- `MAX_TEXT_SURFACES`. -/
def MAX_TEXT_SURFACES : ℕ := 16

/-- The display server. -/
structure DisplayServer where
  fb : Framebuffer
  db : DoubleBuffer
  compositor : Compositor
  dma : DmaFlip
  textSurfaces : List (Option TextSurface)

namespace DisplayServer

/-- `init`, for a back buffer in `storage` at the address `bbPhys`. -/
def init (fbAddr bbPhys : BitVec 64) (width height stride : BitVec 32)
    (storage : List (BitVec 32)) : Option DisplayServer :=
  let fb : Framebuffer := ⟨width, height, stride⟩
  (DoubleBuffer.new fb storage).map fun db =>
    { fb, db
      compositor := Compositor.new width height
      dma := DmaFlip.new fbAddr bbPhys ((stride * height).setWidth 64 * 4)
      textSurfaces := List.replicate MAX_TEXT_SURFACES none }

/-- A call that changes the surfaces.  What `surface_mut` and `text_surface_mut` lend is changed at
will. -/
inductive Edit where
  | addSurface (s : Surface)
  | removeSurface (handle : ℕ)
  | surfaceMut (handle : ℕ) (s : Surface)
  | setBackground (color : BitVec 32)
  | addTextSurface (ts : TextSurface)
  | removeTextSurface (handle : ℕ)
  | textSurfaceMut (handle : ℕ) (ts : TextSurface)

/-- `DisplayServer::add_text_surface`. -/
def addTextSurface (ds : DisplayServer) (ts : TextSurface) : Option ℕ × DisplayServer :=
  match ds.textSurfaces.findIdx? fun slot => slot.isNone with
  | some i => (some i, { ds with textSurfaces := ds.textSurfaces.set i (some ts) })
  | none => (none, ds)

/-- `DisplayServer::remove_text_surface`. -/
def removeTextSurface (ds : DisplayServer) (handle : ℕ) : DisplayServer :=
  if handle < MAX_TEXT_SURFACES then
    { ds with textSurfaces := ds.textSurfaces.set handle none }
  else ds

/-- The server after a change of the surfaces: a slot that is not in use lends nothing. -/
def edit (ds : DisplayServer) : Edit → DisplayServer
  | .addSurface s => { ds with compositor := (ds.compositor.addSurface s).2 }
  | .removeSurface handle => { ds with compositor := ds.compositor.removeSurface handle }
  | .surfaceMut handle s =>
      match ds.compositor.surfaces[handle]? with
      | some (some _) =>
          let surfaces := ds.compositor.surfaces.set handle (some s)
          { ds with compositor := { ds.compositor with surfaces := surfaces } }
      | _ => ds
  | .setBackground color => { ds with compositor := ds.compositor.setBackground color }
  | .addTextSurface ts => (ds.addTextSurface ts).2
  | .removeTextSurface handle => ds.removeTextSurface handle
  | .textSurfaceMut handle ts =>
      match ds.textSurfaces[handle]? with
      | some (some _) => { ds with textSurfaces := ds.textSurfaces.set handle (some ts) }
      | _ => ds

/-- A round of the loop over the labels. -/
def renderSlot (stride height : BitVec 32) (back : List (BitVec 32)) (slot : Option TextSurface) :
    Option (List (BitVec 32)) :=
  match slot with
  | some ts => ts.renderInto back stride height
  | none => some back

/-- What `do_compose` makes of the part of the back buffer in use. -/
def composeFrame (ds : DisplayServer) (back : List (BitVec 32)) : Option (List (BitVec 32)) :=
  (ds.compositor.compose back ds.fb.stride).bind fun back =>
    ds.textSurfaces.foldlM (renderSlot ds.fb.stride ds.fb.height) back

/-- `DisplayServer::do_compose`. -/
def doCompose (ds : DisplayServer) : Option DisplayServer :=
  let len := (ds.fb.stride * ds.fb.height).toNat
  (ds.composeFrame (ds.db.back.take len)).map fun frame =>
    { ds with db := { ds.db with back := frame ++ ds.db.back.drop len } }

end DisplayServer

/-! ### The server, the screen and the engine -/

/-- A transfer of the engine: the pixels that are still to be copied. -/
structure DmaTransfer where
  cookie : BitVec 32
  left : List ℕ
  deriving DecidableEq, Repr

/-- The server, the pixels of the screen, the cookie that is assigned next, and the transfers that
the engine has not completed. -/
structure DisplayState where
  ds : DisplayServer
  screen : List (BitVec 32)
  nextCookie : BitVec 32
  transfers : List DmaTransfer

namespace DisplayState

/-- The frame that was composed last. -/
def frame (s : DisplayState) : List (BitVec 32) := s.ds.db.backBuffer

/-- `DisplayServer::present`. -/
def present (s : DisplayState) : Option DisplayState :=
  s.ds.doCompose.bind fun ds =>
    (ds.db.flip ds.fb s.screen).map fun screen => { s with ds, screen }

/-- `DisplayServer::clear`. -/
def clear (s : DisplayState) (color : BitVec 32) : Option DisplayState :=
  (s.ds.db.clear color).bind fun db =>
    (db.flip s.ds.fb s.screen).map fun screen => { s with ds := { s.ds with db }, screen }

/-- `DmaFlip::submit`, with the answer of `device_prep_dma_memcpy`: the engine begins to copy what
it was asked to, from pixel to pixel. -/
def submit (s : DisplayState) (prep : Except (BitVec 32) Unit) :
    DisplayState × Except DmaFlipError (BitVec 32) :=
  if s.ds.dma.pending.isSome then (s, .error .busy)
  else
    match prep with
    | .error errno => (s, .error (.prepFailed errno))
    | .ok _ =>
        let cookie := s.nextCookie
        let pixels := s.ds.dma.transferLen.toNat / 4
        ({ s with
            ds := { s.ds with dma := { s.ds.dma with pending := some cookie } }
            nextCookie := s.nextCookie + 1
            transfers := s.transfers ++ [⟨cookie, List.range pixels⟩] }, .ok cookie)

/-- `DisplayServer::present_async`. -/
def presentAsync (s : DisplayState) (prep : Except (BitVec 32) Unit) :
    Option (DisplayState × Except DmaFlipError (BitVec 32)) :=
  if s.ds.dma.pending.isSome then some (s, .error .busy)
  else s.ds.doCompose.map fun ds => { s with ds }.submit prep

/-- `device_tx_status` is `Complete`. -/
def isComplete (s : DisplayState) (cookie : BitVec 32) : Bool :=
  s.transfers.all fun t => t.cookie ≠ cookie

/-- `DisplayServer::wait_flip`, when it returns. -/
def waitFlip (s : DisplayState) (cookie : BitVec 32) : Option DisplayState :=
  if s.isComplete cookie then
    some { s with ds := { s.ds with dma := { s.ds.dma with pending := none } } }
  else none

/-- The engine copies a pixel of a transfer. -/
def copyPixel (s : DisplayState) (n i : ℕ) : Option DisplayState :=
  s.transfers[n]?.bind fun t =>
    if i ∈ t.left then
      s.ds.db.back[i]?.bind fun px =>
        (setCell s.screen i px).map fun screen =>
          { s with screen, transfers := s.transfers.set n { t with left := t.left.erase i } }
    else none

/-- The engine completes a transfer. -/
def complete (s : DisplayState) (n : ℕ) : Option DisplayState :=
  s.transfers[n]?.bind fun t =>
    if t.left = [] then some { s with transfers := s.transfers.eraseIdx n } else none

end DisplayState

/-- A call, with the frame that it has composed, or a step of the engine. -/
inductive DisplayAct where
  | edit (e : DisplayServer.Edit)
  | present (frame : List (BitVec 32))
  | clear (frame : List (BitVec 32))
  | presentAsync (frame : List (BitVec 32)) (result : Except DmaFlipError (BitVec 32))
  | waitFlip (cookie : BitVec 32)
  | copyPixel (n i : ℕ)
  | complete (n : ℕ)

/-- The steps. -/
inductive DisplayStep : DisplayState → DisplayAct → DisplayState → Prop
  | edit {s : DisplayState} (e : DisplayServer.Edit) :
      DisplayStep s (.edit e) { s with ds := s.ds.edit e }
  | present {s s' : DisplayState} (h : s.present = some s') : DisplayStep s (.present s'.frame) s'
  | clear {s s' : DisplayState} {color : BitVec 32} (h : s.clear color = some s') :
      DisplayStep s (.clear s'.frame) s'
  | presentAsync {s s' : DisplayState} {prep : Except (BitVec 32) Unit}
      {result : Except DmaFlipError (BitVec 32)} (h : s.presentAsync prep = some (s', result)) :
      DisplayStep s (.presentAsync s'.frame result) s'
  | waitFlip {s s' : DisplayState} {cookie : BitVec 32} (h : s.waitFlip cookie = some s') :
      DisplayStep s (.waitFlip cookie) s'
  | copyPixel {s s' : DisplayState} {n i : ℕ} (h : s.copyPixel n i = some s') :
      DisplayStep s (.copyPixel n i) s'
  | complete {s s' : DisplayState} {n : ℕ} (h : s.complete n = some s') :
      DisplayStep s (.complete n) s'

/-- The runs from `init` on, on a screen with the pixels `screen`. -/
def displaySystem (fbAddr bbPhys : BitVec 64) (width height stride : BitVec 32)
    (storage screen : List (BitVec 32)) : Runs.System DisplayState DisplayAct where
  init := fun s => ∃ ds nextCookie,
    DisplayServer.init fbAddr bbPhys width height stride storage = some ds ∧
      s = ⟨ds, screen, nextCookie, []⟩
  step := DisplayStep

/-- No frame is composed for `present` or `clear` while a flip is pending, and `wait_flip` waits for
the flip that is. -/
def DisplayState.Disciplined (s : DisplayState) : DisplayAct → Prop
  | .present _ => s.ds.dma.pending = none
  | .clear _ => s.ds.dma.pending = none
  | .waitFlip cookie => ∀ c, s.ds.dma.pending = some c → c = cookie
  | _ => True

/-! ### A screen that shows frames -/

/-- The frame that is shown, and the one that is about to be. -/
structure FrameScreen where
  shown : List (BitVec 32)
  next : Option (List (BitVec 32))

/-- What happens on the screen. -/
inductive FrameEvent where
  | show (frame : List (BitVec 32))
  | start (frame : List (BitVec 32))
  | finish

/-- A frame is shown at once, or started and finished; there is at most one that was started. -/
inductive FrameStep : FrameScreen → FrameEvent → FrameScreen → Prop
  | show {shown : List (BitVec 32)} (frame : List (BitVec 32)) :
      FrameStep ⟨shown, none⟩ (.show frame) ⟨frame, none⟩
  | start {shown : List (BitVec 32)} (frame : List (BitVec 32)) :
      FrameStep ⟨shown, none⟩ (.start frame) ⟨shown, some frame⟩
  | finish {shown frame : List (BitVec 32)} :
      FrameStep ⟨shown, some frame⟩ .finish ⟨frame, none⟩
  | idle {shown : List (BitVec 32)} : FrameStep ⟨shown, none⟩ .finish ⟨shown, none⟩

/-- The runs of such a screen. -/
def frameSystem (screen : List (BitVec 32)) : Runs.System FrameScreen FrameEvent where
  init := fun t => t = ⟨screen, none⟩
  step := FrameStep

/-- What a step of the server does to the screen. -/
def DisplayAct.event : DisplayAct → Option FrameEvent
  | .present frame => some (.show frame)
  | .clear frame => some (.show frame)
  | .presentAsync frame (.ok _) => some (.start frame)
  | .waitFlip _ => some .finish
  | _ => none

/-! ### Composing keeps the size of the buffer -/

section Sizes

variable {buf buf' : List (BitVec 32)} {n : ℕ}

theorem length_setCell {i : ℕ} {px : BitVec 32} (hlen : buf.length = n)
    (h : setCell buf i px = some buf') : buf'.length = n := by
  rw [setCell] at h
  split at h
  · cases h
    rw [List.length_set, hlen]
  · cases h

theorem length_copySlice {base : ℕ} {src : List (BitVec 32)} (hlen : buf.length = n)
    (h : copySlice buf base src = some buf') : buf'.length = n := by
  rw [copySlice] at h
  split at h
  · next hle =>
      cases h
      simp only [List.length_append, List.length_take, List.length_drop]
      omega
  · cases h

theorem length_paintSolid {c : Compositor} {stride : BitVec 32} {surf : Surface}
    (hlen : buf.length = n) (h : c.paintSolid buf stride surf = some buf') : buf'.length = n := by
  rw [Compositor.paintSolid] at h
  cases hblend : surf.blend with
  | Opaque =>
      simp only [hblend] at h
      exact forRange_keeps (P := fun b => b.length = n) (fun _ _ _ hb hrow =>
        forRange_keeps (P := fun b => b.length = n) (fun _ _ _ hb hcell =>
          length_setCell hb hcell) hb hrow) hlen h
  | Alpha =>
      simp only [hblend] at h
      refine forRange_keeps (P := fun b => b.length = n) (fun _ _ _ hb hrow =>
        forRange_keeps (P := fun b => b.length = n) (fun _ _ _ hb hcell => ?_) hb hrow) hlen h
      obtain ⟨_, -, hset⟩ := Option.bind_eq_some_iff.1 hcell
      exact length_setCell hb hset

theorem length_paintPixels {c : Compositor} {stride : BitVec 32} {surf : Surface}
    {pix : SurfacePixels} (hlen : buf.length = n)
    (h : c.paintPixels buf stride surf pix = some buf') : buf'.length = n := by
  rw [Compositor.paintPixels] at h
  cases hblend : surf.blend with
  | Opaque =>
      simp only [hblend] at h
      split at h
      · refine forRange_keeps (P := fun b => b.length = n) (fun _ _ _ hb hrow => ?_) hlen h
        split at hrow
        · exact length_copySlice hb hrow
        · cases hrow
      · refine forRange_keeps (P := fun b => b.length = n) (fun _ _ _ hb hrow =>
          forRange_keeps (P := fun b => b.length = n) (fun _ _ _ hb hcell => ?_) hb hrow) hlen h
        obtain ⟨_, -, hset⟩ := Option.bind_eq_some_iff.1 hcell
        exact length_setCell hb hset
  | Alpha =>
      simp only [hblend] at h
      refine forRange_keeps (P := fun b => b.length = n) (fun _ _ _ hb hrow =>
        forRange_keeps (P := fun b => b.length = n) (fun _ _ _ hb hcell => ?_) hb hrow) hlen h
      obtain ⟨_, -, hset⟩ := Option.bind_eq_some_iff.1 hcell
      split at hset
      · cases hset
        exact hb
      · split at hset
        · exact length_setCell hb hset
        · obtain ⟨_, -, hset⟩ := Option.bind_eq_some_iff.1 hset
          exact length_setCell hb hset

theorem length_compose {c : Compositor} {stride : BitVec 32}
    (h : c.compose buf stride = some buf') : buf'.length = buf.length := by
  rw [Compositor.compose] at h
  dsimp only at h
  split at h
  · next htotal =>
      obtain ⟨order, -, hpaint⟩ := Option.bind_eq_some_iff.1 h
      refine foldlM_keeps (P := fun b => b.length = buf.length) (fun i b b' hb hslot => ?_) ?_
        hpaint
      · rw [Compositor.paintSlot] at hslot
        split at hslot
        · cases hslot
        · cases hslot
          exact hb
        · rw [Compositor.paintSurface] at hslot
          split at hslot
          · cases hslot
            exact hb
          · split at hslot
            · cases hslot
              exact hb
            · split at hslot
              · exact length_paintSolid hb hslot
              · exact length_paintPixels hb hslot
      · rw [List.length_append, List.length_replicate, List.length_drop]
        omega
  · cases h

theorem length_drawChar {stride height x y fg : BitVec 32} {bg : Option (BitVec 32)} {ch : BitVec 8}
    (hlen : buf.length = n) (h : drawChar buf stride height x y ch fg bg = some buf') :
    buf'.length = n := by
  obtain ⟨glyph, -, hrows⟩ := Option.bind_eq_some_iff.1 h
  refine forWhile_keeps (P := fun b => b.length = n) (fun _ _ _ hb hrow => ?_) hlen hrows
  obtain ⟨bits, -, hcols⟩ := Option.bind_eq_some_iff.1 hrow
  refine forWhile_keeps (P := fun b => b.length = n) (fun _ _ _ hb hcell => ?_) hb hcols
  rw [putPixel.eq_def] at hcell
  split at hcell
  · cases hcell
    exact hb
  · split at hcell
    · exact length_setCell hb hcell
    · cases hcell
      exact hb

theorem length_drawStrFrom {stride height x fg : BitVec 32} {bg : Option (BitVec 32)}
    {text : List (BitVec 8)} {cx cy : BitVec 32} {pos : BitVec 32 × BitVec 32}
    (hlen : buf.length = n)
    (h : drawStrFrom stride height x fg bg cx cy text buf = some (buf', pos)) :
    buf'.length = n := by
  induction text generalizing cx cy buf with
  | nil =>
      cases h
      exact hlen
  | cons byte text ih =>
      rw [drawStrFrom] at h
      split at h
      · exact ih hlen h
      · split at h
        · cases h
          exact hlen
        · obtain ⟨b, hchar, hrest⟩ := Option.bind_eq_some_iff.1 h
          have hb := length_drawChar hlen hchar
          split at hrest
          · exact ih hb hrest
          · exact ih hb hrest

theorem length_composeFrame {ds : DisplayServer} (h : ds.composeFrame buf = some buf') :
    buf'.length = buf.length := by
  obtain ⟨b, hcompose, hlabels⟩ := Option.bind_eq_some_iff.1 h
  refine foldlM_keeps (P := fun b => b.length = buf.length) (fun slot b b' hb hslot => ?_)
    (length_compose hcompose) hlabels
  cases slot with
  | none =>
      cases hslot
      exact hb
  | some ts =>
      rw [DisplayServer.renderSlot, TextSurface.renderInto] at hslot
      split at hslot
      · obtain ⟨⟨b'', pos⟩, hdraw, rfl⟩ := Option.map_eq_some_iff.1 hslot
        exact length_drawStrFrom hb hdraw
      · cases hslot
        exact hb

end Sizes

/-! ### The server shows whole frames -/

/-- The buffers of a server whose frames have `n` pixels. -/
structure DisplayServer.Sized (ds : DisplayServer) (n : ℕ) : Prop where
  fb_len : (ds.fb.stride * ds.fb.height).toNat = n
  db_len : ds.db.len = n
  le_back : n ≤ ds.db.back.length
  transfer : ds.dma.transferLen.toNat = 4 * n

section Frames

variable {n : ℕ} {ds ds' : DisplayServer}

theorem DisplayServer.Sized.length_backBuffer (h : ds.Sized n) :
    ds.db.backBuffer.length = n := by
  rw [DoubleBuffer.backBuffer, List.length_take, h.db_len]
  exact Nat.min_eq_left h.le_back

/-- Composing changes nothing but the pixels of the back buffer. -/
theorem doCompose_spec (h : ds.Sized n) (hcompose : ds.doCompose = some ds') :
    ds'.Sized n ∧ ds'.fb = ds.fb ∧ ds'.dma = ds.dma := by
  obtain ⟨frame, hframe, rfl⟩ := Option.map_eq_some_iff.1 hcompose
  have hlen := length_composeFrame hframe
  rw [List.length_take] at hlen
  refine ⟨⟨h.fb_len, h.db_len, ?_, h.transfer⟩, rfl, rfl⟩
  have hle := h.le_back
  have hfb := h.fb_len
  rw [List.length_append, List.length_drop]
  omega

/-- The copy of a whole frame. -/
theorem blitFull_eq {fb : Framebuffer} {screen src : List (BitVec 32)}
    (hfb : (fb.stride * fb.height).toNat = n) (hsrc : src.length = n)
    (hscreen : screen.length = n) :
    fb.blitFull screen src = some src := by
  have hloop : forRange (fun i screen => src[i]?.bind fun px => setCell screen i px) 0 n screen =
      some (mapWhere (fun k => 0 + 0 ≤ k ∧ k < 0 + n) (fun k a => src[k]?.getD a) screen) := by
    refine forRange_cells (n := n) (fun i buf _ hi hbuf => ?_) hscreen
    rw [List.getElem?_eq_getElem (by omega : i < src.length), Option.bind_some, Nat.zero_add]
    refine setCell_eq (List.getElem?_eq_getElem (by omega : i < buf.length)) ?_
    rw [List.getElem?_eq_getElem (by omega : i < src.length), Option.getD_some]
  rw [Framebuffer.blitFull, hfb, hsrc, Nat.min_self]
  refine hloop.trans (congrArg some (List.ext_getElem? fun k => ?_))
  rw [getElem?_mapWhere]
  by_cases hk : k < n
  · rw [List.getElem?_eq_getElem (by omega : k < screen.length),
      List.getElem?_eq_getElem (by omega : k < src.length)]
    simp [hk]
  · rw [List.getElem?_eq_none (by omega), List.getElem?_eq_none (by omega), Option.map_none]

theorem flip_eq {screen : List (BitVec 32)} (h : ds.Sized n) (hscreen : screen.length = n) :
    ds.db.flip ds.fb screen = some ds.db.backBuffer := by
  rw [DoubleBuffer.flip, if_pos (by rw [h.db_len]; exact h.le_back)]
  exact blitFull_eq h.fb_len h.length_backBuffer hscreen

/-- The edits change neither the buffers nor the flip. -/
theorem edit_spec (ds : DisplayServer) (e : DisplayServer.Edit) :
    (ds.edit e).fb = ds.fb ∧ (ds.edit e).db = ds.db ∧ (ds.edit e).dma = ds.dma := by
  cases e with
  | addSurface s => exact ⟨rfl, rfl, rfl⟩
  | removeSurface handle => exact ⟨rfl, rfl, rfl⟩
  | surfaceMut handle s =>
      rw [DisplayServer.edit.eq_def]
      dsimp only
      split <;> exact ⟨rfl, rfl, rfl⟩
  | setBackground color => exact ⟨rfl, rfl, rfl⟩
  | addTextSurface ts =>
      rw [DisplayServer.edit.eq_def]
      dsimp only [DisplayServer.addTextSurface]
      split <;> exact ⟨rfl, rfl, rfl⟩
  | removeTextSurface handle =>
      rw [DisplayServer.edit.eq_def]
      dsimp only [DisplayServer.removeTextSurface]
      split <;> exact ⟨rfl, rfl, rfl⟩
  | textSurfaceMut handle ts =>
      rw [DisplayServer.edit.eq_def]
      dsimp only
      split <;> exact ⟨rfl, rfl, rfl⟩

end Frames

/-- The transfers while a flip with the cookie `c` is pending: the pixels `left` are still the old
ones. -/
def FlightOf (transfers : List DmaTransfer) (c : BitVec 32) (left : List ℕ) : Prop :=
  transfers = [⟨c, left⟩] ∨ (transfers = [] ∧ left = [])

/-- The server and the screen `t`: between flips the screen shows the frame of `t`; while one is
pending, the back buffer holds the next frame, and the pixels that were copied show it. -/
structure OnScreen (n : ℕ) (s : DisplayState) (t : FrameScreen) : Prop where
  sized : s.ds.Sized n
  length_screen : s.screen.length = n
  length_shown : t.shown.length = n
  idle : t.next = none → s.ds.dma.pending = none ∧ s.transfers = [] ∧ s.screen = t.shown
  flying : ∀ f, t.next = some f → ∃ c left, s.ds.dma.pending = some c ∧
    FlightOf s.transfers c left ∧ left.Nodup ∧ s.frame = f ∧
      ∀ i < n, s.screen[i]? = if i ∈ left then t.shown[i]? else f[i]?

namespace OnScreen

variable {n : ℕ} {s s' : DisplayState} {t : FrameScreen}

/-- No frame is about to be shown if no flip is pending. -/
theorem next_eq_none (h : OnScreen n s t) (hp : s.ds.dma.pending = none) : t.next = none := by
  cases hnext : t.next with
  | none => rfl
  | some f =>
      obtain ⟨c, left, hpending, -⟩ := h.flying f hnext
      rw [hp] at hpending
      cases hpending

/-- When the engine has completed the pending flip, the screen shows its frame. -/
theorem eq_frame (h : OnScreen n s t) {c : BitVec 32} (hc : s.ds.dma.pending = some c)
    (hdone : s.isComplete c = true) : s.screen = s.frame := by
  cases hnext : t.next with
  | none =>
      obtain ⟨hpending, -⟩ := h.idle hnext
      rw [hc] at hpending
      cases hpending
  | some f =>
      obtain ⟨c', left, hpending, hflight, -, rfl, hpixels⟩ := h.flying f hnext
      obtain rfl : c = c' := Option.some.inj (hc.symm.trans hpending)
      have hleft : left = [] := by
        rcases hflight with hone | ⟨-, hleft⟩
        · rw [DisplayState.isComplete, hone] at hdone
          simp at hdone
        · exact hleft
      subst hleft
      have hlen := h.length_screen
      have hframe : s.frame.length = n := h.sized.length_backBuffer
      refine List.ext_getElem? fun i => ?_
      by_cases hi : i < n
      · rw [hpixels i hi, if_neg List.not_mem_nil]
      · rw [List.getElem?_eq_none (by omega), List.getElem?_eq_none (by omega)]

/-- A frame that is on the screen as a whole, with no flip pending. -/
theorem of_idle (hsized : s.ds.Sized n) (hlen : s.screen.length = n)
    (hpending : s.ds.dma.pending = none) (htransfers : s.transfers = []) :
    OnScreen n s ⟨s.screen, none⟩ where
  sized := hsized
  length_screen := hlen
  length_shown := hlen
  idle := fun _ => ⟨hpending, htransfers, rfl⟩
  flying := fun f hf => by cases hf

/-- Edits are not seen before the next frame is composed. -/
theorem edit (h : OnScreen n s t) (e : DisplayServer.Edit) :
    OnScreen n { s with ds := s.ds.edit e } t := by
  obtain ⟨hfb, hdb, hdma⟩ := edit_spec s.ds e
  obtain ⟨⟨hlen, hdblen, hle, htransfer⟩, hscreen, hshown, hidle, hflying⟩ := h
  refine ⟨⟨?_, ?_, ?_, ?_⟩, hscreen, hshown, fun hnext => ?_, fun f hf => ?_⟩
  · rw [hfb]
    exact hlen
  · rw [hdb]
    exact hdblen
  · rw [hdb]
    exact hle
  · rw [hdma]
    exact htransfer
  · rw [hdma]
    exact hidle hnext
  · rw [DisplayState.frame, hdma, hdb]
    exact hflying f hf

theorem present (h : OnScreen n s t) (hp : s.ds.dma.pending = none) (hs : s.present = some s') :
    FrameStep t (.show s'.frame) ⟨s'.frame, none⟩ ∧ OnScreen n s' ⟨s'.frame, none⟩ := by
  obtain ⟨-, htransfers, -⟩ := h.idle (h.next_eq_none hp)
  obtain ⟨ds, hcompose, hflip⟩ := Option.bind_eq_some_iff.1 hs
  obtain ⟨hsized, -, hdma⟩ := doCompose_spec h.sized hcompose
  rw [flip_eq hsized h.length_screen] at hflip
  cases hflip
  obtain ⟨shown, next⟩ := t
  obtain rfl : next = none := h.next_eq_none hp
  refine ⟨.show _, ?_⟩
  exact of_idle (s := ⟨ds, ds.db.backBuffer, s.nextCookie, s.transfers⟩) hsized
    hsized.length_backBuffer (by rw [hdma]; exact hp) htransfers

theorem clear (h : OnScreen n s t) (hp : s.ds.dma.pending = none) {color : BitVec 32}
    (hs : s.clear color = some s') :
    FrameStep t (.show s'.frame) ⟨s'.frame, none⟩ ∧ OnScreen n s' ⟨s'.frame, none⟩ := by
  obtain ⟨-, htransfers, -⟩ := h.idle (h.next_eq_none hp)
  obtain ⟨db, hclear, hflip⟩ := Option.bind_eq_some_iff.1 hs
  obtain ⟨hfb, hdb, hle, htransfer⟩ := h.sized
  have hsized : ({ s.ds with db } : DisplayServer).Sized n := by
    rw [DoubleBuffer.clear, if_pos (by rw [hdb]; exact hle)] at hclear
    cases hclear
    refine ⟨hfb, hdb, ?_, htransfer⟩
    rw [List.length_append, List.length_replicate, List.length_drop]
    omega
  have hflip' := flip_eq hsized h.length_screen
  dsimp only at hflip'
  rw [hflip'] at hflip
  cases hflip
  obtain ⟨shown, next⟩ := t
  obtain rfl : next = none := h.next_eq_none hp
  exact ⟨.show _, of_idle (s := ⟨{ s.ds with db }, db.backBuffer, s.nextCookie, s.transfers⟩) hsized
    hsized.length_backBuffer hp htransfers⟩

/-- The transfer of a flip that is started has yet to copy all pixels. -/
theorem presentAsync (h : OnScreen n s t) {prep : Except (BitVec 32) Unit}
    {result : Except DmaFlipError (BitVec 32)} (hs : s.presentAsync prep = some (s', result)) :
    (∃ e, result = .error e ∧ OnScreen n s' t) ∨
      ∃ cookie, result = .ok cookie ∧ FrameStep t (.start s'.frame) ⟨t.shown, some s'.frame⟩ ∧
        OnScreen n s' ⟨t.shown, some s'.frame⟩ := by
  rw [DisplayState.presentAsync] at hs
  split at hs
  · cases hs
    exact Or.inl ⟨_, rfl, h⟩
  · next hbusy =>
      have hp : s.ds.dma.pending = none := by simpa using hbusy
      obtain ⟨-, htransfers, hscreen⟩ := h.idle (h.next_eq_none hp)
      obtain ⟨ds, hcompose, hsubmit⟩ := Option.map_eq_some_iff.1 hs
      obtain ⟨hsized, -, hdma⟩ := doCompose_spec h.sized hcompose
      have hp' : ds.dma.pending = none := by rw [hdma]; exact hp
      obtain ⟨shown, next⟩ := t
      obtain rfl : next = none := h.next_eq_none hp
      rw [DisplayState.submit.eq_def] at hsubmit
      simp only [hp', Option.isSome_none, Bool.false_eq_true, if_false] at hsubmit
      cases prep with
      | error errno =>
          cases hsubmit
          exact Or.inl ⟨_, rfl, hsized, h.length_screen, h.length_shown,
            fun _ => ⟨hp', htransfers, hscreen⟩, fun f hf => by cases hf⟩
      | ok _ =>
          cases hsubmit
          refine Or.inr ⟨_, rfl, .start _, ⟨hsized.fb_len, hsized.db_len, hsized.le_back,
            hsized.transfer⟩, h.length_screen, h.length_shown, fun hnext => (by cases hnext),
            fun f hf => ?_⟩
          cases hf
          have hpixels : ds.dma.transferLen.toNat / 4 = n := by rw [hsized.transfer]; omega
          refine ⟨s.nextCookie, List.range n, rfl, Or.inl ?_, List.nodup_range, rfl, fun i hi => ?_⟩
          · rw [htransfers, hpixels, List.nil_append]
          · rw [if_pos (List.mem_range.2 hi)]
            exact congrArg (fun l => l[i]?) hscreen

theorem waitFlip (h : OnScreen n s t) {cookie : BitVec 32}
    (hwait : ∀ c, s.ds.dma.pending = some c → c = cookie) (hs : s.waitFlip cookie = some s') :
    ∃ t', FrameStep t .finish t' ∧ OnScreen n s' t' := by
  rw [DisplayState.waitFlip] at hs
  split at hs
  · next hcomplete =>
      cases hs
      have hsized : ({ s.ds with dma := { s.ds.dma with pending := none } } :
          DisplayServer).Sized n :=
        ⟨h.sized.fb_len, h.sized.db_len, h.sized.le_back, h.sized.transfer⟩
      obtain ⟨shown, next⟩ := t
      cases next with
      | none =>
          obtain ⟨-, htransfers, hscreen⟩ := h.idle rfl
          exact ⟨_, .idle, hsized, h.length_screen, h.length_shown,
            fun _ => ⟨rfl, htransfers, hscreen⟩, fun f hf => by cases hf⟩
      | some f =>
          obtain ⟨c, left, hpending, hflight, -, rfl, -⟩ := h.flying f rfl
          obtain rfl := hwait c hpending
          -- the transfer of the pending flip is not there any more
          have hdone : s.transfers = [] := by
            rcases hflight with hone | ⟨hnone, -⟩
            · rw [DisplayState.isComplete, hone] at hcomplete
              simp at hcomplete
            · exact hnone
          refine ⟨_, .finish, hsized, h.length_screen, h.sized.length_backBuffer,
            fun _ => ⟨rfl, hdone, h.eq_frame hpending hcomplete⟩, fun g hg => by cases hg⟩
  · cases hs

/-- The engine copies pixels of the next frame. -/
theorem copyPixel (h : OnScreen n s t) {m i : ℕ} (hs : s.copyPixel m i = some s') :
    OnScreen n s' t := by
  obtain ⟨transfer, hget, hs⟩ := Option.bind_eq_some_iff.1 hs
  split at hs
  · next hleft =>
      obtain ⟨px, hpx, hs⟩ := Option.bind_eq_some_iff.1 hs
      obtain ⟨screen, hset, rfl⟩ := Option.map_eq_some_iff.1 hs
      have hlen := length_setCell h.length_screen hset
      refine ⟨h.sized, hlen, h.length_shown, fun hnext => ?_, fun f hf => ?_⟩
      · obtain ⟨-, htransfers, -⟩ := h.idle hnext
        rw [htransfers] at hget
        cases hget
      · obtain ⟨c, left, hpending, hflight, hnodup, hframe, hpixels⟩ := h.flying f hf
        rcases hflight with hone | ⟨hnone, -⟩
        · rw [hone] at hget
          obtain ⟨rfl, rfl⟩ : m = 0 ∧ transfer = ⟨c, left⟩ := by
            cases m with
            | zero =>
                cases hget
                exact ⟨rfl, rfl⟩
            | succ m => cases hget
          refine ⟨c, left.erase i, hpending, Or.inl (by rw [hone]; rfl), hnodup.erase i, hframe,
            fun j hj => ?_⟩
          rw [getElem?_setCell hset]
          by_cases hji : j = i
          · subst hji
            have hnext : f[j]? = some px := by
              rw [← hframe, DisplayState.frame, DoubleBuffer.backBuffer, h.sized.db_len,
                List.getElem?_take_of_lt hj]
              exact hpx
            rw [if_pos rfl, if_neg (hnodup.not_mem_erase), hnext]
          · rw [if_neg hji, hpixels j hj]
            exact if_congr (List.mem_erase_of_ne hji).symm rfl rfl
        · rw [hnone] at hget
          cases hget
  · cases hs

/-- The engine completes a transfer that has copied all pixels. -/
theorem complete (h : OnScreen n s t) {m : ℕ} (hs : s.complete m = some s') : OnScreen n s' t := by
  obtain ⟨transfer, hget, hs⟩ := Option.bind_eq_some_iff.1 hs
  split at hs
  · next hdone =>
      cases hs
      refine ⟨h.sized, h.length_screen, h.length_shown, fun hnext => ?_, fun f hf => ?_⟩
      · obtain ⟨-, htransfers, -⟩ := h.idle hnext
        rw [htransfers] at hget
        cases hget
      · obtain ⟨c, left, hpending, hflight, hnodup, hframe, hpixels⟩ := h.flying f hf
        rcases hflight with hone | ⟨hnone, -⟩
        · rw [hone] at hget
          cases m with
          | zero =>
              cases hget
              exact ⟨c, left, hpending, Or.inr ⟨by rw [hone]; rfl, hdone⟩, hnodup, hframe, hpixels⟩
          | succ m => cases hget
        · rw [hnone] at hget
          cases hget
  · cases hs

end OnScreen

/-- Each step of the server is one of the screen, or is not seen on it. -/
theorem OnScreen.step {n : ℕ} {s s' : DisplayState} {t : FrameScreen} {a : DisplayAct}
    (h : OnScreen n s t) (hg : s.Disciplined a) (hs : DisplayStep s a s') :
    (a.event = none → OnScreen n s' t) ∧
      ∀ b, a.event = some b → ∃ t', FrameStep t b t' ∧ OnScreen n s' t' := by
  cases hs with
  | edit e => exact ⟨fun _ => h.edit e, fun b hb => by cases hb⟩
  | present hs =>
      refine ⟨fun hb => (by cases hb), fun b hb => ?_⟩
      cases hb
      exact ⟨_, h.present hg hs⟩
  | clear hs =>
      refine ⟨fun hb => (by cases hb), fun b hb => ?_⟩
      cases hb
      exact ⟨_, h.clear hg hs⟩
  | presentAsync hs =>
      rcases h.presentAsync hs with ⟨e, rfl, hshows⟩ | ⟨cookie, rfl, hstart, hshows⟩
      · exact ⟨fun _ => hshows, fun b hb => by cases hb⟩
      · refine ⟨fun hb => (by cases hb), fun b hb => ?_⟩
        cases hb
        exact ⟨_, hstart, hshows⟩
  | waitFlip hs =>
      refine ⟨fun hb => (by cases hb), fun b hb => ?_⟩
      cases hb
      exact h.waitFlip hg hs
  | copyPixel hs => exact ⟨fun _ => h.copyPixel hs, fun b hb => by cases hb⟩
  | complete hs => exact ⟨fun _ => h.complete hs, fun b hb => by cases hb⟩

/-- A server from `init`. -/
theorem shows_init {fbAddr bbPhys : BitVec 64} {width height stride : BitVec 32}
    {storage screen : List (BitVec 32)} (hscreen : screen.length = (stride * height).toNat)
    {s : DisplayState}
    (hs : (displaySystem fbAddr bbPhys width height stride storage screen).init s) :
    OnScreen (stride * height).toNat s ⟨screen, none⟩ := by
  obtain ⟨ds, nextCookie, hinit, rfl⟩ := hs
  obtain ⟨db, hdb, rfl⟩ := Option.map_eq_some_iff.1 hinit
  rw [DoubleBuffer.new] at hdb
  split at hdb
  · cases hdb
  · next hsize =>
      cases hdb
      refine OnScreen.of_idle (s := ⟨_, screen, nextCookie, []⟩) ⟨rfl, rfl, ?_, ?_⟩ hscreen rfl rfl
      · rw [List.length_replicate]
        exact Nat.le_of_not_lt hsize
      · have hlt := (stride * height).isLt
        have hfour : (4 : BitVec 64).toNat = 4 := rfl
        have hbytes : ((stride * height).setWidth 64 * 4).toNat = 4 * (stride * height).toNat := by
          rw [BitVec.toNat_mul, BitVec.toNat_setWidth, hfour]
          omega
        exact hbytes

/-- **No frame is torn and none is lost.**  In a run in which nothing is composed for `present` or
`clear` while a flip is pending, and `wait_flip` waits for the pending flip, at most one transfer is
in flight, and the calls show and flip one frame after the other: the screen shows the frame that was
shown last when no flip is pending, and of each pixel that frame or the next one while a flip is; as
soon as the engine has completed the transfer it shows the next frame. -/
theorem display_refines {fbAddr bbPhys : BitVec 64} {width height stride : BitVec 32}
    {storage screen : List (BitVec 32)} (hscreen : screen.length = (stride * height).toNat)
    {tr : List DisplayAct} {s : DisplayState}
    (h : (displaySystem fbAddr bbPhys width height stride storage screen).Exec
      DisplayState.Disciplined tr s) :
    s.transfers.length ≤ 1 ∧ ∃ t,
      (frameSystem screen).Exec Runs.anyStep (tr.filterMap DisplayAct.event) t ∧
      (s.ds.dma.pending = none → t.next = none ∧ s.screen = t.shown) ∧
      ∀ c, s.ds.dma.pending = some c → ∃ f, t.next = some f ∧ f = s.frame ∧
        (∀ i : ℕ, s.screen[i]? = t.shown[i]? ∨ s.screen[i]? = f[i]?) ∧
        (s.isComplete c = true → s.screen = f) := by
  obtain ⟨t, ht, hshows⟩ := h.simulates_events (N := frameSystem screen) (f := DisplayAct.event)
    (R := OnScreen (stride * height).toNat) (fun s hs => ⟨_, rfl, shows_init hscreen hs⟩)
    (fun s a s' t hr hg hs hf => (hr.step hg hs).1 hf)
    (fun s a s' t b hr hg hs hf => (hr.step hg hs).2 b hf)
  have hframe : s.frame.length = (stride * height).toNat := hshows.sized.length_backBuffer
  cases hnext : t.next with
  | none =>
      obtain ⟨hpending, htransfers, hshown⟩ := hshows.idle hnext
      refine ⟨by simp [htransfers], t, ht, fun _ => ⟨hnext, hshown⟩, fun c hc => ?_⟩
      rw [hpending] at hc
      cases hc
  | some f =>
      obtain ⟨c, left, hpending, hflight, -, rfl, hpixels⟩ := hshows.flying f hnext
      refine ⟨?_, t, ht, fun hp => ?_, fun c' hc' => ⟨_, hnext, rfl, fun i => ?_, fun hdone => ?_⟩⟩
      · rcases hflight with hone | ⟨hnone, -⟩
        · simp [hone]
        · simp [hnone]
      · rw [hpending] at hp
        cases hp
      · by_cases hi : i < (stride * height).toNat
        · rw [hpixels i hi]
          by_cases hleft : i ∈ left
          · exact Or.inl (if_pos hleft)
          · exact Or.inr (if_neg hleft)
        · have hlen := hshows.length_screen
          have hshown := hshows.length_shown
          refine Or.inl ?_
          rw [List.getElem?_eq_none (by omega), List.getElem?_eq_none (by omega)]
      · obtain rfl : c = c' := Option.some.inj (hpending.symm.trans hc')
        exact hshows.eq_frame hpending hdone

/-- A server for a screen of 2 × 1 pixels. -/
def twoPixels : DisplayServer where
  fb := ⟨2, 1, 2⟩
  db := ⟨[0, 0], 2, 1, 2⟩
  compositor := Compositor.new 2 1
  dma := DmaFlip.new 0x1000 0x2000 8
  textSurfaces := List.replicate MAX_TEXT_SURFACES none

/-- The server with a black frame, of which a flip is pending. -/
def twoPixelsFlip : DisplayServer :=
  { twoPixels with
    db := ⟨[black, black], 2, 1, 2⟩
    dma := { twoPixels.dma with pending := some 1 } }

/-- The flip of the black frame, of which the second pixel was copied. -/
theorem display_refines_two :
    ∃ s : DisplayState, (displaySystem 0x1000 0x2000 2 1 2 [0, 0] [7, 7]).Exec
        DisplayState.Disciplined [.presentAsync [black, black] (.ok 1), .copyPixel 0 1] s ∧
      s.screen = [7, black] ∧ s.transfers.length ≤ 1 ∧ ∃ t,
        (frameSystem [7, 7]).Exec Runs.anyStep
          ([DisplayAct.presentAsync [black, black] (.ok 1), .copyPixel 0 1].filterMap
            DisplayAct.event) t ∧
        (s.ds.dma.pending = none → t.next = none ∧ s.screen = t.shown) ∧
        ∀ c, s.ds.dma.pending = some c → ∃ f, t.next = some f ∧ f = s.frame ∧
          (∀ i : ℕ, s.screen[i]? = t.shown[i]? ∨ s.screen[i]? = f[i]?) ∧
          (s.isComplete c = true → s.screen = f) := by
  have h₀ : (displaySystem 0x1000 0x2000 2 1 2 [0, 0] [7, 7]).Exec DisplayState.Disciplined []
      ⟨twoPixels, [7, 7], 1, []⟩ := .init ⟨twoPixels, 1, rfl, rfl⟩
  have hasync : (⟨twoPixels, [7, 7], 1, []⟩ : DisplayState).presentAsync (.ok ()) =
      some (⟨twoPixelsFlip, [7, 7], 2, [⟨1, [0, 1]⟩]⟩, .ok 1) := by rfl
  have hcopy : (⟨twoPixelsFlip, [7, 7], 2, [⟨1, [0, 1]⟩]⟩ : DisplayState).copyPixel 0 1 =
      some ⟨twoPixelsFlip, [7, black], 2, [⟨1, [0]⟩]⟩ := by rfl
  have hrun := (h₀.step (a := DisplayAct.presentAsync [black, black] (.ok 1)) trivial
    (.presentAsync hasync)).step (a := DisplayAct.copyPixel 0 1) trivial (.copyPixel hcopy)
  exact ⟨_, hrun, rfl, display_refines rfl hrun⟩

/-! ### What a frame shows -/

/-- The label does not reach the end of the coordinates. -/
def TextSurface.Near (ts : TextSurface) : Prop :=
  ts.x.toNat + 16 < 2 ^ 32 ∧ ts.y.toNat + 16 * MAX_TEXT_LEN < 2 ^ 32

section Labels

variable {stride height : BitVec 32}

end Labels

end StarOS
