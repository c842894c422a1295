/-
The compositor (`display_server/compositor.rs`): surfaces painted over a background into a buffer.

`compose` is the painter's algorithm.  The red, green and blue of a pixel on the screen are those of
the background, painted over by the visible surfaces that cover the pixel, in the order of `z_order`
and of the handles where it is equal; an opaque surface replaces what is below it, and one with
alpha is blended with it.  No access is outside a buffer.  All the paths (a solid colour or pixels,
opaque or alpha, the copies of whole rows and the shortcuts at alpha 0 and 255) paint the same
function of a pixel.

* `StarOS.Surface`, `StarOS.Compositor` — surfaces, and the compositor;
* `StarOS.Compositor.addSurface`, `StarOS.Compositor.compose` — the code; a panic is `none`;
* `StarOS.Channels`, `StarOS.Surface.overlay`, `StarOS.Compositor.layers` — what a pixel should be;
* `StarOS.Surface.paint`, `StarOS.Compositor.paintSurface_eq` — what painting a surface does to a
  cell;
* `StarOS.Compositor.Accepted`, `StarOS.Compositor.addSurface_cases` — the surfaces that are
  accepted;
* `StarOS.compositor_paints` — the painter's algorithm.
-/

import StarOS.Raster
import StarOS.SwapSort
import StarOS.Word
import Mathlib.Data.List.Sort
import Mathlib.Data.Prod.Lex

set_option autoImplicit false

namespace StarOS

open Raster Shifts

/-! ### Pixels -/

/-- `rgb`. -/
def rgb (r g b : BitVec 8) : BitVec 32 :=
  0xFF000000#32 ||| (r.setWidth 32 <<< 16) ||| (g.setWidth 32 <<< 8) ||| b.setWidth 32

/-- `BLACK`. -/
def black : BitVec 32 := rgb 0 0 0

/-- `alpha_blend`. -/
def alphaBlend (srcR srcG srcB srcA dst : BitVec 32) : BitVec 32 :=
  let dstR := (dst >>> 16) &&& 0xFF#32
  let dstG := (dst >>> 8) &&& 0xFF#32
  let dstB := dst &&& 0xFF#32
  let invA := 255#32 - srcA
  let outR := (srcR * srcA + dstR * invA) / 255#32
  let outG := (srcG * srcA + dstG * invA) / 255#32
  let outB := (srcB * srcA + dstB * invA) / 255#32
  rgb (outR.setWidth 8) (outG.setWidth 8) (outB.setWidth 8)

/-! ### Surfaces -/

/-- `MAX_SURFACES`. -/
def maxSurfaces : ℕ := 32

/-- `BlendMode`. -/
inductive BlendMode where
  | Opaque
  | Alpha
  deriving DecidableEq, Repr

/-- `SurfacePixels`: the pixels that `ptr` points to, and the length of a row of them. -/
structure SurfacePixels where
  ptr : List (BitVec 32)
  stride : BitVec 32
  deriving DecidableEq, Repr

/-- `Surface`. -/
structure Surface where
  x : BitVec 32
  y : BitVec 32
  width : BitVec 32
  height : BitVec 32
  color : BitVec 32
  pixels : Option SurfacePixels
  blend : BlendMode
  zOrder : BitVec 8
  visible : Bool
  deriving DecidableEq, Repr

/-- `Compositor`. -/
structure Compositor where
  surfaces : List (Option Surface)
  width : BitVec 32
  height : BitVec 32
  bgColor : BitVec 32
  deriving DecidableEq, Repr

namespace Compositor

/-- `Compositor::new`. -/
def new (width height : BitVec 32) : Compositor :=
  ⟨List.replicate maxSurfaces none, width, height, black⟩

/-- `Compositor::set_background`. -/
def setBackground (c : Compositor) (color : BitVec 32) : Compositor := { c with bgColor := color }

/-- `MAX_DIM` of `add_surface`. -/
def maxDim : BitVec 32 := 8192#32

/-- `Compositor::add_surface`. -/
def addSurface (c : Compositor) (surface : Surface) : Option ℕ × Compositor :=
  if surface.width = 0 ∨ surface.height = 0 then (none, c)
  else if maxDim < surface.width ∨ maxDim < surface.height then (none, c)
  else if 2 ^ 32 ≤ surface.width.toNat * surface.height.toNat then (none, c)
  else
    match c.surfaces.findIdx? fun slot => slot.isNone with
    | some i => (some i, { c with surfaces := c.surfaces.set i (some surface) })
    | none => (none, c)

/-- `Compositor::remove_surface`. -/
def removeSurface (c : Compositor) (handle : ℕ) : Compositor :=
  if handle < maxSurfaces then { c with surfaces := c.surfaces.set handle none } else c

/-! ### Painting -/

/-- `Compositor::paint_solid`. -/
def paintSolid (c : Compositor) (buf : List (BitVec 32)) (stride : BitVec 32) (s : Surface) :
    Option (List (BitVec 32)) :=
  let xEnd := min (s.x + s.width).toNat c.width.toNat
  let yEnd := min (s.y + s.height).toNat c.height.toNat
  match s.blend with
  | .Opaque =>
      forRange (fun row buf =>
        let rowBase := row * stride.toNat % 2 ^ 32
        forRange (fun col buf => setCell buf (rowBase + col) s.color) s.x.toNat xEnd buf)
        s.y.toNat yEnd buf
  | .Alpha =>
      let srcA := (s.color >>> 24) &&& 0xFF#32
      let srcR := (s.color >>> 16) &&& 0xFF#32
      let srcG := (s.color >>> 8) &&& 0xFF#32
      let srcB := s.color &&& 0xFF#32
      forRange (fun row buf =>
        let rowBase := row * stride.toNat % 2 ^ 32
        forRange (fun col buf =>
          buf[rowBase + col]?.bind fun dst =>
            setCell buf (rowBase + col) (alphaBlend srcR srcG srcB srcA dst)) s.x.toNat xEnd buf)
        s.y.toNat yEnd buf

/-- `Compositor::paint_pixels`.  Reading behind the pixels is an error, too. -/
def paintPixels (c : Compositor) (buf : List (BitVec 32)) (stride : BitVec 32) (s : Surface)
    (pix : SurfacePixels) : Option (List (BitVec 32)) :=
  let xEnd := min (s.x + s.width).toNat c.width.toNat
  let yEnd := min (s.y + s.height).toNat c.height.toNat
  let clipW := xEnd - s.x.toNat
  let clipH := yEnd - s.y.toNat
  match s.blend with
  | .Opaque =>
      if clipW = s.width.toNat then
        forRange (fun row buf =>
          let dstBase := ((s.y.toNat + row) * stride.toNat + s.x.toNat) % 2 ^ 32
          let srcBase := row * pix.stride.toNat % 2 ^ 32
          if srcBase + clipW ≤ pix.ptr.length then
            copySlice buf dstBase ((pix.ptr.drop srcBase).take clipW)
          else none) 0 clipH buf
      else
        forRange (fun row buf =>
          let dstBase := (s.y.toNat + row) * stride.toNat % 2 ^ 32
          let srcBase := row * pix.stride.toNat % 2 ^ 32
          forRange (fun col buf =>
            pix.ptr[srcBase + col]?.bind fun srcPx =>
              setCell buf (dstBase + (s.x.toNat + col) % 2 ^ 32) srcPx) 0 clipW buf) 0 clipH buf
  | .Alpha =>
      forRange (fun row buf =>
        let dstBase := (s.y.toNat + row) * stride.toNat % 2 ^ 32
        let srcBase := row * pix.stride.toNat % 2 ^ 32
        forRange (fun col buf =>
          pix.ptr[srcBase + col]?.bind fun srcPx =>
            let srcA := (srcPx >>> 24) &&& 0xFF#32
            let dstIdx := dstBase + (s.x.toNat + col) % 2 ^ 32
            if srcA = 0 then some buf
            else if srcA = 255 then setCell buf dstIdx srcPx
            else
              let srcR := (srcPx >>> 16) &&& 0xFF#32
              let srcG := (srcPx >>> 8) &&& 0xFF#32
              let srcB := srcPx &&& 0xFF#32
              buf[dstIdx]?.bind fun dst =>
                setCell buf dstIdx (alphaBlend srcR srcG srcB srcA dst)) 0 clipW buf) 0 clipH buf

/-- `Compositor::paint_surface`. -/
def paintSurface (c : Compositor) (buf : List (BitVec 32)) (stride : BitVec 32) (s : Surface) :
    Option (List (BitVec 32)) :=
  if c.width ≤ s.x ∨ c.height ≤ s.y then some buf
  else if buf.length < min (s.y + s.height).toNat c.height.toNat * stride.toNat then some buf
  else
    match s.pixels with
    | none => c.paintSolid buf stride s
    | some pix => c.paintPixels buf stride s pix

/-- The surface in a slot is visible. -/
def isVisible (c : Compositor) (i : ℕ) : Bool :=
  match c.surfaces[i]? with
  | some (some s) => s.visible
  | _ => false

/-- `self.surfaces[i].unwrap().z_order`. -/
def zOrderOf (c : Compositor) (i : ℕ) : Option ℕ :=
  c.surfaces[i]?.join.map fun s => s.zOrder.toNat

/-- A round of the last loop of `compose`. -/
def paintSlot (c : Compositor) (stride : BitVec 32) (buf : List (BitVec 32)) (idx : ℕ) :
    Option (List (BitVec 32)) :=
  match c.surfaces[idx]? with
  | none => none
  | some none => some buf
  | some (some surf) => c.paintSurface buf stride surf

/-- `Compositor::compose`.  Of the array of handles only the part in use is kept. -/
def compose (c : Compositor) (backBuf : List (BitVec 32)) (stride : BitVec 32) :
    Option (List (BitVec 32)) :=
  let total := (stride * c.height).toNat
  if total ≤ backBuf.length then
    let buf := List.replicate total c.bgColor ++ backBuf.drop total
    let order := (List.range c.surfaces.length).filter c.isVisible
    (SwapSort.sort c.zOrderOf order order.length).bind fun order =>
      order.foldlM (c.paintSlot stride) buf
  else none

end Compositor

/-! ### What a pixel should be -/

/-- The red, green and blue of a pixel. -/
structure Channels where
  red : ℕ
  green : ℕ
  blue : ℕ
  deriving DecidableEq, Repr

/-- The channels of a packed pixel. -/
def channels (px : BitVec 32) : Channels where
  red := px.toNat / 2 ^ 16 % 2 ^ 8
  green := px.toNat / 2 ^ 8 % 2 ^ 8
  blue := px.toNat % 2 ^ 8

/-- The alpha of a packed pixel. -/
def alphaOf (px : BitVec 32) : ℕ := px.toNat / 2 ^ 24

/-- A channel of a pixel with an alpha over the same channel of another. -/
def blendChannel (a src dst : ℕ) : ℕ := (src * a + dst * (255 - a)) / 255

/-- Blending all channels. -/
def Channels.blend (a : ℕ) (src dst : Channels) : Channels where
  red := blendChannel a src.red dst.red
  green := blendChannel a src.green dst.green
  blue := blendChannel a src.blue dst.blue

namespace Surface

/-- The surface covers a pixel. -/
def Covers (s : Surface) (x y : ℕ) : Prop :=
  (s.x.toNat ≤ x ∧ x < s.x.toNat + s.width.toNat) ∧
    s.y.toNat ≤ y ∧ y < s.y.toNat + s.height.toNat

instance (s : Surface) (x y : ℕ) : Decidable (s.Covers x y) :=
  inferInstanceAs (Decidable (_ ∧ _))

/-- The pixel of the surface that is shown at a place on the screen. -/
def source (s : Surface) (x y : ℕ) : BitVec 32 :=
  match s.pixels with
  | none => s.color
  | some pix => pix.ptr.getD ((y - s.y.toNat) * pix.stride.toNat + (x - s.x.toNat)) 0

/-- The surface over what is below it. -/
def overlay (s : Surface) (x y : ℕ) (below : Channels) : Channels :=
  match s.blend with
  | .Opaque => channels (s.source x y)
  | .Alpha => (channels (s.source x y)).blend (alphaOf (s.source x y)) below

end Surface

namespace Compositor

/-- The place of a surface in the order of painting. -/
def layerKey (c : Compositor) (i : ℕ) : ℕ ×ₗ ℕ :=
  toLex ((c.zOrderOf i).getD 0, i)

/-- The surface in a slot is visible and covers a pixel. -/
def shows (c : Compositor) (x y i : ℕ) : Bool :=
  match c.surfaces[i]? with
  | some (some s) => s.visible && decide (s.Covers x y)
  | _ => false

/-- The surfaces that are seen at a pixel, from the lowest to the highest. -/
def layers (c : Compositor) (x y : ℕ) : List Surface :=
  (((List.range c.surfaces.length).filter (c.shows x y)).insertionSort
    fun i j => c.layerKey i ≤ c.layerKey j).filterMap fun i => c.surfaces[i]?.join

end Compositor

/-! ### Channels -/

theorem toNat_channel (px : BitVec 32) (i : ℕ) :
    ((px >>> i) &&& 0xFF#32).toNat = px.toNat / 2 ^ i % 2 ^ 8 := by
  rw [BitVec.toNat_and, BitVec.toNat_ushiftRight, Nat.shiftRight_eq_div_pow]
  exact Nat.and_two_pow_sub_one_eq_mod _ 8

theorem toNat_rgb (r g b : BitVec 8) :
    (rgb r g b).toNat = 255 * 2 ^ 24 + r.toNat * 2 ^ 16 + g.toNat * 2 ^ 8 + b.toNat := by
  have hr := r.isLt
  have hg := g.isLt
  have hb := b.isLt
  have hshift : ∀ (v : BitVec 8) (k : ℕ), k ≤ 16 →
      (v.setWidth 32 <<< k).toNat = v.toNat * 2 ^ k := by
    intro v k hk
    have hv : v.toNat * 2 ^ k < 2 ^ 8 * 2 ^ 16 :=
      Nat.mul_lt_mul_of_lt_of_le v.isLt (Nat.pow_le_pow_right (by decide) hk) (by decide)
    rw [BitVec.toNat_shiftLeft, BitVec.toNat_setWidth, Nat.shiftLeft_eq,
      Nat.mod_eq_of_lt (v.isLt.trans (by decide)), Nat.mod_eq_of_lt (by omega)]
  have hlow : (b.setWidth 32).toNat = b.toNat := by
    rw [BitVec.toNat_setWidth, Nat.mod_eq_of_lt (by omega)]
  have h24 : 255 * 2 ^ 24 ||| r.toNat * 2 ^ 16 = 255 * 2 ^ 24 + r.toNat * 2 ^ 16 :=
    or_eq_add (i := 24) (Nat.dvd_mul_left _ _) (by omega)
  have h16 : (255 * 2 ^ 24 + r.toNat * 2 ^ 16) ||| g.toNat * 2 ^ 8 =
      255 * 2 ^ 24 + r.toNat * 2 ^ 16 + g.toNat * 2 ^ 8 :=
    or_eq_add (i := 16) (by omega) (by omega)
  have h8 : (255 * 2 ^ 24 + r.toNat * 2 ^ 16 + g.toNat * 2 ^ 8) ||| b.toNat =
      255 * 2 ^ 24 + r.toNat * 2 ^ 16 + g.toNat * 2 ^ 8 + b.toNat :=
    or_eq_add (i := 8) (by omega) (by omega)
  have halpha : (0xFF000000#32).toNat = 255 * 2 ^ 24 := rfl
  rw [rgb, BitVec.toNat_or, BitVec.toNat_or, BitVec.toNat_or, hshift r 16 (by decide),
    hshift g 8 (by decide), hlow, halpha, h24, h16, h8]

theorem channels_rgb (r g b : BitVec 8) :
    channels (rgb r g b) = ⟨r.toNat, g.toNat, b.toNat⟩ := by
  have hr := r.isLt
  have hg := g.isLt
  have hb := b.isLt
  rw [channels, toNat_rgb, Channels.mk.injEq]
  omega

/-- A channel that `alpha_blend` computes. -/
theorem toNat_blend {src a dst : BitVec 32} (hsrc : src.toNat < 2 ^ 8) (ha : a.toNat < 2 ^ 8)
    (hdst : dst.toNat < 2 ^ 8) :
    (((src * a + dst * (255#32 - a)) / 255#32).setWidth 8).toNat =
      blendChannel a.toNat src.toNat dst.toNat := by
  have hinv : (255#32 - a).toNat = 255 - a.toNat := by
    rw [BitVec.toNat_sub_of_le (by rw [BitVec.le_def]; simp; omega)]
    rfl
  have hle : src.toNat * a.toNat + dst.toNat * (255 - a.toNat) ≤ 255 * 255 := by
    calc src.toNat * a.toNat + dst.toNat * (255 - a.toNat)
        ≤ 255 * a.toNat + 255 * (255 - a.toNat) :=
          Nat.add_le_add (Nat.mul_le_mul_right _ (by omega)) (Nat.mul_le_mul_right _ (by omega))
      _ = 255 * 255 := by omega
  have hsum : (src * a + dst * (255#32 - a)).toNat =
      src.toNat * a.toNat + dst.toNat * (255 - a.toNat) := by
    rw [BitVec.toNat_add, BitVec.toNat_mul, BitVec.toNat_mul, hinv,
      Nat.mod_eq_of_lt (a := src.toNat * a.toNat) (by omega),
      Nat.mod_eq_of_lt (a := dst.toNat * (255 - a.toNat)) (by omega), Nat.mod_eq_of_lt (by omega)]
  have hdiv : (src.toNat * a.toNat + dst.toNat * (255 - a.toNat)) / 255 ≤ 255 :=
    (Nat.div_le_iff_le_mul (by decide)).2 (by omega)
  rw [BitVec.toNat_setWidth, BitVec.toNat_udiv, hsum, blendChannel]
  exact Nat.mod_eq_of_lt (by simpa using Nat.lt_succ_of_le hdiv)

/-- `alpha_blend` blends the channels. -/
theorem channels_alphaBlend (src a dst : BitVec 32) (ha : a.toNat < 2 ^ 8) :
    channels (alphaBlend ((src >>> 16) &&& 0xFF#32) ((src >>> 8) &&& 0xFF#32)
      (src &&& 0xFF#32) a dst) =
      (channels src).blend a.toNat (channels dst) := by
  have hlow : ∀ px : BitVec 32, px &&& 0xFF#32 = (px >>> 0) &&& 0xFF#32 := fun px => by simp
  have hlt : ∀ (px : BitVec 32) (i : ℕ), ((px >>> i) &&& 0xFF#32).toNat < 2 ^ 8 := by
    intro px i
    rw [toNat_channel]
    exact Nat.mod_lt _ (by decide)
  rw [alphaBlend, hlow src, hlow dst, channels_rgb, toNat_blend (hlt _ _) ha (hlt _ _),
    toNat_blend (hlt _ _) ha (hlt _ _), toNat_blend (hlt _ _) ha (hlt _ _)]
  simp only [toNat_channel]
  simp [channels, Channels.blend]

/-- At full alpha the upper pixel is left, and at alpha 0 the lower one. -/
theorem Channels.blend_full (src dst : Channels) : src.blend 255 dst = src := by
  simp [Channels.blend, blendChannel]

theorem Channels.blend_zero (src dst : Channels) : src.blend 0 dst = dst := by
  simp [Channels.blend, blendChannel]

/-! ### Painting a surface -/

/-- What `add_surface` checks. -/
structure Surface.Accepted (s : Surface) : Prop where
  width_ne : s.width ≠ 0
  height_ne : s.height ≠ 0
  width_le : s.width ≤ Compositor.maxDim
  height_le : s.height ≤ Compositor.maxDim

/-- The rows of the pixels are as long as the surface is wide, and there is one for each row. -/
def Surface.HasPixels (s : Surface) : Prop :=
  ∀ pix, s.pixels = some pix → s.width ≤ pix.stride ∧
    pix.stride.toNat * s.height.toNat < 2 ^ 32 ∧
      pix.stride.toNat * s.height.toNat ≤ pix.ptr.length

/-- A buffer of so many cells is one for the screen. -/
structure Compositor.Fits (c : Compositor) (stride : BitVec 32) (n : ℕ) : Prop where
  width_le : c.width.toNat ≤ 2 ^ 31
  height_le : c.height.toNat ≤ 2 ^ 31
  le_stride : c.width ≤ stride
  length : n = stride.toNat * c.height.toNat
  lt : n < 2 ^ 32

/-- What painting the surface does to a pixel. -/
def Surface.paint (s : Surface) (x y : ℕ) (dst : BitVec 32) : BitVec 32 :=
  let src := s.source x y
  let blended := alphaBlend ((src >>> 16) &&& 0xFF#32) ((src >>> 8) &&& 0xFF#32) (src &&& 0xFF#32)
    ((src >>> 24) &&& 0xFF#32) dst
  match s.blend, s.pixels with
  | .Opaque, _ => src
  | .Alpha, none => blended
  | .Alpha, some _ =>
      if (src >>> 24) &&& 0xFF#32 = 0 then dst
      else if (src >>> 24) &&& 0xFF#32 = 255 then src else blended

/-- The same for the cell at an index. -/
def Surface.paintAt (s : Surface) (stride k : ℕ) (dst : BitVec 32) : BitVec 32 :=
  s.paint (k % stride) (k / stride) dst

theorem Surface.channels_paint (s : Surface) (x y : ℕ) (dst : BitVec 32) :
    channels (s.paint x y dst) = s.overlay x y (channels dst) := by
  have halpha : ((s.source x y >>> 24) &&& 0xFF#32).toNat = alphaOf (s.source x y) := by
    rw [toNat_channel, alphaOf, Nat.mod_eq_of_lt]
    have hlt := (s.source x y).isLt
    omega
  have hblend := channels_alphaBlend (s.source x y) ((s.source x y >>> 24) &&& 0xFF#32) dst
    (by rw [toNat_channel]; exact Nat.mod_lt _ (by decide))
  rw [halpha] at hblend
  rw [paint, overlay]
  cases hmode : s.blend with
  | Opaque => rfl
  | Alpha =>
      cases hpix : s.pixels with
      | none => exact hblend
      | some pix =>
          dsimp only
          by_cases h0 : (s.source x y >>> 24) &&& 0xFF#32 = 0
          · rw [h0] at halpha
            rw [if_pos h0, ← halpha]
            exact (Channels.blend_zero _ _).symm
          · by_cases h255 : (s.source x y >>> 24) &&& 0xFF#32 = 255
            · rw [h255] at halpha
              rw [if_neg h0, if_pos h255, ← halpha]
              exact (Channels.blend_full _ _).symm
            · rw [if_neg h0, if_neg h255, hblend]

section Cells

variable {s : Surface} {stride row col : ℕ} {buf : List (BitVec 32)} {px dst : BitVec 32}

theorem paintAt_cell (hcol : col < stride) :
    s.paintAt stride (row * stride + col) dst = s.paint col row dst := by
  have hpos : 0 < stride := Nat.zero_lt_of_lt hcol
  rw [Surface.paintAt, Nat.mul_comm, Nat.mul_add_mod, Nat.mod_eq_of_lt hcol,
    Nat.mul_add_div hpos, Nat.div_eq_of_lt hcol, Nat.add_zero]

/-- Writing what painting makes of a cell. -/
theorem paint_write (hcol : col < stride) (hget : buf[row * stride + col]? = some dst)
    (hpx : s.paint col row dst = px) :
    setCell buf (row * stride + col) px =
      some (mapWhere (fun k => k = row * stride + col) (s.paintAt stride) buf) :=
  setCell_eq hget (by rw [paintAt_cell hcol, hpx])

/-- Writing nothing where painting changes nothing. -/
theorem paint_skip (hcol : col < stride) (hget : buf[row * stride + col]? = some dst)
    (hpx : s.paint col row dst = dst) :
    some buf = some (mapWhere (fun k => k = row * stride + col) (s.paintAt stride) buf) := by
  refine congrArg some (mapWhere_id fun i a hi ha => ?_).symm
  subst hi
  rw [hget] at ha
  cases ha
  rw [paintAt_cell hcol, hpx]

end Cells

/-! ### Painting paths -/

namespace Compositor

section Paths

variable {c : Compositor} {s : Surface} {stride : BitVec 32} {n : ℕ} {buf : List (BitVec 32)}

/-- The cells of the surface that are on the screen. -/
def Region (c : Compositor) (s : Surface) (stride k : ℕ) : Prop :=
  (s.x.toNat ≤ k % stride ∧ k % stride < min (s.x.toNat + s.width.toNat) c.width.toNat) ∧
    s.y.toNat ≤ k / stride ∧ k / stride < min (s.y.toNat + s.height.toNat) c.height.toNat

instance (c : Compositor) (s : Surface) (stride : ℕ) : DecidablePred (c.Region s stride) :=
  fun _ => inferInstanceAs (Decidable (_ ∧ _))

/-- The right and the lower end of a surface that begins on the screen. -/
theorem ends_eq (hs : s.Accepted) (hfits : c.Fits stride n) (hx : s.x < c.width)
    (hy : s.y < c.height) :
    (s.x + s.width).toNat = s.x.toNat + s.width.toNat ∧
      (s.y + s.height).toNat = s.y.toNat + s.height.toNat := by
  have hw := hs.width_le
  have hh := hs.height_le
  have hcw := hfits.width_le
  have hch := hfits.height_le
  simp only [maxDim, BitVec.le_def, BitVec.lt_def, BitVec.toNat_ofNat] at hw hh hx hy
  rw [BitVec.toNat_add, BitVec.toNat_add]
  constructor <;> exact Nat.mod_eq_of_lt (by omega)

/-- A cell on the screen is in the buffer, and its index does not wrap. -/
theorem Fits.cell (hfits : c.Fits stride n) {row col : ℕ} (hrow : row < c.height.toNat)
    (hcol : col < stride.toNat) :
    row * stride.toNat + col < n := by
  have hle : (row + 1) * stride.toNat ≤ c.height.toNat * stride.toNat :=
    Nat.mul_le_mul_right _ hrow
  rw [Nat.succ_mul] at hle
  rw [hfits.length, Nat.mul_comm stride.toNat]
  omega

/-- The source pixel of a cell, in the data. -/
theorem source_cell {pix : SurfacePixels} (hpix : s.pixels = some pix) (hs : s.HasPixels)
    {row col : ℕ} (hrow : row < s.height.toNat) (hcol : col < s.width.toNat) :
    row * pix.stride.toNat % 2 ^ 32 = row * pix.stride.toNat ∧
      row * pix.stride.toNat + s.width.toNat ≤ pix.ptr.length ∧
        pix.ptr[row * pix.stride.toNat + col]? =
          some (s.source (s.x.toNat + col) (s.y.toNat + row)) := by
  obtain ⟨hle, hlt, hlen⟩ := hs pix hpix
  have hrows : (row + 1) * pix.stride.toNat ≤ s.height.toNat * pix.stride.toNat :=
    Nat.mul_le_mul_right _ hrow
  rw [Nat.succ_mul, Nat.mul_comm s.height.toNat] at hrows
  rw [BitVec.le_def] at hle
  have hidx : row * pix.stride.toNat + col < pix.ptr.length := by omega
  refine ⟨Nat.mod_eq_of_lt (by omega), by omega, ?_⟩
  rw [Surface.source, hpix]
  dsimp only
  rw [Nat.add_sub_cancel_left, Nat.add_sub_cancel_left, List.getD_eq_getElem?_getD,
    List.getElem?_eq_getElem hidx]
  rfl

/-- The index of a row does not wrap. -/
theorem Fits.row_mod (hfits : c.Fits stride n) {row : ℕ} (hrow : row < c.height.toNat) :
    row * stride.toNat % 2 ^ 32 = row * stride.toNat := by
  have hle : row * stride.toNat ≤ c.height.toNat * stride.toNat :=
    Nat.mul_le_mul_right _ (Nat.le_of_lt hrow)
  have hlen := hfits.length
  have hlt := hfits.lt
  rw [Nat.mul_comm stride.toNat] at hlen
  exact Nat.mod_eq_of_lt (by omega)

/-- Loops over the region of a surface each step of which paints a cell. -/
theorem paint_region {body : ℕ → ℕ → List (BitVec 32) → Option (List (BitVec 32))}
    {y x r₀ r₁ c₀ c₁ : ℕ} (hfits : c.Fits stride n) (hlen : buf.length = n)
    (hx₀ : x + c₀ = s.x.toNat) (hx₁ : x + c₁ = min (s.x.toNat + s.width.toNat) c.width.toNat)
    (hy₀ : y + r₀ = s.y.toNat) (hy₁ : y + r₁ = min (s.y.toNat + s.height.toNat) c.height.toNat)
    (hbody : ∀ row col buf dst, r₀ ≤ row → row < r₁ → c₀ ≤ col → col < c₁ →
      buf[(y + row) * stride.toNat + (x + col)]? = some dst →
        body row col buf = some (mapWhere (fun k => k = (y + row) * stride.toNat + (x + col))
          (s.paintAt stride.toNat) buf)) :
    forRange (fun row buf => forRange (fun col buf => body row col buf) c₀ c₁ buf) r₀ r₁ buf =
      some (mapWhere (c.Region s stride.toNat) (s.paintAt stride.toNat) buf) := by
  have hstride := hfits.le_stride
  rw [BitVec.le_def] at hstride
  rw [forRange_rect (w := stride.toNat) (n := n) (y := y) (x := x) (g := s.paintAt stride.toNat)
    (by omega) (fun row col buf hrow hrow' hcol hcol' hbuf => ?_) hlen]
  · exact congrArg some (mapWhere_congr fun k _ => by rw [Region, hx₀, hx₁, hy₀, hy₁])
  · have hcell : (y + row) * stride.toNat + (x + col) < n := hfits.cell (by omega) (by omega)
    exact hbody row col buf _ hrow hrow' hcol hcol' (List.getElem?_eq_getElem (hbuf ▸ hcell))

/-- Painting a surface with a colour. -/
theorem paintSolid_eq (hs : s.Accepted) (hfits : c.Fits stride n) (hx : s.x < c.width)
    (hy : s.y < c.height) (hpix : s.pixels = none) (hlen : buf.length = n) :
    c.paintSolid buf stride s =
      some (mapWhere (c.Region s stride.toNat) (s.paintAt stride.toNat) buf) := by
  obtain ⟨hxEnd, hyEnd⟩ := ends_eq hs hfits hx hy
  have hstride := hfits.le_stride
  rw [BitVec.le_def] at hstride
  have hsrc : ∀ x y, s.source x y = s.color := fun x y => by rw [Surface.source, hpix]
  rw [paintSolid, hxEnd, hyEnd]
  cases hmode : s.blend with
  | Opaque =>
      refine paint_region (y := 0) (x := 0) hfits hlen (Nat.zero_add _) (Nat.zero_add _)
        (Nat.zero_add _) (Nat.zero_add _) fun row col buf dst hrow hrow' hcol hcol' hget => ?_
      rw [Nat.zero_add, Nat.zero_add] at hget ⊢
      rw [hfits.row_mod (by omega)]
      refine paint_write (by omega) hget ?_
      rw [Surface.paint, hmode, hsrc]
  | Alpha =>
      refine paint_region (y := 0) (x := 0) hfits hlen (Nat.zero_add _) (Nat.zero_add _)
        (Nat.zero_add _) (Nat.zero_add _) fun row col buf dst hrow hrow' hcol hcol' hget => ?_
      rw [Nat.zero_add, Nat.zero_add] at hget ⊢
      rw [hfits.row_mod (by omega), hget, Option.bind_some]
      refine paint_write (by omega) hget ?_
      rw [Surface.paint, hmode, hpix, hsrc]

/-- Copying a row of pixels paints it. -/
theorem copyRow_eq {pix : SurfacePixels} (hs : s.Accepted) (hdata : s.HasPixels)
    (hfits : c.Fits stride n) (hpix : s.pixels = some pix) (hmode : s.blend = .Opaque)
    (hright : s.x.toNat + s.width.toNat ≤ c.width.toNat) {row : ℕ} (hrow : row < s.height.toNat)
    (hbottom : s.y.toNat + row < c.height.toNat) (hlen : buf.length = n) :
    (if row * pix.stride.toNat % 2 ^ 32 + s.width.toNat ≤ pix.ptr.length then
      copySlice buf (((s.y.toNat + row) * stride.toNat + s.x.toNat) % 2 ^ 32)
        ((pix.ptr.drop (row * pix.stride.toNat % 2 ^ 32)).take s.width.toNat)
      else none) =
      some (mapWhere (fun k => (s.y.toNat + row) * stride.toNat + s.x.toNat ≤ k ∧
        k < (s.y.toNat + row) * stride.toNat + (s.x.toNat + s.width.toNat))
          (s.paintAt stride.toNat) buf) := by
  have hstride := hfits.le_stride
  rw [BitVec.le_def] at hstride
  have hpos : 0 < s.width.toNat :=
    Nat.pos_of_ne_zero fun h => hs.width_ne (BitVec.eq_of_toNat_eq h)
  obtain ⟨hmod, hend, -⟩ := source_cell hpix hdata hrow hpos
  have hcell : (s.y.toNat + row) * stride.toNat + (s.x.toNat + s.width.toNat - 1) < n :=
    hfits.cell hbottom (by omega)
  have hn := hfits.lt
  have htake : ((pix.ptr.drop (row * pix.stride.toNat)).take s.width.toNat).length =
      s.width.toNat := by
    rw [List.length_take, List.length_drop]
    omega
  rw [hmod, if_pos hend, Nat.mod_eq_of_lt (by omega), copySlice_eq (by omega)
    (g := s.paintAt stride.toNat) (fun i dst hi hget => ?_)]
  · refine congrArg some (mapWhere_congr fun k _ => ?_)
    rw [htake]
    omega
  · obtain ⟨-, -, hsrc⟩ := source_cell hpix hdata hrow (show i < s.width.toNat by omega)
    rw [List.getElem?_take_of_lt (by omega), List.getElem?_drop, hsrc, Nat.add_assoc,
      paintAt_cell (by omega), Surface.paint, hmode]

/-- Painting a surface with pixels. -/
theorem paintPixels_eq {pix : SurfacePixels} (hs : s.Accepted) (hdata : s.HasPixels)
    (hfits : c.Fits stride n) (hx : s.x < c.width) (hy : s.y < c.height)
    (hpix : s.pixels = some pix) (hlen : buf.length = n) :
    c.paintPixels buf stride s pix =
      some (mapWhere (c.Region s stride.toNat) (s.paintAt stride.toNat) buf) := by
  obtain ⟨hxEnd, hyEnd⟩ := ends_eq hs hfits hx hy
  have hstride := hfits.le_stride
  rw [BitVec.le_def] at hstride
  rw [BitVec.lt_def] at hx hy
  have hcols : s.x.toNat + (min (s.x.toNat + s.width.toNat) c.width.toNat - s.x.toNat) =
      min (s.x.toNat + s.width.toNat) c.width.toNat := by omega
  have hrows : s.y.toNat + (min (s.y.toNat + s.height.toNat) c.height.toNat - s.y.toNat) =
      min (s.y.toNat + s.height.toNat) c.height.toNat := by omega
  have hwidth := c.width.isLt
  rw [paintPixels, hxEnd, hyEnd]
  cases hmode : s.blend with
  | Opaque =>
      dsimp only
      split
      · rename_i hclip
        -- whole rows are copied
        have hright : s.x.toNat + s.width.toNat =
            min (s.x.toNat + s.width.toNat) c.width.toNat := by omega
        rw [forRange_rows (n := n) (y := s.y.toNat) (w := stride.toNat) (a := s.x.toNat)
          (b := s.x.toNat + s.width.toNat) (g := s.paintAt stride.toNat) (by omega)
          (fun row buf hrow hrow' hbuf => ?_) hlen]
        · refine congrArg some (mapWhere_congr fun k _ => ?_)
          rw [Region, hrows, Nat.add_zero, ← hright]
        · rw [hclip]
          exact copyRow_eq hs hdata hfits hpix hmode (by omega) (by omega) (by omega) hbuf
      · refine paint_region hfits hlen (Nat.add_zero _) hcols (Nat.add_zero _) hrows
          fun row col buf dst hrow hrow' hcol hcol' hget => ?_
        obtain ⟨hmod, -, hsrc⟩ := source_cell hpix hdata
          (show row < s.height.toNat by omega) (show col < s.width.toNat by omega)
        rw [hmod, hfits.row_mod (by omega), Nat.mod_eq_of_lt (by omega), hsrc, Option.bind_some]
        refine paint_write (by omega) hget ?_
        rw [Surface.paint, hmode]
  | Alpha =>
      refine paint_region hfits hlen (Nat.add_zero _) hcols (Nat.add_zero _) hrows
        fun row col buf dst hrow hrow' hcol hcol' hget => ?_
      obtain ⟨hmod, -, hsrc⟩ := source_cell hpix hdata
          (show row < s.height.toNat by omega) (show col < s.width.toNat by omega)
      rw [hmod, hfits.row_mod (by omega), Nat.mod_eq_of_lt (by omega), hsrc, Option.bind_some]
      dsimp only
      split
      · rename_i h0
        refine paint_skip (by omega) hget ?_
        rw [Surface.paint, hmode, hpix]
        exact if_pos h0
      · rename_i h0
        split
        · rename_i h255
          refine paint_write (by omega) hget ?_
          rw [Surface.paint, hmode, hpix]
          exact (if_neg h0).trans (if_pos h255)
        · rename_i h255
          rw [hget, Option.bind_some]
          refine paint_write (by omega) hget ?_
          rw [Surface.paint, hmode, hpix]
          exact (if_neg h0).trans (if_neg h255)

/-- **Painting a surface.**  Each cell on the screen that the surface covers is painted. -/
theorem paintSurface_eq (hs : s.Accepted) (hdata : s.HasPixels) (hfits : c.Fits stride n)
    (hlen : buf.length = n) :
    c.paintSurface buf stride s =
      some (mapWhere (c.Region s stride.toNat) (s.paintAt stride.toNat) buf) := by
  rw [paintSurface]
  split
  · rename_i hout
    -- nothing of the surface is on the screen
    refine congrArg some (mapWhere_id fun k dst hk _ => ?_).symm
    obtain ⟨hx, hy⟩ := hk
    rw [BitVec.le_def, BitVec.le_def] at hout
    omega
  · rename_i hin
    rw [not_or, BitVec.not_le, BitVec.not_le] at hin
    have hfit : ¬buf.length < min (s.y + s.height).toNat c.height.toNat * stride.toNat := by
      have hle := Nat.mul_le_mul_right stride.toNat
        (Nat.min_le_right (s.y + s.height).toNat c.height.toNat)
      rw [hlen, hfits.length, Nat.mul_comm stride.toNat]
      exact Nat.not_lt.2 hle
    rw [if_neg hfit]
    cases hpix : s.pixels with
    | none => exact paintSolid_eq hs hfits hin.1 hin.2 hpix hlen
    | some pix => exact paintPixels_eq hs hdata hfits hin.1 hin.2 hpix hlen

end Paths

/-! ### The order of painting -/

section Order

variable {c : Compositor}

/-- The visible surfaces, in the order of painting. -/
def painted (c : Compositor) : List ℕ :=
  ((List.range c.surfaces.length).filter c.isVisible).insertionSort
    fun i j => c.layerKey i ≤ c.layerKey j

/-- A visible slot holds a visible surface. -/
theorem isVisible_iff {i : ℕ} :
    c.isVisible i = true ↔ ∃ s, c.surfaces[i]? = some (some s) ∧ s.visible = true := by
  rw [isVisible]
  split
  · rename_i s hs
    simp [hs]
  · rename_i hno
    simp only [Bool.false_eq_true, false_iff, not_exists, not_and]
    intro s hs
    exact absurd hs (hno s)

/-- The keys of different slots are different. -/
theorem layerKey_injective : Function.Injective c.layerKey := fun _ _ h =>
  congrArg (fun p => (ofLex p).2) h

/-- An order by key is the only one. -/
theorem eq_of_sorted {l l' : List ℕ} (hperm : l.Perm l')
    (hl : l.Pairwise fun i j => c.layerKey i ≤ c.layerKey j)
    (hl' : l'.Pairwise fun i j => c.layerKey i ≤ c.layerKey j) : l = l' :=
  hperm.eq_of_pairwise (fun _ _ _ _ h h' => layerKey_injective (le_antisymm h h')) hl hl'

/-- The sort of `compose`. -/
theorem sort_eq_painted :
    SwapSort.sort c.zOrderOf ((List.range c.surfaces.length).filter c.isVisible)
      ((List.range c.surfaces.length).filter c.isVisible).length = some c.painted := by
  have hkey : ∀ i ∈ (List.range c.surfaces.length).filter c.isVisible,
      c.zOrderOf i = some ((c.zOrderOf i).getD 0) := by
    intro i hi
    obtain ⟨s, hs, -⟩ := isVisible_iff.1 (List.mem_filter.1 hi).2
    simp [zOrderOf, hs]
  obtain ⟨order, hsort, hperm, hsorted⟩ := SwapSort.sort_eq [] hkey
    (List.pairwise_lt_range.filter c.isVisible)
  rw [List.append_nil, List.append_nil] at hsort
  rw [hsort]
  refine congrArg some (eq_of_sorted (hperm.trans (List.perm_insertionSort _ _).symm) ?_
    (List.pairwise_insertionSort _ _))
  refine hsorted.imp fun hij => ?_
  rw [layerKey, layerKey, Prod.Lex.toLex_le_toLex]
  exact hij.imp_right fun h => ⟨h.1, Nat.le_of_lt h.2⟩

/-- A pixel shows the visible surfaces that cover it. -/
theorem shows_eq (c : Compositor) (x y i : ℕ) :
    c.shows x y i =
      (c.isVisible i && decide (∃ s, c.surfaces[i]?.join = some s ∧ s.Covers x y)) := by
  rw [shows, isVisible]
  split
  · rename_i s hs
    simp [hs]
  · rfl

/-- The surfaces seen at a pixel are painted in their order. -/
theorem layers_eq (x y : ℕ) :
    c.layers x y = (c.painted.filter (c.shows x y)).filterMap fun i => c.surfaces[i]?.join := by
  refine congrArg (List.filterMap fun i => c.surfaces[i]?.join) (eq_of_sorted ?_
    (List.pairwise_insertionSort _ _) ((List.pairwise_insertionSort _ _).filter _))
  have hvisible : ((List.range c.surfaces.length).filter c.isVisible).filter (c.shows x y) =
      (List.range c.surfaces.length).filter (c.shows x y) := by
    rw [List.filter_filter]
    refine List.filter_congr fun i _ => ?_
    rw [shows_eq]
    cases c.isVisible i <;> simp
  calc ((List.range c.surfaces.length).filter (c.shows x y)).insertionSort _
    List.Perm _ ((List.range c.surfaces.length).filter (c.shows x y)) :=
        List.perm_insertionSort _ _
    _ = ((List.range c.surfaces.length).filter c.isVisible).filter (c.shows x y) := hvisible.symm
    List.Perm _ (c.painted.filter (c.shows x y)) :=
        ((List.perm_insertionSort _ _).filter _).symm

end Order

/-! ### The painter's algorithm -/

/-- The slots hold surfaces that `add_surface` accepts. -/
structure Accepted (c : Compositor) : Prop where
  length : c.surfaces.length = maxSurfaces
  accepted : ∀ (i : ℕ) (s : Surface), c.surfaces[i]? = some (some s) → s.Accepted

/-- No slot is in use at first. -/
theorem accepted_new (width height : BitVec 32) : (new width height).Accepted where
  length := List.length_replicate
  accepted := fun i s h => by
    have hnone := List.eq_of_mem_replicate (List.mem_of_getElem? h)
    cases hnone

/-- A surface that is not accepted, or finds no slot, is not added; an accepted one is put in a free
slot. -/
theorem addSurface_cases (c : Compositor) (s : Surface) :
    ((¬s.Accepted ∨ none ∉ c.surfaces) ∧ c.addSurface s = (none, c)) ∨
      (s.Accepted ∧ ∃ i, c.surfaces[i]? = some none ∧
        c.addSurface s = (some i, { c with surfaces := c.surfaces.set i (some s) })) := by
  by_cases hs : s.Accepted
  · obtain ⟨hw, hh, hwle, hhle⟩ := hs
    have hprod : ¬2 ^ 32 ≤ s.width.toNat * s.height.toNat := by
      have hle := Nat.mul_le_mul (BitVec.le_def.1 hwle) (BitVec.le_def.1 hhle)
      simp only [maxDim, BitVec.toNat_ofNat] at hle
      omega
    rw [addSurface, if_neg (not_or.2 ⟨hw, hh⟩),
      if_neg (not_or.2 ⟨BitVec.not_lt.2 hwle, BitVec.not_lt.2 hhle⟩), if_neg hprod]
    split
    · rename_i i hi
      obtain ⟨hlt, hnone, -⟩ := List.findIdx?_eq_some_iff_getElem.1 hi
      refine Or.inr ⟨⟨hw, hh, hwle, hhle⟩, i, ?_, rfl⟩
      rw [List.getElem?_eq_getElem hlt, Option.isNone_iff_eq_none.1 hnone]
    · rename_i hi
      refine Or.inl ⟨Or.inr fun hmem => ?_, rfl⟩
      have hfull := List.findIdx?_eq_none_iff.1 hi none hmem
      cases hfull
  · refine Or.inl ⟨Or.inl hs, ?_⟩
    rw [addSurface]
    split
    · rfl
    · rename_i hne
      split
      · rfl
      · rename_i hle
        rw [not_or, BitVec.not_lt, BitVec.not_lt] at hle
        exact absurd ⟨fun h => hne (Or.inl h), fun h => hne (Or.inr h), hle.1, hle.2⟩ hs

theorem Accepted.addSurface {c : Compositor} (hc : c.Accepted) (s : Surface) :
    (c.addSurface s).2.Accepted := by
  rcases c.addSurface_cases s with ⟨-, heq⟩ | ⟨hs, i, -, heq⟩
  · rw [heq]
    exact hc
  · rw [heq]
    refine ⟨(List.length_set ..).trans hc.length, fun j t hj => ?_⟩
    dsimp only at hj
    rw [List.getElem?_set] at hj
    split at hj
    · split at hj
      · cases hj
        exact hs
      · cases hj
    · exact hc.accepted j t hj

theorem Accepted.removeSurface {c : Compositor} (hc : c.Accepted) (handle : ℕ) :
    (c.removeSurface handle).Accepted := by
  rw [Compositor.removeSurface]
  split
  · refine ⟨(List.length_set ..).trans hc.length, fun j t hj => ?_⟩
    dsimp only at hj
    rw [List.getElem?_set] at hj
    split at hj
    · split at hj <;> cases hj
    · exact hc.accepted j t hj
  · exact hc

theorem Accepted.setBackground {c : Compositor} (hc : c.Accepted) (color : BitVec 32) :
    (c.setBackground color).Accepted := ⟨hc.length, hc.accepted⟩

section Slots

variable {c : Compositor} {stride : BitVec 32} {n : ℕ}

/-- What the surface in a slot does to the cell at an index. -/
def paintSlotAt (c : Compositor) (stride i k : ℕ) (dst : BitVec 32) : BitVec 32 :=
  match c.surfaces[i]? with
  | some (some s) => if c.Region s stride k then s.paintAt stride k dst else dst
  | _ => dst

/-- Painting the slots in any order. -/
theorem paintSlots_eq (hc : c.Accepted)
    (hdata : ∀ (i : ℕ) (s : Surface), c.surfaces[i]? = some (some s) → s.HasPixels)
    (hfits : c.Fits stride n)
    {order : List ℕ} (horder : ∀ i ∈ order, c.isVisible i = true) {buf : List (BitVec 32)}
    (hlen : buf.length = n) :
    order.foldlM (c.paintSlot stride) buf =
      some (buf.mapIdx fun k a => order.foldl (fun a i => c.paintSlotAt stride.toNat i k a) a) := by
  refine foldlM_mapIdx (n := n) (fun i hi buf hbuf => ?_) hlen
  obtain ⟨s, hs, -⟩ := isVisible_iff.1 (horder i hi)
  rw [paintSlot, hs]
  dsimp only
  rw [paintSurface_eq (hc.accepted i s hs) (hdata i s hs) hfits hbuf]
  refine congrArg some (congrArg (fun f => buf.mapIdx f) (funext fun k => funext fun dst => ?_))
  simp only [paintSlotAt, hs]

/-- The channels of a cell on the screen after the slots were painted. -/
theorem channels_foldl {k : ℕ} (hrow : k / stride.toNat < c.height.toNat)
    (hcol : k % stride.toNat < c.width.toNat) {order : List ℕ}
    (horder : ∀ i ∈ order, c.isVisible i = true) (dst : BitVec 32) :
    channels (order.foldl (fun a i => c.paintSlotAt stride.toNat i k a) dst) =
      ((order.filter (c.shows (k % stride.toNat) (k / stride.toNat))).filterMap
        fun i => c.surfaces[i]?.join).foldl
          (fun below s => s.overlay (k % stride.toNat) (k / stride.toNat) below)
            (channels dst) := by
  induction order generalizing dst with
  | nil => rfl
  | cons i order ih =>
      obtain ⟨s, hs, hvisible⟩ := isVisible_iff.1 (horder i List.mem_cons_self)
      have hregion : c.Region s stride.toNat k ↔
          s.Covers (k % stride.toNat) (k / stride.toNat) := by
        rw [Region, Surface.Covers]
        omega
      have hshows : c.shows (k % stride.toNat) (k / stride.toNat) i =
          decide (s.Covers (k % stride.toNat) (k / stride.toNat)) := by
        simp [shows, hs, hvisible]
      rw [List.foldl_cons, ih (fun j hj => horder j (List.mem_cons_of_mem _ hj))]
      by_cases hcovers : s.Covers (k % stride.toNat) (k / stride.toNat)
      · have hpaint : c.paintSlotAt stride.toNat i k dst = s.paintAt stride.toNat k dst := by
          simp only [paintSlotAt, hs]
          exact if_pos (hregion.2 hcovers)
        rw [List.filter_cons_of_pos (by rw [hshows]; exact decide_eq_true hcovers),
          List.filterMap_cons_some (by rw [hs]; rfl), List.foldl_cons, hpaint, Surface.paintAt,
          Surface.channels_paint]
      · have hpaint : c.paintSlotAt stride.toNat i k dst = dst := by
          simp only [paintSlotAt, hs]
          exact if_neg fun h => hcovers (hregion.1 h)
        rw [List.filter_cons_of_neg (by rw [hshows, decide_eq_true_iff]; exact hcovers), hpaint]

/-- A cell beside the screen stays as it is. -/
theorem foldl_beside {k : ℕ} (hcol : c.width.toNat ≤ k % stride.toNat) (order : List ℕ)
    (dst : BitVec 32) :
    order.foldl (fun a i => c.paintSlotAt stride.toNat i k a) dst = dst := by
  induction order generalizing dst with
  | nil => rfl
  | cons i order ih =>
      have hpaint : c.paintSlotAt stride.toNat i k dst = dst := by
        rw [paintSlotAt]
        split
        · refine if_neg fun hregion => ?_
          have hlt := hregion.1.2
          omega
        · rfl
      rw [List.foldl_cons, hpaint, ih]

end Slots

end Compositor

/-- **The painter's algorithm.**  For accepted surfaces with their pixels, and a buffer for the
screen, `compose` accesses nothing out of range; a pixel on the screen has the channels of the
background painted over by the surfaces seen there, from the lowest to the highest, and the cells
beside the screen hold the background. -/
theorem compositor_paints (c : Compositor) (hc : c.Accepted)
    (hdata : ∀ (i : ℕ) (s : Surface), c.surfaces[i]? = some (some s) → s.HasPixels)
    (stride : BitVec 32)
    (backBuf : List (BitVec 32)) (hfits : c.Fits stride backBuf.length) :
    ∃ buf, c.compose backBuf stride = some buf ∧ buf.length = backBuf.length ∧
      ∀ y < c.height.toNat, ∀ x < stride.toNat, ∃ px, buf[y * stride.toNat + x]? = some px ∧
        (x < c.width.toNat → channels px =
          (c.layers x y).foldl (fun below s => s.overlay x y below) (channels c.bgColor)) ∧
        (c.width.toNat ≤ x → px = c.bgColor) := by
  have htotal : (stride * c.height).toNat = backBuf.length := by
    rw [BitVec.toNat_mul, ← hfits.length, Nat.mod_eq_of_lt hfits.lt]
  have hvisible : ∀ i ∈ c.painted, c.isVisible i = true := fun i hi =>
    (List.mem_filter.1 ((List.perm_insertionSort _ _).mem_iff.1 hi)).2
  have hpaint := Compositor.paintSlots_eq hc hdata hfits hvisible
    (List.length_replicate (n := backBuf.length) (a := c.bgColor))
  have hstride := hfits.le_stride
  rw [BitVec.le_def] at hstride
  have hcompose : c.compose backBuf stride = some ((List.replicate backBuf.length c.bgColor).mapIdx
      fun k a => c.painted.foldl (fun a i => c.paintSlotAt stride.toNat i k a) a) := by
    rw [Compositor.compose]
    simp only [htotal, Nat.le_refl, if_true, List.drop_length, List.append_nil,
      Compositor.sort_eq_painted, Option.bind_some]
    exact hpaint
  refine ⟨_, hcompose, ?_, fun y hy x hx => ?_⟩
  · rw [List.length_mapIdx, List.length_replicate]
  · have hcell := hfits.cell hy hx
    have hdiv : (y * stride.toNat + x) / stride.toNat = y := by
      rw [Nat.mul_comm, Nat.mul_add_div (by omega), Nat.div_eq_of_lt hx, Nat.add_zero]
    have hmod : (y * stride.toNat + x) % stride.toNat = x := by
      rw [Nat.mul_comm, Nat.mul_add_mod, Nat.mod_eq_of_lt hx]
    have hget : (List.replicate backBuf.length c.bgColor)[y * stride.toNat + x]? = some c.bgColor :=
      List.getElem?_replicate_of_lt hcell
    refine ⟨_, by rw [List.getElem?_mapIdx, hget, Option.map_some], fun hon => ?_,
      fun hbeside => ?_⟩
    · have hrow : (y * stride.toNat + x) / stride.toNat < c.height.toNat := by rwa [hdiv]
      have hcol : (y * stride.toNat + x) % stride.toNat < c.width.toNat := by rwa [hmod]
      have hchannels := Compositor.channels_foldl hrow hcol hvisible c.bgColor
      rw [hmod, hdiv, ← Compositor.layers_eq] at hchannels
      exact hchannels
    · exact Compositor.foldl_beside (by omega) _ _

/-- A surface of half-transparent green. -/
def greenSurface : Surface where
  x := 0
  y := 0
  width := 1
  height := 1
  color := 0x8000FF00
  pixels := none
  blend := .Alpha
  zOrder := 2
  visible := true

/-- A surface with red pixels, partly below the screen. -/
def redSurface : Surface where
  x := 0
  y := 0
  width := 1
  height := 4
  color := 0
  pixels := some ⟨[0xFFFF0000, 0, 0, 0], 1⟩
  blend := .Opaque
  zOrder := 1
  visible := true

/-- A screen of 2 × 1 pixels with both surfaces, of which the green one was added first. -/
def twoSurfaces : Compositor :=
  (((Compositor.new 2 1).addSurface greenSurface).2.addSurface redSurface).2

/-- The screen with both surfaces is painted, with a stride of 3. -/
theorem compositor_paints_two :
    ∃ buf, twoSurfaces.compose [0, 0, 0] 3 = some buf ∧ buf.length = 3 ∧
      ∀ y < twoSurfaces.height.toNat, ∀ x < (3 : BitVec 32).toNat, ∃ px,
        buf[y * (3 : BitVec 32).toNat + x]? = some px ∧
        (x < twoSurfaces.width.toNat → channels px = (twoSurfaces.layers x y).foldl
          (fun below s => s.overlay x y below) (channels twoSurfaces.bgColor)) ∧
        (twoSurfaces.width.toNat ≤ x → px = twoSurfaces.bgColor) := by
  have hslots : twoSurfaces.surfaces =
      some greenSurface :: some redSurface :: List.replicate 30 none := by decide
  refine compositor_paints twoSurfaces
    (((Compositor.accepted_new 2 1).addSurface _).addSurface _) (fun i s hs => ?_) 3 [0, 0, 0]
    ⟨by decide, by decide, by decide, by decide, by decide⟩
  have hmem : s = greenSurface ∨ s = redSurface := by
    have hslot := List.mem_of_getElem? hs
    rw [hslots] at hslot
    simpa using hslot
  rcases hmem with rfl | rfl
  · intro pix hpix
    cases hpix
  · intro pix hpix
    cases hpix
    decide

/-- On the left the red is seen through the green. -/
example : twoSurfaces.compose [0, 0, 0] 3 = some [0xFF7F8000, 0xFF000000, 0xFF000000] := by decide

end StarOS
