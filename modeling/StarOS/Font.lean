/-
The bitmap font (`drivers/display/font.rs`): text painted into a buffer.

`draw_str` keeps a cursor that steps by a glyph, goes to the next line at a line break or when no
further glyph fits before the right edge, and stops at the first line that does not fit above the
lower edge.  What it paints is the text laid out in a grid of glyphs: a pixel shows the bit of the
glyph that stands in its place of the grid.  Outside the grid, behind the end of a line and, without
a background colour, at the clear bits of a glyph the buffer stays as it is.

* `StarOS.drawChar`, `StarOS.drawStr` — the code; a panic is `none`;
* `StarOS.glyphBit`, `StarOS.textPixel` — what a pixel should show;
* `StarOS.drawChar_eq` — a glyph changes the cells of its rectangle;
* `StarOS.drawStrFrom_eq` — the loop over the text from any place of the grid on;
* `StarOS.drawStr_paints` — the painted text.
-/

import StarOS.Raster
import StarOS.TextGrid
import StarOS.Word

set_option autoImplicit false

namespace StarOS

open Raster Shifts

/-- `GLYPH_W`. -/
def GLYPH_W : BitVec 32 := 8

/-- `GLYPH_H`. -/
def GLYPH_H : BitVec 32 := 16

/-- `FIRST_CHAR`. -/
def FIRST_CHAR : BitVec 8 := 0x20

/-- `LAST_CHAR`. -/
def LAST_CHAR : BitVec 8 := 0x7E

/-- `FONT_8X16`: the rows of the glyphs of `0x20` (space) to `0x7E` (tilde). -/
def FONT_8X16 : List (List (BitVec 8)) := [
  [0x00, 0x00, 0x00, 0x00, 0x00, 0x00, 0x00, 0x00, 0x00, 0x00, 0x00, 0x00, 0x00, 0x00, 0x00, 0x00],
  [0x00, 0x00, 0x18, 0x3C, 0x3C, 0x3C, 0x18, 0x18, 0x18, 0x00, 0x18, 0x18, 0x00, 0x00, 0x00, 0x00],
  [0x00, 0x66, 0x66, 0x66, 0x24, 0x00, 0x00, 0x00, 0x00, 0x00, 0x00, 0x00, 0x00, 0x00, 0x00, 0x00],
  [0x00, 0x00, 0x6C, 0x6C, 0xFE, 0x6C, 0x6C, 0x6C, 0xFE, 0x6C, 0x6C, 0x00, 0x00, 0x00, 0x00, 0x00],
  [0x18, 0x18, 0x7E, 0xC3, 0xC2, 0xC0, 0x7E, 0x03, 0x83, 0xC3, 0x7E, 0x18, 0x18, 0x00, 0x00, 0x00],
  [0x00, 0x00, 0xC3, 0xC6, 0x0C, 0x18, 0x30, 0x60, 0xC6, 0xC3, 0x00, 0x00, 0x00, 0x00, 0x00, 0x00],
  [0x00, 0x00, 0x38, 0x6C, 0x6C, 0x38, 0x76, 0xDC, 0xCC, 0xCC, 0x76, 0x00, 0x00, 0x00, 0x00, 0x00],
  [0x00, 0x30, 0x30, 0x30, 0x60, 0x00, 0x00, 0x00, 0x00, 0x00, 0x00, 0x00, 0x00, 0x00, 0x00, 0x00],
  [0x00, 0x0C, 0x18, 0x30, 0x30, 0x30, 0x30, 0x30, 0x30, 0x18, 0x0C, 0x00, 0x00, 0x00, 0x00, 0x00],
  [0x00, 0x30, 0x18, 0x0C, 0x0C, 0x0C, 0x0C, 0x0C, 0x0C, 0x18, 0x30, 0x00, 0x00, 0x00, 0x00, 0x00],
  [0x00, 0x00, 0x00, 0x66, 0x3C, 0xFF, 0x3C, 0x66, 0x00, 0x00, 0x00, 0x00, 0x00, 0x00, 0x00, 0x00],
  [0x00, 0x00, 0x00, 0x18, 0x18, 0x7E, 0x18, 0x18, 0x00, 0x00, 0x00, 0x00, 0x00, 0x00, 0x00, 0x00],
  [0x00, 0x00, 0x00, 0x00, 0x00, 0x00, 0x00, 0x00, 0x00, 0x18, 0x18, 0x30, 0x00, 0x00, 0x00, 0x00],
  [0x00, 0x00, 0x00, 0x00, 0x00, 0x00, 0x7E, 0x00, 0x00, 0x00, 0x00, 0x00, 0x00, 0x00, 0x00, 0x00],
  [0x00, 0x00, 0x00, 0x00, 0x00, 0x00, 0x00, 0x00, 0x00, 0x18, 0x18, 0x00, 0x00, 0x00, 0x00, 0x00],
  [0x00, 0x00, 0x03, 0x06, 0x0C, 0x18, 0x30, 0x60, 0xC0, 0x00, 0x00, 0x00, 0x00, 0x00, 0x00, 0x00],
  [0x00, 0x00, 0x3E, 0x63, 0xC3, 0xC3, 0xDB, 0xC3, 0xC3, 0x63, 0x3E, 0x00, 0x00, 0x00, 0x00, 0x00],
  [0x00, 0x00, 0x18, 0x38, 0x58, 0x18, 0x18, 0x18, 0x18, 0x18, 0x7E, 0x00, 0x00, 0x00, 0x00, 0x00],
  [0x00, 0x00, 0x7C, 0xC6, 0x06, 0x0C, 0x18, 0x30, 0x60, 0xC6, 0xFE, 0x00, 0x00, 0x00, 0x00, 0x00],
  [0x00, 0x00, 0x7C, 0xC6, 0x06, 0x06, 0x3C, 0x06, 0x06, 0xC6, 0x7C, 0x00, 0x00, 0x00, 0x00, 0x00],
  [0x00, 0x00, 0x0E, 0x1E, 0x36, 0x66, 0xC6, 0xFF, 0x06, 0x06, 0x06, 0x00, 0x00, 0x00, 0x00, 0x00],
  [0x00, 0x00, 0xFE, 0xC0, 0xC0, 0xC0, 0xFC, 0x06, 0x06, 0xC6, 0x7C, 0x00, 0x00, 0x00, 0x00, 0x00],
  [0x00, 0x00, 0x38, 0x60, 0xC0, 0xC0, 0xFC, 0xC6, 0xC6, 0xC6, 0x7C, 0x00, 0x00, 0x00, 0x00, 0x00],
  [0x00, 0x00, 0xFF, 0xC6, 0x06, 0x0C, 0x18, 0x30, 0x30, 0x30, 0x30, 0x00, 0x00, 0x00, 0x00, 0x00],
  [0x00, 0x00, 0x7C, 0xC6, 0xC6, 0xC6, 0x7C, 0xC6, 0xC6, 0xC6, 0x7C, 0x00, 0x00, 0x00, 0x00, 0x00],
  [0x00, 0x00, 0x7C, 0xC6, 0xC6, 0xC6, 0x7E, 0x06, 0x06, 0x0C, 0x78, 0x00, 0x00, 0x00, 0x00, 0x00],
  [0x00, 0x00, 0x00, 0x18, 0x18, 0x00, 0x00, 0x00, 0x18, 0x18, 0x00, 0x00, 0x00, 0x00, 0x00, 0x00],
  [0x00, 0x00, 0x00, 0x18, 0x18, 0x00, 0x00, 0x00, 0x18, 0x18, 0x30, 0x00, 0x00, 0x00, 0x00, 0x00],
  [0x00, 0x00, 0x06, 0x0C, 0x18, 0x30, 0x60, 0x30, 0x18, 0x0C, 0x06, 0x00, 0x00, 0x00, 0x00, 0x00],
  [0x00, 0x00, 0x00, 0x00, 0x7E, 0x00, 0x00, 0x7E, 0x00, 0x00, 0x00, 0x00, 0x00, 0x00, 0x00, 0x00],
  [0x00, 0x00, 0x60, 0x30, 0x18, 0x0C, 0x06, 0x0C, 0x18, 0x30, 0x60, 0x00, 0x00, 0x00, 0x00, 0x00],
  [0x00, 0x00, 0x7C, 0xC6, 0xC6, 0x0C, 0x18, 0x18, 0x00, 0x18, 0x18, 0x00, 0x00, 0x00, 0x00, 0x00],
  [0x00, 0x00, 0x7C, 0xC6, 0xC6, 0xDE, 0xDE, 0xDE, 0xDC, 0xC0, 0x7C, 0x00, 0x00, 0x00, 0x00, 0x00],
  [0x00, 0x00, 0x10, 0x38, 0x6C, 0xC6, 0xC6, 0xFE, 0xC6, 0xC6, 0xC6, 0x00, 0x00, 0x00, 0x00, 0x00],
  [0x00, 0x00, 0xFC, 0x66, 0x66, 0x66, 0x7C, 0x66, 0x66, 0x66, 0xFC, 0x00, 0x00, 0x00, 0x00, 0x00],
  [0x00, 0x00, 0x3C, 0x66, 0xC2, 0xC0, 0xC0, 0xC0, 0xC2, 0x66, 0x3C, 0x00, 0x00, 0x00, 0x00, 0x00],
  [0x00, 0x00, 0xF8, 0x6C, 0x66, 0x66, 0x66, 0x66, 0x66, 0x6C, 0xF8, 0x00, 0x00, 0x00, 0x00, 0x00],
  [0x00, 0x00, 0xFE, 0x66, 0x62, 0x68, 0x78, 0x68, 0x62, 0x66, 0xFE, 0x00, 0x00, 0x00, 0x00, 0x00],
  [0x00, 0x00, 0xFE, 0x66, 0x62, 0x68, 0x78, 0x68, 0x60, 0x60, 0xF0, 0x00, 0x00, 0x00, 0x00, 0x00],
  [0x00, 0x00, 0x3C, 0x66, 0xC2, 0xC0, 0xDE, 0xC6, 0xC6, 0x66, 0x3A, 0x00, 0x00, 0x00, 0x00, 0x00],
  [0x00, 0x00, 0xC6, 0xC6, 0xC6, 0xC6, 0xFE, 0xC6, 0xC6, 0xC6, 0xC6, 0x00, 0x00, 0x00, 0x00, 0x00],
  [0x00, 0x00, 0x3C, 0x18, 0x18, 0x18, 0x18, 0x18, 0x18, 0x18, 0x3C, 0x00, 0x00, 0x00, 0x00, 0x00],
  [0x00, 0x00, 0x1E, 0x0C, 0x0C, 0x0C, 0x0C, 0x0C, 0xCC, 0xCC, 0x78, 0x00, 0x00, 0x00, 0x00, 0x00],
  [0x00, 0x00, 0xE6, 0x66, 0x6C, 0x78, 0x70, 0x78, 0x6C, 0x66, 0xE6, 0x00, 0x00, 0x00, 0x00, 0x00],
  [0x00, 0x00, 0xF0, 0x60, 0x60, 0x60, 0x60, 0x60, 0x62, 0x66, 0xFE, 0x00, 0x00, 0x00, 0x00, 0x00],
  [0x00, 0x00, 0xC3, 0xE7, 0xFF, 0xFF, 0xDB, 0xC3, 0xC3, 0xC3, 0xC3, 0x00, 0x00, 0x00, 0x00, 0x00],
  [0x00, 0x00, 0xC6, 0xE6, 0xF6, 0xFE, 0xDE, 0xCE, 0xC6, 0xC6, 0xC6, 0x00, 0x00, 0x00, 0x00, 0x00],
  [0x00, 0x00, 0x7C, 0xC6, 0xC6, 0xC6, 0xC6, 0xC6, 0xC6, 0xC6, 0x7C, 0x00, 0x00, 0x00, 0x00, 0x00],
  [0x00, 0x00, 0xFC, 0x66, 0x66, 0x66, 0x7C, 0x60, 0x60, 0x60, 0xF0, 0x00, 0x00, 0x00, 0x00, 0x00],
  [0x00, 0x00, 0x7C, 0xC6, 0xC6, 0xC6, 0xC6, 0xC6, 0xC6, 0xCE, 0x7C, 0x0E, 0x00, 0x00, 0x00, 0x00],
  [0x00, 0x00, 0xFC, 0x66, 0x66, 0x66, 0x7C, 0x78, 0x6C, 0x66, 0xE6, 0x00, 0x00, 0x00, 0x00, 0x00],
  [0x00, 0x00, 0x7C, 0xC6, 0xC6, 0x60, 0x38, 0x0C, 0xC6, 0xC6, 0x7C, 0x00, 0x00, 0x00, 0x00, 0x00],
  [0x00, 0x00, 0xFF, 0xDB, 0x99, 0x18, 0x18, 0x18, 0x18, 0x18, 0x3C, 0x00, 0x00, 0x00, 0x00, 0x00],
  [0x00, 0x00, 0xC6, 0xC6, 0xC6, 0xC6, 0xC6, 0xC6, 0xC6, 0xC6, 0x7C, 0x00, 0x00, 0x00, 0x00, 0x00],
  [0x00, 0x00, 0xC3, 0xC3, 0xC3, 0xC3, 0xC3, 0xC3, 0x66, 0x3C, 0x18, 0x00, 0x00, 0x00, 0x00, 0x00],
  [0x00, 0x00, 0xC3, 0xC3, 0xC3, 0xC3, 0xDB, 0xDB, 0xFF, 0x66, 0x66, 0x00, 0x00, 0x00, 0x00, 0x00],
  [0x00, 0x00, 0xC3, 0xC3, 0x66, 0x3C, 0x18, 0x3C, 0x66, 0xC3, 0xC3, 0x00, 0x00, 0x00, 0x00, 0x00],
  [0x00, 0x00, 0xC3, 0xC3, 0xC3, 0x66, 0x3C, 0x18, 0x18, 0x18, 0x3C, 0x00, 0x00, 0x00, 0x00, 0x00],
  [0x00, 0x00, 0xFF, 0xC3, 0x86, 0x0C, 0x18, 0x30, 0x60, 0xC1, 0xFF, 0x00, 0x00, 0x00, 0x00, 0x00],
  [0x00, 0x00, 0x3C, 0x30, 0x30, 0x30, 0x30, 0x30, 0x30, 0x30, 0x3C, 0x00, 0x00, 0x00, 0x00, 0x00],
  [0x00, 0x00, 0xC0, 0x60, 0x30, 0x18, 0x0C, 0x06, 0x03, 0x00, 0x00, 0x00, 0x00, 0x00, 0x00, 0x00],
  [0x00, 0x00, 0x3C, 0x0C, 0x0C, 0x0C, 0x0C, 0x0C, 0x0C, 0x0C, 0x3C, 0x00, 0x00, 0x00, 0x00, 0x00],
  [0x10, 0x38, 0x6C, 0xC6, 0x00, 0x00, 0x00, 0x00, 0x00, 0x00, 0x00, 0x00, 0x00, 0x00, 0x00, 0x00],
  [0x00, 0x00, 0x00, 0x00, 0x00, 0x00, 0x00, 0x00, 0x00, 0x00, 0xFF, 0x00, 0x00, 0x00, 0x00, 0x00],
  [0x30, 0x18, 0x0C, 0x00, 0x00, 0x00, 0x00, 0x00, 0x00, 0x00, 0x00, 0x00, 0x00, 0x00, 0x00, 0x00],
  [0x00, 0x00, 0x00, 0x00, 0x78, 0x0C, 0x7C, 0xCC, 0xCC, 0xCC, 0x76, 0x00, 0x00, 0x00, 0x00, 0x00],
  [0x00, 0x00, 0xE0, 0x60, 0x60, 0x78, 0x6C, 0x66, 0x66, 0x66, 0x7C, 0x00, 0x00, 0x00, 0x00, 0x00],
  [0x00, 0x00, 0x00, 0x00, 0x7C, 0xC6, 0xC0, 0xC0, 0xC0, 0xC6, 0x7C, 0x00, 0x00, 0x00, 0x00, 0x00],
  [0x00, 0x00, 0x1C, 0x0C, 0x0C, 0x3C, 0x6C, 0xCC, 0xCC, 0xCC, 0x76, 0x00, 0x00, 0x00, 0x00, 0x00],
  [0x00, 0x00, 0x00, 0x00, 0x7C, 0xC6, 0xFE, 0xC0, 0xC0, 0xC6, 0x7C, 0x00, 0x00, 0x00, 0x00, 0x00],
  [0x00, 0x00, 0x1C, 0x36, 0x32, 0x30, 0x7C, 0x30, 0x30, 0x30, 0x78, 0x00, 0x00, 0x00, 0x00, 0x00],
  [0x00, 0x00, 0x00, 0x00, 0x76, 0xCC, 0xCC, 0xCC, 0x7C, 0x0C, 0xCC, 0x78, 0x00, 0x00, 0x00, 0x00],
  [0x00, 0x00, 0xE0, 0x60, 0x6C, 0x76, 0x66, 0x66, 0x66, 0x66, 0xE6, 0x00, 0x00, 0x00, 0x00, 0x00],
  [0x00, 0x00, 0x18, 0x18, 0x00, 0x38, 0x18, 0x18, 0x18, 0x18, 0x3C, 0x00, 0x00, 0x00, 0x00, 0x00],
  [0x00, 0x06, 0x06, 0x00, 0x06, 0x06, 0x06, 0x06, 0x06, 0x66, 0x66, 0x3C, 0x00, 0x00, 0x00, 0x00],
  [0x00, 0x00, 0xE0, 0x60, 0x66, 0x6C, 0x78, 0x78, 0x6C, 0x66, 0xE6, 0x00, 0x00, 0x00, 0x00, 0x00],
  [0x00, 0x00, 0x38, 0x18, 0x18, 0x18, 0x18, 0x18, 0x18, 0x18, 0x3C, 0x00, 0x00, 0x00, 0x00, 0x00],
  [0x00, 0x00, 0x00, 0x00, 0xE6, 0xFF, 0xDB, 0xDB, 0xDB, 0xDB, 0xDB, 0x00, 0x00, 0x00, 0x00, 0x00],
  [0x00, 0x00, 0x00, 0x00, 0xDC, 0x66, 0x66, 0x66, 0x66, 0x66, 0x66, 0x00, 0x00, 0x00, 0x00, 0x00],
  [0x00, 0x00, 0x00, 0x00, 0x7C, 0xC6, 0xC6, 0xC6, 0xC6, 0xC6, 0x7C, 0x00, 0x00, 0x00, 0x00, 0x00],
  [0x00, 0x00, 0x00, 0x00, 0xDC, 0x66, 0x66, 0x66, 0x7C, 0x60, 0x60, 0xF0, 0x00, 0x00, 0x00, 0x00],
  [0x00, 0x00, 0x00, 0x00, 0x76, 0xCC, 0xCC, 0xCC, 0x7C, 0x0C, 0x0C, 0x1E, 0x00, 0x00, 0x00, 0x00],
  [0x00, 0x00, 0x00, 0x00, 0xDC, 0x76, 0x66, 0x60, 0x60, 0x60, 0xF0, 0x00, 0x00, 0x00, 0x00, 0x00],
  [0x00, 0x00, 0x00, 0x00, 0x7C, 0xC6, 0x60, 0x38, 0x0C, 0xC6, 0x7C, 0x00, 0x00, 0x00, 0x00, 0x00],
  [0x00, 0x00, 0x10, 0x30, 0x30, 0xFC, 0x30, 0x30, 0x30, 0x36, 0x1C, 0x00, 0x00, 0x00, 0x00, 0x00],
  [0x00, 0x00, 0x00, 0x00, 0xCC, 0xCC, 0xCC, 0xCC, 0xCC, 0xCC, 0x76, 0x00, 0x00, 0x00, 0x00, 0x00],
  [0x00, 0x00, 0x00, 0x00, 0xC3, 0xC3, 0xC3, 0xC3, 0x66, 0x3C, 0x18, 0x00, 0x00, 0x00, 0x00, 0x00],
  [0x00, 0x00, 0x00, 0x00, 0xC3, 0xC3, 0xC3, 0xDB, 0xDB, 0xFF, 0x66, 0x00, 0x00, 0x00, 0x00, 0x00],
  [0x00, 0x00, 0x00, 0x00, 0xC3, 0x66, 0x3C, 0x18, 0x3C, 0x66, 0xC3, 0x00, 0x00, 0x00, 0x00, 0x00],
  [0x00, 0x00, 0x00, 0x00, 0xC6, 0xC6, 0xC6, 0xC6, 0x7E, 0x06, 0x0C, 0xF8, 0x00, 0x00, 0x00, 0x00],
  [0x00, 0x00, 0x00, 0x00, 0xFF, 0x66, 0x0C, 0x18, 0x30, 0x66, 0xFF, 0x00, 0x00, 0x00, 0x00, 0x00],
  [0x00, 0x00, 0x0E, 0x18, 0x18, 0x18, 0x70, 0x18, 0x18, 0x18, 0x0E, 0x00, 0x00, 0x00, 0x00, 0x00],
  [0x00, 0x18, 0x18, 0x18, 0x18, 0x18, 0x18, 0x18, 0x18, 0x18, 0x18, 0x18, 0x00, 0x00, 0x00, 0x00],
  [0x00, 0x00, 0x70, 0x18, 0x18, 0x18, 0x0E, 0x18, 0x18, 0x18, 0x70, 0x00, 0x00, 0x00, 0x00, 0x00],
  [0x76, 0xDC, 0x00, 0x00, 0x00, 0x00, 0x00, 0x00, 0x00, 0x00, 0x00, 0x00, 0x00, 0x00, 0x00, 0x00]]

/-- `glyph_for`. -/
def glyphFor (ch : BitVec 8) : Option (List (BitVec 8)) :=
  if FIRST_CHAR ≤ ch ∧ ch ≤ LAST_CHAR then FONT_8X16[(ch - FIRST_CHAR).toNat]? else FONT_8X16[0]?

/-- What is written for a bit of a glyph, if anything. -/
def glyphPixel (set : Bool) (fg : BitVec 32) (bg : Option (BitVec 32)) : Option (BitVec 32) :=
  if set then some fg else bg

/-- The write of a pixel, if there is one, in bounds. -/
def putPixel (buf : List (BitVec 32)) (idx : ℕ) (pixel : Option (BitVec 32)) :
    Option (List (BitVec 32)) :=
  match pixel with
  | none => some buf
  | some pixel => if idx < buf.length then setCell buf idx pixel else some buf

/-- `draw_char`. -/
def drawChar (buf : List (BitVec 32)) (stride height x y : BitVec 32) (ch : BitVec 8)
    (fg : BitVec 32) (bg : Option (BitVec 32)) : Option (List (BitVec 32)) :=
  (glyphFor ch).bind fun glyph =>
    forWhile (fun row => y + BitVec.ofNat 32 row < height) (fun row buf =>
      glyph[row]?.bind fun bits =>
        let rowBase := ((y + BitVec.ofNat 32 row) * stride).toNat
        forWhile (fun col => x + BitVec.ofNat 32 col < stride) (fun col buf =>
          putPixel buf (rowBase + (x + BitVec.ofNat 32 col).toNat)
            (glyphPixel (bits &&& (0x80#8 >>> col) ≠ 0#8) fg bg))
          0 GLYPH_W.toNat buf)
      0 GLYPH_H.toNat buf

/-- The loop of `draw_str` from the cursor `(cx, cy)` on. -/
def drawStrFrom (stride height x : BitVec 32) (fg : BitVec 32) (bg : Option (BitVec 32)) :
    BitVec 32 → BitVec 32 → List (BitVec 8) → List (BitVec 32) →
      Option (List (BitVec 32) × BitVec 32 × BitVec 32)
  | cx, cy, [], buf => some (buf, cx, cy)
  | cx, cy, byte :: s, buf =>
      if byte = 10 then drawStrFrom stride height x fg bg x (cy + GLYPH_H) s buf
      else if height < cy + GLYPH_H then some (buf, cx, cy)
      else
        (drawChar buf stride height cx cy byte fg bg).bind fun buf =>
          if stride < cx + GLYPH_W + GLYPH_W then
            drawStrFrom stride height x fg bg x (cy + GLYPH_H) s buf
          else drawStrFrom stride height x fg bg (cx + GLYPH_W) cy s buf

/-- `draw_str`: the buffer, and the position behind the last character. -/
def drawStr (buf : List (BitVec 32)) (stride height x y : BitVec 32) (s : List (BitVec 8))
    (fg : BitVec 32) (bg : Option (BitVec 32)) :
    Option (List (BitVec 32) × BitVec 32 × BitVec 32) :=
  drawStrFrom stride height x fg bg x y s buf

/-! ### What a pixel should show -/

/-- The bit of a glyph: the highest bit of a row is its leftmost pixel. -/
def glyphBit (ch : BitVec 8) (row col : ℕ) : Bool :=
  (((glyphFor ch).bind fun glyph => glyph[row]?).map fun bits => bits.getMsbD col).getD false

/-- The colour of a pixel of a glyph, over the colour that was there. -/
def glyphColor (fg : BitVec 32) (bg : Option (BitVec 32)) (ch : BitVec 8) (row col : ℕ)
    (below : BitVec 32) : BitVec 32 :=
  (glyphPixel (glyphBit ch row col) fg bg).getD below

/-- How many glyphs stand in a line that starts at `x`: at least one, be it cut off. -/
def textColumns (stride x : ℕ) : ℕ := max 1 ((stride - x) / 8)

/-- The pixel `(px, py)` of a screen with a text that starts at `(x, y)`. -/
def textPixel (stride height x y : ℕ) (s : List (BitVec 8)) (fg : BitVec 32)
    (bg : Option (BitVec 32)) (px py : ℕ) (below : BitVec 32) : BitVec 32 :=
  let row := (py - y) / 16
  if x ≤ px ∧ y ≤ py ∧ y + 16 * (row + 1) ≤ height then
    (TextGrid.cell 10 (textColumns stride x) s row ((px - x) / 8)).elim below fun ch =>
      glyphColor fg bg ch ((py - y) % 16) ((px - x) % 8) below
  else below

/-! ### Glyphs -/

theorem length_FONT_8X16 : FONT_8X16.length = 95 := by decide +kernel

theorem length_of_mem_FONT_8X16 : ∀ glyph ∈ FONT_8X16, glyph.length = 16 := by decide +kernel

/-- Each character has a glyph, of 16 rows. -/
theorem exists_glyph (ch : BitVec 8) : ∃ glyph, glyphFor ch = some glyph ∧ glyph.length = 16 := by
  have hindex : ∃ i < 95, glyphFor ch = FONT_8X16[i]? := by
    rw [glyphFor]
    split
    · next h =>
        refine ⟨(ch - FIRST_CHAR).toNat, ?_, rfl⟩
        simp only [FIRST_CHAR, LAST_CHAR] at h ⊢
        bv_omega
    · exact ⟨0, by omega, rfl⟩
  obtain ⟨i, hi, hglyph⟩ := hindex
  have hlt : i < FONT_8X16.length := by rw [length_FONT_8X16]; exact hi
  rw [List.getElem?_eq_getElem hlt] at hglyph
  exact ⟨_, hglyph, length_of_mem_FONT_8X16 _ (List.getElem_mem hlt)⟩

/-- The test of a bit. -/
theorem and_shift_ne_zero : ∀ (bits : BitVec 8), ∀ col < 8,
    decide (bits &&& (0x80#8 >>> col) ≠ 0#8) = bits.getMsbD col := by decide +kernel

section Glyphs

variable {stride height x y : BitVec 32} {fg : BitVec 32} {bg : Option (BitVec 32)}
variable {buf : List (BitVec 32)}

/-- What a glyph at `(x, y)` makes of the cell at an index. -/
def glyphCell (stride x y : ℕ) (fg : BitVec 32) (bg : Option (BitVec 32)) (ch : BitVec 8) (k : ℕ)
    (below : BitVec 32) : BitVec 32 :=
  glyphColor fg bg ch (k / stride - y) (k % stride - x) below

/-- One pixel of a glyph: nothing is written where nothing is to be seen. -/
theorem putPixel_eq {ch bits : BitVec 8} {row col X Y : ℕ} {glyph : List (BitVec 8)}
    (hglyph : glyphFor ch = some glyph) (hrow : glyph[row]? = some bits) (hcol : col < 8)
    (hX : X + col < stride.toNat) (hcell : (Y + row) * stride.toNat + (X + col) < buf.length) :
    putPixel buf ((Y + row) * stride.toNat + (X + col))
        (glyphPixel (bits &&& (0x80#8 >>> col) ≠ 0#8) fg bg) =
      some (mapWhere (fun k => k = (Y + row) * stride.toNat + (X + col))
        (glyphCell stride.toNat X Y fg bg ch) buf) := by
  have hbit : glyphBit ch row col = bits.getMsbD col := by
    simp [glyphBit, hglyph, hrow]
  have hdiv : ((Y + row) * stride.toNat + (X + col)) / stride.toNat = Y + row := by
    rw [Nat.mul_comm, Nat.mul_add_div (by omega), Nat.div_eq_of_lt hX, Nat.add_zero]
  have hmod : ((Y + row) * stride.toNat + (X + col)) % stride.toNat = X + col := by
    rw [Nat.mul_comm, Nat.mul_add_mod, Nat.mod_eq_of_lt hX]
  have hcolor : ∀ below, glyphCell stride.toNat X Y fg bg ch
      ((Y + row) * stride.toNat + (X + col)) below =
        (glyphPixel (bits.getMsbD col) fg bg).getD below := by
    intro below
    rw [glyphCell, hdiv, hmod, Nat.add_sub_cancel_left, Nat.add_sub_cancel_left, glyphColor, hbit]
  rw [and_shift_ne_zero bits col hcol]
  cases hpixel : glyphPixel (bits.getMsbD col) fg bg with
  | none =>
      refine congrArg some (mapWhere_id fun k a hk _ => ?_).symm
      rw [hk, hcolor, hpixel, Option.getD_none]
  | some pixel =>
      rw [putPixel, if_pos hcell]
      refine setCell_eq (List.getElem?_eq_getElem hcell) ?_
      rw [hcolor, hpixel, Option.getD_some]

/-- **A glyph** changes the cells of its rectangle that are on the screen. -/
theorem drawChar_eq (hlen : buf.length = stride.toNat * height.toNat)
    (hlt : stride.toNat * height.toNat < 2 ^ 32) (hx : x.toNat + 8 ≤ 2 ^ 32)
    (hy : y.toNat + 16 ≤ 2 ^ 32) (ch : BitVec 8) :
    drawChar buf stride height x y ch fg bg =
      some (mapWhere (fun k => (x.toNat ≤ k % stride.toNat ∧
          k % stride.toNat < min (x.toNat + 8) stride.toNat) ∧
        y.toNat + 0 ≤ k / stride.toNat ∧ k / stride.toNat < y.toNat + min 16 (height.toNat - y.toNat))
        (glyphCell stride.toNat x.toNat y.toNat fg bg ch) buf) := by
  obtain ⟨glyph, hglyph, hrows⟩ := exists_glyph ch
  have hwidth : GLYPH_W.toNat = 8 := rfl
  have hrow : ∀ row < 16, (y + BitVec.ofNat 32 row).toNat = y.toNat + row := by
    intro row hrow
    rw [BitVec.toNat_add, BitVec.toNat_ofNat, Nat.mod_eq_of_lt (by omega : row < 2 ^ 32),
      Nat.mod_eq_of_lt (by omega)]
  have hcol : ∀ col < 8, (x + BitVec.ofNat 32 col).toNat = x.toNat + col := by
    intro col hcol
    rw [BitVec.toNat_add, BitVec.toNat_ofNat, Nat.mod_eq_of_lt (by omega : col < 2 ^ 32),
      Nat.mod_eq_of_lt (by omega)]
  rw [drawChar, hglyph, Option.bind_some, forWhile_eq (m := height.toNat - y.toNat)]
  · refine forRange_rows (n := buf.length) (Nat.min_le_right _ _) (fun row buf' _ hhi hbuf => ?_) rfl
    have hrow16 : row < 16 := lt_of_lt_of_le hhi (Nat.min_le_left _ _)
    have hrowH : y.toNat + row < height.toNat := by omega
    have hbits : ∃ bits, glyph[row]? = some bits :=
      ⟨_, List.getElem?_eq_getElem (by rw [hrows]; exact hrow16)⟩
    obtain ⟨bits, hbits⟩ := hbits
    have hend : (y.toNat + row + 1) * stride.toNat ≤ stride.toNat * height.toNat := by
      rw [Nat.mul_comm]
      exact Nat.mul_le_mul_left _ hrowH
    rw [Nat.succ_mul] at hend
    have hbase : ((y + BitVec.ofNat 32 row) * stride).toNat = (y.toNat + row) * stride.toNat := by
      rw [BitVec.toNat_mul, hrow row hrow16, Nat.mod_eq_of_lt (by omega)]
    dsimp only
    rw [hbits, Option.bind_some, hbase, hwidth, forWhile_eq (m := stride.toNat - x.toNat)]
    · rw [forRange_cells (n := buf.length) (b := (y.toNat + row) * stride.toNat + x.toNat)
        (g := glyphCell stride.toNat x.toNat y.toNat fg bg ch) (fun col buf'' _ hcol' hbuf'' => ?_)
        hbuf]
      · exact congrArg some (mapWhere_congr fun k _ => by omega)
      · have hcol8 : col < 8 := lt_of_lt_of_le hcol' (Nat.min_le_left _ _)
        rw [hcol col hcol8, Nat.add_assoc]
        exact putPixel_eq hglyph hbits hcol8 (by omega) (by rw [hbuf'', hlen]; omega)
    · intro col hcol'
      rw [decide_eq_true_iff, BitVec.lt_def, hcol col hcol']
      omega
  · intro row hrow'
    rw [decide_eq_true_iff, BitVec.lt_def, hrow row hrow']
    omega

end Glyphs

/-! ### Texts -/

section Texts

variable {stride height x y : BitVec 32} (fg : BitVec 32) (bg : Option (BitVec 32))

/-- What a glyph in a place of the grid makes of the cell at an index, if its line fits. -/
def placeCell (stride height x y : ℕ) (fg : BitVec 32) (bg : Option (BitVec 32))
    (q : (ℕ × ℕ) × BitVec 8) (k : ℕ) (below : BitVec 32) : BitVec 32 :=
  if y + 16 * (q.1.1 + 1) ≤ height ∧
      (x + 8 * q.1.2 ≤ k % stride ∧ k % stride < x + 8 * q.1.2 + 8) ∧
        y + 16 * q.1.1 ≤ k / stride ∧ k / stride < y + 16 * q.1.1 + 16 then
    glyphCell stride (x + 8 * q.1.2) (y + 16 * q.1.1) fg bg q.2 k below
  else below

/-- Lines that do not fit are not painted. -/
theorem foldl_placeCell_below {S H X Y k : ℕ} {l : List ((ℕ × ℕ) × BitVec 8)}
    (h : ∀ q ∈ l, H < Y + 16 * (q.1.1 + 1)) (a : BitVec 32) :
    l.foldl (fun a q => placeCell S H X Y fg bg q k a) a = a := by
  induction l with
  | nil => rfl
  | cons q l ih =>
      have hq := h q List.mem_cons_self
      have hcell : placeCell S H X Y fg bg q k a = a := if_neg fun hfits => by omega
      rw [List.foldl_cons, hcell]
      exact ih fun q hq => h q (List.mem_cons_of_mem _ hq)

/-- A glyph in a line that fits. -/
theorem drawChar_place {buf : List (BitVec 32)} {cx cy : BitVec 32} {r c : ℕ}
    (hlen : buf.length = stride.toNat * height.toNat)
    (hlt : stride.toNat * height.toNat < 2 ^ 32) (hcx : cx.toNat = x.toNat + 8 * c)
    (hcy : cy.toNat = y.toNat + 16 * r) (hright : cx.toNat + 8 ≤ 2 ^ 32)
    (hfits : cy.toNat + 16 ≤ height.toNat) (ch : BitVec 8) :
    drawChar buf stride height cx cy ch fg bg =
      some (buf.mapIdx
        (placeCell stride.toNat height.toNat x.toNat y.toNat fg bg ((r, c), ch))) := by
  have hheight := height.isLt
  rw [drawChar_eq hlen hlt hright (by omega)]
  refine congrArg some (List.ext_getElem? fun k => ?_)
  rw [getElem?_mapWhere, List.getElem?_mapIdx, hcx, hcy]
  by_cases hk : k < buf.length
  · have hstride : 0 < stride.toNat := by
      rw [hlen] at hk
      exact Nat.pos_of_mul_pos_right (Nat.zero_lt_of_lt hk)
    have hmod := Nat.mod_lt k hstride
    refine congrArg (fun f => Option.map f buf[k]?) (funext fun a => ?_)
    rw [placeCell]
    refine if_congr ?_ rfl rfl
    dsimp only
    omega
  · rw [List.getElem?_eq_none (Nat.le_of_not_lt hk), Option.map_none, Option.map_none]

/-- A change that leaves each cell as it is. -/
theorem mapIdx_same {f : ℕ → BitVec 32 → BitVec 32} (h : ∀ k a, f k a = a)
    (buf : List (BitVec 32)) : buf.mapIdx f = buf := by
  have hf : f = fun _ a => a := funext fun k => funext (h k)
  refine List.ext_getElem? fun k => ?_
  rw [hf, List.getElem?_mapIdx]
  exact Option.map_id'

/-- **The loop of `draw_str`** paints what its cursor visits in the grid. -/
theorem drawStrFrom_eq (hlt : stride.toNat * height.toNat < 2 ^ 32)
    (hx : x.toNat + 16 < 2 ^ 32) (hstride : stride.toNat + 8 < 2 ^ 32) {s : List (BitVec 8)}
    {r c : ℕ} (hc : c < textColumns stride.toNat x.toNat)
    (hy : y.toNat + 16 * (r + s.length) < 2 ^ 32) {cx cy : BitVec 32}
    (hcx : cx.toNat = x.toNat + 8 * c) (hcy : cy.toNat = y.toNat + 16 * r)
    (buf : List (BitVec 32)) (hlen : buf.length = stride.toNat * height.toNat) :
    ∃ pos, drawStrFrom stride height x fg bg cx cy s buf =
      some (buf.mapIdx fun k a =>
        (TextGrid.places 10 (textColumns stride.toNat x.toNat) r c s).foldl
          (fun a q => placeCell stride.toNat height.toNat x.toNat y.toNat fg bg q k a) a, pos) := by
  induction s generalizing r c cx cy buf with
  | nil =>
      refine ⟨(cx, cy), ?_⟩
      rw [drawStrFrom]
      exact congrArg (fun b => some (b, cx, cy)) (mapIdx_same (fun _ _ => rfl) buf).symm
  | cons byte s ih =>
      have hheight := height.isLt
      have hline : GLYPH_H.toNat = 16 := rfl
      have hwidth : GLYPH_W.toNat = 8 := rfl
      rw [List.length_cons] at hy
      have hcolumns : textColumns stride.toNat x.toNat =
        max 1 ((stride.toNat - x.toNat) / 8) := rfl
      have hdown : (cy + GLYPH_H).toNat = y.toNat + 16 * (r + 1) := by
        rw [BitVec.toNat_add, hcy, hline]
        omega
      have hnewline := ih (Nat.zero_lt_of_lt hc) (r := r + 1) (by omega)
        (by omega : x.toNat = x.toNat + 8 * 0) hdown
      rw [drawStrFrom, TextGrid.places]
      split
      · exact hnewline buf hlen
      · split
        · next hbelow =>
            -- the line does not fit, nor does a later one
            rw [BitVec.lt_def, hdown] at hbelow
            refine ⟨(cx, cy), ?_⟩
            rw [mapIdx_same fun k a => foldl_placeCell_below fg bg (fun q hq => ?_) a]
            have hrow : r ≤ q.1.1 := by
              rcases List.mem_cons.1 hq with rfl | hq
              · exact Nat.le_refl _
              · split at hq
                · exact TextGrid.le_of_mem_places hq
                · exact Nat.le_of_succ_le (TextGrid.le_of_mem_places hq)
            omega
        · next hfits =>
            rw [BitVec.lt_def, hdown] at hfits
            have hright : cx.toNat + 16 < 2 ^ 32 := by omega
            have hcx' : (cx + GLYPH_W).toNat = x.toNat + 8 * (c + 1) := by
              rw [BitVec.toNat_add, hcx, hwidth]
              omega
            have hedge : (cx + GLYPH_W + GLYPH_W).toNat = x.toNat + 8 * (c + 2) := by
              rw [BitVec.toNat_add, hcx', hwidth]
              omega
            rw [drawChar_place fg bg hlen hlt hcx hcy (by omega) (by omega) byte, Option.bind_some]
            have hlen' : (buf.mapIdx (placeCell stride.toNat height.toNat x.toNat y.toNat fg bg
                ((r, c), byte))).length = stride.toNat * height.toNat := by
              rw [List.length_mapIdx, hlen]
            simp only [List.foldl_cons]
            by_cases hroom : c + 1 < textColumns stride.toNat x.toNat
            · have hstay : ¬stride < cx + GLYPH_W + GLYPH_W := by
                rw [BitVec.lt_def, hedge]
                omega
              obtain ⟨pos, hpos⟩ := ih hroom (by omega) hcx' hcy _ hlen'
              refine ⟨pos, ?_⟩
              rw [if_neg hstay, if_pos hroom, hpos, List.mapIdx_mapIdx]
              rfl
            · have hwrap : stride < cx + GLYPH_W + GLYPH_W := by
                rw [BitVec.lt_def, hedge]
                omega
              obtain ⟨pos, hpos⟩ := hnewline _ hlen'
              refine ⟨pos, ?_⟩
              rw [if_pos hwrap, if_neg hroom, hpos, List.mapIdx_mapIdx]
              rfl

/-- What the walk makes of a pixel is what the grid shows there. -/
theorem foldl_placeCell {S H X Y k : ℕ} (s : List (BitVec 8)) (a : BitVec 32) :
    (TextGrid.places 10 (textColumns S X) 0 0 s).foldl
        (fun a q => placeCell S H X Y fg bg q k a) a =
      textPixel S H X Y s fg bg (k % S) (k / S) a := by
  have hcolumns : 0 < textColumns S X := Nat.lt_of_lt_of_le Nat.one_pos (Nat.le_max_left _ _)
  have hplace : ∀ (q : (ℕ × ℕ) × BitVec 8) (b : BitVec 32), placeCell S H X Y fg bg q k b =
      if (X ≤ k % S ∧ Y ≤ k / S ∧ Y + 16 * ((k / S - Y) / 16 + 1) ≤ H) ∧
          q.1 = ((k / S - Y) / 16, (k % S - X) / 8) then
        glyphColor fg bg q.2 ((k / S - Y) % 16) ((k % S - X) % 8) b
      else b := by
    rintro ⟨⟨r, c⟩, ch⟩ b
    simp only [placeCell, Prod.mk.injEq]
    by_cases hhere : r = (k / S - Y) / 16 ∧ c = (k % S - X) / 8
    · obtain ⟨rfl, rfl⟩ := hhere
      have hrow : k / S - (Y + 16 * ((k / S - Y) / 16)) = (k / S - Y) % 16 := by omega
      have hcol : k % S - (X + 8 * ((k % S - X) / 8)) = (k % S - X) % 8 := by omega
      rw [glyphCell, hrow, hcol]
      refine if_congr ?_ rfl rfl
      omega
    · rw [if_neg (by omega), if_neg fun h => hhere h.2]
  rw [textPixel]
  by_cases hin : X ≤ k % S ∧ Y ≤ k / S ∧ Y + 16 * ((k / S - Y) / 16 + 1) ≤ H
  · rw [if_pos hin, ← TextGrid.foldl_places hcolumns]
    refine congrArg (fun f => List.foldl f a _) (funext fun a => funext fun q => ?_)
    rw [hplace]
    exact if_congr (and_iff_right hin) rfl rfl
  · rw [if_neg hin]
    refine List.foldl_fixed' (fun q => ?_) _
    rw [hplace, if_neg fun h => hin h.1]

/-- `draw_str` changes each cell to what the grid shows there. -/
theorem drawStr_eq {s : List (BitVec 8)} {buf : List (BitVec 32)}
    (hlen : buf.length = stride.toNat * height.toNat)
    (hlt : stride.toNat * height.toNat < 2 ^ 32) (hx : x.toNat + 16 < 2 ^ 32)
    (hstride : stride.toNat + 8 < 2 ^ 32) (hy : y.toNat + 16 * s.length < 2 ^ 32) :
    ∃ pos, drawStr buf stride height x y s fg bg =
      some (buf.mapIdx fun k a => textPixel stride.toNat height.toNat x.toNat y.toNat s fg bg
        (k % stride.toNat) (k / stride.toNat) a, pos) := by
  have hcolumns : 0 < textColumns stride.toNat x.toNat :=
    Nat.lt_of_lt_of_le Nat.one_pos (Nat.le_max_left _ _)
  obtain ⟨pos, hdraw⟩ := drawStrFrom_eq fg bg hlt hx hstride hcolumns
    (by rw [Nat.zero_add]; exact hy) (Nat.add_zero _).symm (Nat.add_zero _).symm buf hlen
  refine ⟨pos, hdraw.trans ?_⟩
  simp only [foldl_placeCell]

/-- **`draw_str`** accesses nothing out of range, and each pixel of the screen shows the text laid
out in a grid of glyphs over what was there. -/
theorem drawStr_paints (stride height x y : BitVec 32) (s : List (BitVec 8)) (fg : BitVec 32)
    (bg : Option (BitVec 32)) (buf : List (BitVec 32))
    (hlen : buf.length = stride.toNat * height.toNat)
    (hlt : stride.toNat * height.toNat < 2 ^ 32) (hx : x.toNat + 16 < 2 ^ 32)
    (hstride : stride.toNat + 8 < 2 ^ 32) (hy : y.toNat + 16 * s.length < 2 ^ 32) :
    ∃ buf' pos, drawStr buf stride height x y s fg bg = some (buf', pos) ∧
      buf'.length = buf.length ∧
      ∀ py < height.toNat, ∀ px < stride.toNat,
        buf'[py * stride.toNat + px]? = buf[py * stride.toNat + px]?.map
          (textPixel stride.toNat height.toNat x.toNat y.toNat s fg bg px py) := by
  obtain ⟨pos, hdraw⟩ := drawStr_eq fg bg hlen hlt hx hstride hy
  refine ⟨_, pos, hdraw, List.length_mapIdx, fun py hpy px hpx => ?_⟩
  have hdiv : (py * stride.toNat + px) / stride.toNat = py := by
    rw [Nat.mul_comm, Nat.mul_add_div (by omega), Nat.div_eq_of_lt hpx, Nat.add_zero]
  have hmod : (py * stride.toNat + px) % stride.toNat = px := by
    rw [Nat.mul_comm, Nat.mul_add_mod, Nat.mod_eq_of_lt hpx]
  rw [List.getElem?_mapIdx, hdiv, hmod]

/-- Two lines on a screen of 16 × 40 pixels, of which the second is broken after a glyph. -/
theorem drawStr_paints_two :
    ∃ buf' pos, drawStr (List.replicate 640 0) 16 40 3 2 [0x41, 10, 0x42, 0x43] 0xFFFFFFFF none =
        some (buf', pos) ∧
      buf'.length = (List.replicate 640 (0 : BitVec 32)).length ∧
      ∀ py < (40 : BitVec 32).toNat, ∀ px < (16 : BitVec 32).toNat,
        buf'[py * (16 : BitVec 32).toNat + px]? =
          (List.replicate 640 (0 : BitVec 32))[py * (16 : BitVec 32).toNat + px]?.map
            (textPixel (16 : BitVec 32).toNat (40 : BitVec 32).toNat (3 : BitVec 32).toNat
              (2 : BitVec 32).toNat [0x41, 10, 0x42, 0x43] 0xFFFFFFFF none px py) :=
  drawStr_paints 16 40 3 2 [0x41, 10, 0x42, 0x43] 0xFFFFFFFF none (List.replicate 640 0)
    List.length_replicate (by simp) (by simp) (by simp) (by simp)

end Texts

end StarOS
