import TrollOS.Console.Model

/-!
# The framebuffer behind the console

`kernel/modules/chardev/console-fb.c`.  Video memory, the font and the colour map are
arrays of known size: an operation that leaves one of them has no result, nor has a loop
that never ends.
-/

namespace TrollOS.Console

/-- An `unsigned int`, or a `uint32_t`. -/
def wrap (n : Nat) : Nat := n % 4294967296

/-- `_fbcon`.  `fbMem` holds `wPixels * hPixels` pixels, `font` 256 glyphs of `hFont`
rows. -/
structure Framebuffer where
  fbMem : Nat → UInt8
  font : Nat → UInt8
  wPixels : Nat
  hPixels : Nat
  wChars : Nat
  hChars : Nat
  wFont : Nat
  hFont : Nat
  cursorX : Nat
  cursorY : Nat
  cmap : Vector UInt8 16

/-- `_fbcon` at boot. -/
def fbcon : Framebuffer where
  fbMem := fun _ => 0
  font := fun _ => 0
  wPixels := 800
  hPixels := 480
  wChars := 100
  hChars := 30
  wFont := 8
  hFont := 16
  cursorX := 0
  cursorY := 0
  cmap := #v[0, 1, 2, 3, 4, 5, 6, 7, 8, 9, 10, 11, 12, 13, 14, 15]

def consoleFbInit (fb : Framebuffer) (fbMem : Nat → UInt8) (w h : Nat) (font : Nat → UInt8)
    (fontW fontH : Nat) (cmap : Option (Vector UInt8 16)) : Framebuffer :=
  { fb with
    fbMem := fbMem, wPixels := w, hPixels := h, font := font, wFont := fontW, hFont := fontH,
    wChars := w / fontW, hChars := h / fontH, cmap := cmap.getD fb.cmap }

namespace Framebuffer

def readPixel (fb : Framebuffer) (i : Nat) : Option UInt8 :=
  if i < fb.wPixels * fb.hPixels then some (fb.fbMem i) else none

def writePixel (fb : Framebuffer) (i : Nat) (pixel : UInt8) : Option Framebuffer :=
  if i < fb.wPixels * fb.hPixels then
    some { fb with fbMem := Function.update fb.fbMem i pixel }
  else none

/-- A row of a glyph. -/
def readFont (fb : Framebuffer) (i : Nat) : Option UInt8 :=
  if i < 256 * fb.hFont then some (fb.font i) else none

/-- `fb_mem[target] = fb_mem[source]`, on words of four pixels. -/
def moveWord (fb : Framebuffer) (target source : Nat) : Option Framebuffer :=
  (List.range 4).foldlM
    (fun fb k => (fb.readPixel (4 * source + k)).bind fun pixel =>
      fb.writePixel (4 * target + k) pixel)
    fb

/-- `fb_mem[i] = 0`, on words. -/
def clearWord (fb : Framebuffer) (i : Nat) : Option Framebuffer :=
  (List.range 4).foldlM (fun fb k => fb.writePixel (4 * i + k) 0) fb

/-- `for(i = start; i < end; i++)`. -/
def loop (fb : Framebuffer) (start stop : Nat) (body : Framebuffer → Nat → Option Framebuffer) :
    Option Framebuffer :=
  (List.range' start (stop - start)).foldlM body fb

def clearLines (fb : Framebuffer) (dir : ClearDirection) : Option Framebuffer :=
  let line := wrap (fb.cursorY * fb.hFont * fb.wPixels)
  let start := if dir = .forward then line else 0
  let stop := if dir = .backward then line else wrap (fb.wPixels * fb.hPixels)
  fb.loop start stop fun fb i => fb.writePixel i 0

/-- The words of video memory. -/
def words (fb : Framebuffer) : Nat := wrap (fb.wPixels * fb.hPixels) / 4

def offset (fb : Framebuffer) (lines : Nat) : Nat := wrap (lines * fb.hFont * fb.wPixels) / 4

/-- The first loop of `_scroll_down`: `i` counts down for as long as it is not below
`offset`, and after 0 comes the largest `unsigned int`.  `fuel` bounds the turns. -/
def scrollDownLoop (offset : Nat) : Nat → Nat → Framebuffer → Option Framebuffer
  | 0, _, _ => none
  | fuel + 1, i, fb =>
      if offset ≤ i then
        (fb.moveWord i (i - offset)).bind fun fb =>
          scrollDownLoop offset fuel (unsigned ((i : Int) - 1)) fb
      else some fb

def scrollDown (fb : Framebuffer) (lines : Nat) : Option Framebuffer :=
  (scrollDownLoop (fb.offset lines) 4294967297 (unsigned ((fb.words : Int) - 1)) fb).bind fun fb =>
    fb.loop 0 (fb.offset lines) clearWord

def scrollUp (fb : Framebuffer) (lines : Nat) : Option Framebuffer :=
  (fb.loop (fb.offset lines) fb.words fun fb' i => fb'.moveWord (i - fb.offset lines) i).bind
    fun fb => fb.loop (unsigned ((fb.words : Int) - fb.offset lines)) fb.words clearWord

/-- One row of a glyph, shifted out pixel by pixel. -/
def putcRow (fb : Framebuffer) (row col : Nat) (data : UInt8) (fg bg : Nat) :
    Option Framebuffer :=
  (List.range fb.wFont).foldlM
    (fun fb j => (fb.cmap[if data.toNat.testBit j then fg else bg]?).bind fun pixel =>
      fb.writePixel (wrap (row * fb.wPixels + col + j)) pixel)
    fb

def drawGlyph (fb : Framebuffer) (c : Int) (fg bg : Nat) : Option Framebuffer :=
  let col := fb.cursorX * fb.wFont
  let row := fb.cursorY * fb.hFont
  (List.range fb.hFont).foldlM
    (fun fb (i : Nat) => (fb.readFont (unsigned (c * fb.hFont + i))).bind fun data =>
      fb.putcRow (row + i) col data fg bg)
    fb

/-- The cursor moves on, to the next line behind the last column. -/
def advance (fb : Framebuffer) : Framebuffer :=
  if fb.wChars ≤ wrap (fb.cursorX + 1) then
    { fb with cursorX := 0, cursorY := wrap (fb.cursorY + 1) }
  else { fb with cursorX := wrap (fb.cursorX + 1) }

def putcRaw (fb : Framebuffer) (c : Int) (fg bg : Nat) : Option Framebuffer :=
  (fb.drawGlyph c fg bg).bind fun fb =>
    let fb := fb.advance
    if fb.hChars ≤ fb.cursorY then
      (fb.scrollUp 1).map fun fb => { fb with cursorY := unsigned ((fb.hChars : Int) - 1) }
    else some fb

def putc (fb : Framebuffer) (c : Int) (fg bg : Nat) : Option Framebuffer :=
  if c = '\n'.toNat then
    let fb := { fb with cursorX := 0, cursorY := wrap (fb.cursorY + 1) }
    if fb.cursorY = fb.hChars then
      (fb.scrollUp 1).map fun fb => { fb with cursorY := unsigned ((fb.cursorY : Int) - 1) }
    else some fb
  else if c = '\r'.toNat then some { fb with cursorX := 0 }
  else fb.putcRaw c fg bg

def setCursor (fb : Framebuffer) (x y : Nat) : Framebuffer :=
  { fb with cursorX := x % (fb.wChars + 1), cursorY := y % (fb.hChars + 1) }

/-- `_clear_on_line` does nothing. -/
def clearOnLine (fb : Framebuffer) (_ : ClearDirection) : Framebuffer := fb

end Framebuffer

/-- `console_fb`: `none` once an operation has had no result. -/
def consoleFb : Backend (Option Framebuffer) where
  putc := fun fb c fg bg => fb.bind fun fb => fb.putc c fg bg
  setCursor := fun fb x y => fb.map fun fb => fb.setCursor x y
  getCursor := fun fb => (fb.elim 0 Framebuffer.cursorX, fb.elim 0 Framebuffer.cursorY)
  clearLines := fun fb dir => fb.bind fun fb => fb.clearLines dir
  clearOnLine := fun fb dir => fb.map fun fb => fb.clearOnLine dir
  scrollUp := fun fb lines => fb.bind fun fb => fb.scrollUp lines
  scrollDown := fun fb lines => fb.bind fun fb => fb.scrollDown lines

end TrollOS.Console
