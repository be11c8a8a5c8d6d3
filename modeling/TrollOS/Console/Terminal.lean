import TrollOS.Console.Backends

/-!
# A terminal

What the console is for: a grid of characters with a cursor.  A cell shows a character in two colours,
or a picture that has been there before.  A call has no result where the framebuffer would leave the
grid: a character without a glyph, a cursor beside the screen, or a scroll that is not one of at most a
screen.
-/

namespace TrollOS.Console

structure Glyph where
  code : Nat
  fg : Nat
  bg : Nat
  ascii : code < 128
  fg_lt : fg < 16
  bg_lt : bg < 16

inductive Cell where
  | glyph (g : Glyph)
  | picture (pixels : Nat → Nat → UInt8)

def Cell.blank : Cell := picture fun _ _ => 0

/-- A grid with the cursor on it. -/
structure Screen (columns lines : Nat) where
  cell : Nat → Nat → Cell
  x : Nat
  y : Nat
  column : x < columns
  line : y < lines

namespace Screen

variable {columns lines : Nat}

/-- Text row `l` is the old row `l + n`. -/
def shiftUp (t : Screen columns lines) (n : Nat) : Screen columns lines :=
  { t with cell := fun c l => if l + n < lines then t.cell c (l + n) else .blank }

def shiftDown (t : Screen columns lines) (n : Nat) : Screen columns lines :=
  { t with cell := fun c l => if n ≤ l then t.cell c (l - n) else .blank }

def carriageReturn (t : Screen columns lines) : Screen columns lines :=
  { t with x := 0, column := Nat.zero_lt_of_lt t.column }

def newline (t : Screen columns lines) : Screen columns lines :=
  if room : t.y + 1 < lines then { t.carriageReturn with y := t.y + 1, line := room }
  else t.carriageReturn.shiftUp 1

def put (t : Screen columns lines) (g : Glyph) : Screen columns lines :=
  { t with cell := fun c l => if c = t.x ∧ l = t.y then .glyph g else t.cell c l }

def next (t : Screen columns lines) : Screen columns lines :=
  if room : t.x + 1 < columns then { t with x := t.x + 1, column := room } else t.newline

/-- The character of a `putc`, if it has a glyph. -/
def glyphOf (c : Int) (fg bg : Nat) : Option Glyph :=
  if fits : c.toNat < 128 ∧ fg < 16 ∧ bg < 16 then
    if 0 ≤ c then some ⟨c.toNat, fg, bg, fits.1, fits.2.1, fits.2.2⟩ else none
  else none

def putc (t : Screen columns lines) (c : Int) (fg bg : Nat) : Option (Screen columns lines) :=
  if c = '\n'.toNat then some t.newline
  else if c = '\r'.toNat then some t.carriageReturn
  else (glyphOf c fg bg).map fun g => (t.put g).next

/-- The cursor is put modulo one more than the number of columns and of lines. -/
def setCursor (t : Screen columns lines) (x y : Nat) : Option (Screen columns lines) :=
  if inside : x % (columns + 1) < columns ∧ y % (lines + 1) < lines then
    some { t with
      x := x % (columns + 1), y := y % (lines + 1), column := inside.1, line := inside.2 }
  else none

def cleared (t : Screen columns lines) (dir : ClearDirection) (l : Nat) : Bool :=
  match dir with
  | .forward => t.y ≤ l
  | .backward => l < t.y
  | .both => true

def clearLines (t : Screen columns lines) (dir : ClearDirection) : Screen columns lines :=
  { t with cell := fun c l => if t.cleared dir l then .blank else t.cell c l }

def scrollUp (t : Screen columns lines) (n : Nat) : Option (Screen columns lines) :=
  if n ≤ lines then some (t.shiftUp n) else none

def scrollDown (t : Screen columns lines) (n : Nat) : Option (Screen columns lines) :=
  if 0 < n ∧ n ≤ lines then some (t.shiftDown n) else none

end Screen

def grid (columns lines : Nat) : Backend (Option (Screen columns lines)) where
  putc := fun t c fg bg => t.bind fun t => t.putc c fg bg
  setCursor := fun t x y => t.bind fun t => t.setCursor x y
  getCursor := fun t => (t.elim 0 Screen.x, t.elim 0 Screen.y)
  clearLines := fun t dir => t.map fun t => t.clearLines dir
  clearOnLine := fun t _ => t
  scrollUp := fun t n => t.bind fun t => t.scrollUp n
  scrollDown := fun t n => t.bind fun t => t.scrollDown n

end TrollOS.Console
