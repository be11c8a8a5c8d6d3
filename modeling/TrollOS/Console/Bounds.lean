import Mathlib.Tactic.Ring
import Mathlib.Tactic.Linarith
import TrollOS.Console.Framebuffer
import TrollOS.Console.Parser

/-!
# Cursor and video memory stay in bounds

On a screen of whole characters every operation of the framebuffer with the cursor on the
screen stays inside its arrays, except for three: a character above 127 has no glyph, a
scroll down needs at least one word and at most a screen, and `_set_cursor` reduces modulo
one more than the number of columns and of lines, so that the cursor can come to rest
beside the screen.
-/

namespace TrollOS.Console

namespace Framebuffer

/-- A screen of whole characters, which lies in the address space beside its font. -/
structure Sized (fb : Framebuffer) : Prop where
  columns : 0 < fb.wChars
  lines : 0 < fb.hChars
  width : fb.wChars * fb.wFont = fb.wPixels
  height : fb.hChars * fb.hFont = fb.hPixels
  glyphs : 0 < fb.wFont
  rows : 0 < fb.hFont
  space : fb.wPixels * fb.hPixels + 256 * fb.hFont ≤ 4294967296

structure InScreen (fb : Framebuffer) : Prop where
  sized : fb.Sized
  column : fb.cursorX < fb.wChars
  line : fb.cursorY < fb.hChars

def Painted (fb fb' : Framebuffer) : Prop := ∃ fbMem, fb' = { fb with fbMem := fbMem }

theorem Painted.refl (fb : Framebuffer) : Painted fb fb := ⟨fb.fbMem, rfl⟩

theorem Painted.trans {first second third : Framebuffer} (before : Painted first second)
    (after : Painted second third) : Painted first third := by
  obtain ⟨_, rfl⟩ := before
  obtain ⟨fbMem, rfl⟩ := after
  exact ⟨fbMem, rfl⟩

theorem Painted.sized {fb fb' : Framebuffer} (painted : Painted fb fb') (sized : fb.Sized) :
    fb'.Sized := by
  obtain ⟨_, rfl⟩ := painted
  exact ⟨sized.columns, sized.lines, sized.width, sized.height, sized.glyphs,
      sized.rows, sized.space⟩

theorem Painted.inScreen {fb fb' : Framebuffer} (painted : Painted fb fb')
    (screen : fb.InScreen) : fb'.InScreen := by
  have sized := painted.sized screen.sized
  obtain ⟨_, rfl⟩ := painted
  exact ⟨sized, screen.column, screen.line⟩

def SameGrid (fb fb' : Framebuffer) : Prop := fb'.wChars = fb.wChars ∧ fb'.hChars = fb.hChars

theorem SameGrid.trans {first second third : Framebuffer} (before : SameGrid first second)
    (after : SameGrid second third) : SameGrid first third :=
  ⟨after.1.trans before.1, after.2.trans before.2⟩

theorem Painted.sameGrid {fb fb' : Framebuffer} (painted : Painted fb fb') : SameGrid fb fb' := by
  obtain ⟨_, rfl⟩ := painted
  exact ⟨rfl, rfl⟩

/-- A loop paints if each turn paints. -/
theorem foldlM_painted {ι : Type} {body : Framebuffer → ι → Option Framebuffer} {turns : List ι}
    {fb : Framebuffer}
    (each : ∀ i ∈ turns, ∀ fb', Painted fb fb' →
      ∃ fb'', body fb' i = some fb'' ∧ Painted fb' fb'') :
    ∃ fb', turns.foldlM body fb = some fb' ∧ Painted fb fb' := by
  induction turns generalizing fb with
  | nil => exact ⟨fb, rfl, Painted.refl fb⟩
  | cons i rest ih =>
      obtain ⟨middle, first, painted⟩ := each i (by simp) fb (Painted.refl fb)
      obtain ⟨fb', later, painted'⟩ := ih fun j among fb' further =>
        each j (by simp [among]) fb' (painted.trans further)
      exact ⟨fb', by simp [first, later], painted.trans painted'⟩

theorem writePixel_painted {fb : Framebuffer} {i : Nat} (inside : i < fb.wPixels * fb.hPixels)
    (pixel : UInt8) : ∃ fb', fb.writePixel i pixel = some fb' ∧ Painted fb fb' :=
  ⟨_, if_pos inside, _, rfl⟩

theorem Sized.small {fb : Framebuffer} (sized : fb.Sized) :
    fb.wPixels * fb.hPixels < 4294967296 := by
  have rows := sized.rows
  have space := sized.space
  omega

theorem Sized.few_columns {fb : Framebuffer} (sized : fb.Sized) : fb.wChars < 4294967296 := by
  have small := sized.small
  have pixels : 0 < fb.hPixels := by
    rw [← sized.height]
    exact Nat.mul_pos sized.lines sized.rows
  calc fb.wChars ≤ fb.wChars * fb.wFont := Nat.le_mul_of_pos_right _ sized.glyphs
    _ = fb.wPixels := sized.width
    _ ≤ fb.wPixels * fb.hPixels := Nat.le_mul_of_pos_right _ pixels
    _ < 4294967296 := small

theorem Sized.few_lines {fb : Framebuffer} (sized : fb.Sized) : fb.hChars < 4294967296 := by
  have small := sized.small
  have pixels : 0 < fb.wPixels := by
    rw [← sized.width]
    exact Nat.mul_pos sized.columns sized.glyphs
  calc fb.hChars ≤ fb.hChars * fb.hFont := Nat.le_mul_of_pos_right _ sized.rows
    _ = fb.hPixels := sized.height
    _ ≤ fb.wPixels * fb.hPixels := Nat.le_mul_of_pos_left _ pixels
    _ < 4294967296 := small

/-- The cursor may be put anywhere without changing the screen. -/
theorem Sized.moved {fb : Framebuffer} (sized : fb.Sized) (x y : Nat) :
    ({ fb with cursorX := x, cursorY := y } : Framebuffer).Sized :=
  ⟨sized.columns, sized.lines, sized.width, sized.height, sized.glyphs, sized.rows, sized.space⟩

theorem Sized.words_eq {fb : Framebuffer} (sized : fb.Sized) :
    fb.words = fb.wPixels * fb.hPixels / 4 := by
  rw [words, wrap, Nat.mod_eq_of_lt sized.small]

theorem moveWord_painted {fb : Framebuffer} (sized : fb.Sized) {target source : Nat}
    (target_inside : target < fb.words) (source_inside : source < fb.words) :
    ∃ fb', fb.moveWord target source = some fb' ∧ Painted fb fb' := by
  rw [sized.words_eq] at target_inside source_inside
  refine foldlM_painted fun k among fb' painted => ?_
  have below := List.mem_range.mp among
  obtain ⟨_, rfl⟩ := painted
  rw [readPixel, if_pos (by dsimp only; omega), Option.bind_some]
  exact writePixel_painted (by dsimp only; omega) _

theorem clearWord_painted {fb : Framebuffer} (sized : fb.Sized) {i : Nat}
    (inside : i < fb.words) : ∃ fb', fb.clearWord i = some fb' ∧ Painted fb fb' := by
  rw [sized.words_eq] at inside
  refine foldlM_painted fun k among fb' painted => ?_
  have below := List.mem_range.mp among
  obtain ⟨_, rfl⟩ := painted
  exact writePixel_painted (by dsimp only; omega) _

theorem loop_painted {fb : Framebuffer} {start stop : Nat}
    {body : Framebuffer → Nat → Option Framebuffer}
    (each : ∀ i, start ≤ i → i < stop → ∀ fb', Painted fb fb' →
      ∃ fb'', body fb' i = some fb'' ∧ Painted fb' fb'') :
    ∃ fb', fb.loop start stop body = some fb' ∧ Painted fb fb' := by
  refine foldlM_painted fun i among => ?_
  rw [List.mem_range'_1] at among
  exact each i among.1 (by omega)

theorem Painted.words_eq {fb fb' : Framebuffer} (painted : Painted fb fb') :
    fb'.words = fb.words := by
  obtain ⟨_, rfl⟩ := painted
  rfl

theorem Painted.offset_eq {fb fb' : Framebuffer} (painted : Painted fb fb') (lines : Nat) :
    fb'.offset lines = fb.offset lines := by
  obtain ⟨_, rfl⟩ := painted
  rfl

theorem clear_painted {fb : Framebuffer} (sized : fb.Sized) (start : Nat) {stop : Nat}
    (inside : stop ≤ fb.words) :
    ∃ fb', fb.loop start stop clearWord = some fb' ∧ Painted fb fb' := by
  refine loop_painted fun i _ below fb' painted => ?_
  refine clearWord_painted (painted.sized sized) ?_
  rw [painted.words_eq]
  omega

/-- Scrolling up stays in video memory, by however many lines: past a whole screen both
loops are empty. -/
theorem scrollUp_painted {fb : Framebuffer} (sized : fb.Sized) (lines : Nat) :
    ∃ fb', fb.scrollUp lines = some fb' ∧ Painted fb fb' := by
  obtain ⟨middle, moved, painted⟩ : ∃ fb',
      fb.loop (fb.offset lines) fb.words
        (fun fb' i => fb'.moveWord (i - fb.offset lines) i) = some fb' ∧ Painted fb fb' := by
    refine loop_painted fun i low below fb' painted => ?_
    refine moveWord_painted (painted.sized sized) ?_ ?_
    · rw [painted.words_eq]
      omega
    · rw [painted.words_eq]
      exact below
  obtain ⟨fb', cleared, painted'⟩ := clear_painted (painted.sized sized)
    (unsigned ((middle.words : Int) - middle.offset lines)) (le_refl middle.words)
  refine ⟨fb', ?_, painted.trans painted'⟩
  rw [scrollUp, moved, Option.bind_some]
  exact cleared

theorem scrollDownLoop_painted {offset fuel i : Nat} {fb : Framebuffer} (sized : fb.Sized)
    (positive : 0 < offset) (inside : i < fb.words) (enough : i < fuel) :
    ∃ fb', scrollDownLoop offset fuel i fb = some fb' ∧ Painted fb fb' := by
  induction fuel generalizing i fb with
  | zero => exact absurd enough (Nat.not_lt_zero i)
  | succ fuel ih =>
      rw [scrollDownLoop]
      split
      · obtain ⟨middle, moved, painted⟩ :=
          moveWord_painted sized inside (by omega : i - offset < fb.words)
        have previous : unsigned ((i : Int) - 1) = i - 1 := by
          have small := sized.small
          rw [sized.words_eq] at inside
          unfold unsigned
          omega
        rw [moved, Option.bind_some, previous]
        obtain ⟨fb', later, painted'⟩ := ih (painted.sized sized) (i := i - 1)
          (by rw [painted.words_eq]; omega) (by omega)
        exact ⟨fb', later, painted.trans painted'⟩
      · exact ⟨fb, rfl, Painted.refl fb⟩

/-- Scrolling down by at least a word and at most a screen. -/
theorem scrollDown_painted {fb : Framebuffer} (sized : fb.Sized) {lines : Nat}
    (positive : 0 < fb.offset lines) (inside : fb.offset lines ≤ fb.words) :
    ∃ fb', fb.scrollDown lines = some fb' ∧ Painted fb fb' := by
  have small := sized.small
  have last : unsigned ((fb.words : Int) - 1) = fb.words - 1 := by
    have words := sized.words_eq
    unfold unsigned
    omega
  have fuel : fb.words - 1 < 4294967297 := by
    have words := sized.words_eq
    omega
  obtain ⟨middle, moved, painted⟩ := scrollDownLoop_painted sized positive
    (by omega : fb.words - 1 < fb.words) fuel
  obtain ⟨fb', cleared, painted'⟩ := clear_painted (painted.sized sized) 0
    (by rw [painted.words_eq, painted.offset_eq]; exact inside :
      middle.offset lines ≤ middle.words)
  refine ⟨fb', ?_, painted.trans painted'⟩
  rw [scrollDown, last, moved, Option.bind_some]
  exact cleared

theorem clearLines_painted {fb : Framebuffer} (screen : fb.InScreen) (dir : ClearDirection) :
    ∃ fb', fb.clearLines dir = some fb' ∧ Painted fb fb' := by
  refine loop_painted fun i _ below fb' painted => ?_
  have line : fb.cursorY * fb.hFont * fb.wPixels ≤ fb.wPixels * fb.hPixels := by
    rw [← screen.sized.height, Nat.mul_comm fb.wPixels]
    exact Nat.mul_le_mul_right _ (Nat.mul_le_mul_right _ (Nat.le_of_lt screen.line))
  have inside : i < fb.wPixels * fb.hPixels := by
    have start := Nat.mod_le (fb.cursorY * fb.hFont * fb.wPixels) 4294967296
    have all := Nat.mod_le (fb.wPixels * fb.hPixels) 4294967296
    dsimp only [wrap] at below
    split at below
    · omega
    · omega
  obtain ⟨_, rfl⟩ := painted
  refine writePixel_painted ?_ 0
  exact inside

/-- A pixel of the glyph at the cursor lies in video memory. -/
theorem glyph_inside {fb : Framebuffer} (screen : fb.InScreen) {i j : Nat} (row : i < fb.hFont)
    (column : j < fb.wFont) :
    (fb.cursorY * fb.hFont + i) * fb.wPixels + fb.cursorX * fb.wFont + j <
      fb.wPixels * fb.hPixels := by
  have right : fb.cursorX * fb.wFont + j < fb.wPixels := by
    calc fb.cursorX * fb.wFont + j < fb.cursorX * fb.wFont + fb.wFont := by omega
      _ = (fb.cursorX + 1) * fb.wFont := by ring
      _ ≤ fb.wChars * fb.wFont := Nat.mul_le_mul_right _ screen.column
      _ = fb.wPixels := screen.sized.width
  have low : fb.cursorY * fb.hFont + i + 1 ≤ fb.hPixels := by
    calc fb.cursorY * fb.hFont + i + 1 ≤ fb.cursorY * fb.hFont + fb.hFont := by omega
      _ = (fb.cursorY + 1) * fb.hFont := by ring
      _ ≤ fb.hChars * fb.hFont := Nat.mul_le_mul_right _ screen.line
      _ = fb.hPixels := screen.sized.height
  calc (fb.cursorY * fb.hFont + i) * fb.wPixels + fb.cursorX * fb.wFont + j
      < (fb.cursorY * fb.hFont + i) * fb.wPixels + fb.wPixels := by omega
    _ = (fb.cursorY * fb.hFont + i + 1) * fb.wPixels := by ring
    _ ≤ fb.hPixels * fb.wPixels := Nat.mul_le_mul_right _ low
    _ = fb.wPixels * fb.hPixels := Nat.mul_comm _ _

theorem putcRow_painted {fb : Framebuffer} (screen : fb.InScreen) {i fg bg : Nat}
    (row : i < fb.hFont) (data : UInt8) (fg_small : fg < 16) (bg_small : bg < 16) :
    ∃ fb', fb.putcRow (fb.cursorY * fb.hFont + i) (fb.cursorX * fb.wFont) data fg bg = some fb' ∧
      Painted fb fb' := by
  refine foldlM_painted fun j among fb' painted => ?_
  have inside := glyph_inside screen row (List.mem_range.mp among)
  have small := screen.sized.small
  have index : (if data.toNat.testBit j then fg else bg) < 16 := by
    split
    · exact fg_small
    · exact bg_small
  obtain ⟨_, rfl⟩ := painted
  rw [Vector.getElem?_eq_getElem index, Option.bind_some]
  refine writePixel_painted ?_ _
  dsimp only [wrap]
  rw [Nat.mod_eq_of_lt (by omega)]
  exact inside

theorem readFont_some {fb : Framebuffer} (sized : fb.Sized) {c : Int} (low : 0 ≤ c)
    (high : c < 128) {i : Nat} (row : i < fb.hFont) :
    ∃ data, fb.readFont (unsigned (c * fb.hFont + i)) = some data := by
  have space := sized.space
  have index : unsigned (c * fb.hFont + i) = c.toNat * fb.hFont + i := by
    obtain ⟨n, rfl⟩ := Int.eq_ofNat_of_zero_le low
    have bound : n * fb.hFont ≤ 127 * fb.hFont := Nat.mul_le_mul_right _ (by omega)
    have value : (n : Int) * fb.hFont + i = (n * fb.hFont + i : Nat) := by push_cast; rfl
    rw [unsigned, value, Int.toNat_natCast]
    omega
  have inside : c.toNat * fb.hFont + i < 256 * fb.hFont := by
    calc c.toNat * fb.hFont + i < c.toNat * fb.hFont + fb.hFont := by omega
      _ = (c.toNat + 1) * fb.hFont := (Nat.succ_mul _ _).symm
      _ ≤ 256 * fb.hFont := Nat.mul_le_mul_right _ (by omega)
  exact ⟨_, by rw [index, readFont, if_pos inside]⟩

theorem drawGlyph_painted {fb : Framebuffer} (screen : fb.InScreen) {c : Int} {fg bg : Nat}
    (low : 0 ≤ c) (high : c < 128) (fg_small : fg < 16) (bg_small : bg < 16) :
    ∃ fb', fb.drawGlyph c fg bg = some fb' ∧ Painted fb fb' := by
  refine foldlM_painted fun i among fb' painted => ?_
  have row := List.mem_range.mp among
  obtain ⟨data, read⟩ := readFont_some screen.sized low high row
  have there := putcRow_painted (painted.inScreen screen) (i := i)
    (by obtain ⟨_, rfl⟩ := painted; exact row) data fg_small bg_small
  obtain ⟨fbMem, rfl⟩ := painted
  have same : ({ fb with fbMem := fbMem } : Framebuffer).readFont
      (unsigned (c * fb.hFont + i)) = some data := read
  dsimp only
  rw [same, Option.bind_some]
  exact there

theorem wrap_succ {fb : Framebuffer} (screen : fb.InScreen) :
    wrap (fb.cursorX + 1) = fb.cursorX + 1 ∧ wrap (fb.cursorY + 1) = fb.cursorY + 1 :=
  ⟨Nat.mod_eq_of_lt (lt_of_le_of_lt screen.column screen.sized.few_columns),
    Nat.mod_eq_of_lt (lt_of_le_of_lt screen.line screen.sized.few_lines)⟩

/-- The cursor is on the screen, or in the line below it. -/
theorem advance_cases {fb : Framebuffer} (screen : fb.InScreen) :
    fb.advance.Sized ∧ fb.advance.cursorX < fb.advance.wChars ∧
      fb.advance.cursorY ≤ fb.advance.hChars := by
  obtain ⟨next_column, next_line⟩ := wrap_succ screen
  obtain ⟨sized, column, line⟩ := screen
  unfold advance
  split
  · refine ⟨sized.moved _ _, sized.columns, ?_⟩
    rw [next_line]
    exact line
  · next further => exact ⟨sized.moved _ _, not_le.mp further, Nat.le_of_lt line⟩

theorem advance_sameGrid (fb : Framebuffer) : SameGrid fb fb.advance := by
  unfold advance
  split
  · exact ⟨rfl, rfl⟩
  · exact ⟨rfl, rfl⟩

/-- Scrolling brings a cursor below the screen back to the last line. -/
theorem last_line {fb : Framebuffer} (sized : fb.Sized) (column : fb.cursorX < fb.wChars) :
    ({ fb with cursorY := unsigned ((fb.hChars : Int) - 1) } : Framebuffer).InScreen := by
  have lines := sized.lines
  have few := sized.few_lines
  have last : unsigned ((fb.hChars : Int) - 1) < fb.hChars := by
    unfold unsigned
    omega
  exact ⟨sized.moved _ _, column, last⟩

theorem putcRaw_inScreen {fb : Framebuffer} (screen : fb.InScreen) {c : Int} {fg bg : Nat}
    (low : 0 ≤ c) (high : c < 128) (fg_small : fg < 16) (bg_small : bg < 16) :
    ∃ fb', fb.putcRaw c fg bg = some fb' ∧ fb'.InScreen ∧ SameGrid fb fb' := by
  obtain ⟨drawn, done, painted⟩ := drawGlyph_painted screen low high fg_small bg_small
  obtain ⟨sized, column, line⟩ := advance_cases (painted.inScreen screen)
  have grid := painted.sameGrid.trans (advance_sameGrid drawn)
  rw [putcRaw, done, Option.bind_some]
  dsimp only
  split
  · obtain ⟨fb', scrolled, moved⟩ := scrollUp_painted sized 1
    have column' : fb'.cursorX < fb'.wChars := by
      obtain ⟨_, rfl⟩ := moved
      exact column
    exact ⟨_, by rw [scrolled]; rfl, last_line (moved.sized sized) column',
      grid.trans moved.sameGrid⟩
  · next inside => exact ⟨_, rfl, ⟨sized, column, not_le.mp inside⟩, grid⟩

theorem newline_inScreen {fb : Framebuffer} (screen : fb.InScreen) (fg bg : Nat) :
    ∃ fb', fb.putc '\n'.toNat fg bg = some fb' ∧ fb'.InScreen ∧ SameGrid fb fb' := by
  have sized := screen.sized
  rw [putc, if_pos rfl]
  dsimp only
  rw [(wrap_succ screen).2]
  split
  · next below =>
      obtain ⟨fb', scrolled, moved⟩ := scrollUp_painted (sized.moved 0 (fb.cursorY + 1)) 1
      refine ⟨_, by rw [scrolled]; rfl, ?_⟩
      have sized' := moved.sized (sized.moved 0 (fb.cursorY + 1))
      obtain ⟨fbMem, rfl⟩ := moved
      dsimp only
      rw [below]
      exact ⟨last_line sized' sized.columns, rfl, rfl⟩
  · next inside =>
      have line := screen.line
      exact ⟨_, rfl, ⟨sized.moved _ _, sized.columns, by dsimp only; omega⟩, rfl, rfl⟩

theorem putc_inScreen {fb : Framebuffer} (screen : fb.InScreen) {c : Int} {fg bg : Nat}
    (low : 0 ≤ c) (high : c < 128) (fg_small : fg < 16) (bg_small : bg < 16) :
    ∃ fb', fb.putc c fg bg = some fb' ∧ fb'.InScreen ∧ SameGrid fb fb' := by
  by_cases newline : c = '\n'.toNat
  · subst newline
    exact newline_inScreen screen fg bg
  · rw [putc, if_neg newline]
    split
    · exact ⟨_, rfl, ⟨screen.sized.moved 0 fb.cursorY, screen.sized.columns, screen.line⟩,
        rfl, rfl⟩
    · exact putcRaw_inScreen screen low high fg_small bg_small

/-- `_set_cursor` reaches the screen unless it reduces to the column or the line behind it. -/
theorem setCursor_inScreen {fb : Framebuffer} (screen : fb.InScreen) {x y : Nat}
    (column : x % (fb.wChars + 1) ≠ fb.wChars) (line : y % (fb.hChars + 1) ≠ fb.hChars) :
    (fb.setCursor x y).InScreen := by
  have columns : x % (fb.wChars + 1) < fb.wChars + 1 := Nat.mod_lt x (Nat.succ_pos _)
  have lines : y % (fb.hChars + 1) < fb.hChars + 1 := Nat.mod_lt y (Nat.succ_pos _)
  exact ⟨screen.sized.moved _ _, by dsimp only [setCursor]; omega,
    by dsimp only [setCursor]; omega⟩

end Framebuffer

/-! ## The console on a framebuffer -/

/-- The number a sequence begins with, 1 where it has none. -/
def count (args : List Int) : Int := if 0 < args.headD 0 then args.headD 0 else 1

/-- Where a sequence that moves the cursor sends it from `x`, `y`. -/
def target (cmd : Command) (x y : Nat) (args : List Int) : Option (Int × Int) :=
  match cmd with
  | .up => if y = 0 then none else some (x, y - count args)
  | .down => some (x, y + count args)
  | .right => some (x + count args, y)
  | .left => if x = 0 then none else some (x - count args, y)
  | .nextLine => some (0, y + count args)
  | .previousLine => some (0, (if y = 0 then 1 else y : Nat) - count args)
  | .column => some (count args - 1, y)
  | .position =>
      match args[1]? with
      | none => some (x, count args - 1)
      | some column => some (if 0 < column then column - 1 else 0, count args - 1)
  | _ => none

/-- The sequences that leave the cursor on the screen and stay in video memory. -/
structure Harmless (fb : Framebuffer) (cmd : Command) (args : List Int) : Prop where
  column : ∀ x y, target cmd fb.cursorX fb.cursorY args = some (x, y) →
    unsigned x % (fb.wChars + 1) ≠ fb.wChars
  line : ∀ x y, target cmd fb.cursorX fb.cursorY args = some (x, y) →
    unsigned y % (fb.hChars + 1) ≠ fb.hChars
  scroll : cmd = .scrollDown →
    0 < fb.offset (unsigned (count args)) ∧ fb.offset (unsigned (count args)) ≤ fb.words

/-- A byte that a console on the screen `fb` can take: a character that has a glyph, or a
byte of a sequence with at most ten parameters that is harmless when it ends. -/
def Takes (s : State (Option Framebuffer)) (fb : Framebuffer) (byte : UInt8) : Prop :=
  match s.parser.state with
  | .ascii => byte < 128
  | .esc => True
  | .csi | .csiArg =>
      ¬ isdigit (toChar byte) → s.parser.argc < 10 ∧
        (byte ≠ 59 → Harmless fb (Command.ofChar (toChar byte))
          (s.parser.args ++ [if s.parser.state = .csi then -1 else s.parser.a]))

/-- What holds after every byte. -/
structure Steady (s : State (Option Framebuffer)) (fb : Framebuffer) : Prop where
  nonneg : 0 ≤ s.parser.argc
  few : s.parser.argc ≤ 10
  backend : s.backend = some fb
  screen : fb.InScreen
  foreground : s.colorFg < 8
  background : s.colorBg < 8
  savedColumn : s.savedX < fb.wChars
  savedLine : s.savedY < fb.hChars

namespace Steady

variable {s s' : State (Option Framebuffer)} {fb fb' : Framebuffer}

/-- The record of accesses does not matter. -/
theorem traced (steady : Steady s fb) (trace : List ArgEvent) :
    Steady { s with trace := trace } fb :=
  ⟨steady.nonneg, steady.few, steady.backend, steady.screen, steady.foreground,
    steady.background, steady.savedColumn, steady.savedLine⟩

/-- The screen may change as long as the cursor stays on it. -/
theorem draw (steady : Steady s fb) (screen : fb'.InScreen) (grid : fb.SameGrid fb') :
    Steady { s with backend := some fb' } fb' :=
  ⟨steady.nonneg, steady.few, rfl, screen, steady.foreground, steady.background,
    by rw [grid.1]; exact steady.savedColumn, by rw [grid.2]; exact steady.savedLine⟩

theorem setCursor (steady : Steady s fb) {x y : Int}
    (column : unsigned x % (fb.wChars + 1) ≠ fb.wChars)
    (line : unsigned y % (fb.hChars + 1) ≠ fb.hChars) :
    Steady (s.setCursor consoleFb x y) (fb.setCursor (unsigned x) (unsigned y)) := by
  have moved := steady.draw (Framebuffer.setCursor_inScreen steady.screen column line) ⟨rfl, rfl⟩
  rw [State.setCursor, steady.backend]
  exact moved

/-- The colours an argument of `m` selects are below 8. -/
theorem setAttribute (steady : Steady s fb) (value : Int) : Steady (s.setAttribute value) fb := by
  obtain ⟨nonneg, few, backend, screen, foreground, background, savedColumn, savedLine⟩ := steady
  have gray : lightGray < 8 := by decide
  have dark : black < 8 := by decide
  unfold State.setAttribute State.resetAttributes
  split_ifs with _ _ _ range _ range
  · exact ⟨nonneg, few, backend, screen, gray, dark, savedColumn, savedLine⟩
  · exact ⟨nonneg, few, backend, screen, foreground, background, savedColumn, savedLine⟩
  · exact ⟨nonneg, few, backend, screen, foreground, background, savedColumn, savedLine⟩
  · have colour : (value - 30).toNat < 8 := by omega
    exact ⟨nonneg, few, backend, screen, colour, background, savedColumn, savedLine⟩
  · exact ⟨nonneg, few, backend, screen, gray, background, savedColumn, savedLine⟩
  · have colour : (value - 40).toNat < 8 := by omega
    exact ⟨nonneg, few, backend, screen, foreground, colour, savedColumn, savedLine⟩
  · exact ⟨nonneg, few, backend, screen, foreground, dark, savedColumn, savedLine⟩
  · exact ⟨nonneg, few, backend, screen, foreground, background, savedColumn, savedLine⟩

theorem readArg (steady : Steady s fb) {index value : Int}
    (done : s.readArg index = some (value, s')) : Steady s' fb := by
  obtain ⟨found, -, same⟩ := Option.map_eq_some_iff.mp done
  obtain ⟨-, rfl⟩ := Prod.mk.inj same
  exact steady.traced _

theorem attributeLoop {indices : List Nat} (steady : Steady s fb)
    (done : s.attributeLoop indices = some s') : Steady s' fb := by
  induction indices generalizing s with
  | nil =>
      obtain rfl := Option.some.inj done
      exact steady
  | cons i rest ih =>
      obtain ⟨⟨value, middle⟩, read, later⟩ := Option.bind_eq_some_iff.mp done
      exact ih ((steady.readArg read).setAttribute value) later

theorem direction {argc : Int} {dir : ClearDirection} (steady : Steady s fb)
    (done : s.direction argc = some (dir, s')) : Steady s' fb := by
  unfold State.direction at done
  split at done
  · obtain ⟨-, rfl⟩ := Prod.mk.inj (Option.some.inj done)
    exact steady
  · obtain ⟨⟨value, next⟩, read, same⟩ := Option.map_eq_some_iff.mp done
    obtain ⟨-, rfl⟩ := Prod.mk.inj same
    exact steady.readArg read

end Steady

/-! ## One sequence -/

/-- The arguments in `arg`. -/
theorem Parser.load_args {p : Parser} {args : List Int} (held : p.args = args)
    (counted : p.argc = args.length) (few : args.length ≤ 10) {i : Nat} (inside : i < args.length) :
    p.load i = args[i]? := by
  have low : (0 : Int) ≤ i ∧ (i : Int) < 10 := by omega
  rw [load, if_pos low, ← held, Parser.args, counted]
  simp [inside]

namespace State

variable {s : State (Option Framebuffer)} {fb : Framebuffer} {args : List Int}

theorem readArg_eq {β : Type} {s : State β} (held : s.parser.args = args)
    (counted : s.parser.argc = args.length) (few : args.length ≤ 10) {i : Nat} (inside : i < args.length) :
    s.readArg i = some (args[i], { s with trace := s.trace ++ [.read i] }) := by
  rw [readArg, Parser.load_args held counted few inside, List.getElem?_eq_getElem inside]
  rfl

theorem delta_eq {β : Type} {s : State β} (held : s.parser.args = args)
    (counted : s.parser.argc = args.length) (few : args.length ≤ 10) (inside : 0 < args.length) :
    s.delta s.parser.argc = some (count args, { s with trace := s.trace ++ [.read 0] }) := by
  have first := readArg_eq held counted few inside
  have head : args.headD 0 = args[0] := by
    cases args with
    | nil => exact absurd inside (Nat.lt_irrefl 0)
    | cons first rest => rfl
  rw [State.delta, if_pos (by omega), count, head]
  exact congrArg (Option.map _) first

/-- A harmless sequence runs to its end and leaves everything in order. -/
theorem command_steady (steady : Steady s fb) (held : s.parser.args = args)
    (counted : s.parser.argc = args.length) (inside : 0 < args.length) {cmd : Command}
    (harmless : Harmless fb cmd args) :
    ∃ s' fb', s.command consoleFb cmd s.parser.argc (count args) = some s' ∧ Steady s' fb' := by
  have few := steady.few
  have backend := steady.backend
  have nonzero : ¬ s.parser.argc = 0 := by omega
  have cursor : consoleFb.getCursor s.backend = (fb.cursorX, fb.cursorY) := by
    rw [backend]
    rfl
  have home (x y : Int) (to_there : target cmd fb.cursorX fb.cursorY args = some (x, y)) :
      ∃ fb', Steady (s.setCursor consoleFb x y) fb' :=
    ⟨_, steady.setCursor (harmless.column x y to_there) (harmless.line x y to_there)⟩
  cases cmd with
  | down | right | nextLine | previousLine | column =>
      rw [command, cursor]
      obtain ⟨fb', moved⟩ := home _ _ rfl
      exact ⟨_, fb', rfl, moved⟩
  | up =>
      rw [command, cursor]
      dsimp only
      split
      · exact ⟨s, fb, rfl, steady⟩
      · next away =>
          obtain ⟨fb', moved⟩ := home _ _ (if_neg away)
          exact ⟨_, fb', rfl, moved⟩
  | left =>
      rw [command, cursor]
      dsimp only
      split
      · exact ⟨s, fb, rfl, steady⟩
      · next away =>
          obtain ⟨fb', moved⟩ := home _ _ (if_neg away)
          exact ⟨_, fb', rfl, moved⟩
  | position =>
      rw [command, cursor]
      dsimp only
      rw [if_neg nonzero]
      split
      · next one =>
          have lone : args[1]? = none := List.getElem?_eq_none (by omega)
          obtain ⟨fb', moved⟩ := home fb.cursorX (count args - 1) (by simp [target, lone])
          exact ⟨_, fb', rfl, moved⟩
      · next more =>
          have second : 1 < args.length := by omega
          have read := readArg_eq held counted (by omega) second
          have column : args[1]? = some args[1] := List.getElem?_eq_getElem second
          obtain ⟨fb', moved⟩ := home (if 0 < args[1] then args[1] - 1 else 0) (count args - 1)
            (by simp [target, column])
          refine ⟨_, fb', by rw [← Nat.cast_one, read]; rfl, ?_⟩
          exact moved.traced (s.trace ++ [.read 1])
  | eraseLines =>
      obtain ⟨dir, middle, read⟩ := s.direction_some s.parser.argc
      have steady' := steady.direction read
      obtain ⟨fb', cleared, painted⟩ := Framebuffer.clearLines_painted steady.screen dir
      have drawn : consoleFb.clearLines middle.backend dir = some fb' := by
        rw [steady'.backend]
        exact cleared
      refine ⟨_, fb', by rw [command, read]; rfl, ?_⟩
      dsimp only
      rw [drawn]
      exact steady'.draw (painted.inScreen steady.screen) painted.sameGrid
  | eraseOnLine =>
      obtain ⟨dir, middle, read⟩ := s.direction_some s.parser.argc
      have steady' := steady.direction read
      have drawn : consoleFb.clearOnLine middle.backend dir = some fb := by
        rw [steady'.backend]
        rfl
      refine ⟨_, fb, by rw [command, read]; rfl, ?_⟩
      dsimp only
      rw [drawn]
      exact steady'.draw steady.screen ⟨rfl, rfl⟩
  | scrollUp =>
      obtain ⟨fb', scrolled, painted⟩ :=
        Framebuffer.scrollUp_painted steady.screen.sized (unsigned (count args))
      have drawn : consoleFb.scrollUp s.backend (unsigned (count args)) = some fb' := by
        rw [backend]
        exact scrolled
      refine ⟨_, fb', rfl, ?_⟩
      rw [drawn]
      exact steady.draw (painted.inScreen steady.screen) painted.sameGrid
  | scrollDown =>
      obtain ⟨positive, enough⟩ := harmless.scroll rfl
      obtain ⟨fb', scrolled, painted⟩ :=
        Framebuffer.scrollDown_painted steady.screen.sized positive enough
      have drawn : consoleFb.scrollDown s.backend (unsigned (count args)) = some fb' := by
        rw [backend]
        exact scrolled
      refine ⟨_, fb', rfl, ?_⟩
      rw [drawn]
      exact steady.draw (painted.inScreen steady.screen) painted.sameGrid
  | save =>
      rw [command, cursor]
      exact ⟨_, fb, rfl, steady.nonneg, steady.few, backend, steady.screen,
        steady.foreground, steady.background, steady.screen.column, steady.screen.line⟩
  | restore =>
      have column := steady.savedColumn
      have line := steady.savedLine
      have few_columns := steady.screen.sized.few_columns
      have few_lines := steady.screen.sized.few_lines
      have savedX : unsigned s.savedX = s.savedX := by
        unfold unsigned
        omega
      have savedY : unsigned s.savedY = s.savedY := by
        unfold unsigned
        omega
      refine ⟨_, _, rfl, steady.setCursor ?_ ?_⟩
      · rw [savedX, Nat.mod_eq_of_lt (Nat.lt_succ_of_lt column)]
        exact Nat.ne_of_lt column
      · rw [savedY, Nat.mod_eq_of_lt (Nat.lt_succ_of_lt line)]
        exact Nat.ne_of_lt line
  | attributes =>
      rw [command, if_neg nonzero]
      have below (i : Nat) (among : i ∈ List.range s.parser.argc.toNat) : i < 10 := by
        have small := List.mem_range.mp among
        omega
      obtain ⟨s', done⟩ := attributeLoop_some below s
      exact ⟨s', fb, done, steady.attributeLoop done⟩
  | other => exact ⟨s, fb, rfl, steady⟩

theorem csi_steady (steady : Steady s fb) (held : s.parser.args = args)
    (counted : s.parser.argc = args.length) (inside : 0 < args.length) {cmd : Int}
    (harmless : Harmless fb (Command.ofChar cmd) args) :
    ∃ s' fb', s.csi consoleFb cmd s.parser.argc = some s' ∧ Steady s' fb' := by
  have few := steady.few
  rw [csi, delta_eq held counted (by omega) inside, Option.bind_some]
  have traced := steady.traced (s.trace ++ [.read 0])
  exact command_steady traced held counted inside harmless

/-- A parameter that fits leaves everything in order. -/
theorem finishParameter_steady (steady : Steady s fb) (room : s.parser.argc < 10) (value : Int) :
    ∃ s', s.finishParameter value = some s' ∧ Steady s' fb ∧
      s'.parser.args = s.parser.args ++ [value] ∧
      s'.parser.argc = (s.parser.args ++ [value]).length := by
  have nonneg := steady.nonneg
  obtain ⟨p, done, argc, args', -, -⟩ := Parser.finishParameter_args nonneg room value
  have length := Parser.args_length nonneg steady.few
  refine ⟨{ s with parser := p, trace := s.trace ++ [.store s.parser.argc] },
    by rw [finishParameter, done]; rfl, ⟨?_, ?_, steady.backend, steady.screen,
      steady.foreground, steady.background, steady.savedColumn, steady.savedLine⟩, args', ?_⟩
  · dsimp only
    omega
  · dsimp only
    omega
  · rw [List.length_append, List.length_singleton]
    dsimp only
    omega

/-- The parser may enter another state. -/
theorem setState_steady (steady : Steady s fb) (state : ParseState) :
    Steady (s.setState state) fb :=
  ⟨steady.nonneg, steady.few, steady.backend, steady.screen, steady.foreground,
    steady.background, steady.savedColumn, steady.savedLine⟩

theorem finishSequence_steady (steady : Steady s fb) (room : s.parser.argc < 10) {value c : Int}
    (harmless : Harmless fb (Command.ofChar c) (s.parser.args ++ [value])) :
    ∃ s' fb', s.finishSequence consoleFb value c = some s' ∧ Steady s' fb' := by
  obtain ⟨middle, done, steady', held, counted⟩ := finishParameter_steady steady room value
  have traced := (setState_steady steady' .ascii).traced
    (middle.trace ++ [.dispatch c middle.parser.args])
  rw [finishSequence, done, Option.bind_some]
  exact csi_steady traced held counted (by simp) harmless

theorem argByte_steady (steady : Steady s fb) {byte : UInt8}
    (takes : ¬ isdigit (toChar byte) → s.parser.argc < 10 ∧
      (byte ≠ 59 → Harmless fb (Command.ofChar (toChar byte)) (s.parser.args ++ [s.parser.a]))) :
    ∃ s' fb', s.argByte consoleFb (toChar byte) = some s' ∧ Steady s' fb' := by
  unfold argByte
  split
  · next semicolon =>
      have room := (takes (by rw [semicolon]; decide)).1
      obtain ⟨s', done, steady', -, -⟩ := finishParameter_steady steady room s.parser.a
      exact ⟨_, fb, by rw [done]; rfl, setState_steady steady' .csi⟩
  · next other =>
      split
      · next final =>
          obtain ⟨room, harmless⟩ := takes final
          exact finishSequence_steady steady room
            (harmless fun semicolon => other ((toChar_semicolon byte).mpr semicolon))
      · exact ⟨_, fb, rfl, steady.nonneg, steady.few, steady.backend, steady.screen,
          steady.foreground, steady.background, steady.savedColumn, steady.savedLine⟩

/-- What one byte does to a console in order. -/
theorem writeByte_steady (steady : Steady s fb) {byte : UInt8} (takes : Takes s fb byte) :
    ∃ s' fb', s.writeByte consoleFb byte = some s' ∧ Steady s' fb' := by
  unfold Takes at takes
  unfold writeByte
  cases state : s.parser.state with
  | ascii =>
      simp only [state] at takes
      dsimp only
      split
      · exact ⟨_, fb, rfl, setState_steady steady .esc⟩
      · have low : toChar byte = byte.toNat := if_pos takes
        have small : byte.toNat < 128 := UInt8.lt_iff_toNat_lt.mp takes
        have foreground := steady.foreground
        have background := steady.background
        have bright : s.colorFg + (if s.bold then 8 else 0) < 16 := by
          split <;> omega
        obtain ⟨fb', drawn, screen, grid⟩ := Framebuffer.putc_inScreen steady.screen
          (by omega : 0 ≤ toChar byte) (by omega) bright (by omega : s.colorBg < 16)
        have shown : consoleFb.putc s.backend (toChar byte) (s.colorFg + if s.bold then 8 else 0)
            s.colorBg = some fb' := by
          rw [steady.backend]
          exact drawn
        refine ⟨_, fb', rfl, ?_⟩
        rw [shown]
        exact steady.draw screen grid
  | esc =>
      dsimp only
      split
      · exact ⟨_, fb, rfl, le_refl 0, (by decide : (0 : Int) ≤ 10), steady.backend,
          steady.screen, steady.foreground, steady.background, steady.savedColumn,
          steady.savedLine⟩
      · exact ⟨_, fb, rfl, setState_steady steady .ascii⟩
  | csi =>
      simp only [state, if_true] at takes
      dsimp only
      split
      · next semicolon =>
          have room := (takes (by rw [semicolon]; decide)).1
          obtain ⟨s', done, steady', -, -⟩ := finishParameter_steady steady room (-1)
          exact ⟨s', fb, done, steady'⟩
      · next other =>
          split
          · next final =>
              obtain ⟨room, harmless⟩ := takes final
              exact finishSequence_steady steady room
                (harmless fun semicolon => other ((toChar_semicolon byte).mpr semicolon))
          · next digit =>
              exact argByte_steady (setState_steady steady .csiArg) fun final =>
                absurd final digit
  | csiArg =>
      simp only [state] at takes
      exact argByte_steady steady takes

end State

/-! ## Whole texts -/

/-- The console goes on taking the bytes of a text, each in the state it has reached. -/
def TakesAll : State (Option Framebuffer) → List UInt8 → Prop
  | _, [] => True
  | s, byte :: rest =>
      (∀ fb, s.backend = some fb → Takes s fb byte) ∧
        ∀ s', s.writeByte consoleFb byte = some s' → TakesAll s' rest

/-- No operation left its arrays, and the cursor is on the screen. -/
def InBounds (s : State (Option Framebuffer)) : Prop :=
  ∃ fb, s.backend = some fb ∧ fb.cursorX < fb.wChars ∧ fb.cursorY < fb.hChars

theorem run_steady {s : State (Option Framebuffer)} {fb : Framebuffer} (steady : Steady s fb)
    {text before : List UInt8} (takes : TakesAll s text) (early : before <+: text) :
    ∃ s' fb', before.foldlM (State.writeByte consoleFb) s = some s' ∧ Steady s' fb' := by
  induction before generalizing s fb text with
  | nil => exact ⟨s, fb, rfl, steady⟩
  | cons byte rest ih =>
      obtain ⟨tail, rfl⟩ := early
      obtain ⟨now, later⟩ := takes
      obtain ⟨s', fb', done, steady'⟩ := State.writeByte_steady steady (now fb steady.backend)
      obtain ⟨last, fb'', ran, steady''⟩ := ih steady' (later s' done) (List.prefix_append rest tail)
      exact ⟨last, fb'', by rw [List.foldlM_cons, done]; exact ran, steady''⟩

/-- `console_fb_init` on a screen of whole characters. -/
theorem consoleFbInit_steady (fbMem font : Nat → UInt8) {w h fontW fontH : Nat}
    (cmap : Option (Vector UInt8 16)) (columns : 0 < w) (lines : 0 < h) (glyphs : 0 < fontW)
    (rows : 0 < fontH) (whole_columns : fontW ∣ w) (whole_lines : fontH ∣ h)
    (space : w * h + 256 * fontH ≤ 4294967296) :
    Steady (boot (some (consoleFbInit fbcon fbMem w h font fontW fontH cmap)))
      (consoleFbInit fbcon fbMem w h font fontW fontH cmap) := by
  have across : 0 < w / fontW := Nat.div_pos (Nat.le_of_dvd columns whole_columns) glyphs
  have down : 0 < h / fontH := Nat.div_pos (Nat.le_of_dvd lines whole_lines) rows
  have sized : (consoleFbInit fbcon fbMem w h font fontW fontH cmap).Sized :=
    ⟨across, down, Nat.div_mul_cancel whole_columns, Nat.div_mul_cancel whole_lines, glyphs, rows,
      space⟩
  exact ⟨le_refl 0, (by decide : (0 : Int) ≤ 10), rfl, ⟨sized, across, down⟩,
    (by decide : 7 < 8), (by decide : 0 < 8), across, down⟩

/-- While the console takes every byte of a text, the cursor stays on the screen and every
pixel, glyph row and colour inside its array, after each byte and on every screen that the
address space holds beside its font. -/
theorem console_in_bounds (fbMem font : Nat → UInt8) {w h fontW fontH : Nat}
    (cmap : Option (Vector UInt8 16)) (columns : 0 < w) (lines : 0 < h) (glyphs : 0 < fontW)
    (rows : 0 < fontH) (whole_columns : fontW ∣ w) (whole_lines : fontH ∣ h)
    (space : w * h + 256 * fontH ≤ 4294967296) {text : List UInt8}
    (takes : TakesAll (boot (some (consoleFbInit fbcon fbMem w h font fontW fontH cmap))) text)
    {bufs : List (List UInt8)} (early : bufs.flatten <+: text) :
    ∃ s, (boot (some (consoleFbInit fbcon fbMem w h font fontW fontH cmap))).writes consoleFb bufs =
        some s ∧ InBounds s := by
  obtain ⟨s, fb, ran, steady⟩ := run_steady
    (consoleFbInit_steady fbMem font cmap columns lines glyphs rows whole_columns whole_lines space)
    takes early
  exact ⟨s, by rw [State.writes_eq, ran], fb, steady.backend, steady.screen.column,
    steady.screen.line⟩

/-- `ESC [ B`, one line down, on the screen the console is built for. -/
theorem console_in_bounds_down :
    ∃ s, (boot (some (consoleFbInit fbcon (fun _ => 0) 800 480 (fun _ => 0) 8 16 none))).writes
        consoleFb [[27, 91], [66]] = some s ∧ InBounds s := by
  suffices takes : TakesAll (boot (some
      (consoleFbInit fbcon (fun _ => 0) 800 480 (fun _ => 0) 8 16 none))) [27, 91, 66] from
    console_in_bounds (fun _ => 0) (fun _ => 0) none (by decide) (by decide) (by decide)
      (by decide) (by decide) (by decide) (by decide) takes List.prefix_rfl
  refine ⟨fun _ _ => (by decide : (27 : UInt8) < 128), fun s started => ?_⟩
  obtain rfl := Option.some.inj started
  refine ⟨fun _ _ => trivial, fun s opened => ?_⟩
  obtain rfl := Option.some.inj opened
  refine ⟨fun fb on_screen _ => ⟨by decide, fun _ => ?_⟩, fun _ _ => trivial⟩
  obtain rfl := Option.some.inj on_screen
  refine ⟨?_, ?_, ?_⟩
  · rintro x y to_there
    obtain ⟨rfl, -⟩ := Prod.mk.inj (Option.some.inj to_there)
    decide
  · rintro x y to_there
    obtain ⟨-, rfl⟩ := Prod.mk.inj (Option.some.inj to_there)
    decide
  · rintro down
    exact nomatch down

/-- `ESC [ 31 H` on the same screen: the cursor comes to rest in line 30 of 30, and the
next character is drawn outside video memory. -/
theorem cursor_leaves_screen :
    ∃ s, (boot (some (consoleFbInit fbcon (fun _ => 0) 800 480 (fun _ => 0) 8 16 none))).writes
        consoleFb [[27, 91, 51, 49, 72]] = some s ∧ ¬ InBounds s ∧
      ((s.writes consoleFb [[120]]).map fun s' => s'.backend.isSome) = some false := by
  refine ⟨_, rfl, ?_, by decide +kernel⟩
  rintro ⟨fb, on_screen, -, line⟩
  obtain rfl := Option.some.inj on_screen
  exact absurd line (by decide)

end TrollOS.Console
