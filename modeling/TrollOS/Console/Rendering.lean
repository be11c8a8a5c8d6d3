import TrollOS.Console.Scrolling
import TrollOS.Console.Terminal
import TrollOS.Lib.Painting

/-!
# The framebuffer as a terminal

Each character cell of the grid has its own pixels in video memory.  The operations of the framebuffer
keep them what the grid says, as long as a row of text is whole words.
-/

namespace TrollOS.Console

open TrollOS.Lib

namespace Glyph

def ink (g : Glyph) (lit : Bool) : Fin 16 := if lit then ⟨g.fg, g.fg_lt⟩ else ⟨g.bg, g.bg_lt⟩

end Glyph

namespace Framebuffer

def lit (fb : Framebuffer) (code i j : Nat) : Bool := (fb.font (code * fb.hFont + i)).toNat.testBit j

/-- The pixel in row `i` and column `j` of a cell. -/
def shade (fb : Framebuffer) (cell : Cell) (i j : Nat) : UInt8 :=
  match cell with
  | .glyph g => fb.cmap.get (g.ink (fb.lit g.code i j))
  | .picture pixels => pixels i j

/-- Where that pixel of the cell in column `c` and line `l` lies. -/
def pixelAt (fb : Framebuffer) (c l i j : Nat) : Nat :=
  (l * fb.hFont + i) * fb.wPixels + c * fb.wFont + j

def Shows (fb : Framebuffer) (mem : Nat → UInt8) (cell : Nat → Nat → Cell) : Prop :=
  ∀ c, c < fb.wChars → ∀ l, l < fb.hChars → ∀ i, i < fb.hFont → ∀ j, j < fb.wFont →
    mem (fb.pixelAt c l i j) = fb.shade (cell c l) i j

def view (fb : Framebuffer) (mem : Nat → UInt8) (x y : Nat) : Framebuffer :=
  { fb with fbMem := mem, cursorX := x, cursorY := y }

theorem Sized.view {fb : Framebuffer} (sized : fb.Sized) (mem : Nat → UInt8) (x y : Nat) :
    (fb.view mem x y).Sized :=
  ⟨sized.columns, sized.lines, sized.width, sized.height, sized.glyphs, sized.rows, sized.space⟩

def pictures (fb : Framebuffer) (mem : Nat → UInt8) (c l : Nat) : Cell :=
  .picture fun i j => mem (fb.pixelAt c l i j)

theorem shows_pictures (fb : Framebuffer) (mem : Nat → UInt8) : fb.Shows mem (fb.pictures mem) :=
  fun _ _ _ _ _ _ _ _ => rfl

variable {fb : Framebuffer} {mem : Nat → UInt8} {cell : Nat → Nat → Cell} {c l i j n : Nat}

/-! ## Cells and pixels -/

/-- A quotient and a remainder. -/
theorem digits_unique {size a b r s : Nat} (low : r < size) (low' : s < size)
    (same : a * size + r = b * size + s) : a = b ∧ r = s := by
  have quotients : a = b := by
    rcases Nat.lt_trichotomy a b with less | equal | more
    · have below := (row_lt low).mpr less
      omega
    · exact equal
    · have below := (row_lt low').mpr more
      omega
  subst quotients
  exact ⟨rfl, Nat.add_left_cancel same⟩

theorem pixelAt_eq (fb : Framebuffer) (c l i j : Nat) :
    fb.pixelAt c l i j = l * fb.rowSize + (i * fb.wPixels + (c * fb.wFont + j)) := by
  unfold pixelAt rowSize
  ring

theorem Sized.column_lt (sized : fb.Sized) (column : c < fb.wChars) (right : j < fb.wFont) :
    c * fb.wFont + j < fb.wPixels := by
  rw [← sized.width]
  exact (row_lt right).mpr column

theorem Sized.inRow (sized : fb.Sized) (column : c < fb.wChars) (row : i < fb.hFont) (right : j < fb.wFont) :
    i * fb.wPixels + (c * fb.wFont + j) < fb.rowSize :=
  (row_lt (sized.column_lt column right)).mpr row

theorem Sized.pixelAt_lt (sized : fb.Sized) (column : c < fb.wChars) (line : l < fb.hChars) (row : i < fb.hFont)
    (right : j < fb.wFont) : fb.pixelAt c l i j < fb.wPixels * fb.hPixels := by
  rw [pixelAt_eq, sized.area]
  exact (row_lt (sized.inRow column row right)).mpr line

/-- No pixel belongs to two cells. -/
theorem Sized.pixelAt_inj (sized : fb.Sized) {c' l' i' j' : Nat} (column : c < fb.wChars)
    (column' : c' < fb.wChars) (row : i < fb.hFont) (row' : i' < fb.hFont) (right : j < fb.wFont)
    (right' : j' < fb.wFont) (same : fb.pixelAt c l i j = fb.pixelAt c' l' i' j') :
    c = c' ∧ l = l' ∧ i = i' ∧ j = j' := by
  rw [pixelAt_eq, pixelAt_eq] at same
  obtain ⟨lines, same⟩ := digits_unique (sized.inRow column row right) (sized.inRow column' row' right') same
  obtain ⟨rows, same⟩ := digits_unique (sized.column_lt column right) (sized.column_lt column' right') same
  obtain ⟨columns, same⟩ := digits_unique right right' same
  exact ⟨columns, lines, rows, same⟩

/-! ## Scrolling -/

/-- A scroll of at most a screen moves whole rows. -/
theorem Sized.wholeWords (sized : fb.Sized) (whole : 4 ∣ fb.rowSize) (few : n ≤ fb.hChars) : fb.WholeWords n := by
  refine ⟨?_, fun _ => Dvd.dvd.mul_left whole n, fun all => ?_⟩
  · rw [sized.area]
    exact Dvd.dvd.mul_left whole fb.hChars
  · have small := sized.small
    rw [Nat.le_antisymm few all, sized.area] at *
    rw [wrap, Nat.mod_eq_of_lt small]

theorem shows_shiftUp {mem' : Nat → UInt8} (sized : fb.Sized) (shows : fb.Shows mem cell)
    (shifted : fb.ShiftedUp n mem mem') :
    fb.Shows mem' fun c l => if l + n < fb.hChars then cell c (l + n) else .blank := by
  intro c column l line i row j right
  dsimp only
  rw [pixelAt_eq, shifted l line _ (sized.inRow column row right)]
  by_cases kept : l + n < fb.hChars
  · have there := shows c column (l + n) kept i row j right
    rw [pixelAt_eq] at there
    rw [if_pos kept, if_pos kept, there]
  · rw [if_neg kept, if_neg kept]
    rfl

theorem shows_shiftDown {mem' : Nat → UInt8} (sized : fb.Sized) (shows : fb.Shows mem cell)
    (shifted : fb.ShiftedDown n mem mem') :
    fb.Shows mem' fun c l => if n ≤ l then cell c (l - n) else .blank := by
  intro c column l line i row j right
  dsimp only
  rw [pixelAt_eq, shifted l line _ (sized.inRow column row right)]
  by_cases kept : n ≤ l
  · have there := shows c column (l - n) (Nat.lt_of_le_of_lt (Nat.sub_le l n) line) i row j right
    rw [pixelAt_eq] at there
    rw [if_pos kept, if_pos kept, there]
  · rw [if_neg kept, if_neg kept]
    rfl

theorem scrollUp_shows (sized : fb.Sized) (whole : 4 ∣ fb.rowSize) (few : n ≤ fb.hChars)
    (shows : fb.Shows mem cell) (x y : Nat) :
    ∃ mem', (fb.view mem x y).scrollUp n = some (fb.view mem' x y) ∧
      fb.Shows mem' fun c l => if l + n < fb.hChars then cell c (l + n) else .blank := by
  have moved := sized.view mem x y
  have scrolls : (fb.view mem x y).ScrollsUp n :=
    (scrollsUp_iff moved).mpr (Or.inr (moved.wholeWords whole few))
  obtain ⟨fb', ran, shifted⟩ := scrolls mem
  have same := scrollUp_eq moved n mem
  rw [same] at ran
  obtain rfl := Option.some.inj ran
  exact ⟨_, same, shows_shiftUp sized shows shifted⟩

theorem scrollDown_shows (sized : fb.Sized) (whole : 4 ∣ fb.rowSize) (some' : 0 < n) (few : n ≤ fb.hChars)
    (shows : fb.Shows mem cell) (x y : Nat) :
    ∃ mem', (fb.view mem x y).scrollDown n = some (fb.view mem' x y) ∧
      fb.Shows mem' fun c l => if n ≤ l then cell c (l - n) else .blank := by
  have moved := sized.view mem x y
  have scrolls : (fb.view mem x y).ScrollsDown n :=
    (scrollsDown_iff moved).mpr ⟨Nat.ne_of_gt some', moved.wholeWords whole few⟩
  obtain ⟨fb', ran, shifted⟩ := scrolls mem
  have kept : Painted (fb.view mem x y) fb' := by
    have offset : 0 < (fb.view mem x y).offset n ∧ (fb.view mem x y).offset n ≤ (fb.view mem x y).words := by
      by_contra wrong
      have none := scrollDown_none moved (n := n) (by omega)
      exact nomatch none.symm.trans ran
    obtain ⟨fb'', ran', painted⟩ := scrollDown_painted moved offset.1 offset.2
    exact Option.some.inj (ran'.symm.trans ran) ▸ painted
  obtain ⟨mem', rfl⟩ := kept
  exact ⟨mem', ran, shows_shiftDown sized shows shifted⟩

/-! ## Clearing lines -/

theorem foldlM_view {body : Framebuffer → Nat → Option Framebuffer}
    {step : (Nat → UInt8) → Nat → Nat → UInt8} {turns : List Nat} {x y : Nat}
    (each : ∀ i ∈ turns, ∀ mem, body (fb.view mem x y) i = some (fb.view (step mem i) x y)) (mem : Nat → UInt8) :
    turns.foldlM body (fb.view mem x y) = some (fb.view (turns.foldl step mem) x y) :=
  @foldlM_mem (fb.view mem x y) body step turns each mem

/-- A loop that blanks the pixels from `start` on. -/
theorem blank_loop (x y start : Nat) {stop : Nat} (inside : stop ≤ fb.wPixels * fb.hPixels) :
    (fb.view mem x y).loop start stop (fun fb i => fb.writePixel i 0) =
      some (fb.view (fun p => if start ≤ p ∧ p < stop then 0 else mem p) x y) := by
  have each : ∀ i ∈ List.range' start (stop - start), ∀ mem,
      (fb.view mem x y).writePixel i 0 = some (fb.view (Function.update mem i 0) x y) := by
    intro i member mem
    have range := List.mem_range'_1.mp member
    exact if_pos (show i < fb.wPixels * fb.hPixels by omega)
  refine (foldlM_view each mem).trans (congrArg (fun mem => some (fb.view mem x y)) (funext fun p => ?_))
  split
  · next within =>
      have member : p ∈ List.range' start (stop - start) := List.mem_range'_1.mpr (by omega)
      exact foldl_written member (fun f => Function.update_self ..)
        (fun j _ other f => Function.update_of_ne (Ne.symm other) ..) mem
  · next outside =>
      refine foldl_kept (fun j member f => Function.update_of_ne ?_ ..) mem
      have range := List.mem_range'_1.mp member
      omega

theorem clearLines_shows (sized : fb.Sized) (t : Screen fb.wChars fb.hChars) (shows : fb.Shows mem t.cell)
    (dir : ClearDirection) :
    ∃ mem', (fb.view mem t.x t.y).clearLines dir = some (fb.view mem' t.x t.y) ∧
      fb.Shows mem' (t.clearLines dir).cell := by
  have small := sized.small
  have above : t.y * fb.rowSize < fb.wPixels * fb.hPixels := by
    rw [sized.area]
    exact Nat.mul_lt_mul_of_pos_right t.line sized.row_positive
  have line : wrap (t.y * fb.hFont * fb.wPixels) = t.y * fb.rowSize := by
    unfold rowSize at above ⊢
    rw [Nat.mul_assoc, wrap, Nat.mod_eq_of_lt (by omega)]
  have all : wrap (fb.wPixels * fb.hPixels) = fb.wPixels * fb.hPixels := Nat.mod_eq_of_lt small
  have ran : (fb.view mem t.x t.y).clearLines dir =
      (fb.view mem t.x t.y).loop (if dir = .forward then t.y * fb.rowSize else 0)
        (if dir = .backward then t.y * fb.rowSize else fb.wPixels * fb.hPixels) fun fb i => fb.writePixel i 0 := by
    rw [← line, ← all]
    rfl
  have inside : (if dir = .backward then t.y * fb.rowSize else fb.wPixels * fb.hPixels) ≤ fb.wPixels * fb.hPixels := by
    split
    · exact Nat.le_of_lt above
    · exact Nat.le_refl _
  refine ⟨_, ran.trans (blank_loop t.x t.y _ inside), ?_⟩
  intro c column l low i row j right
  have there := shows c column l low i row j right
  have within := sized.pixelAt_lt column low row right
  have before : fb.pixelAt c l i j < t.y * fb.rowSize ↔ l < t.y := by
    rw [pixelAt_eq]
    exact row_lt (sized.inRow column row right)
  unfold Screen.clearLines Screen.cleared
  dsimp only
  cases dir with
  | forward =>
      by_cases later : t.y ≤ l
      · rw [if_pos (by simp; omega), if_pos (by simpa using later)]
        rfl
      · rw [if_neg (by simp; omega), if_neg (by simpa using later), there]
  | backward =>
      by_cases earlier : l < t.y
      · rw [if_pos (by simp; omega), if_pos (by simpa using earlier)]
        rfl
      · rw [if_neg (by simp; omega), if_neg (by simpa using earlier), there]
  | both =>
      rw [if_pos (by simpa using within), if_pos rfl]
      rfl

/-! ## Drawing a character -/

theorem ink_colour (cmap : Vector UInt8 16) (g : Glyph) (lit : Bool) :
    cmap[if lit then g.fg else g.bg]? = some (cmap.get (g.ink lit)) := by
  cases lit with
  | false => exact Vector.getElem?_eq_getElem g.bg_lt
  | true => exact Vector.getElem?_eq_getElem g.fg_lt

theorem Sized.glyph_row (sized : fb.Sized) (g : Glyph) (row : i < fb.hFont) :
    fb.readFont (unsigned ((g.code : Int) * fb.hFont + i)) = some (fb.font (g.code * fb.hFont + i)) := by
  have space := sized.space
  have ascii := g.ascii
  have inside : g.code * fb.hFont + i < 256 * fb.hFont := (row_lt row).mpr (by omega)
  have value : (g.code : Int) * fb.hFont + i = (g.code * fb.hFont + i : Nat) := by push_cast; rfl
  have index : unsigned ((g.code : Int) * fb.hFont + i) = g.code * fb.hFont + i := by
    rw [value]
    unfold unsigned
    omega
  rw [index]
  exact if_pos inside

/-- Video memory after a row of a glyph. -/
def inked (fb : Framebuffer) (g : Glyph) (x y : Nat) (mem : Nat → UInt8) (i : Nat) : Nat → UInt8 :=
  (List.range fb.wFont).foldl
    (fun mem j => Function.update mem (fb.pixelAt x y i j) (fb.shade (.glyph g) i j)) mem

theorem putcRow_view (sized : fb.Sized) (g : Glyph) {x y : Nat} (column : x < fb.wChars) (line : y < fb.hChars)
    (row : i < fb.hFont) (mem : Nat → UInt8) :
    (fb.view mem x y).putcRow (y * fb.hFont + i) (x * fb.wFont) (fb.font (g.code * fb.hFont + i)) g.fg g.bg =
      some (fb.view (fb.inked g x y mem i) x y) := by
  refine foldlM_view (fun j member mem => ?_) mem
  have inside := sized.pixelAt_lt column line row (List.mem_range.mp member)
  have place : wrap (fb.pixelAt x y i j) = fb.pixelAt x y i j := Nat.mod_eq_of_lt (Nat.lt_trans inside sized.small)
  have colour := ink_colour fb.cmap g (fb.lit g.code i j)
  unfold lit at colour
  unfold pixelAt at place
  dsimp only [view]
  rw [colour, Option.bind_some, place]
  exact if_pos inside

theorem drawGlyph_view (sized : fb.Sized) (g : Glyph) {x y : Nat} (column : x < fb.wChars) (line : y < fb.hChars)
    (mem : Nat → UInt8) : (fb.view mem x y).drawGlyph g.code g.fg g.bg =
      some (fb.view ((List.range fb.hFont).foldl (fb.inked g x y) mem) x y) := by
  refine foldlM_view (fun i member mem => ?_) mem
  have row := List.mem_range.mp member
  have read : (fb.view mem x y).readFont (unsigned ((g.code : Int) * fb.hFont + i)) = some (fb.font (g.code * fb.hFont + i)) :=
    sized.glyph_row g row
  dsimp only [view] at read ⊢
  rw [read, Option.bind_some]
  exact putcRow_view sized g column line row mem

/-- The pixels of its cell are the glyph's. -/
theorem drawn_here (sized : fb.Sized) (g : Glyph) {x y : Nat} (column : x < fb.wChars) (row : i < fb.hFont)
    (right : j < fb.wFont) (mem : Nat → UInt8) :
    (List.range fb.hFont).foldl (fb.inked g x y) mem (fb.pixelAt x y i j) = fb.shade (.glyph g) i j := by
  refine foldl_written (List.mem_range.mpr row) (fun mem => ?_) (fun i' member other mem => ?_) mem
  · refine foldl_written (List.mem_range.mpr right) (fun mem => Function.update_self ..)
      (fun j' member other mem => Function.update_of_ne (fun same => other ?_) ..) mem
    exact (sized.pixelAt_inj column column row row right (List.mem_range.mp member) same).2.2.2.symm
  · refine foldl_kept (fun j' inside mem => Function.update_of_ne (fun same => other ?_) ..) mem
    exact (sized.pixelAt_inj column column row (List.mem_range.mp member) right (List.mem_range.mp inside)
      same).2.2.1.symm

/-- The pixels of the other cells are kept. -/
theorem drawn_elsewhere (sized : fb.Sized) (g : Glyph) {x y : Nat} (at_column : x < fb.wChars) (column : c < fb.wChars)
    (row : i < fb.hFont) (right : j < fb.wFont) (other : ¬ (c = x ∧ l = y)) (mem : Nat → UInt8) :
    (List.range fb.hFont).foldl (fb.inked g x y) mem (fb.pixelAt c l i j) = mem (fb.pixelAt c l i j) := by
  refine foldl_kept (fun i' member mem => ?_) mem
  refine foldl_kept (fun j' inside mem => Function.update_of_ne (fun same => other ?_) ..) mem
  obtain ⟨columns, lines, -⟩ := sized.pixelAt_inj column at_column row (List.mem_range.mp member) right
    (List.mem_range.mp inside) same
  exact ⟨columns, lines⟩

theorem drawGlyph_shows (sized : fb.Sized) (t : Screen fb.wChars fb.hChars) (shows : fb.Shows mem t.cell)
    (g : Glyph) : ∃ mem', (fb.view mem t.x t.y).drawGlyph g.code g.fg g.bg = some (fb.view mem' t.x t.y) ∧
      fb.Shows mem' (t.put g).cell := by
  refine ⟨_, drawGlyph_view sized g t.column t.line mem, ?_⟩
  intro c column l low i row j right
  unfold Screen.put
  dsimp only
  by_cases here : c = t.x ∧ l = t.y
  · rw [if_pos here, here.1, here.2]
    exact drawn_here sized g t.column row right mem
  · rw [if_neg here, drawn_elsewhere sized g t.column column row right here mem]
    exact shows c column l low i row j right

/-! ## The cursor -/

/-- A new line at the foot of the screen. -/
theorem foot_shows (sized : fb.Sized) (whole : 4 ∣ fb.rowSize) (t : Screen fb.wChars fb.hChars)
    (shows : fb.Shows mem t.cell) {x y : Nat} (last : ¬ t.y + 1 < fb.hChars) :
    ∃ mem', (fb.view mem x y).scrollUp 1 = some (fb.view mem' x y) ∧ fb.Shows mem' t.newline.cell := by
  have feed : t.newline = t.carriageReturn.shiftUp 1 := dif_neg last
  rw [feed]
  exact scrollUp_shows sized whole sized.lines shows x y

theorem newline_at (t : Screen fb.wChars fb.hChars) :
    t.newline.x = 0 ∧ t.newline.y = if t.y + 1 < fb.hChars then t.y + 1 else t.y := by
  unfold Screen.newline
  split
  · exact ⟨rfl, rfl⟩
  · exact ⟨rfl, rfl⟩

theorem newline_cell (t : Screen fb.wChars fb.hChars) (room : t.y + 1 < fb.hChars) : t.newline.cell = t.cell := by
  have feed : t.newline = { t.carriageReturn with y := t.y + 1, line := room } := dif_pos room
  rw [feed]
  rfl

theorem newline_shows (sized : fb.Sized) (whole : 4 ∣ fb.rowSize) (t : Screen fb.wChars fb.hChars)
    (shows : fb.Shows mem t.cell) (fg bg : Nat) :
    ∃ mem', (fb.view mem t.x t.y).putc '\n'.toNat fg bg = some (fb.view mem' t.newline.x t.newline.y) ∧
      fb.Shows mem' t.newline.cell := by
  have few := sized.few_lines
  have line := t.line
  have next : wrap (t.y + 1) = t.y + 1 := Nat.mod_eq_of_lt (by omega)
  have ran : (fb.view mem t.x t.y).putc '\n'.toNat fg bg =
      if wrap (t.y + 1) = fb.hChars then
        ((fb.view mem 0 (wrap (t.y + 1))).scrollUp 1).map fun fb =>
          { fb with cursorY := unsigned ((fb.cursorY : Int) - 1) }
      else some (fb.view mem 0 (wrap (t.y + 1))) := rfl
  obtain ⟨column, row⟩ := newline_at t
  rw [ran, next, column, row]
  by_cases room : t.y + 1 < fb.hChars
  · rw [if_neg (by omega), if_pos room, newline_cell t room]
    exact ⟨mem, rfl, shows⟩
  · obtain ⟨mem', scrolled, shows'⟩ := foot_shows sized whole t shows room (x := 0) (y := t.y + 1)
    have back : unsigned (((t.y + 1 : Nat) : Int) - 1) = t.y := by
      unfold unsigned
      omega
    refine ⟨mem', ?_, shows'⟩
    rw [if_pos (by omega), if_neg room, scrolled, Option.map_some]
    change some (fb.view mem' 0 (unsigned (((t.y + 1 : Nat) : Int) - 1))) = _
    rw [back]

theorem next_shows (sized : fb.Sized) (whole : 4 ∣ fb.rowSize) (t : Screen fb.wChars fb.hChars)
    (shows : fb.Shows mem t.cell) :
    ∃ mem', (if (fb.view mem t.x t.y).advance.hChars ≤ (fb.view mem t.x t.y).advance.cursorY then
        ((fb.view mem t.x t.y).advance.scrollUp 1).map fun fb =>
          { fb with cursorY := unsigned ((fb.hChars : Int) - 1) }
      else some (fb.view mem t.x t.y).advance) = some (fb.view mem' t.next.x t.next.y) ∧
      fb.Shows mem' t.next.cell := by
  have few := sized.few_lines
  have many := sized.few_columns
  have line := t.line
  have column := t.column
  have right : wrap (t.x + 1) = t.x + 1 := Nat.mod_eq_of_lt (by omega)
  have below : wrap (t.y + 1) = t.y + 1 := Nat.mod_eq_of_lt (by omega)
  have moves : (fb.view mem t.x t.y).advance =
      if fb.wChars ≤ wrap (t.x + 1) then fb.view mem 0 (wrap (t.y + 1)) else fb.view mem (wrap (t.x + 1)) t.y := rfl
  rw [moves, right, below]
  by_cases room : t.x + 1 < fb.wChars
  · have next : t.next = { t with x := t.x + 1, column := room } := dif_pos room
    rw [if_neg (Nat.not_le.mpr room), next]
    have inside : ¬ (fb.view mem (t.x + 1) t.y).hChars ≤ (fb.view mem (t.x + 1) t.y).cursorY :=
      Nat.not_le.mpr line
    exact ⟨mem, if_neg inside, shows⟩
  · have next : t.next = t.newline := dif_neg room
    obtain ⟨start, row⟩ := newline_at t
    rw [if_pos (Nat.not_lt.mp room), next, start, row]
    by_cases more : t.y + 1 < fb.hChars
    · have inside : ¬ (fb.view mem 0 (t.y + 1)).hChars ≤ (fb.view mem 0 (t.y + 1)).cursorY :=
        Nat.not_le.mpr more
      rw [if_neg inside, if_pos more, newline_cell t more]
      exact ⟨mem, rfl, shows⟩
    · have outside : (fb.view mem 0 (t.y + 1)).hChars ≤ (fb.view mem 0 (t.y + 1)).cursorY :=
        Nat.not_lt.mp more
      obtain ⟨mem', scrolled, shows'⟩ := foot_shows sized whole t shows more (x := 0) (y := t.y + 1)
      have last : unsigned ((fb.hChars : Int) - 1) = t.y := by
        unfold unsigned
        omega
      refine ⟨mem', ?_, shows'⟩
      rw [if_pos outside, if_neg more, scrolled, Option.map_some, ← last]
      rfl

theorem putc_shows (sized : fb.Sized) (whole : 4 ∣ fb.rowSize) (t : Screen fb.wChars fb.hChars)
    (shows : fb.Shows mem t.cell) {character : Int} {fg bg : Nat} {t' : Screen fb.wChars fb.hChars}
    (put : t.putc character fg bg = some t') :
    ∃ mem', (fb.view mem t.x t.y).putc character fg bg = some (fb.view mem' t'.x t'.y) ∧ fb.Shows mem' t'.cell := by
  unfold Screen.putc at put
  by_cases newline : character = '\n'.toNat
  · rw [if_pos newline] at put
    obtain rfl := Option.some.inj put
    rw [newline]
    exact newline_shows sized whole t shows fg bg
  · rw [if_neg newline] at put
    by_cases return' : character = '\r'.toNat
    · rw [if_pos return'] at put
      obtain rfl := Option.some.inj put
      refine ⟨mem, ?_, shows⟩
      unfold putc
      rw [if_neg newline, if_pos return']
      rfl
    · rw [if_neg return'] at put
      obtain ⟨g, found, rfl⟩ := Option.map_eq_some_iff.mp put
      obtain ⟨rfl, rfl, rfl⟩ : (g.code : Int) = character ∧ g.fg = fg ∧ g.bg = bg := by
        unfold Screen.glyphOf at found
        split_ifs at found with fits low
        obtain rfl := Option.some.inj found
        exact ⟨Int.toNat_of_nonneg low, rfl, rfl⟩
      obtain ⟨mem', drawn, shows'⟩ := drawGlyph_shows sized t shows g
      unfold putc
      rw [if_neg newline, if_neg return', putcRaw, drawn, Option.bind_some]
      exact next_shows sized whole (t.put g) shows'

/-! ## The refinement -/

/-- The framebuffer shows the grid, with the cursor in the same place. -/
def Renders (fb : Framebuffer) (b : Option Framebuffer) (t : Screen fb.wChars fb.hChars) : Prop :=
  ∃ mem, b = some (fb.view mem t.x t.y) ∧ fb.Shows mem t.cell

theorem refines_grid (sized : fb.Sized) (whole : 4 ∣ fb.rowSize) :
    Refines consoleFb (grid fb.wChars fb.hChars) fb.Renders where
  stuck := fun k => by cases k <;> rfl
  cursor := by
    rintro b t ⟨mem, rfl, -⟩
    rfl
  call := by
    rintro b t t' k ⟨mem, rfl, shows⟩ called
    cases k with
    | putc character fg bg => exact putc_shows sized whole t shows called
    | setCursor x y =>
        have moved : t.setCursor x y = some t' := called
        unfold Screen.setCursor at moved
        split_ifs at moved
        obtain rfl := Option.some.inj moved
        exact ⟨mem, rfl, shows⟩
    | clearLines dir =>
        obtain rfl : t.clearLines dir = t' := Option.some.inj called
        exact clearLines_shows sized t shows dir
    | clearOnLine dir =>
        obtain rfl : t = t' := Option.some.inj called
        exact ⟨mem, rfl, shows⟩
    | scrollUp lines =>
        have scrolled : t.scrollUp lines = some t' := called
        unfold Screen.scrollUp at scrolled
        split_ifs at scrolled with few
        obtain rfl := Option.some.inj scrolled
        exact scrollUp_shows sized whole few shows t.x t.y
    | scrollDown lines =>
        have scrolled : t.scrollDown lines = some t' := called
        unfold Screen.scrollDown at scrolled
        split_ifs at scrolled with few
        obtain rfl := Option.some.inj scrolled
        exact scrollDown_shows sized whole few.1 few.2 shows t.x t.y

/-- What the screen holds, as a grid. -/
def InScreen.grid {fb : Framebuffer} (screen : fb.InScreen) : Screen fb.wChars fb.hChars :=
  ⟨fb.pictures fb.fbMem, fb.cursorX, fb.cursorY, screen.column, screen.line⟩

theorem InScreen.renders (screen : fb.InScreen) : fb.Renders (some fb) screen.grid :=
  ⟨fb.fbMem, rfl, fb.shows_pictures fb.fbMem⟩

/-- Whatever is written, in however many writes: as long as the grid keeps up, every pixel of the screen
is what the grid says, and the cursor, the parser and the colours are those of the console on the grid. -/
theorem console_renders (screen : fb.InScreen) (whole : 4 ∣ fb.rowSize) {bufs : List (List UInt8)}
    {t : State (Option (Screen fb.wChars fb.hChars))} {g : Screen fb.wChars fb.hChars}
    (ran : (boot (some screen.grid)).writes (Console.grid fb.wChars fb.hChars) bufs = some t)
    (kept : t.backend = some g) :
    ∃ mem, (boot (some fb)).writes consoleFb bufs = some (t.onScreen (some (fb.view mem g.x g.y))) ∧
      fb.Shows mem g.cell := by
  obtain ⟨b, ran', mem, rfl, shows⟩ := State.writes_refine (refines_grid screen.sized whole) screen.renders ran kept
  exact ⟨mem, ran', shows⟩

theorem bootScreen_whole : 4 ∣ bootScreen.rowSize := by decide

/-- `A`, then a sequence that clears the lines above the cursor, in two writes. -/
theorem console_renders_letter : ∃ t g mem,
    (boot (some bootScreen_inScreen.grid)).writes (Console.grid 100 30) [[65, 27], [91, 49, 74]] = some t ∧
      t.backend = some g ∧ g.x = 1 ∧
      (boot (some bootScreen)).writes consoleFb [[65, 27], [91, 49, 74]] =
        some (t.onScreen (some (bootScreen.view mem g.x g.y))) ∧ bootScreen.Shows mem g.cell := by
  obtain ⟨mem, ran, shows⟩ := @console_renders bootScreen bootScreen_inScreen bootScreen_whole
    [[65, 27], [91, 49, 74]] _ _ rfl rfl
  exact ⟨_, _, mem, rfl, rfl, rfl, ran, shows⟩

end Framebuffer

end TrollOS.Console
