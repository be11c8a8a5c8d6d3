import TrollOS.Console.Rendering

/-!
# Text on paper

Plain text goes through the console as through a typewriter with an endless roll of paper: the screen
shows the last lines of it.
-/

namespace TrollOS.Console

open TrollOS.Lib

/-- What is typed, by position: `columns` positions make a row. -/
structure Paper where
  position : Nat
  typed : Nat → Option Glyph

/-- A byte that is no escape and has a glyph, or moves the carriage. -/
def Plain (byte : UInt8) : Prop := byte < 128 ∧ byte ≠ 27

namespace Paper

variable (columns lines : Nat)

def fresh (x y : Nat) : Paper := ⟨y * columns + x, fun _ => none⟩

def row (p : Paper) : Nat := p.position / columns

def type (p : Paper) (byte : UInt8) : Paper :=
  if byte = 10 then { p with position := (p.row columns + 1) * columns }
  else if byte = 13 then { p with position := p.row columns * columns }
  else ⟨p.position + 1, Function.update p.typed p.position (Screen.glyphOf (toChar byte) lightGray black)⟩

/-- The rows that have left the screen. -/
def rolled (p : Paper) : Nat := p.row columns + 1 - lines

/-- A cell of the screen: what is typed there, or what has been there before the paper came. -/
def cell (p : Paper) (base : Nat → Nat → Cell) (c l : Nat) : Cell :=
  (p.typed ((l + p.rolled columns lines) * columns + c)).elim
    (if l + p.rolled columns lines < lines then base c (l + p.rolled columns lines) else .blank) .glyph

end Paper

/-- The screen shows the end of the paper, with nothing typed beyond the row of the cursor. -/
structure OnPaper {columns lines : Nat} (base : Nat → Nat → Cell) (t : Screen columns lines) (p : Paper) :
    Prop where
  column : t.x = p.position % columns
  line : t.y = min (p.row columns) (lines - 1)
  cells : ∀ c, c < columns → ∀ l, l < lines → t.cell c l = p.cell columns lines base c l
  ahead : ∀ k, (p.row columns + 1) * columns ≤ k → p.typed k = none

namespace OnPaper

variable {columns lines : Nat} {base : Nat → Nat → Cell} {t : Screen columns lines} {p : Paper}

theorem fresh (t : Screen columns lines) : OnPaper t.cell t (Paper.fresh columns t.x t.y) := by
  have column := t.column
  have line := t.line
  have row : (Paper.fresh columns t.x t.y).row columns = t.y := by
    unfold Paper.row Paper.fresh
    rw [Nat.mul_comm, Nat.mul_add_div (Nat.zero_lt_of_lt column), Nat.div_eq_of_lt column, Nat.add_zero]
  have still : (Paper.fresh columns t.x t.y).rolled columns lines = 0 := by
    unfold Paper.rolled
    rw [row]
    omega
  refine ⟨?_, ?_, fun c _ l low => ?_, fun _ _ => rfl⟩
  · unfold Paper.fresh
    rw [Nat.mul_comm, Nat.mul_add_mod, Nat.mod_eq_of_lt column]
  · rw [row]
    omega
  · unfold Paper.cell
    rw [still, Nat.add_zero, if_pos low]
    rfl

/-- Where the cursor is on the paper. -/
theorem position_eq (on : OnPaper base t p) : p.position = p.row columns * columns + t.x := by
  rw [on.column]
  exact (Nat.div_add_mod' p.position columns).symm

theorem row_eq (on : OnPaper base t p) : p.row columns = t.y + p.rolled columns lines := by
  have line := on.line
  have inside := t.line
  unfold Paper.rolled
  omega

/-- The carriage moves within its row. -/
theorem shift (on : OnPaper base t p) {x : Nat} (column : x < columns) :
    OnPaper base { t with x := x, column := column } { p with position := p.row columns * columns + x } := by
  have row : ({ p with position := p.row columns * columns + x } : Paper).row columns = p.row columns := by
    unfold Paper.row
    rw [Nat.mul_comm, Nat.mul_add_div (Nat.zero_lt_of_lt column), Nat.div_eq_of_lt column, Nat.add_zero]
  refine ⟨?_, ?_, fun c small l low => ?_, fun k beyond => ?_⟩
  · rw [Nat.mul_comm, Nat.mul_add_mod, Nat.mod_eq_of_lt column]
  · rw [row]
    exact on.line
  · have there := on.cells c small l low
    unfold Paper.cell Paper.rolled at there ⊢
    rw [row]
    exact there
  · rw [row] at beyond
    exact on.ahead k beyond

/-- A new row, and the paper may roll. -/
theorem feed (on : OnPaper base t p) :
    OnPaper base t.newline { p with position := (p.row columns + 1) * columns } := by
  have columns_pos := Nat.zero_lt_of_lt t.column
  have inside := t.line
  have line := on.line
  have row : ({ p with position := (p.row columns + 1) * columns } : Paper).row columns = p.row columns + 1 :=
    Nat.mul_div_cancel _ columns_pos
  have ahead : ∀ k, (p.row columns + 1 + 1) * columns ≤ k → p.typed k = none := fun k beyond =>
    on.ahead k (Nat.le_trans (Nat.mul_le_mul_right columns (Nat.le_succ _)) beyond)
  have start : 0 = (p.row columns + 1) * columns % columns := (Nat.mul_mod_left _ _).symm
  unfold Screen.newline
  split
  · next room =>
      have still : p.row columns + 1 + 1 - lines = p.row columns + 1 - lines := by omega
      refine ⟨start, ?_, fun c small l low => ?_, fun k beyond => ahead k (row ▸ beyond)⟩
      · rw [row]
        change t.y + 1 = _
        omega
      · have there := on.cells c small l low
        unfold Paper.cell Paper.rolled at there ⊢
        rw [row, still]
        exact there
  · next full =>
      have on_row := on.row_eq
      have roll : p.row columns + 1 + 1 - lines = p.rolled columns lines + 1 := by
        unfold Paper.rolled
        omega
      refine ⟨start, ?_, fun c small l low => ?_, fun k beyond => ahead k (row ▸ beyond)⟩
      · rw [row]
        change t.y = _
        omega
      · have next : l + (p.rolled columns lines + 1) = l + 1 + p.rolled columns lines := by omega
        unfold Paper.cell Screen.shiftUp
        change (if l + 1 < lines then t.cell c (l + 1) else .blank) = _
        unfold Paper.rolled
        rw [row, roll, next]
        by_cases more : l + 1 < lines
        · rw [if_pos more]
          exact on.cells c small (l + 1) more
        · have last : l + 1 + p.rolled columns lines = p.row columns + 1 := by omega
          have blank : ¬ l + 1 + p.rolled columns lines < lines := by omega
          rw [if_neg more, if_neg blank, on.ahead _ (by rw [last]; omega)]
          rfl

/-- A character in the cell of the cursor. -/
theorem put (on : OnPaper base t p) (g : Glyph) :
    OnPaper base (t.put g) { p with typed := Function.update p.typed p.position (some g) } := by
  have column := t.column
  have position := on.position_eq
  have row := on.row_eq
  refine ⟨on.column, on.line, fun c small l low => ?_, fun k beyond => ?_⟩
  · have there := on.cells c small l low
    unfold Paper.cell at there ⊢
    unfold Screen.put
    dsimp only
    by_cases here : c = t.x ∧ l = t.y
    · have same : (l + p.rolled columns lines) * columns + c = p.position := by
        rw [position, row, here.1, here.2]
      rw [if_pos here]
      change _ = (Function.update p.typed p.position (some g) ((l + p.rolled columns lines) * columns + c)).elim _ _
      rw [same, Function.update_self]
      rfl
    · have other : (l + p.rolled columns lines) * columns + c ≠ p.position := by
        intro same
        rw [position, row] at same
        obtain ⟨lines', columns'⟩ := Framebuffer.digits_unique small column same
        exact here ⟨columns', Nat.add_right_cancel lines'⟩
      rw [if_neg here, there]
      change _ = (Function.update p.typed p.position (some g) ((l + p.rolled columns lines) * columns + c)).elim _ _
      rw [Function.update_of_ne other]
      rfl
  · have other : k ≠ p.position := by
      change (p.row columns + 1) * columns ≤ k at beyond
      rw [Nat.add_mul, Nat.one_mul] at beyond
      omega
    change Function.update p.typed p.position (some g) k = none
    rw [Function.update_of_ne other]
    exact on.ahead k beyond

/-- To the next position. -/
theorem next (on : OnPaper base t p) : OnPaper base t.next { p with position := p.position + 1 } := by
  have position := on.position_eq
  unfold Screen.next
  split
  · next room =>
      have moved := on.shift room
      rw [← Nat.add_assoc, ← position] at moved
      exact moved
  · next full =>
      have column := t.column
      have fed := on.feed
      have wraps : (p.row columns + 1) * columns = p.position + 1 := by
        rw [Nat.add_mul, Nat.one_mul]
        omega
      rw [wraps] at fed
      exact fed

/-- A byte on the screen is a byte on the paper. -/
theorem type (on : OnPaper base t p) {byte : UInt8} (plain : Plain byte) :
    ∃ t', t.putc (toChar byte) lightGray black = some t' ∧ OnPaper base t' (p.type columns byte) := by
  obtain ⟨ascii, -⟩ := plain
  have small : byte.toNat < 128 := UInt8.lt_iff_toNat_lt.mp ascii
  have char : toChar byte = byte.toNat := if_pos ascii
  have is (n : Nat) (known : n < 256) : (toChar byte = n) ↔ byte = UInt8.ofNat n := by
    rw [char, Nat.cast_inj, ← UInt8.toNat_inj, UInt8.toNat_ofNat', Nat.mod_eq_of_lt known]
  have feeds : toChar byte = '\n'.toNat ↔ byte = 10 := is '\n'.toNat (by decide)
  have returns : toChar byte = '\r'.toNat ↔ byte = 13 := is '\r'.toNat (by decide)
  unfold Screen.putc Paper.type
  by_cases newline : byte = 10
  · rw [if_pos (feeds.mpr newline), if_pos newline]
    exact ⟨_, rfl, on.feed⟩
  · rw [if_neg (mt feeds.mp newline), if_neg newline]
    by_cases return' : byte = 13
    · rw [if_pos (returns.mpr return'), if_pos return']
      exact ⟨_, rfl, on.shift (Nat.zero_lt_of_lt t.column)⟩
    · rw [if_neg (mt returns.mp return'), if_neg return']
      have fits : (toChar byte).toNat < 128 ∧ lightGray < 16 ∧ black < 16 := by
        rw [char, Int.toNat_natCast]
        exact ⟨small, by decide, by decide⟩
      have low : 0 ≤ toChar byte := by
        rw [char]
        exact Int.natCast_nonneg _
      obtain ⟨g, glyph⟩ : ∃ g, Screen.glyphOf (toChar byte) lightGray black = some g := by
        unfold Screen.glyphOf
        rw [dif_pos fits, if_pos low]
        exact ⟨_, rfl⟩
      rw [glyph]
      exact ⟨_, rfl, (on.put g).next⟩

end OnPaper

/-- Outside of a sequence the console only hands a byte on. -/
theorem boot_writeByte {β : Type} (ops : Backend β) (screen : β) {byte : UInt8} (plain : Plain byte) :
    (boot screen).writeByte ops byte = some (boot (ops.putc screen (toChar byte) lightGray black)) := by
  have char : toChar byte = byte.toNat := if_pos plain.1
  have ordinary : toChar byte ≠ 27 := by
    intro escape
    rw [char] at escape
    exact plain.2 (UInt8.toNat_inj.mp (Int.ofNat_inj.mp escape))
  exact if_neg ordinary

theorem text_types {columns lines : Nat} {base : Nat → Nat → Cell} {text : List UInt8}
    (plain : ∀ byte ∈ text, Plain byte) {t : Screen columns lines} {p : Paper} (on : OnPaper base t p) :
    ∃ t', text.foldlM (State.writeByte (grid columns lines)) (boot (some t)) = some (boot (some t')) ∧
      OnPaper base t' (text.foldl (Paper.type columns) p) := by
  induction text generalizing t p with
  | nil => exact ⟨t, rfl, on⟩
  | cons byte rest ih =>
      obtain ⟨t₁, put, on₁⟩ := on.type (plain byte List.mem_cons_self)
      obtain ⟨t₂, ran, on₂⟩ := ih (fun later member => plain later (List.mem_cons_of_mem _ member)) on₁
      refine ⟨t₂, ?_, on₂⟩
      have handed : (grid columns lines).putc (some t) (toChar byte) lightGray black = some t₁ := put
      rw [List.foldlM_cons, boot_writeByte _ _ (plain byte List.mem_cons_self), handed]
      exact ran

/-- Plain text of any length, in however many writes: the screen shows the end of the paper that it is
typed on, the cursor is where the carriage is, and the console is as it was. -/
theorem text_on_paper {fb : Framebuffer} (screen : fb.InScreen) (whole : 4 ∣ fb.rowSize) {bufs : List (List UInt8)}
    (plain : ∀ byte ∈ bufs.flatten, Plain byte) :
    ∃ mem p, p = bufs.flatten.foldl (Paper.type fb.wChars) (Paper.fresh fb.wChars fb.cursorX fb.cursorY) ∧
      (boot (some fb)).writes consoleFb bufs = some (boot (some
        (fb.view mem (p.position % fb.wChars) (min (p.row fb.wChars) (fb.hChars - 1))))) ∧
      fb.Shows mem (p.cell fb.wChars fb.hChars (fb.pictures fb.fbMem)) := by
  obtain ⟨t', ran, on⟩ := text_types plain (OnPaper.fresh screen.grid)
  rw [← State.writes_eq] at ran
  obtain ⟨b, ran', mem, rfl, shows⟩ :=
    State.writes_refine (Framebuffer.refines_grid screen.sized whole) screen.renders ran rfl
  rw [on.column, on.line] at ran'
  refine ⟨mem, _, rfl, ran', fun c column l line i row j right => ?_⟩
  have there := shows c column l line i row j right
  rw [on.cells c column l line] at there
  exact there

/-- `Hi` and a new line. -/
theorem text_on_paper_line : ∃ mem p,
    p = [72, 105, 10].foldl (Paper.type 100) (Paper.fresh 100 0 0) ∧
      (boot (some bootScreen)).writes consoleFb [[72, 105], [10]] = some (boot (some
        (bootScreen.view mem (p.position % 100) (min (p.row 100) 29)))) ∧
      bootScreen.Shows mem (p.cell 100 30 (bootScreen.pictures bootScreen.fbMem)) :=
  @text_on_paper bootScreen bootScreen_inScreen Framebuffer.bootScreen_whole [[72, 105], [10]]
    fun byte member => by
      rcases List.mem_cons.mp member with rfl | member
      · exact ⟨by decide, by decide⟩
      · rcases List.mem_cons.mp member with rfl | member
        · exact ⟨by decide, by decide⟩
        · rw [List.mem_singleton.mp member]
          exact ⟨by decide, by decide⟩

end TrollOS.Console
