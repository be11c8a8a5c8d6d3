import TrollOS.Console.Sequences

/-!
# Relative movement of the cursor

`_csi` adds the count to an unsigned coordinate or subtracts it, and `_set_cursor` reduces the
result modulo one more than the size of the screen.  That is the clamped movement as long as
the count does not reach the edge, and beyond it by coincidence only.
-/

namespace TrollOS.Console

/-- The commands that move the cursor from where it is. -/
def Command.Relative : Command → Prop
  | .up | .down | .right | .left | .nextLine | .previousLine => True
  | _ => False

/-- Where a movement by `n` should end: at the edge of the screen at the latest. -/
def clamped (fb : Framebuffer) (n : Nat) : Command → Nat × Nat
  | .up => (fb.cursorX, fb.cursorY - n)
  | .down => (fb.cursorX, min (fb.cursorY + n) (fb.hChars - 1))
  | .right => (min (fb.cursorX + n) (fb.wChars - 1), fb.cursorY)
  | .left => (fb.cursorX - n, fb.cursorY)
  | .nextLine => (0, min (fb.cursorY + n) (fb.hChars - 1))
  | .previousLine => (0, fb.cursorY - n)
  | _ => (fb.cursorX, fb.cursorY)

/-- The count in an `int`; where it is not positive, 1. -/
def counted (n : Nat) : Int := count [signed n]

/-- A count that stays on the screen, or one that is folded back onto the last position. -/
def Forwards (limit position n : Nat) : Prop :=
  (position + n < limit ∧ n ≤ 2147483647) ∨
    (limit ≤ position + n ∧ limit + 1 ∣ unsigned (position + counted n) + 2)

/-- A count that stays on the screen, or one that is folded back onto position 0. -/
def Backwards (limit start position n : Nat) : Prop :=
  (n ≤ position ∧ n ≤ 2147483647) ∨ (position < n ∧ limit + 1 ∣ unsigned (start - counted n))

/-- When a movement by `n` ends where it should. -/
def Saturates (fb : Framebuffer) (n : Nat) : Command → Prop
  | .up => fb.cursorY = 0 ∨ Backwards fb.hChars fb.cursorY fb.cursorY n
  | .down | .nextLine => Forwards fb.hChars fb.cursorY n
  | .right => Forwards fb.wChars fb.cursorX n
  | .left => fb.cursorX = 0 ∨ Backwards fb.wChars fb.cursorX fb.cursorX n
  | .previousLine => Backwards fb.hChars (max fb.cursorY 1) fb.cursorY n
  | _ => True

section Fold

variable {limit start position n : Nat}

theorem counted_small (positive : 1 ≤ n) (small : n ≤ 2147483647) : counted n = n := by
  unfold counted count
  rw [List.headD_cons, signed_eq small, if_pos (by omega)]

/-- A count that an `int` holds as a negative number. -/
theorem counted_large (large : 2147483647 < n) (word : n < 4294967296) : counted n = 1 := by
  have negative : signed n ≤ 0 := by
    unfold signed
    rw [Int.bmod_def]
    omega
  unfold counted count
  rw [List.headD_cons, if_neg (by omega)]

/-- The remainder next to the largest. -/
theorem mod_last (positive : 0 < limit) (x : Nat) : x % (limit + 1) = limit - 1 ↔ limit + 1 ∣ x + 2 := by
  have below := Nat.mod_lt x (Nat.succ_pos limit)
  rw [Nat.dvd_iff_mod_eq_zero, ← Nat.mod_add_mod]
  generalize x % (limit + 1) = r at below
  constructor
  · intro last
    have whole : r + 2 = limit + 1 := by omega
    rw [whole, Nat.mod_self]
  · intro zero
    by_cases less : r + 2 < limit + 1
    · rw [Nat.mod_eq_of_lt less] at zero
      omega
    · have rest : (r + 2) % (limit + 1) = (r + 2 - (limit + 1)) := by
        rw [Nat.mod_eq_sub_mod (by omega), Nat.mod_eq_of_lt (by omega)]
      omega

/-- Down or to the right. -/
theorem forwards_iff (inside : position < limit) (word : limit < 4294967296) (positive : 1 ≤ n) :
    unsigned (position + counted n) % (limit + 1) = min (position + n) (limit - 1) ↔
      Forwards limit position n := by
  unfold Forwards
  by_cases short : position + n < limit
  · have least : min (position + n) (limit - 1) = position + n := Nat.min_eq_left (by omega)
    rw [least]
    by_cases small : n ≤ 2147483647
    · have sum : unsigned (position + counted n) = position + n := by
        rw [counted_small positive small]
        unfold unsigned
        omega
      rw [sum, Nat.mod_eq_of_lt (by omega)]
      exact ⟨fun _ => .inl ⟨short, small⟩, fun _ => rfl⟩
    · have sum : unsigned (position + counted n) = position + 1 := by
        rw [counted_large (by omega) (by omega)]
        unfold unsigned
        omega
      rw [sum, Nat.mod_eq_of_lt (by omega)]
      omega
  · have least : min (position + n) (limit - 1) = limit - 1 := Nat.min_eq_right (by omega)
    rw [least, mod_last (by omega)]
    constructor
    · exact fun divides => .inr ⟨Nat.not_lt.mp short, divides⟩
    · rintro (⟨less, -⟩ | ⟨-, divides⟩)
      · exact absurd less short
      · exact divides

/-- Up or to the left. -/
theorem backwards_iff (inside : position < limit) (word : limit < 4294967296) (positive : 1 ≤ n)
    (starts : 0 < position → start = position) :
    unsigned (start - counted n) % (limit + 1) = position - n ↔ Backwards limit start position n := by
  unfold Backwards
  by_cases short : n ≤ position
  · obtain rfl := starts (by omega)
    by_cases small : n ≤ 2147483647
    · have difference : unsigned (start - counted n) = start - n := by
        rw [counted_small positive small]
        unfold unsigned
        omega
      rw [difference, Nat.mod_eq_of_lt (by omega)]
      exact ⟨fun _ => .inl ⟨short, small⟩, fun _ => rfl⟩
    · have difference : unsigned (start - counted n) = start - 1 := by
        rw [counted_large (by omega) (by omega)]
        unfold unsigned
        omega
      rw [difference, Nat.mod_eq_of_lt (by omega)]
      omega
  · have zero : position - n = 0 := by omega
    rw [zero, ← Nat.dvd_iff_mod_eq_zero]
    constructor
    · exact fun divides => .inr ⟨by omega, divides⟩
    · rintro (⟨less, -⟩ | ⟨-, divides⟩)
      · exact absurd less short
      · exact divides

end Fold

section Sequence

variable {s : State (Option Framebuffer)} {fb : Framebuffer} {n : Nat}

def cursorOf (s : State (Option Framebuffer)) : Option (Nat × Nat) :=
  s.backend.map fun fb => (fb.cursorX, fb.cursorY)

theorem cursorOf_setCursor (backend : s.backend = some fb) (x y : Int) :
    cursorOf (s.setCursor consoleFb x y) =
      some (unsigned x % (fb.wChars + 1), unsigned y % (fb.hChars + 1)) := by
  unfold cursorOf State.setCursor
  rw [backend]
  rfl

/-- A coordinate on the screen stays as it is. -/
theorem fold_same {limit position : Nat} (inside : position < limit) (word : limit < 4294967296) :
    unsigned position % (limit + 1) = position := by
  have same : unsigned position = position := by
    unfold unsigned
    omega
  rw [same, Nat.mod_eq_of_lt (by omega)]

/-- The cursor after a movement is the clamped one under the condition only. -/
theorem effect_saturates (backend : s.backend = some fb) (screen : fb.InScreen) (positive : 1 ≤ n)
    {cmd : Command} (relative : cmd.Relative) :
    cursorOf (s.effect consoleFb [stored (some n)] cmd) = some (clamped fb n cmd) ↔ Saturates fb n cmd := by
  have columns := screen.sized.few_columns
  have lines := screen.sized.few_lines
  have column := screen.column
  have line := screen.line
  have cursor : consoleFb.getCursor s.backend = (fb.cursorX, fb.cursorY) := by
    rw [backend]
    rfl
  have counts : count [stored (some n)] = counted n := rfl
  have zero (limit : Nat) : unsigned 0 % (limit + 1) = 0 := Nat.zero_mod _
  have sameX := fold_same column columns
  have sameY := fold_same line lines
  have here : cursorOf s = some (fb.cursorX, fb.cursorY) := by
    unfold cursorOf
    rw [backend]
    rfl
  unfold State.effect
  cases cmd with
  | up =>
      dsimp only [Saturates, clamped]
      rw [cursor, counts]
      by_cases top : fb.cursorY = 0
      · rw [if_pos top, here, top, Nat.zero_sub]
        exact ⟨fun _ => .inl rfl, fun _ => rfl⟩
      · rw [if_neg top, cursorOf_setCursor backend, sameX, Option.some_inj, Prod.mk.injEq,
          backwards_iff line lines positive fun _ => rfl]
        exact ⟨fun both => .inr both.2, fun either => ⟨rfl, either.resolve_left top⟩⟩
  | down =>
      dsimp only [Saturates, clamped]
      rw [cursor, counts, cursorOf_setCursor backend, sameX, Option.some_inj, Prod.mk.injEq,
        forwards_iff line lines positive]
      exact ⟨fun both => both.2, fun holds => ⟨rfl, holds⟩⟩
  | right =>
      dsimp only [Saturates, clamped]
      rw [cursor, counts, cursorOf_setCursor backend, sameY, Option.some_inj, Prod.mk.injEq,
        forwards_iff column columns positive]
      exact ⟨fun both => both.1, fun holds => ⟨holds, rfl⟩⟩
  | left =>
      dsimp only [Saturates, clamped]
      rw [cursor, counts]
      by_cases edge : fb.cursorX = 0
      · rw [if_pos edge, here, edge, Nat.zero_sub]
        exact ⟨fun _ => .inl rfl, fun _ => rfl⟩
      · rw [if_neg edge, cursorOf_setCursor backend, sameY, Option.some_inj, Prod.mk.injEq,
          backwards_iff column columns positive fun _ => rfl]
        exact ⟨fun both => .inr both.1, fun either => ⟨either.resolve_left edge, rfl⟩⟩
  | nextLine =>
      dsimp only [Saturates, clamped]
      rw [cursor, counts, cursorOf_setCursor backend, zero, Option.some_inj, Prod.mk.injEq,
        forwards_iff line lines positive]
      exact ⟨fun both => both.2, fun holds => ⟨rfl, holds⟩⟩
  | previousLine =>
      have start : (if fb.cursorY = 0 then 1 else fb.cursorY) = max fb.cursorY 1 := by
        split
        · next top => rw [top]; rfl
        · next away => exact (Nat.max_eq_left (Nat.one_le_iff_ne_zero.mpr away)).symm
      dsimp only [Saturates, clamped]
      rw [cursor, counts]
      dsimp only
      rw [start, cursorOf_setCursor backend, zero, Option.some_inj, Prod.mk.injEq,
        backwards_iff line lines positive fun some => Nat.max_eq_left some]
      exact ⟨fun both => both.2, fun holds => ⟨rfl, holds⟩⟩
  | column | position | eraseLines | eraseOnLine | scrollUp | scrollDown | save | restore | attributes
  | other => exact relative.elim

theorem Command.Relative.supported {cmd : Command} (relative : cmd.Relative) : cmd ≠ .other := by
  rintro rfl
  exact relative

theorem cursorOf_shown {t : State (Option Framebuffer)} (same : t.shown = s.shown) :
    cursorOf t = cursorOf s :=
  congrArg (Option.map fun fb : Framebuffer => (fb.cursorX, fb.cursorY)) (Prod.mk.inj same).1

/-- `ESC [ n` and one of the letters `A` to `F`, however the text is split into writes: the cursor
is moved by `n` and clamped to the screen exactly when the count does not pass the edge, or is
folded back onto it. -/
theorem movement_saturates_iff (ascii : s.parser.state = .ascii) (backend : s.backend = some fb)
    (screen : fb.InScreen) {digits : List (Fin 10)} (counts : value digits = some n) (positive : 1 ≤ n)
    {final : UInt8} (relative : (Command.ofChar (toChar final)).Relative) {bufs : List (List UInt8)}
    (text : bufs.flatten = sequenceText [digits] final) :
    ∃ t, s.writes consoleFb bufs = some t ∧
      (cursorOf t = some (clamped fb n (Command.ofChar (toChar final))) ↔
        Saturates fb n (Command.ofChar (toChar final))) := by
  obtain ⟨t, ran, -, shown⟩ := State.sequence_effect consoleFb s ascii (List.cons_ne_nil digits [])
    (by decide : 1 ≤ 10) relative.supported
  refine ⟨t, by rw [State.writes_eq, text, ran], ?_⟩
  have args : ([digits].map value).map stored = [stored (some n)] := by
    rw [List.map_singleton, List.map_singleton, counts]
  rw [cursorOf_shown shown, args]
  exact effect_saturates backend screen positive relative

end Sequence

def bootScreen : Framebuffer := consoleFbInit fbcon (fun _ => 0) 800 480 (fun _ => 0) 8 16 none

theorem bootScreen_inScreen : bootScreen.InScreen :=
  ⟨⟨by decide, by decide, by decide, by decide, by decide, by decide, by decide⟩, by decide, by decide⟩

/-- `ESC [ 1 B` in its first line. -/
theorem movement_saturates_down :
    ∃ t, (boot (some bootScreen)).writes consoleFb [[27, 91, 49, 66]] = some t ∧
      (cursorOf t = some (clamped bootScreen 1 .down) ↔ Saturates bootScreen 1 .down) :=
  @movement_saturates_iff (boot (some bootScreen)) bootScreen 1 rfl rfl bootScreen_inScreen [1] rfl
    (Nat.le_refl 1) 66 trivial [[27, 91, 49, 66]] rfl

/-- After a line feed the cursor is in line 1 of 30, and `ESC [ 30 B` moves it up to line 0. -/
theorem down_moves_up :
    ∃ s, (boot (some bootScreen)).writes consoleFb [[10]] = some s ∧ cursorOf s = some (0, 1) ∧
      ((s.writes consoleFb [[27, 91, 51, 48, 66]]).bind cursorOf) = some (0, 0) ∧
        s.backend.map (fun fb => clamped fb 30 .down) = some (0, 29) := by
  refine ⟨_, rfl, rfl, ?_, rfl⟩
  decide +kernel

end TrollOS.Console
