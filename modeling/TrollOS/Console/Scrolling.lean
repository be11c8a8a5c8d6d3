import TrollOS.Console.Movement

/-!
# Scrolling

`_scroll_up` and `_scroll_down` move words of four pixels by an offset that is computed modulo
2^32 and rounded down to words.  They shift whole rows when the rows are whole words, up to the
height of the screen; a longer scroll finds a bound below zero, or leaves video memory.
-/

namespace TrollOS.Console

namespace Framebuffer

def rowSize (fb : Framebuffer) : Nat := fb.hFont * fb.wPixels

/-- Row `r` is the old row `r + n`, or blank. -/
def ShiftedUp (fb : Framebuffer) (n : Nat) (old new : Nat → UInt8) : Prop :=
  ∀ r, r < fb.hChars → ∀ k, k < fb.rowSize →
    new (r * fb.rowSize + k) = if r + n < fb.hChars then old ((r + n) * fb.rowSize + k) else 0

/-- Row `r` is the old row `r - n`, or blank. -/
def ShiftedDown (fb : Framebuffer) (n : Nat) (old new : Nat → UInt8) : Prop :=
  ∀ r, r < fb.hChars → ∀ k, k < fb.rowSize →
    new (r * fb.rowSize + k) = if n ≤ r then old ((r - n) * fb.rowSize + k) else 0

/-- Scrolling up by `n` lines ends and shifts the rows, whatever they show. -/
def ScrollsUp (fb : Framebuffer) (n : Nat) : Prop :=
  ∀ old, ∃ fb', ({ fb with fbMem := old } : Framebuffer).scrollUp n = some fb' ∧ fb.ShiftedUp n old fb'.fbMem

def ScrollsDown (fb : Framebuffer) (n : Nat) : Prop :=
  ∀ old, ∃ fb', ({ fb with fbMem := old } : Framebuffer).scrollDown n = some fb' ∧
    fb.ShiftedDown n old fb'.fbMem

/-- The screen and the lines are whole words; from the height of the screen on the offset, taken
modulo 2^32, is the screen. -/
def WholeWords (fb : Framebuffer) (n : Nat) : Prop :=
  4 ∣ fb.wPixels * fb.hPixels ∧ (n < fb.hChars → 4 ∣ n * fb.rowSize) ∧
    (fb.hChars ≤ n → wrap (n * fb.rowSize) / 4 = fb.wPixels * fb.hPixels / 4)

/-! ## Words of video memory -/

def moved (mem : Nat → UInt8) (target source : Nat) : Nat → UInt8 := fun p =>
  if 4 * target ≤ p ∧ p < 4 * target + 4 then mem (4 * source + (p - 4 * target)) else mem p

def cleared (mem : Nat → UInt8) (i : Nat) : Nat → UInt8 := fun p =>
  if 4 * i ≤ p ∧ p < 4 * i + 4 then 0 else mem p

variable {fb : Framebuffer} {i target source n : Nat} {mem : Nat → UInt8}

/-- The first pixels of a word are copied. -/
theorem moveWord_part (inside : 4 * target + 3 < fb.wPixels * fb.hPixels)
    (within : 4 * source + 3 < fb.wPixels * fb.hPixels) {k : Nat} (small : k ≤ 4) :
    (List.range k).foldlM
        (fun fb k => (fb.readPixel (4 * source + k)).bind fun pixel => fb.writePixel (4 * target + k) pixel) fb =
      some { fb with
        fbMem := fun p =>
          if 4 * target ≤ p ∧ p < 4 * target + k then fb.fbMem (4 * source + (p - 4 * target))
          else fb.fbMem p } := by
  induction k with
  | zero =>
      refine congrArg (fun mem => some { fb with fbMem := mem }) (funext fun p => ?_)
      rw [if_neg (by omega)]
  | succ k ih =>
      have readable : 4 * source + k < fb.wPixels * fb.hPixels := by omega
      have writable : 4 * target + k < fb.wPixels * fb.hPixels := by omega
      rw [List.range_succ, List.foldlM_append, ih (by omega)]
      simp only [List.foldlM_cons, List.foldlM_nil, Option.bind_eq_bind, Option.bind_some, Option.pure_def,
        readPixel, writePixel]
      rw [if_pos readable, Option.bind_some, if_pos writable, Option.bind_some]
      refine congrArg (fun mem => some { fb with fbMem := mem }) (funext fun p => ?_)
      by_cases here : p = 4 * target + k
      · have source_same : (if 4 * target ≤ 4 * source + k ∧ 4 * source + k < 4 * target + k then
            fb.fbMem (4 * source + (4 * source + k - 4 * target)) else fb.fbMem (4 * source + k)) =
              fb.fbMem (4 * source + k) := if_neg (by omega)
        subst here
        rw [Function.update_self, source_same, if_pos (by omega), Nat.add_sub_cancel_left]
      · rw [Function.update_of_ne here]
        by_cases before : 4 * target ≤ p ∧ p < 4 * target + k
        · rw [if_pos before, if_pos (by omega)]
        · rw [if_neg before, if_neg (by omega)]

theorem moveWord_eq (inside : 4 * target + 3 < fb.wPixels * fb.hPixels)
    (within : 4 * source + 3 < fb.wPixels * fb.hPixels) :
    fb.moveWord target source = some { fb with fbMem := moved fb.fbMem target source } :=
  moveWord_part inside within (Nat.le_refl 4)

/-- The first pixels of a word are blank. -/
theorem clearWord_part (inside : 4 * i + 3 < fb.wPixels * fb.hPixels) {k : Nat} (small : k ≤ 4) :
    (List.range k).foldlM (fun fb k => fb.writePixel (4 * i + k) 0) fb =
      some { fb with fbMem := fun p => if 4 * i ≤ p ∧ p < 4 * i + k then 0 else fb.fbMem p } := by
  induction k with
  | zero =>
      refine congrArg (fun mem => some { fb with fbMem := mem }) (funext fun p => ?_)
      rw [if_neg (by omega)]
  | succ k ih =>
      have writable : 4 * i + k < fb.wPixels * fb.hPixels := by omega
      rw [List.range_succ, List.foldlM_append, ih (by omega)]
      simp only [List.foldlM_cons, List.foldlM_nil, Option.bind_eq_bind, Option.bind_some, Option.pure_def,
        writePixel]
      rw [if_pos writable, Option.bind_some]
      refine congrArg (fun mem => some { fb with fbMem := mem }) (funext fun p => ?_)
      by_cases here : p = 4 * i + k
      · rw [here, Function.update_self, if_pos (by omega)]
      · rw [Function.update_of_ne here]
        by_cases before : 4 * i ≤ p ∧ p < 4 * i + k
        · rw [if_pos before, if_pos (by omega)]
        · rw [if_neg before, if_neg (by omega)]

theorem clearWord_eq (inside : 4 * i + 3 < fb.wPixels * fb.hPixels) :
    fb.clearWord i = some { fb with fbMem := cleared fb.fbMem i } :=
  clearWord_part inside (Nat.le_refl 4)

def SameSize (fb fb' : Framebuffer) : Prop := fb'.wPixels * fb'.hPixels = fb.wPixels * fb.hPixels

theorem writePixel_size {fb' : Framebuffer} {pixel : UInt8} (ran : fb.writePixel i pixel = some fb') :
    SameSize fb fb' := by
  unfold writePixel at ran
  split at ran
  · obtain rfl := Option.some.inj ran
    exact rfl
  · exact nomatch ran

theorem writePixel_outside (outside : fb.wPixels * fb.hPixels ≤ i) (pixel : UInt8) :
    fb.writePixel i pixel = none := if_neg (Nat.not_lt.mpr outside)

/-- One turn without a result, and the loop has none. -/
theorem foldlM_none {ι : Type} {body : Framebuffer → ι → Option Framebuffer} {turns : List ι} {bad : ι}
    (member : bad ∈ turns) (keeps : ∀ i fb₁ fb₂, body fb₁ i = some fb₂ → SameSize fb₁ fb₂)
    (fails : ∀ fb₁, SameSize fb fb₁ → body fb₁ bad = none) : turns.foldlM body fb = none := by
  induction turns generalizing fb with
  | nil => exact nomatch member
  | cons i rest ih =>
      rw [List.foldlM_cons]
      cases ran : body fb i with
      | none => rfl
      | some fb₁ =>
          have size := keeps i fb fb₁ ran
          rcases List.mem_cons.mp member with rfl | later
          · exact nomatch ran.symm.trans (fails fb rfl)
          · exact ih later fun fb₂ same => fails fb₂ (same.trans size)

theorem foldlM_size {ι : Type} {body : Framebuffer → ι → Option Framebuffer} {turns : List ι}
    {fb' : Framebuffer} (keeps : ∀ i fb₁ fb₂, body fb₁ i = some fb₂ → SameSize fb₁ fb₂)
    (ran : turns.foldlM body fb = some fb') : SameSize fb fb' := by
  induction turns generalizing fb with
  | nil =>
      obtain rfl := Option.some.inj ran
      exact rfl
  | cons i rest ih =>
      rw [List.foldlM_cons] at ran
      obtain ⟨fb₁, first, later⟩ := Option.bind_eq_some_iff.mp ran
      exact (ih later).trans (keeps i fb fb₁ first)

/-- A word that video memory does not hold. -/
theorem clearWord_outside (outside : fb.wPixels * fb.hPixels ≤ 4 * i + 3) : fb.clearWord i = none := by
  refine foldlM_none (List.mem_range.mpr (by decide : 3 < 4)) (fun k fb₁ fb₂ ran => writePixel_size ran)
    fun fb₁ size => writePixel_outside ?_ 0
  rw [size]
  exact outside

theorem clearWord_size {fb' : Framebuffer} (ran : fb.clearWord i = some fb') : SameSize fb fb' :=
  foldlM_size (fun _ _ _ ran => writePixel_size ran) ran

theorem moveWord_outside (outside : fb.wPixels * fb.hPixels ≤ 4 * target) (source : Nat) :
    fb.moveWord target source = none := by
  refine foldlM_none (List.mem_range.mpr (by decide : 0 < 4)) (fun k fb₁ fb₂ ran => ?_) fun fb₁ size => ?_
  · obtain ⟨pixel, -, writes⟩ := Option.bind_eq_some_iff.mp ran
    exact writePixel_size writes
  · refine Option.bind_eq_none_iff.mpr fun pixel _ => writePixel_outside ?_ pixel
    rw [size]
    exact outside

/-! ## Loops over words -/

/-- A loop that changes video memory in each turn. -/
theorem foldlM_mem {body : Framebuffer → Nat → Option Framebuffer} {step : (Nat → UInt8) → Nat → Nat → UInt8}
    {turns : List Nat} (each : ∀ i ∈ turns, ∀ mem, body { fb with fbMem := mem } i =
      some { fb with fbMem := step mem i }) (mem : Nat → UInt8) :
    turns.foldlM body { fb with fbMem := mem } = some { fb with fbMem := turns.foldl step mem } := by
  induction turns generalizing mem with
  | nil => rfl
  | cons i rest ih =>
      rw [List.foldlM_cons, each i List.mem_cons_self]
      exact ih (fun j member => each j (List.mem_cons_of_mem _ member)) _

/-- The first loop of `_scroll_up`: each word is taken from `offset` words further on. -/
theorem moves_up (offset k : Nat) (mem : Nat → UInt8) :
    (List.range' offset k).foldl (fun mem i => moved mem (i - offset) i) mem =
      fun p => if p < 4 * k then mem (p + 4 * offset) else mem p := by
  induction k with
  | zero => exact funext fun p => (if_neg (Nat.not_lt_zero p)).symm
  | succ k ih =>
      rw [List.range'_concat, List.foldl_append, ih, List.foldl_cons, List.foldl_nil]
      refine funext fun p => ?_
      have word : offset + 1 * k - offset = k := by omega
      unfold moved
      rw [word]
      dsimp only
      by_cases here : 4 * k ≤ p ∧ p < 4 * k + 4
      · have from_there : 4 * (offset + 1 * k) + (p - 4 * k) = p + 4 * offset := by omega
        have later : ¬ p + 4 * offset < 4 * k := by omega
        rw [if_pos here, from_there, if_neg later, if_pos (by omega)]
      · rw [if_neg here]
        by_cases low : p < 4 * k
        · rw [if_pos low, if_pos (by omega)]
        · rw [if_neg low, if_neg (by omega)]

/-- The words from `start` on are blank. -/
theorem clears (start k : Nat) (mem : Nat → UInt8) :
    (List.range' start k).foldl cleared mem =
      fun p => if 4 * start ≤ p ∧ p < 4 * (start + k) then 0 else mem p := by
  induction k with
  | zero => exact funext fun p => (if_neg (by omega)).symm
  | succ k ih =>
      rw [List.range'_concat, List.foldl_append, ih, List.foldl_cons, List.foldl_nil]
      refine funext fun p => ?_
      unfold cleared
      dsimp only
      by_cases here : 4 * (start + 1 * k) ≤ p ∧ p < 4 * (start + 1 * k) + 4
      · rw [if_pos here, if_pos (by omega)]
      · rw [if_neg here]
        by_cases before : 4 * start ≤ p ∧ p < 4 * (start + k)
        · rw [if_pos before, if_pos (by omega)]
        · rw [if_neg before, if_neg (by omega)]

/-- The first loop of `_scroll_down`, from the last word of `k` on: each word is taken from
`offset` words before. -/
theorem scrollDownLoop_eq {offset k fuel : Nat} (positive : 0 < offset) (enough : k < fuel)
    (word : offset + k ≤ 4294967296) (inside : 4 * (offset + k) ≤ fb.wPixels * fb.hPixels) :
    scrollDownLoop offset fuel (offset + k - 1) fb =
      some { fb with
        fbMem := fun p =>
          if 4 * offset ≤ p ∧ p < 4 * (offset + k) then fb.fbMem (p - 4 * offset) else fb.fbMem p } := by
  induction k generalizing fb fuel with
  | zero =>
      obtain ⟨fuel, rfl⟩ := Nat.exists_eq_succ_of_ne_zero (Nat.ne_of_gt enough)
      unfold scrollDownLoop
      rw [if_neg (by omega)]
      refine congrArg (fun mem => some { fb with fbMem := mem }) (funext fun p => ?_)
      rw [if_neg (by omega)]
  | succ k ih =>
      obtain ⟨fuel, rfl⟩ := Nat.exists_eq_succ_of_ne_zero (Nat.ne_of_gt (Nat.lt_of_le_of_lt (Nat.zero_le _) enough))
      have start : offset + (k + 1) - 1 = offset + k := by omega
      have source : offset + k - offset = k := by omega
      have next : unsigned (((offset + k : Nat) : Int) - 1) = offset + k - 1 := by
        unfold unsigned
        omega
      unfold scrollDownLoop
      rw [start, if_pos (Nat.le_add_right ..), source, moveWord_eq (by omega) (by omega), Option.bind_some, next,
        ih (by omega) (by omega) (by dsimp only; omega)]
      refine congrArg (fun mem => some { fb with fbMem := mem }) (funext fun p => ?_)
      unfold moved
      dsimp only
      by_cases low : 4 * offset ≤ p ∧ p < 4 * (offset + k)
      · have before : ¬ (4 * (offset + k) ≤ p - 4 * offset ∧ p - 4 * offset < 4 * (offset + k) + 4) := by omega
        rw [if_pos low, if_neg before, if_pos (by omega)]
      · rw [if_neg low]
        by_cases here : 4 * (offset + k) ≤ p ∧ p < 4 * (offset + k) + 4
        · have from_there : 4 * k + (p - 4 * (offset + k)) = p - 4 * offset := by omega
          rw [if_pos here, if_pos (by omega), from_there]
        · rw [if_neg here, if_neg (by omega)]

/-- Without an offset the index never falls below it. -/
theorem scrollDownLoop_zero (fuel : Nat) : scrollDownLoop 0 fuel i fb = none := by
  induction fuel generalizing i fb with
  | zero => rfl
  | succ fuel ih =>
      unfold scrollDownLoop
      rw [if_pos (Nat.zero_le i)]
      exact Option.bind_eq_none_iff.mpr fun fb' _ => ih

/-! ## Whole scrolls -/

section Scroll

def upBy (offset words : Nat) (mem : Nat → UInt8) : Nat → UInt8 := fun p =>
  if offset ≤ words ∧ p < 4 * words then if p + 4 * offset < 4 * words then mem (p + 4 * offset) else 0
  else mem p

/-- Video memory after a scroll down, where it is large enough. -/
def downBy (offset words : Nat) (mem : Nat → UInt8) : Nat → UInt8 := fun p =>
  if p < 4 * words then if p < 4 * offset then 0 else mem (p - 4 * offset) else mem p

theorem scrollUp_eq (sized : fb.Sized) (n : Nat) (mem : Nat → UInt8) :
    ({ fb with fbMem := mem } : Framebuffer).scrollUp n =
      some { fb with fbMem := upBy (fb.offset n) fb.words mem } := by
  have words := sized.words_eq
  have small := sized.small
  have low : fb.offset n < 1073741824 := by
    unfold offset wrap
    omega
  have inside : 4 * fb.words ≤ fb.wPixels * fb.hPixels := by omega
  have first : ({ fb with fbMem := mem } : Framebuffer).loop (fb.offset n) fb.words
      (fun fb' i => fb'.moveWord (i - fb.offset n) i) =
        some { fb with fbMem := fun p =>
          if p < 4 * (fb.words - fb.offset n) then mem (p + 4 * fb.offset n) else mem p } := by
    rw [← moves_up]
    refine foldlM_mem (fun i member mem => ?_) mem
    have range := List.mem_range'_1.mp member
    exact moveWord_eq (by dsimp only; omega) (by dsimp only; omega)
  have second (mem : Nat → UInt8) (start : Nat) : ({ fb with fbMem := mem } : Framebuffer).loop start fb.words
      clearWord = some { fb with fbMem := fun p =>
        if 4 * start ≤ p ∧ p < 4 * (start + (fb.words - start)) then 0 else mem p } := by
    rw [← clears]
    refine foldlM_mem (fun i member mem => ?_) mem
    have range := List.mem_range'_1.mp member
    exact clearWord_eq (by dsimp only; omega)
  have whole : ({ fb with fbMem := mem } : Framebuffer).scrollUp n =
      (({ fb with fbMem := mem } : Framebuffer).loop (fb.offset n) fb.words
        (fun fb' i => fb'.moveWord (i - fb.offset n) i)).bind fun fb' =>
          fb'.loop (unsigned ((fb'.words : Int) - fb'.offset n)) fb'.words clearWord := rfl
  rw [whole, first, Option.bind_some]
  refine (second _ (unsigned ((fb.words : Int) - fb.offset n))).trans
    (congrArg (fun mem => some { fb with fbMem := mem }) (funext fun p => ?_))
  unfold upBy
  by_cases enough : fb.offset n ≤ fb.words
  · have start : unsigned ((fb.words : Int) - fb.offset n) = fb.words - fb.offset n := by
      unfold unsigned
      omega
    rw [start]
    by_cases held : p < 4 * fb.words
    · rw [if_pos (show _ ∧ _ from ⟨enough, held⟩)]
      by_cases kept : p + 4 * fb.offset n < 4 * fb.words
      · rw [if_neg (by omega), if_pos (by omega), if_pos kept]
      · rw [if_pos (by omega), if_neg kept]
    · rw [if_neg (by omega), if_neg (by omega), if_neg (by omega)]
  · have start : fb.words ≤ unsigned ((fb.words : Int) - fb.offset n) := by
      unfold unsigned
      omega
    rw [if_neg (by omega), if_neg (by omega), if_neg (by omega)]

/-- Scrolling down has a result if there is a word to scroll by, and a screen that holds it. -/
theorem scrollDown_some (sized : fb.Sized) (positive : 0 < fb.offset n) (enough : fb.offset n ≤ fb.words)
    (mem : Nat → UInt8) : ({ fb with fbMem := mem } : Framebuffer).scrollDown n =
      some { fb with fbMem := downBy (fb.offset n) fb.words mem } := by
  have words := sized.words_eq
  have small := sized.small
  have inside : 4 * fb.words ≤ fb.wPixels * fb.hPixels := by omega
  have last : unsigned ((fb.words : Int) - 1) = fb.offset n + (fb.words - fb.offset n) - 1 := by
    unfold unsigned
    omega
  have first := @scrollDownLoop_eq { fb with fbMem := mem } (fb.offset n) (fb.words - fb.offset n) 4294967297
    positive (by omega) (by omega) (by dsimp only; omega)
  have second (mem : Nat → UInt8) : ({ fb with fbMem := mem } : Framebuffer).loop 0 (fb.offset n) clearWord =
      some { fb with fbMem := fun p =>
        if 4 * 0 ≤ p ∧ p < 4 * (0 + (fb.offset n - 0)) then 0 else mem p } := by
    rw [← clears]
    refine foldlM_mem (fun i member mem => ?_) mem
    have range := List.mem_range'_1.mp member
    exact clearWord_eq (by dsimp only; omega)
  have whole : ({ fb with fbMem := mem } : Framebuffer).scrollDown n =
      (scrollDownLoop (fb.offset n) 4294967297 (unsigned ((fb.words : Int) - 1)) { fb with fbMem := mem }).bind
        fun fb' => fb'.loop 0 (fb'.offset n) clearWord := rfl
  rw [whole, last, first, Option.bind_some]
  refine (second _).trans (congrArg (fun mem => some { fb with fbMem := mem }) (funext fun p => ?_))
  unfold downBy
  dsimp only
  by_cases held : p < 4 * fb.words
  · rw [if_pos held]
    by_cases blank : p < 4 * fb.offset n
    · rw [if_pos (by omega), if_pos blank]
    · rw [if_neg (by omega), if_pos (by omega), if_neg blank]
  · rw [if_neg held, if_neg (by omega), if_neg (by omega)]

/-- Otherwise it never ends, or leaves video memory. -/
theorem scrollDown_none (sized : fb.Sized) (wrong : fb.offset n = 0 ∨ fb.words < fb.offset n) :
    fb.scrollDown n = none := by
  have words := sized.words_eq
  have small := sized.small
  unfold scrollDown
  rcases wrong with zero | large
  · rw [zero, scrollDownLoop_zero, Option.bind_none]
  · have low : fb.offset n < 1073741824 := by
      unfold offset wrap
      omega
    by_cases empty : fb.words = 0
    · have last : unsigned ((fb.words : Int) - 1) = 4294967295 := by
        rw [empty]
        rfl
      have stops : scrollDownLoop (fb.offset n) 4294967297 4294967295 fb = none := by
        unfold scrollDownLoop
        rw [if_pos (by omega), moveWord_outside (by omega), Option.bind_none]
      rw [last, stops, Option.bind_none]
    · have last : unsigned ((fb.words : Int) - 1) = fb.words - 1 := by
        unfold unsigned
        omega
      have stays : scrollDownLoop (fb.offset n) 4294967297 (fb.words - 1) fb = some fb := by
        unfold scrollDownLoop
        rw [if_neg (by omega)]
      rw [last, stays, Option.bind_some]
      refine foldlM_none (List.mem_range'_1.mpr ⟨Nat.zero_le fb.words, by omega⟩)
        (fun i fb₁ fb₂ ran => clearWord_size ran) fun fb₁ size => clearWord_outside ?_
      rw [size]
      omega

/-! ### Rows -/

variable {r k : Nat} {old new : Nat → UInt8}

theorem Sized.row_positive (sized : fb.Sized) : 0 < fb.rowSize := by
  refine Nat.mul_pos sized.rows ?_
  rw [← sized.width]
  exact Nat.mul_pos sized.columns sized.glyphs

theorem Sized.area (sized : fb.Sized) : fb.wPixels * fb.hPixels = fb.hChars * fb.rowSize := by
  unfold rowSize
  rw [← sized.height]
  ring

theorem row_lt {size a b : Nat} (small : k < size) : a * size + k < b * size ↔ a < b := by
  constructor
  · intro less
    by_contra not
    have rows : b * size ≤ a * size := Nat.mul_le_mul_right size (Nat.not_lt.mp not)
    omega
  · intro less
    have rows : (a + 1) * size ≤ b * size := Nat.mul_le_mul_right size less
    rw [Nat.add_mul, Nat.one_mul] at rows
    omega

/-- Every pixel is in a row. -/
theorem pixel_row (sized : fb.Sized) {p : Nat} (inside : p < fb.wPixels * fb.hPixels) :
    ∃ r k, r < fb.hChars ∧ k < fb.rowSize ∧ p = r * fb.rowSize + k := by
  have small := Nat.mod_lt p sized.row_positive
  refine ⟨p / fb.rowSize, p % fb.rowSize, ?_, small, (Nat.div_add_mod' p fb.rowSize).symm⟩
  rw [sized.area] at inside
  exact Nat.div_lt_of_lt_mul (Nat.mul_comm .. ▸ inside)

theorem shiftedUp_iff (sized : fb.Sized) : fb.ShiftedUp n old new ↔
    ∀ p, p < fb.wPixels * fb.hPixels → new p =
      if p + n * fb.rowSize < fb.wPixels * fb.hPixels then old (p + n * fb.rowSize) else 0 := by
  have there (r k : Nat) : (r + n) * fb.rowSize + k = r * fb.rowSize + k + n * fb.rowSize := by ring
  have within (r k : Nat) (small : k < fb.rowSize) :
      r * fb.rowSize + k + n * fb.rowSize < fb.wPixels * fb.hPixels ↔ r + n < fb.hChars := by
    rw [← there, sized.area]
    exact row_lt small
  constructor
  · intro shifted p inside
    obtain ⟨r, k, row, small, rfl⟩ := pixel_row sized inside
    rw [shifted r row k small, there]
    by_cases kept : r + n < fb.hChars
    · rw [if_pos kept, if_pos ((within r k small).mpr kept)]
    · rw [if_neg kept, if_neg ((within r k small).not.mpr kept)]
  · intro shifted r row k small
    have inside : r * fb.rowSize + k < fb.wPixels * fb.hPixels := by
      rw [sized.area]
      exact (row_lt small).mpr row
    rw [shifted _ inside, there]
    by_cases kept : r + n < fb.hChars
    · rw [if_pos kept, if_pos ((within r k small).mpr kept)]
    · rw [if_neg kept, if_neg ((within r k small).not.mpr kept)]

theorem shiftedDown_iff (sized : fb.Sized) : fb.ShiftedDown n old new ↔
    ∀ p, p < fb.wPixels * fb.hPixels → new p =
      if n * fb.rowSize ≤ p then old (p - n * fb.rowSize) else 0 := by
  have there (r k : Nat) (low : n ≤ r) :
      (r - n) * fb.rowSize + k = r * fb.rowSize + k - n * fb.rowSize := by
    have rows : n * fb.rowSize ≤ r * fb.rowSize := Nat.mul_le_mul_right _ low
    rw [Nat.sub_mul]
    omega
  have within (r k : Nat) (small : k < fb.rowSize) : n * fb.rowSize ≤ r * fb.rowSize + k ↔ n ≤ r := by
    rw [← Nat.not_lt, ← Nat.not_lt]
    exact (row_lt small).not
  have same (r k : Nat) (small : k < fb.rowSize) :
      (if n ≤ r then old ((r - n) * fb.rowSize + k) else 0) =
        if n * fb.rowSize ≤ r * fb.rowSize + k then old (r * fb.rowSize + k - n * fb.rowSize) else 0 := by
    by_cases low : n ≤ r
    · rw [if_pos low, if_pos ((within r k small).mpr low), there r k low]
    · rw [if_neg low, if_neg ((within r k small).not.mpr low)]
  constructor
  · intro shifted p inside
    obtain ⟨r, k, row, small, rfl⟩ := pixel_row sized inside
    exact (shifted r row k small).trans (same r k small)
  · intro shifted r row k small
    have inside : r * fb.rowSize + k < fb.wPixels * fb.hPixels := by
      rw [sized.area]
      exact (row_lt small).mpr row
    exact (shifted _ inside).trans (same r k small).symm

/-! ### When the rows are shifted -/

def dot (a : Nat) : Nat → UInt8 := fun p => if p = a then 1 else 0

theorem dot_eq {a p : Nat} (lit : dot a p = dot a a) : p = a := by
  unfold dot at lit
  rw [if_pos rfl] at lit
  by_contra other
  rw [if_neg other] at lit
  exact absurd lit (by decide)

/-- The sizes of a scroll by `n` lines. -/
theorem Sized.scroll_sizes (sized : fb.Sized) (n : Nat) :
    fb.offset n = wrap (n * fb.rowSize) / 4 ∧ fb.words = fb.wPixels * fb.hPixels / 4 ∧
      0 < fb.wPixels * fb.hPixels ∧ (0 < n → 0 < n * fb.rowSize) ∧
        (n < fb.hChars → n * fb.rowSize < fb.wPixels * fb.hPixels ∧ wrap (n * fb.rowSize) = n * fb.rowSize) ∧
          (fb.hChars ≤ n → fb.wPixels * fb.hPixels ≤ n * fb.rowSize) ∧ (n = 0 → n * fb.rowSize = 0) := by
  have row := sized.row_positive
  have small := sized.small
  refine ⟨?_, sized.words_eq, ?_, fun some => Nat.mul_pos some row, fun few => ?_, fun many => ?_,
    fun none => ?_⟩
  · unfold offset rowSize
    rw [Nat.mul_assoc]
  · rw [sized.area]
    exact Nat.mul_pos sized.lines row
  · have less : n * fb.rowSize < fb.wPixels * fb.hPixels := by
      rw [sized.area]
      exact Nat.mul_lt_mul_of_pos_right few row
    exact ⟨less, Nat.mod_eq_of_lt (Nat.lt_trans less small)⟩
  · rw [sized.area]
    exact Nat.mul_le_mul_right _ many
  · rw [none, Nat.zero_mul]

theorem scrollsUp_iff (sized : fb.Sized) : fb.ScrollsUp n ↔ n = 0 ∨ fb.WholeWords n := by
  have means : fb.ScrollsUp n ↔ ∀ old p, p < fb.wPixels * fb.hPixels → upBy (fb.offset n) fb.words old p =
      if p + n * fb.rowSize < fb.wPixels * fb.hPixels then old (p + n * fb.rowSize) else 0 := by
    refine forall_congr' fun old => ?_
    rw [scrollUp_eq sized]
    constructor
    · rintro ⟨fb', ran, shifted⟩
      obtain rfl := Option.some.inj ran
      exact (shiftedUp_iff sized).mp shifted
    · exact fun shifted => ⟨_, rfl, (shiftedUp_iff sized).mpr shifted⟩
  obtain ⟨offset, words, some, lines, few, many, no_lines⟩ := sized.scroll_sizes n
  unfold WholeWords
  rw [means, offset, words]
  unfold upBy
  revert some lines few many no_lines
  generalize fb.wPixels * fb.hPixels = total
  generalize n * fb.rowSize = bytes
  intro some lines few many no_lines
  constructor
  · intro shifts
    by_cases none : n = 0
    · exact .inl none
    · have positive := lines (Nat.pos_of_ne_zero none)
      have whole : 4 ∣ total := by
        by_contra rest
        have lit := shifts (fun _ => 1) (total - 1) (by omega)
        rw [if_neg (by omega), if_neg (by omega)] at lit
        exact absurd lit (by decide)
      refine .inr ⟨whole, fun short => ?_, fun long => ?_⟩
      · obtain ⟨less, same⟩ := few short
        have lit := shifts (dot bytes) 0 some
        rw [same, if_pos (show _ ∧ _ by omega), if_pos (by omega), Nat.zero_add, Nat.zero_add, if_pos less] at lit
        have here := dot_eq lit
        omega
      · have past := many long
        have lit := shifts (fun _ => 1) 0 some
        rw [if_neg (by omega : ¬ 0 + bytes < total)] at lit
        by_contra other
        by_cases enough : wrap bytes / 4 ≤ total / 4
        · rw [if_pos (show _ ∧ _ by omega), if_pos (by omega)] at lit
          exact absurd lit (by decide)
        · rw [if_neg (by omega)] at lit
          exact absurd lit (by decide)
  · intro holds old p inside
    rcases holds with none | ⟨whole, short, long⟩
    · have zero : wrap 0 / 4 = 0 := rfl
      rw [no_lines none, zero, Nat.mul_zero, Nat.add_zero, if_pos inside]
      by_cases held : p < 4 * (total / 4)
      · rw [if_pos (show _ ∧ _ by omega), if_pos held]
      · rw [if_neg (by omega)]
    · rcases Nat.lt_or_ge n fb.hChars with less | more
      · obtain ⟨below, same⟩ := few less
        have aligned := short less
        have back : 4 * (bytes / 4) = bytes := Nat.mul_div_cancel' aligned
        rw [same, if_pos (show _ ∧ _ by omega), back]
        by_cases kept : p + bytes < total
        · rw [if_pos (by omega), if_pos kept]
        · rw [if_neg (by omega), if_neg kept]
      · have past := many more
        rw [long more, if_pos (show _ ∧ _ by omega), if_neg (by omega), if_neg (by omega)]

theorem scrollsDown_iff (sized : fb.Sized) : fb.ScrollsDown n ↔ n ≠ 0 ∧ fb.WholeWords n := by
  have means : fb.ScrollsDown n ↔ (0 < fb.offset n ∧ fb.offset n ≤ fb.words) ∧
      ∀ old p, p < fb.wPixels * fb.hPixels → downBy (fb.offset n) fb.words old p =
        if n * fb.rowSize ≤ p then old (p - n * fb.rowSize) else 0 := by
    constructor
    · intro scrolls
      have ends : 0 < fb.offset n ∧ fb.offset n ≤ fb.words := by
        by_contra wrong
        obtain ⟨fb', ran, -⟩ := scrolls fb.fbMem
        exact nomatch (scrollDown_none sized (by omega)).symm.trans ran
      refine ⟨ends, fun old => ?_⟩
      obtain ⟨fb', ran, shifted⟩ := scrolls old
      rw [scrollDown_some sized ends.1 ends.2] at ran
      obtain rfl := Option.some.inj ran
      exact (shiftedDown_iff sized).mp shifted
    · rintro ⟨ends, shifted⟩ old
      exact ⟨_, scrollDown_some sized ends.1 ends.2 old, (shiftedDown_iff sized).mpr (shifted old)⟩
  obtain ⟨offset, words, some, lines, few, many, no_lines⟩ := sized.scroll_sizes n
  unfold WholeWords
  rw [means, offset, words]
  unfold downBy
  revert some lines few many no_lines
  generalize fb.wPixels * fb.hPixels = total
  generalize n * fb.rowSize = bytes
  intro some lines few many no_lines
  constructor
  · rintro ⟨⟨positive, enough⟩, shifts⟩
    have lines' : n ≠ 0 := by
      intro none
      rw [no_lines none] at positive
      exact absurd positive (by decide)
    have scrolled := lines (Nat.pos_of_ne_zero lines')
    have whole : 4 ∣ total := by
      by_contra rest
      have lit := shifts (dot (total - 1)) (total - 1) (by omega)
      rw [if_neg (by omega)] at lit
      by_cases low : bytes ≤ total - 1
      · rw [if_pos low] at lit
        have here := dot_eq lit.symm
        omega
      · rw [if_neg low] at lit
        unfold dot at lit
        rw [if_pos rfl] at lit
        exact absurd lit (by decide)
    refine ⟨lines', whole, fun short => ?_, fun long => ?_⟩
    · obtain ⟨less, same⟩ := few short
      have lit := shifts (dot 0) bytes less
      rw [same, if_pos (by omega), if_neg (by omega), if_pos (Nat.le_refl bytes), Nat.sub_self] at lit
      have here := dot_eq lit
      omega
    · have past := many long
      by_contra other
      have lit := shifts (fun _ => 1) (4 * (wrap bytes / 4)) (by omega)
      rw [if_pos (by omega), if_neg (by omega), if_neg (by omega)] at lit
      exact absurd lit (by decide)
  · rintro ⟨lines', whole, short, long⟩
    have scrolled := lines (Nat.pos_of_ne_zero lines')
    rcases Nat.lt_or_ge n fb.hChars with less | more
    · obtain ⟨below, same⟩ := few less
      have back : 4 * (bytes / 4) = bytes := Nat.mul_div_cancel' (short less)
      rw [same]
      refine ⟨by omega, fun old p inside => ?_⟩
      rw [if_pos (by omega), back]
      by_cases blank : p < bytes
      · rw [if_pos blank, if_neg (by omega)]
      · rw [if_neg blank, if_pos (by omega)]
    · have past := many more
      rw [long more]
      refine ⟨by omega, fun old p inside => ?_⟩
      rw [if_pos (by omega), if_pos (by omega), if_neg (by omega)]

end Scroll

/-- On every screen of whole characters: scrolling up by `n` lines shifts every screen content
exactly when there is nothing to scroll or the sizes are whole words, and scrolling down exactly
when there is something to scroll and they are. -/
theorem scrolls_iff (sized : fb.Sized) (n : Nat) :
    (fb.ScrollsUp n ↔ n = 0 ∨ fb.WholeWords n) ∧ (fb.ScrollsDown n ↔ n ≠ 0 ∧ fb.WholeWords n) :=
  ⟨scrollsUp_iff sized, scrollsDown_iff sized⟩

/-- One line on the screen the console is built for. -/
theorem scrolls_line : bootScreen.ScrollsUp 1 ∧ bootScreen.ScrollsDown 1 := by
  have whole : bootScreen.WholeWords 1 :=
    ⟨by decide, fun _ => by decide, fun many => absurd many (by decide)⟩
  obtain ⟨up, down⟩ := scrolls_iff bootScreen_inScreen.sized 1
  exact ⟨up.mpr (.inr whole), down.mpr ⟨by decide, whole⟩⟩

/-- One line more than this screen has: up, the screen stays as it is instead of getting blank,
and down, the words behind it are cleared. -/
theorem scroll_past_screen : ¬ bootScreen.ScrollsUp 31 ∧ bootScreen.scrollDown 31 = none := by
  have many : ¬ bootScreen.WholeWords 31 := fun whole => absurd (whole.2.2 (by decide)) (by decide)
  constructor
  · intro scrolls
    rcases (scrollsUp_iff bootScreen_inScreen.sized).mp scrolls with none | whole
    · exact absurd none (by decide)
    · exact many whole
  · exact scrollDown_none bootScreen_inScreen.sized (.inr (by decide))

end Framebuffer

end TrollOS.Console
