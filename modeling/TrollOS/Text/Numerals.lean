import Mathlib.Data.Nat.Digits.Lemmas

/-!
# Numerals

The numeral of a number in a base up to 36, the most significant digit first, and the loop of
`int_to_string` that writes it from the last digit on.
-/

namespace TrollOS.Text

/-- `i += (i > 9 ? 'A' - 10 : '0');` -/
def digit (i : Nat) : UInt8 := UInt8.ofNat (if 9 < i then i + 55 else i + 48)

/-- `int_to_string` with `room` bytes left in front of `s`; `none` when it runs out of the buffer. -/
def intToString (base : Nat) : Nat → Nat → List UInt8 → Option (List UInt8)
  | 0, _, _ => none
  | room + 1, n, s =>
      if n / base ≠ 0 then intToString base room (n / base) (digit (n % base) :: s)
      else some (digit (n % base) :: s)

def places (base n : Nat) : List Nat := if n = 0 then [0] else Nat.digits base n

def numeral (base n : Nat) : List UInt8 := (places base n).reverse.map digit

variable {base n : Nat}

theorem places_last (small : n < base) : places base n = [n] := by
  unfold places
  by_cases zero : n = 0
  · rw [if_pos zero, zero]
  · rw [if_neg zero, Nat.digits_of_lt base n zero small]

theorem places_more (large : 1 < base) (more : n / base ≠ 0) :
    places base n = n % base :: places base (n / base) := by
  have positive : n ≠ 0 := by
    rintro rfl
    exact more (Nat.zero_div base)
  unfold places
  rw [if_neg positive, if_neg more, Nat.digits_def' large (Nat.pos_of_ne_zero positive)]

theorem numeral_last (small : n < base) : numeral base n = [digit n] := by
  unfold numeral
  rw [places_last small]
  rfl

/-- The last digit of a numeral. -/
theorem numeral_more (large : 1 < base) (more : n / base ≠ 0) :
    numeral base n = numeral base (n / base) ++ [digit (n % base)] := by
  unfold numeral
  rw [places_more large more, List.reverse_cons, List.map_append]
  rfl

theorem numeral_length (base n : Nat) : (numeral base n).length = (places base n).length := by
  unfold numeral
  rw [List.length_map, List.length_reverse]

theorem numeral_pos (large : 1 < base) (n : Nat) : 0 < (numeral base n).length := by
  by_cases more : n / base = 0
  · have small : n < base := (Nat.div_eq_zero_iff_lt (Nat.lt_trans Nat.zero_lt_one large)).1 more
    rw [numeral_last small]
    exact Nat.zero_lt_one
  · rw [numeral_more large more, List.length_append]
    exact Nat.succ_pos _

/-- The numeral of a number other than zero does not begin with a zero. -/
theorem numeral_head (large : 1 < base) (positive : 0 < n) :
    ∃ d rest, 0 < d ∧ d < base ∧ numeral base n = digit d :: rest := by
  induction n using Nat.strongRecOn with
  | ind n ih =>
      by_cases last : n / base = 0
      · have small : n < base := (Nat.div_eq_zero_iff_lt (Nat.lt_trans Nat.zero_lt_one large)).1 last
        exact ⟨n, [], positive, small, numeral_last small⟩
      · obtain ⟨d, rest, notZero, small, same⟩ :=
          ih (n / base) (Nat.div_lt_self positive large) (Nat.pos_of_ne_zero last)
        exact ⟨d, rest ++ [digit (n % base)], notZero, small, by rw [numeral_more large last, same]; rfl⟩

/-- A number below a power of the base has few digits. -/
theorem numeral_short (large : 1 < base) {count : Nat} (small : n < base ^ (count + 1)) :
    (numeral base n).length ≤ count + 1 := by
  rw [numeral_length]
  unfold places
  split
  · exact Nat.succ_le_succ (Nat.zero_le count)
  · exact (Nat.digits_length_le_iff large n).2 small

/-- A loop over the digits from the first on, given what one digit does to the value so far. -/
theorem numeral_read {α β : Type} (large : 1 < base) {read : List UInt8 → α → β} {next : α → Nat → α}
    (value : Nat → α) (step : ∀ d < base, ∀ rest ret, read (digit d :: rest) ret = read rest (next ret d))
    (more : ∀ n, next (value (n / base)) (n % base) = value n) (n : Nat) (rest : List UInt8) :
    read (numeral base n ++ rest) (value 0) = read rest (value n) := by
  have positive : 0 < base := Nat.lt_trans Nat.zero_lt_one large
  induction n using Nat.strongRecOn generalizing rest with
  | ind n ih =>
      by_cases last : n / base = 0
      · have small : n < base := (Nat.div_eq_zero_iff_lt positive).1 last
        have first := more n
        rw [last, Nat.mod_eq_of_lt small] at first
        rw [numeral_last small, List.singleton_append, step n small, first]
      · have larger : base ≤ n := by
          by_contra smaller
          exact last (Nat.div_eq_of_lt (Nat.lt_of_not_le smaller))
        have less : n / base < n := Nat.div_lt_self (Nat.lt_of_lt_of_le positive larger) large
        rw [numeral_more large last, List.append_assoc, ih _ less, List.singleton_append,
          step _ (Nat.mod_lt n positive), more]

/-- The loop writes the numeral, if there is room for it. -/
theorem intToString_eq (large : 1 < base) {room : Nat} (s : List UInt8)
    (enough : (numeral base n).length ≤ room) : intToString base room n s = some (numeral base n ++ s) := by
  induction room generalizing n s with
  | zero => exact absurd enough (Nat.not_le_of_lt (numeral_pos large n))
  | succ room ih =>
      unfold intToString
      by_cases more : n / base = 0
      · have small : n < base := (Nat.div_eq_zero_iff_lt (Nat.lt_trans Nat.zero_lt_one large)).1 more
        rw [if_neg (not_not.2 more), numeral_last small, Nat.mod_eq_of_lt small]
        rfl
      · rw [numeral_more large more, List.length_append] at enough
        rw [if_pos more, ih _ (Nat.le_of_succ_le_succ enough), numeral_more large more, List.append_assoc]
        rfl

/-- A 64-bit number in one of the bases of `vprintf` fits into the buffer. -/
theorem intToString_fits (large : 8 ≤ base) (small : n < 18446744073709551616) :
    intToString base 24 n [] = some (numeral base n) := by
  have below : n < base ^ (21 + 1) := Nat.lt_of_lt_of_le (Nat.lt_trans small (by decide)) (Nat.pow_le_pow_left large 22)
  have short := numeral_short (Nat.lt_of_lt_of_le (by decide) large) below
  rw [intToString_eq (Nat.lt_of_lt_of_le (by decide) large) [] (Nat.le_trans short (by decide)), List.append_nil]

end TrollOS.Text
