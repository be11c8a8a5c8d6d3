import TrollOS.Text.Printf

/-!
# `str_parse_int`

A string is what stands in front of its NUL.
-/

namespace TrollOS.Text

/-- The loop under `Parse base 10`. -/
def parseDecimal : List UInt8 → UInt32 → UInt32
  | [], ret => ret
  | c :: str, ret =>
      if c < '0'.toUInt8 ∨ '9'.toUInt8 < c then ret
      else parseDecimal str (ret * 10 + (c - '0'.toUInt8).toUInt32)

def hexDigit (c : UInt8) : Option UInt32 :=
  if c < '0'.toUInt8 ∨ '9'.toUInt8 < c then
    if c < 'a'.toUInt8 ∨ 'f'.toUInt8 < c then
      if c < 'A'.toUInt8 ∨ 'F'.toUInt8 < c then none
      else some (c - 'A'.toUInt8 + 0xA).toUInt32
    else some (c - 'a'.toUInt8 + 0xA).toUInt32
  else some (c - '0'.toUInt8).toUInt32

/-- The loop under `Parse hex`, from the third character on. -/
def parseHex : List UInt8 → UInt32 → UInt32
  | [], ret => ret
  | c :: str, ret =>
      match hexDigit c with
      | some d => parseHex str (ret <<< 4 ||| d)
      | none => 0

def strParseInt (str : List UInt8) : UInt32 :=
  match str.take 32 with
  | [] => 0
  | c :: rest =>
      if c ≠ '0'.toUInt8 then parseDecimal (c :: rest) 0
      else
        match rest with
        | x :: digits => if x = 'x'.toUInt8 ∨ x = 'X'.toUInt8 then parseHex digits 0 else 0
        | [] => 0

/-! ## Reading numerals -/

theorem parseDecimal_digit : ∀ d < 10, ∀ rest ret,
    parseDecimal (digit d :: rest) ret = parseDecimal rest (ret * 10 + UInt32.ofNat d) := by
  intro d small rest ret
  have range : ∀ d < 10, ¬(digit d < '0'.toUInt8 ∨ '9'.toUInt8 < digit d) ∧
      (digit d - '0'.toUInt8).toUInt32 = UInt32.ofNat d := by decide
  obtain ⟨inside, same⟩ := range d small
  rw [parseDecimal, if_neg inside, same]

theorem parseHex_digit : ∀ d < 16, ∀ rest ret,
    parseHex (digit d :: rest) ret = parseHex rest (ret <<< 4 ||| UInt32.ofNat d) := by
  intro d small rest ret
  have read : ∀ d < 16, hexDigit (digit d) = some (UInt32.ofNat d) := by decide
  rw [parseHex, read d small]

theorem parseDecimal_numeral (n : Nat) : parseDecimal (numeral 10 n) 0 = UInt32.ofNat n := by
  have more : ∀ n, UInt32.ofNat (n / 10) * 10 + UInt32.ofNat (n % 10) = UInt32.ofNat n := fun n =>
    calc UInt32.ofNat (n / 10) * UInt32.ofNat 10 + UInt32.ofNat (n % 10)
        = UInt32.ofNat (n / 10 * 10 + n % 10) := by rw [UInt32.ofNat_add, UInt32.ofNat_mul]
      _ = UInt32.ofNat n := by rw [Nat.div_add_mod']
  have read := numeral_read (by decide) UInt32.ofNat parseDecimal_digit more n []
  rwa [List.append_nil] at read

/-- `ret <<= 4` makes room for the digit. -/
theorem shift_or (n : Nat) : UInt32.ofNat (n / 16) <<< 4 ||| UInt32.ofNat (n % 16) = UInt32.ofNat n := by
  have small : n % 16 < 2 ^ 4 := Nat.mod_lt n (by decide)
  have low : (n / 16 % 2 ^ 32) <<< 4 % 2 ^ 32 = (n % 2 ^ 32 / 16) <<< 4 := by
    rw [Nat.shiftLeft_eq, Nat.shiftLeft_eq]
    omega
  have same : n % 16 % 2 ^ 32 = n % 16 := Nat.mod_eq_of_lt (Nat.lt_trans small (by decide))
  apply UInt32.toNat_inj.1
  rw [UInt32.toNat_or, UInt32.toNat_shiftLeft, UInt32.toNat_ofNat', UInt32.toNat_ofNat', UInt32.toNat_ofNat']
  calc (n / 16 % 2 ^ 32) <<< 4 % 2 ^ 32 ||| n % 16 % 2 ^ 32
      = (n % 2 ^ 32 / 16) <<< 4 ||| n % 16 := by rw [low, same]
    _ = n % 2 ^ 32 / 16 * 2 ^ 4 + n % 16 := by rw [← Nat.shiftLeft_add_eq_or_of_lt small, Nat.shiftLeft_eq]
    _ = n % 2 ^ 32 := by omega

theorem parseHex_numeral (n : Nat) : parseHex (numeral 16 n) 0 = UInt32.ofNat n := by
  have read := numeral_read (by decide) UInt32.ofNat parseHex_digit shift_or n []
  rwa [List.append_nil] at read

/-- A string of at most 32 characters is parsed as a whole. -/
theorem take_of_short {str : List UInt8} (short : str.length ≤ 10) : str.take 32 = str :=
  List.take_of_length_le (Nat.le_trans short (by decide))

theorem strParseInt_decimal (n : UInt32) : strParseInt (numeral 10 n.toNat) = n := by
  have short : (numeral 10 n.toNat).length ≤ 10 :=
    numeral_short (by decide) (Nat.lt_trans n.toNat_lt (by decide))
  by_cases zero : n.toNat = 0
  · have same : n = 0 := UInt32.toNat_inj.1 zero
    rw [same]
    rfl
  · obtain ⟨d, rest, positive, small, split⟩ := numeral_head (by decide : 1 < 10) (Nat.pos_of_ne_zero zero)
    have notZero : ∀ d < 10, 0 < d → digit d ≠ '0'.toUInt8 := by decide
    have parsed := parseDecimal_numeral n.toNat
    unfold strParseInt
    rw [take_of_short short, split]
    dsimp only
    rw [if_pos (notZero d small positive), ← split, parsed, UInt32.ofNat_toNat]

theorem strParseInt_hex (n : UInt32) :
    strParseInt (['0'.toUInt8, 'x'.toUInt8] ++ numeral 16 n.toNat) = n := by
  have digits : (numeral 16 n.toNat).length ≤ 8 := numeral_short (by decide) (Nat.lt_of_lt_of_le n.toNat_lt (by decide))
  have short : (['0'.toUInt8, 'x'.toUInt8] ++ numeral 16 n.toNat).length ≤ 10 := by
    rw [List.length_append]
    exact Nat.add_le_add_left digits 2
  unfold strParseInt
  rw [take_of_short short]
  dsimp only [List.cons_append]
  rw [if_neg (not_not.2 rfl), if_pos (Or.inl rfl), List.nil_append, parseHex_numeral, UInt32.ofNat_toNat]

/-! ## What `vprintf` writes -/

section Written

variable (string : UInt32 → List UInt8) (n : UInt32) (va : List UInt32)

/-- `vprintf` prints the argument so that `str_parse_int` reads it. -/
def Parses (format : List UInt8) : Prop :=
  ∃ rounds, vprintf string format (n :: va) = some rounds ∧ strParseInt (written rounds) = n

variable {string n va}

/-- A format of one directive that prints an `unsigned int` as long as it is. -/
theorem vprintf_single {format : List UInt8} {spec : Spec} {kind : Conversion} {base : Nat} {lead : List UInt8}
    (scanned : scan format .initial = some (.conversion kind spec [])) (plain : spec.length = .int)
    (narrow : spec.width = 0) (large : 8 ≤ base)
    (conv : ∀ state, convert string spec state kind = baseconv base lead spec state) :
    vprintf string ('%'.toUInt8 :: format) (n :: va) = some [⟨lead ++ numeral base n.toNat, va⟩] := by
  have fetched : switchLength toUnsigned 0 spec.length (n :: va) = some (n.toNat, va) := by
    have cast : toUnsigned 32 (wordsValue [n]) = n.toNat := by
      unfold toUnsigned wordsValue
      rw [List.foldl_cons, List.foldl_nil, Nat.zero_mul, Nat.zero_add]
      exact Nat.mod_eq_of_lt n.toNat_lt
    have known : spec.length.bits = some 32 := by rw [plain]; rfl
    have arg : switchLength toUnsigned 0 spec.length ([n] ++ va) = some (toUnsigned 32 (wordsValue [n]), va) :=
      switchLength_append toUnsigned 0 known rfl
    rwa [cast] at arg
  have whole : spec.field (numeral base n.toNat) = numeral base n.toNat := if_pos narrow
  have step : printRound string ⟨'%'.toUInt8 :: format, n :: va, 0, 0⟩ =
      some (some (lead ++ numeral base n.toNat, ⟨[], va, n.toNat, 0⟩)) := by
    rw [printRound_conversion scanned, conv,
      baseconv_eq large lead fetched (Nat.lt_trans n.toNat_lt (by decide)), whole]
    rfl
  unfold vprintf
  rw [List.length_cons, printRounds_next step, printRounds_end rfl]
  rfl

/-- `str_parse_int` undoes `%u`, `%#x` and `%#X`. -/
theorem strParseInt_vprintf (string : UInt32 → List UInt8) (n : UInt32) (va : List UInt32) :
    Parses string n va ['%'.toUInt8, 'u'.toUInt8] ∧
      Parses string n va ['%'.toUInt8, '#'.toUInt8, 'x'.toUInt8] ∧
      Parses string n va ['%'.toUInt8, '#'.toUInt8, 'X'.toUInt8] := by
  have hex : ∀ c, scan ['#'.toUInt8, c] .initial = some (.conversion .x ⟨.int, 0, true, ' '.toUInt8⟩ []) →
      Parses string n va ['%'.toUInt8, '#'.toUInt8, c] := by
    intro c scanned
    refine ⟨_, vprintf_single scanned rfl rfl (by decide) (fun _ => rfl), ?_⟩
    have whole : written [⟨['0'.toUInt8, 'x'.toUInt8] ++ numeral 16 n.toNat, va⟩] =
        ['0'.toUInt8, 'x'.toUInt8] ++ numeral 16 n.toNat := List.append_nil _
    exact (congrArg strParseInt whole).trans (strParseInt_hex n)
  have scanned : scan ['u'.toUInt8] .initial = some (.conversion .u .initial []) := rfl
  refine ⟨⟨_, vprintf_single scanned rfl rfl (by decide) (fun _ => rfl), ?_⟩, hex _ rfl, hex _ rfl⟩
  have whole : written [⟨[] ++ numeral 10 n.toNat, va⟩] = numeral 10 n.toNat := List.append_nil _
  exact (congrArg strParseInt whole).trans (strParseInt_decimal n)

end Written

end TrollOS.Text
