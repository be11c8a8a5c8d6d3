import TrollOS.Text.Numerals

/-!
# `vprintf`

A format is what stands in front of its NUL, a `va_list` the words that are left on the stack, and
what a round writes is the bytes it hands to `kconsole_write`.  A round is `none` where an `int` or a
`long long` overflows and where the arguments run out.
-/

namespace TrollOS.Text

inductive Length
  | char | short | int | long | longLong | intmaxT | sizeT | ptrdiffT
  deriving DecidableEq, Repr

/-- The cases of the `switch` that end a directive, `X` and `i` being those of `x` and `d`. -/
inductive Conversion
  | o | p | x | u | d | s | c
  deriving DecidableEq, Repr

inductive Mark
  | percent | hash | digit (d : Nat) | h | l | j | z | t | conversion (kind : Conversion) | other
  deriving DecidableEq, Repr

def Mark.ofChar (c : UInt8) : Mark :=
  if c = '%'.toUInt8 then .percent
  else if c = '#'.toUInt8 then .hash
  else if '0'.toUInt8 ≤ c ∧ c ≤ '9'.toUInt8 then .digit (c - '0'.toUInt8).toNat
  else if c = 'h'.toUInt8 then .h
  else if c = 'l'.toUInt8 then .l
  else if c = 'j'.toUInt8 then .j
  else if c = 'z'.toUInt8 then .z
  else if c = 't'.toUInt8 then .t
  else if c = 'o'.toUInt8 then .conversion .o
  else if c = 'p'.toUInt8 then .conversion .p
  else if c = 'x'.toUInt8 ∨ c = 'X'.toUInt8 then .conversion .x
  else if c = 'u'.toUInt8 then .conversion .u
  else if c = 'd'.toUInt8 ∨ c = 'i'.toUInt8 then .conversion .d
  else if c = 's'.toUInt8 then .conversion .s
  else if c = 'c'.toUInt8 then .conversion .c
  else .other

/-- `length`, `width`, `prefix` and `pad`. -/
structure Spec where
  length : Length
  width : Nat
  hash : Bool
  pad : UInt8
  deriving DecidableEq, Repr

/-- What they are at the `%`. -/
def Spec.initial : Spec := ⟨.int, 0, false, ' '.toUInt8⟩

inductive Scanned
  | ended
  | percent (format : List UInt8)
  | conversion (kind : Conversion) (spec : Spec) (format : List UInt8)
  deriving DecidableEq, Repr

/-- The `while(1)` up to the conversion; `none` when `width` overflows. -/
def scan : List UInt8 → Spec → Option Scanned
  | [], _ => some .ended
  | c :: format, spec =>
      match Mark.ofChar c with
      | .percent => some (.percent format)
      | .hash => scan format { spec with hash := true }
      | .digit d =>
          if d = 0 ∧ spec.width = 0 then scan format { spec with pad := '0'.toUInt8 }
          else if spec.width * 10 + d ≤ 2147483647 then scan format { spec with width := spec.width * 10 + d }
          else none
      | .h => scan format { spec with length := if spec.length = .short then .char else .short }
      | .l => scan format { spec with length := if spec.length = .long then .longLong else .long }
      | .j => scan format { spec with length := .intmaxT }
      | .z => scan format { spec with length := .sizeT }
      | .t => scan format { spec with length := .ptrdiffT }
      | .conversion kind => some (.conversion kind spec format)
      | .other => scan format spec

/-- The bits of the types in the two `switch(length)`; the other lengths have no case there. -/
def Length.bits : Length → Option Nat
  | .char => some 8
  | .short => some 16
  | .int => some 32
  | .long => some 32
  | .longLong => some 64
  | .intmaxT => none
  | .sizeT => none
  | .ptrdiffT => none

/-- The words on the stack of an argument of a type, smaller ones than an `int` being passed as one. -/
def wordsOf (bits : Nat) : Nat := (bits + 31) / 32

/-- The number in some words, the most significant first. -/
def wordsValue (words : List UInt32) : Nat := words.foldl (fun n word => n * 4294967296 + word.toNat) 0

def vaArg (bits : Nat) (va : List UInt32) : Option (Nat × List UInt32) :=
  if wordsOf bits ≤ va.length then some (wordsValue (va.take (wordsOf bits)), va.drop (wordsOf bits)) else none

def toUnsigned (bits n : Nat) : Nat := n % 2 ^ bits

def toSigned (bits n : Nat) : Int := Int.bmod n (2 ^ bits)

/-- `switch(length)`: the variable keeps its value in the `default`. -/
def switchLength {α : Type} (cast : Nat → Nat → α) (old : α) (length : Length) (va : List UInt32) :
    Option (α × List UInt32) :=
  match length.bits with
  | some bits => (vaArg bits va).map fun arg => (cast bits arg.1, arg.2)
  | none => some (old, va)

/-- What is behind `print_num`: the pads, and `width` characters of the number or what is left of it. -/
def Spec.field (spec : Spec) (s : List UInt8) : List UInt8 :=
  if spec.width = 0 then s
  else List.replicate (spec.width - s.length) spec.pad ++ s.take spec.width

def printNum (spec : Spec) (base num : Nat) : Option (List UInt8) :=
  (intToString base 24 num []).map spec.field

/-- `format`, `va`, `num` and `signum` in front of a round. -/
structure Printing where
  format : List UInt8
  va : List UInt32
  num : Nat
  signum : Int
  deriving DecidableEq, Repr

/-- `baseconv`, with the prefix that has been written before. -/
def baseconv (base : Nat) (lead : List UInt8) (spec : Spec) (state : Printing) :
    Option (List UInt8 × Printing) :=
  match switchLength toUnsigned state.num spec.length state.va with
  | none => none
  | some (num, va) => (printNum spec base num).map fun field => (lead ++ field, { state with va, num })

/-- `%d`; `-signum` overflows for the least `long long`. -/
def signedconv (spec : Spec) (state : Printing) : Option (List UInt8 × Printing) :=
  match switchLength toSigned state.signum spec.length state.va with
  | none => none
  | some (signum, va) =>
      if signum = -9223372036854775808 then none
      else
        let lead := if signum < 0 then ['-'.toUInt8] else []
        (printNum spec 10 signum.natAbs).map fun field =>
          (lead ++ field, { state with va, signum, num := signum.natAbs })

/-- `%x` and `%X`, and what `%p` goes on with. -/
def hexconv (spec : Spec) : Printing → Option (List UInt8 × Printing) :=
  baseconv 16 (if spec.hash then ['0'.toUInt8, 'x'.toUInt8] else []) spec

def convert (string : UInt32 → List UInt8) (spec : Spec) (state : Printing) :
    Conversion → Option (List UInt8 × Printing)
  | .o => baseconv 8 (if spec.hash then ['0'.toUInt8] else []) spec state
  | .p => hexconv { spec with length := .long, hash := true } state
  | .x => hexconv spec state
  | .u => baseconv 10 [] spec state
  | .d => signedconv spec state
  | .s => (vaArg 32 state.va).map fun arg => (string (UInt32.ofNat arg.1), { state with va := arg.2 })
  | .c => (vaArg 32 state.va).map fun arg => ([UInt8.ofNat arg.1], { state with va := arg.2 })

/-- A round of the loop: what it writes and leaves, or nothing when it goes to `end`. -/
def printRound (string : UInt32 → List UInt8) (state : Printing) : Option (Option (List UInt8 × Printing)) :=
  match state.format with
  | [] => some none
  | c :: format =>
      if c ≠ '%'.toUInt8 then some (some ([c], { state with format }))
      else
        match scan format .initial with
        | none => none
        | some .ended => some none
        | some (.percent format) => some (some (['%'.toUInt8], { state with format }))
        | some (.conversion kind spec format) => (convert string spec { state with format } kind).map some

structure Round where
  bytes : List UInt8
  va : List UInt32
  deriving DecidableEq, Repr

/-- The rounds of the loop, at most `fuel` of them. -/
def printRounds (string : UInt32 → List UInt8) : Nat → Printing → Option (List Round)
  | 0, _ => none
  | fuel + 1, state =>
      match printRound string state with
      | none => none
      | some none => some []
      | some (some (bytes, state)) => (printRounds string fuel state).map (⟨bytes, state.va⟩ :: ·)

/-- `vprintf`: its rounds, the number of which it returns. -/
def vprintf (string : UInt32 → List UInt8) (format : List UInt8) (va : List UInt32) : Option (List Round) :=
  printRounds string (format.length + 1) ⟨format, va, 0, 0⟩

def written (rounds : List Round) : List UInt8 := rounds.flatMap Round.bytes

/-! ## The conversions -/

section Conversions

variable {spec : Spec} {base num bits : Nat} {words va : List UInt32}

theorem printNum_eq (large : 8 ≤ base) (small : num < 18446744073709551616) :
    printNum spec base num = some (spec.field (numeral base num)) := by
  unfold printNum
  rw [intToString_fits large small]
  rfl

/-- The words of an argument are fetched and no others. -/
theorem vaArg_append (size : words.length = wordsOf bits) :
    vaArg bits (words ++ va) = some (wordsValue words, va) := by
  unfold vaArg
  rw [if_pos (by rw [← size, List.length_append]; exact Nat.le_add_right _ _), List.take_left' size,
    List.drop_left' size]

theorem switchLength_append {α : Type} (cast : Nat → Nat → α) (old : α) {length : Length}
    (known : length.bits = some bits) (size : words.length = wordsOf bits) :
    switchLength cast old length (words ++ va) = some (cast bits (wordsValue words), va) := by
  unfold switchLength
  rw [known]
  dsimp only
  rw [vaArg_append size]
  rfl

theorem switchLength_default {α : Type} (cast : Nat → Nat → α) (old : α) {length : Length}
    (unknown : length.bits = none) : switchLength cast old length va = some (old, va) := by
  unfold switchLength
  rw [unknown]

theorem toUnsigned_lt (fits : bits ≤ 64) (n : Nat) : toUnsigned bits n < 18446744073709551616 :=
  calc n % 2 ^ bits < 2 ^ bits := Nat.mod_lt n (Nat.two_pow_pos bits)
    _ ≤ 2 ^ 64 := Nat.pow_le_pow_right Nat.zero_lt_two fits

theorem baseconv_eq (large : 8 ≤ base) (lead : List UInt8) {state : Printing}
    (fetched : switchLength toUnsigned state.num spec.length state.va = some (num, va))
    (small : num < 18446744073709551616) :
    baseconv base lead spec state =
      some (lead ++ spec.field (numeral base num), { state with va, num }) := by
  unfold baseconv
  rw [fetched]
  dsimp only
  rw [printNum_eq large small]
  rfl

end Conversions

/-! ## The rounds -/

section Rounds

variable {string : UInt32 → List UInt8} {state next : Printing} {bytes : List UInt8}

theorem printRounds_next (step : printRound string state = some (some (bytes, next))) (fuel : Nat) :
    printRounds string (fuel + 1) state = (printRounds string fuel next).map (⟨bytes, next.va⟩ :: ·) := by
  rw [printRounds, step]

theorem printRounds_end (step : printRound string state = some none) (fuel : Nat) :
    printRounds string (fuel + 1) state = some [] := by
  rw [printRounds, step]

theorem printRounds_none (step : printRound string state = none) (fuel : Nat) :
    printRounds string (fuel + 1) state = none := by
  rw [printRounds, step]

/-- A round with a conversion. -/
theorem printRound_conversion {format : List UInt8} {va : List UInt32} {num : Nat} {signum : Int} {spec : Spec}
    {kind : Conversion} {rest : List UInt8}
    (scanned : scan format .initial = some (.conversion kind spec rest)) :
    printRound string ⟨'%'.toUInt8 :: format, va, num, signum⟩ =
      (convert string spec ⟨rest, va, num, signum⟩ kind).map some := by
  unfold printRound
  dsimp only
  rw [if_neg (not_not.2 rfl), scanned]

end Rounds

end TrollOS.Text
