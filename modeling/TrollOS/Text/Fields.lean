import TrollOS.Text.Printf

/-!
# The integer fields of `vprintf`

A format is made of pieces, characters that stand for themselves and directives, and every directive
has the words of one argument of its type.  The pieces are printed right where the rounds of `vprintf`
write one complete field for each directive and take its words.
-/

namespace TrollOS.Text

inductive Letter
  | u | x | X | o | d | i
  deriving DecidableEq, Repr

def Letter.char : Letter → UInt8
  | .u => 'u'.toUInt8
  | .x => 'x'.toUInt8
  | .X => 'X'.toUInt8
  | .o => 'o'.toUInt8
  | .d => 'd'.toUInt8
  | .i => 'i'.toUInt8

/-- The case of the letter in `vprintf`. -/
def Letter.kind : Letter → Conversion
  | .u => .u
  | .x | .X => .x
  | .o => .o
  | .d | .i => .d

def Letter.base : Letter → Nat
  | .u | .d | .i => 10
  | .x | .X => 16
  | .o => 8

def Letter.signed : Letter → Bool
  | .d | .i => true
  | .u | .x | .X | .o => false

def Length.modifier : Length → List UInt8
  | .char => ['h'.toUInt8, 'h'.toUInt8]
  | .short => ['h'.toUInt8]
  | .int => []
  | .long => ['l'.toUInt8]
  | .longLong => ['l'.toUInt8, 'l'.toUInt8]
  | .intmaxT => ['j'.toUInt8]
  | .sizeT => ['z'.toUInt8]
  | .ptrdiffT => ['t'.toUInt8]

/-- The bits of the type a length names. -/
def Length.typeBits : Length → Nat
  | .char => 8
  | .short => 16
  | .int | .long | .sizeT | .ptrdiffT => 32
  | .longLong | .intmaxT => 64

/-- A directive with the words of its argument; width 0 stands for none. -/
structure Directive where
  hash : Bool
  zero : Bool
  width : Nat
  length : Length
  letter : Letter
  words : List UInt32
  matching : words.length = wordsOf length.typeBits

namespace Directive

/-- The characters between the `%` and the letter. -/
def options (d : Directive) : List UInt8 :=
  (if d.hash then ['#'.toUInt8] else []) ++ ((if d.zero then ['0'.toUInt8] else []) ++
    ((if d.width = 0 then [] else numeral 10 d.width) ++ d.length.modifier))

def value (d : Directive) : Int :=
  if d.letter.signed then toSigned d.length.typeBits (wordsValue d.words)
  else toUnsigned d.length.typeBits (wordsValue d.words)

def digits (d : Directive) : List UInt8 := numeral d.letter.base d.value.natAbs

/-- The sign or the prefix. -/
def lead (d : Directive) : List UInt8 :=
  match d.letter with
  | .d | .i => if d.value < 0 then ['-'.toUInt8] else []
  | .x | .X => if d.hash then ['0'.toUInt8, 'x'.toUInt8] else []
  | .o => if d.hash then ['0'.toUInt8] else []
  | .u => []

def pad (d : Directive) : UInt8 := if d.zero then '0'.toUInt8 else ' '.toUInt8

/-- What is scanned of a directive. -/
def spec (d : Directive) : Spec := ⟨d.length, d.width, d.hash, d.pad⟩

/-- The whole numeral with its sign or prefix, padded to the width. -/
structure IsField (d : Directive) (bytes : List UInt8) : Prop where
  length : bytes.length = max d.width (d.lead ++ d.digits).length
  padded : ∃ pads, (∀ c ∈ pads, c = d.pad) ∧
    (bytes = d.lead ++ pads ++ d.digits ∨ bytes = pads ++ d.lead ++ d.digits)

/-- The width leaves room for the numeral, and for nothing else besides a sign or prefix. -/
def Roomy (d : Directive) : Prop :=
  d.width = 0 ∨ d.digits.length ≤ d.width ∧ (d.lead = [] ∨ d.width = d.digits.length)

/-- What a directive has to be like to be printed right. -/
structure Whole (d : Directive) : Prop where
  fetched : d.length ≠ .intmaxT ∧ d.length ≠ .sizeT ∧ d.length ≠ .ptrdiffT
  narrow : d.width ≤ 2147483647
  negated : d.letter.signed = true → d.value ≠ -9223372036854775808
  roomy : d.Roomy

end Directive

inductive Piece
  | literal (c : UInt8) (plain : c ≠ '%'.toUInt8) (text : c ≠ 0)
  | directive (d : Directive)

def Piece.chars : Piece → List UInt8
  | .literal c _ _ => [c]
  | .directive d => '%'.toUInt8 :: (d.options ++ [d.letter.char])

def Piece.words : Piece → List UInt32
  | .literal _ _ _ => []
  | .directive d => d.words

def formatOf (pieces : List Piece) : List UInt8 := pieces.flatMap Piece.chars

def wordsOfPieces (pieces : List Piece) : List UInt32 := pieces.flatMap Piece.words

/-- One round for each piece, which takes the words of the piece and writes its field. -/
def Complete : List Piece → List UInt32 → List Round → Prop
  | [], _, rounds => rounds = []
  | _ :: _, _, [] => False
  | .literal c _ _ :: pieces, va, round :: rounds => round = ⟨[c], va⟩ ∧ Complete pieces va rounds
  | .directive d :: pieces, va, round :: rounds =>
      va = d.words ++ round.va ∧ d.IsField round.bytes ∧ Complete pieces round.va rounds

/-! ## Scanning -/

section Scanning

variable {spec : Spec} {rest : List UInt8}

theorem scan_digit {d : Nat} (small : d < 10) (later : d ≠ 0 ∨ spec.width ≠ 0) :
    scan (digit d :: rest) spec =
      if spec.width * 10 + d ≤ 2147483647 then scan rest { spec with width := spec.width * 10 + d } else none := by
  have mark : ∀ d < 10, Mark.ofChar (digit d) = .digit d := by decide
  have other : ¬(d = 0 ∧ spec.width = 0) := by
    rintro ⟨zero, none⟩
    rcases later with nonzero | some
    · exact nonzero zero
    · exact some none
  rw [scan, mark d small]
  exact if_neg other

/-- The width is read, unless it overflows. -/
theorem scan_width {width : Nat} (positive : 0 < width) (fresh : spec.width = 0) :
    scan (numeral 10 width ++ rest) spec =
      if width ≤ 2147483647 then scan rest { spec with width } else none := by
  induction width using Nat.strongRecOn generalizing rest with
  | ind width ih =>
      by_cases last : width / 10 = 0
      · have small : width < 10 := (Nat.div_eq_zero_iff_lt (by decide)).1 last
        rw [numeral_last small, List.singleton_append, scan_digit small (Or.inl (Nat.ne_of_gt positive)), fresh,
          Nat.zero_mul, Nat.zero_add]
      · have less : width / 10 < width := Nat.div_lt_self positive (by decide)
        rw [numeral_more (by decide) last, List.append_assoc, List.singleton_append,
          ih _ less (Nat.pos_of_ne_zero last)]
        by_cases fits : width / 10 ≤ 2147483647
        · rw [if_pos fits, scan_digit (Nat.mod_lt _ (by decide)) (Or.inr last)]
          dsimp only
          rw [Nat.div_add_mod']
        · rw [if_neg fits, if_neg (by omega)]

theorem scan_zero (fresh : spec.width = 0) :
    scan ('0'.toUInt8 :: rest) spec = scan rest { spec with pad := '0'.toUInt8 } := by
  have mark : Mark.ofChar '0'.toUInt8 = .digit 0 := by decide
  rw [scan, mark]
  exact if_pos ⟨rfl, fresh⟩

theorem scan_modifier (length : Length) (fresh : spec.length = .int) :
    scan (length.modifier ++ rest) spec = scan rest { spec with length } := by
  obtain ⟨_, width, hash, pad⟩ := spec
  obtain rfl : _ = Length.int := fresh
  cases length with
  | char => rfl
  | short => rfl
  | int => rfl
  | long => rfl
  | longLong => rfl
  | intmaxT => rfl
  | sizeT => rfl
  | ptrdiffT => rfl

theorem scan_letter (letter : Letter) :
    scan (letter.char :: rest) spec = some (.conversion letter.kind spec rest) := by
  cases letter with
  | u => rfl
  | x => rfl
  | X => rfl
  | o => rfl
  | d => rfl
  | i => rfl

/-- A directive is scanned as it is meant, unless its width overflows. -/
theorem scan_directive (d : Directive) (rest : List UInt8) :
    scan (d.options ++ d.letter.char :: rest) .initial =
      if d.width ≤ 2147483647 then some (.conversion d.letter.kind d.spec rest) else none := by
  have hashed : ∀ more, scan ((if d.hash then ['#'.toUInt8] else []) ++ more) .initial =
      scan more ⟨.int, 0, d.hash, ' '.toUInt8⟩ := by
    intro more
    cases d.hash with
    | false => rfl
    | true => rfl
  have zeroed : ∀ more, scan ((if d.zero then ['0'.toUInt8] else []) ++ more) ⟨.int, 0, d.hash, ' '.toUInt8⟩ =
      scan more ⟨.int, 0, d.hash, d.pad⟩ := by
    intro more
    unfold Directive.pad
    cases d.zero with
    | false => rfl
    | true => exact scan_zero rfl
  have widened : ∀ more, scan ((if d.width = 0 then [] else numeral 10 d.width) ++ more) ⟨.int, 0, d.hash, d.pad⟩ =
      if d.width ≤ 2147483647 then scan more ⟨.int, d.width, d.hash, d.pad⟩ else none := by
    intro more
    by_cases none : d.width = 0
    · rw [if_pos none, if_pos (by rw [none]; exact Nat.zero_le _), none]
      rfl
    · rw [if_neg none]
      exact scan_width (Nat.pos_of_ne_zero none) rfl
  unfold Directive.options
  rw [List.append_assoc, List.append_assoc, List.append_assoc, hashed, zeroed, widened,
    scan_modifier d.length rfl, scan_letter]
  rfl

end Scanning
/-! ## Converting -/

/-- `vprintf` has a case for a length, or leaves its argument. -/
theorem Length.bits_or (length : Length) :
    length.bits = some length.typeBits ∧ (length ≠ .intmaxT ∧ length ≠ .sizeT ∧ length ≠ .ptrdiffT) ∨
      length.bits = none ∧ ¬(length ≠ .intmaxT ∧ length ≠ .sizeT ∧ length ≠ .ptrdiffT) := by
  cases length <;> decide

theorem Length.typeBits_le (length : Length) : length.typeBits ≤ 64 := by
  cases length <;> decide

theorem Letter.base_le (letter : Letter) : 8 ≤ letter.base := by
  cases letter <;> decide

section Converting

variable {string : UInt32 → List UInt8} {d : Directive}

theorem convert_unsigned (unsigned : d.letter.signed = false) (state : Printing) :
    convert string d.spec state d.letter.kind = baseconv d.letter.base d.lead d.spec state := by
  obtain ⟨hash, zero, width, length, letter, words, matching⟩ := d
  cases letter with
  | u => rfl
  | x => rfl
  | X => rfl
  | o => rfl
  | d => cases unsigned
  | i => cases unsigned

theorem convert_signed (string : UInt32 → List UInt8) (signed : d.letter.signed = true) (state : Printing) :
    convert string d.spec state d.letter.kind = signedconv d.spec state ∧ d.letter.base = 10 ∧
      d.lead = if d.value < 0 then ['-'.toUInt8] else [] := by
  obtain ⟨hash, zero, width, length, letter, words, matching⟩ := d
  cases letter with
  | d => exact ⟨rfl, rfl, rfl⟩
  | i => exact ⟨rfl, rfl, rfl⟩
  | u => cases signed
  | x => cases signed
  | X => cases signed
  | o => cases signed

theorem toSigned_natAbs {bits : Nat} (fits : bits ≤ 64) (n : Nat) :
    (toSigned bits n).natAbs < 18446744073709551616 := by
  have some : 0 < 2 ^ bits := Nat.two_pow_pos bits
  have most : 2 ^ bits ≤ 2 ^ 64 := Nat.pow_le_pow_right Nat.zero_lt_two fits
  have above := Int.bmod_lt (x := n) some
  have below := Int.le_bmod (x := n) some
  unfold toSigned
  omega

theorem fetch_known {α : Type} (cast : Nat → Nat → α) (old : α) (known : d.length.bits = some d.length.typeBits)
    (va : List UInt32) :
    switchLength cast old d.spec.length (d.words ++ va) = some (cast d.length.typeBits (wordsValue d.words), va) :=
  switchLength_append cast old known d.matching

/-- A directive with a length `vprintf` knows writes its field and takes its words. -/
theorem convert_known (known : d.length.bits = some d.length.typeBits)
    (negated : d.letter.signed = true → d.value ≠ -9223372036854775808) (string : UInt32 → List UInt8)
    (rest : List UInt8) (va : List UInt32) (num : Nat) (signum : Int) :
    ∃ num' signum', convert string d.spec ⟨rest, d.words ++ va, num, signum⟩ d.letter.kind =
      some (d.lead ++ d.spec.field d.digits, ⟨rest, va, num', signum'⟩) := by
  unfold Directive.digits
  cases sign : d.letter.signed with
  | false =>
      have value : d.value = toUnsigned d.length.typeBits (wordsValue d.words) := by
        unfold Directive.value
        rw [sign]
        rfl
      rw [convert_unsigned sign, value, Int.natAbs_natCast]
      exact ⟨_, _, baseconv_eq d.letter.base_le d.lead (fetch_known toUnsigned num known va)
        (toUnsigned_lt d.length.typeBits_le _)⟩
  | true =>
      have value : d.value = toSigned d.length.typeBits (wordsValue d.words) := by
        unfold Directive.value
        rw [sign]
        rfl
      obtain ⟨conv, base, lead⟩ := convert_signed string sign ⟨rest, d.words ++ va, num, signum⟩
      have small := toSigned_natAbs d.length.typeBits_le (wordsValue d.words)
      rw [conv, base, lead]
      unfold signedconv
      rw [fetch_known toSigned signum known va, ← value]
      rw [← value] at small
      dsimp only
      rw [if_neg (negated sign), printNum_eq (by decide) small]
      exact ⟨_, _, rfl⟩

/-- The least `long long` cannot be negated. -/
theorem convert_least (known : d.length.bits = some d.length.typeBits) (sign : d.letter.signed = true)
    (least : d.value = -9223372036854775808) (rest : List UInt8) (va : List UInt32) (num : Nat) (signum : Int) :
    convert string d.spec ⟨rest, d.words ++ va, num, signum⟩ d.letter.kind = none := by
  have value : d.value = toSigned d.length.typeBits (wordsValue d.words) := by
    unfold Directive.value
    rw [sign]
    rfl
  rw [(convert_signed string sign _).1]
  unfold signedconv
  rw [fetch_known toSigned signum known va, ← value]
  exact if_pos least

/-- With the other lengths nothing is taken. -/
theorem convert_unknown (unknown : d.length.bits = none) {state next : Printing} {bytes : List UInt8}
    (conv : convert string d.spec state d.letter.kind = some (bytes, next)) : next.va = state.va := by
  have unsigned : switchLength toUnsigned state.num d.spec.length state.va = some (state.num, state.va) :=
    switchLength_default toUnsigned state.num unknown
  have signed : switchLength toSigned state.signum d.spec.length state.va = some (state.signum, state.va) :=
    switchLength_default toSigned state.signum unknown
  cases sign : d.letter.signed with
  | false =>
      rw [convert_unsigned sign] at conv
      unfold baseconv at conv
      rw [unsigned] at conv
      obtain ⟨field, -, same⟩ := Option.map_eq_some_iff.1 conv
      rw [← (Prod.mk.inj same).2]
  | true =>
      rw [(convert_signed string sign state).1] at conv
      unfold signedconv at conv
      rw [signed] at conv
      dsimp only at conv
      split at conv
      · cases conv
      · obtain ⟨field, -, same⟩ := Option.map_eq_some_iff.1 conv
        rw [← (Prod.mk.inj same).2]

end Converting

/-! ## The field of a directive -/

theorem Directive.digits_pos (d : Directive) : 0 < d.digits.length :=
  numeral_pos (Nat.lt_of_lt_of_le (by decide) d.letter.base_le) _

/-- What `vprintf` writes is the whole field if there is room. -/
theorem isField_iff (d : Directive) : d.IsField (d.lead ++ d.spec.field d.digits) ↔ d.Roomy := by
  have some : 0 < d.digits.length := Directive.digits_pos d
  have long : (d.lead ++ d.spec.field d.digits).length =
      d.lead.length + if d.width = 0 then d.digits.length
        else d.width - d.digits.length + min d.width d.digits.length := by
    rw [List.length_append]
    congr 1
    by_cases none : d.width = 0
    · rw [if_pos none]
      exact congrArg List.length (if_pos none)
    · have field : d.spec.field d.digits =
          List.replicate (d.width - d.digits.length) d.pad ++ d.digits.take d.width := if_neg none
      rw [if_neg none, field, List.length_append, List.length_replicate, List.length_take]
  constructor
  · intro whole
    have length := whole.length
    rw [long, List.length_append] at length
    unfold Directive.Roomy
    by_cases none : d.width = 0
    · exact Or.inl none
    · rw [if_neg none] at length
      rw [← List.length_eq_zero_iff]
      omega
  · intro roomy
    have given : d.digits.length ≤ d.width → d.width ≠ 0 := fun enough =>
      Nat.ne_of_gt (Nat.lt_of_lt_of_le some enough)
    refine ⟨?_, List.replicate (d.width - d.digits.length) d.pad, fun c => List.eq_of_mem_replicate, Or.inl ?_⟩
    · rw [long, List.length_append]
      rcases roomy with none | ⟨enough, bare | full⟩
      · rw [if_pos none, none, Nat.zero_max]
      · rw [if_neg (given enough), bare, List.length_nil]
        omega
      · rw [if_neg (given enough)]
        omega
    · rw [List.append_assoc]
      congr 1
      rcases roomy with none | ⟨enough, -⟩
      · rw [none, Nat.zero_sub, List.replicate_zero, List.nil_append]
        exact if_pos none
      · have field : d.spec.field d.digits =
            List.replicate (d.width - d.digits.length) d.pad ++ d.digits.take d.width :=
          if_neg (given enough)
        rw [field, List.take_of_length_le enough]

/-! ## The run over the pieces -/

section Runs

variable {string : UInt32 → List UInt8}

/-- The round of a directive. -/
theorem printRound_directive (d : Directive) (rest : List UInt8) (va : List UInt32) (num : Nat) (signum : Int) :
    printRound string ⟨(Piece.directive d).chars ++ rest, va, num, signum⟩ =
      if d.width ≤ 2147483647 then (convert string d.spec ⟨rest, va, num, signum⟩ d.letter.kind).map some
      else none := by
  have scanned := scan_directive d rest
  have chars : (Piece.directive d).chars ++ rest = '%'.toUInt8 :: (d.options ++ d.letter.char :: rest) := by
    unfold Piece.chars
    rw [List.cons_append, List.append_assoc, List.singleton_append]
  rw [chars]
  by_cases narrow : d.width ≤ 2147483647
  · rw [if_pos narrow] at scanned ⊢
    exact printRound_conversion scanned
  · rw [if_neg narrow] at scanned ⊢
    unfold printRound
    dsimp only
    rw [if_neg (not_not.2 rfl), scanned]

/-- The round of a directive that is printed right. -/
theorem printRound_whole (string : UInt32 → List UInt8) {d : Directive} (whole : d.Whole) (rest : List UInt8)
    (va : List UInt32) (num : Nat) (signum : Int) :
    ∃ bytes num' signum', d.IsField bytes ∧
      printRound string ⟨(Piece.directive d).chars ++ rest, d.words ++ va, num, signum⟩ =
        some (some (bytes, ⟨rest, va, num', signum'⟩)) := by
  rcases d.length.bits_or with ⟨known, -⟩ | ⟨-, other⟩
  · obtain ⟨num', signum', conv⟩ := convert_known known whole.negated string rest va num signum
    refine ⟨_, num', signum', (isField_iff d).2 whole.roomy, ?_⟩
    rw [printRound_directive, if_pos whole.narrow, conv]
    rfl
  · exact absurd whole.fetched other

/-- A directive whose round writes its field and takes its words is printed right. -/
theorem whole_of_round {d : Directive} {rest bytes : List UInt8} {va : List UInt32} {num : Nat} {signum : Int}
    {next : Printing}
    (step : printRound string ⟨(Piece.directive d).chars ++ rest, d.words ++ va, num, signum⟩ =
      some (some (bytes, next)))
    (taken : d.words ++ va = d.words ++ next.va) (field : d.IsField bytes) :
    d.Whole ∧ ∃ num' signum', next = ⟨rest, va, num', signum'⟩ := by
  rw [printRound_directive] at step
  by_cases narrow : d.width ≤ 2147483647
  · rw [if_pos narrow] at step
    obtain ⟨_, conv, same⟩ := Option.map_eq_some_iff.1 step
    obtain rfl := Option.some.inj same
    rcases d.length.bits_or with ⟨known, named⟩ | ⟨unknown, -⟩
    · have negated : d.letter.signed = true → d.value ≠ -9223372036854775808 := by
        intro sign least
        rw [convert_least known sign least] at conv
        cases conv
      obtain ⟨num', signum', conv'⟩ := convert_known known negated string rest va num signum
      rw [conv'] at conv
      obtain ⟨rfl, rfl⟩ := Prod.mk.inj (Option.some.inj conv)
      exact ⟨⟨named, narrow, negated, (isField_iff d).1 field⟩, num', signum', rfl⟩
    · have left := congrArg List.length taken
      have some : 0 < d.words.length := by
        rw [d.matching]
        cases d.length <;> decide
      rw [convert_unknown unknown conv, List.length_append, List.length_append, List.length_append] at left
      omega
  · rw [if_neg narrow] at step
    cases step

theorem printRound_literal (string : UInt32 → List UInt8) {c : UInt8} (plain : c ≠ '%'.toUInt8)
    (rest : List UInt8) (va : List UInt32) (num : Nat) (signum : Int) :
    printRound string ⟨c :: rest, va, num, signum⟩ = some (some ([c], ⟨rest, va, num, signum⟩)) :=
  if_pos plain

/-- What a run has to do after a round that goes on. -/
theorem run_next {state next : Printing} {bytes : List UInt8}
    (step : printRound string state = some (some (bytes, next))) {fuel : Nat} {Right : List Round → Prop} :
    (∃ rounds, printRounds string (fuel + 1) state = some rounds ∧ Right rounds) ↔
      ∃ rounds, printRounds string fuel next = some rounds ∧ Right (⟨bytes, next.va⟩ :: rounds) := by
  rw [printRounds_next step]
  constructor
  · rintro ⟨_, run, right⟩
    obtain ⟨rounds, run', rfl⟩ := Option.map_eq_some_iff.1 run
    exact ⟨rounds, run', right⟩
  · rintro ⟨rounds, run, right⟩
    exact ⟨_, by rw [run]; rfl, right⟩

theorem printRounds_complete_iff (pieces : List Piece) (va : List UInt32) (num : Nat) (signum : Int) {fuel : Nat}
    (enough : pieces.length < fuel) :
    (∃ rounds, printRounds string fuel ⟨formatOf pieces, wordsOfPieces pieces ++ va, num, signum⟩ = some rounds ∧
        Complete pieces (wordsOfPieces pieces ++ va) rounds) ↔
      ∀ d, .directive d ∈ pieces → d.Whole := by
  induction pieces generalizing num signum fuel with
  | nil =>
      obtain ⟨fuel, rfl⟩ := Nat.exists_eq_succ_of_ne_zero (Nat.ne_of_gt enough)
      exact iff_of_true ⟨[], printRounds_end rfl fuel, rfl⟩ fun _ member => absurd member List.not_mem_nil
  | cons piece pieces ih =>
      obtain ⟨fuel, rfl⟩ := Nat.exists_eq_succ_of_ne_zero (Nat.ne_of_gt (Nat.lt_of_le_of_lt (Nat.zero_le _) enough))
      have enough' : pieces.length < fuel := Nat.lt_of_succ_lt_succ enough
      have words : wordsOfPieces (piece :: pieces) ++ va = piece.words ++ (wordsOfPieces pieces ++ va) :=
        List.append_assoc piece.words (wordsOfPieces pieces) va
      rw [words]
      cases piece with
      | literal c plain text =>
          have step := printRound_literal string plain (formatOf pieces) (wordsOfPieces pieces ++ va) num signum
          constructor
          · intro run d member
            obtain ⟨rounds, run', -, right⟩ := (run_next step).1 run
            rcases List.mem_cons.1 member with same | later
            · cases same
            · exact (ih num signum enough').1 ⟨rounds, run', right⟩ d later
          · intro all
            obtain ⟨rounds, run, right⟩ :=
              (ih num signum enough').2 fun d member => all d (List.mem_cons_of_mem _ member)
            exact (run_next step).2 ⟨rounds, run, rfl, right⟩
      | directive d =>
          constructor
          · rintro ⟨rounds, run, right⟩
            cases step : printRound string
                ⟨(Piece.directive d).chars ++ formatOf pieces, d.words ++ (wordsOfPieces pieces ++ va), num, signum⟩ with
            | none =>
                cases (printRounds_none step fuel).symm.trans run
            | some outcome =>
                cases outcome with
                | none =>
                    obtain rfl := Option.some.inj ((printRounds_end step fuel).symm.trans run)
                    exact right.elim
                | some after =>
                    obtain ⟨rounds', run', taken, field, right'⟩ := (run_next step).1 ⟨rounds, run, right⟩
                    obtain ⟨whole, num', signum', same⟩ := whole_of_round step taken field
                    rw [same] at run' right'
                    intro other member
                    rcases List.mem_cons.1 member with here | later
                    · obtain rfl := Piece.directive.inj here
                      exact whole
                    · exact (ih num' signum' enough').1 ⟨rounds', run', right'⟩ other later
          · intro all
            obtain ⟨bytes, num', signum', field, step⟩ := printRound_whole string
              (all d List.mem_cons_self) (formatOf pieces) (wordsOfPieces pieces ++ va) num signum
            obtain ⟨rounds, run, right⟩ :=
              (ih num' signum' enough').2 fun d member => all d (List.mem_cons_of_mem _ member)
            exact (run_next step).2 ⟨rounds, run, rfl, field, right⟩

theorem length_le_formatOf (pieces : List Piece) : pieces.length ≤ (formatOf pieces).length := by
  induction pieces with
  | nil => exact Nat.zero_le _
  | cons piece pieces ih =>
      have some : 1 ≤ piece.chars.length := by
        cases piece with
        | literal c plain text => exact Nat.le_refl 1
        | directive d => exact Nat.succ_le_succ (Nat.zero_le _)
      have split : (formatOf (piece :: pieces)).length = piece.chars.length + (formatOf pieces).length :=
        List.length_append
      rw [List.length_cons, split, Nat.add_comm]
      exact Nat.add_le_add some ih

/-- The fields of a format are complete for the directives that are printed right. -/
theorem vprintf_complete_iff (string : UInt32 → List UInt8) (pieces : List Piece) (va : List UInt32) :
    (∃ rounds, vprintf string (formatOf pieces) (wordsOfPieces pieces ++ va) = some rounds ∧
        Complete pieces (wordsOfPieces pieces ++ va) rounds) ↔
      ∀ d, .directive d ∈ pieces → d.Whole :=
  printRounds_complete_iff pieces va 0 0 (Nat.lt_succ_of_le (length_le_formatOf pieces))

/-- `%2u` of 100 is cut to two digits. -/
theorem narrow_field_cut :
    vprintf (fun _ => []) ['%'.toUInt8, '2'.toUInt8, 'u'.toUInt8] [100] =
        some [⟨['1'.toUInt8, '0'.toUInt8], []⟩] ∧
      ∃ d : Directive, formatOf [.directive d] = ['%'.toUInt8, '2'.toUInt8, 'u'.toUInt8] ∧ d.words = [100] ∧
        ¬∃ rounds, vprintf (fun _ => []) (formatOf [.directive d]) (wordsOfPieces [.directive d]) = some rounds ∧
          Complete [.directive d] (wordsOfPieces [.directive d]) rounds := by
  have printed : vprintf (fun _ => []) ['%'.toUInt8, '2'.toUInt8, 'u'.toUInt8] [100] =
      some [⟨['1'.toUInt8, '0'.toUInt8], []⟩] := by decide
  have format : formatOf [.directive ⟨false, false, 2, .int, .u, [100], rfl⟩] =
      ['%'.toUInt8, '2'.toUInt8, 'u'.toUInt8] := by decide
  refine ⟨printed, ⟨false, false, 2, .int, .u, [100], rfl⟩, format, rfl, ?_⟩
  rintro ⟨rounds, run, right⟩
  rw [format] at run
  obtain rfl := Option.some.inj (printed.symm.trans run)
  obtain ⟨-, field, -⟩ := right
  exact absurd field.length (by decide)

end Runs

end TrollOS.Text
