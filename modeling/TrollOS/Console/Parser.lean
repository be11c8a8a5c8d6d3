import Mathlib.Data.List.Induction
import TrollOS.Console.Model

/-!
# Escape sequences and the argument array

A reader of the text that knows no array says which sequences it holds and what their
parameters are.  The parser of the console keeps its stores inside `arg`, and hands
`_csi` the numbers of the text, exactly on the texts that never give one sequence more
than ten parameters and no number that an `int` cannot hold.
-/

namespace TrollOS.Console

/-- Where a reader of a text is: outside any sequence, after an escape byte, or among the
parameters of a sequence, the last of which may still be growing. -/
inductive Reading where
  | plain
  | escape
  | parameters (finished : List (Option Nat)) (current : Option Nat)
  deriving DecidableEq, Repr

/-- A sequence with its parameters, empty ones among them, and its final byte. -/
structure Sequence where
  parameters : List (Option Nat)
  final : UInt8
  deriving DecidableEq, Repr

namespace Reading

def next : Reading → UInt8 → Reading × List Sequence
  | plain, byte => (if byte = 27 then escape else plain, [])
  | escape, byte => (if byte = 91 then parameters [] none else plain, [])
  | parameters finished current, byte =>
      if byte = 59 then (parameters (finished ++ [current]) none, [])
      else if 48 ≤ byte ∧ byte ≤ 57 then
        (parameters finished (some (current.getD 0 * 10 + (byte.toNat - 48))), [])
      else (plain, [⟨finished ++ [current], byte⟩])

def finished : Reading → List (Option Nat)
  | plain => []
  | escape => []
  | parameters finished _ => finished

end Reading

def readText (text : List UInt8) : Reading × List Sequence :=
  text.foldl
    (fun (reading, sequences) byte =>
      ((reading.next byte).1, sequences ++ (reading.next byte).2))
    (.plain, [])

@[simp] theorem readText_nil : readText [] = (.plain, []) := rfl

theorem readText_snoc (text : List UInt8) (byte : UInt8) :
    readText (text ++ [byte]) =
      (((readText text).1.next byte).1,
        (readText text).2 ++ ((readText text).1.next byte).2) := by
  simp [readText, List.foldl_append]

theorem readText_of_early {before text : List UInt8} (early : before <+: text) :
    (readText before).2 <+: (readText text).2 := by
  obtain ⟨rest, rfl⟩ := early
  induction rest using List.reverseRecOn with
  | nil => simp
  | append_singleton rest byte ih =>
      rw [← List.append_assoc, readText_snoc]
      exact ih.trans (List.prefix_append _ _)

/-- No sequence has more than ten parameters. -/
def Few (found : Reading × List Sequence) : Prop :=
  found.1.finished.length ≤ 10 ∧ ∀ q ∈ found.2, q.parameters.length ≤ 10

/-- The texts the argument array is large enough for. -/
structure Fits (text : List UInt8) : Prop where
  few : ∀ before, before <+: text → Few (readText before)
  small : ∀ q ∈ (readText text).2, ∀ n, some n ∈ q.parameters → n ≤ 2147483647

/-- What `_csi` should find for a parameter: its number, or -1 where it is empty. -/
def number : Option Nat → Int
  | none => -1
  | some n => n

def stored : Option Nat → Int
  | none => -1
  | some n => signed n

namespace ArgEvent

/-- Only elements of `arg` are touched. -/
def InArray : ArgEvent → Prop
  | store index => 0 ≤ index ∧ index < 10
  | read index => 0 ≤ index ∧ index < 10
  | dispatch _ _ => True

def call? : ArgEvent → Option (Int × List Int)
  | dispatch cmd args => some (cmd, args)
  | _ => none

end ArgEvent

def calls (trace : List ArgEvent) : List (Int × List Int) :=
  trace.filterMap ArgEvent.call?

@[simp] theorem calls_append (first second : List ArgEvent) :
    calls (first ++ second) = calls first ++ calls second :=
  List.filterMap_append

variable {β : Type}

/-- After these writes the count is in range, `arg` was never left, and each sequence
was handed over with the numbers of its first ten parameters. -/
def ParsedRight (ops : Backend β) (backend : β) (bufs : List (List UInt8)) : Prop :=
  ∃ s, (boot backend).writes ops bufs = some s ∧
    0 ≤ s.parser.argc ∧ s.parser.argc ≤ 10 ∧
    (∀ e ∈ s.trace, e.InArray) ∧
    calls s.trace = (readText bufs.flatten).2.map fun q =>
      (toChar q.final, (q.parameters.take 10).map number)

/-! ## Reading arguments -/

/-- Nothing happened to the parser but reads of `arg` below `limit`. -/
def Reads (limit : Int) (s s' : State β) : Prop :=
  s'.parser = s.parser ∧
    ∃ indices : List Int, s'.trace = s.trace ++ indices.map .read ∧
      ∀ index ∈ indices, 0 ≤ index ∧ index < limit

namespace Reads

theorem refl (limit : Int) (s : State β) : Reads limit s s :=
  ⟨rfl, [], by simp, by simp⟩

theorem same {limit : Int} {s s' : State β} (parser : s'.parser = s.parser)
    (trace : s'.trace = s.trace) : Reads limit s s' :=
  ⟨parser, [], by simp [trace], by simp⟩

theorem trans {limit : Int} {s middle s' : State β} (first : Reads limit s middle)
    (second : Reads limit middle s') : Reads limit s s' := by
  obtain ⟨parser, indices, trace, below⟩ := first
  obtain ⟨parser', indices', trace', below'⟩ := second
  refine ⟨parser'.trans parser, indices ++ indices', by simp [trace', trace], ?_⟩
  intro index among
  rcases List.mem_append.mp among with old | new
  · exact below index old
  · exact below' index new

/-- Reads inside the array touch nothing else, and call nothing. -/
theorem events {s s' : State β} (reads : Reads 10 s s') :
    ∃ events, s'.trace = s.trace ++ events ∧ (∀ e ∈ events, e.InArray) ∧
      calls events = [] := by
  obtain ⟨_, indices, trace, below⟩ := reads
  refine ⟨indices.map .read, trace, ?_, ?_⟩
  · intro e among
    obtain ⟨index, inside, rfl⟩ := List.mem_map.mp among
    exact below index inside
  · simp [calls, ArgEvent.call?, Function.comp_def]

end Reads

namespace State

theorem readArg_reads {limit index value : Int} {s s' : State β} (nonneg : 0 ≤ index)
    (below : index < limit) (done : s.readArg index = some (value, s')) : Reads limit s s' := by
  obtain ⟨found, -, same⟩ := Option.map_eq_some_iff.mp done
  obtain ⟨-, rfl⟩ := Prod.mk.inj same
  exact ⟨rfl, [index], rfl, by simpa using ⟨nonneg, below⟩⟩

theorem readArg_some (s : State β) {index : Int} (nonneg : 0 ≤ index) (below : index < 10) :
    ∃ value s', s.readArg index = some (value, s') := by
  have inside : index.toNat < 10 := by omega
  refine ⟨s.parser.arg[index.toNat], { s with trace := s.trace ++ [.read index] }, ?_⟩
  simp [readArg, Parser.load, nonneg, below, inside]

theorem delta_reads {argc limit delta : Int} {s s' : State β} (positive : 0 < limit)
    (done : s.delta argc = some (delta, s')) : Reads limit s s' := by
  unfold State.delta at done
  split at done
  · obtain ⟨⟨value, next⟩, read, same⟩ := Option.map_eq_some_iff.mp done
    obtain ⟨-, rfl⟩ := Prod.mk.inj same
    exact readArg_reads le_rfl positive read
  · obtain ⟨-, rfl⟩ := Prod.mk.inj (Option.some.inj done)
    exact Reads.refl limit s

theorem delta_some (s : State β) (argc : Int) : ∃ delta s', s.delta argc = some (delta, s') := by
  unfold State.delta
  split
  · obtain ⟨value, s', read⟩ := s.readArg_some le_rfl (by decide : (0 : Int) < 10)
    exact ⟨_, s', by rw [read]; rfl⟩
  · exact ⟨1, s, rfl⟩

theorem direction_reads {argc limit : Int} {dir : ClearDirection} {s s' : State β}
    (positive : 0 < limit) (done : s.direction argc = some (dir, s')) : Reads limit s s' := by
  unfold State.direction at done
  split at done
  · obtain ⟨-, rfl⟩ := Prod.mk.inj (Option.some.inj done)
    exact Reads.refl limit s
  · obtain ⟨⟨value, next⟩, read, same⟩ := Option.map_eq_some_iff.mp done
    obtain ⟨-, rfl⟩ := Prod.mk.inj same
    exact readArg_reads le_rfl positive read

theorem direction_some (s : State β) (argc : Int) :
    ∃ dir s', s.direction argc = some (dir, s') := by
  unfold State.direction
  split
  · exact ⟨.forward, s, rfl⟩
  · obtain ⟨value, s', read⟩ := s.readArg_some le_rfl (by decide : (0 : Int) < 10)
    exact ⟨_, s', by rw [read]; rfl⟩

theorem setAttribute_same (s : State β) (value : Int) :
    (s.setAttribute value).parser = s.parser ∧ (s.setAttribute value).trace = s.trace ∧
      (s.setAttribute value).backend = s.backend := by
  unfold setAttribute resetAttributes
  split_ifs <;> exact ⟨rfl, rfl, rfl⟩

theorem attributeLoop_reads {limit : Int} {indices : List Nat} {s s' : State β}
    (below : ∀ i ∈ indices, (i : Int) < limit) (done : s.attributeLoop indices = some s') :
    Reads limit s s' := by
  induction indices generalizing s with
  | nil =>
      obtain rfl := Option.some.inj done
      exact Reads.refl limit s
  | cons i rest ih =>
      obtain ⟨⟨value, middle⟩, read, later⟩ := Option.bind_eq_some_iff.mp done
      have first := readArg_reads (Int.natCast_nonneg i) (below i (by simp)) read
      obtain ⟨parser, trace, -⟩ := middle.setAttribute_same value
      exact first.trans ((Reads.same parser trace).trans
        (ih (fun j among => below j (by simp [among])) later))

theorem attributeLoop_some {indices : List Nat} (below : ∀ i ∈ indices, i < 10) (s : State β) :
    ∃ s', s.attributeLoop indices = some s' := by
  induction indices generalizing s with
  | nil => exact ⟨s, rfl⟩
  | cons i rest ih =>
      have small : (i : Int) < 10 := by exact_mod_cast below i (by simp)
      obtain ⟨value, middle, read⟩ := s.readArg_some (Int.natCast_nonneg i) small
      obtain ⟨s', later⟩ := ih (fun j among => below j (by simp [among]))
        (middle.setAttribute value)
      exact ⟨s', by simp only [attributeLoop, read, Option.bind_some, later]⟩

theorem command_reads {ops : Backend β} {s s' : State β} {cmd : Command} {argc delta limit : Int}
    (two : 1 < limit) (counted : argc ≤ limit) (done : s.command ops cmd argc delta = some s') :
    Reads limit s s' := by
  cases cmd with
  | up | left =>
      obtain rfl := Option.some.inj done
      split
      · exact Reads.refl limit s
      · exact Reads.same rfl rfl
  | down | right | nextLine | previousLine | column | restore | scrollUp | scrollDown | save
  | other =>
      obtain rfl := Option.some.inj done
      exact Reads.same rfl rfl
  | position =>
      have home : Reads limit s (if argc = 0 then s.setCursor ops 1 1 else s) := by
        split
        · exact Reads.same rfl rfl
        · exact Reads.refl limit s
      refine home.trans ?_
      dsimp only [command] at done
      split at done
      · obtain rfl := Option.some.inj done
        exact Reads.same rfl rfl
      · obtain ⟨⟨value, last⟩, second, rfl⟩ := Option.map_eq_some_iff.mp done
        exact (readArg_reads (by decide) two second).trans (Reads.same rfl rfl)
  | eraseLines | eraseOnLine =>
      obtain ⟨⟨dir, last⟩, second, rfl⟩ := Option.map_eq_some_iff.mp done
      exact (direction_reads (by omega) second).trans (Reads.same rfl rfl)
  | attributes =>
      dsimp only [command] at done
      split at done
      · obtain rfl := Option.some.inj done
        exact Reads.same rfl rfl
      · refine attributeLoop_reads (fun i among => ?_) done
        have below := List.mem_range.mp among
        omega

theorem command_some (ops : Backend β) (s : State β) (cmd : Command) {argc : Int} (delta : Int)
    (few : argc ≤ 10) : ∃ s', s.command ops cmd argc delta = some s' := by
  cases cmd with
  | up | left | down | right | nextLine | previousLine | column | restore | scrollUp
  | scrollDown | save | other => exact ⟨_, rfl⟩
  | position =>
      dsimp only [command]
      split
      · exact ⟨_, rfl⟩
      · obtain ⟨value, last, second⟩ :=
          (if argc = 0 then s.setCursor ops 1 1 else s).readArg_some
            (by decide : (0 : Int) ≤ 1) (by decide)
        exact ⟨_, by rw [second]; rfl⟩
  | eraseLines | eraseOnLine =>
      obtain ⟨dir, last, second⟩ := s.direction_some argc
      exact ⟨_, by rw [command, second]; rfl⟩
  | attributes =>
      dsimp only [command]
      split
      · exact ⟨_, rfl⟩
      · refine attributeLoop_some (fun i among => ?_) s
        have below := List.mem_range.mp among
        omega

theorem csi_reads {ops : Backend β} {s s' : State β} {cmd argc limit : Int}
    (two : 1 < limit) (counted : argc ≤ limit) (done : s.csi ops cmd argc = some s') :
    Reads limit s s' := by
  obtain ⟨⟨delta, middle⟩, read, done⟩ := Option.bind_eq_some_iff.mp done
  exact (delta_reads (by omega) read).trans (command_reads two counted done)

theorem csi_some (ops : Backend β) (s : State β) (cmd : Int) {argc : Int} (few : argc ≤ 10) :
    ∃ s', s.csi ops cmd argc = some s' := by
  obtain ⟨delta, middle, read⟩ := s.delta_some argc
  rw [csi, read, Option.bind_some]
  exact middle.command_some ops (Command.ofChar cmd) delta few

end State

/-! ## The parser follows the reader -/

/-- The parser has the finished parameters in `arg`, and the current one in `a`. -/
def Agrees (p : Parser) : Reading → Prop
  | .plain => p.state = .ascii ∧ 0 ≤ p.argc ∧ p.argc ≤ 10
  | .escape => p.state = .esc ∧ 0 ≤ p.argc ∧ p.argc ≤ 10
  | .parameters finished current =>
      p.argc = finished.length ∧ finished.length ≤ 10 ∧ p.args = finished.map stored ∧
        match current with
        | none => p.state = .csi ∧ p.a = 0
        | some n => p.state = .csiArg ∧ p.a = signed n

theorem Agrees.counted {p : Parser} {reading : Reading} (agrees : Agrees p reading) :
    0 ≤ p.argc ∧ p.argc ≤ 10 := by
  cases reading with
  | plain => exact agrees.2
  | escape => exact agrees.2
  | parameters finished current =>
      obtain ⟨counted, few, -⟩ := agrees
      omega

/-- Another digit, in wrapping arithmetic. -/
theorem signed_digit (n : Nat) (digit : Int) :
    signed (signed (signed n * 10) + digit) = signed ((n : Int) * 10 + digit) := by
  simp only [signed, Int.bmod_add_bmod, Int.bmod_mul_bmod]

theorem signed_eq {n : Nat} (small : n ≤ 2147483647) : signed n = n := by
  unfold signed
  rw [Int.bmod_def]
  omega

theorem signed_ne {n : Nat} (large : 2147483647 < n) : signed n ≠ n := by
  unfold signed
  have below := @Int.bmod_lt n 4294967296 (by decide)
  omega

namespace Parser

theorem args_length {p : Parser} (nonneg : 0 ≤ p.argc) (few : p.argc ≤ 10) :
    (p.args.length : Int) = p.argc := by
  simp only [Parser.args, List.length_take, Vector.length_toList]
  omega

/-- Storing in the array counts the parameter and adds it to the arguments. -/
theorem finishParameter_args {p : Parser} (nonneg : 0 ≤ p.argc) (room : p.argc < 10)
    (value : Int) :
    ∃ p', p.finishParameter value = some p' ∧ p'.argc = p.argc + 1 ∧
      p'.args = p.args ++ [value] ∧ p'.a = 0 ∧ p'.state = p.state := by
  obtain ⟨n, counted⟩ := Int.eq_ofNat_of_zero_le nonneg
  have few : n < 10 := by omega
  refine ⟨{ p with arg := p.arg.setIfInBounds n value, argc := p.argc + 1, a := 0 },
    ?_, rfl, ?_, rfl, rfl⟩
  · have inside : (0 : Int) ≤ n ∧ (n : Int) < 10 := by omega
    simp [finishParameter, store, counted, inside]
  · have position : ((n : Int) + 1).toNat = n + 1 := by omega
    simp only [Parser.args, counted, Int.toNat_natCast, position]
    rw [Vector.toList_setIfInBounds, List.take_add_one, List.take_set_of_le le_rfl]
    simp [few]

end Parser

/-! ## Bytes as characters -/

theorem toChar_eq_iff (byte : UInt8) {code : Nat} (ascii : code < 128) :
    toChar byte = code ↔ byte.toNat = code := by
  have small := byte.toNat_lt
  unfold toChar
  split
  · omega
  · next high =>
      rw [UInt8.lt_iff_toNat_lt] at high
      have outside : ¬ byte.toNat < 128 := high
      omega

theorem toChar_escape (byte : UInt8) : toChar byte = 27 ↔ byte = 27 :=
  (toChar_eq_iff byte (by decide : 27 < 128)).trans (UInt8.toNat_inj (a := byte) (b := 27))

theorem toChar_bracket (byte : UInt8) : toChar byte = 91 ↔ byte = 91 :=
  (toChar_eq_iff byte (by decide : 91 < 128)).trans (UInt8.toNat_inj (a := byte) (b := 91))

theorem toChar_semicolon (byte : UInt8) : toChar byte = 59 ↔ byte = 59 :=
  (toChar_eq_iff byte (by decide : 59 < 128)).trans (UInt8.toNat_inj (a := byte) (b := 59))

theorem isdigit_toChar (byte : UInt8) : isdigit (toChar byte) ↔ 48 ≤ byte ∧ byte ≤ 57 := by
  have small := byte.toNat_lt
  simp only [isdigit, Bool.and_eq_true, decide_eq_true_eq, UInt8.le_iff_toNat_le,
    UInt8.reduceToNat]
  unfold toChar
  split
  · omega
  · next high =>
      rw [UInt8.lt_iff_toNat_lt] at high
      have outside : ¬ byte.toNat < 128 := high
      omega

theorem toChar_digit {byte : UInt8} (digit : 48 ≤ byte ∧ byte ≤ 57) :
    toChar byte - 48 = (byte.toNat - 48 : Nat) := by
  simp only [UInt8.le_iff_toNat_le, UInt8.reduceToNat] at digit
  have value := (toChar_eq_iff byte (by omega : byte.toNat < 128)).mpr rfl
  omega

/-! ## One byte -/

/-- What a byte may do: the parser agrees with the reader again, nothing but `arg` was
touched, and the sequences read were handed over. -/
def Advances (s s' : State β) (reading : Reading) (made : List (Int × List Int)) : Prop :=
  Agrees s'.parser reading ∧
    ∃ events, s'.trace = s.trace ++ events ∧ (∀ e ∈ events, e.InArray) ∧ calls events = made

theorem Advances.quiet {s s' : State β} {reading : Reading} (agrees : Agrees s'.parser reading)
    (trace : s'.trace = s.trace) : Advances s s' reading [] :=
  ⟨agrees, [], by simp [trace], by simp, rfl⟩

/-- The call a sequence should lead to. -/
def Sequence.stored (q : Sequence) : Int × List Int :=
  (toChar q.final, q.parameters.map Console.stored)

namespace State

theorem finishParameter_advances {s : State β} {finished : List (Option Nat)}
    (current : Option Nat) (counted : s.parser.argc = finished.length)
    (room : finished.length < 10) (args : s.parser.args = finished.map stored) :
    ∃ s', s.finishParameter (stored current) = some s' ∧
      s'.parser.argc = (finished ++ [current]).length ∧
      s'.parser.args = (finished ++ [current]).map stored ∧ s'.parser.a = 0 ∧
      s'.parser.state = s.parser.state ∧ s'.trace = s.trace ++ [.store finished.length] := by
  obtain ⟨p, done, argc, args', zero, state⟩ :=
    Parser.finishParameter_args (by omega) (by omega) (stored current) (p := s.parser)
  refine ⟨{ s with parser := p, trace := s.trace ++ [.store s.parser.argc] }, ?_, ?_, ?_, zero,
    state, ?_⟩
  · rw [finishParameter, done]
    rfl
  · rw [argc, counted, List.length_append]
    rfl
  · rw [args', args, List.map_append]
    rfl
  · rw [counted]

theorem finishSequence_advances (ops : Backend β) {s : State β} {finished : List (Option Nat)}
    (current : Option Nat) (c : Int) (counted : s.parser.argc = finished.length)
    (room : finished.length < 10) (args : s.parser.args = finished.map stored) :
    ∃ s', s.finishSequence ops (stored current) c = some s' ∧
      Advances s s' .plain [(c, (finished ++ [current]).map stored)] := by
  obtain ⟨middle, done, argc, args', -, -, trace⟩ :=
    finishParameter_advances current counted room args
  have few : middle.parser.argc ≤ 10 := by
    rw [argc, List.length_append, List.length_singleton]
    omega
  let handed : State β :=
    { middle.setState .ascii with trace := middle.trace ++ [.dispatch c middle.parser.args] }
  obtain ⟨s', called⟩ := handed.csi_some ops c few
  have reads := csi_reads (by decide : (1 : Int) < 10) few called
  refine ⟨s', ?_, ?_, ?_⟩
  · rw [finishSequence, done]
    exact called
  · refine ⟨congrArg Parser.state reads.1, ?_⟩
    have same : s'.parser.argc = middle.parser.argc := congrArg Parser.argc reads.1 |>.trans rfl
    rw [same]
    omega
  · obtain ⟨events, later, inside, quiet⟩ := reads.events
    refine ⟨.store finished.length :: .dispatch c middle.parser.args :: events, ?_, ?_, ?_⟩
    · rw [later]
      simp [handed, trace]
    · intro e among
      rcases List.mem_cons.mp among with rfl | among
      · exact ⟨by omega, by omega⟩
      · rcases List.mem_cons.mp among with rfl | among
        · trivial
        · exact inside e among
    · have handed_over : calls (.store finished.length :: .dispatch c middle.parser.args :: events) =
          (c, middle.parser.args) :: calls events := rfl
      rw [handed_over, quiet, args']

/-- A digit makes the current parameter grow. -/
theorem argByte_digit (ops : Backend β) {s : State β} {finished : List (Option Nat)}
    {current : Option Nat} {byte : UInt8} (digit : 48 ≤ byte ∧ byte ≤ 57)
    (agrees : Agrees s.parser (.parameters finished current)) :
    ∃ s', (s.setState .csiArg).argByte ops (toChar byte) = some s' ∧
      Advances s s' (.parameters finished (some (current.getD 0 * 10 + (byte.toNat - 48)))) [] := by
  have not_semicolon : ¬ toChar byte = ';'.toNat := by
    show ¬ toChar byte = 59
    rw [toChar_semicolon]
    rintro rfl
    exact absurd digit.2 (by decide)
  obtain ⟨counted, few, args, progress⟩ := agrees
  have value : s.parser.a = signed (current.getD 0) := by
    cases current with
    | none => exact progress.2
    | some n => exact progress.2
  refine ⟨{ s with parser := { s.parser with
    state := .csiArg, a := signed (signed (s.parser.a * 10) + (toChar byte - 48)) } }, ?_, ?_⟩
  · rw [argByte, if_neg not_semicolon, if_neg (not_not.mpr ((isdigit_toChar byte).mpr digit))]
    rfl
  · refine Advances.quiet ⟨counted, few, args, rfl, ?_⟩ rfl
    show signed (signed (s.parser.a * 10) + (toChar byte - 48)) = _
    rw [value, signed_digit, toChar_digit digit]
    push_cast
    rfl

theorem writeByte_advances (ops : Backend β) {s : State β} {reading : Reading}
    (agrees : Agrees s.parser reading) (byte : UInt8) (few : Few (reading.next byte)) :
    ∃ s', s.writeByte ops byte = some s' ∧
      Advances s s' (reading.next byte).1 ((reading.next byte).2.map Sequence.stored) := by
  cases reading with
  | plain =>
      obtain ⟨state, counted⟩ := agrees
      simp only [writeByte, state, toChar_escape, Reading.next]
      split
      · exact ⟨_, rfl, Advances.quiet ⟨rfl, counted⟩ rfl⟩
      · exact ⟨_, rfl, Advances.quiet ⟨state, counted⟩ rfl⟩
  | escape =>
      obtain ⟨state, counted⟩ := agrees
      simp only [writeByte, state, Char.reduceToNat, Nat.cast_ofNat, toChar_bracket, Reading.next]
      split
      · exact ⟨_, rfl, Advances.quiet ⟨rfl, by simp, by simp [Parser.args], rfl, rfl⟩ rfl⟩
      · exact ⟨_, rfl, Advances.quiet ⟨rfl, counted⟩ rfl⟩
  | parameters finished current =>
      by_cases digit : 48 ≤ byte ∧ byte ≤ 57
      · have not_semicolon : byte ≠ 59 := by
          rintro rfl
          exact absurd digit.2 (by decide)
        obtain ⟨s', done, advances⟩ := argByte_digit ops digit agrees
        have reads : Reading.next (.parameters finished current) byte =
            (.parameters finished (some (current.getD 0 * 10 + (byte.toNat - 48))), []) := by
          simp [Reading.next, not_semicolon, digit]
        refine ⟨s', ?_, by rw [reads]; exact advances⟩
        obtain ⟨-, -, -, progress⟩ := agrees
        cases current with
        | none =>
            simpa [writeByte, progress.1, toChar_semicolon, not_semicolon, isdigit_toChar, digit]
              using done
        | some n =>
            have already : s.setState .csiArg = s := by
              simp [setState, ← progress.1]
            rw [already] at done
            simpa [writeByte, progress.1] using done
      · obtain ⟨counted, -, args, progress⟩ := agrees
        by_cases semicolon : byte = 59
        · have room : finished.length < 10 := by
            have more := few.1
            simp [Reading.next, semicolon, Reading.finished] at more
            omega
          obtain ⟨s', done, argc', args', zero, state, trace⟩ :=
            finishParameter_advances current counted room args
          have enough : (finished ++ [current]).length ≤ 10 := by simp; omega
          have stores : ∃ events, s'.trace = s.trace ++ events ∧ (∀ e ∈ events, e.InArray) ∧
              calls events = [] :=
            ⟨_, trace, by simp [ArgEvent.InArray]; omega, rfl⟩
          cases current with
          | none =>
              refine ⟨s', ?_, ?_⟩
              · simpa [writeByte, progress.1, (toChar_semicolon byte).mpr semicolon, stored] using done
              · simp only [Reading.next, semicolon, if_true]
                exact ⟨⟨argc', enough, args', state.trans progress.1, zero⟩, stores⟩
          | some n =>
              refine ⟨s'.setState .csi, ?_, ?_⟩
              · have value : s.parser.a = stored (some n) := progress.2
                simp [writeByte, progress.1, argByte, (toChar_semicolon byte).mpr semicolon, value,
                  done]
              · simp only [Reading.next, semicolon, if_true]
                exact ⟨⟨argc', enough, args', rfl, zero⟩, stores⟩
        · have reads : Reading.next (.parameters finished current) byte =
              (.plain, [⟨finished ++ [current], byte⟩]) := by
            simp [Reading.next, semicolon, digit]
          have room : finished.length < 10 := by
            have more := few.2 ⟨finished ++ [current], byte⟩ (by simp [reads])
            simp at more
            omega
          obtain ⟨s', done, advances⟩ :=
            finishSequence_advances ops current (toChar byte) counted room args
          refine ⟨s', ?_, by rw [reads]; exact advances⟩
          cases current with
          | none =>
              simpa [writeByte, progress.1, toChar_semicolon, semicolon, isdigit_toChar, digit,
                stored] using done
          | some n =>
              have value : s.parser.a = stored (some n) := progress.2
              simpa [writeByte, progress.1, argByte, toChar_semicolon, semicolon, isdigit_toChar,
                digit, value] using done

theorem finishParameter_full {s s' : State β} {value : Int} (full : s.parser.argc = 10)
    (done : s.finishParameter value = some s') : .store 10 ∈ s'.trace := by
  obtain ⟨p, -, rfl⟩ := Option.map_eq_some_iff.mp done
  simp [full]

theorem finishSequence_full {ops : Backend β} {s s' : State β} {value c : Int}
    (full : s.parser.argc = 10) (done : s.finishSequence ops value c = some s') :
    .store 10 ∈ s'.trace := by
  obtain ⟨middle, first, called⟩ := Option.bind_eq_some_iff.mp done
  have here := finishParameter_full full first
  obtain ⟨-, indices, trace, -⟩ :=
    csi_reads (by omega : 1 < max 10 middle.parser.argc) (le_max_right _ _) called
  rw [trace]
  exact List.mem_append_left _ (List.mem_append_left _ here)

/-- The eleventh parameter is stored past the array. -/
theorem writeByte_full {ops : Backend β} {s s' : State β} {reading : Reading}
    (agrees : Agrees s.parser reading) {byte : UInt8} (many : ¬ Few (reading.next byte))
    (done : s.writeByte ops byte = some s') : .store 10 ∈ s'.trace := by
  cases reading with
  | plain =>
      by_cases escape : byte = 27
      · simp [Few, Reading.next, escape, Reading.finished] at many
      · simp [Few, Reading.next, escape, Reading.finished] at many
  | escape =>
      by_cases bracket : byte = 91
      · simp [Few, Reading.next, bracket, Reading.finished] at many
      · simp [Few, Reading.next, bracket, Reading.finished] at many
  | parameters finished current =>
      obtain ⟨counted, few, -, progress⟩ := agrees
      by_cases semicolon : byte = 59
      · have ten : finished.length = 10 := by
          simp [Few, Reading.next, semicolon, Reading.finished] at many
          omega
        have full : s.parser.argc = 10 := by omega
        cases current with
        | none =>
            have stores : s.finishParameter (-1) = some s' := by
              simpa [writeByte, progress.1, (toChar_semicolon byte).mpr semicolon] using done
            exact finishParameter_full full stores
        | some n =>
            have stores : (s.finishParameter s.parser.a).map (setState · .csi) = some s' := by
              simpa [writeByte, progress.1, argByte, (toChar_semicolon byte).mpr semicolon]
                using done
            obtain ⟨middle, first, rfl⟩ := Option.map_eq_some_iff.mp stores
            exact @finishParameter_full _ s middle s.parser.a full first
      · by_cases digit : 48 ≤ byte ∧ byte ≤ 57
        · simp [Few, Reading.next, semicolon, digit, Reading.finished, few] at many
        · have ten : finished.length = 10 := by
            simp [Few, Reading.next, semicolon, digit, Reading.finished] at many
            omega
          have full : s.parser.argc = 10 := by omega
          cases current with
          | none =>
              have stores : s.finishSequence ops (-1) (toChar byte) = some s' := by
                simpa [writeByte, progress.1, toChar_semicolon, semicolon, isdigit_toChar, digit]
                  using done
              exact finishSequence_full full stores
          | some n =>
              have stores : s.finishSequence ops s.parser.a (toChar byte) = some s' := by
                simpa [writeByte, progress.1, argByte, toChar_semicolon, semicolon,
                  isdigit_toChar, digit] using done
              exact finishSequence_full full stores

end State

/-! ## Whole texts -/

/-- Where the console stands after a text of which no sequence was too long. -/
structure Follows (s : State β) (text : List UInt8) : Prop where
  agrees : Agrees s.parser (readText text).1
  inside : ∀ e ∈ s.trace, e.InArray
  called : calls s.trace = (readText text).2.map Sequence.stored

theorem boot_follows (backend : β) : Follows (boot backend) [] where
  agrees := ⟨rfl, le_rfl, (by decide : (0 : Int) ≤ 10)⟩
  inside := by simp [boot]
  called := rfl

/-- One more byte of such a text. -/
theorem Follows.next {ops : Backend β} {s : State β} {text : List UInt8} {byte : UInt8}
    (follows : Follows s text) (few : Few ((readText text).1.next byte)) :
    ∃ s', s.writeByte ops byte = some s' ∧ Follows s' (text ++ [byte]) := by
  obtain ⟨s', done, agrees, events, trace, inside, called⟩ :=
    State.writeByte_advances ops follows.agrees byte few
  refine ⟨s', done, ?_, ?_, ?_⟩
  · rw [readText_snoc]
    exact agrees
  · intro e among
    rw [trace] at among
    rcases List.mem_append.mp among with old | new
    · exact follows.inside e old
    · exact inside e new
  · rw [trace, calls_append, follows.called, called, readText_snoc, List.map_append]

theorem run_follows (ops : Backend β) (backend : β) (text : List UInt8)
    (few : ∀ before, before <+: text → Few (readText before)) :
    ∃ s, text.foldlM (State.writeByte ops) (boot backend) = some s ∧ Follows s text := by
  induction text using List.reverseRecOn with
  | nil => exact ⟨boot backend, rfl, boot_follows backend⟩
  | append_singleton text byte ih =>
      obtain ⟨s, ran, follows⟩ := ih fun before early =>
        few before (early.trans (List.prefix_append text [byte]))
      have enough := few (text ++ [byte]) List.prefix_rfl
      rw [readText_snoc] at enough
      obtain ⟨s', done, after⟩ := @Follows.next _ ops s text byte follows
        ⟨enough.1, fun q among => enough.2 q (List.mem_append_right _ among)⟩
      exact ⟨s', by rw [List.foldlM_append, ran]; simpa using done, after⟩

/-- A parser that is right after every prefix never met an eleventh parameter. -/
theorem few_of_right (ops : Backend β) (backend : β) (text : List UInt8)
    (right : ∀ before, before <+: text → ParsedRight ops backend [before]) :
    ∀ before, before <+: text → Few (readText before) := by
  induction text using List.reverseRecOn with
  | nil =>
      intro before early
      obtain rfl := List.prefix_nil.mp early
      exact ⟨by decide, by simp⟩
  | append_singleton text byte ih =>
      have earlier := ih fun before early =>
        right before (early.trans (List.prefix_append text [byte]))
      intro before early
      rcases List.prefix_concat_iff.mp early with rfl | early
      · obtain ⟨s, ran, follows⟩ := run_follows ops backend text earlier
        by_contra many
        obtain ⟨s', done, -, -, inside, -⟩ := right (text ++ [byte]) List.prefix_rfl
        rw [State.writes_eq, List.flatten_singleton, List.foldlM_append, ran] at done
        have stepped : s.writeByte ops byte = some s' := by simpa using done
        have before_few := earlier text List.prefix_rfl
        have overfull : ¬ Few ((readText text).1.next byte) := by
          rintro ⟨short, each⟩
          refine many ?_
          rw [readText_snoc]
          refine ⟨short, fun q among => ?_⟩
          rcases List.mem_append.mp among with old | new
          · exact before_few.2 q old
          · exact each q new
        have out := inside _ (State.writeByte_full follows.agrees overfull stepped)
        exact absurd out.2 (by decide)
      · exact earlier before early

theorem stored_eq {parameter : Option Nat}
    (small : ∀ n, parameter = some n → n ≤ 2147483647) : stored parameter = number parameter := by
  cases parameter with
  | none => rfl
  | some n => exact signed_eq (small n rfl)

theorem stored_ne {n : Nat} (large : 2147483647 < n) : stored (some n) ≠ number (some n) :=
  signed_ne large

/-- On a text without an eleventh parameter, the calls carry the numbers of the text
exactly when an `int` holds each of them. -/
theorem calls_right_iff {text : List UInt8} (few : Few (readText text)) :
    ((readText text).2.map Sequence.stored =
      (readText text).2.map fun q => (toChar q.final, (q.parameters.take 10).map number)) ↔
    ∀ q ∈ (readText text).2, ∀ n, some n ∈ q.parameters → n ≤ 2147483647 := by
  rw [List.map_inj_left]
  constructor
  · intro same q among n inside
    by_contra large
    have equal := (Prod.mk.inj (same q among)).2
    rw [List.take_of_length_le (few.2 q among), List.map_inj_left] at equal
    exact stored_ne (not_le.mp large) (equal _ inside)
  · intro small q among
    refine Prod.ext rfl ?_
    show q.parameters.map stored = _
    rw [List.take_of_length_le (few.2 q among), List.map_inj_left]
    intro parameter inside
    exact stored_eq fun n same => small q among n (same ▸ inside)

/-- The parser is right after every byte of a text, wherever the text is split into
writes, exactly when no sequence has more than ten parameters and every number fits. -/
theorem parser_right_iff (ops : Backend β) (backend : β) (text : List UInt8) :
    (∀ bufs : List (List UInt8), bufs.flatten <+: text → ParsedRight ops backend bufs) ↔
      Fits text := by
  constructor
  · intro right
    have few := few_of_right ops backend text fun before early =>
      right [before] (by simpa using early)
    refine ⟨few, ?_⟩
    obtain ⟨s, done, -, -, -, called⟩ := right [text] (by simp)
    obtain ⟨s', ran, follows⟩ := run_follows ops backend text few
    rw [State.writes_eq, List.flatten_singleton, ran] at done
    obtain rfl := Option.some.inj done
    rw [List.flatten_singleton, follows.called] at called
    exact (calls_right_iff (few text List.prefix_rfl)).mp called
  · intro fits bufs early
    obtain ⟨s, ran, follows⟩ := run_follows ops backend bufs.flatten fun before earlier =>
      fits.few before (earlier.trans early)
    obtain ⟨nonneg, counted⟩ := follows.agrees.counted
    refine ⟨s, by rw [State.writes_eq, ran], nonneg, counted, follows.inside, ?_⟩
    rw [follows.called, calls_right_iff (fits.few _ early)]
    intro q among
    exact fits.small q ((readText_of_early early).subset among)

def silent : Backend Unit where
  putc := fun _ _ _ _ => ()
  setCursor := fun _ _ _ => ()
  getCursor := fun _ => (0, 0)
  clearLines := fun _ _ => ()
  clearOnLine := fun _ _ => ()
  scrollUp := fun _ _ => ()
  scrollDown := fun _ _ => ()

def elevenParameters : List UInt8 :=
  [27, 91, 49, 59, 50, 59, 51, 59, 52, 59, 53, 59, 54, 59, 55, 59, 56, 59, 57, 59, 49, 48, 59,
    52, 109]

/-- The eleventh parameter, 4, becomes the count: `_csi` is told of five parameters. -/
theorem eleventh_overwrites_count :
    ((boot ()).writes silent [elevenParameters]).map (fun s => s.trace.drop 10) =
        some [.store 10, .dispatch 109 [1, 2, 3, 4, 5], .read 0, .read 0, .read 1, .read 2,
          .read 3, .read 4] ∧
      ¬ ParsedRight silent () [elevenParameters] := by
  have ran : ((boot ()).writes silent [elevenParameters]).map (fun s => s.trace.drop 10) =
      some [.store 10, .dispatch 109 [1, 2, 3, 4, 5], .read 0, .read 0, .read 1, .read 2,
        .read 3, .read 4] := by
    decide +kernel
  refine ⟨ran, ?_⟩
  rintro ⟨s, done, -, -, inside, -⟩
  rw [done] at ran
  have late : .store 10 ∈ s.trace.drop 10 := by
    have same := Option.some.inj ran
    dsimp only at same
    rw [same]
    simp
  exact absurd (inside _ (List.mem_of_mem_drop late)).2 (by decide)

end TrollOS.Console
