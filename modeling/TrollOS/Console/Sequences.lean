import TrollOS.Console.Bounds

/-!
# Single escape sequences

What one sequence does to the console, as a function of its parameters, on any backend.
A parameter is written with digits; without a digit it is left empty.
-/

namespace TrollOS.Console

/-! ## The text of a sequence -/

def digitByte (d : Fin 10) : UInt8 := UInt8.ofNat (48 + d)

/-- The number that digits stand for, if there are any. -/
def value (digits : List (Fin 10)) : Option Nat :=
  digits.foldl (fun n (d : Fin 10) => some (n.getD 0 * 10 + d.val)) none

def paramsText : List (List (Fin 10)) → List UInt8
  | [] => []
  | [digits] => digits.map digitByte
  | digits :: more :: rest => digits.map digitByte ++ 59 :: paramsText (more :: rest)

def sequenceText (params : List (List (Fin 10))) (final : UInt8) : List UInt8 :=
  27 :: 91 :: (paramsText params ++ [final])

theorem digitByte_toNat (d : Fin 10) : (digitByte d).toNat = 48 + d := by
  unfold digitByte
  rw [UInt8.toNat_ofNat']
  omega

theorem digitByte_digit (d : Fin 10) : 48 ≤ digitByte d ∧ digitByte d ≤ 57 := by
  rw [UInt8.le_iff_toNat_le, UInt8.le_iff_toNat_le, digitByte_toNat]
  exact ⟨Nat.le_add_right .., Nat.add_le_add_left (Nat.le_of_lt_succ d.isLt) 48⟩

variable {β : Type}

namespace State

/-- The console is among the parameters of a sequence, and nothing else has changed. -/
def Waits (s t : State β) (finished : List (Option Nat)) (current : Option Nat) : Prop :=
  ∃ p trace, t = { s with parser := p, trace := trace } ∧ Agrees p (.parameters finished current)

variable {s t : State β} {finished : List (Option Nat)} {current : Option Nat}

/-- A digit of the current parameter. -/
theorem Waits.digit (ops : Backend β) (waits : Waits s t finished current) (d : Fin 10) :
    ∃ t', t.writeByte ops (digitByte d) = some t' ∧
      Waits s t' finished (some (current.getD 0 * 10 + d)) := by
  obtain ⟨p, trace, rfl, counted, few, args, progress⟩ := waits
  have digit := digitByte_digit d
  have bytes : (digitByte d).toNat - 48 = d := by
    rw [digitByte_toNat]
    omega
  have char : toChar (digitByte d) - 48 = (d : Nat) := by
    rw [toChar_digit digit, bytes]
  have other : ¬ toChar (digitByte d) = ';'.toNat := by
    show ¬ toChar (digitByte d) = 59
    rw [toChar_semicolon]
    intro same
    exact absurd (same ▸ digit.2) (by decide)
  have isDigit := (isdigit_toChar (digitByte d)).mpr digit
  have grown (n : Nat) : signed (signed (signed n * 10) + (toChar (digitByte d) - 48)) =
      signed ((n * 10 + d : Nat) : Int) := by
    rw [signed_digit, char]
    push_cast
    rfl
  cases current with
  | none =>
      refine ⟨{ s with
          parser := { p with
            state := .csiArg, a := signed (signed (p.a * 10) + (toChar (digitByte d) - 48)) }
          trace := trace }, ?_, _, _, rfl, counted, few, args, rfl, ?_⟩
      · unfold writeByte
        dsimp only
        rw [progress.1]
        dsimp only
        rw [if_neg other, if_neg (not_not.mpr isDigit)]
        unfold argByte setState
        rw [if_neg other, if_neg (not_not.mpr isDigit)]
      · have zero : p.a = signed ((0 : Nat) : Int) := progress.2
        dsimp only
        rw [zero]
        exact grown 0
  | some n =>
      refine ⟨{ s with
          parser := { p with a := signed (signed (p.a * 10) + (toChar (digitByte d) - 48)) }
          trace := trace }, ?_, _, _, rfl, counted, few, args, progress.1, ?_⟩
      · have step : writeByte ops { s with parser := p, trace := trace } (digitByte d) =
            argByte ops { s with parser := p, trace := trace } (toChar (digitByte d)) := by
          unfold writeByte
          dsimp only
          rw [progress.1]
        rw [step, argByte, if_neg other, if_neg (not_not.mpr isDigit)]
      · dsimp only
        rw [progress.2]
        exact grown n

/-- The digits of a parameter. -/
theorem Waits.digits (ops : Backend β) (digits : List (Fin 10)) (waits : Waits s t finished current) :
    ∃ t', (digits.map digitByte).foldlM (writeByte ops) t = some t' ∧
      Waits s t' finished (digits.foldl (fun n (d : Fin 10) => some (n.getD 0 * 10 + d.val)) current) := by
  induction digits generalizing t current with
  | nil => exact ⟨t, rfl, waits⟩
  | cons d rest ih =>
      obtain ⟨t₁, first, waits₁⟩ := waits.digit ops d
      obtain ⟨t', later, waits'⟩ := ih waits₁
      refine ⟨t', ?_, waits'⟩
      rw [List.map_cons, List.foldlM_cons, first]
      exact later

/-- The parameters of a sequence are in `arg`, and `_csi` is about to run. -/
def Handed (s t : State β) (params : List (Option Nat)) : Prop :=
  ∃ p trace, t = { s with parser := p, trace := trace } ∧ p.args = params.map stored ∧
    p.argc = params.length ∧ p.state = .ascii

/-- The current parameter is stored. -/
theorem Waits.finishParameter (waits : Waits s t finished current) (room : finished.length < 10) :
    ∃ p trace, t.finishParameter (stored current) = some { s with parser := p, trace := trace } ∧
      p.args = (finished ++ [current]).map stored ∧ p.argc = (finished ++ [current]).length ∧ p.a = 0 ∧
        p.state = t.parser.state := by
  obtain ⟨p, trace, rfl, counted, -, args, -⟩ := waits
  obtain ⟨p', done, argc, args', zero, state⟩ :=
    Parser.finishParameter_args (by omega) (by omega) (stored current) (p := p)
  refine ⟨p', trace ++ [.store p.argc], ?_, ?_, ?_, zero, state⟩
  · rw [State.finishParameter, done]
    rfl
  · rw [args', args, List.map_append]
    rfl
  · rw [argc, counted, List.length_append]
    rfl

/-- The byte that ends a parameter is a semicolon. -/
theorem Waits.semicolon (ops : Backend β) (waits : Waits s t finished current) (room : finished.length < 10) :
    ∃ t', t.writeByte ops 59 = some t' ∧ Waits s t' (finished ++ [current]) none := by
  obtain ⟨p', trace', done, args', argc', zero, state⟩ := waits.finishParameter room
  have enough : (finished ++ [current]).length ≤ 10 := by
    rw [List.length_append, List.length_singleton]
    exact room
  have isSemicolon : toChar 59 = ';'.toNat := rfl
  obtain ⟨p, trace, rfl, -, -, -, progress⟩ := waits
  cases current with
  | none =>
      refine ⟨{ s with parser := p', trace := trace' }, ?_, p', trace', rfl, argc', enough, args',
        state.trans progress.1, zero⟩
      unfold writeByte
      dsimp only
      rw [progress.1]
      dsimp only
      rw [if_pos isSemicolon]
      exact done
  | some n =>
      refine ⟨{ s with parser := { p' with state := .csi }, trace := trace' }, ?_, _, trace', rfl, argc',
        enough, args', rfl, zero⟩
      have held : p.a = stored (some n) := progress.2
      unfold writeByte
      dsimp only
      rw [progress.1]
      dsimp only
      rw [argByte, if_pos isSemicolon]
      dsimp only
      rw [held, done]
      rfl

/-- The byte that ends a sequence. -/
theorem Waits.final (ops : Backend β) (waits : Waits s t finished current) (room : finished.length < 10)
    {byte : UInt8} (other : byte ≠ 59) (letter : ¬ (48 ≤ byte ∧ byte ≤ 57)) :
    ∃ t', t.writeByte ops byte = t'.csi ops (toChar byte) t'.parser.argc ∧
      Handed s t' (finished ++ [current]) := by
  obtain ⟨p', trace', done, args', argc', -, -⟩ := waits.finishParameter room
  have notSemicolon : ¬ toChar byte = ';'.toNat := (toChar_semicolon byte).not.mpr other
  have notDigit : ¬ isdigit (toChar byte) := (isdigit_toChar byte).not.mpr letter
  refine ⟨{ s with
      parser := { p' with state := .ascii }
      trace := trace' ++ [.dispatch (toChar byte) { p' with state := .ascii }.args] }, ?_, _, _, rfl, args',
    argc', rfl⟩
  have finishes : t.finishSequence ops (stored current) (toChar byte) = csi ops { s with
      parser := { p' with state := .ascii }
      trace := trace' ++ [.dispatch (toChar byte) { p' with state := .ascii }.args] } (toChar byte)
        p'.argc := by
    rw [finishSequence, done]
    rfl
  obtain ⟨p, trace, rfl, -, -, -, progress⟩ := waits
  rw [← finishes]
  cases current with
  | none =>
      unfold writeByte
      dsimp only
      rw [progress.1]
      dsimp only
      rw [if_neg notSemicolon, if_pos notDigit]
      rfl
  | some n =>
      have held : p.a = stored (some n) := progress.2
      unfold writeByte
      dsimp only
      rw [progress.1]
      dsimp only
      rw [argByte, if_neg notSemicolon, if_pos notDigit]
      dsimp only
      rw [held]

/-- All parameters of a sequence, and the byte behind them. -/
theorem Waits.params (ops : Backend β) {params : List (List (Fin 10))} (some : params ≠ [])
    (waits : Waits s t finished none) (room : finished.length + params.length ≤ 10)
    {byte : UInt8} (other : byte ≠ 59) (letter : ¬ (48 ≤ byte ∧ byte ≤ 57)) :
    ∃ t', (paramsText params ++ [byte]).foldlM (writeByte ops) t =
        t'.csi ops (toChar byte) t'.parser.argc ∧
      Handed s t' (finished ++ params.map value) := by
  induction params generalizing t finished with
  | nil => exact absurd rfl some
  | cons digits rest ih =>
      obtain ⟨t₁, ran₁, waits₁⟩ := waits.digits ops digits
      rw [List.length_cons] at room
      cases rest with
      | nil =>
          obtain ⟨t', ran, handed⟩ := waits₁.final ops (by omega) other letter
          refine ⟨t', ?_, handed⟩
          rw [paramsText, List.foldlM_append, ran₁]
          simpa using ran
      | cons more rest =>
          obtain ⟨t₂, ran₂, waits₂⟩ := waits₁.semicolon ops (by omega)
          obtain ⟨t', ran, handed⟩ := ih (List.cons_ne_nil _ _) waits₂ (by
            rw [List.length_append, List.length_singleton]
            omega)
          refine ⟨t', ?_, ?_⟩
          · rw [paramsText, List.append_assoc, List.foldlM_append, ran₁, List.cons_append]
            show (List.foldlM (writeByte ops) t₁ (59 :: _)) = _
            rw [List.foldlM_cons, ran₂]
            exact ran
          · rw [List.append_assoc] at handed
            exact handed

/-- A whole sequence, read outside of any other: `_csi` runs with its parameters. -/
theorem sequence_csi (ops : Backend β) (s : State β) (ascii : s.parser.state = .ascii)
    {params : List (List (Fin 10))} (some : params ≠ []) (few : params.length ≤ 10) {byte : UInt8}
    (other : byte ≠ 59) (letter : ¬ (48 ≤ byte ∧ byte ≤ 57)) :
    ∃ t, (sequenceText params byte).foldlM (writeByte ops) s = t.csi ops (toChar byte) t.parser.argc ∧
      Handed s t (params.map value) := by
  have waits : Waits s { s with parser := { s.parser with state := .csi, argc := 0, a := 0 } } [] none :=
    ⟨{ s.parser with state := .csi, argc := 0, a := 0 }, s.trace, rfl, rfl, Nat.zero_le 10,
      List.take_zero, rfl, rfl⟩
  obtain ⟨t, ran, handed⟩ := waits.params ops some (by simpa using few) other letter
  refine ⟨t, ?_, handed⟩
  have first : s.writeByte ops 27 = Option.some (s.setState .esc) := by
    unfold writeByte
    dsimp only
    rw [ascii]
    exact if_pos rfl
  have second : (s.setState .esc).writeByte ops 91 =
      Option.some { s with parser := { s.parser with state := .csi, argc := 0, a := 0 } } := rfl
  rw [sequenceText, List.foldlM_cons, first]
  show (List.foldlM (writeByte ops) (s.setState .esc) (91 :: _)) = _
  rw [List.foldlM_cons, second]
  exact ran

end State

/-! ## What a sequence does -/

namespace State

/-- What there is of the console besides its parser. -/
def shown (s : State β) : β × Bool × Nat × Nat × Nat × Nat :=
  (s.backend, s.bold, s.colorFg, s.colorBg, s.savedX, s.savedY)

/-- The direction that an argument of `J` or `K` stands for. -/
def directionOf (argument : Int) : ClearDirection :=
  if argument = 0 then .forward else if argument = 1 then .backward else .both

def effect (ops : Backend β) (s : State β) (args : List Int) (cmd : Command) : State β :=
  let x := (ops.getCursor s.backend).1
  let y := (ops.getCursor s.backend).2
  match cmd with
  | .up => if y = 0 then s else s.setCursor ops x (y - count args)
  | .down => s.setCursor ops x (y + count args)
  | .right => s.setCursor ops (x + count args) y
  | .left => if x = 0 then s else s.setCursor ops (x - count args) y
  | .nextLine => s.setCursor ops 0 (y + count args)
  | .previousLine => s.setCursor ops 0 ((if y = 0 then 1 else y : Nat) - count args)
  | .column => s.setCursor ops (count args - 1) y
  | .position =>
      match args[1]? with
      | none => s.setCursor ops x (count args - 1)
      | some column => s.setCursor ops (if 0 < column then column - 1 else 0) (count args - 1)
  | .eraseLines => { s with backend := ops.clearLines s.backend (directionOf (args.headD 0)) }
  | .eraseOnLine => { s with backend := ops.clearOnLine s.backend (directionOf (args.headD 0)) }
  | .scrollUp => { s with backend := ops.scrollUp s.backend (unsigned (count args)) }
  | .scrollDown => { s with backend := ops.scrollDown s.backend (unsigned (count args)) }
  | .save => { s with savedX := x, savedY := y }
  | .restore => s.setCursor ops s.savedX s.savedY
  | .attributes => args.foldl setAttribute s
  | .other => s

variable {s s' t : State β} {args : List Int} {params : List (Option Nat)}

/-- An argument of `m` sees no more of the console than is shown. -/
theorem setAttribute_shown (same : s.shown = s'.shown) (argument : Int) :
    (s.setAttribute argument).shown = (s'.setAttribute argument).shown := by
  obtain ⟨p, backend, bold, colorFg, colorBg, savedX, savedY, trace⟩ := s
  obtain ⟨p', backend', bold', colorFg', colorBg', savedX', savedY', trace'⟩ := s'
  simp only [shown, Prod.mk.injEq] at same
  obtain ⟨rfl, rfl, rfl, rfl, rfl, rfl⟩ := same
  unfold setAttribute resetAttributes shown
  split_ifs <;> rfl

theorem attributeLoop_shown {indices : List Nat} (held : t.parser.args = args)
    (counted : t.parser.argc = args.length) (few : args.length ≤ 10)
    (inside : ∀ i ∈ indices, i < args.length) (same : t.shown = s.shown) :
    ∃ t', t.attributeLoop indices = some t' ∧ t'.parser = t.parser ∧
      t'.shown = ((indices.map fun i => args.getD i 0).foldl setAttribute s).shown := by
  induction indices generalizing s t with
  | nil => exact ⟨t, rfl, rfl, same⟩
  | cons i rest ih =>
      have within := inside i List.mem_cons_self
      have read := readArg_eq held counted few within
      obtain ⟨parser, -, -⟩ := setAttribute_same { t with trace := t.trace ++ [.read i] } args[i]
      obtain ⟨t', later, kept, shown⟩ := @ih (s.setAttribute args[i])
        (setAttribute { t with trace := t.trace ++ [.read i] } args[i]) (parser ▸ held) (parser ▸ counted)
        (fun j member => inside j (List.mem_cons_of_mem _ member))
        (setAttribute_shown (s := { t with trace := t.trace ++ [.read i] }) same _)
      refine ⟨t', ?_, kept.trans parser, ?_⟩
      · rw [attributeLoop, read]
        exact later
      · rw [List.map_cons, List.foldl_cons, shown, List.getD_eq_getElem _ _ within]

theorem range_getD (args : List Int) : ((List.range args.length).map fun i => args.getD i 0) = args := by
  refine List.ext_getElem (by rw [List.length_map, List.length_range]) fun i _ inside => ?_
  rw [List.getElem_map, List.getElem_range, List.getD_eq_getElem _ _ inside]

/-- The first argument decides a direction. -/
theorem direction_eq (held : t.parser.args = args) (counted : t.parser.argc = args.length)
    (few : args.length ≤ 10) (inside : 0 < args.length) :
    t.direction t.parser.argc =
      some (directionOf (args.headD 0), { t with trace := t.trace ++ [.read 0] }) := by
  have first := readArg_eq held counted few inside
  have head : args.headD 0 = args[0] := by
    cases args with
    | nil => exact absurd inside (Nat.lt_irrefl 0)
    | cons first rest => rfl
  rw [State.direction, if_neg (by omega), head]
  exact congrArg (Option.map _) first

/-- A sequence has the effect of its arguments, and leaves the parser alone. -/
theorem csi_effect (ops : Backend β) {p : Parser} (trace : List ArgEvent) (held : p.args = args)
    (counted : p.argc = args.length) (few : args.length ≤ 10) (inside : 0 < args.length) (c : Int) :
    ∃ t', csi ops { s with parser := p, trace := trace } c p.argc = some t' ∧ t'.parser = p ∧
      t'.shown = (effect ops s args (Command.ofChar c)).shown := by
  have nonzero : ¬ p.argc = 0 := by omega
  have read := @delta_eq _ β { s with parser := p, trace := trace } held counted few inside
  rw [csi, read, Option.bind_some]
  cases Command.ofChar c with
  | up | left =>
      refine ⟨_, rfl, ?_, ?_⟩
      · split
        · rfl
        · rfl
      · unfold effect
        dsimp only
        split
        · rfl
        · rfl
  | down | right | nextLine | previousLine | column | scrollUp | scrollDown | save | restore | other =>
      exact ⟨_, rfl, rfl, rfl⟩
  | position =>
      unfold command effect
      dsimp only
      rw [if_neg nonzero]
      by_cases one : p.argc = 1
      · have lone : args[1]? = none := List.getElem?_eq_none (by omega)
        rw [if_pos one, lone]
        exact ⟨_, rfl, rfl, rfl⟩
      · have second : 1 < args.length := by omega
        have column : args[1]? = some args[1] := List.getElem?_eq_getElem second
        have next := @readArg_eq _ β { s with parser := p, trace := trace ++ [.read 0] } held counted few
          1 second
        rw [if_neg one, column, ← Nat.cast_one, next]
        exact ⟨_, rfl, rfl, rfl⟩
  | eraseLines | eraseOnLine =>
      have first := @direction_eq β { s with parser := p, trace := trace ++ [.read 0] } args held counted few
        inside
      unfold command effect
      dsimp only at first ⊢
      rw [first]
      exact ⟨_, rfl, rfl, rfl⟩
  | attributes =>
      obtain ⟨t', loop, kept, shown⟩ := @attributeLoop_shown β s
        { s with parser := p, trace := trace ++ [.read 0] } args (List.range args.length) held counted few
        (fun i member => List.mem_range.mp member) rfl
      rw [range_getD] at shown
      refine ⟨t', ?_, kept, shown⟩
      unfold command
      dsimp only
      rw [if_neg nonzero, counted, Int.toNat_natCast]
      exact loop

end State

theorem Command.ofChar_low {c : Int} (low : c < 65) : Command.ofChar c = .other := by
  unfold Command.ofChar
  simp only [Char.reduceToNat]
  rw [if_neg (by omega), if_neg (by omega), if_neg (by omega), if_neg (by omega), if_neg (by omega),
    if_neg (by omega), if_neg (by omega), if_neg (by omega), if_neg (by omega), if_neg (by omega),
    if_neg (by omega), if_neg (by omega), if_neg (by omega), if_neg (by omega), if_neg (by omega)]

/-- A letter is no digit and no semicolon. -/
theorem letter_of_command {byte : UInt8} (supported : Command.ofChar (toChar byte) ≠ .other) :
    byte ≠ 59 ∧ ¬ (48 ≤ byte ∧ byte ≤ 57) := by
  refine ⟨fun semicolon => supported ?_, fun digit => supported (Command.ofChar_low ?_)⟩
  · rw [semicolon]
    rfl
  · have ofDigit := toChar_digit digit
    have high : byte.toNat ≤ 57 := UInt8.le_iff_toNat_le.mp digit.2
    omega

namespace State

/-- A whole sequence has the effect of its parameters. -/
theorem sequence_effect (ops : Backend β) (s : State β) (ascii : s.parser.state = .ascii)
    {params : List (List (Fin 10))} (some : params ≠ []) (few : params.length ≤ 10) {byte : UInt8}
    (supported : Command.ofChar (toChar byte) ≠ .other) :
    ∃ t, (sequenceText params byte).foldlM (writeByte ops) s = Option.some t ∧ t.parser.state = .ascii ∧
      t.shown = (effect ops s ((params.map value).map stored) (Command.ofChar (toChar byte))).shown := by
  obtain ⟨other, letter⟩ := letter_of_command supported
  obtain ⟨t, ran, p, trace, rfl, held, counted, ascii'⟩ := sequence_csi ops s ascii some few other letter
  have counted' : p.argc = ((params.map value).map stored).length := by
    rw [List.length_map]
    exact counted
  have few' : ((params.map value).map stored).length ≤ 10 := by
    rw [List.length_map, List.length_map]
    exact few
  have inside : 0 < ((params.map value).map stored).length := by
    rw [List.length_map, List.length_map]
    exact List.length_pos_of_ne_nil some
  obtain ⟨t', called, parser, shown⟩ := csi_effect ops trace held counted' few' inside (toChar byte) (s := s)
  exact ⟨t', ran.trans called, (congrArg Parser.state parser).trans ascii', shown⟩

end State

end TrollOS.Console
