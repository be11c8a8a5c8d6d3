import Mathlib.Data.Int.Bitwise
import Mathlib.Data.Vector.Basic

/-!
# The console and its escape sequences

`_csi` and `_write` of `kernel/modules/chardev/console.c`, over any backend.  The
fields of `parse_state` lie one behind the other, so an index past `arg` finds
`argc`, then `a`; a store or read further out leaves the model.  `trace` is not part
of the console: it records what is done with `arg`, the reads of one argument in one
place once.
-/

namespace TrollOS.Console

/-- What a value becomes as an `unsigned int`. -/
def unsigned (value : Int) : Nat := (value % 4294967296).toNat

/-- What a value becomes as an `int`. -/
def signed (value : Int) : Int := value.bmod 4294967296

/-- A byte as a `char`, which is signed on this machine. -/
def toChar (byte : UInt8) : Int := if byte < 128 then byte.toNat else (byte.toNat : Int) - 256

def isdigit (c : Int) : Bool := 48 ≤ c && c ≤ 57

inductive ClearDirection where
  | forward
  | backward
  | both
  deriving DecidableEq, Repr

/-- `ConsoleBackend`, over the states `β` of its screen. -/
structure Backend (β : Type) where
  putc : β → Int → Nat → Nat → β
  setCursor : β → Nat → Nat → β
  getCursor : β → Nat × Nat
  clearLines : β → ClearDirection → β
  clearOnLine : β → ClearDirection → β
  scrollUp : β → Nat → β
  scrollDown : β → Nat → β

inductive ParseState where
  | ascii
  | esc
  | csi
  | csiArg
  deriving DecidableEq, Repr

structure Parser where
  state : ParseState
  arg : Vector Int 10
  argc : Int
  a : Int
  deriving DecidableEq, Repr

/-- What is done with `parse_state.arg`: stores, reads, and sequences handed to `_csi`. -/
inductive ArgEvent where
  | store (index : Int)
  | read (index : Int)
  | dispatch (cmd : Int) (args : List Int)
  deriving DecidableEq, Repr

structure State (β : Type) where
  parser : Parser
  backend : β
  bold : Bool
  colorFg : Nat
  colorBg : Nat
  savedX : Nat
  savedY : Nat
  trace : List ArgEvent

/-- `CONSOLE_COLOR_LIGHT_GRAY` and `CONSOLE_COLOR_BLACK`. -/
def lightGray : Nat := 7
def black : Nat := 0

/-- `_console` at boot, over a screen. -/
def boot {β : Type} (backend : β) : State β where
  parser := ⟨.ascii, Vector.replicate 10 0, 0, 0⟩
  backend := backend
  bold := false
  colorFg := lightGray
  colorBg := black
  savedX := 0
  savedY := 0
  trace := []

namespace Parser

def load (p : Parser) (index : Int) : Option Int :=
  if 0 ≤ index ∧ index < 10 then p.arg[index.toNat]?
  else if index = 10 then some p.argc
  else if index = 11 then some p.a
  else none

/-- `arg[index] = value`. -/
def store (p : Parser) (index value : Int) : Option Parser :=
  if 0 ≤ index ∧ index < 10 then some { p with arg := p.arg.setIfInBounds index.toNat value }
  else if index = 10 then some { p with argc := value }
  else if index = 11 then some { p with a := value }
  else none

/-- `arg[argc] = value; if(argc < 10) argc++; a = 0;` -/
def finishParameter (p : Parser) (value : Int) : Option Parser :=
  (p.store p.argc value).map fun p =>
    { p with argc := if p.argc < 10 then p.argc + 1 else p.argc, a := 0 }

def args (p : Parser) : List Int := p.arg.toList.take p.argc.toNat

end Parser

inductive Command where
  | up | down | right | left
  | nextLine | previousLine
  | column | position
  | eraseLines | eraseOnLine
  | scrollUp | scrollDown
  | save | restore
  | attributes
  | other
  deriving DecidableEq, Repr

def Command.ofChar (cmd : Int) : Command :=
  if cmd = 'A'.toNat then .up
  else if cmd = 'B'.toNat then .down
  else if cmd = 'C'.toNat then .right
  else if cmd = 'D'.toNat then .left
  else if cmd = 'E'.toNat then .nextLine
  else if cmd = 'F'.toNat then .previousLine
  else if cmd = 'G'.toNat then .column
  else if cmd = 'f'.toNat ∨ cmd = 'H'.toNat then .position
  else if cmd = 'J'.toNat then .eraseLines
  else if cmd = 'K'.toNat then .eraseOnLine
  else if cmd = 'S'.toNat then .scrollUp
  else if cmd = 'T'.toNat then .scrollDown
  else if cmd = 's'.toNat then .save
  else if cmd = 'u'.toNat then .restore
  else if cmd = 'm'.toNat then .attributes
  else .other

namespace State

variable {β : Type}

def readArg (s : State β) (index : Int) : Option (Int × State β) :=
  (s.parser.load index).map fun value => (value, { s with trace := s.trace ++ [.read index] })

/-- `delta`: the first argument where it is positive, else 1. -/
def delta (s : State β) (argc : Int) : Option (Int × State β) :=
  if 0 < argc then
    (s.readArg 0).map fun (value, s) => (if 0 < value then value else 1, s)
  else some (1, s)

def setCursor (ops : Backend β) (s : State β) (x y : Int) : State β :=
  { s with backend := ops.setCursor s.backend (unsigned x) (unsigned y) }

/-- The direction that `J` and `K` take from their argument. -/
def direction (s : State β) (argc : Int) : Option (ClearDirection × State β) :=
  if argc = 0 then some (.forward, s)
  else (s.readArg 0).map fun (value, s) =>
    (if value = 0 then .forward else if value = 1 then .backward else .both, s)

def resetAttributes (s : State β) : State β :=
  { s with colorFg := lightGray, colorBg := black, bold := false }

/-- One argument of `m`. -/
def setAttribute (s : State β) (value : Int) : State β :=
  if value = 0 then s.resetAttributes
  else if value = 1 then { s with bold := true }
  else if value = 22 then { s with bold := false }
  else if 30 < value ∧ value < 38 then { s with colorFg := (value - 30).toNat }
  else if value = 39 then { s with colorFg := lightGray }
  else if 40 < value ∧ value < 48 then { s with colorBg := (value - 40).toNat }
  else if value = 49 then { s with colorBg := black }
  else s

def attributeLoop (s : State β) : List Nat → Option (State β)
  | [] => some s
  | i :: rest => (s.readArg i).bind fun (value, s) => (s.setAttribute value).attributeLoop rest

def command (ops : Backend β) (s : State β) (cmd : Command) (argc delta : Int) :
    Option (State β) :=
  let x := (ops.getCursor s.backend).1
  let y := (ops.getCursor s.backend).2
  match cmd with
  | .up => some (if y = 0 then s else s.setCursor ops x (y - delta))
  | .down => some (s.setCursor ops x (y + delta))
  | .right => some (s.setCursor ops (x + delta) y)
  | .left => some (if x = 0 then s else s.setCursor ops (x - delta) y)
  | .nextLine => some (s.setCursor ops 0 (y + delta))
  | .previousLine => some (s.setCursor ops 0 ((if y = 0 then 1 else y : Nat) - delta))
  | .column => some (s.setCursor ops (delta - 1) y)
  | .position =>
      let s := if argc = 0 then s.setCursor ops 1 1 else s
      if argc = 1 then some (s.setCursor ops x (delta - 1))
      else (s.readArg 1).map fun (value, s) =>
        s.setCursor ops (if 0 < value then value - 1 else 0) (delta - 1)
  | .eraseLines => (s.direction argc).map fun (dir, s) =>
      { s with backend := ops.clearLines s.backend dir }
  | .eraseOnLine => (s.direction argc).map fun (dir, s) =>
      { s with backend := ops.clearOnLine s.backend dir }
  | .scrollUp => some { s with backend := ops.scrollUp s.backend (unsigned delta) }
  | .scrollDown => some { s with backend := ops.scrollDown s.backend (unsigned delta) }
  | .save => some { s with savedX := x, savedY := y }
  | .restore => some (s.setCursor ops s.savedX s.savedY)
  | .attributes =>
      if argc = 0 then some s.resetAttributes else s.attributeLoop (List.range argc.toNat)
  | .other => some s

def csi (ops : Backend β) (s : State β) (cmd argc : Int) : Option (State β) :=
  (s.delta argc).bind fun (delta, s) => s.command ops (Command.ofChar cmd) argc delta

/-- Store a parameter, which counts it. -/
def finishParameter (s : State β) (value : Int) : Option (State β) :=
  (s.parser.finishParameter value).map fun p =>
    { s with parser := p, trace := s.trace ++ [.store s.parser.argc] }

def setState (s : State β) (state : ParseState) : State β :=
  { s with parser := { s.parser with state := state } }

/-- The last parameter of a sequence is stored, and `_csi` runs. -/
def finishSequence (ops : Backend β) (s : State β) (value c : Int) : Option (State β) :=
  (s.finishParameter value).bind fun s =>
    let s := s.setState .ascii
    ({ s with trace := s.trace ++ [.dispatch c s.parser.args] } : State β).csi ops c s.parser.argc

/-- The case `PARSE_STATE_CSI_ARG`. -/
def argByte (ops : Backend β) (s : State β) (c : Int) : Option (State β) :=
  if c = ';'.toNat then (s.finishParameter s.parser.a).map fun s => s.setState .csi
  else if ¬ isdigit c then s.finishSequence ops s.parser.a c
  else
    some { s with parser := { s.parser with a := signed (signed (s.parser.a * 10) + (c - 48)) } }

/-- One turn of the loop of `_write`. -/
def writeByte (ops : Backend β) (s : State β) (byte : UInt8) : Option (State β) :=
  let c := toChar byte
  match s.parser.state with
  | .ascii =>
      if c = 27 then some (s.setState .esc)
      else some { s with
        backend := ops.putc s.backend c (s.colorFg + if s.bold then 8 else 0) s.colorBg }
  | .esc =>
      if c = '['.toNat then
        some { s with parser := { s.parser with state := .csi, argc := 0, a := 0 } }
      else some (s.setState .ascii)
  | .csi =>
      if c = ';'.toNat then s.finishParameter (-1)
      else if ¬ isdigit c then s.finishSequence ops (-1) c
      else (s.setState .csiArg).argByte ops c
  | .csiArg => s.argByte ops c

def write (ops : Backend β) (s : State β) (buf : List UInt8) : Option (Int × State β) :=
  (buf.foldlM (writeByte ops) s).map fun s => (signed buf.length, s)

def writes (ops : Backend β) (s : State β) : List (List UInt8) → Option (State β)
  | [] => some s
  | buf :: rest => (write ops s buf).bind fun (_, s) => s.writes ops rest

/-- The text goes through byte by byte, wherever one write ends. -/
theorem writes_eq (ops : Backend β) (s : State β) (bufs : List (List UInt8)) :
    s.writes ops bufs = bufs.flatten.foldlM (writeByte ops) s := by
  induction bufs generalizing s with
  | nil => rfl
  | cons buf rest ih =>
      simp only [writes, write, List.flatten_cons, List.foldlM_append]
      cases buf.foldlM (writeByte ops) s with
      | none => rfl
      | some next => exact ih next

end State

end TrollOS.Console
