import TrollOS.Gdb.Model
import TrollOS.Lib.BitField
import TrollOS.Lib.HalfWords

/-!
# The debugger stub

`_catchException`, `handle_exception`, `_returnFromException` and `return_to_any` of
`kernel/gdb-stub.c`, built for the 68040 and its floating-point unit.  The saved frames lie one below
the other in `gdbFrameStack`; a `Frame` is its `previous` (4 bytes), `exceptionPC` (4),
`exceptionVector` (4), `frameSize` (2), from `sr` on the words the processor had pushed, and behind them
what `fsave` has written.
-/

namespace TrollOS.Gdb

open TrollOS.Lib ByteMem

def numregbytes : Nat := 180

/-- The offsets of `registers[A7]`, `registers[PS]`, `registers[PC]` and `registers[FP0]`. -/
def a7 : Nat := 60
def ps : Nat := 64
def pc : Nat := 68
def fp0 : Nat := 72

def frameBytes : Nat := 26

def frameStackBytes : Nat := 2000

/-- `&gdbFrameStack[FRAMESIZE - 1]`, from the array's start. -/
def frameStackEnd : Nat := 1996

def exceptionSize : List Nat := [4, 4, 6, 6, 8, 0, 0, 30, 0, 0, 0, 0, 0, 0, 0, 0, 0]

/-! ## The processor -/

/-- The floating-point unit: what `fmovemx` moves for `fp0` to `fp7` and `fmoveml` for `fpcr`, `fpsr` and
`fpiar`, and the frame that `fsave` writes. -/
structure Fpu where
  moved : Vector UInt32 27
  state : List UInt32
  deriving DecidableEq

namespace Fpu

/-- The longs of a frame, by its first one.  A null frame has one, as an idle one has; then there are those of
an instruction that is not implemented and of a busy unit. -/
def longs (header : Nat) : Nat :=
  if header / 16777216 = 0 then 1
  else
    match header / 65536 with
    | 0x4100 => 1
    | 0x4130 => 13
    | 0x4160 => 25
    | _ => 0

def idle : List UInt32 := [0x41000000]

/-- What a null frame makes of the registers. -/
def reset : Vector UInt32 27 :=
  Vector.ofFn fun i => if 24 ≤ i.val then 0 else if i.val % 3 = 0 then 0x7FFF0000 else 0xFFFFFFFF

end Fpu

structure Context where
  /-- `d0` to `d7`, then `a0` to `a6` -/
  general : Vector UInt32 15
  usp : UInt32
  /-- with the exception frame off the stack -/
  ssp : UInt32
  sr : UInt16
  pc : UInt32
  fpu : Fpu
  deriving DecidableEq

/-- An exception of a program: its vector, and the format and further words of the frame that the
processor pushes. -/
structure Exception where
  context : Context
  vector : Nat
  format : Nat
  rest : List Nat

def Exception.words (e : Exception) : List Nat :=
  [e.context.sr.toNat, e.context.pc.toNat / 65536, e.context.pc.toNat % 65536,
    e.format * 4096 + e.vector * 4] ++ e.rest

/-- What `int_set_handler` has put into vector 2. -/
inductive BusHandler where
  | catchException
  | handleBuserror
  deriving DecidableEq, Repr

/-- Where the stub's variables are: `gdbFrameStack` from `base` on, and all the others. -/
structure Image where
  base : Nat
  others : Nat → Bool

def Image.own (image : Image) (a : Nat) : Bool :=
  decide (image.base ≤ a ∧ a < image.base + frameStackBytes) || image.others a

/-- The variables of the stub, the `usp` of the processor and the memory of the machine.  `frames` is
the memory that `gdbFrameStack` lies in; `memory` is told where the stub has no variable. -/
structure Stub where
  inBuffer : ByteMem
  outBuffer : ByteMem
  registers : ByteMem
  usp : UInt32
  superStack : UInt32
  frames : ByteMem
  lastFrame : Nat
  memory : ByteMem
  busHandler : BusHandler
  remoteDebug : Bool
  sent : List UInt8

def computeSignal (exceptionVector : Nat) : Nat :=
  match exceptionVector with
  | 2 | 3 | 13 => 10
  | 4 | 10 | 11 => 4
  | 5 | 6 | 7 | 40 | 48 | 49 | 50 | 51 | 52 | 53 | 54 => 8
  | 8 => 11
  | 9 | 33 => 5
  | 31 => 2
  | _ => 7

namespace Stub

def cleanStart : Stub where
  inBuffer _ := 0
  outBuffer _ := 0
  registers _ := 0
  usp := 0
  superStack := 0
  frames _ := 0
  lastFrame := 0
  memory _ := 0
  busHandler := .catchException
  remoteDebug := false
  sent := []

/-! ## Exceptions -/

/-- `moveml` and `fmovemx`, into `registers` from `a` on. -/
def saveLongs (registers : ByteMem) (a : Nat) {n : Nat} (longs : Vector UInt32 n) : ByteMem :=
  long.storeRow registers a (longs.toList.map UInt32.toNat)

/-- What `-(%a0)` puts below one another, and where `fsave` and the words of the processor end up. -/
def pushFrame (frames : ByteMem) (frame previous exceptionPC exceptionVector : Nat) (words : List Nat)
    (state : List UInt32) : ByteMem :=
  let frames := long.storeRow frames (frame + 14 + 2 * words.length) (state.map UInt32.toNat)
  let frames := half.storeRow frames (frame + 14) words
  let frames := store16 frames (frame + 12) words.length
  let frames := store32 frames (frame + 8) exceptionVector
  let frames := store32 frames (frame + 4) exceptionPC
  store32 frames frame previous

def saveRegisters (registers : ByteMem) (e : Exception) : ByteMem :=
  let registers := saveLongs registers 0 e.context.general
  let registers := saveLongs registers fp0 e.context.fpu.moved
  let registers := store16 registers (ps + 2) e.context.sr.toNat
  let registers := store32 registers pc e.context.pc.toNat
  let sp := if field e.context.sr.toNat 13 1 = 0 then e.context.usp else e.context.ssp
  store32 registers a7 sp.toNat

/-- `_catchException`, up to the call of `handle_exception`, for a format with a size. -/
def catchException (s : Stub) (e : Exception) : Stub :=
  let words := e.words.take (exceptionSize.getD e.format 0)
  let state := e.context.fpu.state
  let frame := s.lastFrame - 4 * state.length - 2 * words.length - 14
  { s with
    registers := saveRegisters s.registers e, usp := e.context.usp, superStack := e.context.ssp
    frames := pushFrame s.frames frame s.lastFrame e.context.pc.toNat e.vector words state
    lastFrame := frame }

/-- `initializeRemcomErrorFrame`, for an array at `base`. -/
def initializeRemcomErrorFrame (base : Nat) (s : Stub) : Stub :=
  let top := base + frameStackEnd - frameBytes
  { s with frames := store32 s.frames top top, lastFrame := top }

def loadLongs (registers : ByteMem) (a n : Nat) : Vector UInt32 n :=
  Vector.ofFn fun i => UInt32.ofNat (load32 registers (a + 4 * i))

/-- `RESTORE_FP_REGS`, with `%a0` behind the words of a frame.  `frestore` is left out where there is -1,
and traps on what `fsave` cannot have written. -/
def restoreFpu (registers frames : ByteMem) (a0 : Nat) : Option Fpu :=
  let header := load32 frames a0
  let moved := loadLongs registers fp0 27
  if header = 4294967295 then some ⟨moved, Fpu.idle⟩
  else if Fpu.longs header = 0 then none
  else
    some ⟨if header / 16777216 = 0 then Fpu.reset else moved,
      (long.loadRow frames a0 (Fpu.longs header)).map UInt32.ofNat⟩

/-- `return_to_super` and `return_to_user`, then `return_to_any`: the words of the last frame go onto
the supervisor stack, and `rte` takes them off again.  A frame without words sends the copy loop
through the whole memory, and one that is not as long as its format says leaves the stack askew. -/
def returnToAny (s : Stub) (super : Bool) : Served (Context × Stub) :=
  let sp := UInt32.ofNat (load32 s.registers a7)
  let usp := if super then s.usp else sp
  let ssp := if super then sp else s.superStack
  let size := load16 s.frames (s.lastFrame + 12)
  match half.loadRow s.frames (s.lastFrame + 14) size with
  | sr :: pcHigh :: pcLow :: format :: _ =>
      if exceptionSize.getD (format / 4096) 0 = size then
        match restoreFpu s.registers s.frames (s.lastFrame + 14 + 2 * size) with
        | some fpu =>
            .done (⟨loadLongs s.registers 0 15, usp, ssp, UInt16.ofNat sr,
                UInt32.ofNat (pcHigh * 65536 + pcLow), fpu⟩,
              { s with lastFrame := load32 s.frames s.lastFrame, usp := usp })
        | none => .overrun
      else .overrun
  | _ => .overrun

/-- The frame that is made up for a null pointer. -/
def fillFrame (s : Stub) : Stub :=
  { s with
    frames := store32 (store16 (store16 s.frames (s.lastFrame + 12) 4) (s.lastFrame + 20) 0)
      (s.lastFrame + 22) 4294967295 }

def setReturn (s : Stub) : Stub :=
  { s with
    frames := store32 (store16 s.frames (s.lastFrame + 14) (load32 s.registers ps)) (s.lastFrame + 16)
      (load32 s.registers pc) }

/-- `_returnFromException`; 0 is the null pointer. -/
def returnFromException (s : Stub) (frame : Nat) : Served (Context × Stub) :=
  let s := if frame = 0 then s.fillFrame else { s with lastFrame := frame }
  s.setReturn.returnToAny (decide (field (load32 s.registers ps) 13 1 ≠ 0))

/-! ## Commands -/

def strcpyOut (s : Stub) (text : List UInt8) : Stub :=
  { s with outBuffer := fun i => if i ≤ text.length then text.getD i 0 else s.outBuffer i }

/-- `'S'`, the two digits of the signal and the NUL, in `remcomOutBuffer`. -/
def lastSignal (s : Stub) (sigval : Nat) : Stub :=
  s.strcpyOut ['S'.toUInt8, hexchars (sigval / 16), hexchars (sigval % 16)]

def ok : List UInt8 := ['O'.toUInt8, 'K'.toUInt8]
def errorText (digit : Char) : List UInt8 := ['E'.toUInt8, '0'.toUInt8, digit.toUInt8]

/-- What the `switch` of `handle_exception` comes to. -/
inductive Dispatch where
  /-- `putpacket (remcomOutBuffer)` follows -/
  | reply (s : Stub)
  /-- `_returnFromException` -/
  | resume (outcome : Served (Context × Stub))
  | overrun
  | strayed

def guarded (s : Stub) : Stub := { s with busHandler := .handleBuserror }

/-- `exceptionHandler (2, _catchException)`, behind either branch of `setjmp`. -/
def restored (s : Stub) : Stub := { s with busHandler := .catchException }

def countOf (length : Nat) : Nat := (toInt32 length).toNat

/-- Whether a loop from `mem` on comes to a variable of the stub before the bus fails. -/
def strays (image : Image) (present : Nat → Bool) : Nat → Nat → Bool
  | 0, _ => false
  | count + 1, mem => present mem && (image.own mem || strays image present count (u32 (mem + 1)))

/-- How a loop over memory ended, with the stub behind `setjmp` for either branch. -/
def behindSetjmp (strayed : Bool) (finished busError : Stub) : Ended → Dispatch
  | .finished => if strayed then .strayed else .reply finished.restored
  | .busError => if strayed then .strayed else .reply busError.restored
  | .overrun => .overrun

def peekMemory (image : Image) (present : Nat → Bool) (s : Stub) (addr length : Nat) : Dispatch :=
  let ran := mem2hex (fun a => if present a then some (s.memory a) else none) (countOf length) addr 0 s.outBuffer
  let s := { s with outBuffer := ran.2 }
  behindSetjmp (strays image present (countOf length) addr) s (s.strcpyOut (errorText '3')) ran.1

def pokeMemory (image : Image) (present : Nat → Bool) (s : Stub) (addr length ptr : Nat) : Dispatch :=
  let ran := hex2mem present s.inBuffer (countOf length) ptr addr s.memory
  let s := { s with memory := ran.2 }
  behindSetjmp (strays image present (countOf length) addr) (s.strcpyOut ok) (s.strcpyOut (errorText '3')) ran.1

/-- Case `'m'`, with `ptr` behind the letter. -/
def readMemory (image : Image) (present : Nat → Bool) (s : Stub) (ptr : Nat) : Dispatch :=
  let s := s.guarded
  let malformed := Dispatch.reply (s.strcpyOut (errorText '1')).restored
  match hexToInt s.inBuffer ptr with
  | none => .overrun
  | some (numChars, addr, ptr) =>
      if numChars = 0 then malformed
      else if s.inBuffer ptr ≠ ','.toUInt8 then malformed
      else
        match hexToInt s.inBuffer (ptr + 1) with
        | none => .overrun
        | some (numChars, length, _) =>
            if numChars = 0 then malformed else s.peekMemory image present addr length

def writeMemory (image : Image) (present : Nat → Bool) (s : Stub) (ptr : Nat) : Dispatch :=
  let s := s.guarded
  let malformed := Dispatch.reply (s.strcpyOut (errorText '2')).restored
  match hexToInt s.inBuffer ptr with
  | none => .overrun
  | some (numChars, addr, ptr) =>
      if numChars = 0 then malformed
      else if s.inBuffer ptr ≠ ','.toUInt8 then malformed
      else
        match hexToInt s.inBuffer (ptr + 1) with
        | none => .overrun
        | some (numChars, length, ptr) =>
            if numChars = 0 then malformed
            else if s.inBuffer ptr ≠ ':'.toUInt8 then malformed
            else s.pokeMemory image present addr length (ptr + 1)

def readRegisters (s : Stub) : Dispatch :=
  let ran := mem2hex (fun a => some (s.registers a)) numregbytes 0 0 s.outBuffer
  if ran.1 = .finished then .reply { s with outBuffer := ran.2 } else .overrun

def writeRegisters (s : Stub) (ptr : Nat) : Dispatch :=
  let ran := hex2mem (fun _ => true) s.inBuffer numregbytes ptr 0 s.registers
  if ran.1 = .finished then .reply ({ s with registers := ran.2 }.strcpyOut ok) else .overrun

/-- `while (frame)`: the frame that belongs to `newPC`, 0 when the chain ends without one. -/
def findFrame (frames : ByteMem) (newPC : Nat) : Nat → Nat → Option Nat
  | 0, _ => none
  | fuel + 1, frame =>
      let exceptionPC := load32 frames (frame + 4)
      if exceptionPC = newPC then some frame
      else if load32 frames (frame + 8) = 33 ∧ exceptionPC = u32 (newPC + 2) then some frame
      else if frame = load32 frames frame then some 0
      else findFrame frames newPC fuel (load32 frames frame)

def fakeFrame (base : Nat) (s : Stub) : Stub :=
  let frame := s.lastFrame - frameBytes
  if frame - 2 * frameBytes < base then
    let s := initializeRemcomErrorFrame base s
    { s with frames := store32 s.frames s.lastFrame s.lastFrame }
  else { s with frames := store32 s.frames frame s.lastFrame, lastFrame := frame }

def withPC (registers : ByteMem) (numChars addr : Nat) : ByteMem :=
  if numChars ≠ 0 then store32 registers pc addr else registers

def withTrace (registers : ByteMem) (stepping : Bool) : ByteMem :=
  let registers := store32 registers ps (load32 registers ps % 32768)
  if stepping then store32 registers ps (load32 registers ps + 32768) else registers

/-- From the search on, which goes up the array.  `oldExceptionHook` is `_hook`, which does nothing. -/
def resumeAt (s : Stub) (base newPC : Nat) : Dispatch :=
  match findFrame s.frames newPC (base + frameStackEnd - s.lastFrame) s.lastFrame with
  | none => .overrun
  | some frame => .resume ((if frame = 0 then fakeFrame base s else s).returnFromException frame)

/-- Cases `'s'` and `'c'`. -/
def continueAt (base : Nat) (stepping : Bool) (s : Stub) (ptr : Nat) : Dispatch :=
  match hexToInt s.inBuffer ptr with
  | none => .overrun
  | some (numChars, addr, _) =>
      let registers := withPC s.registers numChars addr
      { s with registers := withTrace registers stepping }.resumeAt base (load32 registers pc)

def cleared (s : Stub) : Stub := { s with outBuffer := Function.update s.outBuffer 0 0 }

/-- The `switch` of `handle_exception`, for a packet at `offset` of `remcomInBuffer`. -/
def dispatch (image : Image) (present : Nat → Bool) (sigval : Nat) (s : Stub) (offset : Nat) : Dispatch :=
  let s := s.cleared
  let cmd := s.inBuffer offset
  let ptr := offset + 1
  if cmd = '?'.toUInt8 then .reply (s.lastSignal sigval)
  else if cmd = 'd'.toUInt8 then .reply { s with remoteDebug := !s.remoteDebug }
  else if cmd = 'g'.toUInt8 then s.readRegisters
  else if cmd = 'G'.toUInt8 then s.writeRegisters ptr
  else if cmd = 'm'.toUInt8 then s.readMemory image present ptr
  else if cmd = 'M'.toUInt8 then s.writeMemory image present ptr
  else if cmd = 's'.toUInt8 then s.continueAt image.base true ptr
  else if cmd = 'c'.toUInt8 then s.continueAt image.base false ptr
  else .reply s

def said (s : Stub) (bytes : List UInt8) : Stub := { s with sent := s.sent ++ bytes }

def putOut (s : Stub) (input : List UInt8) : Served (Stub × List UInt8) :=
  (putpacket s.outBuffer input).andThen fun (bytes, rest) => .done (s.said bytes, rest)

/-- `getpacket ()`: the offset it returns. -/
def getIn (s : Stub) (input : List UInt8) : Served (Nat × Stub × List UInt8) :=
  match getpacket ⟨.start, s.inBuffer, s.sent⟩ input with
  | none => .waiting
  | some (offset, r, rest) => .done (offset, { s with inBuffer := r.buffer, sent := r.sent }, rest)

/-- `while (1 == 1)`, for so many packets. -/
def serve (image : Image) (present : Nat → Bool) (sigval : Nat) :
    Nat → Stub → List UInt8 → Served (Context × Stub × List UInt8)
  | 0, _, _ => .waiting
  | fuel + 1, s, input =>
      (s.getIn input).andThen fun (offset, s, rest) =>
        match s.dispatch image present sigval offset with
        | .reply s => (s.putOut rest).andThen fun (s, rest) => serve image present sigval fuel s rest
        | .resume outcome => outcome.andThen fun (context, s) => .done (context, s, rest)
        | .overrun => .overrun
        | .strayed => .strayed

/-- An exception with what the host sends until the program goes on: `_catchException` and
`handle_exception`.  A format without a size makes the copy loop run over the whole memory; a packet
takes more than one byte of the input. -/
def handleException (image : Image) (present : Nat → Bool) (s : Stub) (e : Exception) (input : List UInt8) :
    Served (Context × Stub × List UInt8) :=
  if exceptionSize.getD e.format 0 = 0 then .overrun
  else
    let sigval := computeSignal e.vector
    (((s.catchException e).lastSignal sigval).putOut input).andThen fun (s, rest) =>
      serve image present sigval rest.length s rest

end Stub

end TrollOS.Gdb
