import TrollOS.Lib.ByteMemory

/-!
# The debugger's packets

`hex`, `getpacket`, `putpacket`, `mem2hex`, `hex2mem` and `hexToInt` of `kernel/gdb-stub.c`.
`getpacket` is cut at its calls of `getDebugChar`: `Reading` says which of them waits, with the
variables that are alive there, and `Receiver.byte` runs from there to the next one.
-/

namespace TrollOS.Gdb

open TrollOS.Lib

def bufmax : Nat := 400

def hexchars (digit : Nat) : UInt8 := UInt8.ofNat (if digit < 10 then 48 + digit else 87 + digit)

def hex (ch : UInt8) : Int :=
  if 'a'.toUInt8 ≤ ch ∧ ch ≤ 'f'.toUInt8 then ch.toNat - 97 + 10
  else if '0'.toUInt8 ≤ ch ∧ ch ≤ '9'.toUInt8 then ch.toNat - 48
  else if 'A'.toUInt8 ≤ ch ∧ ch ≤ 'F'.toUInt8 then ch.toNat - 65 + 10
  else -1

/-- Two digits as an `unsigned char`: `hex (ch) << 4`, then `+ hex (ch)`. -/
def hexByte (high low : UInt8) : UInt8 := UInt8.ofInt (hex high * 16) + UInt8.ofInt (hex low)

/-- What becomes of a piece of the stub's work on the bytes the host has sent so far. -/
inductive Served (α : Type) where
  | done (result : α)
  /-- It waits for a byte that has not been sent. -/
  | waiting
  /-- It goes past the end of a buffer, or takes what no processor has written for an exception. -/
  | overrun
  /-- It reads or writes the variables that it works with itself as if they were the program's.  What
  it does from there on is left open. -/
  | strayed
  deriving DecidableEq, Repr

namespace Served

variable {α β : Type}

def andThen (call : Served α) (next : α → Served β) : Served β :=
  match call with
  | done result => next result
  | waiting => waiting
  | overrun => overrun
  | strayed => strayed

@[simp] theorem andThen_done (result : α) (next : α → Served β) :
    (done result).andThen next = next result := rfl

theorem andThen_eq_done {call : Served α} {next : α → Served β} {result : β}
    (went : call.andThen next = .done result) : ∃ first, call = .done first ∧ next first = .done result := by
  cases call with
  | done first => exact ⟨first, rfl, went⟩
  | waiting => cases went
  | overrun => cases went
  | strayed => cases went

end Served

/-! ## Receiving -/

inductive Reading where
  /-- `while ((ch = getDebugChar ()) != '$')` -/
  | start
  /-- in `while (count < BUFMAX - 1)` -/
  | body (count : Nat) (checksum : UInt8)
  /-- `xmitcsum = hex (ch) << 4` -/
  | high (checksum : UInt8)
  /-- `xmitcsum += hex (ch)` -/
  | low (checksum digit : UInt8)
  deriving DecidableEq, Repr

/-- `getpacket` with `remcomInBuffer` and the bytes the stub has sent. -/
structure Receiver where
  reading : Reading
  buffer : ByteMem
  sent : List UInt8

namespace Receiver

def send (r : Receiver) (bytes : List UInt8) : Receiver := { r with sent := r.sent ++ bytes }

/-- A character of the packet.  At `BUFMAX - 1` the loop ends without a `'#'`. -/
def store (r : Receiver) (count : Nat) (checksum ch : UInt8) : Receiver :=
  let r := { r with buffer := Function.update r.buffer count ch }
  if count + 1 < bufmax - 1 then { r with reading := .body (count + 1) (checksum + ch) }
  else { r with reading := .start, buffer := Function.update r.buffer (count + 1) 0 }

/-- A packet whose checksum is right: where the returned pointer points in the buffer. -/
def accept (r : Receiver) : Receiver × Option Nat :=
  let r := { r.send ['+'.toUInt8] with reading := .start }
  if r.buffer 2 = ':'.toUInt8 then (r.send [r.buffer 0, r.buffer 1], some 3) else (r, some 0)

def refuse (r : Receiver) : Receiver := { r.send ['-'.toUInt8] with reading := .start }

/-- From one call of `getDebugChar`, which returns `ch`, to the next, or to the `return`. -/
def byte (r : Receiver) (ch : UInt8) : Receiver × Option Nat :=
  match r.reading with
  | .start => ({ r with reading := if ch = '$'.toUInt8 then .body 0 0 else .start }, none)
  | .body count checksum =>
      if ch = '$'.toUInt8 then ({ r with reading := .body 0 0 }, none)
      else if ch = '#'.toUInt8 then
        ({ r with reading := .high checksum, buffer := Function.update r.buffer count 0 }, none)
      else (r.store count checksum ch, none)
  | .high checksum => ({ r with reading := .low checksum ch }, none)
  | .low checksum digit =>
      if checksum ≠ hexByte digit ch then (r.refuse, none) else r.accept

end Receiver

/-- `getpacket`, from a call of `getDebugChar` on: the offset it returns, and the bytes that it has
not read. -/
def getpacket : Receiver → List UInt8 → Option (Nat × Receiver × List UInt8)
  | _, [] => none
  | r, ch :: input =>
      match r.byte ch with
      | (r, some offset) => some (offset, r, input)
      | (r, none) => getpacket r input

/-! ## Sending -/

/-- `while (ch = buffer[count])`, for at most `room` bytes: the bytes sent and the checksum. -/
def putBody (buffer : ByteMem) : Nat → Nat → UInt8 → Option (List UInt8 × UInt8)
  | 0, _, _ => none
  | room + 1, count, checksum =>
      if buffer count = 0 then some ([], checksum)
      else (putBody buffer room (count + 1) (checksum + buffer count)).map fun rest =>
        (buffer count :: rest.1, rest.2)

def putOnce (buffer : ByteMem) : Option (List UInt8) :=
  (putBody buffer bufmax 0 0).map fun body =>
    '$'.toUInt8 :: body.1 ++
      ['#'.toUInt8, hexchars (body.2.toNat / 16), hexchars (body.2.toNat % 16)]

/-- `while (getDebugChar () != '+')`, with `once` sent before each call: the bytes sent and the bytes
not read. -/
def putUntil (once : List UInt8) : List UInt8 → Served (List UInt8 × List UInt8)
  | [] => .waiting
  | ch :: input =>
      if ch = '+'.toUInt8 then .done (once, input)
      else (putUntil once input).andThen fun later => .done (once ++ later.1, later.2)

def putpacket (buffer : ByteMem) (input : List UInt8) : Served (List UInt8 × List UInt8) :=
  match putOnce buffer with
  | none => .overrun
  | some once => putUntil once input

/-! ## Hexadecimal -/

inductive Ended where
  | finished
  | busError
  | overrun
  deriving DecidableEq, Repr

/-- `mem2hex` for `count` bytes from `mem`, into the buffer from `buf` on.  `read` gives nothing where
the bus fails. -/
def mem2hex (read : Nat → Option UInt8) : Nat → Nat → Nat → ByteMem → Ended × ByteMem
  | 0, _, buf, out =>
      if buf < bufmax then (.finished, Function.update out buf 0) else (.overrun, out)
  | count + 1, mem, buf, out =>
      match read mem with
      | none => (.busError, out)
      | some ch =>
          if buf + 1 < bufmax then
            mem2hex read count (u32 (mem + 1)) (buf + 2)
              (Function.update (Function.update out buf (hexchars (ch.toNat / 16))) (buf + 1)
                (hexchars (ch.toNat % 16)))
          else (.overrun, out)

def hex2mem (present : Nat → Bool) (buffer : ByteMem) : Nat → Nat → Nat → ByteMem → Ended × ByteMem
  | 0, _, _, memory => (.finished, memory)
  | count + 1, buf, mem, memory =>
      if buf + 1 < bufmax then
        if present mem then
          hex2mem present buffer count (buf + 2) (u32 (mem + 1))
            (Function.update memory mem (hexByte (buffer buf) (buffer (buf + 1))))
        else (.busError, memory)
      else (.overrun, memory)

/-- `while (**ptr)` of `hexToInt`: the number of digits, the value and the pointer. -/
def hexToIntLoop (buffer : ByteMem) : Nat → Nat → Nat → Nat → Option (Nat × Nat × Nat)
  | 0, _, _, _ => none
  | room + 1, numChars, intValue, ptr =>
      if buffer ptr = 0 then some (numChars, intValue, ptr)
      else if 0 ≤ hex (buffer ptr) then
        hexToIntLoop buffer room (numChars + 1) (u32 (intValue * 16) ||| (hex (buffer ptr)).toNat) (ptr + 1)
      else some (numChars, intValue, ptr)

def hexToInt (buffer : ByteMem) (ptr : Nat) : Option (Nat × Nat × Nat) :=
  hexToIntLoop buffer (bufmax - ptr) 0 0 ptr

end TrollOS.Gdb
