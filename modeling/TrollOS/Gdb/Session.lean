import TrollOS.Gdb.Link
import TrollOS.Gdb.Hex
import TrollOS.Gdb.Stub
import TrollOS.Lib.Sessions

/-!
# Sessions of the debugger

What the stub is for: it answers questions about the registers and the memory, and writes to them.
`Target.answer` says so without packets and buffers, and `session_answers` that the stub does it.
-/

namespace TrollOS.Gdb

open TrollOS.Lib

structure Target where
  registers : ByteMem
  memory : ByteMem

/-- What a packet asks for.  The data of the writing commands is still text. -/
inductive Command where
  | lastSignal
  | readRegisters
  | writeRegisters (text : List UInt8)
  | read (addr count : Nat)
  | write (addr count : Nat) (text : List UInt8)
  /-- an `m`, or an `M`, with the wrong syntax -/
  | malformed (writes : Bool)
  /-- `s` and `c` -/
  | resume (stepping : Bool) (text : List UInt8)
  | other

def value (text : List UInt8) : Nat := u32 (number (digits text))

/-- `AA..AA,LLLL`, and what is behind it. -/
def pair (malformed : Command) (text : List UInt8) (next : Nat → Nat → List UInt8 → Command) : Command :=
  if (digits text).length = 0 then malformed
  else if (behind text).headD 0 ≠ ','.toUInt8 then malformed
  else if (digits (behind text).tail).length = 0 then malformed
  else next (value text) (Stub.countOf (value (behind text).tail)) (behind (behind text).tail)

def Command.parse (payload : List UInt8) : Command :=
  let cmd := payload.headD 0
  let text := payload.tail
  if cmd = '?'.toUInt8 then .lastSignal
  else if cmd = 'd'.toUInt8 then .other
  else if cmd = 'g'.toUInt8 then .readRegisters
  else if cmd = 'G'.toUInt8 then .writeRegisters text
  else if cmd = 'm'.toUInt8 then pair (.malformed false) text fun addr count _ => .read addr count
  else if cmd = 'M'.toUInt8 then
    pair (.malformed true) text fun addr count rest =>
      if rest.headD 0 ≠ ':'.toUInt8 then .malformed true else .write addr count rest.tail
  else if cmd = 's'.toUInt8 then .resume true text
  else if cmd = 'c'.toUInt8 then .resume false text
  else .other

namespace Target

def peek (present : Nat → Bool) (t : Target) (a : Nat) : Option UInt8 :=
  if present a then some (t.memory a) else none

/-- The answer to a command, and what it does. -/
def answer (present : Nat → Bool) (sigval : Nat) (t : Target) : Command → List UInt8 × Target
  | .lastSignal => (['S'.toUInt8, hexchars (sigval / 16), hexchars (sigval % 16)], t)
  | .readRegisters => (hexOf ((List.range numregbytes).map t.registers), t)
  | .writeRegisters text =>
      (Stub.ok, { t with
        registers := (scatter (fun _ => true) t.registers 0 (decoded (text.take (2 * numregbytes)))).2 })
  | .read addr count =>
      match gather (t.peek present) count addr with
      | some bytes => (hexOf bytes, t)
      | none => (Stub.errorText '3', t)
  | .write addr count text =>
      let stored := scatter present t.memory addr (decoded (text.take (2 * count)))
      (if stored.1 then Stub.ok else Stub.errorText '3', { t with memory := stored.2 })
  | .malformed writes => (Stub.errorText (if writes then '2' else '1'), t)
  | .resume _ _ => ([], t)
  | .other => ([], t)

end Target

/-- The addresses are not those of the stub's own variables. -/
def Image.Away (image : Image) (addr count : Nat) : Prop := ∀ i < count, image.own (u32 (addr + i)) = false

/-- The stub has room for the answer, all the digits it reads are in the packet, and it is not asked for
its own variables. -/
def Command.Fits (image : Image) : Command → Prop
  | .read addr count => 2 * count < bufmax ∧ image.Away addr count
  | .writeRegisters text => 2 * numregbytes ≤ text.length
  | .write addr count text => 2 * count ≤ text.length ∧ image.Away addr count
  | .resume _ _ => False
  | _ => True

/-- Addresses are 32 bits wide. -/
theorem u32_next (mem i : Nat) : u32 (u32 (mem + 1) + i) = u32 (mem + (i + 1)) := by
  unfold u32
  omega

theorem Image.Away.next {image : Image} {addr count : Nat} (away : image.Away addr (count + 1)) :
    image.Away (u32 (addr + 1)) count := fun i within => by
  rw [u32_next]
  exact away (i + 1) (Nat.succ_lt_succ within)

theorem Image.Away.strays {image : Image} (present : Nat → Bool) {addr count : Nat} (small : addr < 4294967296)
    (away : image.Away addr count) : Stub.strays image present count addr = false := by
  induction count generalizing addr with
  | zero => rfl
  | succ count ih =>
      have here := away 0 (Nat.zero_lt_succ _)
      rw [Nat.add_zero, u32_eq small] at here
      rw [Stub.strays, here, ih (u32_lt _) away.next, Bool.or_false, Bool.and_false]

section Answers

variable {present : Nat → Bool} (sigval : Nat) {t : Target} {addr count : Nat}

theorem answer_read {bytes : List UInt8} (found : gather (t.peek present) count addr = some bytes) :
    t.answer present sigval (.read addr count) = (hexOf bytes, t) := by
  unfold Target.answer
  dsimp only
  rw [found]

theorem answer_missing (missing : gather (t.peek present) count addr = none) :
    t.answer present sigval (.read addr count) = (Stub.errorText '3', t) := by
  unfold Target.answer
  dsimp only
  rw [missing]

theorem answer_write {text : List UInt8} {all : Bool} {memory : ByteMem}
    (stored : scatter present t.memory addr (decoded (text.take (2 * count))) = (all, memory)) :
    t.answer present sigval (.write addr count text) =
      (if all then Stub.ok else Stub.errorText '3', { t with memory := memory }) := by
  unfold Target.answer
  dsimp only
  rw [stored]

end Answers

namespace Stub

def target (s : Stub) : Target := ⟨s.registers, s.memory⟩

/-- What no question changes. -/
structure Held (s s' : Stub) : Prop where
  usp : s'.usp = s.usp
  superStack : s'.superStack = s.superStack
  frames : s'.frames = s.frames
  lastFrame : s'.lastFrame = s.lastFrame
  busHandler : s.busHandler = .catchException → s'.busHandler = .catchException

/-- What no command changes that is neither `s` nor `c`. -/
structure Kept (s s' : Stub) : Prop extends s.Held s' where
  inBuffer : s'.inBuffer = s.inBuffer
  sent : s'.sent = s.sent

/-- A reply that is in the output buffer. -/
structure Replied (s s' : Stub) (text : List UInt8) (t : Target) : Prop where
  text : TextAt s'.outBuffer 0 text
  target : s'.target = t
  kept : s.Kept s'

theorem Held.trans {s s' s'' : Stub} (first : s.Held s') (second : s'.Held s'') : s.Held s'' where
  usp := second.usp.trans first.usp
  superStack := second.superStack.trans first.superStack
  frames := second.frames.trans first.frames
  lastFrame := second.lastFrame.trans first.lastFrame
  busHandler handled := second.busHandler (first.busHandler handled)

theorem strcpyOut_text (s : Stub) (text : List UInt8) : TextAt (s.strcpyOut text).outBuffer 0 text := by
  refine Stored.text ⟨fun i within => ?_, ?_⟩
  · unfold strcpyOut
    dsimp only
    rw [if_pos (Nat.le_of_lt within), List.getD_eq_getElem?_getD, List.getElem?_eq_getElem within]
    rfl
  · unfold strcpyOut
    dsimp only
    rw [if_pos (Nat.le_refl _), List.getD_eq_getElem?_getD, List.getElem?_eq_none (Nat.le_refl _)]
    rfl

/-- A fixed text as the reply. -/
theorem strcpyOut_replied (s : Stub) (text : List UInt8) : s.Replied (s.strcpyOut text) text s.target :=
  ⟨s.strcpyOut_text text, rfl, ⟨⟨rfl, rfl, rfl, rfl, id⟩, rfl, rfl⟩⟩

/-- Every way out of a command on memory. -/
theorem Replied.of_guarded {s r : Stub} {text : List UInt8} {t : Target}
    (replied : s.guarded.Replied r text t) : s.Replied r.restored text t :=
  ⟨replied.text, replied.target, ⟨⟨replied.kept.usp, replied.kept.superStack, replied.kept.frames,
    replied.kept.lastFrame, fun _ => rfl⟩, replied.kept.inBuffer, replied.kept.sent⟩⟩

theorem malformed_replied (s : Stub) (digit : Char) :
    s.Replied (s.guarded.strcpyOut (errorText digit)).restored (errorText digit) s.target :=
  (s.guarded.strcpyOut_replied (errorText digit)).of_guarded

section Commands

variable {image : Image} {present : Nat → Bool} {s : Stub} {ptr : Nat} {text : List UInt8}

/-- Behind a number and a separator the text goes on. -/
theorem behind_separator {ch : UInt8} (nul : ch ≠ 0) (found : TextAt s.inBuffer ptr text)
    (nonzero : 0 ∉ text) (fits : ptr + text.length < bufmax)
    (separator : s.inBuffer (ptr + (digits text).length) = ch) :
    (behind text).headD 0 = ch ∧
      TextAt s.inBuffer (ptr + (digits text).length + 1) (behind text).tail ∧
      0 ∉ (behind text).tail ∧ ptr + (digits text).length + 1 + (behind text).tail.length < bufmax := by
  have later := found.behind
  have split : text = digits text ++ behind text := (List.takeWhile_append_dropWhile).symm
  have sizes : text.length = (digits text).length + (behind text).length := by
    rw [← List.length_append, ← split]
  have clean : 0 ∉ behind text := fun member => nonzero (by
    rw [split]
    exact List.mem_append_right _ member)
  have head := later.char
  rw [separator] at head
  cases rest : behind text with
  | nil =>
      rw [rest] at head
      exact absurd head nul
  | cons first rest' =>
      rw [rest] at later clean sizes head
      refine ⟨head.symm, later.2, fun member => clean (List.mem_cons_of_mem first member), ?_⟩
      rw [List.length_cons] at sizes
      rw [List.tail_cons]
      omega

/-- `mem2hex` with the bus as it is in the stub. -/
theorem peekMemory_ran (addr length : Nat) {how : Ended} {out : ByteMem}
    (ran : mem2hex (s.target.peek present) (countOf length) addr 0 s.outBuffer = (how, out)) :
    s.guarded.peekMemory image present addr length =
      behindSetjmp (strays image present (countOf length) addr) { s.guarded with outBuffer := out }
        ({ s.guarded with outBuffer := out }.strcpyOut (errorText '3')) how := by
  have here : mem2hex (fun a => if present a then some (s.guarded.memory a) else none) (countOf length)
      addr 0 s.guarded.outBuffer = (how, out) := ran
  unfold peekMemory
  rw [here]

theorem pokeMemory_ran (addr length : Nat) {how : Ended} {memory : ByteMem}
    (ran : hex2mem present s.inBuffer (countOf length) ptr addr s.memory = (how, memory)) :
    s.guarded.pokeMemory image present addr length ptr =
      behindSetjmp (strays image present (countOf length) addr) ({ s.guarded with memory := memory }.strcpyOut ok)
        ({ s.guarded with memory := memory }.strcpyOut (errorText '3')) how := by
  have here : hex2mem present s.guarded.inBuffer (countOf length) ptr addr s.guarded.memory =
      (how, memory) := ran
  unfold pokeMemory
  rw [here]

/-- Away from the variables of the stub there is a reply, however the loop has ended. -/
theorem behindSetjmp_away {addr count : Nat} (small : addr < 4294967296) (away : image.Away addr count)
    (finished busError : Stub) : behindSetjmp (strays image present count addr) finished busError .finished =
        .reply finished.restored ∧
      behindSetjmp (strays image present count addr) finished busError .busError = .reply busError.restored := by
  rw [away.strays present small]
  exact ⟨rfl, rfl⟩

theorem peekMemory_replied (sigval : Nat) {addr length : Nat} (small : addr < 4294967296)
    (room : 2 * countOf length < bufmax) (away : image.Away addr (countOf length)) : ∃ s',
    s.guarded.peekMemory image present addr length = .reply s' ∧
      s.Replied s' (s.target.answer present sigval (.read addr (countOf length))).1
        (s.target.answer present sigval (.read addr (countOf length))).2 := by
  have fits : 0 + 2 * countOf length < bufmax := by omega
  cases found : gather (s.target.peek present) (countOf length) addr with
  | none =>
      have ended := mem2hex_missing s.outBuffer found fits
      rcases ran : mem2hex (s.target.peek present) (countOf length) addr 0 s.outBuffer with ⟨how, out⟩
      rw [ran] at ended
      dsimp only at ended
      subst ended
      rw [answer_missing sigval found]
      refine ⟨_, (peekMemory_ran addr length ran).trans (behindSetjmp_away small away _ _).2,
        Replied.of_guarded ⟨strcpyOut_text _ _, rfl, ?_⟩⟩
      exact ⟨⟨rfl, rfl, rfl, rfl, id⟩, rfl, rfl⟩
  | some bytes =>
      obtain ⟨out, ran, text, -⟩ := mem2hex_text s.outBuffer found fits
      rw [answer_read sigval found]
      refine ⟨_, (peekMemory_ran addr length ran).trans (behindSetjmp_away small away _ _).1,
        Replied.of_guarded ⟨text, rfl, ?_⟩⟩
      exact ⟨⟨rfl, rfl, rfl, rfl, id⟩, rfl, rfl⟩

/-- Digits behind `ptr`, as many as are asked for, and nothing of the buffer behind its end. -/
theorem pokeMemory_replied (sigval : Nat) {addr length : Nat} (small : addr < 4294967296)
    (found : TextAt s.inBuffer ptr text) (fits : ptr + text.length < bufmax)
    (enough : 2 * countOf length ≤ text.length) (away : image.Away addr (countOf length)) : ∃ s',
    s.guarded.pokeMemory image present addr length ptr = .reply s' ∧
      s.Replied s' (s.target.answer present sigval (.write addr (countOf length) text)).1
        (s.target.answer present sigval (.write addr (countOf length) text)).2 := by
  have taken : (text.take (2 * countOf length)).length = 2 * countOf length :=
    List.length_take_of_le enough
  rw [← List.take_append_drop (2 * countOf length) text] at found
  have ran := hex2mem_text present s.memory addr found taken (by omega)
  rcases stored : scatter present s.memory addr (decoded (text.take (2 * countOf length)))
    with ⟨all, memory⟩
  rw [stored] at ran
  rw [answer_write sigval (t := s.target) stored]
  cases all with
  | false =>
      refine ⟨_, (pokeMemory_ran addr length ran).trans (behindSetjmp_away small away _ _).2,
        Replied.of_guarded ⟨strcpyOut_text _ _, rfl, ?_⟩⟩
      exact ⟨⟨rfl, rfl, rfl, rfl, id⟩, rfl, rfl⟩
  | true =>
      refine ⟨_, (pokeMemory_ran addr length ran).trans (behindSetjmp_away small away _ _).1,
        Replied.of_guarded ⟨strcpyOut_text _ _, rfl, ?_⟩⟩
      exact ⟨⟨rfl, rfl, rfl, rfl, id⟩, rfl, rfl⟩

/-- The first number and the comma of an `m` or an `M`, or the end of it. -/
theorem pair_cases (malformed : Command) (next : Nat → Nat → List UInt8 → Command)
    (found : TextAt s.inBuffer ptr text) (nonzero : 0 ∉ text) (fits : ptr + text.length < bufmax) :
    ((digits text).length = 0 ∨
        s.inBuffer (ptr + (digits text).length) ≠ ','.toUInt8 ∧ (digits text).length ≠ 0) ∧
      pair malformed text next = malformed ∨
    (digits text).length ≠ 0 ∧ s.inBuffer (ptr + (digits text).length) = ','.toUInt8 ∧
      TextAt s.inBuffer (ptr + (digits text).length + 1) (behind text).tail ∧
      0 ∉ (behind text).tail ∧ ptr + (digits text).length + 1 + (behind text).tail.length < bufmax ∧
      pair malformed text next =
        if (digits (behind text).tail).length = 0 then malformed
        else next (value text) (countOf (value (behind text).tail)) (behind (behind text).tail) := by
  unfold pair
  have head := found.behind.char
  by_cases none : (digits text).length = 0
  · exact Or.inl ⟨Or.inl none, if_pos none⟩
  · rw [if_neg none]
    by_cases comma : s.inBuffer (ptr + (digits text).length) = ','.toUInt8
    · obtain ⟨first, later, clean, room⟩ := behind_separator (by decide) found nonzero fits comma
      refine Or.inr ⟨none, comma, later, clean, room, ?_⟩
      rw [if_neg (not_not.2 first)]
    · refine Or.inl ⟨Or.inr ⟨comma, none⟩, ?_⟩
      rw [head] at comma
      exact if_pos comma

variable (image present) in
/-- An `m` has a wrong syntax, or is one that reads memory. -/
theorem readMemory_syntax (found : TextAt s.inBuffer ptr text) (nonzero : 0 ∉ text)
    (fits : ptr + text.length < bufmax) :
    s.readMemory image present ptr = .reply (s.guarded.strcpyOut (errorText '1')).restored ∧
      (pair (.malformed false) text fun addr count _ => .read addr count) = .malformed false ∨
    ∃ addr length, addr < 4294967296 ∧ s.readMemory image present ptr = s.guarded.peekMemory image present addr length ∧
      (pair (.malformed false) text fun addr count _ => .read addr count) = .read addr (countOf length) := by
  have first : hexToInt s.guarded.inBuffer ptr =
      some ((digits text).length, value text, ptr + (digits text).length) := hexToInt_text found nonzero fits
  unfold readMemory
  dsimp only
  rw [first]
  dsimp only
  rcases pair_cases (.malformed false) (fun addr count _ => .read addr count) found nonzero fits with
    ⟨which, same⟩ | ⟨some', comma, later, clean, inside, same⟩
  · refine Or.inl ⟨?_, same⟩
    rcases which with none | ⟨other, some'⟩
    · exact if_pos none
    · rw [if_neg some']
      exact if_pos other
  · have comma' : s.guarded.inBuffer (ptr + (digits text).length) = ','.toUInt8 := comma
    have second : hexToInt s.guarded.inBuffer (ptr + (digits text).length + 1) = _ :=
      hexToInt_text later clean inside
    rw [if_neg some', if_neg (not_not.2 comma'), second]
    dsimp only
    by_cases none : (digits (behind text).tail).length = 0
    · rw [if_pos none] at same ⊢
      exact Or.inl ⟨rfl, same⟩
    · rw [if_neg none] at same ⊢
      exact Or.inr ⟨_, _, u32_lt _, rfl, same⟩

theorem readMemory_replied (sigval : Nat) (found : TextAt s.inBuffer ptr text) (nonzero : 0 ∉ text)
    (fits : ptr + text.length < bufmax)
    (room : (pair (.malformed false) text fun addr count _ => .read addr count).Fits image) : ∃ s',
    s.readMemory image present ptr = .reply s' ∧ s.Replied s'
      (s.target.answer present sigval (pair (.malformed false) text fun addr count _ => .read addr count)).1
      (s.target.answer present sigval (pair (.malformed false) text fun addr count _ => .read addr count)).2 := by
  rcases readMemory_syntax image present found nonzero fits with ⟨ran, same⟩ | ⟨addr, length, small, ran, same⟩
  · rw [ran, same]
    exact ⟨_, rfl, s.malformed_replied '1'⟩
  · rw [same] at room ⊢
    rw [ran]
    exact peekMemory_replied sigval small room.1 room.2

theorem writeMemory_replied (sigval : Nat) (found : TextAt s.inBuffer ptr text) (nonzero : 0 ∉ text)
    (fits : ptr + text.length < bufmax) {next : Nat → Nat → List UInt8 → Command}
    (writes : ∀ addr count rest, next addr count rest =
      if rest.headD 0 ≠ ':'.toUInt8 then .malformed true else .write addr count rest.tail)
    (room : (pair (.malformed true) text next).Fits image) : ∃ s',
    s.writeMemory image present ptr = .reply s' ∧ s.Replied s'
      (s.target.answer present sigval (pair (.malformed true) text next)).1
      (s.target.answer present sigval (pair (.malformed true) text next)).2 := by
  have first : hexToInt s.guarded.inBuffer ptr =
      some ((digits text).length, value text, ptr + (digits text).length) := hexToInt_text found nonzero fits
  unfold writeMemory
  dsimp only
  rw [first]
  dsimp only
  rcases pair_cases (.malformed true) next found nonzero fits with
    ⟨which, same⟩ | ⟨some', comma, later, clean, inside, same⟩
  · rw [same]
    refine ⟨_, ?_, s.malformed_replied '2'⟩
    rcases which with none | ⟨other, some'⟩
    · exact if_pos none
    · rw [if_neg some']
      exact if_pos other
  · have comma' : s.guarded.inBuffer (ptr + (digits text).length) = ','.toUInt8 := comma
    have second : hexToInt s.guarded.inBuffer (ptr + (digits text).length + 1) = _ :=
      hexToInt_text later clean inside
    rw [same] at room ⊢
    rw [if_neg some', if_neg (not_not.2 comma'), second]
    dsimp only
    by_cases none : (digits (behind text).tail).length = 0
    · rw [if_pos none, if_pos none]
      exact ⟨_, rfl, s.malformed_replied '2'⟩
    · rw [if_neg none, writes] at room
      rw [if_neg none, if_neg none, writes]
      have head := later.behind.char
      by_cases colon : (behind (behind text).tail).headD 0 = ':'.toUInt8
      · obtain ⟨-, data, -, inside'⟩ := behind_separator (by decide) later clean inside (head.trans colon)
        rw [if_neg (not_not.2 colon)] at room ⊢
        have colon' : s.guarded.inBuffer (ptr + (digits text).length + 1 +
            (digits (behind text).tail).length) = ':'.toUInt8 := head.trans colon
        rw [if_neg (not_not.2 colon')]
        exact pokeMemory_replied sigval (u32_lt _) data inside' room.1 room.2
      · rw [if_pos colon]
        refine ⟨_, ?_, s.malformed_replied '2'⟩
        rw [← head] at colon
        exact if_pos colon

/-- `hexOf` of the registers, which is what `mem2hex` makes of them. -/
theorem gather_registers (registers : ByteMem) (n a : Nat) (small : a + n < 4294967296) :
    gather (fun a => some (registers a)) n a = some ((List.range' a n).map registers) := by
  induction n generalizing a with
  | zero => rfl
  | succ n ih =>
      rw [gather, u32_eq (by omega), ih (a + 1) (by omega), List.range'_succ]
      rfl

theorem scatter_everywhere (registers : ByteMem) (mem : Nat) (bytes : List UInt8) :
    (scatter (fun _ => true) registers mem bytes).1 = true := by
  induction bytes generalizing registers mem with
  | nil => rfl
  | cons byte bytes ih => exact ih _ _

theorem Replied.of_cleared {s r : Stub} {text : List UInt8} {t : Target}
    (replied : s.cleared.Replied r text t) : s.Replied r text t :=
  ⟨replied.text, replied.target, ⟨⟨replied.kept.usp, replied.kept.superStack, replied.kept.frames,
    replied.kept.lastFrame, replied.kept.busHandler⟩, replied.kept.inBuffer, replied.kept.sent⟩⟩

theorem cleared_replied (s : Stub) : s.Replied s.cleared [] s.target :=
  ⟨Function.update_self 0 0 s.outBuffer, rfl, ⟨⟨rfl, rfl, rfl, rfl, id⟩, rfl, rfl⟩⟩

theorem readRegisters_replied (s : Stub) : ∃ s',
    s.readRegisters = .reply s' ∧
      s.Replied s' (hexOf ((List.range numregbytes).map s.registers)) s.target := by
  have found := gather_registers s.registers numregbytes 0 (by decide)
  rw [← List.range_eq_range'] at found
  obtain ⟨out, ran, text, -⟩ := mem2hex_text s.outBuffer found
    (show 0 + 2 * numregbytes < bufmax by decide)
  refine ⟨{ s with outBuffer := out }, ?_, text, rfl, ⟨⟨rfl, rfl, rfl, rfl, id⟩, rfl, rfl⟩⟩
  unfold readRegisters
  rw [ran]
  exact if_pos rfl

theorem writeRegisters_replied (found : TextAt s.inBuffer ptr text) (fits : ptr + text.length < bufmax)
    (enough : 2 * numregbytes ≤ text.length) : ∃ s', s.writeRegisters ptr = .reply s' ∧ s.Replied s' ok
      ⟨(scatter (fun _ => true) s.registers 0 (decoded (text.take (2 * numregbytes)))).2, s.memory⟩ := by
  have taken : (text.take (2 * numregbytes)).length = 2 * numregbytes := List.length_take_of_le enough
  have split := found
  rw [← List.take_append_drop (2 * numregbytes) text] at split
  have ran := hex2mem_text (fun _ => true) s.registers 0 split taken (by omega)
  rw [scatter_everywhere] at ran
  refine ⟨{ s with
      registers := (scatter (fun _ => true) s.registers 0 (decoded (text.take (2 * numregbytes)))).2
      }.strcpyOut ok, ?_, strcpyOut_text _ _, rfl, ⟨⟨rfl, rfl, rfl, rfl, id⟩, rfl, rfl⟩⟩
  unfold writeRegisters
  rw [ran]
  exact if_pos rfl

variable (image present) in
/-- A packet that is no `s` or `c` is answered as the target answers it. -/
theorem dispatch_replied (sigval offset : Nat) {payload : List UInt8}
    (found : TextAt s.inBuffer offset payload) (nonzero : 0 ∉ payload)
    (fits : offset + payload.length < bufmax) (room : (Command.parse payload).Fits image) : ∃ s',
    s.dispatch image present sigval offset = .reply s' ∧
      s.Replied s' (s.target.answer present sigval (.parse payload)).1
        (s.target.answer present sigval (.parse payload)).2 := by
  have letter : s.cleared.inBuffer offset = payload.headD 0 := found.char
  have rest (known : payload.headD 0 ≠ 0) : TextAt s.cleared.inBuffer (offset + 1) payload.tail ∧
      0 ∉ payload.tail ∧ offset + 1 + payload.tail.length < bufmax := by
    cases payload with
    | nil => exact absurd rfl known
    | cons ch text =>
        rw [List.length_cons] at fits
        exact ⟨found.2, fun member => nonzero (List.mem_cons_of_mem ch member),
          by rw [List.tail_cons]; omega⟩
  unfold dispatch
  unfold Command.parse at room ⊢
  dsimp only at room ⊢
  rw [letter]
  by_cases status : payload.headD 0 = '?'.toUInt8
  · rw [if_pos status, if_pos status]
    exact ⟨_, rfl, (s.cleared.strcpyOut_replied _).of_cleared⟩
  rw [if_neg status] at room ⊢
  rw [if_neg status]
  by_cases toggle : payload.headD 0 = 'd'.toUInt8
  · rw [if_pos toggle, if_pos toggle]
    exact ⟨_, rfl, s.cleared_replied.text, rfl, ⟨⟨rfl, rfl, rfl, rfl, id⟩, rfl, rfl⟩⟩
  rw [if_neg toggle] at room ⊢
  rw [if_neg toggle]
  by_cases readAll : payload.headD 0 = 'g'.toUInt8
  · obtain ⟨s', ran, replied⟩ := s.cleared.readRegisters_replied
    rw [if_pos readAll, if_pos readAll]
    exact ⟨s', ran, replied.of_cleared⟩
  rw [if_neg readAll] at room ⊢
  rw [if_neg readAll]
  by_cases writeAll : payload.headD 0 = 'G'.toUInt8
  · rw [if_pos writeAll] at room ⊢
    rw [if_pos writeAll]
    obtain ⟨later, -, inside⟩ := rest (by rw [writeAll]; decide)
    obtain ⟨s', ran, replied⟩ := writeRegisters_replied later inside room
    exact ⟨s', ran, replied.of_cleared⟩
  rw [if_neg writeAll] at room ⊢
  rw [if_neg writeAll]
  by_cases read : payload.headD 0 = 'm'.toUInt8
  · rw [if_pos read] at room ⊢
    rw [if_pos read]
    obtain ⟨later, clean, inside⟩ := rest (by rw [read]; decide)
    obtain ⟨s', ran, replied⟩ := readMemory_replied sigval later clean inside room
    exact ⟨s', ran, replied.of_cleared⟩
  rw [if_neg read] at room ⊢
  rw [if_neg read]
  by_cases write : payload.headD 0 = 'M'.toUInt8
  · rw [if_pos write] at room ⊢
    rw [if_pos write]
    obtain ⟨later, clean, inside⟩ := rest (by rw [write]; decide)
    obtain ⟨s', ran, replied⟩ := writeMemory_replied sigval later clean inside (fun _ _ _ => rfl) room
    exact ⟨s', ran, replied.of_cleared⟩
  rw [if_neg write] at room ⊢
  rw [if_neg write]
  by_cases step : payload.headD 0 = 's'.toUInt8
  · rw [if_pos step] at room
    exact absurd room id
  rw [if_neg step] at room ⊢
  rw [if_neg step]
  by_cases go : payload.headD 0 = 'c'.toUInt8
  · rw [if_pos go] at room
    exact absurd room id
  rw [if_neg go, if_neg go]
  exact ⟨_, rfl, s.cleared_replied⟩

end Commands

end Stub

/-! ## Whole sessions -/

theorem computeSignal_lt (vector : Nat) : computeSignal vector < 16 := by
  unfold computeSignal
  split <;> decide

/-- An answer is a string that the output buffer has room for. -/
theorem answer_text {image : Image} (present : Nat → Bool) (vector : Nat) (t : Target) {command : Command}
    (room : command.Fits image) : 0 ∉ (t.answer present (computeSignal vector) command).1 ∧
      (t.answer present (computeSignal vector) command).1.length < bufmax := by
  have hexadecimal (bytes : List UInt8) : 0 ∉ hexOf bytes := fun member => by
    obtain ⟨n, small, same⟩ := hexOf_char member
    exact (hexchars_plain n small).1 same.symm
  have error : 0 ∉ Stub.errorText '3' ∧ (Stub.errorText '3').length < bufmax := by decide
  cases command with
  | lastSignal =>
      have small := computeSignal_lt vector
      have high := (hexchars_plain (computeSignal vector / 16) (by omega)).1
      have low := (hexchars_plain (computeSignal vector % 16) (by omega)).1
      refine ⟨fun member => ?_, (by decide : 3 < bufmax)⟩
      rcases List.mem_cons.1 member with same | member
      · exact absurd same (by decide)
      · rcases List.mem_cons.1 member with same | member
        · exact high same.symm
        · exact low (List.mem_singleton.1 member).symm
  | readRegisters =>
      refine ⟨hexadecimal _, ?_⟩
      change (hexOf _).length < bufmax
      rw [hexOf_length, List.length_map, List.length_range]
      decide
  | writeRegisters text => exact (by decide : 0 ∉ Stub.ok ∧ Stub.ok.length < bufmax)
  | read addr count =>
      cases found : gather (t.peek present) count addr with
      | none =>
          rw [answer_missing _ found]
          exact error
      | some bytes =>
          rw [answer_read _ found]
          refine ⟨hexadecimal bytes, ?_⟩
          rw [hexOf_length, gather_length found]
          exact room.1
  | write addr count text =>
      rcases stored : scatter present t.memory addr (decoded (text.take (2 * count))) with ⟨all, memory⟩
      rw [answer_write _ stored]
      cases all with
      | false => exact error
      | true => exact (by decide : 0 ∉ Stub.ok ∧ Stub.ok.length < bufmax)
  | malformed writes =>
      cases writes with
      | false => exact (by decide : 0 ∉ Stub.errorText '1' ∧ (Stub.errorText '1').length < bufmax)
      | true => exact (by decide : 0 ∉ Stub.errorText '2' ∧ (Stub.errorText '2').length < bufmax)
  | resume stepping text => exact absurd room id
  | other => exact (by decide : 0 ∉ ([] : List UInt8) ∧ ([] : List UInt8).length < bufmax)

/-- A packet of the host: the bytes before it, and the bytes after the reply that are no `'+'`, each of
which asks for the reply again. -/
structure Query where
  noise : List UInt8
  payload : List UInt8
  refusals : List UInt8

structure Query.Sound (image : Image) (q : Query) : Prop where
  idle : '$'.toUInt8 ∉ q.noise
  plain : Plain q.payload
  nonzero : 0 ∉ q.payload
  unnumbered : q.payload[2]? ≠ some ':'.toUInt8
  refused : '+'.toUInt8 ∉ q.refusals
  room : (Command.parse q.payload).Fits image

def Query.bytes (q : Query) : List UInt8 := q.noise ++ frame q.payload ++ (q.refusals ++ ['+'.toUInt8])

def Query.echo (q : Query) (reply : List UInt8) : List UInt8 :=
  '+'.toUInt8 :: (List.replicate (q.refusals.length + 1) (frame reply)).flatten

/-- The target's part in a session: the replies as they go out. -/
def Target.react (present : Nat → Bool) (sigval : Nat) (t : Target) (q : Query) : List UInt8 × Target :=
  let answered := t.answer present sigval (.parse q.payload)
  (q.echo answered.1, answered.2)

namespace Stub

/-- The stub after some packets, with what it has sent since. -/
structure Answered (s s' : Stub) (bytes : List UInt8) (t : Target) : Prop where
  sent : s'.sent = s.sent ++ bytes
  target : s'.target = t
  held : s.Held s'
  unnumbered : s'.inBuffer 2 ≠ ':'.toUInt8

def heard (s : Stub) (buffer : ByteMem) : Stub := { s.said ['+'.toUInt8] with inBuffer := buffer }

/-- A packet behind any bytes that are not the start of one. -/
theorem getIn_frame {s : Stub} {noise payload : List UInt8} (idle : '$'.toUInt8 ∉ noise)
    (plain : Plain payload) (numberless : payload[2]? ≠ some ':'.toUInt8)
    (unnumbered : s.inBuffer 2 ≠ ':'.toUInt8) (rest : List UInt8) : ∃ buffer,
      s.getIn (noise ++ frame payload ++ rest) = .done (0, s.heard buffer, rest) ∧
      Stored buffer payload ∧ buffer 2 ≠ ':'.toUInt8 := by
  obtain ⟨buffer, received, stored, clear⟩ :=
    getpacket_frame s.sent idle plain numberless unnumbered rest
  refine ⟨buffer, ?_, stored, clear⟩
  unfold getIn
  rw [received]
  rfl

theorem putOut_text {s : Stub} {text : List UInt8} (found : TextAt s.outBuffer 0 text)
    (nonzero : 0 ∉ text) (fits : text.length < bufmax) {refusals : List UInt8}
    (refused : '+'.toUInt8 ∉ refusals) (rest : List UInt8) :
    s.putOut (refusals ++ '+'.toUInt8 :: rest) =
      .done (s.said (List.replicate (refusals.length + 1) (frame text)).flatten, rest) := by
  unfold putOut
  rw [putpacket_replies found nonzero fits refused rest]
  rfl

/-- One packet. -/
theorem serve_answers {image : Image} {present : Nat → Bool} {s : Stub} (vector fuel : Nat) {q : Query}
    (sound : q.Sound image) (unnumbered : s.inBuffer 2 ≠ ':'.toUInt8) (rest : List UInt8) : ∃ s',
    serve image present (computeSignal vector) (fuel + 1) s (q.bytes ++ rest) =
        serve image present (computeSignal vector) fuel s' rest ∧
      s.Answered s' (s.target.react present (computeSignal vector) q).1
        (s.target.react present (computeSignal vector) q).2 := by
  obtain ⟨buffer, got, stored, clear⟩ := getIn_frame sound.idle sound.plain sound.unnumbered unnumbered
    (q.refusals ++ '+'.toUInt8 :: rest)
  have split : q.bytes ++ rest = q.noise ++ frame q.payload ++ (q.refusals ++ '+'.toUInt8 :: rest) := by
    unfold Query.bytes
    simp only [List.append_assoc, List.singleton_append]
  have short := sound.plain.short
  have found : TextAt (s.heard buffer).inBuffer 0 q.payload := stored.text
  obtain ⟨r, dispatched, replied⟩ := dispatch_replied image present (computeSignal vector) 0 found
    sound.nonzero (by omega) sound.room
  obtain ⟨nonzero, fits⟩ := answer_text present vector s.target sound.room
  have put := putOut_text replied.text nonzero fits sound.refused rest
  refine ⟨r.said (List.replicate (q.refusals.length + 1)
    (frame (s.target.answer present (computeSignal vector) (.parse q.payload)).1)).flatten,
    ?_, ?_, replied.target, ?_, ?_⟩
  · rw [serve, split, got, Served.andThen_done]
    dsimp only
    rw [dispatched]
    dsimp only
    rw [put, Served.andThen_done]
    rfl
  · change r.sent ++ _ = _
    rw [replied.kept.sent]
    exact List.append_assoc _ _ _
  · exact ⟨replied.kept.usp, replied.kept.superStack, replied.kept.frames, replied.kept.lastFrame,
      replied.kept.busHandler⟩
  · change r.inBuffer 2 ≠ _
    rw [replied.kept.inBuffer]
    exact clear

/-- Packets in a row. -/
theorem serve_session {image : Image} (present : Nat → Bool) {s : Stub} (vector fuel : Nat) {queries : List Query}
    (sound : ∀ q ∈ queries, q.Sound image) (unnumbered : s.inBuffer 2 ≠ ':'.toUInt8) (rest : List UInt8) : ∃ s',
    serve image present (computeSignal vector) (fuel + queries.length) s (queries.flatMap Query.bytes ++ rest) =
        serve image present (computeSignal vector) fuel s' rest ∧
      s.Answered s'
        (Sessions.run (Target.react present (computeSignal vector)) s.target queries).1.flatten
        (Sessions.run (Target.react present (computeSignal vector)) s.target queries).2 := by
  induction queries generalizing s with
  | nil => exact ⟨s, rfl, (List.append_nil _).symm, rfl, ⟨rfl, rfl, rfl, rfl, id⟩, unnumbered⟩
  | cons q queries ih =>
      obtain ⟨s₁, ran, answered⟩ := serve_answers vector (fuel + queries.length)
        (sound q List.mem_cons_self) unnumbered (queries.flatMap Query.bytes ++ rest)
      obtain ⟨s₂, ran', answered'⟩ :=
        ih (fun other member => sound other (List.mem_cons_of_mem q member)) answered.unnumbered
      refine ⟨s₂, ?_, ?_, ?_, answered.held.trans answered'.held, answered'.unnumbered⟩
      · rw [List.flatMap_cons, List.append_assoc]
        exact ran.trans ran'
      · rw [answered'.sent, answered.sent, answered.target, Sessions.run_cons, List.flatten_cons,
          List.append_assoc]
      · rw [answered'.target, answered.target]
        rfl

end Stub

end TrollOS.Gdb
