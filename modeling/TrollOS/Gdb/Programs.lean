import TrollOS.Gdb.Resuming

/-!
# A program under the debugger

Whatever comes in, the frames stay in their array.  A program is a function from what it has in the
processor and in memory, and from a world of its own, to its next exception.  The debugger comes in
between two exceptions, and what it makes of the program is told by the target alone.
-/

namespace TrollOS.Gdb

open TrollOS.Lib Stub

/-! ## Any run -/

section Runs

variable {image : Image} {s s' : Stub}

/-- Exceptions in a row, each with what the host sends until the program goes on.  In between the program
has written to memory, and pages have come and gone. -/
inductive Debugged (image : Image) (s : Stub) : Stub → Prop where
  | none : Debugged image s s
  | exception {s' s'' : Stub} {memory : ByteMem} {present : Nat → Bool} {e : Exception}
      {input rest : List UInt8} {context : Context} (before : Debugged image s s')
      (within : e.Within Set.univ)
      (went : handleException image present { s' with memory := memory } e input =
        .done (context, s'', rest)) :
      Debugged image s s''

/-- The program has not written since. -/
theorem Debugged.again {s'' : Stub} {present : Nat → Bool} {e : Exception} {input rest : List UInt8}
    {context : Context} (before : Debugged image s s') (within : e.Within Set.univ)
    (went : handleException image present s' e input = .done (context, s'', rest)) : Debugged image s s'' :=
  @Debugged.exception image s s' s'' s'.memory present e input rest context before within went

theorem Debugged.went (run : Debugged image s s') (placed : Placed image.base)
    (stacked : Stacked Set.univ image.base s) : Went Set.univ image.base s s' := by
  induction run with
  | none => exact ⟨stacked, fun _ _ => rfl⟩
  | @exception s' s'' memory present e input rest context before within went ih =>
      have running : Stacked Set.univ image.base { s' with memory := memory } :=
        ⟨ih.stacked.linked, ih.stacked.unused, ih.stacked.room⟩
      have back := running.handled placed within went
      exact ⟨back.stacked, fun x outside => (back.outside x outside).trans (ih.outside x outside)⟩

/-- However often the program comes in and whatever the host sends, the frames are whole, the next one
has room, and no byte outside `gdbFrameStack` is written. -/
theorem frames_inside (placed : Placed image.base)
    (zero : ∀ x, topFrame image.base + 4 ≤ x → x < topFrame image.base + 12 → s.frames x = 0)
    (run : Debugged image (initializeRemcomErrorFrame image.base s) s') {e : Exception}
    (within : e.Within Set.univ) :
    Stacked Set.univ image.base s' ∧ image.base ≤ frameOf s' e ∧
      ∀ x, x < image.base ∨ image.base + frameStackBytes ≤ x →
        s'.frames x = s.frames x ∧ (s'.catchException e).frames x = s.frames x := by
  have start := initialize_stacked Set.univ placed zero
  have reached := run.went placed start.stacked
  obtain ⟨inside, -⟩ := reached.stacked.frameOf_room within
  have same (x : Nat) (outside : x < image.base ∨ image.base + frameStackBytes ≤ x) :
      s'.frames x = s.frames x := (reached.outside x outside).trans (start.outside x outside)
  refine ⟨reached.stacked, inside, fun x outside => ⟨same x outside, ?_⟩⟩
  rw [reached.stacked.catch_outside within outside]
  exact same x outside

def asking : Visit := ⟨[], [⟨[], ['?'.toUInt8], []⟩], [], false, []⟩

theorem asking_sound : asking.Sound lowImage where
  refused := by decide
  queries q member := by
    cases List.mem_singleton.1 member
    exact ⟨by decide, ⟨by decide, by decide, by decide⟩, by decide, by decide, by decide, True.intro⟩
  idle := by decide
  plain := ⟨by decide, by decide, by decide⟩
  nonzero := by decide
  unnumbered := by decide

def accessError : Exception :=
  ⟨⟨Vector.replicate 15 0, 0, 65536, 0, 4098, ⟨Fpu.reset, [0]⟩⟩, 2, 7, List.replicate 26 0⟩

theorem accessError_within : accessError.Within Set.univ where
  vector := by decide
  size := by decide
  rest _ member := by
    rw [List.eq_of_mem_replicate member]
    decide
  fpu := ⟨by decide, fun _ => rfl⟩
  short := by decide
  known := True.intro

/-- Two access errors with a question in each of them. -/
theorem frames_inside_asked : ∃ s₁ s₂,
    handleException lowImage (fun _ => true) (initializeRemcomErrorFrame lowImage.base cleanStart) accessError
        (asking.bytes ++ asking.bytes) = .done (accessError.context.traced false, s₁, asking.bytes) ∧
    handleException lowImage (fun _ => true) s₁ accessError (asking.bytes ++ []) =
        .done (accessError.context.traced false, s₂, []) ∧
    Stacked Set.univ lowImage.base s₂ ∧ lowImage.base ≤ frameOf s₂ accessError ∧
    ∀ x, x < lowImage.base ∨ lowImage.base + frameStackBytes ≤ x →
      s₂.frames x = cleanStart.frames x ∧ (s₂.catchException accessError).frames x = cleanStart.frames x := by
  have placed : Placed lowImage.base := ⟨by decide, by decide⟩
  have looks (q : Query) (member : q ∈ asking.queries) : (Command.parse q.payload).Looks := by
    cases List.mem_singleton.1 member
    exact True.intro
  have somewhere : accessError.context.pc ≠ 0 := by decide
  obtain ⟨s₁, first, -, -, ready⟩ := (initialize_ready Set.univ).unnoticed (fun _ => true) placed
    accessError_within asking_sound looks rfl somewhere asking.bytes
  obtain ⟨s₂, second, -, -, -⟩ := ready.unnoticed (fun _ => true) placed accessError_within asking_sound
    looks rfl somewhere []
  exact ⟨s₁, s₂, first, second, frames_inside placed (fun _ _ _ => rfl)
    ((Debugged.none.again accessError_within first).again accessError_within second) accessError_within⟩

end Runs

/-! ## Programs -/

section Programs

/-- A program and its world, up to the next exception. -/
abbrev Program (ω : Type) := ω → Context → ByteMem → ω × Exception × ByteMem

variable {ω : Type} (program : Program ω)

/-- The exceptions of a program, with whatever the host sends for each of them. -/
def underDebugger (image : Image) (present : Nat → Bool) :
    Nat → ω × Context × Stub → List UInt8 → Served (List Exception × (ω × Context × Stub) × List UInt8)
  | 0, state, input => .done ([], state, input)
  | n + 1, (world, context, s), input =>
      let (world, e, memory) := program world context s.memory
      (handleException image present { s with memory := memory } e input).andThen fun (context, s, rest) =>
        (underDebugger image present n (world, context, s) rest).andThen fun (es, last, rest) =>
          .done (e :: es, last, rest)

/-- The program alone, with its exceptions ignored but for the trace bit. -/
def alone : ω × Context × ByteMem → Bool → Exception × (ω × Context × ByteMem)
  | (world, context, memory), stepping =>
      let (world, e, memory) := program world context memory
      (e, world, e.context.traced stepping, memory)

/-- The program as the host changes it, with an idle floating-point unit. -/
def hosted (present : Nat → Bool) : ω × Context × Target → Visit → (Exception × List UInt8) × (ω × Context × Target)
  | (world, context, t), v =>
      let (world, e, memory) := program world context t.memory
      let t : Target := ⟨t.registers, memory⟩
      ((e, v.echo present e t), world, v.resumed present e t Fpu.idle, v.left present e t)

/-- What the processor can raise, and somewhere to go on. -/
def Raises (state : ω × Context × ByteMem) : Prop :=
  (program state.1 state.2.1 state.2.2).2.1.Within Set.univ ∧ (program state.1 state.2.1 state.2.2).2.1.context.pc ≠ 0

/-- The same where the host may set the program counter. -/
def Continues (present : Nat → Bool) (state : ω × Context × Target) (v : Visit) : Prop :=
  (program state.1 state.2.1 state.2.2.memory).2.1.Within {Fpu.idle} ∧
    ((hosted program present state v).2).2.1.pc ≠ 0

variable {program} {states : Set (List UInt32)} {image : Image} {s : Stub} {present : Nat → Bool}
  {visits : List Visit}

theorem Ready.with_memory (ready : Ready states image.base s) (memory : ByteMem) :
    Ready states image.base { s with memory := memory } :=
  ⟨⟨ready.stacked.linked, ready.stacked.unused, ready.stacked.room⟩, ready.unnumbered⟩

/-- One exception. -/
theorem underDebugger_step {n : Nat} {world world' : ω} {context context' : Context} {e : Exception}
    {memory : ByteMem} {s' : Stub} {input rest : List UInt8}
    (raises : program world context s.memory = (world', e, memory))
    (went : handleException image present { s with memory := memory } e input = .done (context', s', rest)) :
    underDebugger program image present (n + 1) (world, context, s) input =
      (underDebugger program image present n (world', context', s') rest).andThen fun (es, last, rest) =>
        .done (e :: es, last, rest) := by
  rw [underDebugger, raises]
  dsimp only
  rw [went, Served.andThen_done]

def breaking : Program Unit := fun world _ memory => (world, breakpoint, memory)

theorem breaking_raises (state : Unit × Context × ByteMem) : Raises breaking state :=
  ⟨breakpoint_within True.intro, show breakpoint.context.pc ≠ 0 by decide⟩

theorem asking_resumed (present : Nat → Bool) (t : Target) :
    (asking.resumed present breakpoint t Fpu.idle).pc = 4098 :=
  congrArg Context.pc (contextOf_saved t.registers breakpoint_valid.fpu)

end Programs

end TrollOS.Gdb
