import TrollOS.Gdb.Frames

/-!
# Whatever the host sends

A visit of the debugger ends with the frame stack whole again, or it does not end: the host sends too
little, or something that makes the stub leave its buffers or touch its own variables.
-/

namespace TrollOS.Gdb

open TrollOS.Lib ByteMem Stub

/-! ## Commands -/

section Commands

variable {image : Image} {base : Nat} {s : Stub}

variable (base) in
/-- A command keeps the frames, and `s` and `c` change only registers before they look for one. -/
def Stub.Dispatch.Keeping (s : Stub) : Dispatch → Prop
  | .reply s' => s.Held s'
  | .resume outcome => ∃ registers newPC,
      { s with registers := registers }.resumeAt base newPC = .resume outcome
  | .overrun => True
  | .strayed => True

theorem Held.refl (s : Stub) : s.Held s := ⟨rfl, rfl, rfl, rfl, id⟩

theorem malformed_keeping (digit : Char) :
    Dispatch.Keeping base s (.reply (s.guarded.strcpyOut (errorText digit)).restored) :=
  ⟨rfl, rfl, rfl, rfl, fun _ => rfl⟩

/-- Behind `setjmp` the bus handler is set again. -/
theorem behindSetjmp_keeping (strayed : Bool) {finished busError : Stub} (left : s.Held finished.restored)
    (right : s.Held busError.restored) (how : Ended) :
    Dispatch.Keeping base s (behindSetjmp strayed finished busError how) := by
  cases strayed with
  | true =>
      cases how with
      | finished => exact True.intro
      | busError => exact True.intro
      | overrun => exact True.intro
  | false =>
      cases how with
      | finished => exact left
      | busError => exact right
      | overrun => exact True.intro

theorem peekMemory_keeping (present : Nat → Bool) (addr length : Nat) :
    Dispatch.Keeping base s (s.guarded.peekMemory image present addr length) := by
  apply behindSetjmp_keeping
  · exact ⟨rfl, rfl, rfl, rfl, fun _ => rfl⟩
  · exact ⟨rfl, rfl, rfl, rfl, fun _ => rfl⟩

theorem pokeMemory_keeping (present : Nat → Bool) (addr length ptr : Nat) :
    Dispatch.Keeping base s (s.guarded.pokeMemory image present addr length ptr) := by
  apply behindSetjmp_keeping
  · exact ⟨rfl, rfl, rfl, rfl, fun _ => rfl⟩
  · exact ⟨rfl, rfl, rfl, rfl, fun _ => rfl⟩

theorem readMemory_keeping (present : Nat → Bool) (ptr : Nat) :
    Dispatch.Keeping base s (s.readMemory image present ptr) := by
  unfold readMemory
  dsimp only
  split
  · exact True.intro
  · split
    · exact malformed_keeping '1'
    · split
      · exact malformed_keeping '1'
      · split
        · exact True.intro
        · split
          · exact malformed_keeping '1'
          · exact peekMemory_keeping present _ _

theorem writeMemory_keeping (present : Nat → Bool) (ptr : Nat) :
    Dispatch.Keeping base s (s.writeMemory image present ptr) := by
  unfold writeMemory
  dsimp only
  split
  · exact True.intro
  · split
    · exact malformed_keeping '2'
    · split
      · exact malformed_keeping '2'
      · split
        · exact True.intro
        · split
          · exact malformed_keeping '2'
          · split
            · exact malformed_keeping '2'
            · exact pokeMemory_keeping present _ _ _

theorem readRegisters_keeping : Dispatch.Keeping base s s.readRegisters := by
  unfold readRegisters
  dsimp only
  split
  · exact ⟨rfl, rfl, rfl, rfl, id⟩
  · exact True.intro

theorem writeRegisters_keeping (ptr : Nat) : Dispatch.Keeping base s (s.writeRegisters ptr) := by
  unfold writeRegisters
  dsimp only
  split
  · exact ⟨rfl, rfl, rfl, rfl, id⟩
  · exact True.intro

theorem resumeAt_keeping (registers : ByteMem) (newPC : Nat) :
    Dispatch.Keeping base s ({ s with registers := registers }.resumeAt base newPC) := by
  cases ran : { s with registers := registers }.resumeAt base newPC with
  | resume outcome => exact ⟨registers, newPC, ran⟩
  | overrun => exact True.intro
  | strayed => exact True.intro
  | reply s' =>
      unfold resumeAt at ran
      split at ran
      · cases ran
      · cases ran

theorem continueAt_keeping (stepping : Bool) (ptr : Nat) :
    Dispatch.Keeping base s (s.continueAt base stepping ptr) := by
  unfold continueAt
  cases hexToInt s.inBuffer ptr with
  | none => exact True.intro
  | some parsed => exact resumeAt_keeping _ _

variable (image s) in
theorem dispatch_keeping (present : Nat → Bool) (sigval offset : Nat) :
    Dispatch.Keeping image.base s.cleared (s.dispatch image present sigval offset) := by
  unfold dispatch
  dsimp only
  split
  · exact ⟨rfl, rfl, rfl, rfl, id⟩
  · split
    · exact ⟨rfl, rfl, rfl, rfl, id⟩
    · split
      · exact readRegisters_keeping
      · split
        · exact writeRegisters_keeping _
        · split
          · exact readMemory_keeping present _
          · split
            · exact writeMemory_keeping present _
            · split
              · exact continueAt_keeping true _
              · split
                · exact continueAt_keeping false _
                · exact Held.refl _

end Commands

/-! ## Runs -/

section Runs

variable {states : Set (List UInt32)} {base : Nat} {image : Image} {s s' : Stub} {context : Context}

theorem returnToAny_done {super : Bool} (went : s.returnToAny super = .done (context, s')) :
    s'.frames = s.frames ∧ s'.lastFrame = load32 s.frames s.lastFrame := by
  unfold returnToAny at went
  dsimp only at went
  split at went
  · split at went
    · split at went
      · cases went
        exact ⟨rfl, rfl⟩
      · cases went
    · cases went
  · cases went

/-- Only bytes of the array are written, and the stack is whole again. -/
structure Went (states : Set (List UInt32)) (base : Nat) (s s' : Stub) : Prop where
  stacked : Stacked states base s'
  outside : ∀ x, x < base ∨ base + frameStackBytes ≤ x → s'.frames x = s.frames x

/-- The first frame has words when the stack was reset, and stays the last then. -/
theorem Trapped.return_top (trapped : Trapped states base s) (placed : Placed base)
    (went : s.returnFromException (topFrame base) = .done (context, s')) : Went states base s s' := by
  have above := placed.above
  have bytes : frameBytes = 26 := rfl
  have top : topFrame base = base + 1970 := rfl
  have all : frameStackBytes = 2000 := rfl
  rw [returnFromException_frame (by omega)] at went
  obtain ⟨frames, last⟩ := returnToAny_done went
  have off (x : Nat) (outside : x < topFrame base + 14 ∨ topFrame base + 20 ≤ x) :
      s'.frames x = s.frames x := by
    rw [frames]
    exact setReturn_off outside
  have own : load32 s'.frames (topFrame base) = topFrame base := by
    rw [load32_congr fun x _ below => off x (by omega)]
    exact trapped.linked.own
  have same : s'.lastFrame = topFrame base := by
    rw [← frames] at last
    exact last.trans own
  refine ⟨⟨?_, ?_, ?_⟩, fun x outside => off x (by omega)⟩
  · rw [same]
    exact Linked.top own
  · exact trapped.unused.congr fun x _ below => off x (by omega)
  · rw [same]
    omega

/-- Whichever frame `s` and `c` find or make up. -/
theorem Trapped.resumed (trapped : Trapped states base s) (placed : Placed base) {newPC : Nat}
    (went : s.resumeAt base newPC = .resume (.done (context, s'))) : Went states base s s' := by
  have top : topFrame base = base + 1970 := rfl
  have ends : frameStackEnd = 1996 := rfl
  have fits := trapped.linked.le
  have fuel : topFrame base - s.lastFrame < base + frameStackEnd - s.lastFrame := by omega
  obtain ⟨frame, search, which⟩ := findFrame_found trapped.linked newPC fuel
  rw [resumeAt_found search] at went
  cases Nat.decEq frame 0 with
  | isTrue none =>
      obtain ⟨made, last, returned, gone, stacked⟩ := trapped.return_made placed
      rw [none, if_pos rfl, returned] at went
      cases went
      exact ⟨stacked, gone.outside⟩
  | isFalse known =>
      rcases which with none | ⟨chain, place, -⟩
      · exact absurd none known
      · rw [if_neg known] at went
        have returns := Dispatch.resume.inj went
        rcases Nat.decEq frame (topFrame base) with exception | rfl
        · obtain ⟨found, returned, gone, stacked, -⟩ := trapped.return_found known chain place exception
          rw [returned] at returns
          cases returns
          exact ⟨stacked, gone.outside⟩
        · exact trapped.return_top placed returns

/-- A debugger that has the frames of another is trapped as well. -/
theorem Trapped.of_same (trapped : Trapped states base s) (frames : s'.frames = s.frames)
    (lastFrame : s'.lastFrame = s.lastFrame) : Trapped states base s' := by
  refine ⟨?_, ?_, ?_, ?_⟩
  · rw [frames, lastFrame]
    exact trapped.linked
  · rw [frames]
    exact trapped.unused
  · rw [lastFrame]
    exact trapped.inside
  · rw [frames, lastFrame]
    exact trapped.room

theorem getIn_frames {input rest : List UInt8} {offset : Nat} (got : s.getIn input = .done (offset, s', rest)) :
    s'.frames = s.frames ∧ s'.lastFrame = s.lastFrame := by
  unfold getIn at got
  split at got
  · cases got
  · cases got
    exact ⟨rfl, rfl⟩

theorem putOut_frames {input rest : List UInt8} (put : s.putOut input = .done (s', rest)) :
    s'.frames = s.frames ∧ s'.lastFrame = s.lastFrame := by
  obtain ⟨reply, -, same⟩ := Served.andThen_eq_done put
  cases same
  exact ⟨rfl, rfl⟩

theorem Went.of_same {s₁ : Stub} (went : Went states base s₁ s') (frames : s₁.frames = s.frames) : Went states base s s' :=
  ⟨went.stacked, fun x outside => by rw [went.outside x outside, frames]⟩

/-- The debugger, for so many packets, whatever they are. -/
theorem Trapped.served {present : Nat → Bool} {sigval fuel : Nat} (trapped : Trapped states image.base s)
    (placed : Placed image.base) {input rest : List UInt8}
    (went : serve image present sigval fuel s input = .done (context, s', rest)) :
    Went states image.base s s' := by
  induction fuel generalizing s input with
  | zero => cases went
  | succ fuel ih =>
      rw [serve] at went
      obtain ⟨⟨offset, s₁, input₁⟩, got, went⟩ := Served.andThen_eq_done went
      obtain ⟨frames, lastFrame⟩ := getIn_frames got
      have listening := trapped.of_same frames lastFrame
      have keeping := dispatch_keeping image s₁ present sigval offset
      dsimp only at went
      cases command : s₁.dispatch image present sigval offset with
      | overrun =>
          rw [command] at went
          cases went
      | strayed =>
          rw [command] at went
          cases went
      | resume outcome =>
          rw [command] at went keeping
          obtain ⟨⟨context', s₂⟩, rfl, same⟩ := Served.andThen_eq_done went
          cases same
          obtain ⟨registers, newPC, resumes⟩ := keeping
          have ready : Trapped states image.base { s₁.cleared with registers := registers } := listening.of_same rfl rfl
          exact (ready.resumed placed resumes).of_same frames
      | reply s₂ =>
          rw [command] at went keeping
          obtain ⟨⟨s₃, input₃⟩, put, went⟩ := Served.andThen_eq_done went
          obtain ⟨frames₃, lastFrame₃⟩ := putOut_frames put
          have replied : Trapped states image.base s₃ := listening.of_same (frames₃.trans keeping.frames)
            (lastFrame₃.trans keeping.lastFrame)
          exact (ih replied went).of_same ((frames₃.trans keeping.frames).trans frames)

theorem Stacked.catch_outside {e : Exception} (stacked : Stacked states base s) (within : e.Within states)
    {x : Nat} (outside : x < base ∨ base + frameStackBytes ≤ x) :
    (s.catchException e).frames x = s.frames x := by
  obtain ⟨inside, ends⟩ := stacked.frameOf_room within
  have fits := stacked.linked.le
  have top : topFrame base = base + 1970 := rfl
  have all : frameStackBytes = 2000 := rfl
  rw [catchException_frames within.toValid]
  exact pushFrame_off s.frames (by omega)

/-- An exception, and whatever the host sends until the program goes on. -/
theorem Stacked.handled {present : Nat → Bool} {e : Exception} {input rest : List UInt8}
    (stacked : Stacked states image.base s) (placed : Placed image.base) (within : e.Within states)
    (went : handleException image present s e input = .done (context, s', rest)) :
    Went states image.base s s' := by
  have trapped := stacked.trap placed within
  unfold handleException at went
  split at went
  · cases went
  · obtain ⟨⟨s₁, input₁⟩, put, went⟩ := Served.andThen_eq_done went
    obtain ⟨frames, lastFrame⟩ := putOut_frames put
    have signalled : Trapped states image.base s₁ := trapped.of_same frames lastFrame
    have back := signalled.served placed went
    refine ⟨back.stacked, fun x outside => ?_⟩
    rw [back.outside x outside, frames]
    exact stacked.catch_outside within outside

/-- The stack as it is when the stub starts. -/
theorem initialize_stacked (states : Set (List UInt32)) (placed : Placed base)
    (zero : ∀ x, topFrame base + 4 ≤ x → x < topFrame base + 12 → s.frames x = 0) :
    Went states base s (initializeRemcomErrorFrame base s) := by
  have below := placed.below
  have all : frameStackBytes = 2000 := rfl
  have bytes : frameBytes = 26 := rfl
  have top : topFrame base = base + 1970 := rfl
  have off (x : Nat) (outside : x < topFrame base ∨ topFrame base + 4 ≤ x) :
      (initializeRemcomErrorFrame base s).frames x = s.frames x :=
    store32_off _ _ outside
  have clear (a : Nat) (above : topFrame base + 4 ≤ a) (under : a + 4 ≤ topFrame base + 12) :
      load32 s.frames a = 0 := by
    have same (x : Nat) (lo : a ≤ x) (hi : x < a + 4) :
        s.frames x = ByteMem.zero s.frames (topFrame base + 4) 8 x := by
      rw [zero_mem s.frames (by omega) (by omega), zero x (by omega) (by omega)]
    rw [load32_congr same, load32_zero_mem s.frames above (by omega)]
  refine ⟨⟨Linked.top (load32_store32 _ _ _ (show topFrame base < 4294967296 by omega)), ?_, ?_⟩, fun x outside => off x (by omega)⟩
  · exact Unused.congr ⟨clear _ (by omega) (by omega), clear _ (by omega) (by omega)⟩
      fun x above _ => off x (Or.inr above)
  · change base + 3 * frameBytes ≤ topFrame base
    omega

def breakpoint : Exception :=
  ⟨⟨Vector.replicate 15 0, 0, 65536, 8192, 4098, ⟨Fpu.reset, Fpu.idle⟩⟩, 33, 0, []⟩

theorem breakpoint_valid : breakpoint.Valid :=
  ⟨by decide, by decide, fun _ member => absurd member List.not_mem_nil, by decide, fun _ => rfl⟩

theorem breakpoint_within {states : Set (List UInt32)} (known : Fpu.idle ∈ states) :
    breakpoint.Within states := ⟨breakpoint_valid, by decide, known⟩

end Runs

end TrollOS.Gdb
