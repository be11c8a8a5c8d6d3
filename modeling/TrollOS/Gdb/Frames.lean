import TrollOS.Gdb.Session

/-!
# The frame stack of the debugger

Every exception puts a frame on `gdbFrameStack`, and nothing in `_catchException` looks whether there
is room.  `handle_exception` starts the stack again when three frames of its own no longer fit: that is
enough for the largest exception frame with an idle floating-point unit, but not for a busy unit.
-/

namespace TrollOS.Gdb

open TrollOS.Lib ByteMem

def topFrame (base : Nat) : Nat := base + frameStackEnd - frameBytes

structure Placed (base : Nat) : Prop where
  above : 3 * frameBytes ≤ base
  below : base + frameStackBytes ≤ 4294967296

/-- The end of the words of a frame, and the state of the floating-point unit there. -/
def stateAt (frames : ByteMem) (frame : Nat) : Nat := frame + 14 + 2 * load16 frames (frame + 12)

def stateOf (frames : ByteMem) (frame : Nat) : List UInt32 :=
  (long.loadRow frames (stateAt frames frame) (Fpu.longs (load32 frames (stateAt frames frame)))).map
    UInt32.ofNat

structure Saved (frames : ByteMem) (frame : Nat) : Prop where
  size : exceptionSize.getD (load16 frames (frame + 20) / 4096) 0 = load16 frames (frame + 12)
  words : 4 ≤ load16 frames (frame + 12)

/-- The chain of frames, each whole and below the one it points to, up to the first.  The floating-point
unit was in one of `states`. -/
inductive Linked (states : Set (List UInt32)) (frames : ByteMem) (top : Nat) : Nat → Prop where
  | top (own : load32 frames top = top) : Linked states frames top top
  | link {frame : Nat} (saved : Saved frames frame) (state : stateOf frames frame ≠ [])
      (known : stateOf frames frame ∈ states)
      (below : stateAt frames frame + 4 * (stateOf frames frame).length ≤ load32 frames frame)
      (rest : Linked states frames top (load32 frames frame)) : Linked states frames top frame

/-- The first frame is no exception. -/
structure Unused (frames : ByteMem) (top : Nat) : Prop where
  exceptionPC : load32 frames (top + 4) = 0
  exceptionVector : load32 frames (top + 8) = 0

/-- The stack while the program runs. -/
structure Stacked (states : Set (List UInt32)) (base : Nat) (s : Stub) : Prop where
  linked : Linked states s.frames (topFrame base) s.lastFrame
  unused : Unused s.frames (topFrame base)
  room : base + 3 * frameBytes ≤ s.lastFrame

/-- The stack while the debugger runs. -/
structure Trapped (states : Set (List UInt32)) (base : Nat) (s : Stub) : Prop where
  linked : Linked states s.frames (topFrame base) s.lastFrame
  unused : Unused s.frames (topFrame base)
  inside : base ≤ s.lastFrame
  room : base + 3 * frameBytes ≤ load32 s.frames s.lastFrame

/-- What `fsave` can write.  A null frame stands for a unit that has not been used. -/
structure Fpu.Valid (fpu : Fpu) : Prop where
  length : fpu.state.length = longs (fpu.state.headD 0).toNat
  unused : (fpu.state.headD 0).toNat / 16777216 = 0 → fpu.moved = reset

/-- What the processor can push. -/
structure Exception.Valid (e : Exception) : Prop where
  vector : e.vector < 1024
  size : exceptionSize.getD e.format 0 = e.rest.length + 4
  rest : ∀ w ∈ e.rest, w < 65536
  fpu : e.context.fpu.Valid

/-- The words and the state of the floating-point unit are no longer than the largest exception frame with
a null or an idle one, and the state is one of those that are known. -/
structure Exception.Within (states : Set (List UInt32)) (e : Exception) : Prop extends e.Valid where
  short : 2 * e.words.length + 4 * e.context.fpu.state.length ≤ 64
  known : e.context.fpu.state ∈ states

section Chain

variable {states : Set (List UInt32)} {frames frames' : ByteMem} {top frame : Nat}

theorem Saved.stateAt (saved : Saved frames frame) : frame + 22 ≤ stateAt frames frame := by
  have words := saved.words
  unfold Gdb.stateAt
  omega

theorem Linked.le (linked : Linked states frames top frame) : frame ≤ top := by
  induction linked with
  | top own => exact Nat.le_refl _
  | link saved state known below rest ih =>
      have words := saved.stateAt
      omega

theorem Linked.own (linked : Linked states frames top frame) : load32 frames top = top := by
  induction linked with
  | top own => exact own
  | link saved state known below rest ih => exact ih

theorem Linked.le_next (linked : Linked states frames top frame) : frame ≤ load32 frames frame := by
  cases linked with
  | top own => exact Nat.le_of_eq own.symm
  | link saved state known below rest =>
      have words := saved.stateAt
      omega

theorem stateOf_length (frames : ByteMem) (frame : Nat) :
    (stateOf frames frame).length = Fpu.longs (load32 frames (stateAt frames frame)) := by
  unfold stateOf
  rw [List.length_map, WordSize.loadRow_length]

/-- A frame with a state keeps it where its words and the state stay. -/
theorem stateOf_congr
    (size : load16 frames' (frame + 12) = load16 frames (frame + 12))
    (same : ∀ x, stateAt frames frame ≤ x → frames' x = frames x) :
    stateAt frames' frame = stateAt frames frame ∧ stateOf frames' frame = stateOf frames frame := by
  have place : stateAt frames' frame = stateAt frames frame := by
    unfold stateAt
    rw [size]
  have header : load32 frames' (stateAt frames frame) = load32 frames (stateAt frames frame) :=
    load32_congr fun x above _ => same x above
  refine ⟨place, ?_⟩
  unfold stateOf
  rw [place, header, WordSize.loadRow_congr fun x above _ => same x above]

/-- The chain is not in the memory below it. -/
theorem Linked.congr (linked : Linked states frames top frame) (same : ∀ x, frame ≤ x → frames' x = frames x) :
    Linked states frames' top frame := by
  induction linked with
  | top own => exact Linked.top (by rw [load32_congr fun x above _ => same x above, own])
  | @link frame saved state known below rest ih =>
      have words := saved.stateAt
      have next : load32 frames' frame = load32 frames frame :=
        load32_congr fun x above _ => same x above
      have size : load16 frames' (frame + 12) = load16 frames (frame + 12) :=
        load16_congr fun x above _ => same x (by omega)
      have format : load16 frames' (frame + 20) = load16 frames (frame + 20) :=
        load16_congr fun x above _ => same x (by omega)
      obtain ⟨place, kept⟩ := stateOf_congr size fun x above => same x (by omega)
      have later := ih fun x above => same x (by omega)
      refine Linked.link ⟨by rw [size, format, saved.size], by rw [size]; exact saved.words⟩ ?_ ?_ ?_ ?_
      · rw [kept]
        exact state
      · rw [kept]
        exact known
      · rw [place, kept, next]
        exact below
      · rwa [next]

theorem Unused.congr (unused : Unused frames top) (same : ∀ x, top + 4 ≤ x → x < top + 12 → frames' x = frames x) :
    Unused frames' top where
  exceptionPC := by
    rw [load32_congr fun x above below => same x above (by omega), unused.exceptionPC]
  exceptionVector := by
    rw [load32_congr fun x above below => same x (by omega) (by omega), unused.exceptionVector]

end Chain

/-! ## A new frame -/

section Push

variable {frame previous exceptionPC exceptionVector : Nat} {words : List Nat} {state : List UInt32}

open Stub

/-- Only the bytes of the frame are written. -/
theorem pushFrame_off (frames : ByteMem) {x : Nat}
    (off : x < frame ∨ frame + 14 + 2 * words.length + 4 * state.length ≤ x) :
    pushFrame frames frame previous exceptionPC exceptionVector words state x = frames x := by
  have row : x < frame + 14 ∨ frame + 14 + half.bytes * words.length ≤ x := by
    change _ ∨ frame + 14 + 2 * words.length ≤ x
    omega
  have last : x < frame + 14 + 2 * words.length ∨
      frame + 14 + 2 * words.length + long.bytes * (state.map UInt32.toNat).length ≤ x := by
    rw [List.length_map]
    change _ ∨ frame + 14 + 2 * words.length + 4 * state.length ≤ x
    omega
  unfold pushFrame
  rw [store32_off _ _ (by omega), store32_off _ _ (by omega), store32_off _ _ (by omega),
    store16_off _ _ (by omega), WordSize.storeRow_off row, WordSize.storeRow_off last]

theorem pushFrame_previous (frames : ByteMem) (small : previous < 4294967296) :
    load32 (pushFrame frames frame previous exceptionPC exceptionVector words state) frame = previous :=
  load32_store32 _ _ _ small

theorem pushFrame_exceptionPC (frames : ByteMem) (small : exceptionPC < 4294967296) :
    load32 (pushFrame frames frame previous exceptionPC exceptionVector words state) (frame + 4) =
      exceptionPC := by
  unfold pushFrame
  rw [load32_store32_off _ _ (by omega), load32_store32 _ _ _ small]

theorem pushFrame_size (frames : ByteMem) (small : words.length < 65536) :
    load16 (pushFrame frames frame previous exceptionPC exceptionVector words state) (frame + 12) =
      words.length := by
  unfold pushFrame
  rw [load16_store32_off _ _ (by omega), load16_store32_off _ _ (by omega),
    load16_store32_off _ _ (by omega), load16_store16_small _ _ _ small]

/-- Behind the fixed part there are the two rows. -/
theorem pushFrame_rows (frames : ByteMem) {x : Nat} (above : frame + 14 ≤ x) :
    pushFrame frames frame previous exceptionPC exceptionVector words state x =
      half.storeRow (long.storeRow frames (frame + 14 + 2 * words.length) (state.map UInt32.toNat))
        (frame + 14) words x := by
  unfold pushFrame
  rw [store32_off _ _ (by omega), store32_off _ _ (by omega), store32_off _ _ (by omega),
    store16_off _ _ (by omega)]

theorem pushFrame_words (frames : ByteMem) (small : ∀ w ∈ words, w < 65536) :
    half.loadRow (pushFrame frames frame previous exceptionPC exceptionVector words state) (frame + 14)
      words.length = words := by
  rw [WordSize.loadRow_congr fun x above _ => pushFrame_rows frames above]
  exact WordSize.loadRow_storeRow _ (frame + 14) small

theorem pushFrame_stateAt (frames : ByteMem) (small : words.length < 65536) :
    stateAt (pushFrame frames frame previous exceptionPC exceptionVector words state) frame =
      frame + 14 + 2 * words.length := by
  unfold stateAt
  rw [pushFrame_size frames small]

theorem toNat_map_small (longs : List UInt32) : ∀ w ∈ longs.map UInt32.toNat, w < long.bound := by
  intro w member
  obtain ⟨r, -, rfl⟩ := List.mem_map.1 member
  exact r.toNat_lt

theorem ofNat_map_toNat (longs : List UInt32) : (longs.map UInt32.toNat).map UInt32.ofNat = longs := by
  rw [List.map_map]
  exact List.map_id'' (fun _ => UInt32.ofNat_toNat) longs

/-- The state is behind the words. -/
theorem pushFrame_state (frames : ByteMem) (few : words.length < 65536)
    (length : state.length = Fpu.longs (state.headD 0).toNat) (some' : state ≠ []) :
    stateOf (pushFrame frames frame previous exceptionPC exceptionVector words state) frame = state := by
  have same (x : Nat) (above : frame + 14 + 2 * words.length ≤ x) :
      pushFrame frames frame previous exceptionPC exceptionVector words state x =
        long.storeRow frames (frame + 14 + 2 * words.length) (state.map UInt32.toNat) x := by
    rw [pushFrame_rows frames (by omega)]
    refine WordSize.storeRow_off (Or.inr ?_)
    change frame + 14 + 2 * words.length ≤ x
    exact above
  have row (n : Nat) : long.loadRow (pushFrame frames frame previous exceptionPC exceptionVector words state)
      (frame + 14 + 2 * words.length) n = long.loadRow
        (long.storeRow frames (frame + 14 + 2 * words.length) (state.map UInt32.toNat))
        (frame + 14 + 2 * words.length) n := WordSize.loadRow_congr fun x above _ => same x above
  have found := WordSize.loadRow_storeRow frames (frame + 14 + 2 * words.length) (toNat_map_small state)
  rw [List.length_map] at found
  have header : load32 (pushFrame frames frame previous exceptionPC exceptionVector words state)
      (frame + 14 + 2 * words.length) = (state.headD 0).toNat := by
    cases state with
    | nil => exact absurd rfl some'
    | cons first later =>
        have whole := row (later.length + 1)
        rw [List.length_cons] at found
        rw [found] at whole
        exact (List.cons.inj whole).1
  unfold stateOf
  rw [pushFrame_stateAt frames few, header, ← length, row, found, ofNat_map_toNat]

end Push

section Trap

open Stub

variable {states : Set (List UInt32)} {base : Nat} {s : Stub} {e : Exception}

theorem exceptionSize_le (format : Nat) : exceptionSize.getD format 0 ≤ 30 := by
  have all : ∀ size ∈ exceptionSize, size ≤ 30 := by decide
  rw [List.getD_eq_getElem?_getD]
  cases found : exceptionSize[format]? with
  | none => exact Nat.zero_le _
  | some size => exact all size (List.mem_of_getElem? found)

/-- A format that has a size is one of the first eight. -/
theorem format_lt {format : Nat} (sized : exceptionSize.getD format 0 ≠ 0) : format < 8 := by
  by_contra large
  have none : ∀ format < 17, 8 ≤ format → exceptionSize.getD format 0 = 0 := by decide
  rcases Nat.lt_or_ge format 17 with listed | beyond
  · exact sized (none format listed (by omega))
  · refine sized ?_
    rw [List.getD_eq_getElem?_getD, List.getElem?_eq_none beyond]
    rfl

theorem Fpu.Valid.some {fpu : Fpu} (valid : fpu.Valid) : fpu.state ≠ [] := fun none => by
  have length := valid.length
  rw [none] at length
  exact absurd length (by decide)

theorem Exception.Valid.length (valid : e.Valid) : exceptionSize.getD e.format 0 = e.words.length := by
  rw [valid.size, Exception.words, List.length_append, Nat.add_comm]
  rfl

theorem Exception.Valid.words_eq (valid : e.Valid) :
    e.words.take (exceptionSize.getD e.format 0) = e.words := by
  rw [valid.length, List.take_length]

theorem Exception.Valid.small (valid : e.Valid) : ∀ w ∈ e.words, w < 65536 := by
  intro w member
  have format := format_lt (by rw [valid.size]; omega)
  have vector := valid.vector
  have sr := e.context.sr.toNat_lt
  have pc := e.context.pc.toNat_lt
  rcases List.mem_append.1 member with fixed | rest
  · simp only [List.mem_cons, List.not_mem_nil, or_false] at fixed
    rcases fixed with rfl | rfl | rfl | rfl
    · exact sr
    · omega
    · omega
    · omega
  · exact valid.rest w rest

theorem Exception.Valid.bounds (valid : e.Valid) : 4 ≤ e.words.length ∧ e.words.length ≤ 30 := by
  rw [← valid.length]
  exact ⟨by rw [valid.size]; omega, exceptionSize_le e.format⟩

def frameOf (s : Stub) (e : Exception) : Nat :=
  s.lastFrame - 4 * e.context.fpu.state.length - 2 * e.words.length - 14

theorem catchException_lastFrame (valid : e.Valid) : (s.catchException e).lastFrame = frameOf s e := by
  unfold catchException frameOf
  rw [valid.words_eq]

theorem catchException_frames (valid : e.Valid) : (s.catchException e).frames =
    pushFrame s.frames (frameOf s e) s.lastFrame e.context.pc.toNat e.vector e.words e.context.fpu.state := by
  unfold catchException frameOf
  rw [valid.words_eq]

/-- There was room for the frame. -/
theorem Stacked.frameOf_room (stacked : Stacked states base s) (within : e.Within states) :
    base ≤ frameOf s e ∧
      frameOf s e + 14 + 2 * e.words.length + 4 * e.context.fpu.state.length = s.lastFrame := by
  have room := stacked.room
  have short := within.short
  unfold frameBytes at room
  unfold frameOf
  omega

/-- The format of a frame is the one the processor has pushed. -/
theorem pushFrame_saved (frames : ByteMem) (frame previous exceptionPC : Nat) (state : List UInt32)
    (valid : e.Valid) :
    Saved (pushFrame frames frame previous exceptionPC e.vector e.words state) frame := by
  have bounds := valid.bounds
  have words : half.loadRow (pushFrame frames frame previous exceptionPC e.vector e.words state) (frame + 14)
      e.words.length = e.words := pushFrame_words frames valid.small
  have size : load16 (pushFrame frames frame previous exceptionPC e.vector e.words state) (frame + 12) =
      e.words.length := pushFrame_size frames (by omega)
  have fourth : (half.loadRow (pushFrame frames frame previous exceptionPC e.vector e.words state) (frame + 14)
      e.words.length)[3]? = _ := WordSize.loadRow_get _ _ (by omega)
  rw [words] at fourth
  have format : e.format * 4096 + e.vector * 4 =
      load16 (pushFrame frames frame previous exceptionPC e.vector e.words state) (frame + 20) :=
    Option.some.inj fourth
  have vector := valid.vector
  refine ⟨?_, by rw [size]; exact bounds.1⟩
  have kept : (e.format * 4096 + e.vector * 4) / 4096 = e.format := by omega
  rw [size, ← format, kept, valid.length]

/-- The frame that an exception has pushed. -/
theorem catchException_frame (valid : e.Valid) (small : s.lastFrame < 4294967296) :
    load32 (s.catchException e).frames (frameOf s e) = s.lastFrame ∧
      load32 (s.catchException e).frames (frameOf s e + 4) = e.context.pc.toNat ∧
      stateAt (s.catchException e).frames (frameOf s e) = frameOf s e + 14 + 2 * e.words.length ∧
      stateOf (s.catchException e).frames (frameOf s e) = e.context.fpu.state := by
  have bounds := valid.bounds
  rw [catchException_frames valid]
  exact ⟨pushFrame_previous s.frames small, pushFrame_exceptionPC s.frames e.context.pc.toNat_lt,
    pushFrame_stateAt s.frames (by omega),
    pushFrame_state s.frames (by omega) valid.fpu.length valid.fpu.some⟩

theorem Stacked.trap (stacked : Stacked states base s) (placed : Placed base) (within : e.Within states) :
    Trapped states base (s.catchException e) := by
  have valid := within.toValid
  obtain ⟨inside, ends⟩ := stacked.frameOf_room within
  have below := placed.below
  have bytes : frameStackBytes = 2000 := rfl
  have le := stacked.linked.le
  have top : topFrame base = base + 1970 := rfl
  obtain ⟨previous, -, place, state⟩ := catchException_frame (s := s) valid (by omega)
  have above (x : Nat) (beyond : s.lastFrame ≤ x) : (s.catchException e).frames x = s.frames x := by
    rw [catchException_frames valid]
    exact pushFrame_off s.frames (Or.inr (by omega))
  refine ⟨?_, ?_, ?_, ?_⟩
  · rw [catchException_lastFrame valid]
    refine Linked.link ?_ ?_ ?_ ?_ ?_
    · rw [catchException_frames valid]
      exact pushFrame_saved s.frames _ _ _ _ valid
    · rw [state]
      exact valid.fpu.some
    · rw [state]
      exact within.known
    · rw [place, state, previous]
      exact Nat.le_of_eq ends
    · rw [previous]
      exact stacked.linked.congr above
  · exact stacked.unused.congr fun x beyond _ => above x (by omega)
  · rw [catchException_lastFrame valid]
    exact inside
  · rw [catchException_lastFrame valid, previous]
    exact stacked.room

end Trap

/-! ## Going on -/

section Return

open Stub

variable {states : Set (List UInt32)} {base : Nat} {s : Stub}

/-- The unit with its registers and a state, as `frestore` leaves it. -/
def fpuOf (registers : ByteMem) (state : List UInt32) : Fpu :=
  ⟨if (state.headD 0).toNat / 16777216 = 0 then Fpu.reset else loadLongs registers fp0 27, state⟩

/-- The program that registers belong to, with the stack pointer that is not among them. -/
def contextOf (registers : ByteMem) (usp superStack : UInt32) (state : List UInt32) : Context :=
  let super := decide (field (load32 registers ps) 13 1 ≠ 0)
  let sp := UInt32.ofNat (load32 registers a7)
  ⟨loadLongs registers 0 15, if super then usp else sp, if super then sp else superStack,
    UInt16.ofNat (load32 registers ps), UInt32.ofNat (load32 registers pc), fpuOf registers state⟩

theorem restoreFpu_made (registers : ByteMem) {frames : ByteMem} {a0 : Nat}
    (made : load32 frames a0 = 4294967295) :
    restoreFpu registers frames a0 = some (fpuOf registers Fpu.idle) := by
  have idle : ¬ (Fpu.idle.headD 0).toNat / 16777216 = 0 := by decide
  unfold restoreFpu fpuOf
  dsimp only
  rw [if_pos made, if_neg idle]

theorem restoreFpu_state (registers : ByteMem) {frames : ByteMem} {frame : Nat}
    (state : stateOf frames frame ≠ []) :
    restoreFpu registers frames (stateAt frames frame) = some (fpuOf registers (stateOf frames frame)) := by
  have some' : Fpu.longs (load32 frames (stateAt frames frame)) ≠ 0 := by
    rw [← stateOf_length]
    exact fun none => state (List.length_eq_zero_iff.1 none)
  have written : load32 frames (stateAt frames frame) ≠ 4294967295 := fun made => by
    rw [made] at some'
    exact some' (by decide)
  have head : ((stateOf frames frame).headD 0).toNat = load32 frames (stateAt frames frame) := by
    obtain ⟨n, more⟩ := Nat.exists_eq_succ_of_ne_zero some'
    unfold stateOf
    rw [more]
    change (UInt32.ofNat (load32 frames (stateAt frames frame))).toNat = _
    rw [UInt32.toNat_ofNat', Nat.mod_eq_of_lt (load32_lt _ _)]
  unfold restoreFpu fpuOf
  dsimp only
  rw [if_neg written, if_neg some', head]
  rfl

/-- Only what is behind the words counts. -/
theorem restoreFpu_congr (registers : ByteMem) {frames frames' : ByteMem} {a0 : Nat}
    (same : ∀ x, a0 ≤ x → frames' x = frames x) : restoreFpu registers frames' a0 = restoreFpu registers frames a0 := by
  have header : load32 frames' a0 = load32 frames a0 := load32_congr fun x above _ => same x above
  have row (n : Nat) : long.loadRow frames' a0 n = long.loadRow frames a0 n :=
    WordSize.loadRow_congr fun x above _ => same x above
  unfold restoreFpu
  dsimp only
  rw [header, row]

theorem loadRow_four (m : ByteMem) (a : Nat) {n : Nat} (more : 4 ≤ n) : half.loadRow m a n =
    load16 m a :: load16 m (a + 2) :: load16 m (a + 4) :: load16 m (a + 6) :: half.loadRow m (a + 8) (n - 4) := by
  obtain ⟨k, rfl⟩ := Nat.exists_eq_add_of_le' more
  rfl

theorem returnToAny_saved (saved : Saved s.frames s.lastFrame) {fpu : Fpu}
    (restored : restoreFpu s.registers s.frames (stateAt s.frames s.lastFrame) = some fpu) (super : Bool) :
    s.returnToAny super =
    .done (⟨loadLongs s.registers 0 15, if super then s.usp else UInt32.ofNat (load32 s.registers a7),
      if super then UInt32.ofNat (load32 s.registers a7) else s.superStack,
      UInt16.ofNat (load16 s.frames (s.lastFrame + 14)), UInt32.ofNat (load32 s.frames (s.lastFrame + 16)), fpu⟩,
      { s with
        lastFrame := load32 s.frames s.lastFrame
        usp := if super then s.usp else UInt32.ofNat (load32 s.registers a7) }) := by
  have halves := load32_halves s.frames (s.lastFrame + 16)
  unfold stateAt at restored
  unfold returnToAny
  dsimp only
  rw [loadRow_four _ _ saved.words]
  dsimp only
  rw [if_pos saved.size, restored, halves]

theorem setReturn_off {x : Nat} (off : x < s.lastFrame + 14 ∨ s.lastFrame + 20 ≤ x) :
    s.setReturn.frames x = s.frames x := by
  unfold setReturn
  dsimp only
  rw [store32_off _ _ (by omega), store16_off _ _ (by omega)]

/-- `frame->sr` and `frame->pc` are what `rte` takes. -/
theorem setReturn_returns (saved : Saved s.frames s.lastFrame) : Saved s.setReturn.frames s.lastFrame ∧
    stateAt s.setReturn.frames s.lastFrame = stateAt s.frames s.lastFrame ∧
    load16 s.setReturn.frames (s.lastFrame + 14) = load32 s.registers ps % 65536 ∧
    load32 s.setReturn.frames (s.lastFrame + 16) = load32 s.registers pc := by
  have off (x : Nat) (outside : x < s.lastFrame + 14 ∨ s.lastFrame + 20 ≤ x) :
      s.setReturn.frames x = s.frames x := setReturn_off outside
  have size : load16 s.setReturn.frames (s.lastFrame + 12) = load16 s.frames (s.lastFrame + 12) :=
    load16_congr fun x _ _ => off x (by omega)
  have format : load16 s.setReturn.frames (s.lastFrame + 20) = load16 s.frames (s.lastFrame + 20) :=
    load16_congr fun x _ _ => off x (by omega)
  refine ⟨⟨by rw [size, format, saved.size], by rw [size]; exact saved.words⟩, ?_, ?_, ?_⟩
  · unfold stateAt
    rw [size]
  · unfold setReturn
    dsimp only
    rw [load16_store32_off _ _ (by omega), load16_store16]
  · unfold setReturn
    dsimp only
    rw [load32_store32 _ _ _ (load32_lt _ _)]

/-- What has become of the stub when the program goes on. -/
structure Gone (base : Nat) (s s' : Stub) (from' : Nat) : Prop where
  registers : s'.registers = s.registers
  memory : s'.memory = s.memory
  inBuffer : s'.inBuffer = s.inBuffer
  sent : s'.sent = s.sent
  busHandler : s'.busHandler = s.busHandler
  lastFrame : s'.lastFrame = from'
  outside : ∀ x, x < base ∨ base + 2000 ≤ x → s'.frames x = s.frames x

theorem ofNat_low (n : Nat) : UInt16.ofNat (n % 65536) = UInt16.ofNat n := by
  apply UInt16.toNat_inj.1
  rw [UInt16.toNat_ofNat', UInt16.toNat_ofNat']
  exact Nat.mod_mod n 65536

variable (base) in
/-- A whole frame takes the program back to where the registers say, with the state that is restored. -/
theorem setReturn_ran (saved : Saved s.frames s.lastFrame) {state : List UInt32}
    (restored : ∀ frames, (∀ x, stateAt s.frames s.lastFrame ≤ x → frames x = s.frames x) →
      restoreFpu s.registers frames (stateAt s.frames s.lastFrame) = some (fpuOf s.registers state))
    (inside : base ≤ s.lastFrame) (fits : s.lastFrame ≤ topFrame base) : ∃ s',
    s.setReturn.returnToAny (decide (field (load32 s.registers ps) 13 1 ≠ 0)) =
        .done (contextOf s.registers s.usp s.superStack state, s') ∧
      Gone base s s' (load32 s.frames s.lastFrame) ∧
      ∀ x, x < s.lastFrame + 14 ∨ s.lastFrame + 20 ≤ x → s'.frames x = s.frames x := by
  obtain ⟨returns, place, status, counter⟩ := setReturn_returns saved
  have off (x : Nat) (outside : x < s.lastFrame + 14 ∨ s.lastFrame + 20 ≤ x) :
      s.setReturn.frames x = s.frames x := setReturn_off outside
  have behind := saved.stateAt
  have top : topFrame base = base + 1970 := rfl
  have here : Saved s.setReturn.frames s.setReturn.lastFrame := returns
  have unit : restoreFpu s.setReturn.registers s.setReturn.frames
      (stateAt s.setReturn.frames s.setReturn.lastFrame) = some (fpuOf s.registers state) := by
    change restoreFpu s.registers s.setReturn.frames (stateAt s.setReturn.frames s.lastFrame) = _
    rw [place]
    exact restored _ fun x above => off x (by omega)
  have ran := returnToAny_saved here unit (decide (field (load32 s.registers ps) 13 1 ≠ 0))
  have previous : load32 s.setReturn.frames s.setReturn.lastFrame = load32 s.frames s.lastFrame :=
    load32_congr fun x above below => off x (Or.inl (Nat.lt_of_lt_of_le below (by
      change s.lastFrame + 4 ≤ s.lastFrame + 14
      omega)))
  have sr : load16 s.setReturn.frames (s.setReturn.lastFrame + 14) = load32 s.registers ps % 65536 := status
  have pc' : load32 s.setReturn.frames (s.setReturn.lastFrame + 16) = load32 s.registers pc := counter
  rw [sr, pc', previous, ofNat_low] at ran
  exact ⟨_, ran, ⟨rfl, rfl, rfl, rfl, rfl, rfl, fun x outside => off x (by omega)⟩, off⟩

theorem returnFromException_frame {frame : Nat} (known : frame ≠ 0) :
    s.returnFromException frame = { s with lastFrame := frame }.setReturn.returnToAny
      (decide (field (load32 s.registers ps) 13 1 ≠ 0)) := by
  unfold returnFromException
  rw [if_neg known]

theorem returnFromException_null : s.returnFromException 0 =
    s.fillFrame.setReturn.returnToAny (decide (field (load32 s.registers ps) 13 1 ≠ 0)) := by
  unfold returnFromException
  rw [if_pos rfl]
  rfl

theorem fillFrame_off {x : Nat} (off : x < s.lastFrame + 12 ∨ s.lastFrame + 26 ≤ x ∨
    s.lastFrame + 14 ≤ x ∧ x < s.lastFrame + 20) : s.fillFrame.frames x = s.frames x := by
  unfold fillFrame
  dsimp only
  rw [store32_off _ _ (by omega), store16_off _ _ (by omega), store16_off _ _ (by omega)]

theorem fillFrame_saved : Saved s.fillFrame.frames s.lastFrame ∧
    stateAt s.fillFrame.frames s.lastFrame = s.lastFrame + 22 := by
  have size : load16 s.fillFrame.frames (s.lastFrame + 12) = 4 := by
    unfold fillFrame
    dsimp only
    rw [load16_store32_off _ _ (by omega), load16_store16_off _ _ (by omega), load16_store16]
  have format : load16 s.fillFrame.frames (s.lastFrame + 20) = 0 := by
    unfold fillFrame
    dsimp only
    rw [load16_store32_off _ _ (by omega), load16_store16]
  have words : exceptionSize.getD (0 / 4096) 0 = 4 := rfl
  refine ⟨⟨by rw [size, format, words], Nat.le_of_eq size.symm⟩, ?_⟩
  unfold stateAt
  rw [size]

variable (base) in
/-- The frame that is made up does as well. -/
theorem returnFromException_made (inside : base ≤ s.lastFrame) (fits : s.lastFrame ≤ topFrame base) : ∃ s',
    s.returnFromException 0 = .done (contextOf s.registers s.usp s.superStack Fpu.idle, s') ∧
      Gone base s s' (load32 s.frames s.lastFrame) ∧
      ∀ x, x < s.lastFrame + 12 ∨ s.lastFrame + 26 ≤ x → s'.frames x = s.frames x := by
  have top : topFrame base = base + 1970 := rfl
  obtain ⟨saved, place⟩ := fillFrame_saved (s := s)
  have filled : Saved s.fillFrame.frames s.fillFrame.lastFrame := saved
  have marked (frames : ByteMem)
      (same : ∀ x, stateAt s.fillFrame.frames s.fillFrame.lastFrame ≤ x → frames x = s.fillFrame.frames x) :
      restoreFpu s.fillFrame.registers frames (stateAt s.fillFrame.frames s.fillFrame.lastFrame) =
        some (fpuOf s.fillFrame.registers Fpu.idle) := by
    apply restoreFpu_made
    rw [load32_congr fun x above _ => same x above]
    change load32 s.fillFrame.frames (stateAt s.fillFrame.frames s.lastFrame) = _
    rw [place]
    exact load32_store32 _ _ _ (by decide)
  obtain ⟨s', ran, gone, off⟩ := setReturn_ran base filled marked inside fits
  have previous : load32 s.fillFrame.frames s.fillFrame.lastFrame = load32 s.frames s.lastFrame :=
    load32_congr fun x above below => fillFrame_off (Or.inl (Nat.lt_of_lt_of_le below (by
      change s.lastFrame + 4 ≤ s.lastFrame + 12
      omega)))
  have same (x : Nat) (outside : x < s.lastFrame + 12 ∨ s.lastFrame + 26 ≤ x) : s'.frames x = s.frames x := by
    have there : x < s.fillFrame.lastFrame + 14 ∨ s.fillFrame.lastFrame + 20 ≤ x := by
      change x < s.lastFrame + 14 ∨ s.lastFrame + 20 ≤ x
      omega
    rw [off x there]
    exact fillFrame_off (by omega)
  rw [previous] at gone
  refine ⟨s', by rw [returnFromException_null]; exact ran,
    ⟨gone.registers, gone.memory, gone.inBuffer, gone.sent, gone.busHandler, gone.lastFrame, ?_⟩, same⟩
  intro x outside
  exact same x (by omega)

/-- The search for a frame ends, with none or with one of the chain. -/
theorem findFrame_found {frames : ByteMem} {top frame fuel : Nat} (linked : Linked states frames top frame)
    (newPC : Nat) (enough : top - frame < fuel) : ∃ found, findFrame frames newPC fuel frame = some found ∧
      (found = 0 ∨ Linked states frames top found ∧ (found = frame ∨ load32 frames frame ≤ found) ∧
        (load32 frames (found + 4) = newPC ∨ load32 frames (found + 8) = 33)) := by
  induction linked generalizing fuel with
  | top own =>
      obtain ⟨fuel, rfl⟩ := Nat.exists_eq_succ_of_ne_zero (Nat.ne_of_gt (Nat.lt_of_le_of_lt (Nat.zero_le _) enough))
      unfold findFrame
      dsimp only
      by_cases here : load32 frames (top + 4) = newPC
      · rw [if_pos here]
        exact ⟨top, rfl, Or.inr ⟨Linked.top own, Or.inl rfl, Or.inl here⟩⟩
      · rw [if_neg here]
        by_cases breakpoint : load32 frames (top + 8) = 33 ∧ load32 frames (top + 4) = u32 (newPC + 2)
        · rw [if_pos breakpoint]
          exact ⟨top, rfl, Or.inr ⟨Linked.top own, Or.inl rfl, Or.inr breakpoint.1⟩⟩
        · rw [if_neg breakpoint, if_pos own.symm]
          exact ⟨0, rfl, Or.inl rfl⟩
  | @link frame saved state known below rest ih =>
      obtain ⟨fuel, rfl⟩ := Nat.exists_eq_succ_of_ne_zero (Nat.ne_of_gt (Nat.lt_of_le_of_lt (Nat.zero_le _) enough))
      have linked := Linked.link saved state known below rest
      have words := saved.stateAt
      unfold findFrame
      dsimp only
      by_cases here : load32 frames (frame + 4) = newPC
      · rw [if_pos here]
        exact ⟨frame, rfl, Or.inr ⟨linked, Or.inl rfl, Or.inl here⟩⟩
      · rw [if_neg here]
        by_cases breakpoint : load32 frames (frame + 8) = 33 ∧ load32 frames (frame + 4) = u32 (newPC + 2)
        · rw [if_pos breakpoint]
          exact ⟨frame, rfl, Or.inr ⟨linked, Or.inl rfl, Or.inr breakpoint.1⟩⟩
        · rw [if_neg breakpoint, if_neg (by omega)]
          have le := rest.le
          obtain ⟨found, ran, which⟩ := ih (show _ < fuel by omega)
          refine ⟨found, ran, which.imp id fun ⟨chain, place, reason⟩ => ⟨chain, Or.inr ?_, reason⟩⟩
          rcases place with rfl | above
          · exact Nat.le_refl _
          · exact Nat.le_trans rest.le_next above

theorem findFrame_own {frames : ByteMem} {frame newPC fuel : Nat} (some' : 0 < fuel)
    (here : load32 frames (frame + 4) = newPC) : findFrame frames newPC fuel frame = some frame := by
  obtain ⟨fuel, rfl⟩ := Nat.exists_eq_succ_of_ne_zero (Nat.ne_of_gt some')
  unfold findFrame
  exact if_pos here

def goingOn (registers : ByteMem) (stepping : Bool) (text : List UInt8) : ByteMem :=
  withTrace (withPC registers (digits text).length (value text)) stepping

/-- A frame of an exception is used, and the chain above it stays. -/
theorem Trapped.return_found (trapped : Trapped states base s) {frame : Nat} (known : frame ≠ 0)
    (chain : Linked states s.frames (topFrame base) frame)
    (place : frame = s.lastFrame ∨ load32 s.frames s.lastFrame ≤ frame)
    (exception : frame ≠ topFrame base) : ∃ s',
    s.returnFromException frame =
        .done (contextOf s.registers s.usp s.superStack (stateOf s.frames frame), s') ∧
      Gone base s s' (load32 s.frames frame) ∧ Stacked states base s' ∧ stateOf s.frames frame ∈ states := by
  have inside := trapped.inside
  have room := trapped.room
  have next := trapped.linked.le_next
  have fits := chain.le
  cases chain with
  | top own => exact absurd rfl exception
  | link saved state recorded below rest =>
      have words := saved.stateAt
      have above := rest.le
      have top : topFrame base = base + 1970 := rfl
      have restored (frames : ByteMem) (same : ∀ x, stateAt s.frames frame ≤ x → frames x = s.frames x) :
          restoreFpu s.registers frames (stateAt s.frames frame) =
            some (fpuOf s.registers (stateOf s.frames frame)) := by
        rw [restoreFpu_congr s.registers same]
        exact restoreFpu_state s.registers state
      obtain ⟨s', ran, gone, off⟩ := setReturn_ran (s := { s with lastFrame := frame }) base saved restored
        (show base ≤ frame by omega) fits
      have same (x : Nat) (beyond : frame + 20 ≤ x) : s'.frames x = s.frames x := off x (Or.inr beyond)
      refine ⟨s', by rw [returnFromException_frame known]; exact ran,
        ⟨gone.registers, gone.memory, gone.inBuffer, gone.sent, gone.busHandler, gone.lastFrame,
          gone.outside⟩, ⟨?_, ?_, ?_⟩, recorded⟩
      · have last : s'.lastFrame = load32 s.frames frame := gone.lastFrame
        rw [last]
        exact rest.congr fun x beyond => same x (by omega)
      · exact trapped.unused.congr fun x beyond _ => same x (by omega)
      · have last : s'.lastFrame = load32 s.frames frame := gone.lastFrame
        rw [last]
        rcases place with rfl | higher
        · exact room
        · omega

theorem fakeFrame_below (room : ¬ s.lastFrame - frameBytes - 2 * frameBytes < base) :
    fakeFrame base s = { s with
      frames := store32 s.frames (s.lastFrame - frameBytes) s.lastFrame
      lastFrame := s.lastFrame - frameBytes } := if_neg room

theorem fakeFrame_reset (full : s.lastFrame - frameBytes - 2 * frameBytes < base) :
    fakeFrame base s = { s with
      frames := store32 s.frames (topFrame base) (topFrame base)
      lastFrame := topFrame base } := by
  unfold fakeFrame
  dsimp only
  rw [if_pos full]
  unfold initializeRemcomErrorFrame
  dsimp only
  rw [store32_store32]
  rfl

/-- A frame that points to `last` is made up and used. -/
theorem made_up {frame last : Nat} (inside : base ≤ frame) (fits : frame ≤ topFrame base)
    (small : last < 4294967296) : ∃ s',
    { s with frames := store32 s.frames frame last, lastFrame := frame }.returnFromException 0 =
        .done (contextOf s.registers s.usp s.superStack Fpu.idle, s') ∧ Gone base s s' last ∧
      load32 s'.frames frame = last ∧ ∀ x, frame + 4 ≤ x → x < frame + 12 ∨ frame + 26 ≤ x →
        s'.frames x = s.frames x := by
  have top : topFrame base = base + 1970 := rfl
  obtain ⟨s', ran, gone, off⟩ := returnFromException_made
    (s := { s with frames := store32 s.frames frame last, lastFrame := frame }) base inside fits
  have stored : load32 (store32 s.frames frame last) frame = last := load32_store32 _ _ _ small
  have next : s'.lastFrame = last := gone.lastFrame.trans stored
  have off' (x : Nat) (outside : x < frame + 12 ∨ frame + 26 ≤ x) :
      s'.frames x = store32 s.frames frame last x := off x outside
  refine ⟨s', ran, ⟨gone.registers, gone.memory, gone.inBuffer, gone.sent, gone.busHandler, next, ?_⟩, ?_, ?_⟩
  · intro x outside
    rw [off' x (by omega), store32_off _ _ (by omega)]
  · rw [load32_congr fun x above below => off' x (by omega), stored]
  · intro x above outside
    rw [off' x outside, store32_off _ _ (by omega)]

/-- Without a frame of its own the program goes on from one that is made up, below the others or, when
there is no more room, at the top. -/
theorem Trapped.return_made (trapped : Trapped states base s) (placed : Placed base) : ∃ s' last,
    (fakeFrame base s).returnFromException 0 =
        .done (contextOf s.registers s.usp s.superStack Fpu.idle, s') ∧
      Gone base s s' last ∧ Stacked states base s' := by
  have above := placed.above
  have below := placed.below
  have all : frameStackBytes = 2000 := rfl
  have fits := trapped.linked.le
  have bytes : frameBytes = 26 := rfl
  have top : topFrame base = base + 1970 := rfl
  by_cases full : s.lastFrame - frameBytes - 2 * frameBytes < base
  · obtain ⟨s', ran, gone, own, same⟩ := made_up (s := s) (show base ≤ topFrame base by omega)
      (Nat.le_refl _) (show topFrame base < 4294967296 by omega)
    refine ⟨s', topFrame base, by rw [fakeFrame_reset full]; exact ran, gone, ?_, ?_, ?_⟩
    · rw [gone.lastFrame]
      exact Linked.top own
    · exact trapped.unused.congr fun x beyond within => same x beyond (Or.inl within)
    · rw [gone.lastFrame]
      omega
  · obtain ⟨s', ran, gone, own, same⟩ := made_up (s := s)
      (show base ≤ s.lastFrame - frameBytes by omega) (show s.lastFrame - frameBytes ≤ topFrame base by omega)
      (show s.lastFrame < 4294967296 by omega)
    have kept (x : Nat) (beyond : s.lastFrame ≤ x) : s'.frames x = s.frames x :=
      same x (by omega) (Or.inr (by omega))
    refine ⟨s', s.lastFrame, by rw [fakeFrame_below full]; exact ran, gone, ?_, ?_, ?_⟩
    · rw [gone.lastFrame]
      exact trapped.linked.congr kept
    · exact trapped.unused.congr fun x beyond _ => kept x (by omega)
    · rw [gone.lastFrame]
      omega

theorem withTrace_pc (registers : ByteMem) (stepping : Bool) :
    load32 (withTrace registers stepping) pc = load32 registers pc := by
  have apart : ps + 4 ≤ pc := by decide
  unfold withTrace
  cases stepping with
  | false => exact load32_store32_off _ _ (Or.inr apart)
  | true =>
      exact (load32_store32_off _ _ (Or.inr apart)).trans (load32_store32_off _ _ (Or.inr apart))

theorem resumeAt_found {newPC frame : Nat}
    (search : findFrame s.frames newPC (base + frameStackEnd - s.lastFrame) s.lastFrame = some frame) :
    s.resumeAt base newPC =
      .resume ((if frame = 0 then fakeFrame base s else s).returnFromException frame) := by
  unfold resumeAt
  rw [search]

/-- The program goes on with its registers, whichever frame is used; its own one comes off. -/
theorem Trapped.resumes (trapped : Trapped states base s) (placed : Placed base) {newPC : Nat}
    (somewhere : newPC ≠ 0) : ∃ s' last state,
    s.resumeAt base newPC = .resume (.done (contextOf s.registers s.usp s.superStack state, s')) ∧
      Gone base s s' last ∧ Stacked states base s' ∧ (state ∈ states ∨ state = Fpu.idle) ∧
      (load32 s.frames (s.lastFrame + 4) = newPC →
        last = load32 s.frames s.lastFrame ∧ state = stateOf s.frames s.lastFrame) := by
  have above := placed.above
  have inside := trapped.inside
  have bytes : frameBytes = 26 := rfl
  have top : topFrame base = base + 1970 := rfl
  have ends : frameStackEnd = 1996 := rfl
  have fits := trapped.linked.le
  have fuel : topFrame base - s.lastFrame < base + frameStackEnd - s.lastFrame := by omega
  obtain ⟨frame, search, which⟩ := findFrame_found trapped.linked newPC fuel
  have own (here : load32 s.frames (s.lastFrame + 4) = newPC) : frame = s.lastFrame := by
    rw [findFrame_own (Nat.zero_lt_of_lt fuel) here] at search
    exact (Option.some.inj search).symm
  rw [resumeAt_found search]
  by_cases known : frame = 0
  · obtain ⟨s', last, returned, gone, stacked⟩ := trapped.return_made placed
    rw [known, if_pos rfl, returned]
    refine ⟨s', last, Fpu.idle, rfl, gone, stacked, Or.inr rfl, fun here => ?_⟩
    have same := own here
    omega
  · rcases which with none | ⟨chain, place, reason⟩
    · exact absurd none known
    · have exception : frame ≠ topFrame base := fun same => by
        rw [same, trapped.unused.exceptionPC, trapped.unused.exceptionVector] at reason
        rcases reason with zero | thirtythree
        · exact somewhere zero.symm
        · exact absurd thirtythree (by decide)
      obtain ⟨s', returned, gone, stacked, recorded⟩ := trapped.return_found known chain place exception
      rw [if_neg known, returned]
      exact ⟨s', _, _, rfl, gone, stacked, Or.inl recorded, fun here => by rw [own here]; exact ⟨rfl, rfl⟩⟩

/-- A command that lets the program go on. -/
theorem Trapped.continues (trapped : Trapped states base s) (placed : Placed base) (stepping : Bool) {ptr : Nat}
    {text : List UInt8} (found : TextAt s.inBuffer ptr text) (nonzero : 0 ∉ text)
    (fits : ptr + text.length < bufmax) (somewhere : load32 (goingOn s.registers stepping text) pc ≠ 0) :
    ∃ s' last state, s.continueAt base stepping ptr =
        .resume (.done (contextOf (goingOn s.registers stepping text) s.usp s.superStack state, s')) ∧
      Gone base { s with registers := goingOn s.registers stepping text } s' last ∧ Stacked states base s' ∧
      (state ∈ states ∨ state = Fpu.idle) ∧
      (load32 s.frames (s.lastFrame + 4) = load32 (goingOn s.registers stepping text) pc →
        last = load32 s.frames s.lastFrame ∧ state = stateOf s.frames s.lastFrame) := by
  have going : Trapped states base { s with registers := goingOn s.registers stepping text } :=
    ⟨trapped.linked, trapped.unused, trapped.inside, trapped.room⟩
  obtain ⟨s', last, state, ran, gone, stacked, recorded, own⟩ := going.resumes placed somewhere
  refine ⟨s', last, state, ?_, gone, stacked, recorded, own⟩
  unfold continueAt
  rw [hexToInt_text found nonzero fits]
  dsimp only
  rw [goingOn, withTrace_pc] at ran
  exact ran

end Return

end TrollOS.Gdb
