import TrollOS.Gdb.Debugging

/-!
# Programs that go on

An exception saves the program in `registers`, and `s` and `c` take it up from there.  What the host
has not written to is as it was.
-/

namespace TrollOS.Gdb

open TrollOS.Lib ByteMem Stub

/-! ## The saved program -/

section Registers

theorem loadLongs_congr {m m' : ByteMem} {a n : Nat} (same : ∀ x, a ≤ x → x < a + 4 * n → m x = m' x) :
    loadLongs m a n = loadLongs m' a n := by
  apply congrArg Vector.ofFn
  funext i
  have within := i.isLt
  rw [load32_congr fun x above below => same x (by omega) (by omega)]

theorem loadLongs_saved (registers : ByteMem) (a : Nat) {n : Nat} (longs : Vector UInt32 n) :
    loadLongs (saveLongs registers a longs) a n = longs := by
  have row := WordSize.loadRow_storeRow registers a (toNat_map_small longs.toList)
  apply Vector.ext
  intro i within
  have word : (long.loadRow (saveLongs registers a longs) a n)[i]? = _ :=
    WordSize.loadRow_get (saveLongs registers a longs) a within
  have length : (longs.toList.map UInt32.toNat).length = n := by
    rw [List.length_map, Vector.length_toList]
  rw [length] at row
  change long.loadRow (saveLongs registers a longs) a n = _ at row
  rw [row, List.getElem?_map, Vector.getElem?_toList, Vector.getElem?_eq_getElem within] at word
  have stored : load32 (saveLongs registers a longs) (a + 4 * i) = (longs[i]).toNat :=
    (Option.some.inj word).symm
  unfold loadLongs
  rw [Vector.getElem_ofFn, stored, UInt32.ofNat_toNat]

theorem saveLongs_off (registers : ByteMem) {a x n : Nat} (longs : Vector UInt32 n)
    (off : x < a ∨ a + 4 * n ≤ x) : saveLongs registers a longs x = registers x := by
  apply WordSize.storeRow_off
  rw [List.length_map, Vector.length_toList]
  exact off

variable (registers : ByteMem) {e : Exception}

/-- What is not among the three registers in between is as the two rows have left it. -/
theorem saveRegisters_rows {x : Nat} (off : x < a7 ∨ fp0 ≤ x) : saveRegisters registers e x =
    saveLongs (saveLongs registers 0 e.context.general) fp0 e.context.fpu.moved x := by
  have bounds : a7 = 60 ∧ ps = 64 ∧ pc = 68 ∧ fp0 = 72 := ⟨rfl, rfl, rfl, rfl⟩
  unfold saveRegisters
  rw [store32_off _ _ (by omega), store32_off _ _ (by omega), store16_off _ _ (by omega)]

/-- Below `registers[A7]` there are the general registers. -/
theorem saveRegisters_general : loadLongs (saveRegisters registers e) 0 15 = e.context.general := by
  have bounds : a7 = 60 ∧ fp0 = 72 := ⟨rfl, rfl⟩
  have same (x : Nat) (_ : 0 ≤ x) (below : x < 0 + 4 * 15) :
      saveRegisters registers e x = saveLongs registers 0 e.context.general x := by
    rw [saveRegisters_rows registers (Or.inl (by omega)), saveLongs_off _ _ (Or.inl (by omega))]
  rw [loadLongs_congr same, loadLongs_saved]

theorem saveRegisters_float : loadLongs (saveRegisters registers e) fp0 27 = e.context.fpu.moved := by
  rw [loadLongs_congr fun x above _ => saveRegisters_rows registers (Or.inr above), loadLongs_saved]

theorem saveRegisters_pc : load32 (saveRegisters registers e) pc = e.context.pc.toNat := by
  have bounds : a7 = 60 ∧ ps = 64 ∧ pc = 68 := ⟨rfl, rfl, rfl⟩
  unfold saveRegisters
  dsimp only
  rw [load32_store32_off _ _ (by omega), load32_store32 _ _ _ e.context.pc.toNat_lt]

theorem saveRegisters_a7 : load32 (saveRegisters registers e) a7 =
    (if field e.context.sr.toNat 13 1 = 0 then e.context.usp else e.context.ssp).toNat :=
  load32_store32 _ _ _ (UInt32.toNat_lt _)

/-- The status register is the lower half of `registers[PS]`. -/
theorem saveRegisters_ps : load32 (saveRegisters registers e) ps % 65536 = e.context.sr.toNat := by
  have bounds : a7 = 60 ∧ ps = 64 ∧ pc = 68 := ⟨rfl, rfl, rfl⟩
  have small := load16_lt (saveRegisters registers e) (ps + 2)
  have stored : load16 (saveRegisters registers e) (ps + 2) = e.context.sr.toNat := by
    unfold saveRegisters
    dsimp only
    rw [load16_store32_off _ _ (by omega), load16_store32_off _ _ (by omega),
      load16_store16_small _ _ _ e.context.sr.toNat_lt]
  rw [load32_halves, stored]
  rw [stored] at small
  omega

/-- The supervisor bit. -/
theorem field_supervisor {w v : Nat} (same : w % 65536 = v % 65536) : field w 13 1 = field v 13 1 := by
  rw [← field_mod w (show 13 + 1 ≤ 16 by decide), ← field_mod v (show 13 + 1 ≤ 16 by decide)]
  exact congrArg (field · 13 1) same

/-- With its state the unit is what it was. -/
theorem fpuOf_saved (valid : e.context.fpu.Valid) :
    fpuOf (saveRegisters registers e) e.context.fpu.state = e.context.fpu := by
  unfold fpuOf
  rw [saveRegisters_float]
  by_cases unused : (e.context.fpu.state.headD 0).toNat / 16777216 = 0
  · rw [if_pos unused, ← valid.unused unused]
  · rw [if_neg unused]

/-- What an exception has saved is the whole program. -/
theorem contextOf_saved (valid : e.context.fpu.Valid) :
    contextOf (saveRegisters registers e) e.context.usp e.context.ssp e.context.fpu.state = e.context := by
  have status := saveRegisters_ps registers (e := e)
  have same : load32 (saveRegisters registers e) ps % 65536 = e.context.sr.toNat % 65536 := by
    rw [status, Nat.mod_eq_of_lt e.context.sr.toNat_lt]
  have sr : UInt16.ofNat (load32 (saveRegisters registers e) ps) = e.context.sr := by
    rw [← ofNat_low, status, UInt16.ofNat_toNat]
  unfold contextOf
  rw [saveRegisters_general, saveRegisters_pc, saveRegisters_a7, sr, field_supervisor same,
    fpuOf_saved registers valid, UInt32.ofNat_toNat, UInt32.ofNat_toNat]
  by_cases user : field e.context.sr.toNat 13 1 = 0
  · simp [user]
  · simp [user]

end Registers

/-! ## The commands that go on -/

section GoingOn

variable (registers : ByteMem) (usp ssp : UInt32) (state : List UInt32)

def Context.traced (stepping : Bool) (c : Context) : Context :=
  { c with sr := if stepping then c.sr % 32768 + 32768 else c.sr % 32768 }

/-- The trace bit, and the program counter if the host has given one. -/
def Context.goOn (stepping : Bool) (text : List UInt8) (c : Context) : Context :=
  { c.traced stepping with pc := if (digits text).length = 0 then c.pc else UInt32.ofNat (value text) }

/-- The unit does not depend on what is below its registers. -/
theorem fpuOf_store32 {a : Nat} (v : Nat) (below : a + 4 ≤ fp0) :
    fpuOf (store32 registers a v) state = fpuOf registers state := by
  unfold fpuOf
  rw [loadLongs_congr fun x above _ => store32_off registers v (by omega)]

theorem contextOf_pc (addr : Nat) : contextOf (store32 registers pc addr) usp ssp state =
    { contextOf registers usp ssp state with pc := UInt32.ofNat addr } := by
  have bounds : a7 = 60 ∧ ps = 64 ∧ pc = 68 ∧ fp0 = 72 := ⟨rfl, rfl, rfl, rfl⟩
  have counter : UInt32.ofNat (load32 (store32 registers pc addr) pc) = UInt32.ofNat addr := by
    rw [load32_store32_mod]
    apply UInt32.toNat_inj.1
    rw [UInt32.toNat_ofNat', UInt32.toNat_ofNat']
    exact Nat.mod_mod addr 4294967296
  unfold contextOf
  rw [loadLongs_congr fun x _ below => store32_off registers addr (by omega), counter,
    fpuOf_store32 registers state addr (by omega),
    load32_store32_off registers addr (show a7 + 4 ≤ pc ∨ pc + 4 ≤ a7 by omega),
    load32_store32_off registers addr (show ps + 4 ≤ pc ∨ pc + 4 ≤ ps by omega)]

/-- The stack pointers stay as long as the supervisor bit does. -/
theorem contextOf_ps {w : Nat} (small : w < 4294967296)
    (supervisor : field w 13 1 = field (load32 registers ps) 13 1) :
    contextOf (store32 registers ps w) usp ssp state =
      { contextOf registers usp ssp state with sr := UInt16.ofNat w } := by
  have bounds : a7 = 60 ∧ ps = 64 ∧ pc = 68 ∧ fp0 = 72 := ⟨rfl, rfl, rfl, rfl⟩
  unfold contextOf
  rw [loadLongs_congr fun x _ below => store32_off registers w (by omega),
    fpuOf_store32 registers state w (by omega),
    load32_store32 registers ps w small, supervisor,
    load32_store32_off registers w (show a7 + 4 ≤ ps ∨ ps + 4 ≤ a7 by omega),
    load32_store32_off registers w (show pc + 4 ≤ ps ∨ ps + 4 ≤ pc by omega)]

theorem withTrace_clear : withTrace registers false =
    store32 registers ps (load32 registers ps % 32768) := by
  unfold withTrace
  simp only [Bool.false_eq_true, if_false]

theorem withTrace_set : withTrace registers true =
    store32 registers ps (load32 registers ps % 32768 + 32768) := by
  have small : load32 registers ps % 32768 < 4294967296 := by omega
  have stored := load32_store32 registers ps _ small
  unfold withTrace
  dsimp only
  rw [if_pos rfl, stored, store32_store32]

/-- The trace bit is above the supervisor bit. -/
theorem contextOf_withTrace (stepping : Bool) : contextOf (withTrace registers stepping) usp ssp state =
    (contextOf registers usp ssp state).traced stepping := by
  have low : UInt16.ofNat (load32 registers ps % 32768) = UInt16.ofNat (load32 registers ps) % 32768 := by
    apply UInt16.toNat_inj.1
    rw [UInt16.toNat_ofNat', UInt16.toNat_mod, UInt16.toNat_ofNat']
    change _ % 65536 = _ % 65536 % 32768
    omega
  have below (w : Nat) (same : w % 32768 = load32 registers ps % 32768) :
      field w 13 1 = field (load32 registers ps) 13 1 := by
    rw [← field_mod w (show 13 + 1 ≤ 15 by decide), ← field_mod (load32 registers ps) (show 13 + 1 ≤ 15 by decide)]
    exact congrArg (field · 13 1) same
  cases stepping with
  | false =>
      rw [withTrace_clear, contextOf_ps registers usp ssp state (by omega) (below _ (Nat.mod_mod _ _)), low]
      rfl
  | true =>
      rw [withTrace_set, contextOf_ps registers usp ssp state (by omega) (below _ (by omega)), UInt16.ofNat_add,
        low]
      rfl

theorem contextOf_goingOn (stepping : Bool) (text : List UInt8) :
    contextOf (goingOn registers stepping text) usp ssp state =
      (contextOf registers usp ssp state).goOn stepping text := by
  have counter : contextOf (withPC registers (digits text).length (value text)) usp ssp state =
      { contextOf registers usp ssp state with
        pc := if (digits text).length = 0 then (contextOf registers usp ssp state).pc
          else UInt32.ofNat (value text) } := by
    unfold withPC
    by_cases none : (digits text).length = 0
    · rw [if_neg (not_not.2 none), if_pos none]
    · rw [if_pos none, if_neg none, contextOf_pc]
  unfold goingOn Context.goOn
  rw [contextOf_withTrace, counter]
  rfl

end GoingOn

/-! ## Whole visits -/

/-- The signal of an exception, as often as the host asks for it. -/
def Exception.signal (e : Exception) (refusals : List UInt8) : List UInt8 :=
  (List.replicate (refusals.length + 1) (frame ['S'.toUInt8, hexchars (computeSignal e.vector / 16),
    hexchars (computeSignal e.vector % 16)])).flatten

/-- The debugger when the host knows of an exception. -/
def Stub.signalled (s : Stub) (e : Exception) (refusals : List UInt8) : Stub :=
  ((s.catchException e).lastSignal (computeSignal e.vector)).said (e.signal refusals)

/-- What the host sends for an exception: bytes that ask for the signal again, questions, and a packet that
lets the program go on. -/
structure Visit where
  refusals : List UInt8
  queries : List Query
  noise : List UInt8
  stepping : Bool
  text : List UInt8

namespace Visit

def order (v : Visit) : List UInt8 := (if v.stepping then 's'.toUInt8 else 'c'.toUInt8) :: v.text

structure Sound (image : Image) (v : Visit) : Prop where
  refused : '+'.toUInt8 ∉ v.refusals
  queries : ∀ q ∈ v.queries, q.Sound image
  idle : '$'.toUInt8 ∉ v.noise
  plain : Plain v.order
  nonzero : 0 ∉ v.order
  unnumbered : v.order[2]? ≠ some ':'.toUInt8

def bytes (v : Visit) : List UInt8 :=
  v.refusals ++ '+'.toUInt8 :: (v.queries.flatMap Query.bytes ++ (v.noise ++ frame v.order))

variable (v : Visit) (present : Nat → Bool) (e : Exception) (t : Target)

/-- The answers, and what the questions leave behind. -/
def session : List (List UInt8) × Target :=
  Sessions.run (Target.react present (computeSignal e.vector)) ⟨saveRegisters t.registers e, t.memory⟩ v.queries

/-- The program as it goes on, with a state of the floating-point unit. -/
def resumed (state : List UInt32) : Context :=
  (contextOf (v.session present e t).2.registers e.context.usp e.context.ssp state).goOn v.stepping v.text

/-- The program counter does not depend on that. -/
theorem resumed_pc {state : List UInt32} (state' : List UInt32) {present : Nat → Bool} {e : Exception} {t : Target} :
    (v.resumed present e t state).pc = (v.resumed present e t state').pc := rfl

def left : Target :=
  ⟨goingOn (v.session present e t).2.registers v.stepping v.text, (v.session present e t).2.memory⟩

def echo : List UInt8 := e.signal v.refusals ++ (v.session present e t).1.flatten ++ ['+'.toUInt8]

end Visit

/-- The debugger between two visits. -/
structure Ready (states : Set (List UInt32)) (base : Nat) (s : Stub) : Prop where
  stacked : Stacked states base s
  unnumbered : s.inBuffer 2 ≠ ':'.toUInt8

section Visits

variable {states : Set (List UInt32)} {image : Image} {s : Stub} {present : Nat → Bool}

theorem dispatch_order (image : Image) (present : Nat → Bool) (sigval : Nat) {v : Visit}
    (letter : s.inBuffer 0 = if v.stepping then 's'.toUInt8 else 'c'.toUInt8) :
    s.dispatch image present sigval 0 = s.cleared.continueAt image.base v.stepping 1 := by
  have here : s.cleared.inBuffer 0 = if v.stepping then 's'.toUInt8 else 'c'.toUInt8 := letter
  unfold dispatch
  dsimp only
  rw [here]
  cases v.stepping with
  | false => rfl
  | true => rfl

variable (present) in
/-- The last packet of a visit. -/
theorem Trapped.ordered (trapped : Trapped states image.base s) (placed : Placed image.base) {v : Visit}
    (sound : v.Sound image) (sigval fuel : Nat) (unnumbered : s.inBuffer 2 ≠ ':'.toUInt8) (rest : List UInt8)
    (somewhere : ((contextOf s.registers s.usp s.superStack []).goOn v.stepping v.text).pc ≠ 0) : ∃ s' state,
    serve image present sigval (fuel + 1) s (v.noise ++ frame v.order ++ rest) =
        .done ((contextOf s.registers s.usp s.superStack state).goOn v.stepping v.text, s', rest) ∧
      s'.target = ⟨goingOn s.registers v.stepping v.text, s.memory⟩ ∧
      s'.sent = s.sent ++ ['+'.toUInt8] ∧ Ready states image.base s' ∧
      (state ∈ states ∨ state = Fpu.idle) ∧
      (((contextOf s.registers s.usp s.superStack []).goOn v.stepping v.text).pc =
        UInt32.ofNat (load32 s.frames (s.lastFrame + 4)) →
          s'.lastFrame = load32 s.frames s.lastFrame ∧ state = stateOf s.frames s.lastFrame) := by
  obtain ⟨buffer, got, stored, clear⟩ := getIn_frame sound.idle sound.plain sound.unnumbered unnumbered rest
  have found : TextAt (s.heard buffer).inBuffer 0 v.order := stored.text
  have listening : Trapped states image.base (s.heard buffer).cleared := trapped.of_same rfl rfl
  have short := sound.plain.short
  have fits : 1 + v.text.length < bufmax := by
    rw [Visit.order, List.length_cons] at short
    omega
  have nonzero : 0 ∉ v.text := fun member => sound.nonzero (List.mem_cons_of_mem _ member)
  have counter := congrArg Context.pc (contextOf_goingOn s.registers s.usp s.superStack [] v.stepping v.text)
  have somewhere' : load32 (goingOn s.registers v.stepping v.text) pc ≠ 0 := fun zero => by
    rw [← counter] at somewhere
    exact somewhere (congrArg UInt32.ofNat zero)
  obtain ⟨s', last, state, ran, gone, stacked, recorded, own⟩ :=
    listening.continues placed v.stepping found.2 nonzero fits somewhere'
  have going : contextOf (goingOn (s.heard buffer).cleared.registers v.stepping v.text)
      (s.heard buffer).cleared.usp (s.heard buffer).cleared.superStack state =
        (contextOf s.registers s.usp s.superStack state).goOn v.stepping v.text :=
    contextOf_goingOn s.registers s.usp s.superStack state v.stepping v.text
  rw [going] at ran
  refine ⟨s', state, ?_, ?_, gone.sent, ⟨stacked, ?_⟩, recorded, fun here => ?_⟩
  · rw [serve, got, Served.andThen_done]
    dsimp only
    rw [dispatch_order image present sigval found.char, ran]
    rfl
  · unfold target
    rw [gone.registers, gone.memory]
    rfl
  · rw [gone.inBuffer]
    exact clear
  · rw [gone.lastFrame]
    apply own
    rw [← counter] at here
    have same : (UInt32.ofNat (load32 (goingOn s.registers v.stepping v.text) pc)).toNat =
        (UInt32.ofNat (load32 s.frames (s.lastFrame + 4))).toNat := congrArg UInt32.toNat here
    rw [UInt32.toNat_ofNat', UInt32.toNat_ofNat', Nat.mod_eq_of_lt (load32_lt _ _),
      Nat.mod_eq_of_lt (load32_lt _ _)] at same
    exact same.symm

/-- Each packet has some byte. -/
theorem queries_length (queries : List Query) : queries.length ≤ (queries.flatMap Query.bytes).length := by
  induction queries with
  | nil => exact Nat.le_refl 0
  | cons q queries ih =>
      rw [List.flatMap_cons, List.length_append, List.length_cons]
      have some' : 0 < q.bytes.length := List.length_pos_iff.2 (by simp [Query.bytes])
      omega

/-- An exception, the signal and questions, up to a packet that may be the last. -/
theorem Ready.asks {base : Nat} (ready : Ready states base s) (present : Nat → Bool) {e : Exception} (valid : e.Valid)
    {refusals : List UInt8} (refused : '+'.toUInt8 ∉ refusals) {queries : List Query}
    (sound : ∀ q ∈ queries, q.Sound image) {rest : List UInt8} (more : rest ≠ []) : ∃ k asked,
    handleException image present s e (refusals ++ '+'.toUInt8 :: (queries.flatMap Query.bytes ++ rest)) =
        serve image present (computeSignal e.vector) (k + 1) asked rest ∧
      (s.signalled e refusals).Answered asked
        (Sessions.run (Target.react present (computeSignal e.vector)) (s.catchException e).target queries).1.flatten
        (Sessions.run (Target.react present (computeSignal e.vector)) (s.catchException e).target queries).2 := by
  obtain ⟨nonzero, short⟩ := answer_text present e.vector (s.catchException e).target
    (show Command.lastSignal.Fits image from True.intro)
  have size : exceptionSize.getD e.format 0 ≠ 0 := by
    rw [valid.size]
    exact Nat.succ_ne_zero _
  have put := putOut_text (s := (s.catchException e).lastSignal (computeSignal e.vector))
    (strcpyOut_text _ _) nonzero short refused (queries.flatMap Query.bytes ++ rest)
  have bytes := queries_length queries
  have some' := List.length_pos_iff.2 more
  obtain ⟨k, enough⟩ : ∃ k, (queries.flatMap Query.bytes ++ rest).length = k + 1 + queries.length := by
    rw [List.length_append]
    exact ⟨(queries.flatMap Query.bytes).length + rest.length - 1 - queries.length, by omega⟩
  obtain ⟨asked, ran, answered⟩ := serve_session present (s := s.signalled e refusals)
    e.vector (k + 1) sound ready.unnumbered rest
  refine ⟨k, asked, ?_, answered⟩
  unfold handleException
  rw [if_neg size]
  dsimp only
  rw [put, Served.andThen_done]
  dsimp only
  rw [enough]
  exact ran

variable (present) in
/-- The program comes back as the host has left it, and the debugger is ready for the next exception.  The
state of the floating-point unit is that of the frame it goes on from. -/
theorem Ready.visit (ready : Ready states image.base s) (placed : Placed image.base) {e : Exception}
    (within : e.Within states) {v : Visit} (sound : v.Sound image) (rest : List UInt8)
    (somewhere : (v.resumed present e s.target []).pc ≠ 0) : ∃ s' state,
    handleException image present s e (v.bytes ++ rest) =
        .done (v.resumed present e s.target state, s', rest) ∧
      s'.target = v.left present e s.target ∧ s'.sent = s.sent ++ v.echo present e s.target ∧
      Ready states image.base s' ∧ (state ∈ states ∨ state = Fpu.idle) ∧
      ((v.resumed present e s.target []).pc = e.context.pc →
        s'.lastFrame = s.lastFrame ∧ state = e.context.fpu.state) := by
  have valid := within.toValid
  have trapped := ready.stacked.trap placed within
  have top : topFrame image.base = image.base + 1970 := rfl
  have all : frameStackBytes = 2000 := rfl
  have fits := ready.stacked.linked.le
  have below := placed.below
  obtain ⟨previous, exceptionPC, -, unit⟩ := catchException_frame (s := s) valid (by omega)
  have split : v.bytes ++ rest = v.refusals ++ '+'.toUInt8 ::
      (v.queries.flatMap Query.bytes ++ (v.noise ++ frame v.order ++ rest)) := by
    simp only [Visit.bytes, List.append_assoc, List.cons_append]
  obtain ⟨k, asked, ran, answered⟩ := ready.asks present valid sound.refused sound.queries
    (show v.noise ++ frame v.order ++ rest ≠ [] by simp [frame])
  have frames : asked.frames = (s.catchException e).frames := answered.held.frames
  have lastFrame : asked.lastFrame = frameOf s e :=
    answered.held.lastFrame.trans (catchException_lastFrame valid)
  have left : asked.target = (v.session present e s.target).2 := answered.target
  have waiting : Trapped states image.base asked :=
    trapped.of_same frames (lastFrame.trans (catchException_lastFrame valid).symm)
  have program (state : List UInt32) : contextOf asked.registers asked.usp asked.superStack state =
      contextOf (v.session present e s.target).2.registers e.context.usp e.context.ssp state := by
    rw [answered.held.usp, answered.held.superStack, ← left]
    rfl
  unfold Visit.resumed at somewhere ⊢
  rw [← program] at somewhere ⊢
  obtain ⟨s', state, back, stays, sent, again, recorded, own⟩ := waiting.ordered present placed sound
    (computeSignal e.vector) k answered.unnumbered rest somewhere
  refine ⟨s', state, ?_, ?_, ?_, again, recorded, fun here => ?_⟩
  · rw [split, ← program]
    exact ran.trans back
  · unfold Visit.left
    rw [stays, ← left]
    rfl
  · rw [sent, answered.sent]
    change s.sent ++ _ ++ _ ++ _ = _
    unfold Visit.echo Visit.session
    simp only [List.append_assoc]
    rfl
  · rw [frames, lastFrame, previous, exceptionPC, unit, UInt32.ofNat_toNat] at own
    exact own here

/-- A command that does not write. -/
def Command.Looks : Command → Prop
  | .writeRegisters _ | .write _ _ _ => False
  | _ => True

theorem Command.Looks.answer {command : Command} (looks : command.Looks) (sigval : Nat) (t : Target) :
    (t.answer present sigval command).2 = t := by
  cases command with
  | lastSignal => rfl
  | readRegisters => rfl
  | writeRegisters text => exact absurd looks id
  | read addr count =>
      cases found : gather (t.peek present) count addr with
      | none => rw [answer_missing sigval found]
      | some bytes => rw [answer_read sigval found]
  | write addr count text => exact absurd looks id
  | malformed writes => rfl
  | resume stepping text => rfl
  | other => rfl

variable (present) in
/-- A program that the host only looks at goes on as if nothing had happened, but for the trace bit:
with its registers, its memory and the stack of frames that it had before. -/
theorem Ready.unnoticed (ready : Ready states image.base s) (placed : Placed image.base) {e : Exception}
    (within : e.Within states) {v : Visit} (sound : v.Sound image)
    (looks : ∀ q ∈ v.queries, (Command.parse q.payload).Looks)
    (here : (digits v.text).length = 0) (somewhere : e.context.pc ≠ 0) (rest : List UInt8) : ∃ s',
    handleException image present s e (v.bytes ++ rest) = .done (e.context.traced v.stepping, s', rest) ∧
      s'.memory = s.memory ∧ s'.lastFrame = s.lastFrame ∧ Ready states image.base s' := by
  have same : (v.session present e s.target).2 = ⟨saveRegisters s.registers e, s.memory⟩ :=
    Sessions.run_fixed fun q member => (looks q member).answer _ _
  have program : v.resumed present e s.target e.context.fpu.state = e.context.traced v.stepping := by
    unfold Visit.resumed
    rw [same]
    dsimp only
    rw [contextOf_saved s.registers within.fpu, Context.goOn, if_pos here]
    rfl
  have counter : (v.resumed present e s.target []).pc = e.context.pc := by
    have whole := congrArg Context.pc program
    exact whole
  obtain ⟨s', state, went, target, -, again, -, own⟩ := ready.visit present placed within sound rest (by
    rw [counter]
    exact somewhere)
  obtain ⟨last, unit⟩ := own counter
  rw [unit, program] at went
  have memory : s'.memory = (v.session present e s.target).2.memory := congrArg Target.memory target
  rw [same] at memory
  exact ⟨s', went, memory, last, again⟩

/-- `gdbFrameStack` at 8192, and the other variables from 12288 on. -/
def lowImage : Image := ⟨8192, fun a => decide (12288 ≤ a ∧ a < 28672)⟩

theorem initialize_ready (states : Set (List UInt32)) :
    Ready states lowImage.base (initializeRemcomErrorFrame lowImage.base cleanStart) :=
  ⟨(initialize_stacked states ⟨by decide, by decide⟩ fun _ _ _ => rfl).stacked, by decide⟩

end Visits

end TrollOS.Gdb
