import TrollOS.Console.Model

/-!
# One backend for another

The console knows its screen only through the calls of `ConsoleBackend`.  What one backend does like
another, call by call, the console over it does like the console over the other.
-/

namespace TrollOS.Console

/-- The calls of a backend that change the screen. -/
inductive Call where
  | putc (c : Int) (fg bg : Nat)
  | setCursor (x y : Nat)
  | clearLines (dir : ClearDirection)
  | clearOnLine (dir : ClearDirection)
  | scrollUp (lines : Nat)
  | scrollDown (lines : Nat)
  deriving DecidableEq, Repr

variable {β γ : Type}

def Backend.call (ops : Backend β) (screen : β) : Call → β
  | .putc c fg bg => ops.putc screen c fg bg
  | .setCursor x y => ops.setCursor screen x y
  | .clearLines dir => ops.clearLines screen dir
  | .clearOnLine dir => ops.clearOnLine screen dir
  | .scrollUp lines => ops.scrollUp screen lines
  | .scrollDown lines => ops.scrollDown screen lines

/-- A backend does what another one says, as long as that has a result. -/
structure Refines (ops : Backend β) (ops' : Backend (Option γ)) (R : β → γ → Prop) : Prop where
  call : ∀ {b g g'} (k : Call), R b g → ops'.call (some g) k = some g' → R (ops.call b k) g'
  cursor : ∀ {b g}, R b g → ops.getCursor b = ops'.getCursor (some g)
  stuck : ∀ k, ops'.call none k = none

namespace State

/-- The same console over another screen. -/
def onScreen (t : State γ) (b : β) : State β :=
  ⟨t.parser, b, t.bold, t.colorFg, t.colorBg, t.savedX, t.savedY, t.trace⟩

def called (ops : Backend β) (s : State β) (k : Call) : State β :=
  { s with backend := ops.call s.backend k }

section OnScreen

variable (t : State γ) (b : β)

theorem readArg_onScreen (index : Int) :
    (t.onScreen b).readArg index = (t.readArg index).map fun read => (read.1, read.2.onScreen b) := by
  unfold readArg
  rw [Option.map_map]
  rfl

theorem delta_onScreen (argc : Int) :
    (t.onScreen b).delta argc = (t.delta argc).map fun read => (read.1, read.2.onScreen b) := by
  unfold delta
  split
  · rw [readArg_onScreen, Option.map_map, Option.map_map]
    rfl
  · rfl

theorem direction_onScreen (argc : Int) :
    (t.onScreen b).direction argc = (t.direction argc).map fun read => (read.1, read.2.onScreen b) := by
  unfold direction
  split
  · rfl
  · rw [readArg_onScreen, Option.map_map, Option.map_map]
    rfl

theorem setAttribute_onScreen (value : Int) :
    (t.onScreen b).setAttribute value = (t.setAttribute value).onScreen b := by
  unfold setAttribute
  split_ifs <;> rfl

theorem attributeLoop_onScreen (indices : List Nat) :
    (t.onScreen b).attributeLoop indices = (t.attributeLoop indices).map fun s => s.onScreen b := by
  induction indices generalizing t with
  | nil => rfl
  | cons i rest ih =>
      unfold attributeLoop
      rw [readArg_onScreen]
      cases t.readArg i with
      | none => rfl
      | some read =>
          change ((read.2.onScreen b).setAttribute read.1).attributeLoop rest = _
          rw [setAttribute_onScreen, ih]
          rfl

theorem finishParameter_onScreen (value : Int) :
    (t.onScreen b).finishParameter value = (t.finishParameter value).map fun s => s.onScreen b := by
  unfold finishParameter
  rw [Option.map_map]
  rfl

end OnScreen

section Screens

variable {t t' : State γ}

theorem readArg_screen {index value : Int} (read : t.readArg index = some (value, t')) :
    t'.backend = t.backend := by
  obtain ⟨found, -, same⟩ := Option.map_eq_some_iff.mp read
  obtain ⟨-, rfl⟩ := Prod.mk.inj same
  rfl

theorem delta_screen {argc value : Int} (read : t.delta argc = some (value, t')) :
    t'.backend = t.backend := by
  unfold delta at read
  split at read
  · obtain ⟨⟨found, middle⟩, first, same⟩ := Option.map_eq_some_iff.mp read
    obtain ⟨-, rfl⟩ := Prod.mk.inj same
    exact readArg_screen first
  · obtain ⟨-, rfl⟩ := Prod.mk.inj (Option.some.inj read)
    rfl

theorem direction_screen {argc : Int} {dir : ClearDirection} (read : t.direction argc = some (dir, t')) :
    t'.backend = t.backend := by
  unfold direction at read
  split at read
  · obtain ⟨-, rfl⟩ := Prod.mk.inj (Option.some.inj read)
    rfl
  · obtain ⟨⟨found, middle⟩, first, same⟩ := Option.map_eq_some_iff.mp read
    obtain ⟨-, rfl⟩ := Prod.mk.inj same
    exact readArg_screen first

theorem setAttribute_screen (t : State γ) (value : Int) : (t.setAttribute value).backend = t.backend := by
  unfold setAttribute
  split_ifs <;> rfl

theorem attributeLoop_screen {indices : List Nat} (ran : t.attributeLoop indices = some t') :
    t'.backend = t.backend := by
  induction indices generalizing t with
  | nil =>
      obtain rfl := Option.some.inj ran
      rfl
  | cons i rest ih =>
      obtain ⟨⟨value, middle⟩, read, later⟩ := Option.bind_eq_some_iff.mp ran
      rw [ih later, setAttribute_screen]
      exact readArg_screen read

theorem finishParameter_screen {value : Int} (ran : t.finishParameter value = some t') :
    t'.backend = t.backend := by
  obtain ⟨p, -, rfl⟩ := Option.map_eq_some_iff.mp ran
  rfl

end Screens

/-! ## The same steps -/

structure Alike (R : β → γ → Prop) (s : State β) (t : State (Option γ)) : Prop where
  screens : ∃ b g, t.backend = some g ∧ R b g ∧ s = t.onScreen b

/-- What one console does, if the screen of the other one is still there then. -/
def Mirrors (R : β → γ → Prop) (left : Option (State β)) (right : Option (State (Option γ))) : Prop :=
  ∀ t', right = some t' → t'.backend = none ∨ ∃ s', left = some s' ∧ Alike R s' t'

section Steps

variable {ops : Backend β} {ops' : Backend (Option γ)} {R : β → γ → Prop} {s : State β} {t t' : State (Option γ)}

theorem Alike.mirrors (alike : Alike R s t) : Mirrors R (some s) (some t) := by
  intro t' same
  cases same
  exact Or.inr ⟨s, rfl, alike⟩

theorem Alike.cursor (alike : Alike R s t) (refines : Refines ops ops' R) :
    ops.getCursor s.backend = ops'.getCursor t.backend := by
  obtain ⟨b, g, shows, related, rfl⟩ := alike.screens
  rw [shows]
  exact refines.cursor related

theorem Alike.called (alike : Alike R s t) (refines : Refines ops ops' R) (k : Call) :
    (t.called ops' k).backend = none ∨ Alike R (s.called ops k) (t.called ops' k) := by
  obtain ⟨b, g, shows, related, rfl⟩ := alike.screens
  have same : (t.called ops' k).backend = ops'.call (some g) k := congrArg (ops'.call · k) shows
  cases next : ops'.call (some g) k with
  | none => exact Or.inl (same.trans next)
  | some g' => exact Or.inr ⟨ops.call b k, g', same.trans next, refines.call k related next, rfl⟩

theorem Alike.called_mirrors (alike : Alike R s t) (refines : Refines ops ops' R) (k : Call) :
    Mirrors R (some (s.called ops k)) (some (t.called ops' k)) := by
  intro t' same
  cases same
  exact (alike.called refines k).imp id fun alike => ⟨_, rfl, alike⟩

/-- A step that does not touch the screen. -/
theorem Alike.onward (alike : Alike R s t) {left : Option (State β)} {right : Option (State (Option γ))}
    (same : ∀ b, s = t.onScreen b → left = right.map fun t' => t'.onScreen b)
    (keeps : ∀ t', right = some t' → t'.backend = t.backend) : Mirrors R left right := by
  obtain ⟨b, g, shows, related, over'⟩ := alike.screens
  intro t' ran
  refine Or.inr ⟨t'.onScreen b, ?_, b, g, (keeps t' ran).trans shows, related, rfl⟩
  rw [same b over', ran]
  rfl

/-- A reading step, and what follows it. -/
theorem Alike.reading {α : Type} (alike : Alike R s t) {left : Option (α × State β)}
    {right : Option (α × State (Option γ))}
    (same : ∀ b, s = t.onScreen b → left = right.map fun r => (r.1, r.2.onScreen b))
    (keeps : ∀ value t', right = some (value, t') → t'.backend = t.backend)
    {next : α × State (Option γ) → Option (State (Option γ))} {next' : α × State β → Option (State β)}
    (after : ∀ value s t, Alike R s t → Mirrors R (next' (value, s)) (next (value, t))) :
    Mirrors R (left.bind next') (right.bind next) := by
  obtain ⟨b, g, shows, related, over'⟩ := alike.screens
  cases ran : right with
  | none =>
      intro t' some'
      cases some'
  | some r =>
      rw [same b over', ran]
      exact after r.1 (r.2.onScreen b) r.2 ⟨b, g, (keeps r.1 r.2 ran).trans shows, related, rfl⟩

theorem map_eq_bind {α δ : Type} (call : Option α) (f : α → δ) : call.map f = call.bind fun a => some (f a) := by
  cases call with
  | none => rfl
  | some a => rfl

theorem lost_called (refines : Refines ops ops' R) (lost : t.backend = none) (k : Call) :
    (t.called ops' k).backend = none := by
  unfold called
  rw [lost]
  exact refines.stuck k

/-- The cursor is put where the arguments say. -/
theorem position_mirrors (alike : Alike R s t) (refines : Refines ops ops' R) (argc : Int) (x y : Int) :
    Mirrors R
      (if argc = 1 then some (s.setCursor ops x y)
        else (s.readArg 1).map fun (value, s) => s.setCursor ops (if 0 < value then value - 1 else 0) y)
      (if argc = 1 then some (t.setCursor ops' x y)
        else (t.readArg 1).map fun (value, t) => t.setCursor ops' (if 0 < value then value - 1 else 0) y) := by
  split_ifs
  · exact alike.called_mirrors refines (.setCursor _ _)
  · rw [map_eq_bind, map_eq_bind]
    refine alike.reading (fun b same => same ▸ t.readArg_onScreen b 1) (fun _ _ ran => readArg_screen ran) ?_
    intro value s t alike
    exact alike.called_mirrors refines (.setCursor _ _)

theorem position_lost (refines : Refines ops ops' R) (lost : t.backend = none) {argc x y : Int}
    (ran : (if argc = 1 then some (t.setCursor ops' x y)
        else (t.readArg 1).map fun (value, t) => t.setCursor ops' (if 0 < value then value - 1 else 0) y) =
      some t') : t'.backend = none := by
  split_ifs at ran
  · cases ran
    exact lost_called refines lost (.setCursor _ _)
  · obtain ⟨⟨value, middle⟩, read, rfl⟩ := Option.map_eq_some_iff.mp ran
    exact lost_called refines ((readArg_screen read).trans lost) (.setCursor _ _)

theorem command_mirrors (alike : Alike R s t) (refines : Refines ops ops' R) (cmd : Command) (argc delta : Int) :
    Mirrors R (s.command ops cmd argc delta) (t.command ops' cmd argc delta) := by
  have cursor := alike.cursor refines
  unfold command
  dsimp only
  rw [cursor]
  cases cmd with
  | up | left =>
      dsimp only
      split_ifs
      · exact alike.mirrors
      · exact alike.called_mirrors refines (.setCursor _ _)
  | down | right | nextLine | previousLine | column => exact alike.called_mirrors refines (.setCursor _ _)
  | scrollUp => exact alike.called_mirrors refines (.scrollUp _)
  | scrollDown => exact alike.called_mirrors refines (.scrollDown _)
  | restore =>
      have called := alike.called_mirrors refines (.setCursor (unsigned t.savedX) (unsigned t.savedY))
      obtain ⟨b, g, shows, related, rfl⟩ := alike.screens
      exact called
  | save =>
      obtain ⟨b, g, shows, related, rfl⟩ := alike.screens
      exact Alike.mirrors ⟨b, g, shows, related, rfl⟩
  | other => exact alike.mirrors
  | eraseLines =>
      dsimp only
      rw [map_eq_bind, map_eq_bind]
      refine alike.reading (fun b same => same ▸ t.direction_onScreen b argc) (fun _ _ ran => direction_screen ran) ?_
      intro dir s t alike
      exact alike.called_mirrors refines (.clearLines dir)
  | eraseOnLine =>
      dsimp only
      rw [map_eq_bind, map_eq_bind]
      refine alike.reading (fun b same => same ▸ t.direction_onScreen b argc) (fun _ _ ran => direction_screen ran) ?_
      intro dir s t alike
      exact alike.called_mirrors refines (.clearOnLine dir)
  | attributes =>
      dsimp only
      split_ifs
      · obtain ⟨b, g, shows, related, rfl⟩ := alike.screens
        exact Alike.mirrors ⟨b, g, shows, related, rfl⟩
      · exact alike.onward (fun b same => same ▸ t.attributeLoop_onScreen b _) fun _ ran => attributeLoop_screen ran
  | position =>
      dsimp only
      by_cases home : argc = 0
      · rw [if_pos home, if_pos home]
        rcases alike.called refines (.setCursor (unsigned 1) (unsigned 1)) with lost | moved
        · exact fun t' ran => Or.inl (position_lost refines lost ran)
        · exact position_mirrors moved refines argc _ _
      · rw [if_neg home, if_neg home]
        exact position_mirrors alike refines argc _ _

/-- A screen that has been lost does not come back. -/
theorem command_lost (refines : Refines ops ops' R) (lost : t.backend = none) {cmd : Command} {argc delta : Int}
    (ran : t.command ops' cmd argc delta = some t') : t'.backend = none := by
  unfold command at ran
  dsimp only at ran
  cases cmd with
  | up | left =>
      cases ran
      split_ifs
      · exact lost
      · exact lost_called refines lost (.setCursor _ _)
  | down | right | nextLine | previousLine | column | restore =>
      cases ran
      exact lost_called refines lost (.setCursor _ _)
  | scrollUp =>
      cases ran
      exact lost_called refines lost (.scrollUp _)
  | scrollDown =>
      cases ran
      exact lost_called refines lost (.scrollDown _)
  | save | other =>
      cases ran
      exact lost
  | eraseLines =>
      obtain ⟨⟨dir, middle⟩, read, rfl⟩ := Option.map_eq_some_iff.mp ran
      exact lost_called refines ((direction_screen read).trans lost) (.clearLines dir)
  | eraseOnLine =>
      obtain ⟨⟨dir, middle⟩, read, rfl⟩ := Option.map_eq_some_iff.mp ran
      exact lost_called refines ((direction_screen read).trans lost) (.clearOnLine dir)
  | attributes =>
      dsimp only at ran
      split_ifs at ran
      · cases ran
        exact lost
      · exact (attributeLoop_screen ran).trans lost
  | position =>
      dsimp only at ran
      by_cases home : argc = 0
      · rw [if_pos home] at ran
        exact position_lost refines (lost_called refines lost (.setCursor (unsigned 1) (unsigned 1))) ran
      · rw [if_neg home] at ran
        exact position_lost refines lost ran

theorem csi_mirrors (alike : Alike R s t) (refines : Refines ops ops' R) (cmd argc : Int) :
    Mirrors R (s.csi ops cmd argc) (t.csi ops' cmd argc) := by
  unfold csi
  refine alike.reading (fun b same => same ▸ t.delta_onScreen b argc) (fun _ _ ran => delta_screen ran) ?_
  intro delta s t alike
  exact command_mirrors alike refines _ argc delta

theorem csi_lost (refines : Refines ops ops' R) (lost : t.backend = none) {cmd argc : Int}
    (ran : t.csi ops' cmd argc = some t') : t'.backend = none := by
  obtain ⟨⟨delta, middle⟩, read, ran⟩ := Option.bind_eq_some_iff.mp ran
  exact command_lost refines ((delta_screen read).trans lost) ran

theorem Alike.setState (alike : Alike R s t) (state : ParseState) : Alike R (s.setState state) (t.setState state) := by
  obtain ⟨b, g, shows, related, rfl⟩ := alike.screens
  exact ⟨b, g, shows, related, rfl⟩

theorem Alike.parser (alike : Alike R s t) : s.parser = t.parser := by
  obtain ⟨b, g, shows, related, rfl⟩ := alike.screens
  rfl

theorem Alike.finishParameter (alike : Alike R s t) (value : Int) :
    Mirrors R (s.finishParameter value) (t.finishParameter value) :=
  alike.onward (fun b same => same ▸ t.finishParameter_onScreen b value) fun _ ran => finishParameter_screen ran

def handed (s : State β) (c : Int) : State β :=
  { s.setState .ascii with trace := (s.setState .ascii).trace ++ [.dispatch c (s.setState .ascii).parser.args] }

theorem finishSequence_eq (ops : Backend β) (s : State β) (value c : Int) : s.finishSequence ops value c =
    (s.finishParameter value).bind fun s => (s.handed c).csi ops c s.parser.argc := rfl

theorem finishSequence_mirrors (alike : Alike R s t) (refines : Refines ops ops' R) (value c : Int) :
    Mirrors R (s.finishSequence ops value c) (t.finishSequence ops' value c) := by
  rw [finishSequence_eq, finishSequence_eq]
  intro t' ran
  obtain ⟨t₁, first, ran⟩ := Option.bind_eq_some_iff.mp ran
  rcases alike.finishParameter value t₁ first with lost | ⟨s₁, first', alike₁⟩
  · have lost' : (t₁.handed c).backend = none := lost
    exact Or.inl (csi_lost refines lost' ran)
  · have counted : s₁.parser.argc = t₁.parser.argc := congrArg Parser.argc alike₁.parser
    have handed : Alike R (s₁.handed c) (t₁.handed c) := by
      obtain ⟨b, g, shows, related, rfl⟩ := alike₁.screens
      exact ⟨b, g, shows, related, rfl⟩
    rw [first', Option.bind_some, counted]
    exact csi_mirrors handed refines c t₁.parser.argc t' ran

theorem finishSequence_lost (refines : Refines ops ops' R) (lost : t.backend = none) {value c : Int}
    (ran : t.finishSequence ops' value c = some t') : t'.backend = none := by
  rw [finishSequence_eq] at ran
  obtain ⟨t₁, first, ran⟩ := Option.bind_eq_some_iff.mp ran
  have lost' : (t₁.handed c).backend = none := (finishParameter_screen first).trans lost
  exact csi_lost refines lost' ran

theorem argByte_mirrors (alike : Alike R s t) (refines : Refines ops ops' R) (c : Int) :
    Mirrors R (s.argByte ops c) (t.argByte ops' c) := by
  have same := alike.parser
  unfold argByte
  rw [same]
  split_ifs with semicolon digit
  · intro t' ran
    obtain ⟨t₁, first, rfl⟩ := Option.map_eq_some_iff.mp ran
    rcases alike.finishParameter _ t₁ first with lost | ⟨s₁, first', alike₁⟩
    · exact Or.inl lost
    · refine Or.inr ⟨s₁.setState .csi, ?_, alike₁.setState .csi⟩
      rw [first']
      rfl
  · obtain ⟨b, g, shows, related, rfl⟩ := alike.screens
    exact Alike.mirrors ⟨b, g, shows, related, rfl⟩
  · exact finishSequence_mirrors alike refines _ c

theorem argByte_lost (refines : Refines ops ops' R) (lost : t.backend = none) {c : Int}
    (ran : t.argByte ops' c = some t') : t'.backend = none := by
  unfold argByte at ran
  split_ifs at ran with semicolon digit
  · obtain ⟨t₁, first, rfl⟩ := Option.map_eq_some_iff.mp ran
    exact (finishParameter_screen first).trans lost
  · cases ran
    exact lost
  · exact finishSequence_lost refines lost ran

theorem writeByte_mirrors (alike : Alike R s t) (refines : Refines ops ops' R) (byte : UInt8) :
    Mirrors R (s.writeByte ops byte) (t.writeByte ops' byte) := by
  have same := alike.parser
  unfold writeByte
  dsimp only
  rw [same]
  cases t.parser.state with
  | ascii =>
      dsimp only
      by_cases escape : toChar byte = 27
      · rw [if_pos escape, if_pos escape]
        exact (alike.setState .esc).mirrors
      · rw [if_neg escape, if_neg escape]
        have called := alike.called_mirrors refines
          (.putc (toChar byte) (t.colorFg + if t.bold then 8 else 0) t.colorBg)
        obtain ⟨b, g, shows, related, rfl⟩ := alike.screens
        exact called
  | esc =>
      dsimp only
      split_ifs with bracket
      · obtain ⟨b, g, shows, related, rfl⟩ := alike.screens
        exact Alike.mirrors ⟨b, g, shows, related, rfl⟩
      · exact (alike.setState .ascii).mirrors
  | csi =>
      dsimp only
      split_ifs with semicolon digit
      · exact alike.finishParameter (-1)
      · exact argByte_mirrors (alike.setState .csiArg) refines _
      · exact finishSequence_mirrors alike refines (-1) _
  | csiArg => exact argByte_mirrors alike refines _

theorem writeByte_lost (refines : Refines ops ops' R) (lost : t.backend = none) {byte : UInt8}
    (ran : t.writeByte ops' byte = some t') : t'.backend = none := by
  unfold writeByte at ran
  dsimp only at ran
  cases state : t.parser.state with
  | ascii =>
      rw [state] at ran
      dsimp only at ran
      by_cases escape : toChar byte = 27
      · rw [if_pos escape] at ran
        cases ran
        exact lost
      · rw [if_neg escape] at ran
        cases ran
        exact lost_called refines lost (.putc _ _ _)
  | esc =>
      rw [state] at ran
      dsimp only at ran
      split_ifs at ran with bracket
      · cases ran
        exact lost
      · cases ran
        exact lost
  | csi =>
      rw [state] at ran
      dsimp only at ran
      split_ifs at ran with semicolon digit
      · exact (finishParameter_screen ran).trans lost
      · have lost' : (t.setState .csiArg).backend = none := lost
        exact argByte_lost refines lost' ran
      · exact finishSequence_lost refines lost ran
  | csiArg =>
      rw [state] at ran
      exact argByte_lost refines lost ran

theorem run_lost (refines : Refines ops ops' R) (lost : t.backend = none) {text : List UInt8}
    (ran : text.foldlM (writeByte ops') t = some t') : t'.backend = none := by
  induction text generalizing t with
  | nil =>
      cases ran
      exact lost
  | cons byte rest ih =>
      obtain ⟨t₁, first, later⟩ := Option.bind_eq_some_iff.mp ran
      exact ih (writeByte_lost refines lost first) later

theorem run_mirrors (alike : Alike R s t) (refines : Refines ops ops' R) (text : List UInt8) :
    Mirrors R (text.foldlM (writeByte ops) s) (text.foldlM (writeByte ops') t) := by
  induction text generalizing s t with
  | nil => exact alike.mirrors
  | cons byte rest ih =>
      intro t' ran
      obtain ⟨t₁, first, later⟩ := Option.bind_eq_some_iff.mp ran
      rcases writeByte_mirrors alike refines byte t₁ first with lost | ⟨s₁, first', alike₁⟩
      · exact Or.inl (run_lost refines lost later)
      · rw [List.foldlM_cons, first']
        exact ih alike₁ t' later

/-- Whatever is written, the screen is the one that the other backend says. -/
theorem writes_refine (refines : Refines ops ops' R) {b : β} {g g' : γ} (related : R b g)
    {bufs : List (List UInt8)} (ran : (boot (some g)).writes ops' bufs = some t') (still : t'.backend = some g') :
    ∃ b', (boot b).writes ops bufs = some (t'.onScreen b') ∧ R b' g' := by
  have alike : Alike R (boot b) (boot (some g)) := ⟨b, g, rfl, related, rfl⟩
  rw [writes_eq] at ran ⊢
  rcases run_mirrors alike refines bufs.flatten t' ran with lost | ⟨s', ran', alike'⟩
  · rw [still] at lost
    cases lost
  · obtain ⟨b', g'', shows, related', rfl⟩ := alike'.screens
    rw [still] at shows
    cases shows
    exact ⟨b', ran', related'⟩

end Steps

end State

end TrollOS.Console
