import Mathlib.Tactic.Common
import TrollOS.Lib.Outcome

/-!
# Computations with a trace

A computation that writes down its events, and answers unless it gets stuck; the events up
to there stay written down.  Two things are said of one: that all its events are of some
kind, and that it has no other answer than a given one.
-/

namespace TrollOS.Lib

structure Traced (ε α : Type) where
  events : List ε
  answer : Option α

namespace Traced

variable {ε ι α β : Type}

instance : Monad (Traced ε) where
  pure a := ⟨[], some a⟩
  bind x f :=
    match x.answer with
    | none => ⟨x.events, none⟩
    | some a => ⟨x.events ++ (f a).events, (f a).answer⟩

def stuck : Traced ε α := ⟨[], none⟩

/-- One event, and what it yields. -/
def yields (event : ε) (value : Option α) : Traced ε α := ⟨[event], value⟩

def silent (value : Option α) : Traced ε α := ⟨[], value⟩

/-- Go on with the value of a call, if there is one. -/
def andThen (x : Traced ε (Outcome α)) (next : α → Traced ε (Outcome β)) : Traced ε (Outcome β) := do
  match ← x with
  | .value a => next a
  | .error errno => pure (.error errno)
  | .hang => pure .hang

/-- A search from the front: every place looked at is an event. -/
def scan (event : ι → ε) (found : ι → Bool) : List ι → Traced ε (Option ι)
  | [] => pure none
  | i :: rest => do
      yields (event i) (some ())
      if found i then pure (some i) else scan event found rest

theorem bind_answer (x : Traced ε α) (f : α → Traced ε β) :
    (x >>= f).answer = x.answer.bind fun a => (f a).answer := by
  rcases x with ⟨events, _ | a⟩
  · rfl
  · rfl

theorem bind_some {x : Traced ε α} {f : α → Traced ε β} {b : β} (ran : (x >>= f).answer = some b) :
    ∃ a, x.answer = some a ∧ (f a).answer = some b := by
  rw [bind_answer] at ran
  exact Option.bind_eq_some_iff.mp ran

/-! ## What the events are -/

/-- Every event is of the kind. -/
def Within (P : ε → Prop) (x : Traced ε α) : Prop := ∀ e ∈ x.events, P e

/-- The answer, if there is one, is that of `o`. -/
def Agrees (x : Traced ε α) (o : Option α) : Prop := ∀ a, x.answer = some a → o = some a

section Rules

variable {P : ε → Prop} {x : Traced ε α} {f : α → Traced ε β} {a : α} {o : Option β}

theorem Within.pure (a : α) : (Pure.pure a : Traced ε α).Within P := fun _ member => nomatch member

theorem Within.stuck : (stuck : Traced ε α).Within P := fun _ member => nomatch member

theorem Within.silent (value : Option α) : (silent value : Traced ε α).Within P :=
  fun _ member => nomatch member

theorem Within.yields {event : ε} (right : P event) (value : Option α) :
    (yields event value).Within P := by
  intro e member
  obtain rfl := List.mem_singleton.mp member
  exact right

theorem Within.bind (first : x.Within P) (second : ∀ a, x.answer = some a → (f a).Within P) :
    (x >>= f).Within P := by
  rcases x with ⟨events, _ | a⟩
  · exact first
  · intro e member
    rcases List.mem_append.mp member with before | after
    · exact first e before
    · exact second a rfl e after

theorem Agrees.pure (a : α) : (Pure.pure a : Traced ε α).Agrees (some a) := fun _ same => same

theorem Agrees.stuck (value : Option α) : (stuck : Traced ε α).Agrees value := fun _ wrong => nomatch wrong

theorem Agrees.silent (value : Option α) : (silent value : Traced ε α).Agrees value := fun _ same => same

theorem Agrees.answer_eq {a' : α} (agrees : x.Agrees (some a)) (ran : x.answer = some a') : a' = a :=
  (Option.some.inj (agrees a' ran)).symm

/-- A first part with a known answer. -/
theorem Agrees.bind (first : x.Agrees (some a)) (second : (f a).Agrees o) : (x >>= f).Agrees o := by
  intro b ran
  obtain ⟨a', before, after⟩ := bind_some ran
  rw [first.answer_eq before] at after
  exact second b after

theorem Within.bind_known (first : x.Within P) (known : x.Agrees (some a)) (second : (f a).Within P) :
    (x >>= f).Within P := by
  refine first.bind fun a' ran => ?_
  rw [known.answer_eq ran]
  exact second

theorem Within.andThen {x : Traced ε (Outcome α)} {outcome : Outcome α} {f : α → Traced ε (Outcome β)}
    (first : x.Within P) (known : x.Agrees (some outcome))
    (second : ∀ a, outcome = .value a → (f a).Within P) : (x.andThen f).Within P := by
  refine first.bind_known known ?_
  cases outcome with
  | value a => exact second a rfl
  | error errno => exact Within.pure _
  | hang => exact Within.pure _

theorem Agrees.andThen {x : Traced ε (Outcome α)} {outcome : Outcome α} {f : α → Traced ε (Outcome β)}
    {g : α → Outcome β} (first : x.Agrees (some outcome))
    (second : ∀ a, outcome = .value a → (f a).Agrees (some (g a))) :
    (x.andThen f).Agrees (some (outcome.andThen g)) := by
  refine first.bind ?_
  cases outcome with
  | value a => exact second a rfl
  | error errno => exact Agrees.pure _
  | hang => exact Agrees.pure _

theorem Within.scan {event : ι → ε} {found : ι → Bool} {places : List ι}
    (right : ∀ i ∈ places, P (event i)) : (scan event found places).Within P := by
  induction places with
  | nil => exact Within.pure _
  | cons i rest ih =>
      refine (Within.yields (right i List.mem_cons_self) _).bind fun _ _ => ?_
      split
      · exact Within.pure _
      · exact ih fun j member => right j (List.mem_cons_of_mem i member)

theorem Agrees.scan (event : ι → ε) (found : ι → Bool) (places : List ι) :
    (scan event found places).Agrees (some (places.find? found)) := by
  induction places with
  | nil => exact Agrees.pure _
  | cons i rest ih =>
      refine Agrees.bind (a := ()) (fun _ same => same) ?_
      cases here : found i with
      | true =>
          rw [List.find?_cons_of_pos here]
          exact Agrees.pure _
      | false =>
          rw [List.find?_cons_of_neg (Bool.eq_false_iff.mp here)]
          exact ih

end Rules

end Traced

end TrollOS.Lib
