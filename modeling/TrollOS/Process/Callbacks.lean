import Mathlib.Data.List.Induction
import TrollOS.Process.Model

/-!
# The callbacks of a process that ends

The loop of `process_exit` removes a callback through the pointer it goes on from.
It then steps over the callback behind the removed one, or follows a null pointer
when there is none.  So it is right only as long as no callback asks to be removed.
-/

namespace TrollOS.Process

/-- What the loop did: the calls with their answers, the callbacks that are still linked,
and the records given back. -/
structure Visit (α : Type) where
  called : List (α × Bool)
  kept : List α
  freed : List α

/-- A callback that stays is called and kept. -/
def Visit.stay {α : Type} (callback : α) (visit : Visit α) : Visit α :=
  ⟨(callback, false) :: visit.called, callback :: visit.kept, visit.freed⟩

/-- A callback is called, removed and given back, and the one behind it is passed over. -/
def Visit.remove {α : Type} (callback skipped : α) (visit : Visit α) : Visit α :=
  ⟨(callback, true) :: visit.called, skipped :: visit.kept, callback :: visit.freed⟩

/-- The callback loop of `process_exit`, for any callback functions: `run` calls one. -/
def exitLoop {α σ : Type} (run : α → σ → Option (Bool × σ)) : σ → List α → Option (σ × Visit α)
  | s, [] => some (s, ⟨[], [], []⟩)
  | s, callback :: rest =>
      (run callback s).bind fun (remove, s) =>
        if remove then
          match rest with
          | [] => none
          | skipped :: rest =>
              (exitLoop run s rest).map fun (s, visit) => (s, visit.remove callback skipped)
        else (exitLoop run s rest).map fun (s, visit) => (s, visit.stay callback)

def killCallback (callback : ProcessCallback) (t : Table) : Option (Bool × Table) :=
  (t.wake callback.owner).map fun t => (true, t)

/-- Each callback is called once, in order; those that answer true are given back, and the
others stay linked in order. -/
def LoopRight {α σ : Type} (run : α → σ → Option (Bool × σ)) (s : σ) (callbacks : List α) : Prop :=
  ∃ s' visit, exitLoop run s callbacks = some (s', visit) ∧
    visit.called.map Prod.fst = callbacks ∧
      visit.freed = (visit.called.filter Prod.snd).map Prod.fst ∧
        visit.kept = (visit.called.filter fun call => !call.2).map Prod.fst

/-- Called one after the other, all callbacks answer that they stay. -/
def AllStay {α σ : Type} (run : α → σ → Option (Bool × σ)) : σ → List α → Prop
  | _, [] => True
  | s, callback :: rest => ∃ s', run callback s = some (false, s') ∧ AllStay run s' rest

section Loop

variable {α σ : Type} {run : α → σ → Option (Bool × σ)} {s s' : σ} {callback : α} {rest : List α}

theorem exitLoop_stay (answer : run callback s = some (false, s')) (rest : List α) :
    exitLoop run s (callback :: rest) =
      (exitLoop run s' rest).map fun (s, visit) => (s, visit.stay callback) := by
  rw [exitLoop, answer]
  rfl

theorem exitLoop_last (answer : run callback s = some (true, s')) :
    exitLoop run s [callback] = none := by
  rw [exitLoop, answer]
  rfl

theorem exitLoop_remove (answer : run callback s = some (true, s')) (skipped : α) (rest : List α) :
    exitLoop run s (callback :: skipped :: rest) =
      (exitLoop run s' rest).map fun (s, visit) => (s, visit.remove callback skipped) := by
  rw [exitLoop, answer]
  rfl

theorem exitLoop_fails (answer : run callback s = none) (rest : List α) :
    exitLoop run s (callback :: rest) = none := by
  rw [exitLoop, answer]
  rfl

/-- What the loop does at one callback. -/
theorem exitLoop_cases {visit : Visit α} (ran : exitLoop run s (callback :: rest) = some (s', visit)) :
    (∃ s₁ inner, run callback s = some (false, s₁) ∧ exitLoop run s₁ rest = some (s', inner) ∧
        visit = inner.stay callback) ∨
      ∃ s₁ inner skipped rest', run callback s = some (true, s₁) ∧ rest = skipped :: rest' ∧
        exitLoop run s₁ rest' = some (s', inner) ∧ visit = inner.remove callback skipped := by
  cases answer : run callback s with
  | none => exact nomatch (exitLoop_fails answer rest).symm.trans ran
  | some result =>
      obtain ⟨remove, s₁⟩ := result
      cases remove with
      | false =>
          rw [exitLoop_stay answer] at ran
          obtain ⟨⟨s₂, inner⟩, deeper, same⟩ := Option.map_eq_some_iff.mp ran
          obtain ⟨rfl, rfl⟩ := Prod.mk.inj same
          exact Or.inl ⟨s₁, inner, rfl, deeper, rfl⟩
      | true =>
          cases rest with
          | nil => exact nomatch (exitLoop_last answer).symm.trans ran
          | cons skipped rest' =>
              rw [exitLoop_remove answer] at ran
              obtain ⟨⟨s₂, inner⟩, deeper, same⟩ := Option.map_eq_some_iff.mp ran
              obtain ⟨rfl, rfl⟩ := Prod.mk.inj same
              exact Or.inr ⟨s₁, inner, skipped, rest', rfl, rfl, deeper, rfl⟩

/-- No more calls than callbacks. -/
theorem exitLoop_length (callbacks : List α) {visit : Visit α}
    (ran : exitLoop run s callbacks = some (s', visit)) : visit.called.length ≤ callbacks.length := by
  induction callbacks using List.twoStepInduction generalizing s visit with
  | nil =>
      obtain ⟨-, rfl⟩ := Prod.mk.inj (Option.some.inj ran)
      exact Nat.le_refl 0
  | singleton callback =>
      rcases exitLoop_cases ran with ⟨s₁, inner, -, deeper, rfl⟩ | ⟨s₁, inner, skipped, rest', -, wrong, -⟩
      · obtain ⟨-, rfl⟩ := Prod.mk.inj (Option.some.inj deeper)
        exact Nat.le_refl 1
      · exact nomatch wrong
  | cons_cons callback next rest ih ih' =>
      rcases exitLoop_cases ran with ⟨s₁, inner, -, deeper, rfl⟩ | ⟨s₁, inner, skipped, rest', -, same, deeper, rfl⟩
      · exact Nat.succ_le_succ (ih' next deeper)
      · obtain ⟨rfl, rfl⟩ := List.cons.inj same
        exact Nat.le_succ_of_le (Nat.succ_le_succ (ih deeper))

theorem loopRight_of_allStay {callbacks : List α} (stay : AllStay run s callbacks) :
    LoopRight run s callbacks := by
  induction callbacks generalizing s with
  | nil => exact ⟨s, ⟨[], [], []⟩, rfl, rfl, rfl, rfl⟩
  | cons callback rest ih =>
      obtain ⟨s₁, answer, later⟩ := stay
      obtain ⟨s', visit, ran, called, freed, kept⟩ := ih later
      refine ⟨s', visit.stay callback, ?_, congrArg (callback :: ·) called, freed,
        congrArg (callback :: ·) kept⟩
      rw [exitLoop_stay answer, ran]
      rfl

/-- A callback that is passed over is not called. -/
theorem allStay_of_loopRight {callbacks : List α} (right : LoopRight run s callbacks) :
    AllStay run s callbacks := by
  induction callbacks generalizing s with
  | nil => trivial
  | cons callback rest ih =>
      obtain ⟨s', visit, ran, called, freed, kept⟩ := right
      rcases exitLoop_cases ran with
        ⟨s₁, inner, answer, deeper, rfl⟩ | ⟨s₁, inner, skipped, rest', -, rfl, deeper, rfl⟩
      · exact ⟨s₁, answer, ih ⟨s', inner, deeper, (List.cons.inj called).2, freed, (List.cons.inj kept).2⟩⟩
      · have same := congrArg List.length (List.cons.inj called).2
        rw [List.length_map, List.length_cons] at same
        have few := exitLoop_length rest' deeper
        omega

end Loop

section Waiters

variable {t t' : Table} {callbacks : List ProcessCallback}

/-- The loop over the callbacks the kernel registers. -/
theorem runCallbacks_eq (t : Table) (callbacks : List ProcessCallback) :
    t.runCallbacks callbacks =
      (exitLoop killCallback t callbacks).map fun (t, visit) => (t, visit.kept) := by
  induction t, callbacks using Table.runCallbacks.induct with
  | case1 t => rfl
  | case2 t callback =>
      cases woken : t.wake callback.owner with
      | none =>
          have answer : killCallback callback t = none := by
            unfold killCallback
            rw [woken]
            rfl
          rw [exitLoop_fails answer]
          rfl
      | some t' =>
          have answer : killCallback callback t = some (true, t') := by
            unfold killCallback
            rw [woken]
            rfl
          rw [exitLoop_last answer]
          rfl
  | case3 t callback skipped rest ih =>
      show (t.wake callback.owner).bind _ = _
      cases woken : t.wake callback.owner with
      | none =>
          have answer : killCallback callback t = none := by
            unfold killCallback
            rw [woken]
            rfl
          rw [exitLoop_fails answer]
          rfl
      | some t' =>
          have answer : killCallback callback t = some (true, t') := by
            unfold killCallback
            rw [woken]
            rfl
          rw [exitLoop_remove answer, Option.bind_some, ih t', Option.map_map, Option.map_map]
          rfl

theorem not_stay_kill (t : Table) (callback : ProcessCallback) (rest : List ProcessCallback) :
    ¬ AllStay killCallback t (callback :: rest) := by
  rintro ⟨t', answer, -⟩
  obtain ⟨t'', -, same⟩ := Option.map_eq_some_iff.mp answer
  exact nomatch (Prod.mk.inj same).1

end Waiters

/-- The loop of `process_exit` is right exactly when no callback asks to be removed.  Since
the callback of `process_wait` does, every process that waits is woken, and no null pointer is
followed, exactly when no process waits. -/
theorem exit_loop_right_iff {α σ : Type} (run : α → σ → Option (Bool × σ)) (s : σ) (callbacks : List α)
    (t : Table) (waiting : List ProcessCallback) :
    (LoopRight run s callbacks ↔ AllStay run s callbacks) ∧
      ((LoopRight killCallback t waiting ∧ ∃ t' kept, t.runCallbacks waiting = some (t', kept) ∧
        ∀ c ∈ waiting, t'.isRunning c.owner = true) ↔ waiting = []) := by
  refine ⟨⟨allStay_of_loopRight, loopRight_of_allStay⟩, ?_⟩
  constructor
  · rintro ⟨right, -⟩
    cases waiting with
    | nil => rfl
    | cons callback rest => exact absurd (allStay_of_loopRight right) (not_stay_kill t callback rest)
  · rintro rfl
    exact ⟨loopRight_of_allStay trivial, t, [], rfl, fun c member => nomatch member⟩

/-- One process waits: behind its callback a null pointer is followed. -/
theorem last_callback_follows_null : ¬ ∀ (t : Table) (callbacks : List ProcessCallback),
    (∀ c ∈ callbacks, (t c.owner).isSome = true) → LoopRight killCallback t callbacks := by
  intro right
  let waiting : Process :=
    { pid := 2, parent := 0, state := .blocked, callback := [], returnValue := 0, userspace := 1,
      user := 0, group := 0, timeStarted := 1337, file := fun _ => -1,
      reg := ⟨0, 0, 0, fun _ => 0, 2⟩ }
  have alive : ∀ c ∈ [(⟨2⟩ : ProcessCallback)],
      ((Function.update (fun _ => none) 2 (some waiting) : Table) c.owner).isSome = true := by
    intro c member
    rw [List.mem_singleton.mp member, Function.update_self]
    rfl
  obtain ⟨s', visit, ran, -⟩ := right _ _ alive
  have answer : killCallback ⟨2⟩ (Function.update (fun _ => none) 2 (some waiting)) =
      some (true, _) := rfl
  exact nomatch (exitLoop_last answer).symm.trans ran

end TrollOS.Process
