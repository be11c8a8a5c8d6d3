import TrollOS.Process.Contexts

/-!
# What ends and what is left

The table after `process_exit` and `process_wait`.  The callbacks of a process that ends
only wake, so where they wake no zombie every other process keeps its space, its life and
its end value.
-/

namespace TrollOS.Process

open Function (update)

/-- The same space, life and end value. -/
structure Alike (p q : Process) : Prop where
  space : q.userspace = p.userspace
  life : q.state = .zombie ↔ p.state = .zombie
  value : q.returnValue = p.returnValue

def Similar (t t' : Table) : Prop := ∀ slot, Option.Rel Alike (t slot) (t' slot)

def wokenOwners : List ProcessCallback → List Nat
  | callback :: _ :: rest => callback.owner :: wokenOwners rest
  | _ => []

section Tables

variable {t t' t'' : Table} {slot : Nat} {p q r : Process}

theorem Alike.refl (p : Process) : Alike p p := ⟨rfl, Iff.rfl, rfl⟩

theorem Alike.trans (first : Alike p q) (second : Alike q r) : Alike p r :=
  ⟨second.space.trans first.space, second.life.trans first.life, second.value.trans first.value⟩

theorem Similar.refl (t : Table) : Similar t t := by
  intro slot
  cases t slot with
  | none => exact .none
  | some p => exact .some (Alike.refl p)

/-- What a process was before. -/
theorem Similar.back (similar : Similar t t') (here : t' slot = some q) :
    ∃ p, t slot = some p ∧ Alike p q := by
  have both := similar slot
  rw [here] at both
  cases was : t slot with
  | none =>
      rw [was] at both
      cases both
  | some p =>
      rw [was] at both
      cases both with
      | some alike => exact ⟨p, rfl, alike⟩

/-- What a process has become. -/
theorem Similar.forth (similar : Similar t t') (here : t slot = some p) :
    ∃ q, t' slot = some q ∧ Alike p q := by
  have both := similar slot
  rw [here] at both
  cases isNow : t' slot with
  | none =>
      rw [isNow] at both
      cases both
  | some q =>
      rw [isNow] at both
      cases both with
      | some alike => exact ⟨q, rfl, alike⟩

theorem Similar.trans (first : Similar t t') (second : Similar t' t'') : Similar t t'' := by
  intro slot
  cases here : t'' slot with
  | none =>
      cases was : t slot with
      | none => exact .none
      | some p =>
          obtain ⟨q, isNow, -⟩ := (first.forth was).imp fun q found => found
          obtain ⟨r, later, -⟩ := second.forth isNow
          exact nomatch here.symm.trans later
  | some r =>
      obtain ⟨q, was, alike'⟩ := second.back here
      obtain ⟨p, before, alike⟩ := first.back was
      rw [before]
      exact .some (alike.trans alike')

/-- Only occupied slots count for a search. -/
theorem Similar.occupied (similar : Similar t t') (slot : Nat) :
    (t slot).isSome = (t' slot).isSome := by
  cases here : t slot with
  | none =>
      have both := similar slot
      rw [here] at both
      cases isNow : t' slot with
      | none => rfl
      | some q =>
          rw [isNow] at both
          cases both
  | some p =>
      obtain ⟨q, isNow, -⟩ := similar.forth here
      rw [isNow]
      rfl

/-- A write through the pointer in a slot. -/
theorem Similar.modify (t : Table) (slot : Nat) {f : Process → Process}
    (keeps : ∀ p, t slot = some p → Alike p (f p)) : Similar t (t.modify slot f) := by
  intro other
  unfold Table.modify
  by_cases same : other = slot
  · rw [same, Function.update_self]
    cases here : t slot with
    | none => exact .none
    | some p => exact .some (keeps p here)
  · rw [Function.update_of_ne same]
    exact Similar.refl t other

theorem zombie_iff (here : t slot = some p) : t.isZombie slot = true ↔ p.state = .zombie := by
  unfold Table.isZombie
  rw [here]
  exact decide_eq_true_iff

theorem not_zombie (here : t slot = some p) (live : t.isZombie slot = false) : p.state ≠ .zombie := by
  intro gone
  rw [(zombie_iff here).mpr gone] at live
  exact nomatch live

theorem Similar.notZombie (similar : Similar t t') (live : t.isZombie slot = false) :
    t'.isZombie slot = false := by
  cases here : t' slot with
  | none =>
      unfold Table.isZombie
      rw [here]
  | some q =>
      obtain ⟨p, was, alike⟩ := similar.back here
      rw [← Bool.not_eq_true, zombie_iff here, alike.life]
      exact not_zombie was live

theorem wake_similar {owner : Nat} (live : t.isZombie owner = false) (woken : t.wake owner = some t') :
    Similar t t' := by
  obtain ⟨p, here, rfl⟩ := Option.map_eq_some_iff.mp woken
  intro other
  by_cases same : other = owner
  · rw [same, Function.update_self, here]
    exact .some ⟨rfl, ⟨fun no => (nomatch no), fun gone => absurd gone (not_zombie here live)⟩, rfl⟩
  · rw [Function.update_of_ne same]
    exact Similar.refl t other

/-- The callback loop wakes no zombie. -/
theorem runCallbacks_similar (callbacks : List ProcessCallback) {kept : List ProcessCallback}
    (live : ∀ owner ∈ wokenOwners callbacks, t.isZombie owner = false)
    (ran : t.runCallbacks callbacks = some (t', kept)) : Similar t t' := by
  induction t, callbacks using Table.runCallbacks.induct generalizing t' kept with
  | case1 t =>
      rw [← (Prod.mk.inj (Option.some.inj ran)).1]
      exact Similar.refl t
  | case2 t c => cases ran
  | case3 t c skipped rest ih =>
      obtain ⟨t₁, woken, later⟩ := Option.bind_eq_some_iff.mp ran
      obtain ⟨⟨t₂, kept₂⟩, ran₂, pair⟩ := Option.map_eq_some_iff.mp later
      obtain ⟨rfl, -⟩ := Prod.mk.inj pair
      have first := wake_similar (live c.owner List.mem_cons_self) woken
      exact first.trans (ih t₁
        (fun owner member => first.notZombie (live owner (List.mem_cons_of_mem _ member))) ran₂)

/-- The slots of two tables with the same occupied slots are searched alike. -/
theorem exitSearch_congr (same : ∀ slot, (t slot).isSome = (t' slot).isSome) (pid : Nat) :
    t.exitSearch pid = t'.exitSearch pid := by
  unfold Table.exitSearch
  congr 1
  exact funext same

end Tables

section Calls

variable {k k' : Kernel} {pid value : Int} {p : Process}

theorem processFromPid_some (found : k.processFromPid pid = some p) :
    ¬ (pid < 0 ∨ (maxProcesses : Int) ≤ pid) ∧ k.process pid.toNat = some p := by
  unfold Kernel.processFromPid at found
  split at found
  · exact nomatch found
  · next inside => exact ⟨inside, found⟩

/-- Everything `process_exit` does when it returns: nothing without a process; otherwise
the callbacks run, the next process is switched to, and the process is a zombie. -/
theorem processExit_cases (ran : k.processExit pid value = some k') :
    (k.processFromPid pid = none ∧ k' = k) ∨
      ∃ p t kept k₁, k.processFromPid pid = some p ∧
        k.process.runCallbacks p.callback = some (t, kept) ∧
        (if k.current = pid.toNat then
            ((t.modify pid.toNat fun p => { p with callback := kept }).exitSearch pid.toNat).bind
              { k with process := t.modify pid.toNat fun p => { p with callback := kept } }.processSwitchTo
          else some { k with process := t.modify pid.toNat fun p => { p with callback := kept } }) =
          some k₁ ∧
        k' = { k₁ with
          process := k₁.process.modify pid.toNat fun p =>
            { p with returnValue := value, state := .zombie } } := by
  unfold Kernel.processExit at ran
  unfold Kernel.processFromPid
  by_cases outside : pid < 0 ∨ (maxProcesses : Int) ≤ pid
  · rw [if_pos outside] at ran ⊢
    exact Or.inl ⟨rfl, (Option.some.inj ran).symm⟩
  · rw [if_neg outside] at ran ⊢
    dsimp only at ran
    cases here : k.process pid.toNat with
    | none =>
        rw [here] at ran
        exact Or.inl ⟨rfl, (Option.some.inj ran).symm⟩
    | some proc =>
        rw [here] at ran
        dsimp only at ran
        split at ran
        · exact nomatch ran
        · obtain ⟨⟨t, kept⟩, callbacks, rest⟩ := Option.bind_eq_some_iff.mp ran
          obtain ⟨k₁, switched, result⟩ := Option.map_eq_some_iff.mp rest
          exact Or.inr ⟨proc, t, kept, k₁, rfl, callbacks, switched, result.symm⟩

/-- The table after `process_exit` of a process that wakes no zombie; if it was the current
one, another process runs. -/
theorem processExit_table (found : k.processFromPid pid = some p)
    (wakes : ∀ owner ∈ wokenOwners p.callback, k.process.isZombie owner = false)
    (ran : k.processExit pid value = some k') :
    ∃ t z, Similar k.process t ∧ z.state = .zombie ∧ z.returnValue = value ∧
      k'.process = update t pid.toNat (some z) ∧
        ((k.current ≠ pid.toNat ∧ k'.current = k.current ∧ k'.urp = k.urp) ∨
          (k.current = pid.toNat ∧ k.process.exitSearch pid.toNat = some k'.current ∧
            ∃ q, k.process k'.current = some q ∧ k'.urp = q.userspace)) := by
  rcases processExit_cases ran with ⟨none, -⟩ | ⟨p', t, kept, k₁, found', callbacks, switched, rfl⟩
  · exact nomatch none.symm.trans found
  · obtain rfl := Option.some.inj (found.symm.trans found')
    obtain ⟨-, here⟩ := processFromPid_some found
    have similar := (runCallbacks_similar p.callback wakes callbacks).trans (Similar.modify t pid.toNat
      (f := fun p => { p with callback := kept }) fun q _ => ⟨rfl, Iff.rfl, rfl⟩)
    generalize t.modify pid.toNat (fun p => { p with callback := kept }) = t₁ at *
    obtain ⟨p₁, here₁, -⟩ := similar.forth here
    have dead : t₁.modify pid.toNat (fun p => { p with returnValue := value, state := .zombie }) =
        update t₁ pid.toNat (some { p₁ with returnValue := value, state := .zombie }) := by
      unfold Table.modify
      rw [here₁]
      rfl
    refine ⟨t₁, { p₁ with returnValue := value, state := .zombie }, similar, rfl, rfl, ?_⟩
    by_cases isCurrent : k.current = pid.toNat
    · rw [if_pos isCurrent] at switched
      obtain ⟨next, search, switch⟩ := Option.bind_eq_some_iff.mp switched
      obtain ⟨q, atNext, rfl⟩ := Option.map_eq_some_iff.mp switch
      rw [← exitSearch_congr similar.occupied] at search
      obtain ⟨q', was, alike⟩ := similar.back atNext
      exact ⟨dead, Or.inr ⟨isCurrent, search, q', was, alike.space⟩⟩
    · rw [if_neg isCurrent] at switched
      obtain rfl := Option.some.inj switched
      exact ⟨dead, Or.inl ⟨isCurrent, rfl, rfl⟩⟩

/-- The table after `process_wait` by a living process: a zombie is gone and its value
returned; otherwise every process is as it was. -/
theorem processWait_table {allocated : Bool} {r : Int}
    (alive : ∀ p, k.process k.current = some p → p.state ≠ .zombie)
    (ran : k.processWait pid allocated = some (r, k')) :
    k'.current = k.current ∧
      ((∃ z, k.processFromPid pid = some z ∧ z.state = .zombie ∧ r = z.returnValue ∧
          k'.process = update k.process pid.toNat none) ∨
        ((∀ z, k.processFromPid pid = some z → z.state ≠ .zombie) ∧
          Similar k.process k'.process)) := by
  unfold Kernel.processWait at ran
  unfold Kernel.processFromPid
  by_cases outside : pid < 0 ∨ (maxProcesses : Int) ≤ pid
  · rw [if_pos outside] at ran ⊢
    obtain ⟨-, rfl⟩ := Prod.mk.inj (Option.some.inj ran)
    exact ⟨rfl, Or.inr ⟨fun z impossible => (nomatch impossible), Similar.refl _⟩⟩
  · rw [if_neg outside] at ran ⊢
    dsimp only at ran
    cases here : k.process pid.toNat with
    | none =>
        rw [here] at ran
        obtain ⟨-, rfl⟩ := Prod.mk.inj (Option.some.inj ran)
        exact ⟨rfl, Or.inr ⟨fun z impossible => (nomatch impossible), Similar.refl _⟩⟩
    | some p =>
        rw [here] at ran
        dsimp only at ran
        by_cases zombie : p.state = .zombie
        · rw [if_pos zombie] at ran
          obtain ⟨rfl, rfl⟩ := Prod.mk.inj (Option.some.inj ran)
          exact ⟨rfl, Or.inl ⟨p, rfl, zombie, rfl, rfl⟩⟩
        · rw [if_neg zombie] at ran
          split at ran
          · obtain ⟨q, atCurrent, pair⟩ := Option.map_eq_some_iff.mp ran
            obtain ⟨-, rfl⟩ := Prod.mk.inj pair
            have first : Similar k.process (k.process.modify pid.toNat fun p =>
                { p with callback := ⟨k.current⟩ :: p.callback }) :=
              Similar.modify _ _ fun p _ => ⟨rfl, Iff.rfl, rfl⟩
            have liveQ : q.state ≠ .zombie := by
              obtain ⟨q', was, alike⟩ := first.back atCurrent
              exact mt alike.life.mp (alive q' was)
            have second : Similar (k.process.modify pid.toNat fun p =>
                { p with callback := ⟨k.current⟩ :: p.callback })
                (update (k.process.modify pid.toNat fun p =>
                  { p with callback := ⟨k.current⟩ :: p.callback }) k.current
                  (some { q with state := .blocked })) := by
              intro slot
              by_cases same : slot = k.current
              · rw [same, Function.update_self, atCurrent]
                exact .some ⟨rfl, ⟨fun no => (nomatch no), fun gone => absurd gone liveQ⟩, rfl⟩
              · rw [Function.update_of_ne same]
                exact Similar.refl _ slot
            refine ⟨rfl, Or.inr ⟨fun z isP => ?_, first.trans second⟩⟩
            rw [← Option.some.inj isP]
            exact zombie
          · exact nomatch ran

end Calls

end TrollOS.Process
