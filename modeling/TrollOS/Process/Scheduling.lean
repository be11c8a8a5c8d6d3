import Mathlib.Data.Nat.Find
import TrollOS.Process.Model

/-!
# Choosing the next process

`scheduler` passes over empty and blocked slots only, `process_exit` over empty
slots only.  The two theorems say exactly when that is enough to arrive at a
running process.
-/

namespace TrollOS.Process

open TrollOS.Lib

namespace Kernel

/-- Store a state through `process_from_pid`; a null pointer is followed when the slot
is empty. -/
def setState (k : Kernel) (pid : Int) (state : ProcessState) : Option Kernel :=
  (k.processFromPid pid).map fun p =>
    { k with process := Function.update k.process pid.toNat (some { p with state := state }) }

structure Boot (k : Kernel) : Prop where
  empty : ∀ slot, k.process slot = none
  current : k.current = 0
  last : k.last = -1

/-- Everything that changes the process table, in any order.  `block` is a read that
has to wait, `wakeUp` the end of one. -/
inductive Reachable : Kernel → Prop where
  | boot {k : Kernel} (start : Boot k) : Reachable k
  | create {k k' : Kernel} {uid gid r : Int} {memory : Option Process} {frame : Nat}
      (reach : Reachable k) (ran : k.processCreate uid gid memory frame = some (r, k')) :
      Reachable k'
  | exit {k k' : Kernel} {pid returnValue : Int} (reach : Reachable k)
      (ran : k.processExit pid returnValue = some k') : Reachable k'
  | wait {k k' : Kernel} {pid r : Int} {allocated : Bool} (reach : Reachable k)
      (ran : k.processWait pid allocated = some (r, k')) : Reachable k'
  | block {k k' : Kernel} (reach : Reachable k) (ran : k.setState k.current .blocked = some k') :
      Reachable k'
  | wakeUp {k k' : Kernel} {pid : Int} (reach : Reachable k)
      (ran : k.setState pid .running = some k') : Reachable k'
  | switch {k k' : Kernel} {pid : Nat} (reach : Reachable k)
      (ran : k.processSwitchTo pid = some k') : Reachable k'

end Kernel

namespace Table

def slotAfter (current d : Nat) : Nat := ((current + 1) % maxProcesses + d) % maxProcesses

/-- The search of `scheduler` ends at the first running process after `current`. -/
def SchedulerRight (t : Table) (current : Nat) : Prop :=
  ∃ next, t.schedulerSearch current = some next ∧ t.isRunning next = true ∧
    ∃ d, d < maxProcesses ∧ next = slotAfter current d ∧
      ∀ e, e < d → t.isRunning (slotAfter current e) = false

/-- The search of `process_exit` ends at a running process. -/
def ExitRight (t : Table) (pid : Nat) : Prop :=
  ∃ next, t.exitSearch pid = some next ∧ t.isRunning next = true

/-- In cyclic order after `current`, some running process comes before any zombie. -/
def RunningBeforeZombie (t : Table) (current : Nat) : Prop :=
  ∃ d, d < maxProcesses ∧ t.isRunning (slotAfter current d) = true ∧
    ∀ e, e < d → t.isZombie (slotAfter current e) = false

/-- In cyclic order after `pid`, some running process comes before any other process. -/
def RunningFirst (t : Table) (pid : Nat) : Prop :=
  ∃ d, d < maxProcesses ∧ t.isRunning (slotAfter pid d) = true ∧
    ∀ e, e < d → t (slotAfter pid e) = none

variable {t : Table} {current : Nat}

theorem start_small (current : Nat) : (current + 1) % maxProcesses < maxProcesses :=
  Nat.mod_lt _ (by decide)

theorem isEligible_eq (t : Table) (slot : Nat) :
    t.isEligible slot = (t.isRunning slot || t.isZombie slot) := by
  unfold isEligible isRunning isZombie
  cases t slot with
  | none => rfl
  | some p =>
      cases state : p.state with
      | running => simp [state]
      | blocked => simp [state]
      | zombie => simp [state]

/-- `scheduler` passes over a slot when it is empty or its process is blocked. -/
theorem schedulerSearch_iff {r : Nat} :
    t.schedulerSearch current = some r ↔
      ∃ d, d < maxProcesses ∧ r = slotAfter current d ∧
        (t.isRunning r = true ∨ t.isZombie r = true) ∧
        ∀ e, e < d → t.isRunning (slotAfter current e) = false ∧
          t.isZombie (slotAfter current e) = false := by
  unfold schedulerSearch
  rw [cyclicFind_eq_some_iff (start_small current)]
  simp only [isEligible_eq, Bool.or_eq_true, Bool.or_eq_false_iff]
  rfl

theorem exitSearch_iff {r : Nat} :
    t.exitSearch current = some r ↔
      ∃ d, d < maxProcesses ∧ r = slotAfter current d ∧ (t r).isSome = true ∧
        ∀ e, e < d → t (slotAfter current e) = none := by
  unfold exitSearch
  rw [cyclicFind_eq_some_iff (start_small current)]
  have empty : ∀ slot, (t slot).isSome = false ↔ t slot = none := fun slot => by
    rw [Option.isSome_eq_false_iff, Option.isNone_iff_eq_none]
  simp only [empty]
  rfl

theorem isSome_of_running {slot : Nat} (running : t.isRunning slot = true) :
    (t slot).isSome = true := by
  unfold isRunning at running
  cases here : t slot with
  | none => simp [here] at running
  | some p => rfl

/-- `scheduler` makes the right choice exactly when no zombie is in the way. -/
theorem schedulerRight_iff : t.SchedulerRight current ↔ t.RunningBeforeZombie current := by
  constructor
  · rintro ⟨next, search, running, -⟩
    obtain ⟨d, less, place, -, before⟩ := schedulerSearch_iff.mp search
    refine ⟨d, less, ?_, fun e earlier => (before e earlier).2⟩
    rw [← place]
    exact running
  · rintro ⟨d, less, running, before⟩
    have some : ∃ d, t.isRunning (slotAfter current d) = true := ⟨d, running⟩
    let first := Nat.find some
    have isFirst : t.isRunning (slotAfter current first) = true := Nat.find_spec some
    have early : first ≤ d := Nat.find_min' some running
    have notRunning : ∀ e, e < first → t.isRunning (slotAfter current e) = false := fun e earlier =>
      Bool.eq_false_iff.mpr (Nat.find_min some earlier)
    have small : first < maxProcesses := Nat.lt_of_le_of_lt early less
    refine ⟨slotAfter current first, ?_, isFirst, first, small, rfl, notRunning⟩
    refine schedulerSearch_iff.mpr ⟨first, small, rfl, Or.inl isFirst, fun e earlier => ?_⟩
    exact ⟨notRunning e earlier, before e (Nat.lt_of_lt_of_le earlier early)⟩

/-- `process_exit` makes the right choice exactly when no other process is in the way. -/
theorem exitRight_iff : t.ExitRight current ↔ t.RunningFirst current := by
  constructor
  · rintro ⟨next, search, running⟩
    obtain ⟨d, less, place, -, before⟩ := exitSearch_iff.mp search
    refine ⟨d, less, ?_, before⟩
    rw [← place]
    exact running
  · rintro ⟨d, less, running, before⟩
    exact ⟨slotAfter current d,
      exitSearch_iff.mpr ⟨d, less, rfl, isSome_of_running running, before⟩, running⟩

end Table

namespace Kernel

/-- Runs that only create, switch to and wake processes. -/
inductive Calm : Kernel → Prop where
  | boot {k : Kernel} (start : Boot k) : Calm k
  | create {k k' : Kernel} {uid gid r : Int} {memory : Option Process} {frame : Nat}
      (run : Calm k) (ran : k.processCreate uid gid memory frame = some (r, k')) : Calm k'
  | wakeUp {k k' : Kernel} {pid : Int} (run : Calm k)
      (ran : k.setState pid .running = some k') : Calm k'
  | switch {k k' : Kernel} {pid : Nat} (run : Calm k)
      (ran : k.processSwitchTo pid = some k') : Calm k'

/-- What `process_create` does when it returns. -/
theorem processCreate_cases {k k' : Kernel} {uid gid r : Int} {memory : Option Process}
    {frame : Nat} (ran : k.processCreate uid gid memory frame = some (r, k')) :
    (r < 0 ∧ (∃ last, k' = { k with last := last }) ∧ (memory = none ∨
        ∃ last, k.process.slotSearch k.last (maxProcesses + 1) k.last = some (last, none))) ∨
      ∃ (last : Int) (pid : Nat) (old : Process), memory = some old ∧ r = pid ∧
        k.process.slotSearch k.last (maxProcesses + 1) k.last = some (last, some pid) ∧
        k' =
          { k with
            process := Function.update k.process pid
              (some (freshProcess old pid uid gid (initUserspace k.urp frame).1))
            last := last
            urp := (initUserspace k.urp frame).2 } := by
  obtain ⟨⟨last, found⟩, search, result⟩ := Option.map_eq_some_iff.mp ran
  cases found with
  | none =>
      obtain ⟨code, kernel⟩ := Prod.mk.inj result
      left
      exact ⟨by rw [← code]; decide, ⟨last, kernel.symm⟩, Or.inr ⟨last, search⟩⟩
  | some pid =>
      cases memory with
      | none =>
          obtain ⟨code, kernel⟩ := Prod.mk.inj result
          left
          exact ⟨by rw [← code]; decide, ⟨last, kernel.symm⟩, Or.inl rfl⟩
      | some old =>
          obtain ⟨code, kernel⟩ := Prod.mk.inj result
          right
          exact ⟨last, pid, old, rfl, code.symm, search, kernel.symm⟩

theorem Calm.running {k : Kernel} (run : Calm k) {slot : Nat} {p : Process}
    (here : k.process slot = some p) : p.state = .running := by
  induction run generalizing slot p with
  | boot start =>
      rw [start.empty] at here
      exact nomatch here
  | create run ran ih =>
      rcases processCreate_cases ran with
        ⟨-, ⟨last, rfl⟩, -⟩ | ⟨last, new, old, -, -, -, rfl⟩
      · exact ih here
      · by_cases isNew : slot = new
        · simp only [isNew, Function.update_self] at here
          rw [← Option.some.inj here]
          rfl
        · simp only [Function.update_of_ne isNew] at here
          exact ih here
  | @wakeUp k k' pid run ran ih =>
      obtain ⟨q, -, result⟩ := Option.map_eq_some_iff.mp ran
      rw [← result] at here
      by_cases isNew : slot = pid.toNat
      · rw [isNew] at here
        simp only [Function.update_self] at here
        rw [← Option.some.inj here]
      · simp only [Function.update_of_ne isNew] at here
        exact ih here
  | switch run ran ih =>
      obtain ⟨q, -, result⟩ := Option.map_eq_some_iff.mp ran
      rw [← result] at here
      exact ih here

/-- Where every process is running, both searches are right. -/
theorem right_of_all_running {t : Table}
    (all : ∀ slot p, t slot = some p → p.state = .running) {slot : Nat} (small : slot < maxProcesses)
    (occupied : (t slot).isSome = true) (current : Nat) :
    t.SchedulerRight current ∧ t.ExitRight current := by
  have runs : ∀ s, (t s).isSome = true → t.isRunning s = true := by
    intro s here
    obtain ⟨p, isP⟩ := Option.isSome_iff_exists.mp here
    simp [Table.isRunning, isP, all s p isP]
  have near : ∃ d, d < maxProcesses ∧ Table.slotAfter current d = slot := by
    have start := Table.start_small current
    refine ⟨(slot + maxProcesses - (current + 1) % maxProcesses) % maxProcesses,
      Nat.mod_lt _ (by decide), ?_⟩
    unfold Table.slotAfter
    unfold maxProcesses at *
    omega
  obtain ⟨d, less, place⟩ := near
  obtain ⟨next, search⟩ := @cyclicFind_isSome maxProcesses (fun s => (t s).isSome) maxProcesses _
    (Table.start_small current) d less (by
      change (t (Table.slotAfter current d)).isSome = true
      rw [place]
      exact occupied)
  have running : Table.RunningFirst t current := by
    obtain ⟨e, small, place, here, before⟩ := Table.exitSearch_iff.mp search
    refine ⟨e, small, ?_, before⟩
    rw [← place]
    exact runs next here
  obtain ⟨e, small, here, before⟩ := running
  refine ⟨Table.schedulerRight_iff.mpr ⟨e, small, here, fun f earlier => ?_⟩,
    Table.exitRight_iff.mpr ⟨e, small, here, before⟩⟩
  unfold Table.isZombie
  rw [before f earlier]

/-- When the next process is a running one: exactly, for every table and every current
process, and throughout every run in which no process ends or blocks. -/
theorem next_process_right (k : Kernel) (current : Nat) :
    (k.process.SchedulerRight current ↔ k.process.RunningBeforeZombie current) ∧
      (k.process.ExitRight current ↔ k.process.RunningFirst current) ∧
      (Calm k → ∀ slot, slot < maxProcesses → (k.process slot).isSome = true →
        k.process.SchedulerRight current ∧ k.process.ExitRight current) := by
  constructor
  · exact Table.schedulerRight_iff
  constructor
  · exact Table.exitRight_iff
  · intro run slot small occupied
    exact @right_of_all_running k.process (fun _ _ here => run.running here) slot small occupied
      current

def blankProcess : Process :=
  ⟨0, 0, .running, [], 0, 0, 0, 0, 0, fun _ => 0, ⟨0, 0, 0, fun _ => 0, 0⟩⟩

def bootKernel : Kernel := ⟨fun _ => none, 0, -1, 0, 0⟩

/-- `process_create` with a record at hand; where it does not return, no change. -/
def created (k : Kernel) (frame : Nat) : Kernel :=
  ((k.processCreate 0 0 (some blankProcess) frame).map Prod.snd).getD k

def switched (k : Kernel) (pid : Nat) : Kernel := (k.processSwitchTo pid).getD k

def exited (k : Kernel) (pid : Int) : Kernel := (k.processExit pid 0).getD k

theorem Reachable.created {k : Kernel} (reach : Reachable k) (frame : Nat) :
    Reachable (k.created frame) := by
  unfold Kernel.created
  cases ran : k.processCreate 0 0 (some blankProcess) frame with
  | none => exact reach
  | some result => exact .create reach ran

theorem Reachable.switched {k : Kernel} (reach : Reachable k) (pid : Nat) :
    Reachable (k.switched pid) := by
  unfold Kernel.switched
  cases ran : k.processSwitchTo pid with
  | none => exact reach
  | some result => exact .switch reach ran

theorem Reachable.exited {k : Kernel} (reach : Reachable k) (pid : Int) :
    Reachable (k.exited pid) := by
  unfold Kernel.exited
  cases ran : k.processExit pid 0 with
  | none => exact reach
  | some result => exact .exit reach ran

/-- Processes 0 and 1, and process 2 after it has ended itself. -/
def zombieKernel : Kernel :=
  ((((bootKernel.created 4096).created 8192).created 12288).switched 2).exited 2

/-- From process 1 on, `scheduler` chooses the zombie in slot 2. -/
theorem zombie_chosen :
    ¬ ∀ k, Reachable k → ∀ current,
      k.process.SchedulerRight current ∧ k.process.ExitRight current := by
  intro claim
  have reach : Reachable zombieKernel :=
    (((((Reachable.boot ⟨fun _ => rfl, rfl, rfl⟩).created _).created _).created _).switched _).exited _
  obtain ⟨next, search, running, -⟩ := (claim zombieKernel reach 1).1
  have chosen : zombieKernel.process.schedulerSearch 1 = some 2 := by decide +kernel
  have dead : zombieKernel.process.isRunning 2 = false := by decide +kernel
  rw [chosen] at search
  rw [← Option.some.inj search, dead] at running
  exact nomatch running

end Kernel

end TrollOS.Process
