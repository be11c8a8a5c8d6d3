import Mathlib.Data.List.Nodup
import TrollOS.Process.Scheduling

/-!
# Waiting for a character device

`chardev_read` and `_read_callback` of `kernel/modules/chardev.c`.  The queue is
meant to hold the waiting processes in order of arrival; `Waiting` is that
purpose as a machine of its own.  The code keeps to it exactly while nobody
queues twice and every callback meets at most one waiter.
-/

namespace TrollOS.Process

inductive DeviceType where
  | invalid
  | char
  | block
  deriving DecidableEq, Repr

/-- A device with its queue of readers, and the kernel around it.  `read` says
whether the driver has a read function. -/
structure Device where
  type : DeviceType
  read : Bool
  queueRead : List Nat
  kernel : Kernel

namespace Device

/-- `_queue_enqueue`: `allocated` says whether `kmalloc` returned an item. -/
def queueEnqueue (queue : List Nat) (pid : Nat) (allocated : Bool) : Int × List Nat :=
  if allocated then (0, queue ++ [pid]) else (-enomem, queue)

/-- `_queue_dequeue`: the first item, and the queue afterwards. -/
def queueDequeue (queue : List Nat) : Option Nat × List Nat :=
  match queue with
  | [] => (none, [])
  | item :: _ => (some item, [])

/-- `_read_callback` drops the item it dequeues and reads a pid through a pointer that
was never set: `item` is the pid found there. -/
def readCallback (d : Device) (item : Int) : Option Device :=
  match queueDequeue d.queueRead with
  | (none, _) => some d
  | (some _, queue) =>
      (d.kernel.setState item .running).map fun k => { d with queueRead := queue, kernel := k }

/-- `chardev_read`; `result` is what the driver's read function returns. -/
def chardevRead (d : Device) (result : Int) (allocated : Bool) : Option (Int × Device) :=
  if d.type ≠ .char then some (-enosys, d)
  else if ¬ d.read then some (-enosys, d)
  else if result = -ewouldblock then
    let (error, queue) := queueEnqueue d.queueRead d.kernel.current allocated
    if error < 0 then some (-enomem, { d with queueRead := queue })
    else
      (d.kernel.setState d.kernel.current .blocked).map fun k =>
        (result, { d with queueRead := queue, kernel := k })
  else some (result, d)

/-- What can happen to the device: a process reads, or the driver calls back. -/
inductive Event where
  | read (pid : Nat) (result : Int) (allocated : Bool)
  | callback (item : Int)

def exec (d : Device) : Event → Option Device
  | .read pid result allocated =>
      (chardevRead { d with kernel := { d.kernel with current := pid } } result allocated).map
        Prod.snd
  | .callback item => d.readCallback item

/-- The processes waiting for the device in order of arrival, and the process table. -/
structure Waiting where
  waiters : List Nat
  table : Table

def Waiting.wait (a : Waiting) (pid : Nat) : Waiting :=
  ⟨a.waiters ++ [pid], a.table.modify pid fun p => { p with state := .blocked }⟩

/-- The process that has waited longest goes on. -/
def Waiting.serve (a : Waiting) : Waiting :=
  match a.waiters with
  | [] => a
  | first :: later => ⟨later, a.table.modify first fun p => { p with state := .running }⟩

def Waiting.step (a : Waiting) : Event → Waiting
  | .read pid result allocated =>
      if result = -ewouldblock ∧ allocated = true then a.wait pid else a
  | .callback _ => a.serve

theorem Waiting.step_blocking (a : Waiting) (pid : Nat) {result : Int} {allocated : Bool}
    (blocks : result = -ewouldblock ∧ allocated = true) :
    a.step (.read pid result allocated) = a.wait pid := if_pos blocks

theorem Waiting.step_other (a : Waiting) (pid : Nat) {result : Int} {allocated : Bool}
    (other : ¬ (result = -ewouldblock ∧ allocated = true)) :
    a.step (.read pid result allocated) = a := if_neg other

theorem Waiting.serve_nil {a : Waiting} (empty : a.waiters = []) : a.serve = a := by
  unfold Waiting.serve
  rw [empty]

theorem Waiting.serve_cons {a : Waiting} {first : Nat} {later : List Nat}
    (shape : a.waiters = first :: later) :
    a.serve = ⟨later, a.table.modify first fun p => { p with state := .running }⟩ := by
  unfold Waiting.serve
  rw [shape]

def Valid (d : Device) : Event → Prop
  | .read pid _ _ => pid < maxProcesses ∧ (d.kernel.process pid).isSome = true
  | .callback _ => True

/-- A reader that has to wait is not queued yet; a callback finds the queue empty, or
one waiter whose pid is also the one behind the unset pointer. -/
def Meets (d : Device) : Event → Prop
  | .read pid result allocated => result = -ewouldblock → allocated = true → pid ∉ d.queueRead
  | .callback item => d.queueRead = [] ∨ ∃ pid : Nat, d.queueRead = [pid] ∧ item = pid

/-- The device, of character type and with a read function, before the first event. -/
structure Idle (t : Table) (d : Device) : Prop where
  type : d.type = .char
  read : d.read = true
  queue : d.queueRead = []
  table : d.kernel.process = t

/-- Runs of the code beside the reference, all of whose events satisfy `ok`. -/
inductive Run (t : Table) (ok : Device → Event → Prop) : Device → Waiting → Prop where
  | start {d : Device} (idle : Idle t d) : Run t ok d ⟨[], t⟩
  | event {d d' : Device} {a : Waiting} {e : Event} (run : Run t ok d a) (valid : d.Valid e)
      (meets : ok d e) (ran : d.exec e = some d') : Run t ok d' (a.step e)

/-- The code agrees with the reference. -/
structure Simulates (d : Device) (a : Waiting) : Prop where
  queue : d.queueRead = a.waiters
  table : d.kernel.process = a.table

/-- The waiting processes: each once, all blocked, and nobody else newly blocked. -/
structure Sound (t : Table) (a : Waiting) : Prop where
  once : a.waiters.Nodup
  blocked : ∀ pid ∈ a.waiters, pid < maxProcesses ∧
    ∃ p, a.table pid = some p ∧ p.state = .blocked
  others : ∀ pid p, a.table pid = some p → p.state = .blocked →
    pid ∈ a.waiters ∨ ∃ q, t pid = some q ∧ q.state = .blocked

section Table

variable {t : Table} {slot : Nat} {p : Process} {f : Process → Process}

theorem modify_self (here : t slot = some p) : t.modify slot f slot = some (f p) := by
  unfold Table.modify
  rw [Function.update_self, here]
  rfl

theorem modify_of_ne {other : Nat} (ne : other ≠ slot) : t.modify slot f other = t other :=
  Function.update_of_ne ne _ _

/-- `setState` writes one slot. -/
theorem setState_eq {k : Kernel} {pid : Nat} (small : pid < maxProcesses)
    (here : k.process pid = some p) (state : ProcessState) :
    k.setState pid state =
      some { k with process := k.process.modify pid fun p => { p with state := state } } := by
  have found : k.processFromPid pid = some p := by
    unfold Kernel.processFromPid
    rw [if_neg (by omega)]
    exact here
  unfold Kernel.setState
  rw [found]
  unfold Table.modify
  rw [here]
  rfl

/-- A state stored through an arbitrary pid. -/
theorem setState_cases {k k' : Kernel} {item : Int} {state : ProcessState}
    (ran : k.setState item state = some k') :
    ∃ pid : Nat, item = pid ∧
      k'.process = k.process.modify pid fun p => { p with state := state } := by
  obtain ⟨p, found, result⟩ := Option.map_eq_some_iff.mp ran
  unfold Kernel.processFromPid at found
  by_cases outside : item < 0 ∨ (maxProcesses : Int) ≤ item
  · rw [if_pos outside] at found
    exact nomatch found
  · rw [if_neg outside] at found
    refine ⟨item.toNat, (Int.toNat_of_nonneg (by omega)).symm, ?_⟩
    rw [← result]
    unfold Table.modify
    rw [found]
    rfl

end Table

section Steps

variable {t : Table} {d d' : Device} {a : Waiting}

/-- What a read by `pid` does on a device that can be read. -/
theorem exec_read (type : d.type = .char) (read : d.read = true) {pid : Nat} {p : Process}
    (small : pid < maxProcesses) (here : d.kernel.process pid = some p) (result : Int)
    (allocated : Bool) :
    ∃ d', d.exec (.read pid result allocated) = some d' ∧ d'.type = d.type ∧ d'.read = d.read ∧
      ((result = -ewouldblock ∧ allocated = true ∧ d'.queueRead = d.queueRead ++ [pid] ∧
          d'.kernel.process = d.kernel.process.modify pid fun p => { p with state := .blocked }) ∨
        (¬ (result = -ewouldblock ∧ allocated = true) ∧ d'.queueRead = d.queueRead ∧
          d'.kernel.process = d.kernel.process)) := by
  unfold exec chardevRead
  dsimp only
  rw [if_neg (not_not.mpr type), if_neg (not_not.mpr read)]
  by_cases blocks : result = -ewouldblock
  · rw [if_pos blocks]
    cases allocated with
    | true =>
        have stored := setState_eq (k := { d.kernel with current := pid }) small here .blocked
        have ran : (if (0 : Int) < 0 then some (-enomem, { d with
              queueRead := d.queueRead ++ [pid]
              kernel := { d.kernel with current := pid } })
            else (Kernel.setState { d.kernel with current := pid } pid .blocked).map fun k =>
              (result, { d with queueRead := d.queueRead ++ [pid], kernel := k })) =
            some (result, { d with
              queueRead := d.queueRead ++ [pid]
              kernel := { d.kernel with
                current := pid
                process := d.kernel.process.modify pid fun p => { p with state := .blocked } } }) := by
          rw [if_neg (by decide), stored]
          rfl
        exact ⟨_, congrArg (Option.map Prod.snd) ran, rfl, rfl, Or.inl ⟨blocks, rfl, rfl, rfl⟩⟩
    | false =>
        refine ⟨_, rfl, rfl, rfl, Or.inr ⟨fun both => Bool.false_ne_true both.2, rfl, rfl⟩⟩
  · rw [if_neg blocks]
    exact ⟨_, rfl, rfl, rfl, Or.inr ⟨fun both => blocks both.1, rfl, rfl⟩⟩

/-- A callback on an empty queue. -/
theorem readCallback_empty (empty : d.queueRead = []) (item : Int) :
    d.readCallback item = some d := by
  unfold readCallback queueDequeue
  rw [empty]

/-- A callback on a queue that is not empty clears it and wakes whoever `item` names. -/
theorem readCallback_cons {first : Nat} {later : List Nat} (queue : d.queueRead = first :: later)
    {item : Int} (ran : d.readCallback item = some d') :
    d'.queueRead = [] ∧ d'.type = d.type ∧ d'.read = d.read ∧ ∃ pid : Nat, item = pid ∧
      d'.kernel.process = d.kernel.process.modify pid fun p => { p with state := .running } := by
  unfold readCallback queueDequeue at ran
  rw [queue] at ran
  obtain ⟨k, stored, rfl⟩ := Option.map_eq_some_iff.mp ran
  exact ⟨rfl, rfl, rfl, setState_cases stored⟩

theorem Sound.wait (sound : Sound t a) {pid : Nat} {p : Process} (small : pid < maxProcesses)
    (here : a.table pid = some p) (fresh : pid ∉ a.waiters) : Sound t (a.wait pid) := by
  constructor
  · refine List.nodup_append.mpr ⟨sound.once, List.nodup_singleton pid, ?_⟩
    intro q inOld r inNew same
    rw [List.mem_singleton.mp inNew] at same
    rw [same] at inOld
    exact fresh inOld
  · intro q mem
    rcases List.mem_append.mp mem with old | isNew
    · have ne : q ≠ pid := fun same => fresh (same ▸ old)
      unfold Waiting.wait
      dsimp only
      rw [modify_of_ne ne]
      exact sound.blocked q old
    · rw [List.mem_singleton.mp isNew]
      exact ⟨small, _, modify_self here, rfl⟩
  · intro q r inTable isBlocked
    by_cases same : q = pid
    · left
      rw [same]
      exact List.mem_append_right _ List.mem_cons_self
    · unfold Waiting.wait at inTable
      dsimp only at inTable
      rw [modify_of_ne same] at inTable
      exact (sound.others q r inTable isBlocked).imp (List.mem_append_left _) id

theorem Sound.serve (sound : Sound t a) : Sound t a.serve := by
  cases shape : a.waiters with
  | nil =>
      rw [Waiting.serve_nil shape]
      exact sound
  | cons first later =>
      rw [Waiting.serve_cons shape]
      have once := sound.once
      rw [shape] at once
      obtain ⟨fresh, rest⟩ := List.nodup_cons.mp once
      obtain ⟨-, p, here, -⟩ := sound.blocked first (by rw [shape]; exact List.mem_cons_self)
      constructor
      · exact rest
      · intro q mem
        have ne : q ≠ first := fun same => fresh (same ▸ mem)
        dsimp only
        rw [modify_of_ne ne]
        exact sound.blocked q (by rw [shape]; exact List.mem_cons_of_mem _ mem)
      · intro q r inTable isBlocked
        dsimp only at inTable
        by_cases same : q = first
        · rw [same, modify_self here] at inTable
          rw [← Option.some.inj inTable] at isBlocked
          exact nomatch isBlocked
        · rw [modify_of_ne same] at inTable
          rcases sound.others q r inTable isBlocked with mem | old
          · rw [shape] at mem
            exact Or.inl ((List.mem_cons.mp mem).resolve_left same)
          · exact Or.inr old

end Steps

structure Tracked (t : Table) (d : Device) (a : Waiting) : Prop where
  type : d.type = .char
  read : d.read = true
  simulates : Simulates d a
  sound : Sound t a

variable {t : Table} {d : Device} {a : Waiting}

/-- An event that meets the condition is done as the reference does it. -/
theorem Tracked.event (tracked : Tracked t d a) {e : Event} (valid : d.Valid e)
    (meets : d.Meets e) : ∃ d', d.exec e = some d' ∧ Tracked t d' (a.step e) := by
  obtain ⟨type, read, ⟨queue, table⟩, sound⟩ := tracked
  cases e with
  | read pid result allocated =>
      obtain ⟨small, occupied⟩ := valid
      obtain ⟨p, here⟩ := Option.isSome_iff_exists.mp occupied
      obtain ⟨d', ran, sameType, sameRead, effect⟩ := exec_read type read small here result allocated
      refine ⟨d', ran, sameType.trans type, sameRead.trans read, ?_, ?_⟩
      · rcases effect with ⟨blocks, got, queue', table'⟩ | ⟨not, queue', table'⟩
        · rw [a.step_blocking pid ⟨blocks, got⟩]
          constructor
          · rw [queue', queue]
            rfl
          · rw [table', table]
            rfl
        · rw [a.step_other pid not]
          exact ⟨queue'.trans queue, table'.trans table⟩
      · by_cases both : result = -ewouldblock ∧ allocated = true
        · rw [a.step_blocking pid both]
          have fresh := meets both.1 both.2
          rw [queue] at fresh
          rw [table] at here
          exact sound.wait small here fresh
        · rw [a.step_other pid both]
          exact sound
  | callback item =>
      rcases meets with empty | ⟨pid, one, same⟩
      · refine ⟨d, readCallback_empty empty item, type, read, ?_, sound.serve⟩
        rw [queue] at empty
        change Simulates d a.serve
        rw [Waiting.serve_nil empty]
        exact ⟨queue, table⟩
      · have listed : pid ∈ a.waiters := by
          rw [← queue, one]
          exact List.mem_cons_self
        obtain ⟨small, p, here, -⟩ := sound.blocked pid listed
        rw [← table] at here
        have stored := setState_eq small here .running
        have ran : d.readCallback item = some { d with
            queueRead := []
            kernel := { d.kernel with
              process := d.kernel.process.modify pid fun p => { p with state := .running } } } := by
          unfold readCallback queueDequeue
          rw [one, same]
          dsimp only
          rw [stored]
          rfl
        refine ⟨_, ran, type, read, ?_, sound.serve⟩
        rw [queue] at one
        change Simulates _ a.serve
        rw [Waiting.serve_cons one, ← table]
        exact ⟨rfl, rfl⟩

theorem Run.tracked (run : Run t Meets d a) : Tracked t d a := by
  induction run with
  | start idle =>
      refine ⟨idle.type, idle.read, ⟨idle.queue, idle.table⟩, List.nodup_nil, ?_, ?_⟩
      · exact fun pid mem => nomatch mem
      · exact fun pid p here blocked => Or.inr ⟨p, here, blocked⟩
  | event run valid meets ran ih =>
      obtain ⟨d', ran', tracked⟩ := ih.event valid meets
      rw [ran] at ran'
      rw [Option.some.inj ran']
      exact tracked

/-- An event that does not meet the condition is not done as the reference does it. -/
theorem Tracked.meets (tracked : Tracked t d a) {e : Event} (valid : d.Valid e)
    {d' : Device} (ran : d.exec e = some d') (simulates : Simulates d' (a.step e))
    (once : (a.step e).waiters.Nodup) : d.Meets e := by
  obtain ⟨type, read, ⟨queue, table⟩, sound⟩ := tracked
  cases e with
  | read pid result allocated =>
      intro blocks got mem
      rw [a.step_blocking pid ⟨blocks, got⟩] at once
      rw [queue] at mem
      exact (List.nodup_append.mp once).2.2 pid mem pid List.mem_cons_self rfl
  | callback item =>
      cases shape : d.queueRead with
      | nil => exact Or.inl shape
      | cons first later =>
          obtain ⟨cleared, -, -, pid, same, table'⟩ := readCallback_cons shape ran
          have waiters : a.waiters = first :: later := queue.symm.trans shape
          change Simulates d' a.serve at simulates
          rw [Waiting.serve_cons waiters] at simulates
          obtain ⟨queueEq, tableEq⟩ := simulates
          have noLater : later = [] := queueEq.symm.trans cleared
          obtain ⟨-, p, here, isBlocked⟩ := sound.blocked first (by
            rw [waiters]
            exact List.mem_cons_self)
          have woken : pid = first := by
            by_contra ne
            have atFirst := congrFun (table'.symm.trans tableEq) first
            dsimp only at atFirst
            rw [modify_self here, modify_of_ne (Ne.symm ne), table, here] at atFirst
            have state := congrArg Process.state (Option.some.inj atFirst)
            rw [isBlocked] at state
            exact nomatch state
          refine Or.inr ⟨first, ?_, ?_⟩
          · rw [shape, noLater]
          · rw [same, woken]

/-- While every event meets the condition, the queue holds the waiting processes in
order of arrival; and an event is done as it should be exactly when it meets it. -/
theorem queue_holds_waiters (run : Run t Meets d a) :
    Simulates d a ∧ Sound t a ∧ ∀ e, d.Valid e →
      ((∃ d', d.exec e = some d' ∧ Simulates d' (a.step e) ∧ (a.step e).waiters.Nodup) ↔
        d.Meets e) := by
  have tracked := run.tracked
  refine ⟨tracked.simulates, tracked.sound, fun e valid => ⟨?_, fun meets => ?_⟩⟩
  · rintro ⟨d', ran, simulates, once⟩
    exact tracked.meets valid ran simulates once
  · obtain ⟨d', ran, after⟩ := tracked.event valid meets
    exact ⟨d', ran, after.simulates, after.sound.once⟩

def console : Device :=
  ⟨.char, true, [], ((Kernel.bootKernel.created 4096).created 8192)⟩

theorem console_idle : Idle console.kernel.process console := ⟨rfl, rfl, rfl, rfl⟩

def next (d : Device) (e : Event) : Device := (d.exec e).getD d

theorem Run.next {ok : Device → Event → Prop} (run : Run t ok d a) {e : Event} (valid : d.Valid e)
    (meets : ok d e) (returns : (d.exec e).isSome = true) : Run t ok (d.next e) (a.step e) := by
  obtain ⟨d', ran⟩ := Option.isSome_iff_exists.mp returns
  have same : d.next e = d' := by
    unfold Device.next
    rw [ran]
    rfl
  rw [same]
  exact .event run valid meets ran

/-- Process 0 waits and is called back, and then processes 1 and 0 wait. -/
def waits : Device :=
  (((console.next (.read 0 (-ewouldblock) true)).next (.callback 0)).next
    (.read 1 (-ewouldblock) true)).next (.read 0 (-ewouldblock) true)

def waited : Waiting :=
  (((Waiting.step ⟨[], console.kernel.process⟩ (.read 0 (-ewouldblock) true)).step (.callback 0)).step
    (.read 1 (-ewouldblock) true)).step (.read 0 (-ewouldblock) true)

theorem waits_meets : Run console.kernel.process Meets waits waited := by
  have r₀ : Run console.kernel.process Meets console ⟨[], console.kernel.process⟩ :=
    .start console_idle
  have r₁ := @Run.next _ _ _ _ r₀ (.read 0 (-ewouldblock) true)
    ⟨by decide, by decide +kernel⟩ (fun _ _ => by decide +kernel) (by decide +kernel)
  have r₂ := @Run.next _ _ _ _ r₁ (.callback 0) trivial
    (Or.inr ⟨0, by decide +kernel, rfl⟩) (by decide +kernel)
  have r₃ := @Run.next _ _ _ _ r₂ (.read 1 (-ewouldblock) true)
    ⟨by decide, by decide +kernel⟩ (fun _ _ => by decide +kernel) (by decide +kernel)
  exact @Run.next _ _ _ _ r₃ (.read 0 (-ewouldblock) true)
    ⟨by decide, by decide +kernel⟩ (fun _ _ => by decide +kernel) (by decide +kernel)

theorem queue_holds_waiters_turns : waits.queueRead = [1, 0] ∧
    Simulates waits waited ∧ Sound console.kernel.process waited ∧ ∀ e, waits.Valid e →
      ((∃ d', waits.exec e = some d' ∧ Simulates d' (waited.step e) ∧ (waited.step e).waiters.Nodup) ↔
        waits.Meets e) :=
  ⟨by decide +kernel, queue_holds_waiters waits_meets⟩

/-- Two processes wait and one callback comes: the second waiter is gone. -/
theorem second_waiter_lost :
    ¬ ∀ d a, Run console.kernel.process (fun _ _ => True) d a → Simulates d a := by
  intro claim
  have r₀ : Run console.kernel.process (fun _ _ => True) console ⟨[], console.kernel.process⟩ :=
    .start console_idle
  have r₁ := @Run.next _ _ _ _ r₀ (.read 0 (-ewouldblock) true)
    ⟨by decide, by decide +kernel⟩ trivial (by decide +kernel)
  have r₂ := @Run.next _ _ _ _ r₁ (.read 1 (-ewouldblock) true)
    ⟨by decide, by decide +kernel⟩ trivial (by decide +kernel)
  have r₃ := @Run.next _ _ _ _ r₂ (.callback 0) trivial trivial (by decide +kernel)
  have queue := (claim _ _ r₃).queue
  revert queue
  decide +kernel

end Device

end TrollOS.Process
