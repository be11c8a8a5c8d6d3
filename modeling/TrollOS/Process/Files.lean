import TrollOS.Vfs.Accounting
import TrollOS.Process.Ending

/-!
# Descriptors across processes

The system calls `open`, `close`, `read`, `fork` and `exit` over the file table and the
process table together.  An entry of the file table should be in use exactly while a
living process has it in its own table, with as many references as there are such slots.
The code keeps to that as long as nothing that was opened is shared, dropped or lost, if it
is so at boot.
-/

namespace TrollOS.Process

open TrollOS.Lib TrollOS.Vfs

/-- A table of descriptors that refers to nothing but entries in `boot`. -/
def Quiet (boot : Nat → Prop) (file : Fin maxProcessFiles → Int) : Prop :=
  ∀ fd, file fd < 0 ∨ boot (file fd).toNat

/-- No entry at all. -/
def Nothing : Nat → Prop := fun _ => False

theorem quiet_nothing {file : Fin maxProcessFiles → Int} (unused : ∀ fd, file fd < 0) :
    Quiet Nothing file := fun fd => Or.inl (unused fd)

namespace Table

def fileIndex (n : Nat) : Fin maxProcessFiles := ⟨n % maxProcessFiles, Nat.mod_lt n (by decide)⟩

/-- The entry a slot of a living process refers to. -/
def liveEntry (t : Table) (n : Nat) : Option Nat :=
  match t (n / maxProcessFiles) with
  | none => none
  | some p =>
      if p.state = .zombie ∨ p.file (fileIndex n) < 0 then none
      else some (p.file (fileIndex n)).toNat

/-- How many slots of living processes refer to an entry. -/
def references (t : Table) (i : Nat) : Nat :=
  slots (maxProcesses * maxProcessFiles) fun n => t.liveEntry n == some i

/-- Every zombie has closed its files, or never opened any. -/
def ZombiesQuiet (boot : Nat → Prop) (t : Table) : Prop :=
  ∀ slot p, t slot = some p → p.state = .zombie → Quiet boot p.file

/-- Slot by slot the same descriptors, or on both sides none that counts. -/
def SameFiles (boot : Nat → Prop) (t t' : Table) : Prop :=
  ∀ slot,
    (∃ p p', t slot = some p ∧ t' slot = some p' ∧ p'.file = p.file ∧
      (p'.state = .zombie ↔ p.state = .zombie)) ∨
    ((∀ p, t slot = some p → Quiet boot p.file) ∧ ∀ p', t' slot = some p' → Quiet boot p'.file)

section SameFiles

variable {boot : Nat → Prop} {t t' t'' : Table}

theorem SameFiles.refl (boot : Nat → Prop) (t : Table) : SameFiles boot t t := by
  intro slot
  cases here : t slot with
  | none => exact Or.inr ⟨fun p same => (nomatch same), fun p same => (nomatch same)⟩
  | some p => exact Or.inl ⟨p, p, rfl, rfl, rfl, Iff.rfl⟩

theorem SameFiles.trans (first : SameFiles boot t t') (second : SameFiles boot t' t'') :
    SameFiles boot t t'' := by
  intro slot
  rcases first slot with ⟨p, p', was, is', file, life⟩ | ⟨before, between⟩
  · rcases second slot with ⟨q, q', was', is'', file', life'⟩ | ⟨between, after⟩
    · obtain rfl := Option.some.inj (is'.symm.trans was')
      exact Or.inl ⟨p, q', was, is'', file'.trans file, life'.trans life⟩
    · right
      refine ⟨fun q same => ?_, after⟩
      obtain rfl := Option.some.inj (was.symm.trans same)
      rw [← file]
      exact between p' is'
  · rcases second slot with ⟨q, q', was', is'', file', -⟩ | ⟨-, after⟩
    · right
      refine ⟨before, fun r same => ?_⟩
      obtain rfl := Option.some.inj (is''.symm.trans same)
      rw [file']
      exact between q was'
    · exact Or.inr ⟨before, after⟩

theorem SameFiles.zombiesQuiet (same : SameFiles boot t t') (quiet : ZombiesQuiet boot t) :
    ZombiesQuiet boot t' := by
  intro slot p' here zombie
  rcases same slot with ⟨p, q, was, is', file, life⟩ | ⟨-, after⟩
  · obtain rfl := Option.some.inj (is'.symm.trans here)
    rw [file]
    exact quiet slot p was (life.mp zombie)
  · exact after p' here

theorem quiet_liveEntry {n i : Nat} (quiet : ∀ p, t (n / maxProcessFiles) = some p →
    Quiet boot p.file) (other : ¬ boot i) : (t.liveEntry n == some i) = false := by
  rw [beq_eq_false_iff_ne]
  intro refers
  unfold liveEntry at refers
  cases here : t (n / maxProcessFiles) with
  | none =>
      rw [here] at refers
      exact nomatch refers
  | some p =>
      rw [here] at refers
      dsimp only at refers
      split at refers
      · exact nomatch refers
      · next open' =>
          rcases quiet p here (fileIndex n) with negative | known
          · exact open' (Or.inr negative)
          · rw [Option.some.inj refers] at known
            exact other known

/-- The references to an entry that is not in `boot` stay as they are. -/
theorem SameFiles.references (same : SameFiles boot t t') {i : Nat} (other : ¬ boot i) :
    t'.references i = t.references i := by
  refine slots_congr fun n _ => ?_
  rcases same (n / maxProcessFiles) with ⟨p, p', was, is', file, life⟩ | ⟨before, after⟩
  · unfold liveEntry
    rw [was, is']
    simp only [file, life]
  · rw [quiet_liveEntry before other, quiet_liveEntry after other]

theorem modify_some {slot : Nat} {p : Process} {f : Process → Process} (here : t slot = some p) :
    t.modify slot f = Function.update t slot (some (f p)) := by
  unfold Table.modify
  rw [here]
  rfl

/-- A write through a pointer that keeps the descriptors and the life. -/
theorem SameFiles.modify (boot : Nat → Prop) (t : Table) (slot : Nat) {f : Process → Process}
    (kept : ∀ p, t slot = some p → (f p).file = p.file ∧
      ((f p).state = .zombie ↔ p.state = .zombie) ∨ Quiet boot p.file ∧ Quiet boot (f p).file) :
    SameFiles boot t (t.modify slot f) := by
  intro other
  by_cases same : other = slot
  · subst same
    unfold Table.modify
    rw [Function.update_self]
    cases here : t other with
    | none => exact Or.inr ⟨fun p none => (nomatch none), fun p none => (nomatch none)⟩
    | some p =>
        rcases kept p here with ⟨file, life⟩ | ⟨before, after⟩
        · exact Or.inl ⟨p, f p, rfl, rfl, file, life⟩
        · exact Or.inr ⟨fun q same => Option.some.inj same ▸ before,
            fun q same => Option.some.inj same ▸ after⟩
  · unfold Table.modify
    have rest := SameFiles.refl boot t other
    rwa [Function.update_of_ne same]

/-- Waking processes, quiet zombies among them. -/
theorem SameFiles.woken (quiet : ZombiesQuiet boot t) (woken : Kernel.Woken t t') :
    SameFiles boot t t' := by
  intro slot
  rcases woken slot with same | ⟨p, here, woke⟩
  · have rest := SameFiles.refl boot t slot
    rwa [← same] at rest ⊢
  · by_cases zombie : p.state = .zombie
    · right
      constructor
      · intro q was
        exact quiet slot q was (by rw [← Option.some.inj (here.symm.trans was)]; exact zombie)
      · intro q is'
        obtain rfl := Option.some.inj (woke.symm.trans is')
        exact quiet slot p here zombie
    · exact Or.inl ⟨p, _, here, woke, rfl, fun wrong => (nomatch wrong), fun wrong => absurd wrong zombie⟩

theorem SameFiles.quiet_at (same : SameFiles boot t t') {slot : Nat}
    (quiet : ∀ p, t slot = some p → Quiet boot p.file) {p' : Process} (here : t' slot = some p') :
    Quiet boot p'.file := by
  rcases same slot with ⟨p, q, was, is', file, -⟩ | ⟨-, after⟩
  · obtain rfl := Option.some.inj (is'.symm.trans here)
    rw [file]
    exact quiet p was
  · exact after p' here

/-- Storing a state; what becomes a zombie refers to nothing. -/
theorem SameFiles.setState (quiet : ZombiesQuiet boot t) (slot : Nat) {state : ProcessState}
    (dead : state = .zombie → ∀ p, t slot = some p → Quiet boot p.file) :
    SameFiles boot t (t.modify slot fun p => { p with state := state }) := by
  refine SameFiles.modify boot t slot fun p here => ?_
  by_cases zombie : state = .zombie
  · exact Or.inr ⟨dead zombie p here, dead zombie p here⟩
  · by_cases was : p.state = .zombie
    · exact Or.inr ⟨quiet slot p here was, quiet slot p here was⟩
    · exact Or.inl ⟨rfl, fun now => absurd now zombie, fun now => absurd now was⟩

end SameFiles

end Table

namespace Kernel

open Table

variable {boot : Nat → Prop} {k k' : Kernel}

theorem processFromPid_at {pid : Int} {p : Process} (found : k.processFromPid pid = some p) :
    k.process pid.toNat = some p := by
  unfold processFromPid at found
  split at found
  · exact nomatch found
  · exact found

/-- A process that refers to nothing may end. -/
theorem processExit_sameFiles (quiet : ZombiesQuiet boot k.process) {pid value : Int}
    (unused : ∀ p, k.processFromPid pid = some p → Quiet boot p.file)
    (ran : k.processExit pid value = some k') : SameFiles boot k.process k'.process := by
  rcases processExit_cases ran with ⟨-, rfl⟩ | ⟨p, t, kept, k₁, found, callbacks, switched, rfl⟩
  · exact SameFiles.refl boot k'.process
  · have here := processFromPid_at found
    have awake := SameFiles.woken quiet (runCallbacks_woken p.callback callbacks)
    have removed := SameFiles.modify boot t pid.toNat (f := fun p => { p with callback := kept })
      fun q _ => Or.inl ⟨rfl, Iff.rfl⟩
    have table : k₁.process = t.modify pid.toNat fun p => { p with callback := kept } := by
      split at switched
      · obtain ⟨next, -, switch⟩ := Option.bind_eq_some_iff.mp switched
        obtain ⟨q, -, rfl⟩ := Option.map_eq_some_iff.mp switch
        rfl
      · exact congrArg Kernel.process (Option.some.inj switched).symm
    have before := awake.trans removed
    rw [← table] at before
    refine before.trans (SameFiles.modify boot k₁.process pid.toNat fun q now => Or.inr ?_)
    have quiet_now : Quiet boot _ := before.quiet_at
      (fun r was => by rw [← Option.some.inj (here.symm.trans was)]; exact unused p found) now
    exact ⟨quiet_now, quiet_now⟩

/-- A new process has no files. -/
theorem processCreate_sameFiles (boot : Nat → Prop) {uid gid r : Int} {memory : Option Process}
    {frame : Nat} (ran : k.processCreate uid gid memory frame = some (r, k')) :
    SameFiles boot k.process k'.process := by
  rcases processCreate_cases ran with ⟨-, ⟨last, rfl⟩, -⟩ | ⟨last, pid, old, -, -, search, rfl⟩
  · exact SameFiles.refl boot k.process
  · have free := (slotSearch_free _ search).2
    intro slot
    by_cases same : slot = pid
    · subst same
      right
      refine ⟨fun p here => (nomatch free.symm.trans here), fun p here => ?_⟩
      dsimp only at here
      rw [Function.update_self] at here
      obtain rfl := Option.some.inj here
      exact fun fd => Or.inl (by decide : (-1 : Int) < 0)
    · have rest := SameFiles.refl boot k.process slot
      dsimp only
      rwa [Function.update_of_ne same]

theorem setState_sameFiles (quiet : ZombiesQuiet boot k.process) {pid : Int}
    {state : ProcessState}
    (dead : state = .zombie → ∀ p, k.process pid.toNat = some p → Quiet boot p.file)
    (ran : k.setState pid state = some k') : SameFiles boot k.process k'.process := by
  rw [setState_table ran]
  exact SameFiles.setState quiet pid.toNat dead

/-- Waiting for a zombie removes it, with the files it no longer has. -/
theorem processWait_sameFiles (quiet : ZombiesQuiet boot k.process) {pid r : Int}
    {allocated : Bool} (ran : k.processWait pid allocated = some (r, k')) :
    SameFiles boot k.process k'.process := by
  unfold processWait at ran
  split at ran
  · obtain ⟨-, rfl⟩ := Prod.mk.inj (Option.some.inj ran)
    exact SameFiles.refl boot k.process
  · dsimp only at ran
    cases here : k.process pid.toNat with
    | none =>
        rw [here] at ran
        obtain ⟨-, rfl⟩ := Prod.mk.inj (Option.some.inj ran)
        exact SameFiles.refl boot k.process
    | some proc =>
        rw [here] at ran
        dsimp only at ran
        split at ran
        · next zombie =>
            obtain ⟨-, rfl⟩ := Prod.mk.inj (Option.some.inj ran)
            intro slot
            by_cases same : slot = pid.toNat
            · subst same
              refine Or.inr ⟨fun p was => ?_, fun p now => ?_⟩
              · obtain rfl := Option.some.inj (here.symm.trans was)
                exact quiet _ proc here zombie
              · dsimp only at now
                rw [Function.update_self] at now
                exact nomatch now
            · have rest := SameFiles.refl boot k.process slot
              dsimp only
              rwa [Function.update_of_ne same]
        · split at ran
          · obtain ⟨p, current, result⟩ := Option.map_eq_some_iff.mp ran
            obtain ⟨-, rfl⟩ := Prod.mk.inj result
            have called := SameFiles.modify boot k.process pid.toNat
              (f := fun p => { p with callback := ⟨k.current⟩ :: p.callback })
              fun q _ => Or.inl ⟨rfl, Iff.rfl⟩
            have blocked := @SameFiles.setState _ _ (called.zombiesQuiet quiet) k.current
              .blocked fun wrong => (nomatch wrong)
            rw [modify_some current] at blocked
            exact called.trans blocked
          · exact nomatch ran

theorem processCreate_quiet (boot : Nat → Prop) {uid gid r : Int} {memory : Option Process}
    {frame : Nat} (ran : k.processCreate uid gid memory frame = some (r, k')) (made : ¬ r < 0)
    {new : Process} (found : k'.processFromPid r = some new) : Quiet boot new.file := by
  rcases processCreate_cases ran with ⟨negative, -, -⟩ | ⟨last, pid, old, -, rfl, -, rfl⟩
  · exact absurd negative made
  · have here := processFromPid_at found
    dsimp only at here
    rw [Int.toNat_natCast, Function.update_self] at here
    obtain rfl := Option.some.inj here
    exact fun fd => Or.inl (by decide : (-1 : Int) < 0)

/-- Only a fork that succeeds shares the files of the parent. -/
theorem fork_sameFiles (quiet : ZombiesQuiet boot k.process)
    {memory : Option Process} {frame : Nat} {cloned : Bool} {r : Int}
    (unused : memory ≠ none → cloned = true →
      ∀ p, k.processFromPid k.current = some p → Quiet boot p.file)
    (ran : k.fork memory frame cloned = some (r, k')) : SameFiles boot k.process k'.process := by
  unfold fork at ran
  cases parent : k.processFromPid k.current with
  | none =>
      rw [parent] at ran
      obtain ⟨-, rfl⟩ := Prod.mk.inj (Option.some.inj ran)
      exact SameFiles.refl boot k.process
  | some current =>
      rw [parent] at ran
      obtain ⟨⟨pid, k₁⟩, create, rest⟩ := Option.bind_eq_some_iff.mp ran
      have created := processCreate_sameFiles boot create
      dsimp only at rest
      split at rest
      · obtain ⟨-, rfl⟩ := Prod.mk.inj (Option.some.inj rest)
        exact created
      · next made =>
          cases child : k₁.processFromPid pid with
          | none =>
              rw [child] at rest
              obtain ⟨-, rfl⟩ := Prod.mk.inj (Option.some.inj rest)
              exact created
          | some new =>
              rw [child] at rest
              have fresh := processCreate_quiet boot create made child
              have here := processFromPid_at child
              cases cloned with
              | true =>
                  obtain ⟨-, rfl⟩ := Prod.mk.inj (Option.some.inj rest)
                  have room : memory ≠ none := by
                    rcases processCreate_cases create with ⟨negative, -⟩ | ⟨_, _, _, room, -⟩
                    · exact absurd negative made
                    · rw [room]
                      exact Option.some_ne_none _
                  refine created.trans ?_
                  have copied := SameFiles.modify boot k₁.process pid.toNat
                    (f := fun child => forkedProcess current child pid.toNat)
                    fun q now => Or.inr ⟨by
                      rw [← Option.some.inj (here.symm.trans now)]; exact fresh,
                      unused room rfl current parent⟩
                  rw [modify_some here] at copied
                  exact copied
              | false =>
                  obtain ⟨k₂, exits, rest⟩ := Option.bind_eq_some_iff.mp rest
                  obtain ⟨k₃, stored, rest⟩ := Option.bind_eq_some_iff.mp rest
                  obtain ⟨⟨result, k₄⟩, waits, same⟩ := Option.map_eq_some_iff.mp rest
                  obtain ⟨-, rfl⟩ := Prod.mk.inj same
                  have quiet₁ := created.zombiesQuiet quiet
                  have ended := processExit_sameFiles quiet₁
                    (fun p found => by
                      rw [← Option.some.inj (child.symm.trans found)]; exact fresh) exits
                  have quiet₂ := ended.zombiesQuiet quiet₁
                  have dead := setState_sameFiles quiet₂
                    (fun _ p now => ended.quiet_at (fun q was => by
                      rw [← Option.some.inj (here.symm.trans was)]; exact fresh) now) stored
                  have waited := processWait_sameFiles (dead.zombiesQuiet quiet₂) waits
                  exact created.trans (ended.trans (dead.trans waited))

end Kernel

structure System (ι : Type) where
  vfs : Vfs ι
  kernel : Kernel

/-- The system calls on descriptors; what memory and the page mapper answer is an
argument. -/
inductive FileCall where
  | open (filename : Option (List UInt8))
  | close (fd : Int)
  | read (fd : Int) (count : Nat)
  | fork (memory : Option Process) (frame : Nat) (cloned : Bool)
  | exit (value : Int)

namespace System

variable {ι : Type}

def «open» (s : System ι) (filename : Option (List UInt8)) : Option (Int × System ι) :=
  match filename, s.kernel.processFromPid s.kernel.current with
  | none, _ => some (-einval, s)
  | some _, none => some (-einval, s)
  | some path, some _ =>
      match s.vfs.vfsOpen path with
      | (.hang, _) => none
      | (.error errno, vfs) => some (errno, { s with vfs := vfs })
      | (.value globalFd, vfs) =>
          some ((s.kernel.openFile true globalFd).1, ⟨vfs, (s.kernel.openFile true globalFd).2⟩)

def close (s : System ι) (_ : Int) : Int × System ι := (0, s)

/-- A character device that has nothing to read blocks the reader. -/
def blocks (v : Vfs ι) (globalFd : Nat) (answer : Int) : Bool :=
  (v.file globalFd).isDevice && answer == -ewouldblock &&
    match v.world.deviceLookup (v.file globalFd).data with
    | some (.char _ _) => true
    | _ => false

def read (s : System ι) (fd : Int) (count : Nat) : Option (Int × System ι) :=
  if bound : fd < 0 ∨ (maxProcessFiles : Int) ≤ fd then some (-ebadf, s)
  else
    match s.kernel.processFromPid s.kernel.current with
    | none => some (-einval, s)
    | some proc =>
        let globalFd := proc.file ⟨fd.toNat, Kernel.fileIndex_lt bound⟩
        if globalFd < 0 then some (-ebadf, s)
        else
          (s.vfs.vfsRead globalFd count).bind fun (answer, vfs) =>
            if blocks s.vfs globalFd.toNat answer.1 then
              (s.kernel.setState s.kernel.current .blocked).map fun k => (answer.1, ⟨vfs, k⟩)
            else some (answer.1, { s with vfs := vfs })

def exec (s : System ι) : FileCall → Option (Int × System ι)
  | .open filename => s.open filename
  | .close fd => some (s.close fd)
  | .read fd count => s.read fd count
  | .fork memory frame cloned =>
      (s.kernel.fork memory frame cloned).map fun (result, k) => (result, { s with kernel := k })
  | .exit value =>
      (s.kernel.syscallExit value).map fun (result, k) => (result, { s with kernel := k })

def at' (s : System ι) (pid : Nat) : System ι :=
  { s with kernel := { s.kernel with current := pid } }

def Lives (s : System ι) (pid : Nat) (p : Process) : Prop :=
  pid < maxProcesses ∧ s.kernel.process pid = some p ∧ p.state ≠ .zombie

/-- What has been opened at boot is in use, and every other entry exactly while a living
process refers to it; every entry has as many references as slots. -/
structure Balanced (boot : Nat → Prop) (s : System ι) : Prop where
  opened : ∀ i, boot i → i < maxGlobalFiles ∧ (s.vfs.file i).isUsed = true
  used_iff : ∀ i, i < maxGlobalFiles → ¬ boot i →
    ((s.vfs.file i).isUsed = true ↔ 0 < s.kernel.process.references i)
  ref_eq : ∀ i, i < maxGlobalFiles → (s.vfs.file i).ref = s.kernel.process.references i

/-- A failing open changes no table; after a close that succeeds the descriptor is bad. -/
def CallRight (s : System ι) : FileCall → Prop
  | .open filename => ∀ r s', s.open filename = some (r, s') → r < 0 →
      s'.vfs.file = s.vfs.file ∧
        ∀ slot, (s'.kernel.process slot).map Process.file =
          (s.kernel.process slot).map Process.file
  | .close fd => (s.close fd).1 = 0 → ∀ count, ∃ s', (s.close fd).2.read fd count = some (-ebadf, s')
  | _ => True

def Opened (file : Fin maxProcessFiles → Int) (fd : Int) : Prop :=
  ∃ i : Fin maxProcessFiles, (i.val : Int) = fd ∧ 0 ≤ file i

/-- The calls the code handles as it should: it opens a file when the process has a free
slot, closes what is not open, and ends, or forks with success, a process that has no file
open. -/
def Meets (s : System ι) (p : Process) : FileCall → Prop
  | .open (some path) => (∃ fd v, s.vfs.vfsOpen path = (.value fd, v)) → ∃ i, p.file i < 0
  | .close fd => ¬ Opened p.file fd
  | .fork memory _ cloned => memory ≠ none → cloned = true → ∀ fd, p.file fd < 0
  | .exit _ => ∀ fd, p.file fd < 0
  | _ => True

/-- The tables as `main` leaves them: only the kernel has opened files, and processes, all
of them living, refer to nothing else. -/
structure Booted (boot : Nat → Prop) (s : System ι) : Prop where
  opened : ∀ i, boot i → i < maxGlobalFiles ∧ (s.vfs.file i).isUsed = true
  rest : ∀ i, ¬ boot i → (s.vfs.file i).isUsed = false ∧ (s.vfs.file i).ref = 0
  processes : ∀ slot p, s.kernel.process slot = some p → Quiet boot p.file
  living : ∀ slot p, s.kernel.process slot = some p → p.state ≠ .zombie

/-- What is open at boot has been counted once for each slot. -/
def Counted (boot : Nat → Prop) (s : System ι) : Prop :=
  ∀ i, boot i → (s.vfs.file i).ref = s.kernel.process.references i

/-- Runs of calls by any living processes, all of which meet the condition. -/
inductive MeetingRun (start : System ι) : System ι → Prop where
  | boot : MeetingRun start start
  | call {s s' : System ι} {pid : Nat} {p : Process} {c : FileCall} {r : Int}
      (run : MeetingRun start s) (lives : s.Lives pid p) (meets : s.Meets p c)
      (ran : (s.at' pid).exec c = some (r, s')) : MeetingRun start s'

/-! ## One call -/

/-- Entry by entry the same use and the same count. -/
def SameCounts (v v' : Vfs ι) : Prop :=
  ∀ i, (v'.file i).isUsed = (v.file i).isUsed ∧ (v'.file i).ref = (v.file i).ref

theorem SameCounts.refl (v : Vfs ι) : SameCounts v v := fun _ => ⟨rfl, rfl⟩

/-- Reading moves at most a position. -/
theorem vfsRead_sameCounts {v v' : Vfs ι} {fd : Int} {count : Nat} {answer : Int × List UInt8}
    (ran : v.vfsRead fd count = some (answer, v')) : SameCounts v v' := by
  rcases vfsRead_moves ran with rfl | ⟨target, rfl⟩
  · exact SameCounts.refl v'
  · intro i
    by_cases same : i = fd.toNat
    · subst same
      simp [Vfs.setFile]
    · simp [Vfs.setFile, same]

variable {boot : Nat → Prop} {s s' : System ι}

/-- The books stay balanced where neither the counts nor the descriptors change. -/
theorem Balanced.same (balanced : Balanced boot s) (counts : SameCounts s.vfs s'.vfs)
    (files : Table.SameFiles Nothing s.kernel.process s'.kernel.process) : Balanced boot s' := by
  have references (i : Nat) : s'.kernel.process.references i = s.kernel.process.references i :=
    files.references id
  refine ⟨fun i known => ?_, fun i small other => ?_, fun i small => ?_⟩
  · rw [(counts i).1]
    exact balanced.opened i known
  · rw [(counts i).1, references]
    exact balanced.used_iff i small other
  · rw [(counts i).2, references]
    exact balanced.ref_eq i small

theorem fileIndex_at {pid : Nat} (fd : Fin maxProcessFiles) :
    (pid * maxProcessFiles + fd) / maxProcessFiles = pid ∧
      Table.fileIndex (pid * maxProcessFiles + fd) = fd := by
  have small := fd.isLt
  unfold Table.fileIndex maxProcessFiles at *
  exact ⟨by omega, Fin.ext (by dsimp only; omega)⟩

/-- A free slot of a living process comes to refer to an entry. -/
theorem references_open {t : Table} {pid : Nat} {p : Process} (small : pid < maxProcesses)
    (here : t pid = some p) (live : p.state ≠ .zombie) {fd : Fin maxProcessFiles}
    (free : p.file fd < 0) (globalFd i : Nat) :
    (t.modify pid fun p => { p with file := Function.update p.file fd globalFd }).references i =
      t.references i + (globalFd == i).toNat := by
  obtain ⟨slot, index⟩ := @fileIndex_at pid fd
  have inside : pid * maxProcessFiles + fd < maxProcesses * maxProcessFiles := by
    have bound := fd.isLt
    unfold maxProcesses maxProcessFiles at *
    omega
  have before : t.liveEntry (pid * maxProcessFiles + fd) = none := by
    unfold Table.liveEntry
    rw [slot, here, index]
    exact if_pos (Or.inr free)
  have after : (t.modify pid fun p => { p with file := Function.update p.file fd globalFd }).liveEntry
      (pid * maxProcessFiles + fd) = some globalFd := by
    unfold Table.liveEntry
    rw [slot, Table.modify_some here, Function.update_self, index]
    simp only [Function.update_self, Int.toNat_natCast]
    refine if_neg ?_
    rintro (zombie | negative)
    · exact live zombie
    · omega
  have moved := slots_change
    (p := fun n => t.liveEntry n == some i)
    (q := fun n => (t.modify pid fun p =>
      { p with file := Function.update p.file fd globalFd }).liveEntry n == some i)
    inside fun n other => by
      unfold Table.liveEntry
      rw [Table.modify_some here]
      by_cases same : n / maxProcessFiles = pid
      · rw [same, Function.update_self, here]
        have elsewhere : Table.fileIndex n ≠ fd := by
          intro equal
          refine other ?_
          have value := congrArg Fin.val equal
          unfold Table.fileIndex at value
          dsimp only at value
          unfold maxProcessFiles at *
          omega
        simp only [Function.update_of_ne elsewhere]
      · rw [Function.update_of_ne same]
  unfold Table.references
  rw [before, after] at moved
  have none_there : ((none : Option Nat) == some i).toNat = 0 := rfl
  have some_there : (some globalFd == some i) = (globalFd == i) := rfl
  rw [none_there, some_there, Nat.add_zero] at moved
  exact moved

/-- An entry nobody used is filled for a slot of a living process. -/
theorem Balanced.filled (balanced : Balanced boot s) {pid globalFd : Nat} {p : Process}
    (lives : s.Lives pid p) {fd : Fin maxProcessFiles} (free : p.file fd < 0)
    (inside : globalFd < maxGlobalFiles) (unused : (s.vfs.file globalFd).isUsed = false)
    (used : (s'.vfs.file globalFd).isUsed = true) (ref : (s'.vfs.file globalFd).ref = 1)
    (others : ∀ i, i ≠ globalFd → s'.vfs.file i = s.vfs.file i)
    (table : s'.kernel.process = s.kernel.process.modify pid fun p =>
      { p with file := Function.update p.file fd globalFd }) : Balanced boot s' := by
  obtain ⟨small, here, live⟩ := lives
  have foreign : ¬ boot globalFd := by
    intro known
    rw [(balanced.opened globalFd known).2] at unused
    exact nomatch unused
  have counted (i : Nat) : s'.kernel.process.references i =
      s.kernel.process.references i + (globalFd == i).toNat := by
    rw [table]
    exact references_open small here live free globalFd i
  have none_before : s.kernel.process.references globalFd = 0 := by
    have iff := balanced.used_iff globalFd inside foreign
    rw [unused] at iff
    have nothing : ¬ 0 < s.kernel.process.references globalFd := fun some => nomatch iff.mpr some
    omega
  have one_now : s'.kernel.process.references globalFd = 1 := by
    rw [counted, none_before, beq_self_eq_true]
    rfl
  have same_now (i : Nat) (other : i ≠ globalFd) :
      s'.kernel.process.references i = s.kernel.process.references i := by
    rw [counted, beq_eq_false_iff_ne.mpr other.symm, Bool.toNat_false, Nat.add_zero]
  refine ⟨fun i known => ?_, fun i bound other => ?_, fun i bound => ?_⟩
  · have apart : i ≠ globalFd := fun same => foreign (same ▸ known)
    rw [others i apart]
    exact balanced.opened i known
  · by_cases same : i = globalFd
    · rw [same, used, one_now]
      decide
    · rw [others i same, same_now i same]
      exact balanced.used_iff i bound other
  · by_cases same : i = globalFd
    · rw [same, ref, one_now]
      rfl
    · rw [others i same, same_now i same]
      exact balanced.ref_eq i bound

/-- What `vfs_open` changes when it succeeds. -/
theorem vfsOpen_value {v v' : Vfs ι} {path : List UInt8} {globalFd : Nat}
    (opened : v.vfsOpen path = (.value globalFd, v')) :
    globalFd < maxGlobalFiles ∧ (v.file globalFd).isUsed = false ∧
      (v'.file globalFd).isUsed = true ∧ (v'.file globalFd).ref = 1 ∧
      ∀ i, i ≠ globalFd → v'.file i = v.file i := by
  unfold Vfs.vfsOpen at opened
  cases found : v.vfsStat path with
  | error errno =>
      rw [found] at opened
      exact nomatch (Prod.mk.inj opened).1
  | hang =>
      rw [found] at opened
      exact nomatch (Prod.mk.inj opened).1
  | value result =>
      obtain ⟨mp, st⟩ := result
      rw [found] at opened
      cases free : v.allocFile with
      | none =>
          rw [free] at opened
          exact nomatch (Prod.mk.inj opened).1
      | some fd =>
          rw [free] at opened
          obtain ⟨same, rfl⟩ := Prod.mk.inj opened
          obtain rfl := Outcome.value.inj same
          obtain ⟨inside, unused⟩ := allocFile_free free
          have entry : (((v.setFile fd (openedEntry (v.file fd) mp st)).addOpenFile mp).file fd) =
              openedEntry (v.file fd) mp st := if_pos rfl
          refine ⟨inside, unused, by rw [entry]; rfl, by rw [entry]; rfl, fun i other => ?_⟩
          exact if_neg other

theorem vfsOpen_error {v v' : Vfs ι} {path : List UInt8} {errno : Int}
    (opened : v.vfsOpen path = (.error errno, v')) : v' = v := by
  unfold Vfs.vfsOpen at opened
  cases found : v.vfsStat path with
  | error errno =>
      rw [found] at opened
      exact (Prod.mk.inj opened).2.symm
  | hang =>
      rw [found] at opened
      exact (Prod.mk.inj opened).2.symm
  | value result =>
      rw [found] at opened
      cases free : v.allocFile with
      | none =>
          rw [free] at opened
          exact (Prod.mk.inj opened).2.symm
      | some fd =>
          rw [free] at opened
          exact nomatch (Prod.mk.inj opened).1

/-- What holds in every state of a run: the books are balanced, and no zombie keeps a
file. -/
structure Kept (boot : Nat → Prop) (s : System ι) : Prop where
  balanced : Balanced boot s
  quiet : Table.ZombiesQuiet Nothing s.kernel.process

theorem Kept.same (kept : Kept boot s) (counts : SameCounts s.vfs s'.vfs)
    (files : Table.SameFiles Nothing s.kernel.process s'.kernel.process) : Kept boot s' :=
  ⟨kept.balanced.same counts files, files.zombiesQuiet kept.quiet⟩

theorem Booted.kept (start : Booted boot s) (counted : Counted boot s) : Kept boot s := by
  have nobody (i : Nat) (other : ¬ boot i) : s.kernel.process.references i = 0 :=
    slots_none fun n _ => Table.quiet_liveEntry (start.processes _) other
  refine ⟨⟨start.opened, fun i _ other => ?_, fun i _ => ?_⟩,
    fun slot p here zombie => absurd zombie (start.living slot p here)⟩
  · rw [(start.rest i other).1, nobody i other]
    decide
  · by_cases known : boot i
    · exact counted i known
    · rw [(start.rest i known).2, nobody i known]
      rfl

variable {pid : Nat} {p : Process} {r : Int}

theorem at'_current (lives : s.Lives pid p) :
    (s.at' pid).kernel.processFromPid (s.at' pid).kernel.current = some p := by
  obtain ⟨small, here, -⟩ := lives
  have inside : ¬ ((pid : Int) < 0 ∨ (maxProcesses : Int) ≤ pid) := by omega
  show (if (pid : Int) < 0 ∨ (maxProcesses : Int) ≤ pid then none
    else s.kernel.process (pid : Int).toNat) = some p
  rw [if_neg inside, Int.toNat_natCast, here]

/-- A free slot is found, and filled. -/
theorem openFile_free {k : Kernel} (current : k.processFromPid k.current = some p)
    {free : Fin maxProcessFiles} (isFree : p.file free < 0) (globalFd : Nat) :
    ∃ fd, p.file fd < 0 ∧ k.openFile true globalFd = (((fd : Fin maxProcessFiles).val : Int),
      { k with process := k.process.modify k.current fun p =>
          { p with file := Function.update p.file fd globalFd } }) := by
  have found : ((List.finRange maxProcessFiles).find? fun fd => decide (p.file fd < 0)).isSome := by
    rw [List.find?_isSome]
    exact ⟨free, List.mem_finRange free, decide_eq_true isFree⟩
  obtain ⟨fd, first⟩ := Option.isSome_iff_exists.mp found
  have negative := List.find?_some (p := fun fd => decide (p.file fd < 0)) first
  refine ⟨fd, of_decide_eq_true negative, ?_⟩
  have named : ¬ ¬ (true = true) := fun wrong => wrong rfl
  have positive : ¬ ((globalFd : Int) < 0) := by omega
  unfold Kernel.openFile
  rw [if_neg named, current]
  dsimp only
  rw [if_neg positive, first]

/-- Everything an open can do: nothing at all, or fill an entry for a free slot. -/
theorem open_cases (lives : s.Lives pid p) {filename : Option (List UInt8)}
    (meets : s.Meets p (.open filename))
    (ran : (s.at' pid).open filename = some (r, s')) :
    s'.vfs = s.vfs ∧ s'.kernel = (s.at' pid).kernel ∨
    ∃ path globalFd v fd, filename = some path ∧ r = (fd : Fin maxProcessFiles).val ∧
      p.file fd < 0 ∧ s.vfs.vfsOpen path = (.value globalFd, v) ∧ s'.vfs = v ∧
      s'.kernel.process = s.kernel.process.modify pid fun p =>
        { p with file := Function.update p.file fd globalFd } := by
  unfold System.open at ran
  rw [at'_current lives] at ran
  cases filename with
  | none =>
      obtain ⟨-, rfl⟩ := Prod.mk.inj (Option.some.inj ran)
      exact Or.inl ⟨rfl, rfl⟩
  | some path =>
      dsimp only at ran
      have here : (s.at' pid).vfs = s.vfs := rfl
      rw [here] at ran
      cases opened : s.vfs.vfsOpen path with
      | mk outcome v =>
          rw [opened] at ran
          cases outcome with
          | hang => exact nomatch ran
          | error errno =>
              obtain ⟨-, rfl⟩ := Prod.mk.inj (Option.some.inj ran)
              exact Or.inl ⟨vfsOpen_error opened, rfl⟩
          | value globalFd =>
              obtain ⟨free, isFree⟩ := meets ⟨globalFd, v, opened⟩
              obtain ⟨fd, negative, filled⟩ :=
                openFile_free (at'_current lives) isFree globalFd
              obtain ⟨code, rfl⟩ := Prod.mk.inj (Option.some.inj ran)
              rw [filled] at code ⊢
              exact Or.inr ⟨path, globalFd, v, fd, rfl, code.symm, negative, opened, rfl, rfl⟩

theorem Kept.open (kept : Kept boot s) (lives : s.Lives pid p)
    {filename : Option (List UInt8)} (meets : s.Meets p (.open filename))
    (ran : (s.at' pid).open filename = some (r, s')) : Kept boot s' := by
  rcases open_cases lives meets ran with
    ⟨vfs, kernel⟩ | ⟨path, globalFd, v, fd, -, -, free, opened, rfl, table⟩
  · refine kept.same ?_ ?_
    · rw [vfs]
      exact SameCounts.refl s.vfs
    · rw [kernel]
      exact Table.SameFiles.refl Nothing s.kernel.process
  · obtain ⟨inside, unused, used, ref, others⟩ := vfsOpen_value opened
    refine ⟨kept.balanced.filled lives free inside unused used ref others table, ?_⟩
    intro slot q now zombie
    obtain ⟨small, here, live⟩ := lives
    rw [table, Table.modify_some here] at now
    by_cases same : slot = pid
    · rw [same, Function.update_self] at now
      obtain rfl := Option.some.inj now
      exact absurd zombie live
    · rw [Function.update_of_ne same] at now
      exact kept.quiet slot q now zombie

theorem Kept.read (kept : Kept boot s) {fd : Int} {count : Nat}
    (ran : s.read fd count = some (r, s')) : Kept boot s' := by
  have same := kept.same (SameCounts.refl s.vfs) (Table.SameFiles.refl Nothing s.kernel.process)
  unfold System.read at ran
  split at ran
  · obtain ⟨-, rfl⟩ := Prod.mk.inj (Option.some.inj ran)
    exact same
  · cases current : s.kernel.processFromPid s.kernel.current with
    | none =>
        rw [current] at ran
        obtain ⟨-, rfl⟩ := Prod.mk.inj (Option.some.inj ran)
        exact same
    | some proc =>
        rw [current] at ran
        dsimp only at ran
        split at ran
        · obtain ⟨-, rfl⟩ := Prod.mk.inj (Option.some.inj ran)
          exact same
        · obtain ⟨⟨answer, v⟩, answered, rest⟩ := Option.bind_eq_some_iff.mp ran
          have counts := vfsRead_sameCounts answered
          dsimp only at rest
          split at rest
          · obtain ⟨k, stored, result⟩ := Option.map_eq_some_iff.mp rest
            obtain ⟨-, rfl⟩ := Prod.mk.inj result
            have files := Kernel.setState_sameFiles kept.quiet
              (fun wrong : ProcessState.blocked = .zombie => (nomatch wrong)) stored
            exact kept.same counts files
          · obtain ⟨-, rfl⟩ := Prod.mk.inj (Option.some.inj rest)
            exact kept.same counts (Table.SameFiles.refl Nothing s.kernel.process)

/-- Each call that meets the condition keeps the books. -/
theorem Kept.exec (kept : Kept boot s) (lives : s.Lives pid p) {c : FileCall}
    (meets : s.Meets p c) (ran : (s.at' pid).exec c = some (r, s')) : Kept boot s' := by
  have moved : Kept boot (s.at' pid) :=
    kept.same (SameCounts.refl s.vfs) (Table.SameFiles.refl Nothing s.kernel.process)
  have mine {q : Process}
      (found : (s.at' pid).kernel.processFromPid (s.at' pid).kernel.current = some q) : q = p :=
    Option.some.inj (found.symm.trans (at'_current lives))
  cases c with
  | «open» filename => exact kept.open lives meets ran
  | close fd =>
      obtain ⟨-, rfl⟩ := Prod.mk.inj (Option.some.inj ran)
      exact moved
  | read fd count => exact moved.read ran
  | fork memory frame cloned =>
      obtain ⟨⟨result, k⟩, forked, same⟩ := Option.map_eq_some_iff.mp ran
      obtain ⟨-, rfl⟩ := Prod.mk.inj same
      refine moved.same (SameCounts.refl s.vfs) (Kernel.fork_sameFiles moved.quiet ?_ forked)
      intro room cloned q found
      rw [mine found]
      exact quiet_nothing (meets room cloned)
  | exit value =>
      obtain ⟨⟨result, k⟩, ended, same⟩ := Option.map_eq_some_iff.mp ran
      obtain ⟨-, rfl⟩ := Prod.mk.inj same
      obtain ⟨k', exits, same⟩ := Option.map_eq_some_iff.mp ended
      obtain ⟨-, rfl⟩ := Prod.mk.inj same
      refine moved.same (SameCounts.refl s.vfs) (Kernel.processExit_sameFiles moved.quiet ?_ exits)
      intro q found
      rw [mine found]
      exact quiet_nothing meets

/-- A call that meets the condition does what it should. -/
theorem callRight_of_meets (lives : s.Lives pid p) {c : FileCall} (meets : s.Meets p c) :
    (s.at' pid).CallRight c := by
  cases c with
  | «open» filename =>
      intro r s' ran negative
      rcases open_cases lives meets ran with
        ⟨vfs, kernel⟩ | ⟨path, globalFd, v, fd, -, rfl, -⟩
      · rw [vfs, kernel]
        exact ⟨rfl, fun _ => rfl⟩
      · omega
  | close fd =>
      intro _ count
      refine ⟨s.at' pid, ?_⟩
      show (s.at' pid).read fd count = _
      unfold System.read
      rw [at'_current lives]
      split
      · rfl
      · next inside =>
          have negative : p.file ⟨fd.toNat, by omega⟩ < 0 := by
            by_contra nonneg
            exact meets ⟨⟨fd.toNat, by omega⟩, by dsimp only; omega, Int.not_lt.mp nonneg⟩
          dsimp only
          rw [if_pos negative]
  | read fd count => trivial
  | fork memory frame cloned => trivial
  | exit value => trivial

theorem MeetingRun.kept {start : System ι} (begins : Kept boot start) (run : MeetingRun start s) :
    Kept boot s := by
  induction run with
  | boot => exact begins
  | call _ lives meets ran ih => exact ih.exec lives meets ran

/-- From boot on, every run of calls that meet the condition keeps the file table balanced
and each such call does what it should, just when what is open at boot has been counted. -/
theorem descriptors_balanced {start : System ι} (booted : Booted boot start) :
    (∀ s, MeetingRun start s → Balanced boot s ∧
      ∀ pid p c, s.Lives pid p → s.Meets p c → (s.at' pid).CallRight c) ↔ Counted boot start := by
  constructor
  · intro right i known
    exact (right start .boot).1.ref_eq i (booted.opened i known).1
  · intro counted s run
    exact ⟨(run.kept (booted.kept counted)).balanced, fun _ _ _ lives meets => callRight_of_meets lives meets⟩

def initProcess : Process where
  pid := 0
  parent := 0
  state := .running
  callback := []
  returnValue := 0
  userspace := 1
  user := 0
  group := 0
  timeStarted := 1337
  file := fun fd => if fd.val < 3 then 0 else -1
  reg := ⟨0, 0, 0, fun _ => 0, 0⟩

/-- The console is entry 0 of the file table, a device without a read function. -/
def bootSystem : System Unit where
  vfs :=
    { Vfs.twoMounts with
      file := fun i =>
        if i = 0 then ⟨true, true, true, true, false, false, 0, 1, 0, 65537, allOnes⟩
        else ⟨false, false, false, false, false, false, 0, 0, 0, 0, 0⟩
      world := ⟨fun _ => some (.char (fun _ => (-enosys, [])) fun bytes => bytes.length), ()⟩ }
  kernel := ⟨fun slot => if slot = 0 then some initProcess else none, 0, 0, 1, 1⟩

/-- Nothing is open but the console. -/
theorem booted_console {s : System Unit} (file : s.vfs.file = bootSystem.vfs.file)
    (processes : ∀ slot p, s.kernel.process slot = some p →
      (∀ fd, p.file fd = 0 ∨ p.file fd = -1) ∧ p.state ≠ .zombie) : Booted (· = 0) s where
  opened := by
    rintro i rfl
    rw [file]
    exact ⟨by decide, rfl⟩
  rest := fun i other => by
    have entry : bootSystem.vfs.file i =
        ⟨false, false, false, false, false, false, 0, 0, 0, 0, 0⟩ := if_neg other
    rw [file, entry]
    exact ⟨rfl, rfl⟩
  processes := by
    intro slot p here fd
    rcases (processes slot p here).1 fd with console | none
    · exact Or.inr (congrArg Int.toNat console)
    · exact Or.inl (none ▸ (by decide : (-1 : Int) < 0))
  living := fun slot p here => (processes slot p here).2

theorem bootSystem_booted : Booted (· = 0) bootSystem := by
  refine booted_console rfl fun slot p here => ?_
  by_cases first : slot = 0
  · obtain rfl := Option.some.inj ((if_pos first).symm.trans here)
    refine ⟨fun fd => ?_, by decide⟩
    by_cases low : fd.val < 3
    · exact Or.inl (if_pos low)
    · exact Or.inr (if_neg low)
  · exact nomatch (if_neg first).symm.trans here

theorem bootSystem_lives : bootSystem.Lives 0 initProcess := ⟨by decide, rfl, by decide⟩

/-- `init` with the console in its first slots, and processes without files. -/
def consoleTable (n : Nat) (others : Table) : Table := fun slot =>
  if slot = 0 then some { initProcess with file := fun fd => if fd.val < n then 0 else -1 } else others slot

theorem references_consoleTable {others : Table} (unused : ∀ slot p, others slot = some p → ∀ fd, p.file fd < 0)
    {n : Nat} (fits : n ≤ maxProcessFiles) : (consoleTable n others).references 0 = n := by
  induction n with
  | zero =>
      refine slots_none fun slot _ => Table.quiet_liveEntry (fun p here => (?_ : Quiet Nothing p.file)) id
      refine quiet_nothing fun fd => ?_
      by_cases first : slot / maxProcessFiles = 0
      · obtain rfl := Option.some.inj ((if_pos first).symm.trans here)
        exact (by decide : (-1 : Int) < 0)
      · exact unused _ p ((if_neg first).symm.trans here) fd
  | succ n ih =>
      have here : consoleTable n others 0 =
          some { initProcess with file := fun fd => if fd.val < n then 0 else -1 } := if_pos rfl
      have stored : consoleTable (n + 1) others = (consoleTable n others).modify 0 fun p =>
          { p with file := Function.update p.file ⟨n, fits⟩ (0 : Nat) } := by
        rw [Table.modify_some here]
        funext slot
        by_cases first : slot = 0
        · rw [first, Function.update_self]
          refine congrArg (fun file => some { initProcess with file := file }) (funext fun fd => ?_)
          by_cases last : fd = ⟨n, fits⟩
          · rw [last, Function.update_self]
            exact if_pos (Nat.lt_succ_self n)
          · have other : fd.val ≠ n := fun same => last (Fin.ext same)
            rw [Function.update_of_ne last]
            exact if_congr (by omega) rfl rfl
        · rw [Function.update_of_ne first]
          exact (if_neg first).trans (if_neg first).symm
      have free : (if (⟨n, fits⟩ : Fin maxProcessFiles).val < n then (0 : Int) else -1) < 0 := by
        rw [if_neg (Nat.lt_irrefl n)]
        decide
      rw [stored, references_open (by decide) here (fun dead => (nomatch dead)) free 0 0,
        ih (Nat.le_of_lt fits)]
      rfl

/-- `main` counts the console once and stores it three times. -/
theorem bootSystem_uncounted : ¬ Counted (· = 0) bootSystem := by
  intro counted
  have three : bootSystem.kernel.process.references 0 = 3 :=
    @references_consoleTable (fun _ => none) (fun _ _ none => (nomatch none)) 3 (by decide)
  have one := counted 0 rfl
  rw [three] at one
  exact absurd one (by decide)

def idleProcess : Process := { initProcess with pid := 1, file := fun _ => -1 }

/-- The console is stored in one slot of `init`, and there is a second process. -/
def countedSystem : System Unit :=
  { bootSystem with
    kernel := ⟨consoleTable 1 fun slot => if slot = 1 then some idleProcess else none, 1, 0, 2, 2⟩ }

theorem idle_only {slot : Nat} {p : Process}
    (here : (if slot = 1 then some idleProcess else none) = some p) : p = idleProcess := by
  by_cases second : slot = 1
  · exact (Option.some.inj ((if_pos second).symm.trans here)).symm
  · exact nomatch (if_neg second).symm.trans here

theorem countedSystem_booted : Booted (· = 0) countedSystem := by
  refine booted_console rfl fun slot p here => ?_
  by_cases first : slot = 0
  · obtain rfl := Option.some.inj ((if_pos first).symm.trans here)
    refine ⟨fun fd => ?_, by decide⟩
    by_cases low : fd.val < 1
    · exact Or.inl (if_pos low)
    · exact Or.inr (if_neg low)
  · obtain rfl := idle_only ((if_neg first).symm.trans here)
    exact ⟨fun fd => Or.inr rfl, by decide⟩

theorem countedSystem_counted : Counted (· = 0) countedSystem := by
  rintro i rfl
  have one := @references_consoleTable (fun slot => if slot = 1 then some idleProcess else none)
    (fun slot p here fd => idle_only here ▸ (by decide : (-1 : Int) < 0)) 1 (by decide)
  exact (congrArg Int.ofNat one).symm

/-- `init` reads from the console, and the second process forks. -/
theorem countedSystem_run :
    ∃ s, MeetingRun countedSystem s ∧ (s.kernel.process 2).isSome = true := by
  have init : countedSystem.Lives 0 { initProcess with file := fun fd => if fd.val < 1 then 0 else -1 } :=
    ⟨by decide, rfl, by decide⟩
  have idle : (countedSystem.at' 0).Lives 1 idleProcess := ⟨by decide, rfl, by decide⟩
  have reads : MeetingRun countedSystem (countedSystem.at' 0) :=
    .call (c := .read 0 1) .boot init trivial rfl
  have forks : (((countedSystem.at' 0).at' 1).exec (.fork (some initProcess) 7 true)).isSome = true := rfl
  have meets : (countedSystem.at' 0).Meets idleProcess (.fork (some initProcess) 7 true) :=
    fun _ _ _ => (by decide : (-1 : Int) < 0)
  exact ⟨_, .call reads idle meets (Option.some_get forks).symm, rfl⟩

/-- The run keeps everything balanced; from the tables as `main` leaves them no run does. -/
theorem descriptors_balanced_fork :
    (∃ s, MeetingRun countedSystem s ∧ (s.kernel.process 2).isSome = true ∧ Balanced (· = 0) s) ∧
      ¬ ∀ s, MeetingRun bootSystem s → Balanced (· = 0) s ∧
        ∀ pid p c, s.Lives pid p → s.Meets p c → (s.at' pid).CallRight c := by
  obtain ⟨s, run, child⟩ := countedSystem_run
  have right := (descriptors_balanced countedSystem_booted).mpr countedSystem_counted
  exact ⟨⟨s, run, child, (right s run).1⟩, fun right =>
    bootSystem_uncounted ((descriptors_balanced bootSystem_booted).mp right)⟩

/-- After `init` has closed its descriptor 0 with success, a read of it still reaches the
console. -/
theorem close_keeps_descriptor :
    Booted (· = 0) bootSystem ∧ bootSystem.Lives 0 initProcess ∧
      ((bootSystem.at' 0).close 0).1 = 0 ∧ ¬ (bootSystem.at' 0).CallRight (.close 0) := by
  refine ⟨bootSystem_booted, bootSystem_lives, rfl, fun right => ?_⟩
  obtain ⟨s', bad⟩ := right rfl 1
  have answered : (((bootSystem.at' 0).close 0).2.read 0 1).map Prod.fst = some (-enosys) := rfl
  rw [bad] at answered
  exact absurd (Option.some.inj answered) (by decide : (-ebadf : Int) ≠ -enosys)

end System

end TrollOS.Process
