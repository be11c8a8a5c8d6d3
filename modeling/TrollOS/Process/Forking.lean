import TrollOS.Mmu.Discarding
import TrollOS.Process.Ending
import TrollOS.Process.Recycled
import TrollOS.Process.Slots

/-!
# A fork that fails

The process table, the user spaces and the kernel's heap together.  `fork` undoes a copy
that did not fit with `process_exit` and `process_wait`.  That restores everything as long
as the child is a process `process_exit` is willing to end, nobody is in its list of
callbacks, and it had a root table.
-/

namespace TrollOS.Process

open Mmu

/-- `heap` are the blocks in use, and `record` what the slots of `_process` point to.  The
supervisor's root table, which a switch fills, is not among the frames and is left out. -/
structure Spawner where
  kernel : Kernel
  spaces : UserSpaces
  heap : List Nat
  record : Nat → Nat

namespace Spawner

/-- What `kmalloc` hands out for a record: a block that is not in use, with its old
contents. -/
abbrev NewRecord (s : Spawner) := Option ({ block // block ∉ s.heap } × Process)

/-- The frame `_alloc_frame` hands out next. -/
def rootFrame (s : Spawner) : Nat :=
  if s.spaces.mmu.memLayout.freeFrames = 0 then 0 else s.spaces.mmu.memLayout.freeFrame

def create (s : Spawner) (uid gid : Int) (memory : s.NewRecord) : Option (Int × Spawner) :=
  (s.kernel.processCreate uid gid (memory.map Prod.snd) s.rootFrame).bind fun (pid, k) =>
    match memory with
    | none => some (pid, { s with kernel := k })
    | some (block, _) =>
        if pid < 0 then some (pid, { s with kernel := k })
        else
          (s.spaces.serve .initUserspace).map fun u =>
            (pid, ⟨k, u, block.1 :: s.heap, Function.update s.record pid.toNat block.1⟩)

/-- `process_switch_to`, and the part of `scheduler` after its search. -/
def switchTo (s : Spawner) (pid : Nat) : Option Spawner :=
  (s.kernel.processSwitchTo pid).bind fun k =>
    (s.spaces.serve (.switchUserspace k.urp)).map fun u => { s with kernel := k, spaces := u }

def exit (s : Spawner) (pid returnValue : Int) : Option Spawner :=
  (s.kernel.processExit pid returnValue).bind fun k =>
    match s.kernel.processFromPid pid with
    | none => some { s with kernel := k }
    | some p =>
        let switched :=
          if s.kernel.current = pid.toNat then s.spaces.serve (.switchUserspace k.urp)
          else some s.spaces
        (switched.bind fun u => u.serve (.freeUserspace p.userspace)).map fun u =>
          { s with kernel := k, spaces := u }

/-- `process_wait`: a zombie's record is given back, else a callback is made. -/
def wait (s : Spawner) (pid : Int) (callback : Option { block // block ∉ s.heap }) :
    Option (Int × Spawner) :=
  (s.kernel.processWait pid callback.isSome).map fun (r, k) =>
    match s.kernel.processFromPid pid with
    | none => (r, { s with kernel := k })
    | some p =>
        if p.state = .zombie then (r, { s with kernel := k, heap := s.heap.erase (s.record pid.toNat) })
        else (r, { s with kernel := k, heap := callback.elim s.heap fun block => block.1 :: s.heap })

def fork (s : Spawner) (memory : s.NewRecord) : Option (Int × Spawner) :=
  match s.kernel.processFromPid s.kernel.current with
  | none => some (-eagain, s)
  | some current =>
      (s.create current.user current.group memory).bind fun (pid, s) =>
        if pid < 0 then some (-eagain, s)
        else
          match s.kernel.processFromPid pid with
          | none => some (-eagain, s)
          | some new =>
              (Mmu.cloneUserspace current.userspace new.userspace s.spaces.mmu).bind fun (r, m) =>
                let s := { s with spaces := ⟨m, s.spaces.live⟩ }
                if r < 0 then
                  (s.exit pid 1).bind fun s =>
                    (s.kernel.setState pid .zombie).bind fun k =>
                      (wait { s with kernel := k } pid none).map fun (_, s) => (-enomem, s)
                else
                  some (new.pid,
                    { s with
                      kernel :=
                        { s.kernel with
                          process := Function.update s.kernel.process pid.toNat
                            (some (Kernel.forkedProcess current new pid.toNat)) } })

/-! ## What a fork should do -/

def pages (s : Spawner) (p : Process) : List Nat :=
  Frames.below s.spaces.mmu.mem 3 (rootLevelFieldAddr p.userspace)

/-- Something a fork needs is missing: the process, a slot, memory, or frames for the root
table and the copy. -/
def Lacks (s : Spawner) (memory : s.NewRecord) : Prop :=
  memory = none ∨ s.kernel.process.Full ∨
    ∀ p, s.kernel.processFromPid s.kernel.current = some p →
      s.spaces.mmu.memLayout.freeFrames ≤ (s.pages p).length

/-- The same processes in the same states, the same current process, the same free frames
and the same blocks in use. -/
structure Unchanged (s s' : Spawner) : Prop where
  process : s'.kernel.process = s.kernel.process
  current : s'.kernel.current = s.kernel.current
  frames : ∃ chain chain', Frames.Pool s.spaces.mmu.frames chain ∧
    Frames.Pool s'.spaces.mmu.frames chain' ∧ chain'.Perm chain
  heap : ∀ block, block ∈ s'.heap ↔ block ∈ s.heap

/-- A fork returns; when something is missing it fails, and when it fails nothing has
changed. -/
def ForkRight (s : Spawner) (memory : s.NewRecord) : Prop :=
  ∃ r s', s.fork memory = some (r, s') ∧ (s.Lacks memory → r < 0) ∧ (r < 0 → Unchanged s s')

/-- The search for a slot comes to an end. -/
def SearchEnds (k : Kernel) : Prop :=
  (k.process.Full → 0 ≤ k.last ∧ k.last < maxProcesses) ∧
    ∀ d, k.process.FirstFree k.last d → k.last + d ≤ pidMax

/-- When there is memory for a record there is a frame for the root table of its process. -/
def CreateMeets (s : Spawner) (memory : s.NewRecord) : Prop :=
  memory.isSome = true → ¬ s.kernel.process.Full → s.spaces.mmu.memLayout.freeFrames ≠ 0

/-- A record comes with no callbacks in its old contents, and when the copy does not fit the
child is not one of the first two processes. -/
def ForkMeets (s : Spawner) (memory : s.NewRecord) : Prop :=
  SearchEnds s.kernel ∧ s.CreateMeets memory ∧
    (∀ block old, memory = some (block, old) → old.callback = []) ∧
    ∀ p d, s.kernel.processFromPid s.kernel.current = some p → s.kernel.process.FirstFree s.kernel.last d →
      2 ≤ Table.pidAfter s.kernel.last d ∨ (s.pages p).length < s.spaces.mmu.memLayout.freeFrames

/-- The process that ends is not one already, it wakes no zombie, and its successor lives. -/
def ExitMeets (s : Spawner) (pid : Nat) (p : Process) : Prop :=
  p.state ≠ .zombie ∧
    (∀ owner ∈ wokenOwners p.callback, s.kernel.process.isZombie owner = false) ∧
    (s.kernel.current = pid → ∀ next q, s.kernel.process.exitSearch pid = some next →
      s.kernel.process next = some q → next ≠ pid ∧ q.state ≠ .zombie)

/-- The kernel writes to a record, but neither its space nor whether it has ended. -/
def Harmless (f : Process → Process) : Prop :=
  ∀ p, (f p).userspace = p.userspace ∧ ((f p).state = .zombie ↔ p.state = .zombie)

/-- Every process that has not ended has a space of its own, and the current one has not. -/
structure Sound (frames : List Nat) (s : Spawner) : Prop where
  owned : s.spaces.Owned frames
  live : ∀ slot p, s.kernel.process slot = some p → p.state ≠ .zombie → p.userspace ∈ s.spaces.live
  apart : ∀ slot other p q, s.kernel.process slot = some p → s.kernel.process other = some q →
    p.state ≠ .zombie → q.state ≠ .zombie → p.userspace = q.userspace → slot = other
  current : ∀ p, s.kernel.process s.kernel.current = some p → p.state ≠ .zombie

/-- Runs from a table without processes, all of whose steps meet their condition. -/
inductive Run (frames : List Nat) : Spawner → Prop where
  | boot {s : Spawner} : s.spaces.Owned frames → (∀ slot, s.kernel.process slot = none) → Run frames s
  | create {s s' : Spawner} {uid gid r : Int} {memory : s.NewRecord} : Run frames s →
      s.CreateMeets memory → s.create uid gid memory = some (r, s') → Run frames s'
  | fork {s s' : Spawner} {r : Int} {memory : s.NewRecord} : Run frames s → s.ForkMeets memory →
      s.fork memory = some (r, s') → Run frames s'
  | exit {s s' : Spawner} {pid : Nat} {p : Process} {value : Int} : Run frames s →
      s.kernel.processFromPid pid = some p → s.ExitMeets pid p → s.exit pid value = some s' → Run frames s'
  | wait {s s' : Spawner} {pid r : Int} {callback : Option { block // block ∉ s.heap }} : Run frames s →
      s.wait pid callback = some (r, s') → Run frames s'
  | switchTo {s s' : Spawner} {pid : Nat} {p : Process} : Run frames s → s.kernel.process pid = some p →
      p.state ≠ .zombie → s.switchTo pid = some s' → Run frames s'
  | write {s : Spawner} {slot : Nat} {f : Process → Process} : Run frames s → Harmless f →
      Run frames { s with kernel := { s.kernel with process := s.kernel.process.modify slot f } }
  | page {s : Spawner} {virt : Nat} {writeProtected : Bool} {u : UserSpaces} : Run frames s →
      s.spaces.Allowed (.allocAt virt writeProtected) →
      s.spaces.serve (.allocAt virt writeProtected) = some u → Run frames { s with spaces := u }
  | clear {s : Spawner} {p : Process} {u : UserSpaces} : Run frames s →
      s.kernel.processFromPid s.kernel.current = some p →
      s.spaces.serve (.clearUserspace p.userspace) = some u → Run frames { s with spaces := u }
  | heap {s : Spawner} (heap : List Nat) : Run frames s → Run frames { s with heap := heap }

/-! ## What the operations keep -/

section Keep

variable {frames : List Nat} {s s' : Spawner} {pid : Nat} {p : Process}

theorem Sound.congr (sound : Sound frames s) (process : s'.kernel.process = s.kernel.process)
    (current : s'.kernel.current = s.kernel.current) (spaces : s'.spaces = s.spaces) : Sound frames s' := by
  obtain ⟨owned, live, apart, alive⟩ := sound
  exact ⟨spaces ▸ owned, by rw [process, spaces]; exact live, by rw [process]; exact apart,
    by rw [process, current]; exact alive⟩

/-- Every record is an old one, perhaps changed, but not in its space or its end. -/
def Tame (t t' : Table) : Prop :=
  ∀ slot p', t' slot = some p' → ∃ p, t slot = some p ∧ p'.userspace = p.userspace ∧
    (p'.state = .zombie ↔ p.state = .zombie)

theorem Tame.modify (t : Table) (slot : Nat) {f : Process → Process} (harmless : Harmless f) :
    Tame t (t.modify slot f) := by
  intro other p' here
  by_cases same : other = slot
  · unfold Table.modify at here
    rw [same, Function.update_self] at here
    obtain ⟨p, found, rfl⟩ := Option.map_eq_some_iff.mp here
    exact ⟨p, same ▸ found, harmless p⟩
  · unfold Table.modify at here
    rw [Function.update_of_ne same] at here
    exact ⟨p', here, rfl, Iff.rfl⟩

theorem Tame.trans {t t' t'' : Table} (first : Tame t t') (second : Tame t' t'') : Tame t t'' := by
  intro slot p'' here
  obtain ⟨p', found', space', life'⟩ := second slot p'' here
  obtain ⟨p, found, space, life⟩ := first slot p' found'
  exact ⟨p, found, space'.trans space, life'.trans life⟩

theorem Tame.of_similar {t t' : Table} (similar : Similar t t') : Tame t t' := by
  intro slot q here
  obtain ⟨p, was, alike⟩ := similar.back here
  exact ⟨p, was, alike.space, alike.life⟩

theorem Sound.tame (sound : Sound frames s) (tame : Tame s.kernel.process s'.kernel.process)
    (current : s'.kernel.current = s.kernel.current) (spaces : s'.spaces = s.spaces) : Sound frames s' := by
  constructor
  · exact spaces ▸ sound.owned
  · intro slot p' here alive
    obtain ⟨p, found, space, life⟩ := tame slot p' here
    rw [space, spaces]
    exact sound.live slot p found fun dead => alive (life.mpr dead)
  · intro slot other p' q' here there alive alive' same
    obtain ⟨p, found, space, life⟩ := tame slot p' here
    obtain ⟨q, found', space', life'⟩ := tame other q' there
    rw [space, space'] at same
    exact sound.apart slot other p q found found' (fun dead => alive (life.mpr dead))
      (fun dead => alive' (life'.mpr dead)) same
  · intro p' here
    rw [current] at here
    obtain ⟨p, found, -, life⟩ := tame _ p' here
    exact fun dead => sound.current p found (life.mp dead)

/-- A new record with a new space. -/
theorem Sound.insert (sound : Sound frames s) (free : s.kernel.process pid = none) {m : Mmu}
    (alive : p.state ≠ .zombie) (fresh : p.userspace ∉ s.spaces.live)
    (owned : UserSpaces.Owned frames ⟨m, p.userspace :: s.spaces.live⟩)
    (process : s'.kernel.process = Function.update s.kernel.process pid (some p))
    (current : s'.kernel.current = s.kernel.current)
    (spaces : s'.spaces = ⟨m, p.userspace :: s.spaces.live⟩) : Sound frames s' := by
  have cases' (slot : Nat) {q : Process} (here : s'.kernel.process slot = some q) :
      (slot = pid ∧ q = p) ∨ (slot ≠ pid ∧ s.kernel.process slot = some q) := by
    rw [process] at here
    by_cases same : slot = pid
    · rw [same, Function.update_self] at here
      exact Or.inl ⟨same, (Option.some.inj here).symm⟩
    · rw [Function.update_of_ne same] at here
      exact Or.inr ⟨same, here⟩
  constructor
  · exact spaces ▸ owned
  · intro slot q here living
    rw [spaces]
    rcases cases' slot here with ⟨-, rfl⟩ | ⟨-, old⟩
    · exact List.mem_cons_self
    · exact List.mem_cons_of_mem _ (sound.live slot q old living)
  · intro slot other q r here there living living' same
    rcases cases' slot here with ⟨rfl, rfl⟩ | ⟨-, old⟩
    · rcases cases' other there with ⟨rfl, -⟩ | ⟨-, old'⟩
      · rfl
      · exact absurd (same ▸ sound.live other r old' living') fresh
    · rcases cases' other there with ⟨rfl, rfl⟩ | ⟨-, old'⟩
      · exact absurd (same ▸ sound.live slot q old living) fresh
      · exact sound.apart slot other q r old old' living living' same
  · intro q here
    rw [current] at here
    rcases cases' _ here with ⟨-, rfl⟩ | ⟨-, old⟩
    · exact alive
    · exact sound.current q old

/-- A process ends and its space is given back. -/
theorem Sound.kill (sound : Sound frames s) (here : s.kernel.process pid = some p)
    (alive : p.state ≠ .zombie) {z : Process} (dead : z.state = .zombie) {m : Mmu}
    (owned : UserSpaces.Owned frames ⟨m, s.spaces.live.erase p.userspace⟩)
    (process : s'.kernel.process = Function.update s.kernel.process pid (some z))
    (current : s'.kernel.current ≠ pid ∧
      ∀ q, s.kernel.process s'.kernel.current = some q → q.state ≠ .zombie)
    (spaces : s'.spaces = ⟨m, s.spaces.live.erase p.userspace⟩) : Sound frames s' := by
  have cases' (slot : Nat) {q : Process} (found : s'.kernel.process slot = some q)
      (living : q.state ≠ .zombie) : slot ≠ pid ∧ s.kernel.process slot = some q := by
    rw [process] at found
    by_cases same : slot = pid
    · rw [same, Function.update_self] at found
      obtain rfl := Option.some.inj found
      exact absurd dead living
    · rw [Function.update_of_ne same] at found
      exact ⟨same, found⟩
  constructor
  · exact spaces ▸ owned
  · intro slot q found living
    obtain ⟨other, old⟩ := cases' slot found living
    have space : q.userspace ≠ p.userspace := fun same =>
      other (sound.apart slot pid q p old here living alive same)
    rw [spaces]
    exact (List.mem_erase_of_ne space).mpr (sound.live slot q old living)
  · intro slot other q r found found' living living' same
    exact sound.apart slot other q r (cases' slot found living).2 (cases' other found' living').2
      living living' same
  · intro q found
    rw [process, Function.update_of_ne current.1] at found
    exact current.2 q found

theorem processFromPid_small (here : s.kernel.processFromPid pid = some p) :
    pid < maxProcesses ∧ s.kernel.process pid = some p := by
  unfold Kernel.processFromPid at here
  split at here
  · exact nomatch here
  · next inRange => exact ⟨by omega, here⟩

/-- `process_exit` of a process nobody waits for. -/
theorem processExit_quiet {k : Kernel} (small : pid < maxProcesses) (here : k.process pid = some p)
    (quiet : p.callback = []) (value : Int) :
    k.processExit pid value =
      if pid = 0 ∨ pid = 1 then none
      else
        (if k.current = pid then (k.process.exitSearch pid).bind k.processSwitchTo else some k).map fun k =>
          { k with process := k.process.modify pid fun p => { p with returnValue := value, state := .zombie } } := by
  have callbacks : k.process.modify pid (fun p => { p with callback := [] }) = k.process := by
    unfold Table.modify
    rw [here]
    refine Function.update_eq_self_iff.mpr ?_
    rw [here, Option.map_some, ← quiet]
  unfold Kernel.processExit
  rw [if_neg (by omega)]
  dsimp only
  rw [Int.toNat_natCast, here]
  dsimp only
  rw [quiet]
  by_cases first : pid = 0 ∨ pid = 1
  · rw [if_pos first, if_pos first]
  · rw [if_neg first, if_neg first]
    show Option.map _ (if k.current = pid then _ else some { k with process := _ }) = _
    rw [callbacks]

end Keep

/-! ## One step -/

section Step

variable {frames : List Nat} {s s' : Spawner} {pid : Nat} {p : Process} {u : UserSpaces}

theorem serve_live {r : Request} (ran : s.spaces.serve r = some u)
    (keeps : (∃ virt writeProtected, r = .allocAt virt writeProtected) ∨ (∃ space, r = .clearUserspace space) ∨
      ∃ space, r = .switchUserspace space) : u.live = s.spaces.live := by
  rcases keeps with ⟨virt, writeProtected, rfl⟩ | ⟨space, rfl⟩ | ⟨space, rfl⟩
  · obtain ⟨result, -, rfl⟩ := Option.map_eq_some_iff.mp ran
    rfl
  · obtain ⟨result, -, rfl⟩ := Option.map_eq_some_iff.mp ran
    rfl
  · exact (congrArg UserSpaces.live (Option.some.inj ran)).symm

/-- The spaces change, but not which there are. -/
theorem Sound.serve (sound : Sound frames s) (owned : u.Owned frames) (live : u.live = s.spaces.live) :
    Sound frames { s with spaces := u } :=
  ⟨owned, live ▸ sound.live, sound.apart, sound.current⟩

theorem serve_allowed {r : Request} (owned : s.spaces.Owned frames) (allowed : s.spaces.Allowed r)
    (ran : s.spaces.serve r = some u) : u.Owned frames := by
  obtain ⟨v, served, owned'⟩ := UserSpaces.serve_owned owned allowed
  obtain rfl := Option.some.inj (served.symm.trans ran)
  exact owned'

theorem Sound.switchTo (sound : Sound frames s) (here : s.kernel.process pid = some p)
    (alive : p.state ≠ .zombie) (ran : s.switchTo pid = some s') : Sound frames s' := by
  obtain ⟨k, switches, rest⟩ := Option.bind_eq_some_iff.mp ran
  obtain ⟨q, found, rfl⟩ := Option.map_eq_some_iff.mp switches
  obtain rfl := Option.some.inj (here.symm.trans found)
  obtain ⟨u, served, rfl⟩ := Option.map_eq_some_iff.mp rest
  have live := serve_live served (Or.inr (Or.inr ⟨_, rfl⟩))
  have allowed : s.spaces.Allowed (.switchUserspace p.userspace) :=
    ⟨sound.live pid p here alive, fun _ _ wrong => nomatch wrong⟩
  refine ⟨serve_allowed sound.owned allowed served, ?_, sound.apart, fun q current => ?_⟩
  · rw [show u.live = s.spaces.live from live]
    exact sound.live
  · obtain rfl := Option.some.inj (here.symm.trans current)
    exact alive

/-- The space of a process that ends is given back: its whole tree is put on the free list. -/
theorem freeUserspace_owned (owned : u.Owned frames) {space : Nat} (member : space ∈ u.live) :
    ∃ m chain chain', u.serve (.freeUserspace space) = some ⟨m, u.live.erase space⟩ ∧
      UserSpaces.Owned frames ⟨m, u.live.erase space⟩ ∧ m.urp = u.mmu.urp ∧
        Frames.Pool u.mmu.frames chain ∧ Frames.Pool m.frames chain' ∧
          chain'.Perm (Frames.tree u.mmu.mem (rootLevelFieldAddr space) ++ chain) := by
  obtain ⟨chain, roles⟩ := owned.roles
  have inRoots := UserSpaces.mem_roots member
  obtain ⟨f, chain', ran, -, roles', -, agree⟩ := roles.free inRoots
  obtain ⟨m, ran', done⟩ := run_of_simulates
    (fun _ => freeUserspace_simulates (by decide) space) owned.mapping ran
  obtain rfl := done.frames
  have served : u.serve (.freeUserspace space) = some ⟨m, u.live.erase space⟩ := by
    show (Mmu.freeUserspace space u.mmu).map _ = _
    rw [ran']
    rfl
  refine ⟨m, chain, chain', served, ⟨done.mapping, chain', ?_⟩, done.urp, roles.pool, roles'.pool, ?_⟩
  · rw [UserSpaces.roots_erase]
    exact roles'
  · have split := roles'.split
    rw [Frames.trees_agree agree] at split
    have whole := split.trans (roles.apart inRoots).symm
    exact ((List.perm_append_right_iff _).mp whole).trans List.perm_append_comm

structure Exited (frames : List Nat) (s : Spawner) (pid : Nat) (p : Process) (value : Int)
    (s' : Spawner) : Prop where
  sound : Sound frames s'
  ended : ∃ z, s'.kernel.process pid = some z ∧ z.state = .zombie ∧ z.returnValue = value
  others : ∀ slot q, slot ≠ pid → s.kernel.process slot = some q →
    ∃ r, s'.kernel.process slot = some r ∧ Alike q r
  given : ∃ chain chain', Frames.Pool s.spaces.mmu.frames chain ∧
    Frames.Pool s'.spaces.mmu.frames chain' ∧
      chain'.Perm (Frames.tree s.spaces.mmu.mem (rootLevelFieldAddr p.userspace) ++ chain)
  root : (s.kernel.current ≠ pid ∧ s'.spaces.mmu.urp = s.spaces.mmu.urp) ∨
    ∃ next q, next ≠ pid ∧ s.kernel.process next = some q ∧ q.state ≠ .zombie ∧
      s'.spaces.mmu.urp = q.userspace

theorem Sound.exited (sound : Sound frames s) (found : s.kernel.processFromPid pid = some p)
    (meets : s.ExitMeets pid p) {value : Int} (ran : s.exit pid value = some s') :
    Exited frames s pid p value s' := by
  obtain ⟨small, here⟩ := processFromPid_small found
  obtain ⟨alive, wakes, successor⟩ := meets
  obtain ⟨k, exits, rest⟩ := Option.bind_eq_some_iff.mp ran
  obtain ⟨t, z, similar, dead, ends, table, way⟩ := processExit_table found wakes exits
  rw [found] at rest
  dsimp only at rest
  rw [Int.toNat_natCast] at rest table way
  have member := sound.live pid p here alive
  have soundT : Sound frames { s with kernel := { s.kernel with process := t } } :=
    sound.tame (Tame.of_similar similar) rfl rfl
  obtain ⟨p₁, here₁, alike⟩ := similar.forth here
  have alive₁ : p₁.state ≠ .zombie := mt alike.life.mp alive
  have others : ∀ slot q, slot ≠ pid → s.kernel.process slot = some q →
      ∃ r, k.process slot = some r ∧ Alike q r := by
    intro slot q other was
    rw [table, Function.update_of_ne other]
    exact similar.forth was
  have ended : ∃ z, k.process pid = some z ∧ z.state = .zombie ∧ z.returnValue = value :=
    ⟨z, by rw [table, Function.update_self], dead, ends⟩
  rcases way with ⟨own, current, -⟩ | ⟨own, search, q, there, urp⟩
  · rw [if_neg own] at rest
    obtain ⟨v, serves, rfl⟩ := Option.map_eq_some_iff.mp rest
    obtain ⟨m, chain, chain', freed, owned', same, pool, pool', perm⟩ :=
      freeUserspace_owned sound.owned member
    obtain rfl := Option.some.inj (freed.symm.trans serves)
    refine ⟨?_, ended, others, ⟨chain, chain', pool, pool', perm⟩, Or.inl ⟨own, same⟩⟩
    refine soundT.kill (m := m) here₁ alive₁ dead ?_ table ?_ ?_
    · rw [alike.space]
      exact owned'
    · rw [show k.current = s.kernel.current from current]
      exact ⟨own, soundT.current⟩
    · rw [alike.space]
  · rw [if_pos own] at rest
    obtain ⟨v, serves, rfl⟩ := Option.map_eq_some_iff.mp rest
    obtain ⟨u, switched, frees⟩ := Option.bind_eq_some_iff.mp serves
    obtain ⟨other, living⟩ := successor own _ q search there
    have live := serve_live switched (Or.inr (Or.inr ⟨_, rfl⟩))
    have allowed : s.spaces.Allowed (.switchUserspace k.urp) := by
      rw [urp]
      exact ⟨sound.live _ q there living, fun _ _ wrong => nomatch wrong⟩
    have owned := serve_allowed sound.owned allowed switched
    obtain rfl := Option.some.inj switched
    obtain ⟨m, chain, chain', freed, owned', same, pool, pool', perm⟩ :=
      freeUserspace_owned owned (live ▸ member)
    obtain rfl := Option.some.inj (freed.symm.trans frees)
    refine ⟨?_, ended, others, ⟨chain, chain', pool, pool', perm⟩,
      Or.inr ⟨_, q, other, there, living, same.trans urp⟩⟩
    refine soundT.kill (m := m) here₁ alive₁ dead ?_ table ?_ ?_
    · rw [alike.space]
      exact owned'
    · refine ⟨other, fun r inTable => ?_⟩
      obtain ⟨r', was, alike'⟩ := similar.back inTable
      obtain rfl := Option.some.inj (there.symm.trans was)
      exact mt alike'.life.mp living
    · rw [alike.space]

theorem Sound.exit (sound : Sound frames s) (found : s.kernel.processFromPid pid = some p)
    (meets : s.ExitMeets pid p) {value : Int} (ran : s.exit pid value = some s') : Sound frames s' :=
  (sound.exited found meets ran).sound

/-- `process_wait` leaves the spaces alone. -/
theorem wait_kernel {pid r : Int} {callback : Option { block // block ∉ s.heap }}
    (ran : s.wait pid callback = some (r, s')) :
    s.kernel.processWait pid callback.isSome = some (r, s'.kernel) ∧ s'.spaces = s.spaces := by
  obtain ⟨⟨value, k⟩, waits, result⟩ := Option.map_eq_some_iff.mp ran
  dsimp only at result
  split at result
  · obtain ⟨rfl, rfl⟩ := Prod.mk.inj result
    exact ⟨waits, rfl⟩
  · split at result
    · obtain ⟨rfl, rfl⟩ := Prod.mk.inj result
      exact ⟨waits, rfl⟩
    · obtain ⟨rfl, rfl⟩ := Prod.mk.inj result
      exact ⟨waits, rfl⟩

theorem Sound.wait (sound : Sound frames s) {pid r : Int} {callback : Option { block // block ∉ s.heap }}
    (ran : s.wait pid callback = some (r, s')) : Sound frames s' := by
  obtain ⟨waits, spaces⟩ := wait_kernel ran
  obtain ⟨current, reaped | ⟨-, similar⟩⟩ := processWait_table sound.current waits
  · obtain ⟨z, -, -, -, table⟩ := reaped
    refine sound.tame (fun slot q found => ?_) current spaces
    rw [table] at found
    by_cases isSlot : slot = pid.toNat
    · rw [isSlot, Function.update_self] at found
      exact nomatch found
    · rw [Function.update_of_ne isSlot] at found
      exact ⟨q, found, rfl, Iff.rfl⟩
  · exact sound.tame (Tame.of_similar similar) current spaces

end Step

/-! ## Creating and forking -/

section Fork

variable {frames : List Nat} {s s' : Spawner} {pid : Nat} {p : Process} {u : UserSpaces} {last : Int}
  {memory : s.NewRecord}

/-- A search that ends gives up, or finds the first free slot. -/
theorem search_ends (ends : SearchEnds s.kernel) :
    (∃ last, s.kernel.process.slotSearch s.kernel.last (maxProcesses + 1) s.kernel.last = some (last, none)) ∨
      ∃ last d, s.kernel.process.FirstFree s.kernel.last d ∧
        s.kernel.process.slotSearch s.kernel.last (maxProcesses + 1) s.kernel.last =
          some (last, some (Table.pidAfter s.kernel.last d)) := by
  by_cases full : s.kernel.process.Full
  · obtain ⟨low, high⟩ := ends.1 full
    exact Or.inl ⟨_, Table.slotSearch_full full low high⟩
  · obtain ⟨d, first⟩ := Table.firstFree_exists full s.kernel.last
    rcases Table.slotSearch_free_eq first with ⟨beyond, -⟩ | ⟨-, -, search⟩ | ⟨-, -, search⟩
    · exact absurd (ends.2 d first) (Int.not_le.mpr beyond)
    · exact Or.inl ⟨_, search⟩
    · exact Or.inr ⟨_, d, first, search⟩

theorem create_cases {uid gid r : Int} (ran : s.create uid gid memory = some (r, s')) :
    (r < 0 ∧ ∃ last, s' = { s with kernel := { s.kernel with last := last } }) ∨
      ∃ (last : Int) (pid : Nat) (block : { block // block ∉ s.heap }) (old : Process) (u : UserSpaces),
        memory = some (block, old) ∧ r = pid ∧
          s.kernel.process.slotSearch s.kernel.last (maxProcesses + 1) s.kernel.last = some (last, some pid) ∧
            s.spaces.serve .initUserspace = some u ∧
              s' = ⟨{ s.kernel with
                  process := Function.update s.kernel.process pid (some (Kernel.freshProcess old pid uid gid
                    (Kernel.initUserspace s.kernel.urp s.rootFrame).1))
                  last := last
                  urp := (Kernel.initUserspace s.kernel.urp s.rootFrame).2 },
                u, block.1 :: s.heap, Function.update s.record pid block.1⟩ := by
  obtain ⟨⟨r', k⟩, creation, rest⟩ := Option.bind_eq_some_iff.mp ran
  rcases Kernel.processCreate_cases creation with
    ⟨negative, ⟨last, rfl⟩, -⟩ | ⟨last, slot, old, isOld, rfl, search, rfl⟩
  · have same : some (r', { s with kernel := { s.kernel with last := last } }) = some (r, s') := by
      cases memory with
      | none => exact rest
      | some new => exact (if_pos negative).symm.trans rest
    obtain ⟨rfl, rfl⟩ := Prod.mk.inj (Option.some.inj same)
    exact Or.inl ⟨negative, last, rfl⟩
  · obtain ⟨⟨block, old'⟩, rfl, rfl⟩ := Option.map_eq_some_iff.mp isOld
    dsimp only at rest
    rw [if_neg (by omega)] at rest
    obtain ⟨u, served, result⟩ := Option.map_eq_some_iff.mp rest
    obtain ⟨rfl, rfl⟩ := Prod.mk.inj result
    exact Or.inr ⟨last, slot, block, old', u, rfl, rfl, search, served, rfl⟩

/-- Without a slot or without memory nothing is created. -/
theorem create_refused (uid gid : Int) {found : Option Nat}
    (search : s.kernel.process.slotSearch s.kernel.last (maxProcesses + 1) s.kernel.last = some (last, found))
    (refused : found = none ∨ memory = none) :
    ∃ e, e < 0 ∧ s.create uid gid memory = some (e, { s with kernel := { s.kernel with last := last } }) := by
  unfold create Kernel.processCreate
  rw [search]
  rcases refused with rfl | rfl
  · refine ⟨-eagain, by decide, ?_⟩
    cases memory with
    | none => rfl
    | some new => rfl
  · cases found with
    | none => exact ⟨-eagain, by decide, rfl⟩
    | some slot => exact ⟨-enomem, by decide, rfl⟩

theorem create_found (uid gid : Int) {block : { block // block ∉ s.heap }} {old : Process}
    (search : s.kernel.process.slotSearch s.kernel.last (maxProcesses + 1) s.kernel.last =
      some (last, some pid))
    (served : s.spaces.serve .initUserspace = some u) :
    s.create uid gid (some (block, old)) = some ((pid : Int),
      ⟨{ s.kernel with
          process := Function.update s.kernel.process pid (some (Kernel.freshProcess old pid uid gid
            (Kernel.initUserspace s.kernel.urp s.rootFrame).1))
          last := last
          urp := (Kernel.initUserspace s.kernel.urp s.rootFrame).2 },
        u, block.1 :: s.heap, Function.update s.record pid block.1⟩) := by
  unfold create
  rw [Option.map_some, Kernel.processCreate_slot _ _ _ _ search, Option.bind_some]
  dsimp only
  rw [if_neg (by omega), served]
  rfl

/-- The root table of a new space is the first free frame. -/
theorem rootFrame_handle (left : s.spaces.mmu.memLayout.freeFrames ≠ 0) (urp : Nat) :
    (Kernel.initUserspace urp s.rootFrame).1 = rootLevelAddrField s.spaces.mmu.memLayout.freeFrame := by
  unfold Kernel.initUserspace rootFrame
  rw [if_neg left]
  by_cases null : s.spaces.mmu.memLayout.freeFrame = 0
  · rw [if_pos null, null]
    rfl
  · rw [if_neg null]
    rfl

theorem Sound.create (sound : Sound frames s) (meets : s.CreateMeets memory) {uid gid r : Int}
    (ran : s.create uid gid memory = some (r, s')) : Sound frames s' := by
  rcases create_cases ran with ⟨-, last, rfl⟩ | ⟨last, pid, block, old, u, isNew, -, search, served, rfl⟩
  · exact sound.congr rfl rfl rfl
  · obtain ⟨small, free⟩ := Kernel.slotSearch_free _ search
    have notFull : ¬ s.kernel.process.Full := fun full => by
      have occupied := full pid small
      rw [free] at occupied
      exact nomatch occupied
    have left := meets (by rw [isNew]; rfl) notFull
    obtain ⟨m, inits, owned, fresh, -⟩ := sound.owned.init_first left
    obtain rfl := Option.some.inj ((UserSpaces.serve_initUserspace_some inits).symm.trans served)
    have handle := rootFrame_handle left s.kernel.urp
    rw [← handle] at owned fresh
    refine sound.insert free (p := Kernel.freshProcess old pid uid gid
      (Kernel.initUserspace s.kernel.urp s.rootFrame).1) (fun wrong => nomatch wrong) fresh owned rfl rfl ?_
    rw [handle]
    rfl

/-- The failing end of `fork`. -/
def giveUp (s : Spawner) (pid : Nat) : Option (Int × Spawner) :=
  (s.exit pid 1).bind fun s =>
    (s.kernel.setState pid .zombie).bind fun k =>
      (wait { s with kernel := k } pid none).map fun (_, s) => (-enomem, s)

/-- The child is ended, and its slot and its record are given back. -/
theorem undo (small : pid < maxProcesses) (high : 2 ≤ pid) (here : s.kernel.process pid = some p)
    (quiet : p.callback = []) (other : s.kernel.current ≠ pid)
    (frees : s.spaces.serve (.freeUserspace p.userspace) = some u) :
    ∃ s', s.giveUp pid = some (-enomem, s') ∧
      s'.kernel.process = Function.update s.kernel.process pid none ∧
        s'.kernel.current = s.kernel.current ∧ s'.spaces = u ∧ s'.heap = s.heap.erase (s.record pid) := by
  have found : s.kernel.processFromPid pid = some p := (Kernel.processFromPid_eq small).trans here
  have exits : s.exit pid 1 = some { s with
      kernel := { s.kernel with process := s.kernel.process.modify pid fun p =>
        { p with returnValue := 1, state := .zombie } }
      spaces := u } := by
    unfold exit
    rw [processExit_quiet small here quiet, if_neg (by omega), if_neg other, found]
    show ((if s.kernel.current = ((pid : Nat) : Int).toNat then _ else some s.spaces).bind _).map _ = _
    rw [Int.toNat_natCast, if_neg other, Option.bind_some, frees]
    rfl
  have dead : (s.kernel.process.modify pid fun p => { p with returnValue := 1, state := .zombie }) pid =
      some { p with returnValue := 1, state := .zombie } := by
    unfold Table.modify
    rw [Function.update_self, here]
    rfl
  unfold giveUp
  rw [exits, Option.bind_some]
  unfold Kernel.setState
  rw [Kernel.processFromPid_eq small]
  dsimp only
  rw [dead, Option.map_some, Option.bind_some]
  unfold wait
  rw [Kernel.processFromPid_eq small]
  unfold Kernel.processWait
  rw [if_neg (by omega)]
  dsimp only
  rw [Int.toNat_natCast, Function.update_self]
  refine ⟨_, rfl, ?_, rfl, rfl, rfl⟩
  dsimp only
  unfold Table.modify
  rw [Function.update_idem, Function.update_idem]
  rfl

/-- The slot search only moves the counter. -/
theorem unchanged_last (sound : Sound frames s) (last : Int) :
    Unchanged s { s with kernel := { s.kernel with last := last } } := by
  obtain ⟨chain, roles⟩ := sound.owned.roles
  exact ⟨rfl, rfl, ⟨chain, chain, roles.pool, roles.pool, List.Perm.refl chain⟩, fun _ => Iff.rfl⟩

/-- A fork without a process, a slot or memory. -/
theorem fork_refused (sound : Sound frames s)
    (refused : ∀ p, s.kernel.processFromPid s.kernel.current = some p →
      ∃ e last, e < 0 ∧ s.create p.user p.group memory =
        some (e, { s with kernel := { s.kernel with last := last } })) :
    ∃ r s', s.fork memory = some (r, s') ∧ r < 0 ∧ Unchanged s s' ∧ Sound frames s' := by
  unfold fork
  cases here : s.kernel.processFromPid s.kernel.current with
  | none => exact ⟨-eagain, s, rfl, by decide, unchanged_last sound s.kernel.last, sound⟩
  | some p =>
      obtain ⟨e, last, negative, created⟩ := refused p here
      dsimp only
      rw [created, Option.bind_some]
      dsimp only
      rw [if_pos negative]
      exact ⟨-eagain, _, rfl, by decide, unchanged_last sound last, sound.congr rfl rfl rfl⟩

/-- The state in which the copy for a child ends. -/
def copied (s : Spawner) (new : Process) (pid : Nat) (last : Int) (block : Nat) (m : Mmu) : Spawner where
  kernel :=
    { s.kernel with
      process := Function.update s.kernel.process pid (some new)
      last := last
      urp := (Kernel.initUserspace s.kernel.urp s.rootFrame).2 }
  spaces := ⟨m, new.userspace :: s.spaces.live⟩
  heap := block :: s.heap
  record := Function.update s.record pid block

/-- A fork that gets as far as the copy. -/
theorem fork_tried (sound : Sound frames s)
    (here : s.kernel.processFromPid s.kernel.current = some p) (small : pid < maxProcesses)
    (search : s.kernel.process.slotSearch s.kernel.last (maxProcesses + 1) s.kernel.last =
      some (last, some pid))
    (block : { block // block ∉ s.heap }) (old : Process)
    (left : s.spaces.mmu.memLayout.freeFrames ≠ 0) :
    ∃ new m₁ r m₂ m₃,
      UserSpaces.Tried frames s.spaces p.userspace new.userspace m₁ r m₂ m₃ ∧
        new = Kernel.freshProcess old pid p.user p.group new.userspace ∧
          s.fork (some (block, old)) =
            if r < 0 then giveUp (s.copied new pid last block.1 m₂) pid
            else
              some (new.pid,
                { s.copied new pid last block.1 m₂ with
                  kernel :=
                    { (s.copied new pid last block.1 m₂).kernel with
                      process := Function.update (s.copied new pid last block.1 m₂).kernel.process pid
                        (some (Kernel.forkedProcess p new pid)) } }) := by
  obtain ⟨smallCurrent, inTable⟩ := processFromPid_small here
  obtain ⟨target, m₁, r, m₂, m₃, tried⟩ :=
    UserSpaces.copy_tried sound.owned left (sound.live _ p inTable (sound.current p inTable))
  have handle : (Kernel.initUserspace s.kernel.urp s.rootFrame).1 = target :=
    (rootFrame_handle left s.kernel.urp).trans tried.handle.symm
  generalize isNew : Kernel.freshProcess old pid p.user p.group target = new
  have newSpace : new.userspace = target := by rw [← isNew]; rfl
  have created := @create_found _ _ _ last p.user p.group block old search
    (UserSpaces.serve_initUserspace_some tried.inits)
  rw [handle, isNew] at created
  have found : ∀ k : Kernel, k.process = Function.update s.kernel.process pid (some new) →
      k.processFromPid pid = some new := by
    intro k table
    rw [Kernel.processFromPid_eq small, table, Function.update_self]
  refine ⟨new, m₁, r, m₂, m₃, newSpace ▸ tried, by rw [newSpace, isNew], ?_⟩
  unfold fork
  rw [here]
  dsimp only
  rw [created, Option.bind_some]
  dsimp only
  rw [if_neg (by omega), found _ rfl]
  dsimp only
  rw [newSpace, tried.clones, Option.bind_some, ← newSpace]
  rfl

/-- A fork that gets as far as the copy, of which the child is not one of the first two
processes or the copy fits. -/
theorem fork_copies (sound : Sound frames s) {d : Nat}
    (here : s.kernel.processFromPid s.kernel.current = some p)
    (first : s.kernel.process.FirstFree s.kernel.last d)
    (search : s.kernel.process.slotSearch s.kernel.last (maxProcesses + 1) s.kernel.last =
      some (last, some (Table.pidAfter s.kernel.last d)))
    (block : { block // block ∉ s.heap }) {old : Process} (quiet : old.callback = [])
    (left : s.spaces.mmu.memLayout.freeFrames ≠ 0)
    (high : 2 ≤ Table.pidAfter s.kernel.last d ∨
      (s.pages p).length < s.spaces.mmu.memLayout.freeFrames) :
    ∃ r s', s.fork (some (block, old)) = some (r, s') ∧
      (r < 0 ↔ s.spaces.mmu.memLayout.freeFrames ≤ (s.pages p).length) ∧
        (r < 0 → Unchanged s s') ∧ Sound frames s' := by
  obtain ⟨-, inTable⟩ := processFromPid_small here
  have small := Table.pidAfter_lt s.kernel.last d
  have free := first.2.2.1
  have other : s.kernel.current ≠ Table.pidAfter s.kernel.last d := fun same => by
    rw [same, free] at inTable
    exact nomatch inTable
  generalize Table.pidAfter s.kernel.last d = pid at *
  obtain ⟨new, m₁, r, m₂, m₃, tried, isNew, ran⟩ := fork_tried sound here small search block old left
  have newQuiet : new.callback = [] := by rw [isNew]; exact quiet
  have isPid : new.pid = pid := by rw [isNew]; rfl
  have fits := tried.fits
  unfold pages at high ⊢
  rw [ran]
  by_cases failed : r < 0
  · rw [if_pos failed]
    have short : ¬ (Frames.below s.spaces.mmu.mem 3 (rootLevelFieldAddr p.userspace)).length <
        s.spaces.mmu.memLayout.freeFrames := fun enough => by
      rw [fits.mpr enough] at failed
      exact absurd failed (by decide)
    have frees : (s.copied new pid last block.1 m₂).spaces.serve (.freeUserspace new.userspace) =
        some ⟨m₃, s.spaces.live⟩ := by
      show (Mmu.freeUserspace new.userspace m₂).map _ = _
      rw [tried.frees, Option.map_some]
      exact congrArg some (congrArg (UserSpaces.mk m₃) (List.erase_cons_head ..))
    obtain ⟨s', undone, process, current, spaces, heap⟩ :=
      @undo (s.copied new pid last block.1 m₂) pid new _ small (high.resolve_right short)
        (Function.update_self ..) newQuiet other frees
    have table : s'.kernel.process = s.kernel.process := by
      refine process.trans ((Function.update_idem ..).trans ?_)
      exact Function.update_eq_self_iff.mpr free.symm
    have blocks : s'.heap = s.heap := by
      rw [heap]
      unfold copied
      dsimp only
      rw [Function.update_self, List.erase_cons_head]
    refine ⟨-enomem, s', undone, iff_of_true (by decide) (Nat.le_of_not_lt short), fun _ => ?_, ?_⟩
    · obtain ⟨chain, chain', pool, pool', perm⟩ := tried.perm sound.owned
      exact ⟨table, current, ⟨chain, chain', pool, by rw [spaces]; exact pool', perm⟩,
        fun b => by rw [blocks]⟩
    · refine ⟨spaces ▸ tried.after, ?_, ?_, ?_⟩
      · rw [table, spaces]
        exact sound.live
      · rw [table]
        exact sound.apart
      · rw [table, show s'.kernel.current = s.kernel.current from current]
        exact sound.current
  · rw [if_neg failed]
    have enough := fits.mp (Int.le_antisymm tried.result (Int.not_lt.mp failed))
    refine ⟨_, _, rfl, ?_, fun negative => ?_, ?_⟩
    · rw [isPid]
      exact iff_of_false (by omega) (Nat.not_le_of_lt enough)
    · rw [isPid] at negative
      exact absurd negative (by omega)
    · refine sound.insert free (p := Kernel.forkedProcess p new pid) ?_ tried.fresh tried.copied ?_ rfl rfl
      · rw [isNew]
        exact fun wrong => nomatch wrong
      · exact Function.update_idem ..

/-- The first two processes cannot be ended. -/
theorem fork_panics (sound : Sound frames s) (here : s.kernel.processFromPid s.kernel.current = some p)
    (low : pid < 2)
    (search : s.kernel.process.slotSearch s.kernel.last (maxProcesses + 1) s.kernel.last =
      some (last, some pid))
    (block : { block // block ∉ s.heap }) {old : Process} (quiet : old.callback = [])
    (left : s.spaces.mmu.memLayout.freeFrames ≠ 0)
    (short : s.spaces.mmu.memLayout.freeFrames ≤ (s.pages p).length) :
    s.fork (some (block, old)) = none := by
  have small : pid < maxProcesses := Nat.lt_of_lt_of_le low (by decide)
  obtain ⟨new, m₁, r, m₂, m₃, tried, isNew, ran⟩ := fork_tried sound here small search block old left
  have failed : r < 0 := by
    refine Int.lt_iff_le_and_ne.mpr ⟨tried.result, fun whole => ?_⟩
    exact absurd (tried.fits.mp whole) (Nat.not_lt.mpr short)
  rw [ran, if_pos failed]
  unfold giveUp exit
  rw [processExit_quiet small (p := new) (Function.update_self ..) (by rw [isNew]; exact quiet),
    if_pos (by omega)]
  rfl

theorem fork_step (sound : Sound frames s) (meets : s.ForkMeets memory) :
    ∃ r s', s.fork memory = some (r, s') ∧ (s.Lacks memory → r < 0) ∧ (r < 0 → Unchanged s s') ∧
      Sound frames s' := by
  obtain ⟨ends, create, clean, fits⟩ := meets
  have refuse (refused : ∀ p, s.kernel.processFromPid s.kernel.current = some p →
      ∃ e last, e < 0 ∧ s.create p.user p.group memory =
        some (e, { s with kernel := { s.kernel with last := last } })) :
      ∃ r s', s.fork memory = some (r, s') ∧ (s.Lacks memory → r < 0) ∧ (r < 0 → Unchanged s s') ∧
        Sound frames s' := by
    obtain ⟨r, s', ran, negative, unchanged, sound'⟩ := fork_refused sound refused
    exact ⟨r, s', ran, fun _ => negative, fun _ => unchanged, sound'⟩
  rcases search_ends ends with ⟨last, search⟩ | ⟨last, d, first, search⟩
  · refine refuse fun p _ => ?_
    obtain ⟨e, negative, created⟩ := create_refused p.user p.group search (Or.inl rfl)
    exact ⟨e, last, negative, created⟩
  · cases memory with
    | none =>
        refine refuse fun p _ => ?_
        obtain ⟨e, negative, created⟩ := create_refused p.user p.group search (Or.inr rfl)
        exact ⟨e, last, negative, created⟩
    | some new =>
        obtain ⟨block, old⟩ := new
        cases here : s.kernel.processFromPid s.kernel.current with
        | none =>
            refine refuse fun p wrong => ?_
            exact nomatch here.symm.trans wrong
        | some p =>
            have notFull : ¬ s.kernel.process.Full := fun full => Kernel.Full.no_free full first
            obtain ⟨r, s', ran, short, unchanged, sound'⟩ := fork_copies sound here first search block
              (clean block old rfl) (create rfl notFull) (fits p d here first)
            refine ⟨r, s', ran, ?_, unchanged, sound'⟩
            rintro (noMemory | full | few)
            · exact nomatch noMemory
            · exact absurd full notFull
            · exact short.mpr (few p here)

end Fork

/-- In every state of a run whose steps meet their conditions each living process has a
space of its own. -/
theorem Run.sound {frames : List Nat} {s : Spawner} (run : Run frames s) : Sound frames s := by
  induction run with
  | boot owned empty =>
      refine ⟨owned, fun slot p here => ?_, fun slot other p q here => ?_, fun p here => ?_⟩
      · exact nomatch (empty slot).symm.trans here
      · exact nomatch (empty slot).symm.trans here
      · exact nomatch (empty _).symm.trans here
  | create _ meets ran ih => exact ih.create meets ran
  | fork _ meets ran ih =>
      obtain ⟨r, s', ran', -, -, sound⟩ := fork_step ih meets
      obtain ⟨rfl, rfl⟩ := Prod.mk.inj (Option.some.inj (ran.symm.trans ran'))
      exact sound
  | exit _ found meets ran ih => exact ih.exit found meets ran
  | wait _ ran ih => exact ih.wait ran
  | switchTo _ here alive ran ih => exact ih.switchTo here alive ran
  | @write s slot f _ harmless ih => exact ih.tame (Tame.modify _ slot harmless) rfl rfl
  | page _ allowed served ih =>
      exact ih.serve (serve_allowed ih.owned allowed served) (serve_live served (Or.inl ⟨_, _, rfl⟩))
  | @clear s p u _ here served ih =>
      obtain ⟨-, inTable⟩ := processFromPid_small here
      have allowed : s.spaces.Allowed (.clearUserspace p.userspace) :=
        ⟨ih.live _ p inTable (ih.current p inTable), fun _ _ wrong => nomatch wrong⟩
      exact ih.serve (serve_allowed ih.owned allowed served) (serve_live served (Or.inr (Or.inl ⟨_, rfl⟩)))
  | heap _ _ ih => exact ih.congr rfl rfl rfl

def bare (n : Nat) : Spawner := ⟨Kernel.bootKernel, freshFrames n, [], fun _ => 0⟩

/-- The first process of all, with one page in its space, and what is left for others. -/
structure FirstProcess (n : Nat) (s : Spawner) (p : Process) : Prop where
  run : Run (frameList n) s
  process : s.kernel.process = Function.update (fun _ => none) 0 (some p)
  current : s.kernel.current = 0
  last : s.kernel.last = 0
  live : s.spaces.live = [p.userspace]
  heap : s.heap = [4096]
  frames : s.spaces.mmu.memLayout.freeFrames + 4 = n
  pages : (s.pages p).length = 3

theorem first_process {n : Nat} (fits : n ≤ 16384)
    (linked : Lib.Chain (fun f => (links (n - 1)).load32 f) dramStart (frameList n)) (enough : 4 ≤ n) :
    ∃ s p, FirstProcess n s p := by
  obtain ⟨m, m', page⟩ := onePage fits linked enough
  have some' : (freshFrames n).mmu.frames.freeFrames ≠ 0 := show n ≠ 0 by omega
  have start : Run (frameList n) (bare n) := .boot (freshFrames_owned fits linked) fun _ => rfl
  have fresh : (4096 : Nat) ∉ (bare n).heap := fun member => nomatch member
  have created := @create_found (bare n) 0 _ 0 0 0 ⟨4096, fresh⟩ Kernel.blankProcess rfl
    (UserSpaces.serve_initUserspace_some page.made)
  have run := start.create (fun _ _ => some') created
  have frame : (bare n).rootFrame = dramStart := if_neg some'
  have space : (Kernel.initUserspace (bare n).kernel.urp (bare n).rootFrame).1 = firstSpace := by
    rw [frame]
    rfl
  have served : UserSpaces.serve ⟨m, [firstSpace]⟩ (.allocAt 0x1000 false) = some ⟨m', [firstSpace]⟩ := by
    obtain ⟨_, put⟩ := page.put
    show (Mmu.allocAt 0x1000 false false m).map _ = _
    rw [put]
    rfl
  have allowed : UserSpaces.Allowed ⟨m, [firstSpace]⟩ (.allocAt 0x1000 false) := by
    refine ⟨?_, fun _ _ _ => ?_⟩
    · show Supplied m m.urp 0x1000
      rw [page.current]
      exact page.supplied
    · rw [page.current]
      exact List.mem_singleton.mpr rfl
  have paged := run.page allowed served
  have pages : (Frames.below m'.mem 3 (rootLevelFieldAddr firstSpace)).length = 3 := by
    rw [firstSpace_root]
    exact page.pages
  rw [← space] at pages
  exact ⟨_, _, paged, rfl, rfl, rfl, congrArg (fun space => [space]) space.symm, rfl, page.frames, pages⟩

/-- A space that is made changes nothing in the pages of the others. -/
theorem pages_created {s s' : Spawner} {frames : List Nat} (sound : Sound frames s) {m : Mmu}
    {spaces : List Nat} (inits : s.spaces.serve .initUserspace = some ⟨m, spaces⟩)
    (left : s.spaces.mmu.memLayout.freeFrames ≠ 0) (after : s'.spaces = ⟨m, spaces⟩) {p : Process}
    (live : p.userspace ∈ s.spaces.live) :
    s'.pages p = s.pages p ∧
      s'.spaces.mmu.memLayout.freeFrames = s.spaces.mmu.memLayout.freeFrames - 1 := by
  obtain ⟨m', ran, -, -, -, agree, count⟩ := sound.owned.init_first left
  obtain same := Option.some.inj ((UserSpaces.serve_initUserspace_some ran).symm.trans inits)
  obtain ⟨rfl, -⟩ := UserSpaces.mk.inj same
  have kept := agree.mono (Frames.tree_subset (UserSpaces.mem_roots live) s.spaces.mmu.mem)
  unfold pages
  rw [after]
  exact ⟨kept.below, count⟩

/-- The first process and a second one without pages. -/
structure SecondProcess (n : Nat) (s : Spawner) (p : Process) : Prop where
  run : Run (frameList n) s
  first : s.kernel.process 0 = some p
  free : s.kernel.process 2 = none
  current : s.kernel.current = 0
  last : s.kernel.last = 1
  heap : s.heap = [8192, 4096]
  frames : s.spaces.mmu.memLayout.freeFrames + 5 = n
  pages : (s.pages p).length = 3

section FirstProcess

variable {n : Nat} {s : Spawner} {p : Process}

theorem FirstProcess.here (first : FirstProcess n s p) : s.kernel.process 0 = some p := by
  rw [first.process, Function.update_self]

theorem FirstProcess.search (first : FirstProcess n s p) :
    s.kernel.process.slotSearch s.kernel.last (maxProcesses + 1) s.kernel.last = some (1, some 1) := by
  rw [first.process, first.last]
  rfl

theorem FirstProcess.second (first : FirstProcess n s p) (enough : 5 ≤ n) :
    ∃ s, SecondProcess n s p := by
  have fresh : 8192 ∉ s.heap := by rw [first.heap]; decide
  have counted := first.frames
  have left : s.spaces.mmu.memLayout.freeFrames ≠ 0 := by omega
  have sound := first.run.sound
  have live : p.userspace ∈ s.spaces.live := by rw [first.live]; exact List.mem_singleton.mpr rfl
  obtain ⟨m, inits, -, -, -, -, -⟩ := sound.owned.init_first left
  have served := UserSpaces.serve_initUserspace_some inits
  have created := @create_found s 1 _ 1 0 0 ⟨8192, fresh⟩ Kernel.blankProcess first.search served
  have run := first.run.create (fun _ _ => left) created
  generalize isNext : Spawner.mk _ _ _ _ = next at created run
  have table : next.kernel.process = Function.update s.kernel.process 1 (some
      (Kernel.freshProcess Kernel.blankProcess 1 0 0 (Kernel.initUserspace s.kernel.urp s.rootFrame).1)) := by
    rw [← isNext]
  obtain ⟨samePages, count⟩ := pages_created sound served left (show next.spaces = _ by rw [← isNext]) live
  refine ⟨next, run, ?_, ?_, ?_, ?_, ?_, ?_, ?_⟩
  · rw [table]
    exact first.here
  · rw [table, first.process]
    rfl
  · rw [← isNext]
    exact first.current
  · rw [← isNext]
  · rw [← isNext, ← first.heap]
  · omega
  · rw [samePages, first.pages]

end FirstProcess

end Spawner

end TrollOS.Process
