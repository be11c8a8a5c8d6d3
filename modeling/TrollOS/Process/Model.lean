import Mathlib.Algebra.GroupWithZero.Nat
import Mathlib.Logic.Function.Basic
import TrollOS.Errno
import TrollOS.Lib.CyclicSearch

/-!
# The process table

`kernel/process.c`: creating, ending and waiting for processes, saving a
context and choosing the next process.  An operation that never returns (a
panic, an endless search, a null pointer followed) has the result `none`.  What
comes from outside is an argument: the memory `kmalloc` hands out with its old
contents, and the frame the allocator finds for a root table.
-/

namespace TrollOS.Process

open TrollOS.Lib

def maxProcesses : Nat := 1024

def maxProcessFiles : Nat := 64

def pidMax : Int := 2147483647

inductive ProcessState where
  | running
  | blocked
  | zombie
  deriving DecidableEq, Repr

/-- A callback of a process; the kernel only ever registers `kill_callback`, which
wakes `owner`. -/
structure ProcessCallback where
  owner : Nat
  deriving DecidableEq, Repr

/-- There are general registers. -/
instance registers_neZero : NeZero 15 := ⟨by decide⟩

/-- A register context.  `stream` is not in the source: it names the process whose
instruction stream the registers belong to. -/
structure Context where
  status : Nat
  pc : Nat
  stack : Nat
  general : Fin 15 → Nat
  stream : Nat

structure Process where
  pid : Int
  parent : Int
  state : ProcessState
  callback : List ProcessCallback
  returnValue : Int
  userspace : Nat
  user : Int
  group : Int
  timeStarted : Int
  file : Fin maxProcessFiles → Int
  reg : Context

abbrev Table := Nat → Option Process

/-- `_process`, `_process_current`, `_process_last`, the user root pointer register
and the root whose user part the supervisor table shows. -/
structure Kernel where
  process : Table
  current : Nat
  last : Int
  urp : Nat
  mapped : Nat

namespace Table

def modify (t : Table) (slot : Nat) (f : Process → Process) : Table :=
  Function.update t slot ((t slot).map f)

def isRunning (t : Table) (slot : Nat) : Bool :=
  match t slot with
  | some p => p.state = .running
  | none => false

def isZombie (t : Table) (slot : Nat) : Bool :=
  match t slot with
  | some p => p.state = .zombie
  | none => false

/-- `kill_callback`: a null pointer is followed when the owner is gone. -/
def wake (t : Table) (owner : Nat) : Option Table :=
  (t owner).map fun p => Function.update t owner (some { p with state := .running })

/-- The callback loop of `process_exit`.  Every callback asks to be removed, and the
loop then steps over the callback behind it; behind the last one there is only
a null pointer to step over. -/
def runCallbacks (t : Table) : List ProcessCallback → Option (Table × List ProcessCallback)
  | [] => some (t, [])
  | [_] => none
  | callback :: skipped :: rest =>
      (t.wake callback.owner).bind fun t =>
        (runCallbacks t rest).map fun (t, kept) => (t, skipped :: kept)

/-- The slots at which the search in `scheduler` stops. -/
def isEligible (t : Table) (slot : Nat) : Bool :=
  match t slot with
  | some p => p.state ≠ .blocked
  | none => false

def schedulerSearch (t : Table) (current : Nat) : Option Nat :=
  cyclicFind maxProcesses t.isEligible maxProcesses ((current + 1) % maxProcesses)

/-- The search in `process_exit`. -/
def exitSearch (t : Table) (pid : Nat) : Option Nat :=
  cyclicFind maxProcesses (fun slot => (t slot).isSome) maxProcesses ((pid + 1) % maxProcesses)

/-- The slot search of `process_create`: the new `_process_last`, and the free slot
unless the search came round to `tried`.  The increment is undefined at the largest
`pid_t`. -/
def slotSearch (t : Table) (tried : Int) : Nat → Int → Option (Int × Option Nat)
  | 0, _ => none
  | fuel + 1, last =>
      if pidMax ≤ last then none
      else
        let last := last + 1
        let pid := last % maxProcesses
        if pid = tried then some (last, none)
        else if (t pid.toNat).isSome then slotSearch t tried fuel last
        else some (last, some pid.toNat)

end Table

namespace Kernel

/-- `mmu_switch_userspace` and `mmu_map_current_userspace`, then `_process_current`. -/
def processSwitchTo (k : Kernel) (pid : Nat) : Option Kernel :=
  (k.process pid).map fun p =>
    { k with urp := p.userspace, mapped := p.userspace, current := pid }

/-- `mmu_init_userspace`: the root pointer of the new space and the user root pointer
register after it.  Without a frame the register keeps its value. -/
def initUserspace (urp frame : Nat) : Nat × Nat :=
  if frame = 0 then (0, urp) else (frame / 512, frame / 512)

/-- The record of a new process; `parent`, `callback`, `returnValue` and `reg` are what
was in memory before. -/
def freshProcess (memory : Process) (pid : Nat) (uid gid : Int) (root : Nat) : Process :=
  { memory with
    pid := pid
    state := .running
    user := uid
    group := gid
    timeStarted := 1337
    userspace := root
    file := fun _ => -1 }

/-- `memory` is what `kmalloc` returned, with its old contents. -/
def processCreate (k : Kernel) (uid gid : Int) (memory : Option Process) (frame : Nat) :
    Option (Int × Kernel) :=
  (k.process.slotSearch k.last (maxProcesses + 1) k.last).map fun found =>
    match found.2, memory with
    | none, _ => (-eagain, { k with last := found.1 })
    | some _, none => (-enomem, { k with last := found.1 })
    | some pid, some memory =>
        let (root, urp) := initUserspace k.urp frame
        (pid,
          { k with
            process := Function.update k.process pid (some (freshProcess memory pid uid gid root))
            last := found.1
            urp := urp })

/-- `mmu_free_userspace` only changes frames, which are not part of this state. -/
def processExit (k : Kernel) (pid : Int) (returnValue : Int) : Option Kernel :=
  if pid < 0 ∨ maxProcesses ≤ pid then some k
  else
    let slot := pid.toNat
    match k.process slot with
    | none => some k
    | some proc =>
        if slot = 0 ∨ slot = 1 then none
        else
          (k.process.runCallbacks proc.callback).bind fun (process, kept) =>
            let process := process.modify slot fun p => { p with callback := kept }
            let k := { k with process := process }
            let switched :=
              if k.current = slot then (process.exitSearch slot).bind k.processSwitchTo else some k
            switched.map fun k =>
              { k with
                process := k.process.modify slot fun p =>
                  { p with returnValue := returnValue, state := .zombie } }

def processSetPc (k : Kernel) (pid : Int) (pc : Nat) : Kernel :=
  if pid < 0 ∨ maxProcesses ≤ pid then k
  else
    { k with
      process := k.process.modify pid.toNat fun p => { p with reg := { p.reg with pc := pc } } }

/-- `allocated` says whether `kmalloc` returned a callback record. -/
def processWait (k : Kernel) (pid : Int) (allocated : Bool) : Option (Int × Kernel) :=
  if pid < 0 ∨ maxProcesses ≤ pid then some (-einval, k)
  else
    let slot := pid.toNat
    match k.process slot with
    | none => some (-esrch, k)
    | some proc =>
        if proc.state = .zombie then
          some (proc.returnValue, { k with process := Function.update k.process slot none })
        else if allocated then
          let process := k.process.modify slot fun p =>
            { p with callback := ⟨k.current⟩ :: p.callback }
          (process k.current).map fun p =>
            (-1000,
              { k with
                process := Function.update process k.current (some { p with state := .blocked }) })
        else none

def processFromPid (k : Kernel) (pid : Int) : Option Process :=
  if pid < 0 ∨ maxProcesses ≤ pid then none else k.process pid.toNat

/-- The callers pass the user stack pointer as the status register. -/
def processSaveContext (k : Kernel) (cpu : Context) : Kernel :=
  { k with
    process := k.process.modify k.current fun p =>
      { p with reg := { cpu with status := cpu.stack % 65536 } } }

/-- The context to resume, with the kernel after the switch. -/
def scheduler (k : Kernel) : Option (Context × Kernel) :=
  (k.process.schedulerSearch k.current).bind fun next =>
    (k.processSwitchTo next).bind fun k =>
      (k.process next).map fun p => (p.reg, k)

end Kernel

end TrollOS.Process
