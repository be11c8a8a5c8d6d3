import TrollOS.Process.Scheduling

/-!
# System calls and interrupts

The calls of `kernel/syscall/` that touch the process table, the path of
`int_syscall` through `process_save_context` and back to user mode, and the
timer interrupt `process_isr`.  What the file system, the loader, the page
mapper and the devices answer is an argument of the call.
-/

namespace TrollOS.Process

namespace Kernel

def syscallExit (k : Kernel) (returnValue : Int) : Option (Int × Kernel) :=
  (k.processExit k.current returnValue).map fun k => (0, k)

/-- The child's copy of the parent's registers; `status` is not copied. -/
def forkedProcess (parent child : Process) (pid : Nat) : Process :=
  { child with
    reg :=
      { child.reg with
        pc := parent.reg.pc
        stack := parent.reg.stack
        general := Function.update parent.reg.general 0 0
        stream := pid }
    file := parent.file
    parent := parent.pid }

/-- `_fork`; `cloned` says whether `mmu_clone_userspace` succeeded. -/
def fork (k : Kernel) (memory : Option Process) (frame : Nat) (cloned : Bool) :
    Option (Int × Kernel) :=
  match k.processFromPid k.current with
  | none => some (-eagain, k)
  | some current =>
      (k.processCreate current.user current.group memory frame).bind fun (pid, k) =>
        if pid < 0 then some (-eagain, k)
        else
          match k.processFromPid pid with
          | none => some (-eagain, k)
          | some new =>
              if cloned then
                some (new.pid,
                  { k with
                    process := Function.update k.process pid.toNat
                      (some (forkedProcess current new pid.toNat)) })
              else
                (k.processExit pid 1).bind fun k =>
                  (k.setState pid .zombie).bind fun k =>
                    (k.processWait pid true).map fun (_, k) => (-enomem, k)

/-- `_execve`: the result and whether a context switch is forced.  The old user pages
are replaced under the same root; `entry` is what `elf_load` returned. -/
def execve (k : Kernel) (filename : Bool) (entry : Nat) : Int × Bool × Kernel :=
  if ¬ filename then (-einval, false, k)
  else
    match k.processFromPid k.current with
    | none => (-einval, false, k)
    | some _ => (0, true, k.processSetPc k.current entry)

/-- `_open`; `globalFd` is the answer of `vfs_open`. -/
def openFile (k : Kernel) (filename : Bool) (globalFd : Int) : Int × Kernel :=
  if ¬ filename then (-einval, k)
  else
    match k.processFromPid k.current with
    | none => (-einval, k)
    | some proc =>
        if globalFd < 0 then (globalFd, k)
        else
          match (List.finRange maxProcessFiles).find? fun fd => proc.file fd < 0 with
          | none => (-emfile, k)
          | some fd =>
              (fd.val,
                { k with
                  process := k.process.modify k.current fun p =>
                    { p with file := Function.update p.file fd globalFd } })

/-- A descriptor behind the check of `_read` and `_write`. -/
theorem fileIndex_lt {fd : Int} (bound : ¬ (fd < 0 ∨ (maxProcessFiles : Int) ≤ fd)) :
    fd.toNat < maxProcessFiles := by omega

/-- `_read`; `blocks` says that the answer comes from a device the caller now waits for. -/
def read (k : Kernel) (fd : Int) (answer : Int) (blocks : Bool) : Option (Int × Kernel) :=
  if bound : fd < 0 ∨ (maxProcessFiles : Int) ≤ fd then some (-ebadf, k)
  else
    match k.processFromPid k.current with
    | none => some (-einval, k)
    | some proc =>
        if proc.file ⟨fd.toNat, fileIndex_lt bound⟩ < 0 then some (-ebadf, k)
        else if blocks then (k.setState k.current .blocked).map fun k => (-eagain, k)
        else some (answer, k)

/-- `_write`; `answer` is the answer of `vfs_write`. -/
def write (k : Kernel) (fd : Int) (answer : Int) : Int × Kernel :=
  if bound : fd < 0 ∨ (maxProcessFiles : Int) ≤ fd then (-ebadf, k)
  else
    match k.processFromPid k.current with
    | none => (-einval, k)
    | some proc =>
        if proc.file ⟨fd.toNat, fileIndex_lt bound⟩ < 0 then (-ebadf, k) else (answer, k)

/-- What the device interrupts do to the process table: wake processes. -/
def wakeAll (k : Kernel) : List Int → Option Kernel
  | [] => some k
  | pid :: rest => (k.setState pid .running).bind fun k => wakeAll k rest

end Kernel

/-- The machine in user mode: the kernel's state and the registers. -/
structure Machine where
  kernel : Kernel
  cpu : Context

/-- What takes the machine out of user mode.  `usable` says whether the words behind the
user's frame pointer can be used as an exception frame. -/
inductive Entry where
  | exit (returnValue : Int)
  | fork (memory : Option Process) (frame : Nat) (cloned : Bool)
  | execve (filename : Bool) (entry : Nat) (usable : Bool)
  | openFile (filename : Bool) (globalFd : Int)
  | read (fd : Int) (answer : Int) (blocks : Bool)
  | write (fd : Int) (answer : Int)
  | timer (woken : List Int)

namespace Machine

/-- The `rte` of `int_syscall`: the result is in `d0`, and `a0` and `a1` are as the C code
left them. -/
def returnFrom (cpu : Context) (scratch : Nat × Nat) (result : Int) : Context :=
  { cpu with
    general := Function.update (Function.update (Function.update cpu.general 0
      (result % 4294967296).toNat) 8 scratch.1) 9 scratch.2 }

def switch (k : Kernel) : Option Machine := k.scheduler.map fun (context, k) => ⟨k, context⟩

/-- The jump from `int_syscall` to `process_force_context_switch`.  The frame pointer is the
user's again: the status and the counter are stored behind it, in the space of the next
process, and `rte` takes its frame from there.  Where that is no frame the kernel stops. -/
def forcedSwitch (k : Kernel) (usable : Bool) : Option Machine := if usable then switch k else none

/-- From one return to user mode to the next; `scratch` is what a call leaves in `a0` and `a1`. -/
def step (m : Machine) (scratch : Nat × Nat) : Entry → Option Machine
  | .exit returnValue =>
      ((m.kernel.processSaveContext m.cpu).syscallExit returnValue).map fun (result, k) =>
        ⟨k, returnFrom m.cpu scratch result⟩
  | .fork memory frame cloned =>
      ((m.kernel.processSaveContext m.cpu).fork memory frame cloned).map fun (result, k) =>
        ⟨k, returnFrom m.cpu scratch result⟩
  | .execve filename entry usable =>
      let (result, forced, k) := (m.kernel.processSaveContext m.cpu).execve filename entry
      if forced then forcedSwitch k usable else some ⟨k, returnFrom m.cpu scratch result⟩
  | .openFile filename globalFd =>
      let (result, k) := (m.kernel.processSaveContext m.cpu).openFile filename globalFd
      some ⟨k, returnFrom m.cpu scratch result⟩
  | .read fd answer blocks =>
      ((m.kernel.processSaveContext m.cpu).read fd answer blocks).map fun (result, k) =>
        ⟨k, returnFrom m.cpu scratch result⟩
  | .write fd answer =>
      let (result, k) := (m.kernel.processSaveContext m.cpu).write fd answer
      some ⟨k, returnFrom m.cpu scratch result⟩
  | .timer woken =>
      (m.kernel.wakeAll woken).bind fun k => switch (k.processSaveContext m.cpu)

/-- The end of `main`: the first process is created, its space is made current and
`process_jump` starts it. -/
def boot (memory : Process) (frame entry : Nat) (general : Fin 15 → Nat) : Option Machine :=
  (Kernel.bootKernel.processCreate 0 0 (some memory) frame).bind fun (pid, k) =>
    (k.processSwitchTo pid.toNat).map fun k =>
      let k := k.processSetPc pid entry
      let standard : Process → Process := fun p =>
        { p with file := fun fd => if fd.val < 3 then 0 else p.file fd }
      ⟨{ k with process := k.process.modify pid.toNat standard },
        ⟨0, entry, 0, general, pid.toNat⟩⟩

end Machine

end TrollOS.Process
