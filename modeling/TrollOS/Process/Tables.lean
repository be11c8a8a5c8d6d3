import TrollOS.Process.Backing

/-!
# Table indices reached from user mode

The system calls and the entry points of the file system, with the trace of their accesses
to the tables of handlers, descriptors, files, mounts, drivers and devices.  All of
them are inside the tables while nobody uses the one number behind the last system call,
a descriptor no layer checks, or a device node that is no registered device or is taken for
a file.
-/

namespace TrollOS.Process

open TrollOS.Lib TrollOS.Vfs
open Romfs (Instances)

inductive Syscall where
  | exit | fork | read | write | open | close | waitpid | creat | link | unlink
  | execve | chdir | time | mknod | chmod | lchown | stat | lseek | getpid
  deriving DecidableEq, Repr

/-- `syscall_handler`: every number has its own. -/
def syscallHandler : List Syscall :=
  [.exit, .fork, .read, .write, .open, .close, .waitpid, .creat, .link, .unlink, .execve, .chdir,
    .time, .mknod, .chmod, .lchown, .stat, .lseek, .getpid]

/-- The words of a system call as its handler takes them: a descriptor, a string, a
buffer and its size; and what memory, the page mapper, the loader and the stack answer. -/
structure Args where
  fd : Int
  filename : Option (List UInt8)
  bytes : List UInt8
  count : Nat
  memory : Option Process
  frame : Nat
  cloned : Bool
  entry : Nat
  garbage : Int

/-- What user mode can ask for: a system call, and the entry points of the file system
with any descriptor. -/
inductive Request where
  | syscall (number : Nat) (a : Args)
  | tell (fd : Int)
  | seek (fd offset whence garbage : Int)
  | write (fd : Int) (bytes : List UInt8)
  | read (fd : Int) (count : Nat)
  | readDirectory (fd : Int) (dirs : Nat)

namespace System

def current (s : System Instances) : Option Process := s.kernel.processFromPid s.kernel.current

/-- What a descriptor of the current process refers to, behind the checks of `_read` and
`_write`. -/
def globalFd (s : System Instances) (fd : Int) : Option Int :=
  if bound : fd < 0 ∨ (maxProcessFiles : Int) ≤ fd then none
  else s.current.bind fun p =>
    if p.file ⟨fd.toNat, Kernel.fileIndex_lt bound⟩ < 0 then none
    else some (p.file ⟨fd.toNat, Kernel.fileIndex_lt bound⟩)

end System

namespace Touching

def processFile (p : Process) (fd : Int) : Touching Int :=
  .yields (.processFile fd)
    (if bound : fd < 0 ∨ (maxProcessFiles : Int) ≤ fd then none
      else some (p.file ⟨fd.toNat, Kernel.fileIndex_lt bound⟩))

def read (s : System Instances) (fd : Int) (count : Nat) : Touching (Int × System Instances) :=
  if fd < 0 ∨ (maxProcessFiles : Int) ≤ fd then pure (-ebadf, s)
  else
    match s.current with
    | none => pure (-einval, s)
    | some p => do
        let globalFd ← processFile p fd
        if globalFd < 0 then pure (-ebadf, s)
        else
          let result ← vfsRead s.vfs globalFd count
          if System.blocks s.vfs globalFd.toNat result.1.1 then
            .silent ((s.kernel.setState s.kernel.current .blocked).map fun k => (result.1.1, ⟨result.2, k⟩))
          else pure (result.1.1, { s with vfs := result.2 })

def write (s : System Instances) (fd : Int) (bytes : List UInt8) : Touching (Int × System Instances) :=
  if fd < 0 ∨ (maxProcessFiles : Int) ≤ fd then pure (-ebadf, s)
  else
    match s.current with
    | none => pure (-einval, s)
    | some p => do
        let globalFd ← processFile p fd
        if globalFd < 0 then pure (-ebadf, s)
        else
          let result ← vfsWrite s.vfs globalFd bytes
          pure (result, s)

/-- `_open`: the slots are searched for a free one. -/
def «open» (s : System Instances) (filename : Option (List UInt8)) : Touching (Int × System Instances) :=
  match filename, s.current with
  | none, _ => pure (-einval, s)
  | some _, none => pure (-einval, s)
  | some path, some p => do
      let (opened, vfs) ← vfsOpen s.vfs path
      match opened with
      | .hang => .stuck
      | .error errno => pure (errno, { s with vfs := vfs })
      | .value globalFd =>
          let _ ← Traced.scan (fun i : Nat => .processFile i)
            (fun i => decide (p.file (Table.fileIndex i) < 0)) (List.range maxProcessFiles)
          pure ((s.kernel.openFile true globalFd).1, ⟨vfs, (s.kernel.openFile true globalFd).2⟩)

/-- `size_t exe_size = vfs_tell(fd)`. -/
def unsignedSize (pos : Int) : Nat := (pos % 4294967296).toNat

/-- `_execve`, which takes a negative answer of `vfs_open` for a descriptor.  What the loader
answers is `entry`. -/
def execve (s : System Instances) (filename : Option (List UInt8)) (entry : Nat) (garbage : Int) :
    Touching (Int × System Instances) :=
  match filename, s.current with
  | none, _ => pure (-einval, s)
  | some _, none => pure (-einval, s)
  | some path, some _ => do
      let (opened, vfs) ← vfsOpen s.vfs path
      match opened with
      | .hang => .stuck
      | .error errno => load vfs errno
      | .value fd => load vfs fd
where
  /-- The executable is read and its descriptor closed. -/
  load (vfs : Vfs Instances) (fd : Int) : Touching (Int × System Instances) := do
    let toEnd ← vfsSeek vfs fd 0 2 garbage
    let size ← vfsTell toEnd.2 fd
    let toStart ← vfsSeek toEnd.2 fd 0 0 garbage
    let done ← vfsRead toStart.2 fd (unsignedSize size)
    let closed ← vfsClose done.2 fd
    pure ((s.kernel.execve true entry).1, ⟨closed.2, (s.kernel.execve true entry).2.2⟩)

/-- What a handler does; `_fork` copies all the slots. -/
def handle (s : System Instances) (a : Args) : Syscall → Touching (Int × System Instances)
  | .exit => .silent (s.exec (.exit a.fd))
  | .fork => do
      let _ ← Traced.scan (fun i : Nat => .processFile i) (fun _ => false) (List.range maxProcessFiles)
      .silent (s.exec (.fork a.memory a.frame a.cloned))
  | .read => read s a.fd a.count
  | .write => write s a.fd a.bytes
  | .open => Touching.open s a.filename
  | .execve => execve s a.filename a.entry a.garbage
  | .getpid => pure (s.kernel.current, s)
  | _ => pure (0, s)

/-- `syscall_stub`: a number above `SYSCALLS` is refused. -/
def syscallStub (s : System Instances) (number : Nat) (a : Args) : Touching (Int × System Instances) :=
  if syscalls < number then pure (-einval, s)
  else do
    let call ← .yields (.handler number) syscallHandler[number]?
    handle s a call

def request (s : System Instances) : Request → Touching (Int × System Instances)
  | .syscall number a => syscallStub s number a
  | .tell fd => do
      let pos ← vfsTell s.vfs fd
      pure (pos, s)
  | .seek fd offset whence garbage => do
      let result ← vfsSeek s.vfs fd offset whence garbage
      pure (result.1, { s with vfs := result.2 })
  | .write fd bytes => do
      let result ← vfsWrite s.vfs fd bytes
      pure (result, s)
  | .read fd count => do
      let result ← vfsRead s.vfs fd count
      pure (result.1.1, { s with vfs := result.2 })
  | .readDirectory fd dirs => do
      match ← vfsReadDirectory s.vfs fd dirs with
      | .value found => pure (found.length, s)
      | .error errno => pure (errno, s)
      | .hang => .stuck

end Touching

namespace System

/-! ## The same answers -/

theorem read_agrees (s : System Instances) (fd : Int) (count : Nat) :
    (Touching.read s fd count).Agrees (s.read fd count) := by
  unfold Touching.read System.read
  split
  · exact Traced.Agrees.pure _
  · next bound =>
      rw [show s.kernel.processFromPid s.kernel.current = s.current from rfl]
      cases s.current with
      | none => exact Traced.Agrees.pure _
      | some p =>
          have slot : (Touching.processFile p fd).Agrees
              (some (p.file ⟨fd.toNat, Kernel.fileIndex_lt bound⟩)) := by
            intro g ran
            exact (dif_neg bound).symm.trans ran
          refine slot.bind ?_
          dsimp only
          split
          · exact Traced.Agrees.pure _
          · intro result ran
            obtain ⟨⟨answer, v⟩, reads, ran⟩ := Traced.bind_some ran
            rw [Touching.vfsRead_agrees s.vfs _ count _ reads]
            dsimp only [Option.bind_some] at ran ⊢
            split at ran
            · next blocked =>
                rw [if_pos blocked]
                exact ran
            · next goes =>
                rw [if_neg goes]
                exact ran

theorem open_agrees (s : System Instances) (filename : Option (List UInt8)) :
    (Touching.open s filename).Agrees (s.open filename) := by
  unfold Touching.open System.open
  rw [show s.kernel.processFromPid s.kernel.current = s.current from rfl]
  cases filename with
  | none => exact Traced.Agrees.pure _
  | some path =>
      cases s.current with
      | none => exact Traced.Agrees.pure _
      | some p =>
          refine (Touching.vfsOpen_agrees s.vfs path).bind ?_
          dsimp only
          rcases s.vfs.vfsOpen path with ⟨globalFd | errno | _, v⟩
          · exact (Traced.Agrees.scan _ _ _).bind (Traced.Agrees.pure _)
          · exact Traced.Agrees.pure _
          · exact Traced.Agrees.stuck _

def InUse (s : System Instances) (fd : Int) : Prop :=
  Touching.InTable fd ∧ (s.vfs.file fd.toNat).isUsed = true

/-- The system calls that take a descriptor. -/
def takesDescriptor : Syscall → Bool
  | .read => true
  | .write => true
  | .close => true
  | .lseek => true
  | _ => false

/-- A number that is no system call, or a descriptor that is not open. -/
def Invalid (s : System Instances) : Request → Prop
  | .syscall number a =>
      match syscallHandler[number]? with
      | none => True
      | some call => takesDescriptor call = true ∧ s.globalFd a.fd = none
  | .tell fd => ¬ s.InUse fd
  | .seek fd _ _ _ => ¬ s.InUse fd
  | .write fd _ => ¬ s.InUse fd
  | .read fd _ => ¬ s.InUse fd
  | .readDirectory fd _ => ¬ s.InUse fd

/-- Every access is inside its table, no null pointer is followed, and what is invalid is
refused without a change. -/
def RequestRight (s : System Instances) (q : Request) : Prop :=
  (Touching.request s q).Within Access.Inside ∧
    (s.Invalid q → ∃ r, (Touching.request s q).answer = some (r, s) ∧ r < 0)

/-! ## The condition -/

/-- The descriptor's entry is no device, or a device with a number in the table. -/
def deviceInRange (v : Vfs Instances) (fd : Nat) : Prop :=
  (v.file fd).isDevice = true → major (v.file fd).data < deviceMax

/-- What the handlers need: no device node with a major number outside the registry; to
write, a registered device; no close or seek of what is not open, which nobody refuses; and
for `execve` a file that can be opened and is no device, whose number would be taken for a
mount. -/
def HandlerMeets (s : System Instances) (a : Args) : Syscall → Prop
  | .read => ∀ g, s.globalFd a.fd = some g → (s.vfs.file g.toNat).isUsed = true →
      deviceInRange s.vfs g.toNat
  | .write => ∀ g, s.globalFd a.fd = some g → deviceInRange s.vfs g.toNat ∧
      ((s.vfs.file g.toNat).isDevice = true →
        (s.vfs.world.deviceLookup (s.vfs.file g.toNat).data).isSome = true)
  | .close => s.globalFd a.fd ≠ none
  | .lseek => s.globalFd a.fd ≠ none
  | .execve => ∀ path p, a.filename = some path → s.current = some p →
      (s.vfs.vfsOpen path).1 = .hang ∨
        ∃ fd v, s.vfs.vfsOpen path = (.value fd, v) ∧
          ((v.file fd).isDevice = true → s.vfs.Live (v.file fd).data)
  | _ => True

/-- The requests all of whose accesses are inside the tables. -/
def RequestMeets (s : System Instances) : Request → Prop
  | .syscall number a =>
      number ≠ syscalls ∧ ∀ call, syscallHandler[number]? = some call → s.HandlerMeets a call
  | .tell fd => s.InUse fd
  | .seek fd _ whence _ => whence = 0 ∨ whence = 1 ∨ whence = 2 → s.InUse fd ∧
      (whence = 2 → (s.vfs.file fd.toNat).isDevice = true → s.vfs.Live (s.vfs.file fd.toNat).data)
  | .write fd _ => Touching.InTable fd ∧
      ((s.vfs.file fd.toNat).isDevice = true → s.InUse fd ∧ deviceInRange s.vfs fd.toNat ∧
        (s.vfs.world.deviceLookup (s.vfs.file fd.toNat).data).isSome = true)
  | .read fd _ => fd ≠ -1 ∧ (s.InUse fd → deviceInRange s.vfs fd.toNat)
  | .readDirectory fd _ => Touching.InTable fd → (s.vfs.file fd.toNat).directory = true →
      (s.vfs.file fd.toNat).isDevice = false → s.InUse fd

/-- What the kernel does by itself. -/
inductive Task where
  | open (path : List UInt8)
  | openDevice (device : Nat)
  | mount (dev : Nat) (path : List UInt8) (fs : String)
  | create (uid gid : Int) (memory : Option Process) (frame : Nat)
  | stdio (pid : Nat)
  | switch (pid : Nat)

def task (s : System Instances) : Task → Option (System Instances)
  | .open path => some { s with vfs := (s.vfs.vfsOpen path).2 }
  | .openDevice device => some { s with vfs := (s.vfs.vfsOpenDevice device).2 }
  | .mount dev path fs => some { s with vfs := (s.vfs.vfsMount dev path fs).2 }
  | .create uid gid memory frame =>
      (s.kernel.processCreate uid gid memory frame).map fun (_, k) => { s with kernel := k }
  | .stdio pid =>
      some { s with
        kernel := { s.kernel with
          process := s.kernel.process.modify pid fun p =>
            { p with file := fun fd => if fd.val < 3 then 0 else p.file fd } } }
  | .switch pid => (s.kernel.processSwitchTo pid).map fun k => { s with kernel := k }

/-- Before anything is mounted, opened or created: romfs is all that is registered, and
only numbers of the registry have a device. -/
structure Fresh (s : System Instances) : Prop where
  file : ∀ i, (s.vfs.file i).isUsed = false ∧ (s.vfs.file i).directory = false
  mount : ∀ i, (s.vfs.mount i).isUsed = false
  types : ∀ i, (s.vfs.fsType i).used = true → ∃ stale, s.vfs.fsType i = Romfs.fsType stale
  registry : ∀ dev device, s.vfs.world.deviceLookup dev = some device → major dev < deviceMax
  process : ∀ slot, s.kernel.process slot = none

/-- Runs of tasks of the kernel and of requests that meet the condition. -/
inductive RequestRun : System Instances → Prop where
  | fresh {s : System Instances} (start : Fresh s) : RequestRun s
  | task {s s' : System Instances} {t : Task} (run : RequestRun s) (ran : s.task t = some s') :
      RequestRun s'
  | request {s s' : System Instances} {q : Request} {r : Int} (run : RequestRun s)
      (meets : s.RequestMeets q) (ran : (Touching.request s q).answer = some (r, s')) : RequestRun s'

/-! ## What holds in every state -/

/-- Files are on mounts, and descriptors refer to the file table. -/
structure Sane (s : System Instances) : Prop where
  backed : Backed s.vfs
  mounted : Mounted s.vfs
  files : ∀ slot p, s.kernel.process slot = some p → Quiet (· < maxGlobalFiles) p.file

section Files

variable {t t' : Table} {k k' : Kernel}

/-- Every descriptor that is open refers to the file table. -/
def FilesInside (t : Table) : Prop :=
  ∀ slot p, t slot = some p → Quiet (· < maxGlobalFiles) p.file

theorem FilesInside.zombiesQuiet (inside : FilesInside t) :
    Table.ZombiesQuiet (· < maxGlobalFiles) t :=
  fun slot p here _ => inside slot p here

theorem FilesInside.same (inside : FilesInside t)
    (same : Table.SameFiles (· < maxGlobalFiles) t t') : FilesInside t' :=
  fun slot _ here => same.quiet_at (fun q was => inside slot q was) here

theorem FilesInside.modify (inside : FilesInside t) (slot : Nat) {f : Process → Process}
    (right : ∀ p, t slot = some p → Quiet (· < maxGlobalFiles) (f p).file) :
    FilesInside (t.modify slot f) :=
  inside.same (Table.SameFiles.modify _ t slot fun p here =>
    Or.inr ⟨inside slot p here, right p here⟩)

theorem FilesInside.exit (inside : FilesInside k.process) {pid value : Int}
    (ran : k.processExit pid value = some k') : FilesInside k'.process :=
  inside.same (Kernel.processExit_sameFiles inside.zombiesQuiet
    (fun p found => inside pid.toNat p (Kernel.processFromPid_at found)) ran)

theorem FilesInside.fork (inside : FilesInside k.process) {memory : Option Process} {frame : Nat}
    {cloned : Bool} {r : Int} (ran : k.fork memory frame cloned = some (r, k')) :
    FilesInside k'.process :=
  inside.same (Kernel.fork_sameFiles inside.zombiesQuiet
    (fun _ _ p found => inside _ p (Kernel.processFromPid_at found)) ran)

theorem FilesInside.setState (inside : FilesInside k.process) {pid : Int} {state : ProcessState}
    (ran : k.setState pid state = some k') : FilesInside k'.process :=
  inside.same (Kernel.setState_sameFiles inside.zombiesQuiet
    (fun _ p here => inside pid.toNat p here) ran)

/-- An opened file is given to a slot. -/
theorem FilesInside.openFile (inside : FilesInside k.process) (filename : Bool) {globalFd : Nat}
    (small : globalFd < maxGlobalFiles) : FilesInside (k.openFile filename globalFd).2.process := by
  unfold Kernel.openFile
  split
  · exact inside
  · split
    · exact inside
    · split
      · exact inside
      · split
        · exact inside
        · next fd _ =>
            refine inside.modify k.current fun p here i => ?_
            by_cases same : i = fd
            · subst same
              right
              dsimp only
              rw [Function.update_self]
              exact small
            · dsimp only
              rw [Function.update_of_ne same]
              exact inside k.current p here i

theorem FilesInside.setPc (inside : FilesInside k.process) (pid : Int) (pc : Nat) :
    FilesInside (k.processSetPc pid pc).process := by
  unfold Kernel.processSetPc
  split
  · exact inside
  · exact inside.modify pid.toNat fun p here => inside pid.toNat p here

theorem FilesInside.execve (inside : FilesInside k.process) (filename : Bool) (entry : Nat) :
    FilesInside (k.execve filename entry).2.2.process := by
  unfold Kernel.execve
  split
  · exact inside
  · split
    · exact inside
    · exact inside.setPc k.current entry

end Files

variable {s s' : System Instances} {r : Int}

section Runs

theorem Sane.moved (sane : Sane s) {v : Vfs Instances} (entries : SameEntries s.vfs v)
    (mounts : SameMounts s.vfs v) : Backed v ∧ Mounted v :=
  ⟨sane.backed.same mounts, sane.mounted.same entries fun _ => mounts.live.mpr⟩

theorem Sane.opened (sane : Sane s) (path : List UInt8) :
    Backed (s.vfs.vfsOpen path).2 ∧ Mounted (s.vfs.vfsOpen path).2 :=
  ⟨sane.backed.same (vfsOpen_sameMounts s.vfs path), sane.mounted.open path⟩

theorem Sane.read (sane : Sane s) {fd : Int} {count : Nat}
    (ran : (Touching.read s fd count).answer = some (r, s')) : Sane s' := by
  unfold Touching.read at ran
  split at ran
  · obtain ⟨-, rfl⟩ := Prod.mk.inj (Option.some.inj ran)
    exact sane
  · split at ran
    · obtain ⟨-, rfl⟩ := Prod.mk.inj (Option.some.inj ran)
      exact sane
    · obtain ⟨globalFd, -, ran⟩ := Traced.bind_some ran
      split at ran
      · obtain ⟨-, rfl⟩ := Prod.mk.inj (Option.some.inj ran)
        exact sane
      · obtain ⟨⟨answer, v⟩, reads, ran⟩ := Traced.bind_some ran
        obtain ⟨entries, mounts⟩ := vfsRead_same (Touching.vfsRead_agrees s.vfs globalFd count _ reads)
        obtain ⟨backed, mounted⟩ := sane.moved entries mounts
        dsimp only at ran
        split at ran
        · obtain ⟨k, stored, result⟩ := Option.map_eq_some_iff.mp ran
          obtain ⟨-, rfl⟩ := Prod.mk.inj result
          exact ⟨backed, mounted, FilesInside.setState sane.files stored⟩
        · obtain ⟨-, rfl⟩ := Prod.mk.inj (Option.some.inj ran)
          exact ⟨backed, mounted, sane.files⟩

theorem write_same {fd : Int} {bytes : List UInt8}
    (ran : (Touching.write s fd bytes).answer = some (r, s')) : s' = s := by
  unfold Touching.write at ran
  split at ran
  · exact (Prod.mk.inj (Option.some.inj ran)).2.symm
  · split at ran
    · exact (Prod.mk.inj (Option.some.inj ran)).2.symm
    · obtain ⟨globalFd, -, ran⟩ := Traced.bind_some ran
      split at ran
      · exact (Prod.mk.inj (Option.some.inj ran)).2.symm
      · obtain ⟨result, -, ran⟩ := Traced.bind_some ran
        exact (Prod.mk.inj (Option.some.inj ran)).2.symm

theorem Sane.open (sane : Sane s) {filename : Option (List UInt8)}
    (ran : (Touching.open s filename).answer = some (r, s')) : Sane s' := by
  unfold Touching.open at ran
  split at ran
  · obtain ⟨-, rfl⟩ := Prod.mk.inj (Option.some.inj ran)
    exact sane
  · obtain ⟨-, rfl⟩ := Prod.mk.inj (Option.some.inj ran)
    exact sane
  · next path _ _ =>
      obtain ⟨backed, mounted⟩ := sane.opened path
      obtain ⟨⟨outcome, v⟩, opened, ran⟩ := Traced.bind_some ran
      have same := (Touching.vfsOpen_agrees s.vfs path).answer_eq opened
      rw [← same] at backed mounted
      cases outcome with
      | hang => exact nomatch ran
      | error errno =>
          obtain ⟨-, rfl⟩ := Prod.mk.inj (Option.some.inj ran)
          exact ⟨backed, mounted, sane.files⟩
      | value globalFd =>
          obtain ⟨slot, -, ran⟩ := Traced.bind_some ran
          obtain ⟨-, rfl⟩ := Prod.mk.inj (Option.some.inj ran)
          exact ⟨backed, mounted, FilesInside.openFile sane.files true (vfsOpen_value same.symm).1⟩

/-- The executable is read through entries that say the same all the time. -/
theorem Sane.load (sane : Sane s) {v : Vfs Instances} (backed : Backed v) (mounted : Mounted v)
    {entry : Nat} {garbage fd : Int} (ran : (Touching.execve.load s entry garbage v fd).answer = some (r, s')) :
    Sane s' := by
  obtain ⟨toEnd, sought, ran⟩ := Traced.bind_some ran
  obtain ⟨size, -, ran⟩ := Traced.bind_some ran
  obtain ⟨toStart, sought', ran⟩ := Traced.bind_some ran
  obtain ⟨done, reads, ran⟩ := Traced.bind_some ran
  obtain ⟨closed, closes, ran⟩ := Traced.bind_some ran
  obtain rfl := (Touching.vfsSeek_agrees v fd 0 2 garbage).answer_eq sought
  obtain rfl := (Touching.vfsSeek_agrees _ fd 0 0 garbage).answer_eq sought'
  obtain rfl := (Touching.vfsClose_agrees done.2 fd).answer_eq closes
  obtain ⟨-, rfl⟩ := Prod.mk.inj (Option.some.inj ran)
  obtain ⟨entries₁, mounts₁⟩ := vfsSeek_same v fd.toNat 0 2 garbage
  obtain ⟨entries₂, mounts₂⟩ := vfsSeek_same (v.vfsSeek fd.toNat 0 2 garbage).2 fd.toNat 0 0 garbage
  obtain ⟨entries₃, mounts₃⟩ := vfsRead_same (Touching.vfsRead_agrees _ fd _ _ reads)
  obtain ⟨entries₄, mounts₄⟩ := vfsClose_same done.2 fd
  have mounts := mounts₁.trans (mounts₂.trans (mounts₃.trans mounts₄))
  have entries := entries₁.trans (entries₂.trans (entries₃.trans entries₄))
  exact ⟨backed.same mounts, mounted.same entries fun _ => mounts.live.mpr,
    FilesInside.execve sane.files true entry⟩

theorem Sane.execve (sane : Sane s) {filename : Option (List UInt8)} {entry : Nat} {garbage : Int}
    (ran : (Touching.execve s filename entry garbage).answer = some (r, s')) : Sane s' := by
  unfold Touching.execve at ran
  split at ran
  · obtain ⟨-, rfl⟩ := Prod.mk.inj (Option.some.inj ran)
    exact sane
  · obtain ⟨-, rfl⟩ := Prod.mk.inj (Option.some.inj ran)
    exact sane
  · next path _ _ =>
      obtain ⟨backed, mounted⟩ := sane.opened path
      obtain ⟨⟨outcome, v⟩, opened, ran⟩ := Traced.bind_some ran
      rw [← (Touching.vfsOpen_agrees s.vfs path).answer_eq opened] at backed mounted
      cases outcome with
      | hang => exact nomatch ran
      | error errno => exact sane.load backed mounted ran
      | value fd => exact sane.load backed mounted ran

theorem Sane.handle (sane : Sane s) {a : Args} {call : Syscall}
    (ran : (Touching.handle s a call).answer = some (r, s')) : Sane s' := by
  cases call with
  | exit =>
      obtain ⟨⟨result, k⟩, ended, same⟩ := Option.map_eq_some_iff.mp ran
      obtain ⟨-, rfl⟩ := Prod.mk.inj same
      obtain ⟨k', exits, same⟩ := Option.map_eq_some_iff.mp ended
      obtain ⟨-, rfl⟩ := Prod.mk.inj same
      exact ⟨sane.backed, sane.mounted, FilesInside.exit sane.files exits⟩
  | fork =>
      obtain ⟨slot, -, ran⟩ := Traced.bind_some ran
      obtain ⟨⟨result, k⟩, forked, same⟩ := Option.map_eq_some_iff.mp ran
      obtain ⟨-, rfl⟩ := Prod.mk.inj same
      exact ⟨sane.backed, sane.mounted, FilesInside.fork sane.files forked⟩
  | read => exact sane.read ran
  | write =>
      rw [write_same ran]
      exact sane
  | «open» => exact sane.open ran
  | execve => exact sane.execve ran
  | getpid | close | waitpid | creat | link | unlink | chdir | time | mknod | chmod | lchown
  | stat | lseek =>
      obtain ⟨-, rfl⟩ := Prod.mk.inj (Option.some.inj ran)
      exact sane

theorem Sane.request (sane : Sane s) {q : Request}
    (ran : (Touching.request s q).answer = some (r, s')) : Sane s' := by
  cases q with
  | syscall number a =>
      unfold Touching.request Touching.syscallStub at ran
      dsimp only at ran
      split at ran
      · obtain ⟨-, rfl⟩ := Prod.mk.inj (Option.some.inj ran)
        exact sane
      · obtain ⟨call, -, ran⟩ := Traced.bind_some ran
        exact sane.handle ran
  | tell fd =>
      obtain ⟨pos, -, ran⟩ := Traced.bind_some ran
      obtain ⟨-, rfl⟩ := Prod.mk.inj (Option.some.inj ran)
      exact sane
  | seek fd offset whence garbage =>
      obtain ⟨result, sought, ran⟩ := Traced.bind_some ran
      obtain rfl := (Touching.vfsSeek_agrees s.vfs fd offset whence garbage).answer_eq sought
      obtain ⟨-, rfl⟩ := Prod.mk.inj (Option.some.inj ran)
      obtain ⟨entries, mounts⟩ := vfsSeek_same s.vfs fd.toNat offset whence garbage
      obtain ⟨backed, mounted⟩ := sane.moved entries mounts
      exact ⟨backed, mounted, sane.files⟩
  | write fd bytes =>
      obtain ⟨result, -, ran⟩ := Traced.bind_some ran
      obtain ⟨-, rfl⟩ := Prod.mk.inj (Option.some.inj ran)
      exact sane
  | read fd count =>
      obtain ⟨⟨answer, v⟩, reads, ran⟩ := Traced.bind_some ran
      obtain ⟨-, rfl⟩ := Prod.mk.inj (Option.some.inj ran)
      obtain ⟨entries, mounts⟩ := vfsRead_same (Touching.vfsRead_agrees s.vfs fd count _ reads)
      obtain ⟨backed, mounted⟩ := sane.moved entries mounts
      exact ⟨backed, mounted, sane.files⟩
  | readDirectory fd dirs =>
      obtain ⟨outcome, -, ran⟩ := Traced.bind_some ran
      cases outcome with
      | hang => exact nomatch ran
      | error errno =>
          obtain ⟨-, rfl⟩ := Prod.mk.inj (Option.some.inj ran)
          exact sane
      | value found =>
          obtain ⟨-, rfl⟩ := Prod.mk.inj (Option.some.inj ran)
          exact sane

theorem Sane.task (sane : Sane s) {t : Task} (ran : s.task t = some s') : Sane s' := by
  cases t with
  | «open» path =>
      obtain rfl := Option.some.inj ran
      obtain ⟨backed, mounted⟩ := sane.opened path
      exact ⟨backed, mounted, sane.files⟩
  | openDevice device =>
      have mounts := vfsOpenDevice_sameMounts s.vfs device
      have mounted := sane.mounted.openDevice device
      unfold System.task at ran
      dsimp only at ran
      generalize s.vfs.vfsOpenDevice device = opened at mounts mounted ran
      obtain rfl := Option.some.inj ran
      exact ⟨sane.backed.same mounts, mounted, sane.files⟩
  | mount dev path fs =>
      obtain rfl := Option.some.inj ran
      obtain ⟨backed, file, live⟩ := sane.backed.vfsMount dev path fs
      have same : SameEntries s.vfs (s.vfs.vfsMount dev path fs).2 := by
        intro i
        rw [file]
        exact ⟨rfl, rfl, rfl, id⟩
      exact ⟨backed, sane.mounted.same same live, sane.files⟩
  | create uid gid memory frame =>
      obtain ⟨⟨result, k⟩, created, rfl⟩ := Option.map_eq_some_iff.mp ran
      exact ⟨sane.backed, sane.mounted, FilesInside.same sane.files
        (Kernel.processCreate_sameFiles _ created)⟩
  | stdio pid =>
      obtain rfl := Option.some.inj ran
      refine ⟨sane.backed, sane.mounted, FilesInside.modify sane.files pid fun p here fd => ?_⟩
      dsimp only
      split
      · exact Or.inr (by decide : 0 < maxGlobalFiles)
      · exact sane.files pid p here fd
  | switch pid =>
      obtain ⟨k, switched, rfl⟩ := Option.map_eq_some_iff.mp ran
      obtain ⟨p, -, rfl⟩ := Option.map_eq_some_iff.mp switched
      exact ⟨sane.backed, sane.mounted, sane.files⟩

theorem Fresh.sane (start : Fresh s) : Sane s where
  backed :=
    { types := start.types
      registry := start.registry
      instances := by
        rintro mp ⟨-, used⟩
        rw [start.mount mp] at used
        exact nomatch used
      serving := by
        rintro mp ⟨-, used⟩
        rw [start.mount mp] at used
        exact nomatch used }
  mounted := by
    intro i _ known
    obtain ⟨unused, noDirectory⟩ := start.file i
    rw [unused, noDirectory] at known
    rcases known with wrong | wrong
    · exact nomatch wrong
    · exact nomatch wrong
  files := by
    intro slot p here
    rw [start.process slot] at here
    exact nomatch here

theorem RequestRun.sane (run : RequestRun s) : Sane s := by
  induction run with
  | fresh start => exact start.sane
  | task _ ran ih => exact ih.task ran
  | request _ _ ran ih => exact ih.request ran

end Runs

/-! ## The accesses of the requests -/

section Requests

/-- What a descriptor refers to is an index of the file table. -/
theorem Sane.globalFd_inside (sane : Sane s) {fd g : Int} (found : s.globalFd fd = some g) :
    Touching.InTable g := by
  unfold globalFd at found
  split at found
  · exact nomatch found
  · obtain ⟨p, here, found⟩ := Option.bind_eq_some_iff.mp found
    split at found
    · exact nomatch found
    · next opened =>
        have inside := sane.files _ p (Kernel.processFromPid_at here) ⟨fd.toNat, by omega⟩
        obtain rfl := Option.some.inj found
        rcases inside with closed | range
        · exact absurd closed opened
        · exact ⟨Int.not_lt.mp opened, (Int.toNat_lt (Int.not_lt.mp opened)).mp range⟩

/-- An entry in use that is a device of the table, or on a mount. -/
theorem Sane.placed (sane : Sane s) {fd : Int} (used : (s.vfs.file fd.toNat).isUsed = true)
    (range : deviceInRange s.vfs fd.toNat) : Touching.Placed s.vfs (s.vfs.file fd.toNat) :=
  ⟨range, fun plain => sane.backed.serving _ (sane.mounted _ plain (Or.inl used))⟩

/-- A descriptor behind the check of its number, and what it refers to. -/
theorem processFile_inside {p : Process} {fd : Int} (bound : ¬ (fd < 0 ∨ (maxProcessFiles : Int) ≤ fd)) :
    (Touching.processFile p fd).Within Access.Inside :=
  Traced.Within.yields (show (Access.processFile fd).Inside from
    ⟨Int.not_lt.mp fun low => bound (Or.inl low), Int.not_le.mp fun high => bound (Or.inr high)⟩) _

theorem globalFd_of_processFile {p : Process} {fd g : Int} (here : s.current = some p)
    (bound : ¬ (fd < 0 ∨ (maxProcessFiles : Int) ≤ fd))
    (ran : (Touching.processFile p fd).answer = some g) (opened : ¬ g < 0) : s.globalFd fd = some g := by
  unfold Touching.processFile Traced.yields at ran
  rw [dif_neg bound] at ran
  obtain rfl := Option.some.inj ran
  unfold globalFd
  rw [dif_neg bound, here, Option.bind_some, if_neg opened]

theorem slots_inside (found : Nat → Bool) :
    (Traced.scan (fun i : Nat => Access.processFile i) found (List.range maxProcessFiles)).Within
      Access.Inside :=
  Traced.Within.scan fun i member => ⟨Int.natCast_nonneg i, Int.ofNat_lt.mpr (List.mem_range.mp member)⟩

theorem Sane.read_inside (sane : Sane s) (fd : Int) (count : Nat)
    (meets : ∀ g, s.globalFd fd = some g → (s.vfs.file g.toNat).isUsed = true →
      deviceInRange s.vfs g.toNat) : (Touching.read s fd count).Within Access.Inside := by
  unfold Touching.read
  split
  · exact Traced.Within.pure _
  · next bound =>
      split
      · exact Traced.Within.pure _
      · next p here =>
          refine (processFile_inside bound).bind fun g known => ?_
          split
          · exact Traced.Within.pure _
          · next opened =>
              have found := globalFd_of_processFile here bound known opened
              have inTable := sane.globalFd_inside found
              refine (Touching.vfsRead_inside count (by have := inTable.1; omega)
                fun _ used => sane.placed used (meets g found used)).bind fun result _ => ?_
              split
              · exact Traced.Within.silent _
              · exact Traced.Within.pure _

theorem Sane.write_inside (sane : Sane s) (fd : Int) (bytes : List UInt8)
    (meets : ∀ g, s.globalFd fd = some g → deviceInRange s.vfs g.toNat ∧
      ((s.vfs.file g.toNat).isDevice = true →
        (s.vfs.world.deviceLookup (s.vfs.file g.toNat).data).isSome = true)) :
    (Touching.write s fd bytes).Within Access.Inside := by
  unfold Touching.write
  split
  · exact Traced.Within.pure _
  · next bound =>
      split
      · exact Traced.Within.pure _
      · next p here =>
          refine (processFile_inside bound).bind fun g known => ?_
          split
          · exact Traced.Within.pure _
          · next opened =>
              have found := globalFd_of_processFile here bound known opened
              obtain ⟨range, registered⟩ := meets g found
              exact (Touching.vfsWrite_inside bytes (sane.globalFd_inside found) fun device =>
                ⟨range device, registered device⟩).bind fun _ _ => Traced.Within.pure _

theorem Sane.open_inside (sane : Sane s) (filename : Option (List UInt8)) :
    (Touching.open s filename).Within Access.Inside := by
  unfold Touching.open
  split
  · exact Traced.Within.pure _
  · exact Traced.Within.pure _
  · next path p _ =>
      refine (Touching.vfsOpen_inside sane.backed.serving path).bind fun opened _ => ?_
      obtain ⟨outcome, v⟩ := opened
      cases outcome with
      | hang => exact Traced.Within.stuck
      | error errno => exact Traced.Within.pure _
      | value globalFd => exact (slots_inside _).bind fun _ _ => Traced.Within.pure _

/-- A small number is no device number outside the registry. -/
theorem major_small {n : Nat} (small : n < maxMountPoints) : major n < deviceMax := by
  have same : major n = 0 := Nat.div_eq_of_lt (Nat.lt_trans small (by decide))
  rw [same]
  decide

/-- The file `_execve` opened stays where it is while it is read. -/
theorem load_inside {v : Vfs Instances} (backed : Backed v) {fd : Int} (inTable : Touching.InTable fd)
    (live : v.Live (v.file fd.toNat).data) (entry : Nat) (garbage : Int) :
    (Touching.execve.load s entry garbage v fd).Within Access.Inside := by
  have still {v' : Vfs Instances} (entries : SameEntries v v') (mounts : SameMounts v v') :
      Touching.Served v' (v'.file fd.toNat).data := by
    refine (backed.same mounts).serving _ (mounts.live.mpr ?_)
    rw [(entries fd.toNat).2.2.1]
    exact live
  have served := still (SameEntries.refl v) (SameMounts.refl v)
  refine (Touching.vfsSeek_inside 0 garbage (fun _ => inTable) fun _ => served).bind_known
    (Touching.vfsSeek_agrees v fd 0 2 garbage) ?_
  obtain ⟨entries₁, mounts₁⟩ := vfsSeek_same v fd.toNat 0 2 garbage
  refine (Touching.vfsTell_inside inTable).bind fun size _ => ?_
  refine (Touching.vfsSeek_inside 0 garbage (fun _ => inTable) fun wrong => ?_).bind_known
    (Touching.vfsSeek_agrees _ fd 0 0 garbage) ?_
  · exact absurd wrong (by decide)
  obtain ⟨entries₂, mounts₂⟩ := vfsSeek_same (v.vfsSeek fd.toNat 0 2 garbage).2 fd.toNat 0 0 garbage
  have served₂ := still (entries₁.trans entries₂) (mounts₁.trans mounts₂)
  refine (Touching.vfsRead_inside _ (by have := inTable.1; omega) fun _ _ => ⟨fun _ => ?_, fun _ => served₂⟩).bind
    fun done reads => ?_
  · exact major_small served₂.inTable
  obtain ⟨entries₃, mounts₃⟩ := vfsRead_same (Touching.vfsRead_agrees _ fd _ _ reads)
  have served₃ := still ((entries₁.trans entries₂).trans entries₃) ((mounts₁.trans mounts₂).trans mounts₃)
  exact (Touching.vfsClose_inside fun _ => served₃.inTable).bind fun _ _ => Traced.Within.pure _

theorem Sane.execve_inside (sane : Sane s) {a : Args} (meets : s.HandlerMeets a .execve) :
    (Touching.execve s a.filename a.entry a.garbage).Within Access.Inside := by
  unfold Touching.execve
  split
  · exact Traced.Within.pure _
  · exact Traced.Within.pure _
  · next path p filename current =>
      refine (Touching.vfsOpen_inside sane.backed.serving path).bind_known
        (Touching.vfsOpen_agrees s.vfs path) ?_
      rcases meets path p filename current with hangs | ⟨fd, v, opened, plain⟩
      · cases outcome : s.vfs.vfsOpen path with
        | mk result v =>
            rw [outcome] at hangs
            dsimp only at hangs
            subst hangs
            exact Traced.Within.stuck
      · obtain ⟨backed, mounted⟩ := sane.opened path
        have mounts := vfsOpen_sameMounts s.vfs path
        rw [opened] at backed mounted mounts ⊢
        obtain ⟨range, -, used, -, -⟩ := vfsOpen_value opened
        have inTable : Touching.InTable (fd : Int) := ⟨Int.natCast_nonneg fd, Int.ofNat_lt.mpr range⟩
        refine load_inside backed inTable ?_ a.entry a.garbage
        rw [Int.toNat_natCast]
        cases device : (v.file fd).isDevice with
        | false => exact mounted fd device (Or.inl used)
        | true => exact mounts.live.mpr (plain device)

theorem Sane.handle_inside (sane : Sane s) {a : Args} {call : Syscall} (meets : s.HandlerMeets a call) :
    (Touching.handle s a call).Within Access.Inside := by
  cases call with
  | read => exact sane.read_inside a.fd a.count meets
  | write => exact sane.write_inside a.fd a.bytes meets
  | «open» => exact sane.open_inside a.filename
  | execve => exact sane.execve_inside meets
  | fork => exact (slots_inside _).bind fun _ _ => Traced.Within.silent _
  | exit => exact Traced.Within.silent _
  | getpid | close | waitpid | creat | link | unlink | chdir | time | mknod | chmod | lchown
  | stat | lseek => exact Traced.Within.pure _

/-- Only the numbers of the enumeration have a handler. -/
theorem syscallHandler_none {number : Nat} :
    syscallHandler[number]? = none ↔ syscalls ≤ number := by
  rw [List.getElem?_eq_none_iff]
  exact Iff.rfl

theorem Sane.request_inside (sane : Sane s) {q : Request} (meets : s.RequestMeets q) :
    (Touching.request s q).Within Access.Inside := by
  cases q with
  | syscall number a =>
      obtain ⟨notLast, handled⟩ := meets
      unfold Touching.request Touching.syscallStub
      dsimp only
      split
      · exact Traced.Within.pure _
      · next bound =>
          have range : number < syscalls := Nat.lt_of_le_of_ne (Nat.not_lt.mp bound) notLast
          exact (Traced.Within.yields (show (Access.handler number).Inside from range) _).bind
            fun call found => sane.handle_inside (handled call found)
  | tell fd => exact (Touching.vfsTell_inside meets.1).bind fun _ _ => Traced.Within.pure _
  | seek fd offset whence garbage =>
      refine (Touching.vfsSeek_inside offset garbage (fun known => (meets known).1.1) fun fromEnd => ?_).bind
        fun _ _ => Traced.Within.pure _
      obtain ⟨⟨-, used⟩, live⟩ := meets (Or.inr (Or.inr fromEnd))
      cases device : (s.vfs.file fd.toNat).isDevice with
      | false => exact sane.backed.serving _ (sane.mounted fd.toNat device (Or.inl used))
      | true => exact sane.backed.serving _ (live fromEnd device)
  | write fd bytes =>
      obtain ⟨inTable, device⟩ := meets
      exact (Touching.vfsWrite_inside bytes inTable fun isDevice =>
        ⟨(device isDevice).2.1 isDevice, (device isDevice).2.2⟩).bind fun _ _ => Traced.Within.pure _
  | read fd count =>
      obtain ⟨notBefore, range⟩ := meets
      exact (Touching.vfsRead_inside count notBefore fun inTable used =>
        sane.placed used (range ⟨inTable, used⟩)).bind fun _ _ => Traced.Within.pure _
  | readDirectory fd dirs =>
      refine (Touching.vfsReadDirectory_inside dirs fun _ plain directory =>
        sane.backed.serving _ (sane.mounted _ plain (Or.inr directory))).bind fun outcome _ => ?_
      cases outcome with
      | value found => exact Traced.Within.pure _
      | error errno => exact Traced.Within.pure _
      | hang => exact Traced.Within.stuck

/-! ## The refusals -/

/-- `_read` refuses what is no open descriptor. -/
theorem processFile_invalid {p : Process} {fd : Int} (here : s.current = some p)
    (bound : ¬ (fd < 0 ∨ (maxProcessFiles : Int) ≤ fd)) (invalid : s.globalFd fd = none) :
    ∃ g, (Touching.processFile p fd).answer = some g ∧ g < 0 := by
  refine ⟨p.file ⟨fd.toNat, Kernel.fileIndex_lt bound⟩, dif_neg bound, ?_⟩
  by_contra opened
  unfold globalFd at invalid
  rw [dif_neg bound, here, Option.bind_some, if_neg opened] at invalid
  cases invalid

theorem read_invalid {fd : Int} {count : Nat} (invalid : s.globalFd fd = none) :
    ∃ r, (Touching.read s fd count).answer = some (r, s) ∧ r < 0 := by
  unfold Touching.read
  split
  · exact ⟨-ebadf, rfl, by decide⟩
  · next bound =>
      split
      · exact ⟨-einval, rfl, by decide⟩
      · next p here =>
          obtain ⟨g, known, closed⟩ := processFile_invalid here bound invalid
          refine ⟨-ebadf, ?_, by decide⟩
          rw [Traced.bind_answer, known, Option.bind_some, if_pos closed]
          rfl

theorem write_invalid {fd : Int} {bytes : List UInt8} (invalid : s.globalFd fd = none) :
    ∃ r, (Touching.write s fd bytes).answer = some (r, s) ∧ r < 0 := by
  unfold Touching.write
  split
  · exact ⟨-ebadf, rfl, by decide⟩
  · next bound =>
      split
      · exact ⟨-einval, rfl, by decide⟩
      · next p here =>
          obtain ⟨g, known, closed⟩ := processFile_invalid here bound invalid
          refine ⟨-ebadf, ?_, by decide⟩
          rw [Traced.bind_answer, known, Option.bind_some, if_pos closed]
          rfl

theorem file_answer {fd : Int} (inTable : Touching.InTable fd) :
    (Touching.file s.vfs fd).answer = some (s.vfs.file fd.toNat) := if_pos inTable

theorem syscall_refused {number : Nat} {a : Args} (meets : s.RequestMeets (.syscall number a))
    (invalid : s.Invalid (.syscall number a)) :
    ∃ r, (Touching.request s (.syscall number a)).answer = some (r, s) ∧ r < 0 := by
  obtain ⟨notLast, handled⟩ := meets
  unfold Touching.request Touching.syscallStub
  unfold Invalid at invalid
  dsimp only at invalid ⊢
  cases found : syscallHandler[number]? with
  | none =>
      have high := syscallHandler_none.mp found
      rw [if_pos (Nat.lt_of_le_of_ne high (Ne.symm notLast))]
      exact ⟨-einval, rfl, by decide⟩
  | some call =>
      rw [found] at invalid
      obtain ⟨takes, closed⟩ := invalid
      have range : ¬ syscalls < number := fun above => by
        rw [syscallHandler_none.mpr (Nat.le_of_lt above)] at found
        exact nomatch found
      rw [if_neg range, Traced.bind_answer]
      change ∃ r, (Touching.handle s a call).answer = some (r, s) ∧ r < 0
      have needed := handled call found
      cases call with
      | read => exact read_invalid closed
      | write => exact write_invalid closed
      | close => exact absurd closed needed
      | lseek => exact absurd closed needed
      | exit | fork | «open» | waitpid | creat | link | unlink | execve | chdir | time | mknod
      | chmod | lchown | stat | getpid => exact nomatch takes

/-- What is no system call and no open descriptor is refused. -/
theorem request_refused {q : Request} (meets : s.RequestMeets q) (invalid : s.Invalid q) :
    ∃ r, (Touching.request s q).answer = some (r, s) ∧ r < 0 := by
  cases q with
  | syscall number a => exact syscall_refused meets invalid
  | tell fd => exact absurd meets invalid
  | seek fd offset whence garbage =>
      by_cases known : whence = 0 ∨ whence = 1 ∨ whence = 2
      · exact absurd (meets known).1 invalid
      · refine ⟨-einval, ?_, by decide⟩
        unfold Touching.request Touching.vfsSeek
        dsimp only
        rw [if_neg fun start => known (Or.inl start), if_neg fun relative => known (Or.inr (Or.inl relative)),
          if_neg fun fromEnd => known (Or.inr (Or.inr fromEnd))]
        rfl
  | write fd bytes =>
      obtain ⟨inTable, device⟩ := meets
      have plain : (s.vfs.file fd.toNat).isDevice = false :=
        Bool.eq_false_iff.mpr fun isDevice => invalid (device isDevice).1
      refine ⟨-eperm, ?_, by decide⟩
      unfold Touching.request Touching.vfsWrite
      dsimp only
      rw [Traced.bind_answer, Traced.bind_answer, file_answer inTable, Option.bind_some, plain]
      rfl
  | read fd count =>
      obtain ⟨bound, -⟩ := meets
      refine ⟨-ebadf, ?_, by decide⟩
      unfold Touching.request Touching.vfsRead
      dsimp only
      split
      · rfl
      · next range =>
          have inTable : Touching.InTable fd := ⟨by omega, by omega⟩
          have unused : (s.vfs.file fd.toNat).isUsed = false :=
            Bool.eq_false_iff.mpr fun used => invalid ⟨inTable, used⟩
          rw [Traced.bind_answer, Traced.bind_answer, file_answer inTable, Option.bind_some, unused]
          rfl
  | readDirectory fd dirs =>
      unfold Touching.request Touching.vfsReadDirectory
      dsimp only
      split
      · exact ⟨-ebadf, rfl, by decide⟩
      · next range =>
          have inTable : Touching.InTable fd := ⟨by omega, by omega⟩
          rw [Traced.bind_answer, Traced.bind_answer, file_answer inTable, Option.bind_some]
          cases device : (s.vfs.file fd.toNat).isDevice with
          | true => exact ⟨-enotdir, rfl, by decide⟩
          | false =>
              have plain : (s.vfs.file fd.toNat).directory = false :=
                Bool.eq_false_iff.mpr fun directory => invalid (meets inTable directory device)
              rw [plain]
              exact ⟨-enotdir, rfl, by decide⟩

end Requests

/-- In every state of a run of tasks and of requests that meet the condition, the next
such request stays inside the tables, and is refused when it is invalid. -/
theorem tables_inside (run : RequestRun s) (q : Request) (meets : s.RequestMeets q) :
    s.RequestRight q :=
  ⟨run.sane.request_inside meets, request_refused meets⟩

/-- romfs is registered in the last slot, and the console is device 1. -/
def poweredOn : System Instances where
  vfs :=
    { fsType := fun i =>
        if i = 3 then Romfs.fsType fun _ => 0
        else { Romfs.fsType fun _ => 0 with used := false, name := "" }
      mount := fun _ => ⟨false, 0, 0, 0, 0, 0, 0, 0⟩
      file := fun _ => ⟨false, false, false, false, false, false, 0, 0, 0, 0, 0⟩
      world := ⟨fun dev =>
        if major dev = 1 then some (.char (fun _ => (-enosys, [])) fun bytes => bytes.length) else none,
        fun _ => ⟨false, 0, 0⟩⟩ }
  kernel := ⟨fun _ => none, 0, 0, 1, 1⟩

theorem poweredOn_fresh : Fresh poweredOn where
  file := fun _ => ⟨rfl, rfl⟩
  mount := fun _ => rfl
  types := by
    intro i used
    rcases eq_or_ne i 3 with rfl | other
    · exact ⟨fun _ => 0, rfl⟩
    · have unregistered : (poweredOn.vfs.fsType i).used = false :=
        congrArg FSType.used (if_neg other)
      rw [unregistered] at used
      exact nomatch used
  registry := by
    intro dev device looked
    obtain ⟨console, -⟩ := Option.ite_none_right_eq_some.mp looked
    rw [console]
    decide
  process := fun _ => rfl

/-- Entry 0 becomes the console. -/
theorem poweredOn_openDevice :
    (poweredOn.vfs.vfsOpenDevice 65537).2 =
      poweredOn.vfs.setFile 0 ⟨true, true, true, true, false, false, 0, 1, 0, 65537, allOnes⟩ := by
  have first : poweredOn.vfs.allocFile = some 0 := by
    have range : List.range maxGlobalFiles = 0 :: (List.range 1023).map Nat.succ :=
      List.range_succ_eq_map
    unfold Vfs.allocFile
    rw [range]
    rfl
  unfold Vfs.vfsOpenDevice
  rw [first]

def noArgs : Args := ⟨0, none, [], 0, none, 0, false, 0, 0⟩

def hello : Request := .syscall 3 { noArgs with fd := 1, bytes := [104, 105] }

/-- The kernel opens the console and starts a process on it. -/
theorem started : ∃ s, RequestRun s ∧ s.HandlerMeets { noArgs with fd := 1, bytes := [104, 105] } .write ∧
    (Touching.request s hello).events = [.handler 3, .processFile 1, .file 0, .device 1, .pointer true] ∧
      (Touching.request s hello).answer = some (2, s) := by
  have opened : RequestRun { poweredOn with vfs := (poweredOn.vfs.vfsOpenDevice 65537).2 } :=
    .task (t := .openDevice 65537) (.fresh poweredOn_fresh) rfl
  rw [poweredOn_openDevice] at opened
  have created := RequestRun.task (t := .create 0 0 (some initProcess) 8192) opened rfl
  have stdio := RequestRun.task (t := .stdio 1) created rfl
  have switched := RequestRun.task (t := .switch 1) stdio rfl
  refine ⟨_, switched, fun g found => ?_, rfl, rfl⟩
  obtain rfl : 0 = g := Option.some.inj found
  exact ⟨fun _ => (by decide : major 65537 < deviceMax), fun _ => rfl⟩

/-- A process writes to the console through its descriptor. -/
theorem tables_inside_console : ∃ s, RequestRun s ∧
    (Touching.request s hello).events = [.handler 3, .processFile 1, .file 0, .device 1, .pointer true] ∧
      (Touching.request s hello).answer = some (2, s) ∧ s.RequestRight hello := by
  obtain ⟨s, run, meets, events, answer⟩ := started
  refine ⟨s, run, events, answer, tables_inside run hello ⟨by decide, fun call found => ?_⟩⟩
  obtain rfl : Syscall.write = call := Option.some.inj found
  exact meets

/-- The process asks for system call 19, the number behind the last one: it passes the check
and the word behind the table of handlers is called. -/
theorem last_syscall_leaves_table : ∃ s, RequestRun s ∧
    Access.handler 19 ∈ (Touching.request s (.syscall 19 noArgs)).events ∧
      ¬ s.RequestRight (.syscall 19 noArgs) := by
  obtain ⟨s, run, -⟩ := started
  have member : Access.handler 19 ∈ (Touching.request s (.syscall 19 noArgs)).events :=
    List.mem_cons_self
  exact ⟨s, run, member, fun right => absurd (right.1 _ member) (Nat.lt_irrefl 19)⟩

end System

end TrollOS.Process
