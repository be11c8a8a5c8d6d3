import TrollOS.Elf.Model
import TrollOS.Mmu.Copying
import TrollOS.Process.Files

/-!
# Replacing the program of a process

`_execve` over the file table, the kernel's heap and memory, the page mapper and the
process table.  It looks at the answer of none of its steps, and it never gives back the
buffer it reads the file into.
-/

namespace TrollOS.Process

open TrollOS.Lib TrollOS.Vfs

/-- `heap` is the set of the blocks in use. -/
structure ExecState (ι : Type) where
  kernel : Kernel
  vfs : Vfs ι
  mmu : Mmu
  memory : ByteMem
  heap : List Nat

namespace ExecState

variable {ι : Type}

/-- The size of the file: to the end, where is that, and back to the start. -/
def exeSize (v : Vfs ι) (fd : Nat) (garbage : Int) : Nat × Vfs ι :=
  let v := (v.vfsSeek fd 0 2 garbage).2
  let size := (v.vfsTell fd % 4294967296).toNat
  (size, (v.vfsSeek fd 0 0 garbage).2)

def put (memory : ByteMem) (p : Nat) (bytes : List UInt8) : ByteMem := fun a =>
  if p ≤ a ∧ a < p + bytes.length then bytes.getD (a - p) 0 else memory a

/-- `_execve`.  `block` is the answer of `kmalloc`, `garbage` what the stack held.  Without
a descriptor the code uses what stands before the file table, and without a buffer it
follows the null pointer: there is no result. -/
def execve (s : ExecState ι) (filename : Option (List UInt8)) (block : Option { b // b ∉ s.heap })
    (garbage : Int) : Option (Int × ExecState ι) :=
  match filename with
  | none => some (-einval, s)
  | some path =>
      match s.kernel.processFromPid s.kernel.current with
      | none => some (-einval, s)
      | some proc =>
          match s.vfs.vfsOpen path with
          | (.error _, _) => none
          | (.hang, _) => none
          | (.value fd, v) =>
              let (size, v) := exeSize v fd garbage
              block.bind fun exe =>
                (v.vfsRead fd size).bind fun (answer, v) =>
                  let memory := put s.memory exe answer.2
                  let v := (v.vfsClose fd).2
                  (Mmu.clearUserspace proc.userspace s.mmu).bind fun (_, m) =>
                    (Elf.elfLoad memory exe m).map fun (entry, m) =>
                      (0, ⟨s.kernel.processSetPc s.kernel.current entry, v, m, memory, exe :: s.heap⟩)

/-- The file can be opened, is read in full, and is an executable. -/
def Accepted (s : ExecState ι) (path : List UInt8) (block : Option { b // b ∉ s.heap })
    (garbage : Int) : Prop :=
  ∃ fd v answer v' exe, s.vfs.vfsOpen path = (.value fd, v) ∧ block = some exe ∧
    (exeSize v fd garbage).2.vfsRead fd (exeSize v fd garbage).1 = some (answer, v') ∧
      answer.1 = (exeSize v fd garbage).1 ∧
        (Elf.header (put s.memory exe answer.2) exe).accepted = true

/-- The process keeps its tables, its pages and its program counter. -/
def SameProgram (s s' : ExecState ι) : Prop :=
  ∀ p, s.kernel.processFromPid s.kernel.current = some p →
    Frames.Agree s.mmu.mem s'.mmu.mem
        (Frames.tree s.mmu.mem (Mmu.rootLevelFieldAddr p.userspace)) ∧
      ∃ p', s'.kernel.processFromPid s.kernel.current = some p' ∧ p'.reg.pc = p.reg.pc

/-- A call with a file that is not accepted fails and leaves the program, and every call
leaves the heap and the file table. -/
def ExecveRight (s : ExecState ι) (filename : Option (List UInt8)) (block : Option { b // b ∉ s.heap })
    (garbage : Int) : Prop :=
  ∃ r s', s.execve filename block garbage = some (r, s') ∧
    (∀ path, filename = some path → ¬ s.Accepted path block garbage → r < 0 ∧ SameProgram s s') ∧
      (∀ b, b ∈ s'.heap ↔ b ∈ s.heap) ∧ s'.vfs.file = s.vfs.file

section Execve

variable {s s' : ExecState ι} {filename : Option (List UInt8)} {block : Option { b // b ∉ s.heap }}
  {garbage r : Int}

theorem execve_refused (refused : filename = none ∨ s.kernel.processFromPid s.kernel.current = none) :
    s.execve filename block garbage = some (-einval, s) := by
  unfold execve
  cases filename with
  | none => rfl
  | some path =>
      obtain gone : s.kernel.processFromPid s.kernel.current = none :=
        refused.resolve_left fun wrong => nomatch wrong
      dsimp only
      rw [gone]

/-- Once the call has begun it answers with success, if at all, and the buffer stays. -/
theorem execve_leaks {path : List UInt8} {proc : Process}
    (here : s.kernel.processFromPid s.kernel.current = some proc)
    (ran : s.execve (some path) block garbage = some (r, s')) :
    r = 0 ∧ ∃ exe, block = some exe ∧ s'.heap = exe.1 :: s.heap := by
  unfold execve at ran
  dsimp only at ran
  rw [here] at ran
  dsimp only at ran
  split at ran
  · exact nomatch ran
  · exact nomatch ran
  · obtain ⟨exe, isBlock, reads⟩ := Option.bind_eq_some_iff.mp ran
    obtain ⟨answer, -, clears⟩ := Option.bind_eq_some_iff.mp reads
    obtain ⟨cleared, -, loads⟩ := Option.bind_eq_some_iff.mp clears
    obtain ⟨loaded, -, result⟩ := Option.map_eq_some_iff.mp loads
    obtain ⟨rfl, rfl⟩ := Prod.mk.inj result
    exact ⟨rfl, exe, isBlock, rfl⟩

/-- `_execve` is right exactly as long as it does nothing: without a file name or without
a process. -/
theorem execve_right_iff (s : ExecState ι) (filename : Option (List UInt8))
    (block : Option { b // b ∉ s.heap }) (garbage : Int) :
    s.ExecveRight filename block garbage ↔
      filename = none ∨ s.kernel.processFromPid s.kernel.current = none := by
  constructor
  · rintro ⟨r, s', ran, -, heap, -⟩
    cases filename with
    | none => exact Or.inl rfl
    | some path =>
        cases here : s.kernel.processFromPid s.kernel.current with
        | none => exact Or.inr rfl
        | some proc =>
            obtain ⟨-, exe, -, grown⟩ := execve_leaks here ran
            have inUse : exe.1 ∈ s'.heap := grown ▸ List.mem_cons_self
            exact absurd ((heap exe.1).mp inUse) exe.2
  · intro refused
    refine ⟨-einval, s, execve_refused refused, fun path _ _ => ⟨by decide, fun p here => ?_⟩,
      fun b => Iff.rfl, rfl⟩
    exact ⟨fun f _ x _ => rfl, p, here, rfl⟩

end Execve

def bootExec : ExecState Unit where
  kernel := System.bootSystem.kernel
  vfs := { System.bootSystem.vfs with mount := fun _ => ⟨false, 0, 0, 0, 0, 0, 0, 0⟩ }
  mmu := ⟨fun _ => 0, ⟨0, 0, 0⟩, fun _ => 0, 0, 0, 0⟩
  memory := fun _ => 0
  heap := []

/-- A file that is not there. -/
theorem missing_file_executed : ¬ ∀ (s : ExecState Unit) filename block garbage,
    s.ExecveRight filename block garbage := by
  intro right
  rcases (execve_right_iff bootExec (some [slash]) none 0).mp (right _ _ _ _) with wrong | gone
  · exact nomatch wrong
  · exact nomatch gone

end ExecState

end TrollOS.Process
