import TrollOS.Mmu.Model

/-!
# Translation trees in physical memory

The operations of the page mapper as they look without the mapping window, on
trees of any depth: level 0 is a page, level 1 a page table, level 2 a pointer
table, level 3 a root table.  A table that reaches beyond its page of the window,
and a free frame that is not aligned, have no result here.
-/

namespace TrollOS

open TrollOS.Lib

structure Frames where
  mem : ByteMem
  freeFrames : Nat
  freeFrame : Nat

namespace Frames

open Mmu

def entries : Nat → Nat
  | 0 => 0
  | 1 => pageDescriptors
  | 2 => pointerLevelDescriptors
  | _ => rootLevelDescriptors

def isResident (level w : Nat) : Bool :=
  if level = 1 then pdtIsResident (descriptorType w) else udtIsResident (descriptorType w)

def address (level w : Nat) : Nat :=
  match level with
  | 1 => pageLevelFieldAddr (physicalAddress w)
  | 2 => pointerLevelFieldAddr (pointerTableAddress w)
  | _ => rootLevelFieldAddr (rootTableAddress w)

def setAddress (level w ph : Nat) : Nat :=
  match level with
  | 1 => setPhysicalAddress w (pageLevelAddrField ph)
  | 2 => setPointerTableAddress w (pointerLevelAddrField ph)
  | _ => setRootTableAddress w (rootLevelAddrField ph)

def base (ph : Nat) : Nat := pageLevelFieldAddr (pageLevelAddrField ph)

abbrev Work (α : Type) := StateT Frames Option α

theorem bind_ran {α β : Type} {x : Work α} {f : α → Work β} {s s' : Frames} {a : α}
    (ran : x s = some (a, s')) : (x >>= f) s = f a s' := by
  show (x s).bind (fun result => f result.1 result.2) = _
  rw [ran, Option.bind_some]

def readEntry (table i : Nat) : Work Nat := fun s =>
  if table % pageSize + 4 * i < pageSize then some (s.mem.load32 (table + 4 * i), s) else none

def writeEntry (table i v : Nat) : Work Unit := fun s =>
  if table % pageSize + 4 * i < pageSize then
    some ((), { s with mem := s.mem.store32 (table + 4 * i) v })
  else none

def modifyEntry (table i : Nat) (f : Nat → Nat) : Work Unit := do
  let w ← readEntry table i
  writeEntry table i (f w)

def alloc : Work Nat := fun s =>
  if s.freeFrames = 0 then some (0, s)
  else if s.freeFrame % pageSize = 0 then
    some (s.freeFrame,
      ⟨s.mem.zero s.freeFrame pageSize, s.freeFrames - 1, s.mem.load32 s.freeFrame⟩)
  else none

def free (ph : Nat) : Work Unit := fun s =>
  some ((), { s with mem := s.mem.store32 (base ph) s.freeFrame, freeFrame := ph })

def copyPage (dst src : Nat) : Work Unit := fun s =>
  if dst % pageSize = 0 then
    some ((), { s with mem := s.mem.copy dst s.mem (base src) pageSize })
  else none

/-- Give back what an entry of a table leads to; only a root table forgets it. -/
def clearEntry (level : Nat) (below : Nat → Work Unit) (table i : Nat) : Work Unit := do
  let w ← readEntry table i
  if isResident level w then do
    below (address level w)
    free (address level w)
    if level = 3 then modifyEntry table i fun w => setDescriptorType w 0 else pure ()
  else pure ()

/-- Give back everything below a table. -/
def clear : Nat → Nat → Work Unit
  | 0, _ => pure ()
  | level + 1, table =>
      (List.range (entries (level + 1))).forM (clearEntry (level + 1) (clear level) table)

def link (level source target i ph : Nat) : Work Unit :=
  if level = 1 then do
    let whole ← readEntry source i
    writeEntry target i whole
    modifyEntry target i fun w => setAddress level w ph
  else do
    modifyEntry target i fun w => setAddress level w ph
    modifyEntry target i fun w => setDescriptorType w 2

/-- Copy what an entry of a table leads to; the result is negative when no frame was
free. -/
def copyEntry (level : Nat) (below : Nat → Nat → Work Int) (source target i : Nat) : Work Int := do
  let w ← readEntry source i
  if isResident level w then do
    let ph ← alloc
    if ph = 0 then pure (-enomem)
    else do
      link level source target i ph
      let w ← readEntry source i
      below (address level w) ph
  else do
    modifyEntry target i fun w => setDescriptorType w 0
    pure 0

/-- Copy everything below a table, or the contents of a page. -/
def copy : Nat → Nat → Nat → Work Int
  | 0, source, target => do
      copyPage target source
      pure 0
  | level + 1, source, target => do
      let result ← each (List.range (entries (level + 1)))
        (copyEntry (level + 1) (copy level) source target)
      if result < 0 then pure result else pure 0

def tableAt (level table i : Nat) : Work Nat := do
  let w ← readEntry table i
  if isResident level w then pure (address level w)
  else do
    let ph ← alloc
    modifyEntry table i fun w => setAddress level w ph
    modifyEntry table i fun w => setDescriptorType w 2
    pure ph

def replacePage (table i : Nat) (writeProtected : Bool) : Work Unit := do
  let w ← readEntry table i
  if isResident 1 w then do
    modifyEntry table i fun w => setWriteProtected w writeProtected
    let w ← readEntry table i
    free (address 1 w)
  else pure ()

/-- The descriptor of a page that is put into the tree. -/
def placed (w frame : Nat) (supervisor writeProtected : Bool) : Nat :=
  setDescriptorType
    (setWriteProtected
      (setCacheCopyBack (setSupervisor (setAddress 1 w frame) supervisor)) writeProtected) 1

def pageAt (table i : Nat) (supervisor writeProtected : Bool) : Work Nat := do
  replacePage table i writeProtected
  let frame ← alloc
  modifyEntry table i fun w => placed w frame supervisor writeProtected
  pure frame

/-- Copy the first entries of a root table. -/
def copyEntries (target source n : Nat) : Work Unit :=
  (List.range n).forM fun i => do
    let w ← readEntry source i
    writeEntry target i w

/-- `mmu040_alloc_at` below a given root table. -/
def allocAt (root virt : Nat) (supervisor writeProtected : Bool) : Work Nat := do
  let pointerTable ← tableAt 3 root (rootTableIndex virt)
  let pageTable ← tableAt 2 pointerTable (pointerTableIndex virt)
  pageAt pageTable (pageTableIndex virt) supervisor writeProtected

/-- Two fields of one entry. -/
theorem modifyEntry_modifyEntry (table i : Nat) {f : Nat → Nat} (g : Nat → Nat)
    (word : ∀ w, w < 2 ^ 32 → f w < 2 ^ 32) :
    (modifyEntry table i f >>= fun _ => modifyEntry table i g) =
      modifyEntry table i fun w => g (f w) := by
  funext s
  by_cases inPage : table % pageSize + 4 * i < pageSize
  · simp only [modifyEntry, readEntry, writeEntry, Bind.bind, StateT.bind, Option.bind, inPage,
      if_true]
    rw [ByteMem.load32_store32 _ _ _ (word _ (ByteMem.load32_lt _ _)), ByteMem.store32_store32]
  · simp only [modifyEntry, readEntry, Bind.bind, StateT.bind, Option.bind, inPage, if_false]

/-- The descriptor of a page is written in five steps, whatever writes a field of an entry. -/
theorem placed_steps {μ : Type → Type} [Monad μ] {modify : (Nat → Nat) → μ Unit}
    (fuse : ∀ f g : Nat → Nat, (∀ w, w < 2 ^ 32 → f w < 2 ^ 32) →
      (modify f >>= fun _ => modify g) = modify fun w => g (f w))
    (frame : Nat) (supervisor writeProtected : Bool) :
    modify (fun w => placed w frame supervisor writeProtected) = (do
      modify fun w => setPhysicalAddress w (pageLevelAddrField frame)
      modify fun w => setSupervisor w supervisor
      modify setCacheCopyBack
      modify fun w => setWriteProtected w writeProtected
      modify fun w => setDescriptorType w 1) := by
  have ofAddress (w : Nat) (small : w < 2 ^ 32) :
      setPhysicalAddress w (pageLevelAddrField frame) < 2 ^ 32 := setField_lt _ small (by decide)
  have ofSupervisor (w : Nat) (small : w < 2 ^ 32) : setSupervisor w supervisor < 2 ^ 32 :=
    setField_lt _ small (by decide)
  have ofCache (w : Nat) (small : w < 2 ^ 32) : setCacheCopyBack w < 2 ^ 32 :=
    setField_lt _ small (by decide)
  have ofProtection (w : Nat) (small : w < 2 ^ 32) : setWriteProtected w writeProtected < 2 ^ 32 :=
    setField_lt _ small (by decide)
  rw [fuse _ _ ofProtection, fuse _ _ ofCache, fuse _ _ ofSupervisor, fuse _ _ ofAddress]
  rfl

end Frames

/-- What the page mapper works on, without its window. -/
def Mmu.frames (m : Mmu) : Frames := ⟨m.mem, m.memLayout.freeFrames, m.memLayout.freeFrame⟩

end TrollOS
