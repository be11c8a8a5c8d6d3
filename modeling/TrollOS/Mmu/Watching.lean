import Mathlib.Logic.Function.Basic
import TrollOS.Mmu.Frames

/-!
# Accesses through the mapping window

The functions of the page mapper over again, with a log.  A pointer from
`_mapping_push` remembers its slot and the frame it was pushed for, and every access
through it is written down with the depth of the stack and the frame behind the slot at
that time.
-/

namespace TrollOS.Mmu

open TrollOS.Lib

/-- A pointer into the window, and how many bytes it points to: a table, or a page. -/
structure Pointer where
  slot : Nat
  frame : Nat
  offset : Nat
  size : Nat

def Pointer.value (p : Pointer) : Nat := p.slot * pageSize + p.offset

/-- `REPAGE`, for a table of `entries` descriptors. -/
def Pointer.repage (p : Pointer) (ph entries : Nat) : Pointer :=
  { p with offset := ph % pageSize, size := 4 * entries }

structure Access where
  pointer : Pointer
  offset : Nat
  bytes : Nat
  depth : Nat
  window : Nat

/-- The slot is in use and still maps the frame the pointer was pushed for; the access
stays inside what the pointer points to, and in the page of the slot. -/
structure Access.Right (a : Access) : Prop where
  live : a.pointer.slot < a.depth
  still : a.window = a.pointer.frame
  inside : a.offset + a.bytes ≤ a.pointer.size
  page : a.pointer.offset + a.offset + a.bytes ≤ pageSize

/-- The same, but that `spare` pointers may reach over the end of the page. -/
structure Access.Kept (spare : Pointer → Prop) (a : Access) : Prop where
  live : a.pointer.slot < a.depth
  still : a.window = a.pointer.frame
  inside : a.offset + a.bytes ≤ a.pointer.size
  page : ¬ spare a.pointer → a.pointer.offset + a.pointer.size ≤ pageSize

theorem Access.Kept.right {spare : Pointer → Prop} {a : Access} (kept : a.Kept spare)
    (page : a.pointer.offset + a.offset + a.bytes ≤ pageSize) : a.Right :=
  ⟨kept.live, kept.still, kept.inside, page⟩

theorem Access.Kept.page_of_not {spare : Pointer → Prop} {a : Access} (kept : a.Kept spare)
    (other : ¬ spare a.pointer) : a.pointer.offset + a.offset + a.bytes ≤ pageSize := by
  have inside := kept.inside
  have page := kept.page other
  omega

structure Watch where
  mmu : Mmu
  log : List Access

/-- An action with a log, which it keeps when it panics. -/
def Watched (α : Type) := Watch → Option α × Watch

namespace Watched

variable {α β : Type}

instance : Monad Watched where
  pure a := fun w => (some a, w)
  bind x f := fun w =>
    match x w with
    | (none, w) => (none, w)
    | (some a, w) => f a w

/-- What follows an action, whatever it was. -/
theorem bind_eq (x : Watched α) (f : α → Watched β) (w : Watch) :
    (x >>= f) w = match x w with
      | (none, w) => (none, w)
      | (some a, w) => f a w := rfl

theorem bind_pure_some (x : Watched α) : (x >>= fun a => pure a) = x := by
  funext w
  rw [bind_eq]
  rcases x w with ⟨_ | a, w⟩
  · rfl
  · rfl

theorem bind_bind {γ : Type} (x : Watched α) (f : α → Watched β) (g : β → Watched γ) :
    x >>= f >>= g = x >>= fun a => f a >>= g := by
  funext w
  rw [bind_eq, bind_eq, bind_eq]
  rcases x w with ⟨_ | a, w⟩
  · rfl
  · rfl

instance : LawfulMonad Watched :=
  LawfulMonad.mk' Watched bind_pure_some (fun _ _ => rfl) bind_bind

def plain (x : Action α) : Watched α := fun w =>
  match x w.mmu with
  | none => (none, w)
  | some (a, m) => (some a, { w with mmu := m })

theorem plain_some {x : Action α} {w : Watch} {a : α} {m : Mmu} (ran : x w.mmu = some (a, m)) :
    plain x w = (some a, { w with mmu := m }) := by
  unfold plain
  rw [ran]

theorem plain_none {x : Action α} {w : Watch} (panics : x w.mmu = none) : plain x w = (none, w) := by
  unfold plain
  rw [panics]

/-- An access is written down. -/
def note (p : Pointer) (offset bytes : Nat) : Watched Unit := fun w =>
  (some (), { w with log := ⟨p, offset, bytes, w.mmu.mapping, w.mmu.window p.slot⟩ :: w.log })

def read32 (p : Pointer) (i : Nat) : Watched Nat := do
  note p (4 * i) 4
  plain (Action.read32 (p.value + 4 * i))

def write32 (p : Pointer) (i v : Nat) : Watched Unit := do
  note p (4 * i) 4
  plain (Action.write32 (p.value + 4 * i) v)

def modify32 (p : Pointer) (i : Nat) (f : Nat → Nat) : Watched Unit := do
  let w ← read32 p i
  write32 p i (f w)

def read8 (p : Pointer) (i : Nat) : Watched UInt8 := do
  note p i 1
  plain (Action.read8 (p.value + i))

def write8 (p : Pointer) (i : Nat) (b : UInt8) : Watched Unit := do
  note p i 1
  plain (Action.write8 (p.value + i) b)

def zero4k (p : Pointer) : Watched Unit := do
  note p 0 pageSize
  plain (Action.zero4k p.value)

def memcpyPage (dst src : Pointer) : Watched Unit := do
  note src 0 pageSize
  note dst 0 pageSize
  plain (Action.memcpyPage dst.value src.value)

def mappingPush (ph : Nat) : Watched Pointer := do
  let page ← plain (Mmu.mappingPush ph)
  pure ⟨page / pageSize, pageLevelFieldAddr (pageLevelAddrField ph), 0, pageSize⟩

def mappingPops (n : Nat) : Watched Unit := plain (Mmu.mappingPops n)

def mappingPop : Watched Unit := plain Mmu.mappingPop

def allocFrame : Watched Nat := do
  let l ← plain Action.getMemLayout
  if l.freeFrames = 0 then pure 0
  else do
    plain (Action.setMemLayout { l with freeFrames := l.freeFrames - 1 })
    let frame ← mappingPush l.freeFrame
    let next ← read32 frame 0
    plain (Action.setMemLayout { l with freeFrames := l.freeFrames - 1, freeFrame := next })
    zero4k frame
    mappingPop
    pure l.freeFrame

def freeFrame (ph : Nat) : Watched Unit := do
  let free ← mappingPush ph
  let l ← plain Action.getMemLayout
  write32 free 0 l.freeFrame
  plain (Action.setMemLayout { l with freeFrame := ph })
  mappingPop

/-! ## Starting up -/

def skipPage (pageTable : Pointer) (freeFrame k : Nat) : Watched Nat := do
  let descriptor ← read32 pageTable k
  if pdtIsResident (descriptorType descriptor) then do
    let ph := pageLevelFieldAddr (physicalAddress descriptor)
    if freeFrame ≤ ph then do
      let l ← plain Action.getMemLayout
      plain (Action.setMemLayout { l with freeFrames := u32 (l.freeFrames + 4294967295) })
      pure (u32 (ph + pageSize))
    else pure freeFrame
  else pure freeFrame

def skipPageTable (pointerTable : Pointer) (freeFrame j : Nat) : Watched Nat := do
  let descriptor ← read32 pointerTable j
  if udtIsResident (descriptorType descriptor) then do
    let ph := pointerLevelFieldAddr (pointerTableAddress descriptor)
    let page ← mappingPush ph
    let freeFrame ←
      (List.range pageDescriptors).foldlM (skipPage (page.repage ph pageDescriptors)) freeFrame
    mappingPop
    pure freeFrame
  else pure freeFrame

def skipPointerTable (freeFrame i : Nat) : Watched Nat := do
  let descriptor ← plain (Action.readRootTd i)
  if udtIsResident (descriptorType descriptor) then do
    let ph := rootLevelFieldAddr (rootTableAddress descriptor)
    let page ← mappingPush ph
    let freeFrame ← (List.range pointerLevelDescriptors).foldlM
      (skipPageTable (page.repage ph pointerLevelDescriptors)) freeFrame
    mappingPop
    pure freeFrame
  else pure freeFrame

def buildFreeFrameList : Watched Nat := do
  let start ← (List.range rootLevelDescriptors).foldlM skipPointerTable dramStart
  let l ← plain Action.getMemLayout
  (List.range (framesFrom start l.totalFrames)).forM fun n => freeFrame (start + n * pageSize)
  let l ← plain Action.getMemLayout
  pure l.freeFrame

def init : Watched Unit := do
  plain (Action.setMemLayout ⟨16384, 16384, 0⟩)
  let _ ← buildFreeFrameList
  pure ()

/-! ## User spaces -/

def initUserspace : Watched (Int × Nat) := do
  let directory ← allocFrame
  if directory = 0 then pure (-enomem, 0)
  else do
    plain (Action.setUrp (rootLevelAddrField directory))
    pure (0, rootLevelAddrField directory)

def clearPageTable (pageTable : Pointer) : Watched Unit :=
  (List.range pageDescriptors).forM fun k => do
    let descriptor ← read32 pageTable k
    if pdtIsResident (descriptorType descriptor) then
      freeFrame (pageLevelFieldAddr (physicalAddress descriptor))
    else pure ()

def clearPointerTable (pointerTable : Pointer) : Watched Unit :=
  (List.range pointerLevelDescriptors).forM fun j => do
    let descriptor ← read32 pointerTable j
    if udtIsResident (descriptorType descriptor) then do
      let ph := pointerLevelFieldAddr (pointerTableAddress descriptor)
      let page ← mappingPush ph
      clearPageTable (page.repage ph pageDescriptors)
      mappingPop
      freeFrame ph
    else pure ()

def clearRootTable (rootTable : Pointer) : Watched Unit :=
  (List.range rootLevelDescriptors).forM fun i => do
    let descriptor ← read32 rootTable i
    if udtIsResident (descriptorType descriptor) then do
      let ph := rootLevelFieldAddr (rootTableAddress descriptor)
      let page ← mappingPush ph
      clearPointerTable (page.repage ph pointerLevelDescriptors)
      mappingPop
      freeFrame ph
      modify32 rootTable i fun w => setDescriptorType w 0
    else pure ()

def clearUserspace (userspace : Nat) : Watched Unit := do
  let ph := rootLevelFieldAddr userspace
  let page ← mappingPush ph
  clearRootTable (page.repage ph rootLevelDescriptors)
  mappingPop

def freeUserspace (userspace : Nat) : Watched Unit := do
  clearUserspace userspace
  freeFrame (rootLevelFieldAddr userspace)

def clonePage (pageTableFrom pageTableTo : Pointer) (k : Nat) : Watched Int := do
  let descriptor ← read32 pageTableFrom k
  if pdtIsResident (descriptorType descriptor) then do
    let ph ← allocFrame
    if ph = 0 then do
      mappingPops 6
      pure (-enomem)
    else do
      let pageTo ← mappingPush ph
      let whole ← read32 pageTableFrom k
      write32 pageTableTo k whole
      modify32 pageTableTo k fun w => setPhysicalAddress w (pageLevelAddrField ph)
      let descriptor ← read32 pageTableFrom k
      let pageFrom ← mappingPush (pageLevelFieldAddr (physicalAddress descriptor))
      memcpyPage pageTo pageFrom
      mappingPops 2
      pure 0
  else do
    modify32 pageTableTo k fun w => setDescriptorType w 0
    pure 0

def cloneTable (address : Nat → Nat) (setAddress : Nat → Nat → Nat) (mapped descriptors : Nat)
    (clone : Pointer → Pointer → Nat → Watched Int) (tableFrom tableTo : Pointer) (i : Nat) :
    Watched Int := do
  let descriptor ← read32 tableFrom i
  if udtIsResident (descriptorType descriptor) then do
    let ph ← allocFrame
    if ph = 0 then do
      mappingPops mapped
      pure (-enomem)
    else do
      let belowTo ← mappingPush ph
      modify32 tableTo i fun w => setAddress w ph
      modify32 tableTo i fun w => setDescriptorType w 2
      let descriptor ← read32 tableFrom i
      let ph := address descriptor
      let page ← mappingPush ph
      let result ← each (List.range descriptors) (clone (page.repage ph descriptors) belowTo)
      if result < 0 then pure result
      else do
        mappingPops 2
        pure 0
  else do
    modify32 tableTo i fun w => setDescriptorType w 0
    pure 0

def clonePageTable : Pointer → Pointer → Nat → Watched Int :=
  cloneTable (fun w => pointerLevelFieldAddr (pointerTableAddress w))
    (fun w ph => setPointerTableAddress w (pointerLevelAddrField ph)) 4 pageDescriptors clonePage

def clonePointerTable : Pointer → Pointer → Nat → Watched Int :=
  cloneTable (fun w => rootLevelFieldAddr (rootTableAddress w))
    (fun w ph => setRootTableAddress w (rootLevelAddrField ph)) 2 pointerLevelDescriptors
    clonePageTable

def cloneUserspace (source target : Nat) : Watched Int := do
  let ph := rootLevelFieldAddr source
  let page ← mappingPush ph
  let rootTableFrom := page.repage ph rootLevelDescriptors
  let ph := rootLevelFieldAddr target
  let page ← mappingPush ph
  let rootTableTo := page.repage ph rootLevelDescriptors
  let result ← each (List.range rootLevelDescriptors) (clonePointerTable rootTableFrom rootTableTo)
  if result < 0 then pure result
  else do
    mappingPops 2
    pure 0

def tableBelow (address : Nat → Nat) (setAddress : Nat → Nat → Nat) (entries : Nat) (table : Pointer)
    (i : Nat) : Watched Pointer := do
  let descriptor ← read32 table i
  if udtIsResident (descriptorType descriptor) then do
    let ph := address descriptor
    let page ← mappingPush ph
    pure (page.repage ph entries)
  else do
    let ph ← allocFrame
    let page ← mappingPush ph
    modify32 table i fun w => setAddress w ph
    modify32 table i fun w => setDescriptorType w 2
    pure page

def pointerTableAt : Pointer → Nat → Watched Pointer :=
  tableBelow (fun w => rootLevelFieldAddr (rootTableAddress w))
    (fun w ph => setRootTableAddress w (rootLevelAddrField ph)) pointerLevelDescriptors

def pageTableAt : Pointer → Nat → Watched Pointer :=
  tableBelow (fun w => pointerLevelFieldAddr (pointerTableAddress w))
    (fun w ph => setPointerTableAddress w (pointerLevelAddrField ph)) pageDescriptors

def replacePage (pageTable : Pointer) (k : Nat) (writeProtected : Bool) : Watched Unit := do
  let descriptor ← read32 pageTable k
  if pdtIsResident (descriptorType descriptor) then do
    modify32 pageTable k fun w => setWriteProtected w writeProtected
    let descriptor ← read32 pageTable k
    freeFrame (pageLevelFieldAddr (physicalAddress descriptor))
  else pure ()

def pageAt (pageTable : Pointer) (k : Nat) (supervisor writeProtected : Bool) : Watched Nat := do
  replacePage pageTable k writeProtected
  let frame ← allocFrame
  modify32 pageTable k fun w => setPhysicalAddress w (pageLevelAddrField frame)
  modify32 pageTable k fun w => setSupervisor w supervisor
  modify32 pageTable k setCacheCopyBack
  modify32 pageTable k fun w => setWriteProtected w writeProtected
  modify32 pageTable k fun w => setDescriptorType w 1
  pure frame

def allocBelow (rp virt : Nat) (supervisor writeProtected : Bool) : Watched Nat := do
  let ph := rootLevelFieldAddr rp
  let page ← mappingPush ph
  let pointerTable ← pointerTableAt (page.repage ph rootLevelDescriptors) (rootTableIndex virt)
  let pageTable ← pageTableAt pointerTable (pointerTableIndex virt)
  let frame ← pageAt pageTable (pageTableIndex virt) supervisor writeProtected
  mappingPops 3
  pure frame

def allocAt (virt : Nat) (supervisor writeProtected : Bool) : Watched Nat := do
  let rp ← plain (Action.getRootPointer supervisor)
  allocBelow rp virt supervisor writeProtected

def fillFrame (frame offset : Nat) (src : Nat → UInt8) (size : Nat) : Watched Unit := do
  let map ← mappingPush frame
  (List.range size).forM fun i => write8 map (i + offset) (src i)
  mappingPop

/-- The loop of `mmu040_copy_from_userspace`; `k` is where in the page it is. -/
def copyFromLoop (ptestr : Mmu → Nat → Nat) : Nat → Nat → Pointer → Nat → Watched (List UInt8)
  | 0, _, _, _ => pure []
  | left + 1, src, page, k => do
      let b ← read8 page k
      let src := u32 (src + 1)
      if left = 0 then pure [b]
      else if src % pageSize = 0 then do
        mappingPop
        let phys ← plain (getPhysical ptestr src)
        let page ← mappingPush phys
        let rest ← copyFromLoop ptestr left src page (phys % pageSize)
        pure (b :: rest)
      else do
        let rest ← copyFromLoop ptestr left src page (k + 1)
        pure (b :: rest)

def copyFromUserspace (ptestr : Mmu → Nat → Nat) (src size : Nat) : Watched (List UInt8) :=
  if size = 0 then pure []
  else do
    let phys ← plain (getPhysical ptestr src)
    let page ← mappingPush phys
    let bytes ← copyFromLoop ptestr size src page (phys % pageSize)
    mappingPop
    pure bytes

def copyToLoop (ptestr : Mmu → Nat → Nat) : List UInt8 → Nat → Pointer → Nat → Watched Unit
  | [], _, _, _ => pure ()
  | b :: rest, dst, page, k => do
      write8 page k b
      let dst := u32 (dst + 1)
      if rest.isEmpty then pure ()
      else if dst % pageSize = 0 then do
        mappingPop
        let phys ← plain (getPhysical ptestr dst)
        let page ← mappingPush phys
        copyToLoop ptestr rest dst page (phys % pageSize)
      else copyToLoop ptestr rest dst page (k + 1)

def copyToUserspace (ptestr : Mmu → Nat → Nat) (dst : Nat) (bytes : List UInt8) : Watched Unit :=
  if bytes.isEmpty then pure ()
  else do
    let phys ← plain (getPhysical ptestr dst)
    let page ← mappingPush phys
    copyToLoop ptestr bytes dst page (phys % pageSize)
    mappingPop

def mapCurrentUserspace : Watched Unit := do
  let srp ← plain Action.getSrp
  let urp ← plain Action.getUrp
  let ph := rootLevelFieldAddr srp
  let page ← mappingPush ph
  let supervisorRootTable := page.repage ph rootLevelDescriptors
  let ph := rootLevelFieldAddr urp
  let page ← mappingPush ph
  let userRootTable := page.repage ph rootLevelDescriptors
  (List.range (rootLevelDescriptors / 4 * 3)).forM fun i => do
    let descriptor ← read32 userRootTable i
    write32 supervisorRootTable i descriptor
  mappingPops 2

end Watched

end TrollOS.Mmu
