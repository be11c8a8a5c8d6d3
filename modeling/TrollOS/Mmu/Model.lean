import TrollOS.Errno
import TrollOS.Lib.BitField
import TrollOS.Lib.ByteMemory

/-!
# The page mapper

`kernel/mmu/mmu040.c`: the allocator of frames, and the three-level translation
trees of the user spaces.  Physical memory is a byte memory.  The kernel reaches
it through the mapping window, ten pages whose descriptors `_mapping_push` sets;
a pointer into the window is its distance from the first of them.  A user space
is known by the `root_pointer` field of its handle; no caller passes a null
handle.
-/

namespace TrollOS.Mmu

open TrollOS.Lib

def pageSize : Nat := 4096

def mapperPages : Nat := 10

def dramStart : Nat := 0x80000000

def rootLevelDescriptors : Nat := 128

def pointerLevelDescriptors : Nat := 128

def pageDescriptors : Nat := 64

/-! ## Descriptors -/

def udtIsResident (type : Nat) : Bool := type == 2 || type == 3

def pdtIsResident (type : Nat) : Bool := type == 1 || type == 3

/-- `ROOT_LEVEL_ADDR_FIELD`, also the shift of a root pointer. -/
def rootLevelAddrField (a : Nat) : Nat := a / 512

def rootLevelFieldAddr (f : Nat) : Nat := f * 512

def pointerLevelAddrField (a : Nat) : Nat := a / 128

def pointerLevelFieldAddr (f : Nat) : Nat := f * 128

def pageLevelAddrField (a : Nat) : Nat := a / 4096

def pageLevelFieldAddr (f : Nat) : Nat := f * 4096

/-- `upper_level_descriptor_type`, and `page_descriptor_type` of a page descriptor. -/
def descriptorType (w : Nat) : Nat := field w 0 2

def setDescriptorType (w type : Nat) : Nat := setField w 0 2 type

def rootTableAddress (w : Nat) : Nat := field w 9 23

def setRootTableAddress (w f : Nat) : Nat := setField w 9 23 f

def pointerTableAddress (w : Nat) : Nat := field w 7 25

def setPointerTableAddress (w f : Nat) : Nat := setField w 7 25 f

def physicalAddress (w : Nat) : Nat := field w 12 20

def setPhysicalAddress (w f : Nat) : Nat := setField w 12 20 f

def supervisorBit (w : Nat) : Nat := field w 7 1

def setSupervisor (w : Nat) (supervisor : Bool) : Nat := setField w 7 1 supervisor.toNat

def cacheMode (w : Nat) : Nat := field w 5 2

def setCacheCopyBack (w : Nat) : Nat := setField w 5 2 1

def writeProtectedBit (w : Nat) : Nat := field w 2 1

def setWriteProtected (w : Nat) (writeProtected : Bool) : Nat :=
  setField w 2 1 writeProtected.toNat

end TrollOS.Mmu

structure TrollOS.MemLayout where
  freeFrames : Nat
  totalFrames : Nat
  freeFrame : Nat

/-- Physical memory, `_mem_layout`, the frames behind the pages of the window, the depth of
the mapping stack, and the root pointer registers. -/
structure TrollOS.Mmu where
  mem : Lib.ByteMem
  memLayout : MemLayout
  window : Nat → Nat
  mapping : Nat
  srp : Nat
  urp : Nat

namespace TrollOS.Mmu

open TrollOS.Lib

/-- A loop whose body can make the function return an error number. -/
def each {μ : Type → Type} [Monad μ] (indices : List Nat) (body : Nat → μ Int) : μ Int :=
  match indices with
  | [] => pure 0
  | i :: rest => do
      let result ← body i
      if result < 0 then pure result else each rest body

/-- A function of the page mapper: it panics, or it ends with a result. -/
abbrev Action (α : Type) := StateT Mmu Option α

/-- The physical address behind a pointer into the window. -/
def translate (m : Mmu) (p : Nat) : Nat := m.window (p / pageSize) + p % pageSize

namespace Action

def read32 (p : Nat) : Action Nat := fun m => some (m.mem.load32 (m.translate p), m)

def write32 (p v : Nat) : Action Unit := fun m =>
  some ((), { m with mem := m.mem.store32 (m.translate p) v })

def modify32 (p : Nat) (f : Nat → Nat) : Action Unit := do
  let w ← read32 p
  write32 p (f w)

def read8 (p : Nat) : Action UInt8 := fun m => some (m.mem (m.translate p), m)

def write8 (p : Nat) (b : UInt8) : Action Unit := fun m =>
  some ((), { m with mem := fun a => if a = m.translate p then b else m.mem a })

def zero4k (p : Nat) : Action Unit := fun m =>
  some ((), { m with mem := m.mem.zero (m.translate p) pageSize })

def memcpyPage (dst src : Nat) : Action Unit := fun m =>
  some ((), { m with mem := m.mem.copy (m.translate dst) m.mem (m.translate src) pageSize })

def getMemLayout : Action MemLayout := fun m => some (m.memLayout, m)

def setMemLayout (l : MemLayout) : Action Unit := fun m => some ((), { m with memLayout := l })

def getSrp : Action Nat := fun m => some (m.srp, m)

def getUrp : Action Nat := fun m => some (m.urp, m)

def getRootPointer (supervisor : Bool) : Action Nat := if supervisor then getSrp else getUrp

def setUrp (rootPointer : Nat) : Action Unit := fun m => some ((), { m with urp := rootPointer })

/-- A word of the supervisor's root table, which is mapped at `MEM_MMU_TABLE_AREA`. -/
def readRootTd (i : Nat) : Action Nat := fun m =>
  some (m.mem.load32 (rootLevelFieldAddr m.srp + 4 * i), m)

end Action

open Action

/-! ## The mapping stack and the frames -/

def repage (a b : Nat) : Nat := b / pageSize * pageSize + a % pageSize

/-- `_mapping_push`: a pointer to the page of the window. -/
def mappingPush (ph : Nat) : Action Nat := fun m =>
  if mapperPages ≤ m.mapping then none
  else
    some (m.mapping * pageSize,
      { m with
        window := fun slot =>
          if slot = m.mapping then pageLevelFieldAddr (pageLevelAddrField ph) else m.window slot
        mapping := m.mapping + 1 })

def mappingPop : Action Unit := fun m => some ((), { m with mapping := m.mapping - 1 })

def allocFrame : Action Nat := do
  let l ← getMemLayout
  if l.freeFrames = 0 then pure 0
  else do
    setMemLayout { l with freeFrames := l.freeFrames - 1 }
    let frame ← mappingPush l.freeFrame
    let next ← read32 frame
    setMemLayout { l with freeFrames := l.freeFrames - 1, freeFrame := next }
    zero4k frame
    mappingPop
    pure l.freeFrame

def freeFrame (ph : Nat) : Action Unit := do
  let free ← mappingPush ph
  let l ← getMemLayout
  write32 free l.freeFrame
  setMemLayout { l with freeFrame := ph }
  mappingPop

/-! ## Starting up -/

/-- The innermost loop of `_build_free_frame_list`, with the local `free_frame`. -/
def skipPage (pageTable : Nat) (freeFrame k : Nat) : Action Nat := do
  let descriptor ← read32 (pageTable + 4 * k)
  if pdtIsResident (descriptorType descriptor) then do
    let ph := pageLevelFieldAddr (physicalAddress descriptor)
    if freeFrame ≤ ph then do
      let l ← getMemLayout
      setMemLayout { l with freeFrames := u32 (l.freeFrames + 4294967295) }
      pure (u32 (ph + pageSize))
    else pure freeFrame
  else pure freeFrame

def skipPageTable (pointerTable : Nat) (freeFrame j : Nat) : Action Nat := do
  let descriptor ← read32 (pointerTable + 4 * j)
  if udtIsResident (descriptorType descriptor) then do
    let ph := pointerLevelFieldAddr (pointerTableAddress descriptor)
    let page ← mappingPush ph
    let freeFrame ← (List.range pageDescriptors).foldlM (skipPage (repage ph page)) freeFrame
    mappingPop
    pure freeFrame
  else pure freeFrame

def skipPointerTable (freeFrame i : Nat) : Action Nat := do
  let descriptor ← readRootTd i
  if udtIsResident (descriptorType descriptor) then do
    let ph := rootLevelFieldAddr (rootTableAddress descriptor)
    let page ← mappingPush ph
    let freeFrame ←
      (List.range pointerLevelDescriptors).foldlM (skipPageTable (repage ph page)) freeFrame
    mappingPop
    pure freeFrame
  else pure freeFrame

/-- How often the second loop of `_build_free_frame_list` runs. -/
def framesFrom (freeFrame totalFrames : Nat) : Nat :=
  (dramStart + totalFrames * pageSize - freeFrame + (pageSize - 1)) / pageSize

def buildFreeFrameList : Action Nat := do
  let start ← (List.range rootLevelDescriptors).foldlM skipPointerTable dramStart
  let l ← getMemLayout
  (List.range (framesFrom start l.totalFrames)).forM fun n => freeFrame (start + n * pageSize)
  let l ← getMemLayout
  pure l.freeFrame

def init : Action Unit := do
  setMemLayout ⟨16384, 16384, 0⟩
  let _ ← buildFreeFrameList
  pure ()

/-! ## User spaces -/

/-- `mmu040_init_userspace`: the result and the handle afterwards. -/
def initUserspace : Action (Int × Nat) := do
  let directory ← allocFrame
  if directory = 0 then pure (-enomem, 0)
  else do
    setUrp (rootLevelAddrField directory)
    pure (0, rootLevelAddrField directory)

/-- The loop over a page table in `mmu040_clear_userspace`. -/
def clearPageTable (pageTable : Nat) : Action Unit :=
  (List.range pageDescriptors).forM fun k => do
    let descriptor ← read32 (pageTable + 4 * k)
    if pdtIsResident (descriptorType descriptor) then
      freeFrame (pageLevelFieldAddr (physicalAddress descriptor))
    else pure ()

def clearPointerTable (pointerTable : Nat) : Action Unit :=
  (List.range pointerLevelDescriptors).forM fun j => do
    let descriptor ← read32 (pointerTable + 4 * j)
    if udtIsResident (descriptorType descriptor) then do
      let ph := pointerLevelFieldAddr (pointerTableAddress descriptor)
      let page ← mappingPush ph
      clearPageTable (repage ph page)
      mappingPop
      freeFrame ph
    else pure ()

def clearRootTable (rootTable : Nat) : Action Unit :=
  (List.range rootLevelDescriptors).forM fun i => do
    let descriptor ← read32 (rootTable + 4 * i)
    if udtIsResident (descriptorType descriptor) then do
      let ph := rootLevelFieldAddr (rootTableAddress descriptor)
      let page ← mappingPush ph
      clearPointerTable (repage ph page)
      mappingPop
      freeFrame ph
      modify32 (rootTable + 4 * i) fun w => setDescriptorType w 0
    else pure ()

def clearUserspace (userspace : Nat) : Action Unit := do
  let ph := rootLevelFieldAddr userspace
  let page ← mappingPush ph
  clearRootTable (repage ph page)
  mappingPop

def freeUserspace (userspace : Nat) : Action Unit := do
  clearUserspace userspace
  freeFrame (rootLevelFieldAddr userspace)

def mappingPops : Nat → Action Unit
  | 0 => pure ()
  | n + 1 => do
      mappingPop
      mappingPops n

/-- One round of the innermost loop of `mmu040_clone_userspace`. -/
def clonePage (pageTableFrom pageTableTo k : Nat) : Action Int := do
  let descriptor ← read32 (pageTableFrom + 4 * k)
  if pdtIsResident (descriptorType descriptor) then do
    let ph ← allocFrame
    if ph = 0 then do
      mappingPops 6
      pure (-enomem)
    else do
      let pageTo ← mappingPush ph
      let whole ← read32 (pageTableFrom + 4 * k)
      write32 (pageTableTo + 4 * k) whole
      modify32 (pageTableTo + 4 * k) fun w => setPhysicalAddress w (pageLevelAddrField ph)
      let descriptor ← read32 (pageTableFrom + 4 * k)
      let pageFrom ← mappingPush (pageLevelFieldAddr (physicalAddress descriptor))
      memcpyPage pageTo pageFrom
      mappingPops 2
      pure 0
  else do
    modify32 (pageTableTo + 4 * k) fun w => setDescriptorType w 0
    pure 0

/-- One round of the two outer loops of `mmu040_clone_userspace`.  `address` reads the
address of the table below from a descriptor, `setAddress` sets it, and `clone` is the
round of the loop over that table. -/
def cloneTable (address : Nat → Nat) (setAddress : Nat → Nat → Nat) (mapped descriptors : Nat)
    (clone : Nat → Nat → Nat → Action Int) (tableFrom tableTo i : Nat) : Action Int := do
  let descriptor ← read32 (tableFrom + 4 * i)
  if udtIsResident (descriptorType descriptor) then do
    let ph ← allocFrame
    if ph = 0 then do
      mappingPops mapped
      pure (-enomem)
    else do
      let belowTo ← mappingPush ph
      modify32 (tableTo + 4 * i) fun w => setAddress w ph
      modify32 (tableTo + 4 * i) fun w => setDescriptorType w 2
      let descriptor ← read32 (tableFrom + 4 * i)
      let ph := address descriptor
      let page ← mappingPush ph
      let result ← each (List.range descriptors) (clone (repage ph page) belowTo)
      if result < 0 then pure result
      else do
        mappingPops 2
        pure 0
  else do
    modify32 (tableTo + 4 * i) fun w => setDescriptorType w 0
    pure 0

def clonePageTable : Nat → Nat → Nat → Action Int :=
  cloneTable (fun w => pointerLevelFieldAddr (pointerTableAddress w))
    (fun w ph => setPointerTableAddress w (pointerLevelAddrField ph)) 4 pageDescriptors clonePage

def clonePointerTable : Nat → Nat → Nat → Action Int :=
  cloneTable (fun w => rootLevelFieldAddr (rootTableAddress w))
    (fun w ph => setRootTableAddress w (rootLevelAddrField ph)) 2 pointerLevelDescriptors
    clonePageTable

def cloneUserspace (source target : Nat) : Action Int := do
  let ph := rootLevelFieldAddr source
  let page ← mappingPush ph
  let rootTableFrom := repage ph page
  let ph := rootLevelFieldAddr target
  let page ← mappingPush ph
  let rootTableTo := repage ph page
  let result ← each (List.range rootLevelDescriptors) (clonePointerTable rootTableFrom rootTableTo)
  if result < 0 then pure result
  else do
    mappingPops 2
    pure 0

def switchUserspace (userspace : Nat) : Action Int := do
  setUrp userspace
  pure 0

def rootTableIndex (virt : Nat) : Nat := virt / 2 ^ 25 % 128

def pointerTableIndex (virt : Nat) : Nat := virt / 2 ^ 18 % 128

def pageTableIndex (virt : Nat) : Nat := virt / 2 ^ 12 % 64

/-- The table below an entry in `mmu040_alloc_at`, which may have to be made. -/
def tableBelow (address : Nat → Nat) (setAddress : Nat → Nat → Nat) (table i : Nat) :
    Action Nat := do
  let descriptor ← read32 (table + 4 * i)
  if udtIsResident (descriptorType descriptor) then do
    let ph := address descriptor
    let page ← mappingPush ph
    pure (repage ph page)
  else do
    let ph ← allocFrame
    let page ← mappingPush ph
    modify32 (table + 4 * i) fun w => setAddress w ph
    modify32 (table + 4 * i) fun w => setDescriptorType w 2
    pure page

def pointerTableAt : Nat → Nat → Action Nat :=
  tableBelow (fun w => rootLevelFieldAddr (rootTableAddress w))
    fun w ph => setRootTableAddress w (rootLevelAddrField ph)

def pageTableAt : Nat → Nat → Action Nat :=
  tableBelow (fun w => pointerLevelFieldAddr (pointerTableAddress w))
    fun w ph => setPointerTableAddress w (pointerLevelAddrField ph)

/-- A page `mmu040_alloc_at` finds in the place is given back. -/
def replacePage (pageTable k : Nat) (writeProtected : Bool) : Action Unit := do
  let descriptor ← read32 (pageTable + 4 * k)
  if pdtIsResident (descriptorType descriptor) then do
    modify32 (pageTable + 4 * k) fun w => setWriteProtected w writeProtected
    let descriptor ← read32 (pageTable + 4 * k)
    freeFrame (pageLevelFieldAddr (physicalAddress descriptor))
  else pure ()

/-- The page `mmu040_alloc_at` puts there. -/
def pageAt (pageTable k : Nat) (supervisor writeProtected : Bool) : Action Nat := do
  replacePage pageTable k writeProtected
  let frame ← allocFrame
  modify32 (pageTable + 4 * k) fun w => setPhysicalAddress w (pageLevelAddrField frame)
  modify32 (pageTable + 4 * k) fun w => setSupervisor w supervisor
  modify32 (pageTable + 4 * k) setCacheCopyBack
  modify32 (pageTable + 4 * k) fun w => setWriteProtected w writeProtected
  modify32 (pageTable + 4 * k) fun w => setDescriptorType w 1
  pure frame

/-- `mmu040_alloc_at` once it has read a root pointer register. -/
def allocBelow (rp virt : Nat) (supervisor writeProtected : Bool) : Action Nat := do
  let ph := rootLevelFieldAddr rp
  let page ← mappingPush ph
  let pointerTable ← pointerTableAt (repage ph page) (rootTableIndex virt)
  let pageTable ← pageTableAt pointerTable (pointerTableIndex virt)
  let frame ← pageAt pageTable (pageTableIndex virt) supervisor writeProtected
  mappingPops 3
  pure frame

def allocAt (virt : Nat) (supervisor writeProtected : Bool) : Action Nat := do
  let rp ← getRootPointer supervisor
  allocBelow rp virt supervisor writeProtected

/-- `mmu040_fill_frame`; `src` is the kernel memory behind the source pointer. -/
def fillFrame (frame offset : Nat) (src : Nat → UInt8) (size : Nat) : Action Unit := do
  let map ← mappingPush frame
  (List.range size).forM fun i => write8 (map + (i + offset)) (src i)
  mappingPop

/-- `mmu040_get_physical`; `ptestr` is what the processor leaves in `MMUSR` for a user
address. -/
def getPhysical (ptestr : Mmu → Nat → Nat) (virt : Nat) : Action Nat := fun m =>
  some (ptestr m virt / pageSize * pageSize + virt % pageSize, m)

/-- The loop of `mmu040_copy_from_userspace` with `left` bytes to go. -/
def copyFromLoop (ptestr : Mmu → Nat → Nat) : Nat → Nat → Nat → Action (List UInt8)
  | 0, _, _ => pure []
  | left + 1, src, srcAddr => do
      let b ← read8 srcAddr
      let src := u32 (src + 1)
      if left = 0 then pure [b]
      else if src % pageSize = 0 then do
        mappingPop
        let phys ← getPhysical ptestr src
        let page ← mappingPush phys
        let rest ← copyFromLoop ptestr left src (page + phys % pageSize)
        pure (b :: rest)
      else do
        let rest ← copyFromLoop ptestr left src (srcAddr + 1)
        pure (b :: rest)

/-- `mmu040_copy_from_userspace`: the bytes that are copied. -/
def copyFromUserspace (ptestr : Mmu → Nat → Nat) (src size : Nat) : Action (List UInt8) :=
  if size = 0 then pure []
  else do
    let phys ← getPhysical ptestr src
    let page ← mappingPush phys
    let bytes ← copyFromLoop ptestr size src (page + phys % pageSize)
    mappingPop
    pure bytes

/-- The loop of `mmu040_copy_to_userspace` with the bytes to go. -/
def copyToLoop (ptestr : Mmu → Nat → Nat) : List UInt8 → Nat → Nat → Action Unit
  | [], _, _ => pure ()
  | b :: rest, dst, dstAddr => do
      write8 dstAddr b
      let dst := u32 (dst + 1)
      if rest.isEmpty then pure ()
      else if dst % pageSize = 0 then do
        mappingPop
        let phys ← getPhysical ptestr dst
        let page ← mappingPush phys
        copyToLoop ptestr rest dst (page + phys % pageSize)
      else copyToLoop ptestr rest dst (dstAddr + 1)

def copyToUserspace (ptestr : Mmu → Nat → Nat) (dst : Nat) (bytes : List UInt8) : Action Unit :=
  if bytes.isEmpty then pure ()
  else do
    let phys ← getPhysical ptestr dst
    let page ← mappingPush phys
    copyToLoop ptestr bytes dst (page + phys % pageSize)
    mappingPop

def mapCurrentUserspace : Action Unit := do
  let srp ← getSrp
  let urp ← getUrp
  let ph := rootLevelFieldAddr srp
  let page ← mappingPush ph
  let supervisorRootTable := repage ph page
  let ph := rootLevelFieldAddr urp
  let page ← mappingPush ph
  let userRootTable := repage ph page
  (List.range (rootLevelDescriptors / 4 * 3)).forM fun i => do
    let descriptor ← read32 (userRootTable + 4 * i)
    write32 (supervisorRootTable + 4 * i) descriptor
  mappingPops 2

end TrollOS.Mmu
