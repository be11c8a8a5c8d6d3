import Mathlib.Algebra.GroupWithZero.Nat
import TrollOS.Mem.Memory

/-!
# The kernel heap

`ksbrk`, `kmalloc`, `krealloc` and `kfree` of `kernel/util/mem.c`, with the
quick-fit strategy the kernel is built with.  Headers and links live in the
same memory as the payloads.  A loop that has not ended after `loopFuel`
rounds is taken not to end at all: a scan without a restart meets every
address at most once, and every restart takes a node off the list.
-/

namespace TrollOS.Mem

open TrollOS.Lib

def sizeofHeader : Nat := 8

def loopFuel : Nat := 2 ^ 66

def align (x : Nat) : Nat := u32 (x + 3) / 4 * 4

def alignPage (x : Nat) : Nat := u32 (x + (mmuPageSize - 1)) / mmuPageSize * mmuPageSize

/-- There are lists. -/
instance lists_neZero : NeZero 5 := ⟨by decide⟩

/-- The heap and the memory it lives in.  `mmu` is the state of the page
mapper; `mapped` records the pages handed to it with the frames it returned. -/
structure Heap (μ M : Type) where
  mem : μ
  heapEnd : Nat
  freelist : Fin 5 → Nat
  mallocUsedMem : Nat
  mmu : M
  mapped : List (Nat × Nat)

/-- What a `Header **` points at: a list head or the `next` field of a header. -/
inductive Link where
  | root (list : Fin 5)
  | next (header : Nat)
  deriving DecidableEq, Repr

section Headers

variable {μ : Type} [HeapMemory μ]

def sizeOf (mem : μ) (header : Nat) : Nat := HeapMemory.load32 mem header

def nextOf (mem : μ) (header : Nat) : Nat := HeapMemory.load32 mem (header + 4)

def setSize (mem : μ) (header size : Nat) : μ := HeapMemory.store32 mem header size

def setNext (mem : μ) (header next : Nat) : μ := HeapMemory.store32 mem (header + 4) next

/-- `memcpy`, from the last byte down. -/
def memcpy (mem : μ) (dest src : Nat) : Nat → μ
  | 0 => mem
  | n + 1 =>
      memcpy (HeapMemory.store8 mem (dest + n) (HeapMemory.load8 mem (src + n))) dest src n

end Headers

/-- The quick list chosen for a size, the last list when no class is large enough. -/
def quickList (size : Nat) : Fin 5 :=
  if size ≤ 8 <<< 0 then 0
  else if size ≤ 8 <<< 1 then 1
  else if size ≤ 8 <<< 2 then 2
  else if size ≤ 8 <<< 3 then 3
  else 4

namespace Heap

variable {μ M : Type} [HeapMemory μ]

def deref (h : Heap μ M) : Link → Nat
  | .root list => h.freelist list
  | .next header => nextOf h.mem header

def assign (h : Heap μ M) (link : Link) (value : Nat) : Heap μ M :=
  match link with
  | .root list => { h with freelist := Function.update h.freelist list value }
  | .next header => { h with mem := setNext h.mem header value }

def mapPage (mmuAllocAt : M → Nat → Nat × M) (h : Heap μ M) (page : Nat) : Heap μ M :=
  let answer := mmuAllocAt h.mmu page
  { h with
    mem := HeapMemory.place h.mem page answer.1
    mmu := answer.2
    mapped := h.mapped ++ [(page, answer.1)] }

def mapPages (mmuAllocAt : M → Nat → Nat × M) (h : Heap μ M) (page : Nat) : Nat → Heap μ M
  | 0 => h
  | n + 1 => mapPages mmuAllocAt (mapPage mmuAllocAt h page) (u32 (page + mmuPageSize)) n

/-- Returns the old heap end; a negative increment moves the end back. -/
def ksbrk (mmuAllocAt : M → Nat → Nat × M) (h : Heap μ M) (increment : Int) : Nat × Heap μ M :=
  let grown :=
    if 0 < increment then
      let tmp := alignPage h.heapEnd
      let new := alignPage (u32 (h.heapEnd + increment.toNat))
      let pages := u32 (new + 4294967296 - tmp) / mmuPageSize
      mapPages mmuAllocAt h tmp pages
    else h
  (h.heapEnd, { grown with heapEnd := (((h.heapEnd : Int) + increment) % 4294967296).toNat })

/-- A fresh block of whole pages, null when `ksbrk` returned `-1`. -/
def getmore (mmuAllocAt : M → Nat → Nat × M) (h : Heap μ M) (size : Nat) : Nat × Heap μ M :=
  let size := alignPage (u32 (size + sizeofHeader))
  let h := { h with mallocUsedMem := u32 (h.mallocUsedMem + size) }
  let (header, h) := ksbrk mmuAllocAt h (toInt32 size)
  if header = 4294967295 then (0, h)
  else (header, { h with mem := setSize h.mem header (u32 (size + 4294967296 - sizeofHeader)) })

/-- Walk to the first block that is large enough, or to the end of the list. -/
def findFit (h : Heap μ M) (size : Nat) : Nat → Link → Option Link
  | 0, _ => none
  | fuel + 1, iter =>
      let current := h.deref iter
      if current ≠ 0 ∧ sizeOf h.mem current < size then findFit h size fuel (.next current)
      else some iter

/-- Cut the block at `header` into `count` blocks of `blockSize` payload bytes.
`tmp` is the link to store through, `none` for the local variable itself. -/
def carve (mem : μ) (header blockSize : Nat) : Nat → Option Nat → μ × Option Nat
  | 0, tmp => (mem, tmp)
  | count + 1, tmp =>
      let current := match tmp with
        | none => header
        | some block => nextOf mem block
      let mem := setSize mem current blockSize
      let mem := setNext mem current (u32 (current + blockSize + sizeofHeader))
      carve mem header blockSize count (some current)

def prepend (h : Heap μ M) (list : Fin 5) (header : Nat) : μ × Option Nat → Heap μ M
  | (mem, none) => { h with mem := mem }
  | (mem, some last) =>
      { h with
        mem := setNext mem last (h.freelist list)
        freelist := Function.update h.freelist list header }

/-- Split a fresh block into quick-list blocks and put them on the list. -/
def splitQuick (h : Heap μ M) (list : Fin 5) (header : Nat) : Heap μ M :=
  let sz := u32 (sizeOf h.mem header + sizeofHeader)
  let blockSize := 8 <<< list.val
  prepend h list header (carve h.mem header blockSize (sz / (blockSize + sizeofHeader)) none)

/-- Take the block behind `iter` off its list, splitting it when it is large. -/
def take (h : Heap μ M) (iter : Link) (size : Nat) : Nat × Heap μ M :=
  let header := h.deref iter
  if align (sizeOf h.mem header) > u32 (align size + sizeofHeader) then
    let newheader := u32 (header + sizeofHeader + align size)
    let mem := setSize h.mem newheader
      (u32 (align (sizeOf h.mem header) + 4294967296 - u32 (align size + sizeofHeader)))
    let mem := setSize mem header (align size)
    let mem := setNext mem newheader (nextOf mem header)
    (u32 (header + sizeofHeader), assign { h with mem := mem } iter newheader)
  else (u32 (header + sizeofHeader), assign h iter (nextOf h.mem header))

/-- The coalescing scan of `kfree`.  A merge with a lower neighbour takes that
neighbour off the list and starts over (`goto redo`); a merge with an upper
neighbour takes its place in the list and goes on. -/
def mergeScan : Nat → Heap μ M → Link → Nat → Bool → Option (Heap μ M × Nat × Bool)
  | 0, _, _, _, _ => none
  | fuel + 1, h, iter, header, hasmerged =>
      let current := h.deref iter
      if current = 0 then some (h, header, hasmerged)
      else if u32 (current + sizeOf h.mem current + sizeofHeader) = header then
        let mem := setSize h.mem current
          (u32 (sizeOf h.mem current + sizeofHeader + sizeOf h.mem header))
        let h := assign { h with mem := mem } iter (nextOf mem current)
        mergeScan fuel h (.root 4) current hasmerged
      else if u32 (header + sizeofHeader + sizeOf h.mem header) = current then
        let mem := setSize h.mem header
          (u32 (sizeOf h.mem header + sizeofHeader + sizeOf h.mem current))
        let mem := setNext mem header (nextOf mem current)
        let h := assign { h with mem := mem } iter header
        mergeScan fuel h (.next (h.deref iter)) header true
      else mergeScan fuel h (.next current) header hasmerged

def push (h : Heap μ M) (list : Fin 5) (header : Nat) : Heap μ M :=
  { h with
    mem := setNext h.mem header (h.freelist list)
    freelist := Function.update h.freelist list header }

def kfree (h : Heap μ M) (ptr : Nat) : Option (Heap μ M) :=
  if ptr = 0 then some h
  else
    let header := u32 (ptr + 4294967296 - sizeofHeader)
    let list := quickList (sizeOf h.mem header)
    if list < 4 then some (push h list header)
    else
      (mergeScan loopFuel h (.root 4) header false).map fun (h, header, hasmerged) =>
        if hasmerged then h else push h 4 header

def kmallocLoop (mmuAllocAt : M → Nat → Nat × M) (size : Nat) :
    Nat → Heap μ M → Option (Nat × Heap μ M)
  | 0, _ => none
  | fuel + 1, h =>
      let list := quickList size
      (findFit h size loopFuel (.root list)).bind fun iter =>
        if h.deref iter ≠ 0 then some (take h iter size)
        else
          let (header, h) := getmore mmuAllocAt h size
          if header = 0 then some (0, h)
          else if list < 4 then kmallocLoop mmuAllocAt size fuel (splitQuick h list header)
          else (kfree h (u32 (header + sizeofHeader))).bind (kmallocLoop mmuAllocAt size fuel)

def kmalloc (mmuAllocAt : M → Nat → Nat × M) (h : Heap μ M) (size : Nat) : Option (Nat × Heap μ M) :=
  if size = 0 then some (0, h) else kmallocLoop mmuAllocAt size loopFuel h

def krealloc (mmuAllocAt : M → Nat → Nat × M) (h : Heap μ M) (ptr size : Nat) :
    Option (Nat × Heap μ M) :=
  if ptr = 0 then kmalloc mmuAllocAt h size
  else if size = 0 then (kfree h ptr).map fun h => (0, h)
  else
    (kmalloc mmuAllocAt h size).bind fun (tmp, h) =>
      let header := u32 (ptr + 4294967296 - sizeofHeader)
      let h := { h with mem := memcpy h.mem tmp ptr (min (sizeOf h.mem header) size) }
      (kfree h ptr).map fun h => (tmp, h)

end Heap

end TrollOS.Mem
