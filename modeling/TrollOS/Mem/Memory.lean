import TrollOS.Lib.ByteMemory

/-!
# The memory under the heap

`mmu_alloc_at` makes a page resident whether or not it has a frame for it.  A
page without one shows frame 0, and so do all others of its kind: what is
written to one of them is read from each.
-/

namespace TrollOS.Mem

open TrollOS.Lib

def mmuPageSize : Nat := 4096

/-- What the code of the heap does with memory.  `place` is the memory after
`mmu_alloc_at` has answered `frame` for a page; in `Private` memory every page has
a frame of its own. -/
class HeapMemory (μ : Type) where
  Private : μ → Prop
  load8 : μ → Nat → UInt8
  store8 : μ → Nat → UInt8 → μ
  load32 : μ → Nat → Nat
  store32 : μ → Nat → Nat → μ
  place : μ → Nat → Nat → μ
  load8_place : ∀ (mem : μ) {page : Nat} (frame : Nat) {x : Nat}, page % mmuPageSize = 0 →
    x < page ∨ page + mmuPageSize ≤ x → load8 (place mem page frame) x = load8 mem x

/-- Memory in which no page is shared: nothing is known of a page without a frame. -/
instance : HeapMemory ByteMem where
  Private _ := True
  load8 mem x := mem x
  store8 mem x b := Function.update mem x b
  load32 := ByteMem.load32
  store32 := ByteMem.store32
  place mem page frame := if frame = 0 then mem else mem.zero page mmuPageSize
  load8_place mem page frame x _ off := by
    split
    · rfl
    · exact mem.zero_off off

/-- The kernel's pages.  `own` is what the pages with a frame of their own show; the
pages in `onZero` show frame 0. -/
structure PagedMem where
  own : ByteMem
  frameZero : ByteMem
  onZero : Nat → Bool

namespace PagedMem

def load8 (mem : PagedMem) (x : Nat) : UInt8 :=
  bif mem.onZero (x / mmuPageSize) then mem.frameZero (x % mmuPageSize) else mem.own x

def store8 (mem : PagedMem) (x : Nat) (b : UInt8) : PagedMem where
  own := bif mem.onZero (x / mmuPageSize) then mem.own else Function.update mem.own x b
  frameZero :=
    bif mem.onZero (x / mmuPageSize) then Function.update mem.frameZero (x % mmuPageSize) b
    else mem.frameZero
  onZero := mem.onZero

def store32 (mem : PagedMem) (a v : Nat) : PagedMem :=
  (((mem.store8 a (UInt8.ofNat (v / 16777216))).store8 (a + 1) (UInt8.ofNat (v / 65536))).store8 (a + 2)
    (UInt8.ofNat (v / 256))).store8 (a + 3) (UInt8.ofNat v)

/-- A frame from the free list starts out zeroed. -/
def place (mem : PagedMem) (page frame : Nat) : PagedMem :=
  if frame = 0 then { mem with onZero := Function.update mem.onZero (page / mmuPageSize) true }
  else
    { mem with
      own := mem.own.zero page mmuPageSize
      onZero := Function.update mem.onZero (page / mmuPageSize) false }

theorem load8_place (mem : PagedMem) {page : Nat} (frame : Nat) {x : Nat} (whole : page % mmuPageSize = 0)
    (off : x < page ∨ page + mmuPageSize ≤ x) : (mem.place page frame).load8 x = mem.load8 x := by
  have other : x / mmuPageSize ≠ page / mmuPageSize := by
    unfold mmuPageSize at *
    omega
  unfold place load8
  split
  · dsimp only
    rw [Function.update_of_ne other]
  · dsimp only
    rw [Function.update_of_ne other, mem.own.zero_off off]

instance : HeapMemory PagedMem where
  Private mem := ∀ page, mem.onZero page = false
  load8 := load8
  store8 := store8
  load32 mem a := ByteMem.load32 mem.load8 a
  store32 := store32
  place := place
  load8_place mem _ frame _ whole off := mem.load8_place frame whole off

end PagedMem

end TrollOS.Mem
