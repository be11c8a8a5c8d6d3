import TrollOS.Mmu.Model

/-!
# The ELF loader

`kernel/modules/binformat/elf.c`.  The image is in the kernel's memory, which the loader
only reads; a pointer is its address there.  The pages go into the current user space.
-/

namespace TrollOS.Elf

open TrollOS.Lib Mmu

def load16 (m : ByteMem) (a : Nat) : Nat := (m a).toNat * 256 + (m (a + 1)).toNat

/-- The fields of `struct ElfHeader` that are read. -/
structure Header where
  ident : Nat → UInt8
  type : Nat
  machine : Nat
  entry : Nat
  sectionHeaderOffset : Nat
  sectionHeaderEntrySize : Nat
  sectionHeaderEntryCount : Nat

/-- The fields of `struct ElfSectionHeader` that are read. -/
structure SectionHeader where
  type : Nat
  flags : Nat
  address : Nat
  offset : Nat
  size : Nat

def header (memory : ByteMem) (elf : Nat) : Header where
  ident := fun i => memory (elf + i)
  type := load16 memory (elf + 16)
  machine := load16 memory (elf + 18)
  entry := memory.load32 (elf + 24)
  sectionHeaderOffset := memory.load32 (elf + 32)
  sectionHeaderEntrySize := load16 memory (elf + 46)
  sectionHeaderEntryCount := load16 memory (elf + 48)

def sectionHeader (memory : ByteMem) (p : Nat) : SectionHeader where
  type := memory.load32 (p + 4)
  flags := memory.load32 (p + 8)
  address := memory.load32 (p + 12)
  offset := memory.load32 (p + 16)
  size := memory.load32 (p + 20)

/-- The checks of `elf_load`. -/
def Header.accepted (h : Header) : Bool :=
  h.ident 0 = 0x7f && h.ident 1 = 0x45 && h.ident 2 = 0x4c && h.ident 3 = 0x46 &&
    h.ident 4 = 1 && h.ident 5 = 2 && h.type = 2 && h.machine = 4 && h.entry ≠ 0

def SectionHeader.isAlloc (h : SectionHeader) : Bool := h.flags.testBit 1

def SectionHeader.isWrite (h : SectionHeader) : Bool := h.flags.testBit 0

/-- `ELF_SECTION_HEADER_TYPE_PROGRAM_NOBITS`. -/
def SectionHeader.isNobits (h : SectionHeader) : Bool := h.type = 8

def SectionHeader.isLoaded (h : SectionHeader) : Bool :=
  h.address ≠ 0 && h.type ≠ 0 && h.isAlloc

/-- The loop of `alloc` with `left` pages to go; `data` is null when there is nothing to
copy. -/
def allocPages (memory : ByteMem) (writeProtect : Bool) (base : Nat) :
    Nat → Nat → Nat → Nat → Nat → Action Unit
  | 0, _, _, _, _ => pure ()
  | left + 1, i, data, size, offset => do
      let frame ← allocAt (u32 (base + i * pageSize)) false writeProtect
      if data ≠ 0 then do
        fillFrame frame offset (fun k => memory (u32 (data + k))) (size % pageSize)
        allocPages memory writeProtect base left (i + 1) (u32 (data / pageSize * pageSize + pageSize))
          (u32 (size + 4294967296 - (pageSize - offset))) 0
      else allocPages memory writeProtect base left (i + 1) data size offset

def alloc (memory : ByteMem) (virt : Nat) (writeProtect : Bool) (data size : Nat) : Action Unit :=
  allocPages memory writeProtect (virt / pageSize * pageSize) (u32 (size + (pageSize - 1)) / pageSize)
    0 data size (virt % pageSize)

/-- What one round of `elf_load` does. -/
def loadSection (memory : ByteMem) (elf : Nat) (h : SectionHeader) : Action Unit :=
  if h.isLoaded then
    if h.isNobits then alloc memory h.address false 0 h.size
    else alloc memory h.address (!h.isWrite) (u32 (elf + h.offset)) h.size
  else pure ()

def sections (memory : ByteMem) (elf : Nat) : List SectionHeader :=
  let h := header memory elf
  (List.range h.sectionHeaderEntryCount).map fun i =>
    sectionHeader memory (u32 (elf + h.sectionHeaderOffset + i * h.sectionHeaderEntrySize))

/-- The page of the stack, `UINT_MAX - MMU_PAGE_SIZE + 1`. -/
def stackPage : Nat := 0xfffff000

/-- `elf_load`: the entry point, or null. -/
def elfLoad (memory : ByteMem) (elf : Nat) : Action Nat :=
  if (header memory elf).accepted then do
    (sections memory elf).forM (loadSection memory elf)
    alloc memory stackPage false 0 pageSize
    pure (header memory elf).entry
  else pure 0

end TrollOS.Elf
