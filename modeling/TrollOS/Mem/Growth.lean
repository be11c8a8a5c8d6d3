import TrollOS.Mem.KfreeRep

/-!
# Getting memory from the system

`ksbrk` maps whole pages behind the heap end and moves the end.  `getmore`
turns the new pages into one block, which no list knows yet; here it counts as
live until `kmalloc` cuts it up or frees it.
-/

namespace TrollOS.Mem

open TrollOS.Lib

/-- The bytes `getmore` asks for: the header added, rounded up to whole pages. -/
def request (size : Nat) : Nat := (size + sizeofHeader + 4095) / 4096 * 4096

/-- The condition under which `getmore` can serve a size: the request stays below
`2 ^ 31` bytes and the heap end does not wrap. -/
structure Fits (heapEnd size : Nat) : Prop where
  small : request size < 2147483648
  room : heapEnd + request size < 4294967296

theorem request_ge (size : Nat) : size + sizeofHeader ≤ request size := by
  unfold request
  omega

theorem request_dvd (size : Nat) : request size % 4096 = 0 := Nat.mul_mod_left _ _

namespace Heap

variable {μ M : Type} [HeapMemory μ] (mmuAllocAt : M → Nat → Nat × M)

/-- Mapping pages from `page` on changes nothing below it. -/
theorem mapPages_below {lo : Nat} (n page : Nat) (h : Heap μ M)
    (inside : n = 0 ∨ (lo ≤ page ∧ page + n * 4096 ≤ 4294967296)) (whole : page % 4096 = 0) :
    (∀ x, x < lo → HeapMemory.load8 (mapPages mmuAllocAt h page n).mem x = HeapMemory.load8 h.mem x) ∧
      (mapPages mmuAllocAt h page n).freelist = h.freelist ∧
      (mapPages mmuAllocAt h page n).heapEnd = h.heapEnd := by
  induction n generalizing page h with
  | zero => exact ⟨fun _ _ => rfl, rfl, rfl⟩
  | succ n ih =>
      have bounds : lo ≤ page ∧ page + (n + 1) * 4096 ≤ 4294967296 :=
        inside.resolve_left (Nat.succ_ne_zero n)
      have rest : n = 0 ∨ (lo ≤ u32 (page + mmuPageSize) ∧
          u32 (page + mmuPageSize) + n * 4096 ≤ 4294967296) := by
        cases n with
        | zero => exact Or.inl rfl
        | succ n =>
            right
            rw [u32_eq (by unfold mmuPageSize; omega)]
            unfold mmuPageSize
            omega
      have next : u32 (page + mmuPageSize) % 4096 = 0 := by
        unfold u32 mmuPageSize
        omega
      obtain ⟨below, lists, stop⟩ := ih (u32 (page + mmuPageSize)) (mapPage mmuAllocAt h page) rest next
      refine ⟨fun x hx => (below x hx).trans ?_, lists, stop⟩
      exact HeapMemory.load8_place h.mem _ whole (Or.inl (Nat.lt_of_lt_of_le hx bounds.1))

/-- A positive increment of whole pages. -/
theorem ksbrk_eq {n : Nat} (h : Heap μ M) (pages : n % 4096 = 0) (pos : 0 < n)
    (small : n < 2147483648) (room : h.heapEnd + n < 4294967296) :
    ksbrk mmuAllocAt h (toInt32 n) = (h.heapEnd,
      { mapPages mmuAllocAt h (alignPage h.heapEnd) (n / 4096) with heapEnd := h.heapEnd + n }) := by
  have signed : toInt32 n = (n : Int) := by
    unfold toInt32
    rw [if_pos small]
  have start : alignPage h.heapEnd = (h.heapEnd + 4095) / 4096 * 4096 := by
    unfold alignPage mmuPageSize
    rw [u32_eq (by omega)]
  have count : u32 (alignPage (u32 (h.heapEnd + n)) + 4294967296 - alignPage h.heapEnd) =
      n := by
    rw [start]
    unfold alignPage mmuPageSize u32
    omega
  have moved : ((((h.heapEnd : Int) + n) % 4294967296).toNat) = h.heapEnd + n := by
    omega
  unfold ksbrk
  dsimp only
  rw [signed, Int.toNat_natCast, count, if_pos (by omega), moved]
  rfl

theorem ksbrk_spec {n : Nat} (h : Heap μ M) (pages : n % 4096 = 0) (pos : 0 < n)
    (small : n < 2147483648) (room : h.heapEnd + n < 4294967296) :
    ∃ h', ksbrk mmuAllocAt h (toInt32 n) = (h.heapEnd, h') ∧ h'.heapEnd = h.heapEnd + n ∧
      h'.mapped = (mapPages mmuAllocAt h (alignPage h.heapEnd) (n / 4096)).mapped ∧
        h'.freelist = h.freelist ∧
          ∀ x, x < h.heapEnd → HeapMemory.load8 h'.mem x = HeapMemory.load8 h.mem x := by
  have start : alignPage h.heapEnd = (h.heapEnd + 4095) / 4096 * 4096 := by
    unfold alignPage mmuPageSize
    rw [u32_eq (by omega)]
  obtain ⟨below, lists, -⟩ := @mapPages_below μ M _ mmuAllocAt h.heapEnd (n / 4096)
    (alignPage h.heapEnd) h (Or.inr (by rw [start]; omega)) (Nat.mul_mod_left _ _)
  exact ⟨_, ksbrk_eq mmuAllocAt h pages pos small room, rfl, rfl, lists, below⟩

/-- The bytes `getmore` asks for, as it computes them. -/
theorem alignPage_request {size : Nat} (small : request size < 2147483648) :
    alignPage (u32 (size + sizeofHeader)) = request size := by
  have enough := request_ge size
  unfold alignPage mmuPageSize
  unfold sizeofHeader at *
  rw [u32_eq (show size + 8 < 4294967296 by omega), u32_eq (by unfold request at *; omega)]
  rfl

/-- A request that fits moves the heap end and maps the pages behind it. -/
theorem getmore_system {size : Nat} (h : Heap μ M) (fits : Fits h.heapEnd size) :
    (h.getmore mmuAllocAt size).2.heapEnd = h.heapEnd + request size ∧
      (h.getmore mmuAllocAt size).2.mapped =
        (mapPages mmuAllocAt { h with mallocUsedMem := u32 (h.mallocUsedMem + request size) }
          (alignPage h.heapEnd) (request size / 4096)).mapped := by
  obtain ⟨small, room⟩ := fits
  have pos : 0 < request size := Nat.lt_of_lt_of_le (Nat.succ_pos _) (request_ge size)
  have whole := request_dvd size
  let counted : Heap μ M := { h with mallocUsedMem := u32 (h.mallocUsedMem + request size) }
  obtain ⟨h₁, brk, moved, mapped, -⟩ := ksbrk_spec mmuAllocAt counted whole pos small room
  have call : (h.getmore mmuAllocAt size).2 =
      { h₁ with mem := setSize h₁.mem h.heapEnd (u32 (request size + 4294967296 - sizeofHeader)) } := by
    unfold getmore
    dsimp only
    rw [alignPage_request small, brk]
    dsimp only
    rw [if_neg (show counted.heapEnd ≠ 4294967295 by change h.heapEnd ≠ _; omega)]
  rw [call]
  exact ⟨moved, mapped⟩

end Heap

namespace Rep

variable {M : Type} {base : Nat} {h : Heap ByteMem M} {L : Layout}

def withLive (L : Layout) (b : Block) : Layout := { L with live := b :: L.live }

/-- `getmore` returns a block of the requested pages at the old heap end. -/
theorem getmore (mmuAllocAt : M → Nat → Nat × M) (rep : Rep base h L) {size : Nat}
    (fits : Fits h.heapEnd size) :
    ∃ h', h.getmore mmuAllocAt size = (h.heapEnd, h') ∧
      Rep base h' (withLive L ⟨h.heapEnd, request size - sizeofHeader⟩) ∧
      ∀ x, x < h.heapEnd → h'.mem x = h.mem x := by
  obtain ⟨small, room⟩ := fits
  have enough := request_ge size
  have whole := request_dvd size
  have payload : u32 (request size + 4294967296 - sizeofHeader) = request size - sizeofHeader := by
    unfold u32
    unfold sizeofHeader at *
    omega
  have posEnd : 0 < h.heapEnd := Nat.lt_of_lt_of_le rep.base_pos rep.base_le
  have aligned := rep.end_aligned
  let counted : Heap ByteMem M := { h with mallocUsedMem := u32 (h.mallocUsedMem + request size) }
  obtain ⟨h₁, brk, end₁, -, lists₁, below₁⟩ := Heap.ksbrk_spec mmuAllocAt counted whole
    (by unfold sizeofHeader at enough; omega) small room
  let h₂ : Heap ByteMem M := { h₁ with mem := setSize h₁.mem h.heapEnd (request size - sizeofHeader) }
  have below : ∀ x, x < h.heapEnd → h₂.mem x = h.mem x := fun x hx =>
    (h₁.mem.store32_off _ (Or.inl hx)).trans (below₁ x hx)
  have call : h.getmore mmuAllocAt size = (h.heapEnd, h₂) := by
    unfold Heap.getmore
    dsimp only
    rw [Heap.alignPage_request small, brk, payload]
    dsimp only
    rw [if_neg (show counted.heapEnd ≠ 4294967295 by change h.heapEnd ≠ _; omega)]
  refine ⟨h₂, call, ?_, below⟩
  have newEnd : h₂.heapEnd = h.heapEnd + request size := end₁
  have word : ∀ {a : Nat}, a + 4 ≤ h.heapEnd → h₂.mem.load32 a = h.mem.load32 a := fun fit =>
    ByteMem.load32_congr fun x low high => below x (by omega)
  constructor
  · exact rep.base_pos
  · rw [newEnd]
    exact Nat.le_trans rep.base_le (Nat.le_add_right _ _)
  · rw [newEnd]
    exact room
  · rw [newEnd]
    omega
  · rw [newEnd]
    have size_eq : request size - sizeofHeader + sizeofHeader = request size :=
      Nat.sub_add_cancel (by omega)
    have grown : Partition base (h.heapEnd + request size)
        (⟨h.heapEnd, request size - sizeofHeader + sizeofHeader⟩ :: L.extents) := by
      rw [size_eq]
      exact rep.tiles.extend rep.base_le (request size)
    simpa [withLive, Layout.extents, Layout.blocks, Layout.freeBlocks, Block.extent] using grown
  · intro b mem
    rcases List.mem_cons.mp (show b ∈ _ :: L.blocks from mem) with same | old
    · rw [same]
      have sized : sizeOf h₂.mem h.heapEnd = request size - sizeofHeader :=
        sizeOf_setSize h₁.mem h.heapEnd _ (by omega)
      exact ⟨sized, aligned, by unfold sizeofHeader; dsimp only; omega,
        by unfold sizeofHeader at *; dsimp only; omega⟩
    · have was := rep.headers b old
      have inside := (rep.bounds old).2
      unfold Block.stop sizeofHeader at inside
      exact { was with size_eq := (word (by omega)).trans was.size_eq }
  · intro l
    change Chain (nextOf h₂.mem) (h₁.freelist l) _
    rw [lists₁]
    refine (rep.chains l).congr fun a mem => ?_
    obtain ⟨b, inL, rfl⟩ := List.mem_map.mp mem
    have inside := (rep.bounds (free_mem_blocks inL)).2
    unfold Block.stop sizeofHeader at inside
    exact (word (by omega)).symm
  · exact rep.noNeighbours

end Rep

end TrollOS.Mem
