import Mathlib.Data.List.FinRange
import Mathlib.Data.List.Pairwise
import TrollOS.Lib.Chain
import TrollOS.Lib.Partition
import TrollOS.Mem.Model

/-!
# What a heap state stands for

A layout says which blocks are live, which are on each free list, which bytes
are the tail slack of a carved page and which bytes no list and no owner knows
any more.  `Rep` connects it to the heap: the pieces tile the region obtained
from `ksbrk`, every header holds its block's size, and every list head starts
the chain of its blocks.
-/

namespace TrollOS.Mem

open TrollOS.Lib

/-- A block: its header address and its payload size. -/
structure Block where
  hdr : Nat
  size : Nat
  deriving DecidableEq, Repr

namespace Block

def extent (b : Block) : Extent := ⟨b.hdr, b.size + sizeofHeader⟩

def stop (b : Block) : Nat := b.hdr + sizeofHeader + b.size

def Apart (b c : Block) : Prop := b.stop ≤ c.hdr ∨ c.stop ≤ b.hdr

theorem Apart.symm {b c : Block} (apart : b.Apart c) : c.Apart b := Or.symm apart

instance : Std.Symm Apart := ⟨fun _ _ => Apart.symm⟩

theorem apart_iff (b c : Block) : b.Apart c ↔ b.extent.Disjoint c.extent := by
  unfold Apart Extent.Disjoint extent stop
  dsimp only
  omega

/-- The header of a block of whole words, holding the block's size. -/
structure Ok (mem : ByteMem) (b : Block) : Prop where
  size_eq : sizeOf mem b.hdr = b.size
  hdr_aligned : b.hdr % 4 = 0
  size_aligned : b.size % 4 = 0
  size_pos : 0 < b.size

end Block

structure Layout where
  live : List Block
  free : Fin 5 → List Block
  slack : List Extent
  lost : List Extent

namespace Layout

def freeBlocks (L : Layout) : List Block := (List.finRange 5).flatMap L.free

/-- The free blocks on the lists other than `l`. -/
def otherFree (L : Layout) (l : Fin 5) : List Block := ((List.finRange 5).erase l).flatMap L.free

def blocks (L : Layout) : List Block := L.live ++ L.freeBlocks

def extents (L : Layout) : List Extent := L.blocks.map Block.extent ++ (L.slack ++ L.lost)

theorem freeBlocks_perm (L : Layout) (l : Fin 5) : L.freeBlocks.Perm (L.free l ++ L.otherFree l) :=
  (List.perm_cons_erase (List.mem_finRange l)).flatMap_right L.free

theorem mem_freeBlocks {L : Layout} {b : Block} : b ∈ L.freeBlocks ↔ ∃ l, b ∈ L.free l := by
  simp [freeBlocks]

/-- Changing one list leaves the blocks of the others alone. -/
theorem otherFree_congr {L L' : Layout} {l : Fin 5} (same : ∀ k, k ≠ l → L'.free k = L.free k) :
    L'.otherFree l = L.otherFree l := by
  unfold otherFree
  rw [List.flatMap_def, List.flatMap_def]
  refine congrArg List.flatten (List.map_congr_left fun k mem => same k ?_)
  exact ((List.nodup_finRange 5).mem_erase_iff.mp mem).1

end Layout

/-- The heap `h` over the region from `base` stands for the layout `L`. -/
structure Rep {M : Type} (base : Nat) (h : Heap ByteMem M) (L : Layout) : Prop where
  base_pos : 0 < base
  base_le : base ≤ h.heapEnd
  end_small : h.heapEnd < 4294967296
  end_aligned : h.heapEnd % 4 = 0
  tiles : Partition base h.heapEnd L.extents
  headers : ∀ b ∈ L.blocks, b.Ok h.mem
  chains : ∀ l, Chain (nextOf h.mem) (h.freelist l) ((L.free l).map Block.hdr)
  noNeighbours : ∀ b ∈ L.free 4, ∀ c ∈ L.free 4, b.stop ≠ c.hdr

/-! ## Stores to headers -/

section Stores

variable {mem : ByteMem} {a b : Nat}

@[simp]
theorem sizeOf_setSize (mem : ByteMem) (a v : Nat) (hv : v < 4294967296) :
    sizeOf (setSize mem a v) a = v := mem.load32_store32 a v hv

@[simp]
theorem nextOf_setNext (mem : ByteMem) (a v : Nat) (hv : v < 4294967296) :
    nextOf (setNext mem a v) a = v := mem.load32_store32 (a + 4) v hv

@[simp]
theorem sizeOf_setNext (mem : ByteMem) (a v : Nat) : sizeOf (setNext mem a v) a = sizeOf mem a :=
  mem.load32_store32_off v (Or.inl (Nat.le_refl _))

@[simp]
theorem nextOf_setSize (mem : ByteMem) (a v : Nat) : nextOf (setSize mem a v) a = nextOf mem a :=
  mem.load32_store32_off v (Or.inr (Nat.le_refl _))

/-- Two headers that do not overlap. -/
def HeadersApart (a b : Nat) : Prop := a + 8 ≤ b ∨ b + 8 ≤ a

theorem sizeOf_setSize_off (v : Nat) (off : HeadersApart a b) :
    sizeOf (setSize mem a v) b = sizeOf mem b :=
  mem.load32_store32_off v (by unfold HeadersApart at off; omega)

theorem sizeOf_setNext_off (v : Nat) (off : HeadersApart a b) :
    sizeOf (setNext mem a v) b = sizeOf mem b :=
  mem.load32_store32_off v (by unfold HeadersApart at off; omega)

theorem nextOf_setSize_off (v : Nat) (off : HeadersApart a b) :
    nextOf (setSize mem a v) b = nextOf mem b :=
  mem.load32_store32_off v (by unfold HeadersApart at off; omega)

theorem nextOf_setNext_off (v : Nat) (off : HeadersApart a b) :
    nextOf (setNext mem a v) b = nextOf mem b :=
  mem.load32_store32_off v (by unfold HeadersApart at off; omega)

theorem nextOf_lt (mem : ByteMem) (a : Nat) : nextOf mem a < 4294967296 := mem.load32_lt (a + 4)

end Stores

namespace Rep

variable {M : Type} {base : Nat} {h : Heap ByteMem M} {L : Layout}

/-- The blocks of a layout never overlap. -/
theorem blocks_apart (rep : Rep base h L) : L.blocks.Pairwise Block.Apart := by
  have once : ∀ x, (L.blocks.map Block.extent).countP (Extent.covers x) ≤ 1 := fun x => by
    have all := rep.tiles.count_le x
    rw [Layout.extents, List.countP_append] at all
    exact Nat.le_trans (Nat.le_add_right _ _) all
  have apart := Partition.pairwise_of_count once (fun e mem => by
    obtain ⟨b, -, rfl⟩ := List.mem_map.mp mem
    exact Nat.succ_pos _)
  exact (List.pairwise_map.mp apart).imp fun {b c} => (Block.apart_iff b c).mpr

theorem bounds (rep : Rep base h L) {b : Block} (mem : b ∈ L.blocks) :
    base ≤ b.hdr ∧ b.stop ≤ h.heapEnd := by
  have inside := rep.tiles.bounds
    (List.mem_append_left _ (List.mem_map.mpr ⟨b, mem, rfl⟩)) (Nat.succ_pos _)
  unfold Block.extent at inside
  unfold Block.stop
  dsimp only at inside
  omega

theorem free_mem_blocks {l : Fin 5} {b : Block} (mem : b ∈ L.free l) : b ∈ L.blocks :=
  List.mem_append_right _ (Layout.mem_freeBlocks.mpr ⟨l, mem⟩)

theorem live_mem_blocks {b : Block} (mem : b ∈ L.live) : b ∈ L.blocks :=
  List.mem_append_left _ mem

/-- The blocks seen from one list: live ones, its own, those of the others. -/
theorem blocks_perm (L : Layout) (l : Fin 5) :
    L.blocks.Perm (L.live ++ (L.free l ++ L.otherFree l)) :=
  (L.freeBlocks_perm l).append_left L.live

/--
Surgery on one list.  `old` blocks leave the live set, `new` blocks enter it,
list `l` becomes `fs`; only bytes of the blocks taking part change.
-/
theorem surgery {h' : Heap ByteMem M} {L' : Layout} {l : Fin 5} {keep fs : List Block}
    (rep : Rep base h L) (old new : List Block)
    (live : L.live.Perm (old ++ keep)) (live' : L'.live.Perm (new ++ keep))
    (free_l : L'.free l = fs) (free_k : ∀ k, k ≠ l → L'.free k = L.free k)
    (head_k : ∀ k, k ≠ l → h'.freelist k = h.freelist k)
    (sameEnd : h'.heapEnd = h.heapEnd)
    (retile : ∀ rest, Partition base h.heapEnd
        ((old ++ L.free l).map Block.extent ++ ((L.slack ++ L.lost) ++ rest)) →
      Partition base h.heapEnd
        ((new ++ fs).map Block.extent ++ ((L'.slack ++ L'.lost) ++ rest)))
    (frame : ∀ x, (∀ b ∈ old ++ L.free l, ¬ (b.hdr ≤ x ∧ x < b.stop)) → h'.mem x = h.mem x)
    (ok : ∀ b ∈ new ++ fs, b.Ok h'.mem)
    (chain : Chain (nextOf h'.mem) (h'.freelist l) (fs.map Block.hdr))
    (noNeighbours : ∀ b ∈ L'.free 4, ∀ c ∈ L'.free 4, b.stop ≠ c.hdr) :
    Rep base h' L' := by
  have others : L'.otherFree l = L.otherFree l := Layout.otherFree_congr free_k
  have split : L.blocks.Perm ((old ++ L.free l) ++ (keep ++ L.otherFree l)) := by
    refine (blocks_perm L l).trans ((live.append_right _).trans ?_)
    simp only [List.append_assoc]
    exact List.Perm.append_left _ (List.perm_append_comm_assoc _ _ _)
  have split' : L'.blocks.Perm ((new ++ fs) ++ (keep ++ L.otherFree l)) := by
    refine (blocks_perm L' l).trans ((live'.append_right _).trans ?_)
    rw [free_l, others]
    simp only [List.append_assoc]
    exact List.Perm.append_left _ (List.perm_append_comm_assoc _ _ _)
  have apart : ∀ b ∈ old ++ L.free l, ∀ c ∈ keep ++ L.otherFree l, b.Apart c := by
    have pairs := (split.pairwise_iff fun {_ _} => Block.Apart.symm).mp rep.blocks_apart
    exact (List.pairwise_append.mp pairs).2.2
  have kept : ∀ c ∈ keep ++ L.otherFree l, ∀ x, c.hdr ≤ x → x < c.stop → h'.mem x = h.mem x := by
    intro c mem x low high
    refine frame x fun b inOld inside => ?_
    rcases apart b inOld c mem with before | after
    · omega
    · omega
  have keptWord : ∀ c ∈ keep ++ L.otherFree l,
      sizeOf h'.mem c.hdr = sizeOf h.mem c.hdr ∧ nextOf h'.mem c.hdr = nextOf h.mem c.hdr := by
    intro c mem
    have room : c.hdr + 8 ≤ c.stop := Nat.le_add_right _ _
    exact ⟨ByteMem.load32_congr fun x low high => kept c mem x low (by omega),
      ByteMem.load32_congr fun x low high => kept c mem x (by omega) (by omega)⟩
  refine ⟨rep.base_pos, ?_, ?_, ?_, ?_, ?_, ?_, noNeighbours⟩
  · rw [sameEnd]
    exact rep.base_le
  · rw [sameEnd]
    exact rep.end_small
  · rw [sameEnd]
    exact rep.end_aligned
  · rw [sameEnd]
    have before : Partition base h.heapEnd ((old ++ L.free l).map Block.extent ++
        ((L.slack ++ L.lost) ++ (keep ++ L.otherFree l).map Block.extent)) := by
      refine rep.tiles.perm ?_
      unfold Layout.extents
      refine ((split.map _).append_right _).trans ?_
      rw [List.map_append, List.append_assoc]
      exact List.Perm.append_left _ List.perm_append_comm
    refine (retile _ before).perm ?_
    unfold Layout.extents
    refine List.Perm.symm (((split'.map _).append_right _).trans ?_)
    rw [List.map_append, List.append_assoc]
    exact List.Perm.append_left _ List.perm_append_comm
  · intro b mem
    rcases List.mem_append.mp (split'.mem_iff.mp mem) with isNew | isKept
    · exact ok b isNew
    · have was := rep.headers b (split.mem_iff.mpr (List.mem_append_right _ isKept))
      exact { was with size_eq := (keptWord b isKept).1.trans was.size_eq }
  · intro k
    by_cases same : k = l
    · rw [same, free_l]
      exact chain
    · rw [head_k k same, free_k k same]
      refine (rep.chains k).congr fun a mem => ?_
      obtain ⟨b, inK, rfl⟩ := List.mem_map.mp mem
      refine ((keptWord b (List.mem_append_right _ ?_)).2).symm
      exact List.mem_flatMap.mpr
        ⟨k, (List.nodup_finRange 5).mem_erase_iff.mpr ⟨same, List.mem_finRange k⟩, inK⟩

end Rep

end TrollOS.Mem
