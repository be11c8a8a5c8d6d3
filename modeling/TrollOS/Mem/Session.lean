import TrollOS.Mem.Krealloc

/-!
# Runs of heap calls

A session is the heap together with what its callers own: every live pointer
with the size last requested for it.  It also records the tail slack of the
chunks cut so far.  Between calls an owner may write its payload.  A run is any
sequence of valid calls and such writes from empty free lists.
-/

namespace TrollOS.Mem

open TrollOS.Lib

/-- A live pointer and the size last requested for it. -/
structure Owned where
  ptr : Nat
  requested : Nat
  deriving DecidableEq, Repr

structure Session (μ M : Type) where
  heap : Heap μ M
  live : List Owned
  slack : List Extent

inductive Call where
  | kmalloc (size : Nat)
  | kfree (ptr : Nat)
  | krealloc (ptr size : Nat)
  deriving DecidableEq, Repr

def Call.frees : Call → Option Nat
  | .kmalloc _ => none
  | .kfree ptr => some ptr
  | .krealloc ptr _ => some ptr

def Heap.blockSize {μ M : Type} [HeapMemory μ] (h : Heap μ M) (ptr : Nat) : Nat :=
  sizeOf h.mem (ptr - sizeofHeader)

def Heap.blockAt {M : Type} (h : Heap ByteMem M) (ptr : Nat) : Block :=
  ⟨ptr - sizeofHeader, h.blockSize ptr⟩

/-- Null is not a block. -/
def grant (live : List Owned) (ptr size : Nat) : List Owned :=
  if ptr = 0 then live else ⟨ptr, size⟩ :: live

def revoke (live : List Owned) (ptr : Nat) : List Owned := live.eraseP fun a => a.ptr = ptr

namespace Session

section Runs

variable {μ M : Type} [HeapMemory μ] (mmuAllocAt : M → Nat → Nat × M)

/-- One call; the result is the pointer it returns and the session after it. -/
def exec (s : Session μ M) : Call → Option (Nat × Session μ M)
  | .kmalloc size =>
      (s.heap.kmalloc mmuAllocAt size).map fun (ptr, h) =>
        (ptr, ⟨h, grant s.live ptr size, s.heap.tails h size ++ s.slack⟩)
  | .kfree ptr => (s.heap.kfree ptr).map fun h => (0, ⟨h, revoke s.live ptr, s.slack⟩)
  | .krealloc old size =>
      (s.heap.krealloc mmuAllocAt old size).map fun (ptr, h) =>
        (ptr, ⟨h, grant (revoke s.live old) ptr size, s.heap.tails h size ++ s.slack⟩)

/-- A pointer passed in is live, and a request to the system does not wrap. -/
def Valid (s : Session μ M) : Call → Prop
  | .kmalloc size => size ≠ 0 → s.heap.MoreFits size
  | .kfree ptr => ptr ∈ s.live.map Owned.ptr
  | .krealloc ptr size => ptr ∈ s.live.map Owned.ptr ∧ (size ≠ 0 → s.heap.MoreFits size)

theorem valid_kmalloc {s : Session μ M} {size : Nat} (fits : Fits s.heap.heapEnd size) :
    s.Valid (.kmalloc size) := fun _ _ _ _ => fits

def write (s : Session μ M) (x : Nat) (b : UInt8) : Session μ M :=
  { s with heap := { s.heap with mem := HeapMemory.store8 s.heap.mem x b } }

structure Initial (base : Nat) (s : Session μ M) : Prop where
  private' : HeapMemory.Private s.heap.mem
  mapped : s.heap.mapped = []
  lists : ∀ l, s.heap.freelist l = 0
  heapEnd : s.heap.heapEnd = base
  live : s.live = []
  slack : s.slack = []
  nonnull : 0 < base
  small : base < 4294967296
  aligned : base % 4 = 0

/-- Runs of valid calls, all of them permitted, and of writes to payloads. -/
inductive Permitted (permits : Session μ M → Call → Prop) (base : Nat) : Session μ M → Prop where
  | start {s : Session μ M} (init : Initial base s) : Permitted permits base s
  | call {s t : Session μ M} {c : Call} {ptr : Nat} (run : Permitted permits base s) (valid : s.Valid c)
      (permitted : permits s c) (ran : s.exec mmuAllocAt c = some (ptr, t)) : Permitted permits base t
  | write {s : Session μ M} {a : Owned} {i : Nat} (b : UInt8) (run : Permitted permits base s)
      (owned : a ∈ s.live) (inside : i < s.heap.blockSize a.ptr) :
      Permitted permits base (s.write (a.ptr + i) b)

abbrev Reachable (base : Nat) : Session μ M → Prop := Permitted mmuAllocAt (fun _ _ => True) base

end Runs

variable {M : Type}

/-- The layout `L` describes the heap, and its live blocks are the owned ones. -/
structure Tracks (base : Nat) (s : Session ByteMem M) (L : Layout) : Prop where
  rep : Rep base s.heap L
  live : L.live = s.live.map fun a => s.heap.blockAt a.ptr
  slack : L.slack = s.slack
  ptrs : ∀ a ∈ s.live, sizeofHeader ≤ a.ptr
  enough : ∀ a ∈ s.live, a.requested ≤ s.heap.blockSize a.ptr

/-- A block that keeps its bytes keeps its size. -/
theorem blockSize_kept {h h' : Heap ByteMem M} {bs : List Block} {ptr : Nat} (kept : Rep.Kept bs h h')
    (mem : h.blockAt ptr ∈ bs) : h'.blockSize ptr = h.blockSize ptr :=
  ByteMem.load32_congr fun x low high => kept _ mem x low (by
    unfold Block.stop sizeofHeader
    change x < ptr - sizeofHeader + 8 + h.blockSize ptr
    omega)

theorem blocks_kept {h h' : Heap ByteMem M} {owned : List Owned}
    (kept : Rep.Kept (owned.map fun a => h.blockAt a.ptr) h h') :
    (owned.map fun a => h'.blockAt a.ptr) = owned.map fun a => h.blockAt a.ptr := by
  refine List.map_congr_left fun a mem => ?_
  unfold Heap.blockAt
  rw [blockSize_kept kept (List.mem_map.mpr ⟨a, mem, rfl⟩)]

section Tracks

variable {base : Nat} {s : Session ByteMem M} {L : Layout}

theorem Tracks.block_mem (tracks : Tracks base s L) {a : Owned} (mem : a ∈ s.live) :
    s.heap.blockAt a.ptr ∈ L.live := by
  rw [tracks.live]
  exact List.mem_map.mpr ⟨a, mem, rfl⟩

/-- The payload of an owned block starts behind its header. -/
theorem Tracks.payload (tracks : Tracks base s L) {a : Owned} (mem : a ∈ s.live) :
    (s.heap.blockAt a.ptr).hdr + sizeofHeader = a.ptr :=
  Nat.sub_add_cancel (tracks.ptrs a mem)

/-- A live pointer singles out one owned block. -/
theorem Tracks.owner (tracks : Tracks base s L) {ptr : Nat} (live : ptr ∈ s.live.map Owned.ptr) :
    ∃ a, a ∈ s.live ∧ a.ptr = ptr ∧ (∀ c ∈ revoke s.live ptr, c ∈ s.live) ∧
      L.live.Perm (s.heap.blockAt ptr :: (revoke s.live ptr).map fun a => s.heap.blockAt a.ptr) := by
  obtain ⟨owner, mem, same⟩ := List.mem_map.mp live
  obtain ⟨a, front, back, -, isPtr, split, erased⟩ :=
    @List.exists_of_eraseP _ (fun a : Owned => decide (a.ptr = ptr)) s.live owner mem (by simpa)
  have ptrEq : a.ptr = ptr := by simpa using isPtr
  refine ⟨a, by rw [split]; simp, ptrEq, fun c inRest => List.mem_of_mem_eraseP inRest, ?_⟩
  unfold revoke
  rw [tracks.live, erased, split, ← ptrEq, List.map_append, List.map_append, List.map_cons]
  exact List.perm_middle

/-- The tracked state after an operation that keeps the bytes of `owned`. -/
theorem Tracks.carry {h' : Heap ByteMem M} {L' : Layout} {owned : List Owned} {slack : List Extent}
    (tracks : Tracks base s L)
    (sub : ∀ a ∈ owned, a ∈ s.live)
    (kept : Rep.Kept (owned.map fun a => s.heap.blockAt a.ptr) s.heap h')
    (rep : Rep base h' L') (live : L'.live = owned.map fun a => s.heap.blockAt a.ptr)
    (tails : L'.slack = slack) : Tracks base ⟨h', owned, slack⟩ L' := by
  constructor
  · exact rep
  · rw [live]
    exact (blocks_kept kept).symm
  · exact tails
  · exact fun a mem => tracks.ptrs a (sub a mem)
  · intro a mem
    change a.requested ≤ h'.blockSize a.ptr
    rw [blockSize_kept kept (List.mem_map.mpr ⟨a, mem, rfl⟩)]
    exact tracks.enough a (sub a mem)

/-- The tracked state after an operation that also hands out the block `b`. -/
theorem Tracks.carry_new {h' : Heap ByteMem M} {L' : Layout} {owned : List Owned} {b : Block} {size : Nat}
    {slack : List Extent} (tracks : Tracks base s L) (sub : ∀ a ∈ owned, a ∈ s.live)
    (kept : Rep.Kept (owned.map fun a => s.heap.blockAt a.ptr) s.heap h') (rep : Rep base h' L')
    (live : L'.live = b :: owned.map fun a => s.heap.blockAt a.ptr) (enough : size ≤ b.size)
    (tails : L'.slack = slack) :
    Tracks base ⟨h', ⟨b.hdr + sizeofHeader, size⟩ :: owned, slack⟩ L' := by
  have sized : h'.blockSize (b.hdr + sizeofHeader) = b.size := by
    unfold Heap.blockSize
    rw [Nat.add_sub_cancel]
    refine (rep.headers b (Rep.live_mem_blocks ?_)).size_eq
    rw [live]
    exact List.mem_cons_self
  constructor
  · exact rep
  · rw [live, List.map_cons]
    refine congrArg₂ List.cons ?_ (blocks_kept kept).symm
    unfold Heap.blockAt
    dsimp only
    rw [sized, Nat.add_sub_cancel]
  · exact tails
  · intro a mem
    rcases List.mem_cons.mp mem with isNew | old
    · rw [isNew]
      exact Nat.le_add_left _ _
    · exact tracks.ptrs a (sub a old)
  · intro a mem
    change a.requested ≤ h'.blockSize a.ptr
    rcases List.mem_cons.mp mem with isNew | old
    · rw [isNew]
      dsimp only
      rw [sized]
      exact enough
    · rw [blockSize_kept kept (List.mem_map.mpr ⟨a, old, rfl⟩)]
      exact tracks.enough a (sub a old)

/-- The empty heap. -/
theorem Initial.tracks (init : Initial base s) : ∃ L, Tracks base s L ∧ L.lost = [] := by
  refine ⟨⟨[], fun _ => [], [], []⟩, ⟨⟨init.nonnull, ?_, ?_, ?_, ?_, ?_, ?_, ?_⟩, ?_, ?_, ?_, ?_⟩,
    rfl⟩
  · rw [init.heapEnd]
  · rw [init.heapEnd]
    exact init.small
  · rw [init.heapEnd]
    exact init.aligned
  · rw [init.heapEnd]
    exact Partition.empty base
  · intro b mem
    simp [Layout.blocks, Layout.freeBlocks] at mem
  · exact init.lists
  · exact fun b mem => absurd mem List.not_mem_nil
  · rw [init.live]
    rfl
  · exact init.slack.symm
  · rw [init.live]
    exact fun a mem => absurd mem List.not_mem_nil
  · rw [init.live]
    exact fun a mem => absurd mem List.not_mem_nil

end Tracks

end Session

end TrollOS.Mem
