import TrollOS.Mem.Safety

/-!
# Frames behind the heap

`ksbrk` does not look at what `mmu_alloc_at` returns.  As long as the mapper has a frame for
every page that is asked for, all of the heap lies on mapped pages.
-/

namespace TrollOS.Mem

open TrollOS.Lib Rep

section Mapping

variable {μ M : Type} [HeapMemory μ] (mmuAllocAt : M → Nat → Nat × M)

/-- The mapper has a frame for each of the next pages from `page` on. -/
def FramesFor : M → Nat → Nat → Prop
  | _, _, 0 => True
  | mmu, page, n + 1 =>
      (mmuAllocAt mmu page).1 ≠ 0 ∧ FramesFor (mmuAllocAt mmu page).2 (u32 (page + mmuPageSize)) n

/-- Whenever the scan of the list for `size` finds nothing, there are frames for the chunk. -/
def Heap.MoreFrames (h : Heap μ M) (size : Nat) : Prop :=
  ∀ iter, h.findFit size loopFuel (.root (quickList size)) = some iter → h.deref iter = 0 →
    FramesFor mmuAllocAt h.mmu (alignPage h.heapEnd) (request size / mmuPageSize)

/-- The page of the address has got a frame.  The page of the last byte before the heap is
mapped with the kernel. -/
def Heap.Backed (base : Nat) (h : Heap μ M) (x : Nat) : Prop :=
  x / mmuPageSize * mmuPageSize < base ∨
    ∃ frame, frame ≠ 0 ∧ (x / mmuPageSize * mmuPageSize, frame) ∈ h.mapped

def Heap.AllBacked (base : Nat) (h : Heap μ M) : Prop := ∀ x, base ≤ x → x < h.heapEnd → h.Backed base x

/-- What an honest `kmalloc` of `size` bytes returns. -/
def Heap.Honest (base : Nat) (h : Heap μ M) (size ptr : Nat) (h' : Heap μ M) : Prop :=
  ptr = 0 ∧ h'.heapEnd = h.heapEnd ∨
    base ≤ ptr ∧ ptr + size ≤ h'.heapEnd ∧ ∀ x, ptr ≤ x → x < ptr + size → h'.Backed base x

variable {mmuAllocAt} {base size : Nat} {h h' : Heap ByteMem M} {L : Layout}

theorem Heap.Backed.mono {x : Nat} (sub : ∀ e ∈ h.mapped, e ∈ h'.mapped) (backed : h.Backed base x) :
    h'.Backed base x :=
  backed.imp id fun ⟨frame, nonzero, member⟩ => ⟨frame, nonzero, sub _ member⟩

theorem Heap.AllBacked.same (backed : h.AllBacked base) (same : h.SameSystem h') :
    h'.AllBacked base := by
  intro x low high
  rw [same.heapEnd] at high
  exact (backed x low high).mono fun e member => by rwa [same.mapped]

/-- The loop of `ksbrk` records every page with its frame. -/
theorem mapPages_backed (n page : Nat) (h : Heap ByteMem M) (frames : FramesFor mmuAllocAt h.mmu page n)
    (room : page + n * 4096 ≤ 4294967296) :
    (∀ e ∈ h.mapped, e ∈ (Heap.mapPages mmuAllocAt h page n).mapped) ∧
      ∀ i, i < n → ∃ frame, frame ≠ 0 ∧
        (page + i * 4096, frame) ∈ (Heap.mapPages mmuAllocAt h page n).mapped := by
  induction n generalizing page h with
  | zero => exact ⟨fun _ member => member, fun i below => absurd below (Nat.not_lt_zero i)⟩
  | succ n ih =>
      obtain ⟨nonzero, rest⟩ := frames
      have next : 0 < n → u32 (page + mmuPageSize) = page + 4096 := fun more =>
        u32_eq (by unfold mmuPageSize; omega)
      have room' : u32 (page + mmuPageSize) + n * 4096 ≤ 4294967296 := by
        rcases Nat.eq_zero_or_pos n with zero | more
        · rw [zero, Nat.zero_mul, Nat.add_zero]
          exact Nat.le_of_lt (u32_lt _)
        · rw [next more]
          omega
      obtain ⟨kept, pages⟩ := ih (u32 (page + mmuPageSize)) (Heap.mapPage mmuAllocAt h page) rest room'
      have here : ∀ e ∈ h.mapped ++ [(page, (mmuAllocAt h.mmu page).1)],
          e ∈ (Heap.mapPages mmuAllocAt h page (n + 1)).mapped := kept
      refine ⟨fun e member => here e (List.mem_append_left _ member), fun i below => ?_⟩
      cases i with
      | zero =>
          refine ⟨_, nonzero, here _ (List.mem_append_right _ ?_)⟩
          rw [Nat.zero_mul, Nat.add_zero]
          exact List.mem_singleton.mpr rfl
      | succ i =>
          have inside : i < n := Nat.lt_of_succ_lt_succ below
          obtain ⟨frame, found, member⟩ := pages i inside
          have address : page + (i + 1) * 4096 = u32 (page + mmuPageSize) + i * 4096 := by
            rw [next (Nat.lt_of_le_of_lt (Nat.zero_le i) inside)]
            omega
          rw [address]
          exact ⟨frame, found, member⟩

/-- A chunk from the system lies on mapped pages. -/
theorem getmore_backed (fits : Fits h.heapEnd size)
    (frames : FramesFor mmuAllocAt h.mmu (alignPage h.heapEnd) (request size / mmuPageSize))
    (backed : h.AllBacked base) :
    (h.getmore mmuAllocAt size).2.heapEnd = h.heapEnd + request size ∧
      (h.getmore mmuAllocAt size).2.AllBacked base := by
  obtain ⟨moved, mapped⟩ := h.getmore_system mmuAllocAt fits
  obtain ⟨small, room⟩ := fits
  have whole := request_dvd size
  have start : alignPage h.heapEnd = (h.heapEnd + 4095) / 4096 * 4096 := by
    have pos : 0 < request size := Nat.lt_of_lt_of_le (Nat.succ_pos _) (request_ge size)
    unfold alignPage mmuPageSize
    rw [u32_eq (by omega)]
  obtain ⟨kept, pages⟩ := @mapPages_backed M mmuAllocAt (request size / 4096) (alignPage h.heapEnd)
    { h with mallocUsedMem := u32 (h.mallocUsedMem + request size) } frames (by rw [start]; omega)
  rw [← mapped] at kept pages
  refine ⟨moved, fun x low high => ?_⟩
  rw [moved] at high
  -- the page of the new byte starts before the heap, in the old heap, or behind it
  by_cases before : x / mmuPageSize * mmuPageSize < base
  · exact Or.inl before
  · by_cases old : x / mmuPageSize * mmuPageSize < h.heapEnd
    · have same : x / mmuPageSize * mmuPageSize / mmuPageSize * mmuPageSize =
          x / mmuPageSize * mmuPageSize := by rw [Nat.mul_div_cancel _ (by decide)]
      have found := backed _ (Nat.le_of_not_lt before) old
      unfold Heap.Backed at found
      rw [same] at found
      obtain ⟨frame, nonzero, member⟩ := found.resolve_left before
      exact Or.inr ⟨frame, nonzero, kept _ member⟩
    · obtain ⟨frame, nonzero, member⟩ := pages ((x / 4096 * 4096 - alignPage h.heapEnd) / 4096) (by
        rw [start]
        unfold mmuPageSize at old
        omega)
      refine Or.inr ⟨frame, nonzero, ?_⟩
      have page : alignPage h.heapEnd + (x / 4096 * 4096 - alignPage h.heapEnd) / 4096 * 4096 =
          x / mmuPageSize * mmuPageSize := by
        rw [start]
        unfold mmuPageSize at old ⊢
        omega
      rw [page] at member
      exact member

/-- The increment of `ksbrk` is signed and nothing checks the sum: the heap end moves back for
every request that does not fit below the end of the address space. -/
theorem ksbrk_end_iff {n : Nat} (below : h.heapEnd < 4294967296) (small : n < 4294967296) :
    h.heapEnd ≤ (h.ksbrk mmuAllocAt (toInt32 n)).2.heapEnd ↔ h.heapEnd + n < 4294967296 := by
  have moved : (h.ksbrk mmuAllocAt (toInt32 n)).2.heapEnd = (h.heapEnd + n) % 4294967296 := by
    change (((h.heapEnd : Int) + toInt32 n) % 4294967296).toNat = _
    unfold toInt32
    split <;> omega
  rw [moved]
  omega

/-- What the calls keep because only `getmore` reaches the system and there are frames for it. -/
structure KeptBySystem (mmuAllocAt : M → Nat → Nat × M) (P : Heap ByteMem M → Prop) : Prop where
  same : ∀ {h h' : Heap ByteMem M}, h.SameSystem h' → P h → P h'
  grow : ∀ {h : Heap ByteMem M} {size : Nat}, Fits h.heapEnd size →
    FramesFor mmuAllocAt h.mmu (alignPage h.heapEnd) (request size / mmuPageSize) → P h →
      P (h.getmore mmuAllocAt size).2

theorem backed_kept (base : Nat) : KeptBySystem mmuAllocAt fun h => h.AllBacked base :=
  ⟨fun same backed => backed.same same, fun fits frames backed => (getmore_backed fits frames backed).2⟩

theorem end_kept (least : Nat) : KeptBySystem mmuAllocAt fun h => least ≤ h.heapEnd :=
  ⟨fun same low => by rwa [same.heapEnd], fun {h size} fits _ low => by
    rw [(h.getmore_system mmuAllocAt fits).1]
    exact Nat.le_add_right_of_le low⟩

/-- An allocation for which the system has room and frames. -/
theorem kmalloc_kept {P : Heap ByteMem M → Prop} (kept : KeptBySystem mmuAllocAt P) (rep : Rep base h L)
    (pos : 0 < size) (more : h.MoreFits size) (frames : h.MoreFrames mmuAllocAt size) (holds : P h)
    {ptr : Nat} (call : h.kmalloc mmuAllocAt size = some (ptr, h')) : P h' := by
  obtain ⟨b, h₁, L', call', served, drawn⟩ := rep.kmalloc_drawn mmuAllocAt pos more
  rw [call] at call'
  obtain ⟨rfl, rfl⟩ := Prod.mk.inj (Option.some.inj call')
  rcases drawn with ⟨-, same⟩ | ⟨missing, same, -⟩
  · exact kept.same same holds
  · obtain ⟨iter, scan, empty⟩ := rep.scan_missing missing
    exact kept.same same (kept.grow (more iter scan empty) (frames iter scan empty) holds)

theorem kmalloc_honest_step (rep : Rep base h L) (pos : 0 < size) (more : h.MoreFits size)
    (frames : h.MoreFrames mmuAllocAt size) (backed : h.AllBacked base) {ptr : Nat}
    (call : h.kmalloc mmuAllocAt size = some (ptr, h')) : h.Honest base size ptr h' := by
  have all := kmalloc_kept (backed_kept base) rep pos more frames backed call
  obtain ⟨b, h₁, L', call', served, -⟩ := rep.kmalloc_drawn mmuAllocAt pos more
  rw [call] at call'
  obtain ⟨rfl, rfl⟩ := Prod.mk.inj (Option.some.inj call')
  have live : b ∈ L'.live := by
    rw [served.live]
    exact List.mem_cons_self
  obtain ⟨low, high⟩ := served.rep.bounds (live_mem_blocks live)
  have enough := served.enough
  unfold Block.stop at high
  refine Or.inr ⟨Nat.le_add_right_of_le low, by omega, fun x above below => ?_⟩
  exact all x (by omega) (by omega)

end Mapping

/-! ## Runs -/

namespace Session

/-- The mapper has a frame for every page the call asks for. -/
def Granted {μ M : Type} [HeapMemory μ] (mmuAllocAt : M → Nat → Nat × M) (s : Session μ M) : Call → Prop
  | .kmalloc size => size ≠ 0 → s.heap.MoreFrames mmuAllocAt size
  | .kfree _ => True
  | .krealloc _ size => size ≠ 0 → s.heap.MoreFrames mmuAllocAt size

variable {M : Type} {mmuAllocAt : M → Nat → Nat × M} {base : Nat} {s t : Session ByteMem M} {L : Layout}

/-- Before its call of `kfree`, `krealloc` reaches the system through `kmalloc` only. -/
theorem copyToNew_system {h h₂ : Heap ByteMem M} {ptr size tmp : Nat}
    (copy : h.copyToNew mmuAllocAt ptr size = some (tmp, h₂)) :
    ∃ h₁, h.kmalloc mmuAllocAt size = some (tmp, h₁) ∧ h₁.SameSystem h₂ := by
  obtain ⟨⟨p, h₁⟩, malloc, result⟩ := Option.map_eq_some_iff.mp copy
  obtain ⟨rfl, rfl⟩ := Prod.mk.inj result
  exact ⟨h₁, malloc, rfl, rfl, rfl⟩

/-- What one call keeps. -/
theorem exec_kept {P : Heap ByteMem M → Prop} (kept : KeptBySystem mmuAllocAt P) (tracks : Tracks base s L)
    (holds : P s.heap) {c : Call} (valid : s.Valid c) (granted : s.Granted mmuAllocAt c) {ptr : Nat}
    (ran : s.exec mmuAllocAt c = some (ptr, t)) : P t.heap := by
  cases c with
  | kmalloc size =>
      obtain ⟨⟨p, h'⟩, call, result⟩ := Option.map_eq_some_iff.mp ran
      obtain ⟨-, rfl⟩ := Prod.mk.inj result
      by_cases zero : size = 0
      · rw [zero] at call
        obtain ⟨-, rfl⟩ := Prod.mk.inj (Option.some.inj call)
        exact holds
      · exact kmalloc_kept kept tracks.rep (Nat.pos_of_ne_zero zero) (valid zero) (granted zero) holds call
  | kfree ptr =>
      obtain ⟨h', call, result⟩ := Option.map_eq_some_iff.mp ran
      obtain ⟨-, rfl⟩ := Prod.mk.inj result
      exact kept.same (Heap.kfree_system call) holds
  | krealloc old size =>
      obtain ⟨isLive, more⟩ := valid
      obtain ⟨a, mem, rfl, -⟩ := tracks.owner isLive
      have nonnull : a.ptr ≠ 0 := by
        have low := tracks.ptrs a mem
        unfold sizeofHeader at low
        omega
      obtain ⟨⟨p, h'⟩, call, result⟩ := Option.map_eq_some_iff.mp ran
      obtain ⟨-, rfl⟩ := Prod.mk.inj result
      by_cases zero : size = 0
      · unfold Heap.krealloc at call
        rw [if_neg nonnull, if_pos zero] at call
        obtain ⟨h₁, free, result⟩ := Option.map_eq_some_iff.mp call
        obtain ⟨-, rfl⟩ := Prod.mk.inj result
        exact kept.same (Heap.kfree_system free) holds
      · rw [Heap.krealloc_eq mmuAllocAt s.heap nonnull zero] at call
        obtain ⟨⟨tmp, h₂⟩, copy, rest⟩ := Option.bind_eq_some_iff.mp call
        obtain ⟨h₁, malloc, same⟩ := copyToNew_system copy
        obtain ⟨h₃, free, result⟩ := Option.map_eq_some_iff.mp rest
        obtain ⟨-, rfl⟩ := Prod.mk.inj result
        have grown := kmalloc_kept kept tracks.rep (Nat.pos_of_ne_zero zero) (more zero) (granted zero)
          holds malloc
        exact kept.same (Heap.kfree_system free) (kept.same same grown)

theorem backed_of_granted (run : Permitted mmuAllocAt (Granted mmuAllocAt) base s) :
    s.heap.AllBacked base := by
  refine run.invariant (fun s init x low high => ?_)
    (fun s L c ptr t tracks backed valid granted ran =>
      exec_kept (backed_kept base) tracks backed valid granted ran)
    fun s L x b tracks tracks' backed => backed
  rw [init.heapEnd] at high
  exact absurd low (Nat.not_le.mpr high)

/-- An allocation at the end of a run. -/
theorem exec_honest (run : Permitted mmuAllocAt (Granted mmuAllocAt) base s) {size : Nat}
    (valid : s.Valid (.kmalloc size)) (granted : s.Granted mmuAllocAt (.kmalloc size)) :
    ∃ ptr h', s.heap.kmalloc mmuAllocAt size = some (ptr, h') ∧ s.heap.Honest base size ptr h' := by
  obtain ⟨L, tracks⟩ := run.tracks
  by_cases zero : size = 0
  · refine ⟨0, s.heap, ?_, Or.inl ⟨rfl, rfl⟩⟩
    unfold Heap.kmalloc
    rw [if_pos zero]
  · obtain ⟨b, h', L', call, -⟩ := tracks.rep.kmalloc mmuAllocAt (Nat.pos_of_ne_zero zero) (valid zero)
    exact ⟨_, h', call, kmalloc_honest_step tracks.rep (Nat.pos_of_ne_zero zero) (valid zero)
      (granted zero) (backed_of_granted run) call⟩

end Session

end TrollOS.Mem
