import TrollOS.Mem.QuickSplit
import TrollOS.Mem.System

/-!
# `kmalloc`

The allocation loop runs at most twice.  A round that finds a block returns it.
A round that finds none gets a chunk and either cuts it into quick-list blocks
or frees it like any block; the chunk is the highest block of the heap, so that
`kfree` can only merge it with a lower neighbour.
-/

namespace TrollOS.Mem

open TrollOS.Lib

/-- Whenever the scan of the list for `size` finds nothing, the request to the
system can be served. -/
def Heap.MoreFits {μ M : Type} [HeapMemory μ] (h : Heap μ M) (size : Nat) : Prop :=
  ∀ iter, h.findFit size loopFuel (.root (quickList size)) = some iter → h.deref iter = 0 →
    Fits h.heapEnd size

/-- The bytes behind the last block of a chunk at `hdr` that is cut for list `l`. -/
def chunkTail (l : Fin 5) (hdr : Nat) : Extent :=
  ⟨hdr + mmuPageSize / (8 <<< l.val + sizeofHeader) * (8 <<< l.val + sizeofHeader),
    mmuPageSize % (8 <<< l.val + sizeofHeader)⟩

/-- The tail slack an allocation leaves: it asked for a chunk exactly when the heap
end moved, and the chunk starts at the old end. -/
def Heap.tails {μ M : Type} (h h' : Heap μ M) (size : Nat) : List Extent :=
  if h'.heapEnd ≠ h.heapEnd ∧ quickList size < 4 then [chunkTail (quickList size) h.heapEnd] else []

theorem Heap.tails_nil {μ M : Type} {h h' : Heap μ M} (same : h'.heapEnd = h.heapEnd) (size : Nat) :
    h.tails h' size = [] := if_neg fun moved => moved.1 same

theorem Heap.tails_congr {μ M : Type} {h h' h'' : Heap μ M} (same : h''.heapEnd = h'.heapEnd)
    (size : Nat) : h.tails h'' size = h.tails h' size := by
  unfold Heap.tails
  rw [same]

theorem loopFuel_eq : loopFuel = (loopFuel - 2) + 1 + 1 := by decide

/-- A block of the highest address merges with at most a lower neighbour. -/
theorem Coalesce.of_top {b : Block} {bs fs lost : List Block} (co : Coalesce b bs fs lost)
    (top : ∀ c ∈ bs, b.stop ≠ c.hdr) : lost = [] ∧ ∃ c ∈ fs, b.size ≤ c.size := by
  cases co with
  | alone miss => exact ⟨rfl, b, List.mem_cons_self, Nat.le_refl _⟩
  | @lower front back low meet miss =>
      exact ⟨rfl, low.join b, List.mem_cons_self, Nat.le_add_left _ _⟩
  | @upper front back up meet miss => exact absurd meet (top up (by simp))
  | @lowerUpper front mid back low up meetLow meetUp => exact absurd meetUp (top up (by simp))
  | @upperLower front mid back low up meetLow meetUp => exact absurd meetUp (top up (by simp))

namespace Rep

variable {M : Type} {base : Nat} {h h' : Heap ByteMem M} {L L' : Layout} {b : Block} {size : Nat}

/-- What a successful allocation of `size` bytes does: `b` becomes live. -/
structure Allocated (base size : Nat) (h : Heap ByteMem M) (L : Layout) (b : Block) (h' : Heap ByteMem M)
    (L' : Layout) : Prop where
  rep : Rep base h' L'
  live : L'.live = b :: L.live
  enough : size ≤ b.size
  kept : Kept L.live h h'
  slack : L'.slack = h.tails h' size ++ L.slack
  lost : L'.lost = L.lost

/-- The first block of its list that is large enough has been taken, and what is left of it
stays in its place. -/
def Drawn (size : Nat) (L L' : Layout) : Prop :=
  (∃ front c back, L.free (quickList size) = front ++ c :: back ∧ (∀ d ∈ front, d.size < size) ∧
      size ≤ c.size ∧ L'.free (quickList size) = front ++ (left c size ++ back)) ∧
    ∀ k, k ≠ quickList size → L'.free k = L.free k

/-- New blocks are in front of the list for the size, all of the size of its class if it is a
quick list. -/
def Restocked (size : Nat) (L L' : Layout) : Prop :=
  (quickList size < 4 → ∃ fresh, L'.free (quickList size) = fresh ++ L.free (quickList size) ∧
      ∀ b ∈ fresh, b.size = 8 <<< (quickList size).val) ∧
    ∀ k, k ≠ quickList size → L'.free k = L.free k

/-- A scan that finds a block. -/
theorem round_found (mmuAllocAt : M → Nat → Nat × M) (rep : Rep base h L) (pos : 0 < size)
    (found : ∃ c ∈ L.free (quickList size), size ≤ c.size) (fuel : Nat) :
    ∃ b h' L', Heap.kmallocLoop mmuAllocAt size (fuel + 1) h = some (b.hdr + sizeofHeader, h') ∧
      Allocated base size h L b h' L' ∧ Drawn size L L' ∧ h.SameSystem h' := by
  have list := rep.freeList (quickList size)
  obtain ⟨small, rest, split, allSmall, fits, scan⟩ := @Heap.findFit_spec M h (quickList size) []
    (L.free (quickList size)) size list loopFuel
    (Nat.lt_of_le_of_lt list.length_le (by decide))
  rw [List.nil_append] at scan
  obtain ⟨c, inList, large⟩ := found
  rw [split] at inList
  cases rest with
  | nil =>
      have tooSmall := allSmall c (by simpa using inList)
      omega
  | cons b back =>
      have fit : size ≤ b.size := fits b rfl
      have nonzero : h.deref (linkAfter (quickList size) small) ≠ 0 := by
        rw [split] at list
        rw [list.deref_cons]
        exact list.hdr_ne_zero (by simp)
      have round : Heap.kmallocLoop mmuAllocAt size (fuel + 1) h =
          some (Heap.take h (linkAfter (quickList size) small) size) := by
        unfold Heap.kmallocLoop
        dsimp only
        rw [linkAfter_nil] at scan
        rw [scan, Option.bind_some, if_pos nonzero]
      have system : ∀ {ptr h'}, h.take (linkAfter (quickList size) small) size = (ptr, h') →
          h.SameSystem h' := fun call => by
        have same := h.take_system (linkAfter (quickList size) small) size
        rwa [call] at same
      by_cases splits : Splits b size
      · obtain ⟨h', call, rep', kept, sameEnd⟩ := rep.take_split split fit pos splits
        refine ⟨taken b size, h', _, ?_, ⟨rep', rfl, taken_size fit, kept, ?_, rfl⟩,
          ⟨⟨small, b, back, split, allSmall, fit, L.edit_free_self _ _ _ _ _⟩,
            fun k ne => L.edit_free_ne _ _ _ _ ne⟩, system call⟩
        · rw [round, call, taken_hdr]
        · rw [Heap.tails_nil sameEnd]
          rfl
      · obtain ⟨h', call, rep', kept, sameEnd⟩ := rep.take_whole split fit splits
        have none : left b size = [] := if_neg splits
        refine ⟨b, h', _, ?_, ⟨rep', rfl, fit, kept, ?_, rfl⟩,
          ⟨⟨small, b, back, split, allSmall, fit, ?_⟩, fun k ne => L.edit_free_ne _ _ _ _ ne⟩,
            system call⟩
        · rw [round, call]
        · rw [Heap.tails_nil sameEnd]
          rfl
        · rw [none, List.nil_append, L.edit_free_self]

/-- What a round that finds nothing leaves behind: a block that fits. -/
structure Refilled (base size : Nat) (h : Heap ByteMem M) (L : Layout) (h' : Heap ByteMem M) (L' : Layout) :
    Prop where
  rep : Rep base h' L'
  live : L'.live = L.live
  found : ∃ c ∈ L'.free (quickList size), size ≤ c.size
  kept : Kept L.live h h'
  slack : L'.slack = h.tails h' size ++ L.slack
  lost : L'.lost = L.lost

theorem quickList_fits (quick : quickList size < 4) : size ≤ 8 <<< (quickList size).val := by
  have small := (quickList_lt_iff size).mp quick
  unfold quickList
  split_ifs with h0 h1 h2 h3
  · exact h0
  · exact h1
  · exact h2
  · exact h3
  · exact absurd small h3

/-- A chunk from the system cut into blocks of a quick list. -/
theorem refill_quick (mmuAllocAt : M → Nat → Nat × M) (rep : Rep base h L)
    (fits : Fits h.heapEnd size) (quick : quickList size < 4) :
    ∃ h₁ h', h.getmore mmuAllocAt size = (h.heapEnd, h₁) ∧
      h' = h₁.splitQuick (quickList size) h.heapEnd ∧
      ∃ L', Refilled base size h L h' L' ∧ Restocked size L L' := by
  obtain ⟨h₁, call, rep₁, below⟩ := rep.getmore mmuAllocAt fits
  let fresh : Block := ⟨h.heapEnd, request size - sizeofHeader⟩
  have classSize : ∀ l : Fin 5, 8 <<< l.val ≤ 128 := by decide
  have room : 8 <<< (quickList size).val ≤ fresh.size := by
    have ge := request_ge size
    have whole := request_dvd size
    have bound := classSize (quickList size)
    change _ ≤ request size - sizeofHeader
    unfold sizeofHeader at *
    omega
  have whole : fresh.size + sizeofHeader = mmuPageSize := by
    have small := (quickList_lt_iff size).mp quick
    change request size - sizeofHeader + sizeofHeader = 4096
    unfold request sizeofHeader
    omega
  obtain ⟨rep', kept, sameEnd⟩ := rep₁.splitQuick (List.Perm.refl (fresh :: L.live)) quick room
  refine ⟨h₁, _, call, rfl, _, ⟨rep', rfl, ?_, ?_, ?_, rfl⟩,
    ⟨fun _ => ⟨_, Layout.edit_free_self _ _ _ _ _ _, fun c inRow => (mem_quickBlocks inRow).1⟩,
      fun k ne => Layout.edit_free_ne _ _ _ _ _ ne⟩⟩
  · rw [Layout.edit_free_self]
    obtain ⟨k, count⟩ : ∃ k, quickCount (quickList size) fresh.size = k + 1 := by
      have pos : 0 < quickCount (quickList size) fresh.size :=
        Nat.div_pos (Nat.add_le_add_right room _) (Nat.succ_pos _)
      exact ⟨quickCount (quickList size) fresh.size - 1, by omega⟩
    rw [count]
    exact ⟨⟨h.heapEnd, 8 <<< (quickList size).val⟩, List.mem_append_left _ List.mem_cons_self,
      quickList_fits quick⟩
  · have first : Kept L.live h h₁ := fun c inLive x low high =>
      below x (Nat.lt_of_lt_of_le high (rep.bounds (live_mem_blocks inLive)).2)
    exact first.trans kept
  · have moved : (h₁.splitQuick (quickList size) fresh.hdr).heapEnd ≠ h.heapEnd := by
      have last := rep₁.tiles.bounds (e := fresh.extent)
        (List.mem_append_left _ (List.mem_map.mpr ⟨fresh, List.mem_cons_self, rfl⟩))
        (Nat.succ_pos _)
      rw [sameEnd]
      change _ ∧ h.heapEnd + (fresh.size + sizeofHeader) ≤ h₁.heapEnd at last
      rw [whole] at last
      unfold mmuPageSize at last
      omega
    have tail : quickTail (quickList size) fresh = chunkTail (quickList size) h.heapEnd := by
      unfold quickTail chunkTail quickCount
      rw [whole]
    unfold Heap.tails
    rw [if_pos ⟨moved, quick⟩, ← tail]
    rfl

/-- A chunk from the system put on the list of large blocks. -/
theorem refill_large (mmuAllocAt : M → Nat → Nat × M) (rep : Rep base h L)
    (fits : Fits h.heapEnd size) (large : ¬ quickList size < 4) :
    ∃ h₁ h', h.getmore mmuAllocAt size = (h.heapEnd, h₁) ∧
      h₁.kfree (h.heapEnd + sizeofHeader) = some h' ∧
        ∃ L', Refilled base size h L h' L' ∧ Restocked size L L' := by
  obtain ⟨h₁, call, rep₁, below⟩ := rep.getmore mmuAllocAt fits
  let fresh : Block := ⟨h.heapEnd, request size - sizeofHeader⟩
  have big : 64 < size := Nat.lt_of_not_le fun le => large ((quickList_lt_iff size).mpr le)
  have ge := request_ge size
  have freshSize : size ≤ fresh.size := Nat.le_sub_of_add_le ge
  obtain ⟨fs, lost, co⟩ := coalesce_exists fresh (L.free 4)
  obtain ⟨noneLost, c, inFs, enough⟩ := co.of_top fun c inList meet => by
    have inside := (rep.bounds (free_mem_blocks inList)).2
    unfold Block.stop at meet inside
    change h.heapEnd + sizeofHeader + (request size - sizeofHeader) = c.hdr at meet
    unfold sizeofHeader at *
    omega
  obtain ⟨h', free, rep', edit⟩ := rep₁.kfree_large (List.Perm.refl (fresh :: L.live))
    (Nat.lt_of_lt_of_le big freshSize) co
  have list : quickList size = 4 := by
    have notLt : ∀ l : Fin 5, ¬ l < 4 → l = 4 := by decide
    exact notLt _ large
  refine ⟨h₁, h', call, free, _, ⟨rep', rfl, ?_, ?_, ?_, ?_⟩,
    ⟨fun quick => absurd quick large, fun k ne => ?_⟩⟩
  · rw [list, Layout.edit_free_self]
    exact ⟨c, inFs, Nat.le_trans freshSize enough⟩
  · intro d inLive x low high
    have inside := (rep.bounds (live_mem_blocks inLive)).2
    refine (frame_of_headers edit.frame (fun e inE => ?_) x low high).trans (below x (by omega))
    have apart := rep₁.blocks_apart
    rcases List.mem_cons.mp inE with same | free
    · rw [same]
      exact Or.inr inside
    · exact (List.pairwise_append.mp rep.blocks_apart).2.2 d inLive e
        (Layout.mem_freeBlocks.mpr ⟨4, free⟩) |>.symm
  · unfold Heap.tails
    rw [if_neg fun moved => large moved.2]
    rfl
  · rw [noneLost]
    rfl
  · rw [list] at ne
    exact Layout.edit_free_ne _ _ _ _ _ ne

/-- Where no block of the list is large enough, the scan ends at the end of the list. -/
theorem scan_missing (rep : Rep base h L)
    (missing : ∀ c ∈ L.free (quickList size), c.size < size) :
    ∃ iter, h.findFit size loopFuel (.root (quickList size)) = some iter ∧ h.deref iter = 0 := by
  have list := rep.freeList (quickList size)
  obtain ⟨small, rest, split, allSmall, fit, scan⟩ := @Heap.findFit_spec M h (quickList size) []
    (L.free (quickList size)) size list loopFuel
    (Nat.lt_of_le_of_lt list.length_le (by decide))
  rw [List.nil_append, linkAfter_nil] at scan
  cases rest with
  | cons b back =>
      have large : size ≤ b.size := fit b rfl
      have short := missing b (by rw [split]; simp)
      omega
  | nil =>
      rw [split, List.append_nil] at list
      exact ⟨_, scan, list.deref_end⟩

/-- A round that finds nothing goes on with a list that has a block that fits. -/
theorem round_refill (mmuAllocAt : M → Nat → Nat × M) (rep : Rep base h L)
    (missing : ∀ c ∈ L.free (quickList size), c.size < size) (more : h.MoreFits size) (fuel : Nat) :
    ∃ h' L', Heap.kmallocLoop mmuAllocAt size (fuel + 1) h =
        Heap.kmallocLoop mmuAllocAt size fuel h' ∧ Refilled base size h L h' L' ∧
          Restocked size L L' ∧ (h.getmore mmuAllocAt size).2.SameSystem h' := by
  obtain ⟨iter, scan, empty⟩ := rep.scan_missing missing
  have fits := more _ scan empty
  have nonzero : h.heapEnd ≠ 0 := by
    have low := rep.base_le
    have pos := rep.base_pos
    omega
  by_cases quick : quickList size < 4
  · obtain ⟨h₁, h', call, result, L', refilled, restocked⟩ :=
      rep.refill_quick mmuAllocAt fits quick
    refine ⟨h', L', ?_, refilled, restocked, ?_⟩
    · conv_lhs => unfold Heap.kmallocLoop
      dsimp only
      rw [scan, Option.bind_some, if_neg (not_not.mpr empty), call]
      dsimp only
      rw [if_neg nonzero, if_pos quick, result]
    · rw [call, result]
      exact h₁.splitQuick_system _ _
  · obtain ⟨h₁, h', call, free, L', refilled, restocked⟩ :=
      rep.refill_large mmuAllocAt fits quick
    have ptr : u32 (h.heapEnd + sizeofHeader) = h.heapEnd + sizeofHeader := by
      have ge := request_ge size
      have room := fits.room
      exact u32_eq (by unfold sizeofHeader at *; omega)
    refine ⟨h', L', ?_, refilled, restocked, ?_⟩
    · conv_lhs => unfold Heap.kmallocLoop
      dsimp only
      rw [scan, Option.bind_some, if_neg (not_not.mpr empty), call]
      dsimp only
      rw [if_neg nonzero, if_neg quick, ptr, free, Option.bind_some]
    · rw [call]
      exact Heap.kfree_system free


/-- `kmalloc` of a positive size returns a new live block of at least that size, drawn from
the list for the size, or from what was put there for it. -/
theorem kmalloc_drawn (mmuAllocAt : M → Nat → Nat × M) (rep : Rep base h L) (pos : 0 < size)
    (more : h.MoreFits size) :
    ∃ b h' L', h.kmalloc mmuAllocAt size = some (b.hdr + sizeofHeader, h') ∧
      Allocated base size h L b h' L' ∧
        (Drawn size L L' ∧ h.SameSystem h' ∨ (∀ c ∈ L.free (quickList size), c.size < size) ∧
          (h.getmore mmuAllocAt size).2.SameSystem h' ∧
            ∃ L₁, Restocked size L L₁ ∧ Drawn size L₁ L') := by
  have start : h.kmalloc mmuAllocAt size =
      Heap.kmallocLoop mmuAllocAt size (loopFuel - 2 + 1 + 1) h := by
    unfold Heap.kmalloc
    rw [if_neg (Nat.ne_of_gt pos), ← loopFuel_eq]
  rw [start]
  by_cases found : ∃ c ∈ L.free (quickList size), size ≤ c.size
  · obtain ⟨b, h', L', call, served, drawn, system⟩ :=
      rep.round_found mmuAllocAt pos found (loopFuel - 2 + 1)
    exact ⟨b, h', L', call, served, Or.inl ⟨drawn, system⟩⟩
  · have missing : ∀ c ∈ L.free (quickList size), c.size < size := fun c inList =>
      Nat.lt_of_not_le fun fit => found ⟨c, inList, fit⟩
    obtain ⟨h₁, L₁, round, refilled, restocked, system⟩ :=
      rep.round_refill mmuAllocAt missing more (loopFuel - 2 + 1)
    obtain ⟨b, h', L', call, served, drawn, system'⟩ :=
      refilled.rep.round_found mmuAllocAt pos refilled.found (loopFuel - 2)
    have kept := served.kept
    rw [refilled.live] at kept
    refine ⟨b, h', L', round.trans call, ⟨served.rep, ?_, served.enough,
      refilled.kept.trans kept, ?_, served.lost.trans refilled.lost⟩,
        Or.inr ⟨missing, system.trans system', L₁, restocked, drawn⟩⟩
    · rw [served.live, refilled.live]
    · rw [served.slack, Heap.tails_nil system'.heapEnd, Heap.tails_congr system'.heapEnd]
      exact refilled.slack

theorem kmalloc (mmuAllocAt : M → Nat → Nat × M) (rep : Rep base h L) (pos : 0 < size)
    (more : h.MoreFits size) :
    ∃ b h' L', h.kmalloc mmuAllocAt size = some (b.hdr + sizeofHeader, h') ∧
      Allocated base size h L b h' L' := by
  obtain ⟨b, h', L', call, served, -⟩ := rep.kmalloc_drawn mmuAllocAt pos more
  exact ⟨b, h', L', call, served⟩

end Rep

end TrollOS.Mem
