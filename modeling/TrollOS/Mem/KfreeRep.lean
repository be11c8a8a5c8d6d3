import TrollOS.Mem.Kfree

/-!
# `kfree` keeps the representation

A block of at most 64 bytes goes to its quick list unmerged; a larger one goes
through the coalescing scan.  Only headers of the freed block and of blocks of
the list it goes to are written.
-/

namespace TrollOS.Mem

open TrollOS.Lib

theorem quickList_lt_iff (size : Nat) : quickList size < 4 ↔ size ≤ 64 := by
  unfold quickList
  split_ifs with h0 h1 h2 h3
  · exact iff_of_true (by decide) (by simp at h0; omega)
  · exact iff_of_true (by decide) (by simp at h1; omega)
  · exact iff_of_true (by decide) (by simp at h2; omega)
  · exact iff_of_true (by decide) (by simpa using h3)
  · exact iff_of_false (by decide) (by simpa using h3)

namespace Layout

/-- The layout with list `l` replaced and other live blocks, slack and lost bytes. -/
def edit (L : Layout) (live : List Block) (l : Fin 5) (fs : List Block) (slack lost : List Extent) :
    Layout := ⟨live, Function.update L.free l fs, slack, lost⟩

@[simp]
theorem edit_free_self (L : Layout) (live : List Block) (l : Fin 5) (fs : List Block)
    (slack lost : List Extent) : (L.edit live l fs slack lost).free l = fs := by
  simp [edit]

theorem edit_free_ne (L : Layout) (live : List Block) {l k : Fin 5} (fs : List Block)
    (slack lost : List Extent) (ne : k ≠ l) :
    (L.edit live l fs slack lost).free k = L.free k := by
  simp [edit, ne]

end Layout

namespace Rep

variable {M : Type} {base : Nat} {h : Heap ByteMem M} {L : Layout} {b : Block} {keep : List Block}

theorem freeList (rep : Rep base h L) (l : Fin 5) : FreeList h l (L.free l) := by
  constructor
  · exact rep.chains l
  · exact fun c mem => (rep.headers c (free_mem_blocks mem)).size_eq
  · intro c mem
    have inside := rep.bounds (free_mem_blocks mem)
    have small := rep.end_small
    omega
  · have pairs := ((blocks_perm L l).pairwise_iff fun {_ _} => Block.Apart.symm).mp rep.blocks_apart
    exact (List.pairwise_append.mp (List.pairwise_append.mp pairs).2.1).1

/-- A live block is apart from the other live blocks and from all free ones. -/
theorem live_apart (rep : Rep base h L) (live : L.live.Perm (b :: keep)) :
    ∀ c ∈ keep ++ L.freeBlocks, b.Apart c := by
  have pairs := ((live.append_right L.freeBlocks).pairwise_iff
    fun {_ _} => Block.Apart.symm).mp rep.blocks_apart
  exact (List.pairwise_cons.mp pairs).1

theorem live_apart_free (rep : Rep base h L) (live : L.live.Perm (b :: keep)) (l : Fin 5) :
    ∀ c ∈ L.free l, b.Apart c := fun c mem =>
  rep.live_apart live c (List.mem_append_right _ (Layout.mem_freeBlocks.mpr ⟨l, mem⟩))

theorem live_mem (live : L.live.Perm (b :: keep)) : b ∈ L.live :=
  live.mem_iff.mpr List.mem_cons_self

theorem hdr_ne_zero (rep : Rep base h L) (mem : b ∈ L.blocks) : b.hdr ≠ 0 := by
  have inside := (rep.bounds mem).1
  have pos := rep.base_pos
  omega

theorem stop_small (rep : Rep base h L) (mem : b ∈ L.blocks) : b.stop < 4294967296 :=
  Nat.lt_of_le_of_lt (rep.bounds mem).2 rep.end_small

/-- The header of a payload pointer. -/
theorem header_of_ptr (rep : Rep base h L) (mem : b ∈ L.blocks) :
    u32 (b.hdr + sizeofHeader + 4294967296 - sizeofHeader) = b.hdr := by
  have small := rep.stop_small mem
  unfold Block.stop at small
  unfold u32 sizeofHeader at *
  omega

/-- Blocks that take no part in an edit of headers keep their bytes. -/
theorem frame_of_headers {hs : List Block} {mem mem' : ByteMem} {c : Block}
    (frame : HeaderFrame (hs.map Block.hdr) mem mem') (apart : ∀ d ∈ hs, d.Apart c) :
    ∀ x, c.hdr ≤ x → x < c.stop → mem' x = mem x := by
  intro x low high
  apply frame x
  intro a inHs inside
  obtain ⟨d, memD, rfl⟩ := List.mem_map.mp inHs
  have off := apart d memD
  unfold Block.Apart Block.stop sizeofHeader at *
  omega

theorem frame_outside (hs : List Block) {mem mem' : ByteMem}
    (frame : HeaderFrame (hs.map Block.hdr) mem mem') (x : Nat)
    (off : ∀ d ∈ hs, ¬ (d.hdr ≤ x ∧ x < d.stop)) : mem' x = mem x := by
  apply frame x
  intro a inHs inside
  obtain ⟨d, memD, rfl⟩ := List.mem_map.mp inHs
  have out := off d memD
  unfold Block.stop sizeofHeader at out
  omega

/-- Pushing a live block on a list below 4. -/
theorem push (rep : Rep base h L) (live : L.live.Perm (b :: keep)) {l : Fin 5} (quick : l < 4) :
    Rep base (h.push l b.hdr) (L.edit keep l (b :: L.free l) L.slack L.lost) := by
  have mem := live_mem_blocks (live_mem live)
  have okB := rep.headers b mem
  obtain ⟨pushed, frame⟩ := Heap.push_spec (rep.freeList l) okB.size_eq (rep.stop_small mem)
    (rep.hdr_ne_zero mem) (rep.live_apart_free live l)
  refine rep.surgery [b] [] live (List.Perm.refl _) (L.edit_free_self _ _ _ _ _)
    (fun k ne => L.edit_free_ne _ _ _ _ ne) (fun k ne => Function.update_of_ne ne _ _) rfl
    (fun rest tiles => tiles) ?_ ?_ pushed.chain ?_
  · intro x off
    exact frame_outside [b] (by simpa using frame) x fun d inD =>
      off d (by simp only [List.mem_append]; exact Or.inl inD)
  · intro c inNew
    have was : c.Ok h.mem := by
      rcases List.mem_cons.mp (by simpa using inNew) with same | old
      · rw [same]
        exact okB
      · exact rep.headers c (free_mem_blocks old)
    exact { was with size_eq := pushed.sizes c (by simpa using inNew) }
  · have ne : (4 : Fin 5) ≠ l := fun same => by
      rw [← same] at quick
      exact absurd quick (by decide)
    rw [L.edit_free_ne _ _ _ _ ne]
    exact rep.noNeighbours

theorem kfree_quick (rep : Rep base h L) (live : L.live.Perm (b :: keep)) (quick : b.size ≤ 64) :
    h.kfree (b.hdr + sizeofHeader) = some (h.push (quickList b.size) b.hdr) := by
  have mem := live_mem_blocks (live_mem live)
  unfold Heap.kfree
  rw [if_neg (by unfold sizeofHeader; omega)]
  dsimp only
  rw [rep.header_of_ptr mem, (rep.headers b mem).size_eq,
    if_pos ((quickList_lt_iff b.size).mpr quick)]

/-- `kfree` of a large block, by the way its scan goes. -/
theorem kfree_large {fs lost : List Block} (rep : Rep base h L) (live : L.live.Perm (b :: keep))
    (large : 64 < b.size) (co : Coalesce b (L.free 4) fs lost) :
    ∃ h', h.kfree (b.hdr + sizeofHeader) = some h' ∧
      Rep base h' (L.edit keep 4 fs L.slack (lost.map Block.extent ++ L.lost)) ∧
      Heap.Edit h h' ((b :: L.free 4).map Block.hdr) := by
  have mem := live_mem_blocks (live_mem live)
  have okB := rep.headers b mem
  have list := rep.freeList 4
  have apartB := rep.live_apart_free live 4
  obtain ⟨outcome, n, short, ends, done, edit⟩ := Heap.mergeScan_spec co
    ⟨list, okB.size_eq, rep.stop_small mem, rep.hdr_ne_zero mem, apartB, rep.noNeighbours⟩
  refine ⟨Heap.finish outcome, ?_, ?_, edit⟩
  · have length := list.length_le
    have enough : n ≤ loopFuel := by
      refine Nat.le_trans short (Nat.le_trans (Nat.mul_le_mul (Nat.succ_le_succ length)
        (Nat.succ_le_succ length)) ?_)
      decide
    have scan := ends (loopFuel - n)
    rw [Nat.sub_add_cancel enough] at scan
    unfold Heap.kfree
    rw [if_neg (by unfold sizeofHeader; omega)]
    dsimp only
    rw [rep.header_of_ptr mem, okB.size_eq,
      if_neg (fun quick => by have := (quickList_lt_iff b.size).mp quick; omega), scan]
    rfl
  · refine rep.surgery [b] [] live (List.Perm.refl _)
      (L.edit_free_self _ _ _ _ _) (fun k ne => L.edit_free_ne _ _ _ _ ne) edit.heads edit.heapEnd
      ?_ ?_ ?_ done.chain ?_
    · intro rest tiles
      refine (co.retile _ tiles).perm (List.perm_iff_count.mpr fun e => ?_)
      simp only [Layout.edit, List.map_append, List.count_append, List.nil_append]
      omega
    · intro x off
      exact frame_outside (b :: L.free 4) edit.frame x fun d inD => off d (by simpa using inD)
    · intro c inNew
      have inFs : c ∈ fs := by simpa using inNew
      have aligned := co.closed (P := fun c => c.hdr % 4 = 0 ∧ c.size % 4 = 0 ∧ 0 < c.size)
        (fun d inOld => by
          have okD : d.Ok h.mem := by
            rcases List.mem_cons.mp inOld with same | old
            · rw [same]
              exact okB
            · exact rep.headers d (free_mem_blocks old)
          exact ⟨okD.hdr_aligned, okD.size_aligned, okD.size_pos⟩)
        (fun low high hl hh => by
          unfold Block.join sizeofHeader
          dsimp only
          omega) c inFs
      exact ⟨done.sizes c inFs, aligned.1, aligned.2.1, aligned.2.2⟩
    · rw [L.edit_free_self]
      exact co.noNeighbours (List.pairwise_cons.mpr ⟨apartB, list.apart⟩) rep.noNeighbours

end Rep

end TrollOS.Mem
