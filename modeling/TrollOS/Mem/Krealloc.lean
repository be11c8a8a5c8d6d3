import TrollOS.Mem.Kmalloc

/-!
# `kfree` and `krealloc` on live blocks

Freeing takes one block out of the live set and keeps the bytes of the others.
`krealloc` allocates, copies and frees; the copy only writes the payload of the
new block.
-/

namespace TrollOS.Mem

open TrollOS.Lib

/-- Copying between two ranges that do not overlap. -/
theorem memcpy_eq_copy {dest src n : Nat} (mem : ByteMem)
    (apart : dest + n ≤ src ∨ src + n ≤ dest) : memcpy mem dest src n = mem.copy dest mem src n := by
  induction n generalizing mem with
  | zero =>
      funext x
      exact (mem.copy_off mem (by omega)).symm
  | succ n ih =>
      funext x
      have last : memcpy mem dest src (n + 1) =
          memcpy (Function.update mem (dest + n) (mem (src + n))) dest src n := rfl
      rw [last, ih _ (by omega)]
      by_cases inside : dest ≤ x ∧ x < dest + n
      · obtain ⟨i, rfl⟩ := Nat.exists_eq_add_of_le inside.1
        rw [ByteMem.copy_mem _ _ (by omega), ByteMem.copy_mem _ _ (by omega),
          Function.update_of_ne (by omega)]
      · rw [ByteMem.copy_off _ _ (by omega)]
        by_cases last : x = dest + n
        · rw [last, Function.update_self, ByteMem.copy_mem _ _ (by omega)]
        · rw [Function.update_of_ne last, ByteMem.copy_off _ _ (by omega)]

/-- `krealloc` up to its call of `kfree`. -/
def Heap.copyToNew {μ M : Type} [HeapMemory μ] (mmuAllocAt : M → Nat → Nat × M) (h : Heap μ M)
    (ptr size : Nat) : Option (Nat × Heap μ M) :=
  (h.kmalloc mmuAllocAt size).map fun (tmp, h) =>
    let header := u32 (ptr + 4294967296 - sizeofHeader)
    (tmp, { h with mem := memcpy h.mem tmp ptr (min (sizeOf h.mem header) size) })

theorem Heap.krealloc_eq {μ M : Type} [HeapMemory μ] (mmuAllocAt : M → Nat → Nat × M) (h : Heap μ M)
    {ptr size : Nat} (nonnull : ptr ≠ 0) (pos : size ≠ 0) :
    h.krealloc mmuAllocAt ptr size =
      (h.copyToNew mmuAllocAt ptr size).bind fun (tmp, h) =>
        (h.kfree ptr).map fun h => (tmp, h) := by
  unfold Heap.krealloc Heap.copyToNew
  rw [if_neg nonnull, if_neg pos]
  cases h.kmalloc mmuAllocAt size with
  | none => simp only [Option.bind_none, Option.map_none]
  | some result => simp only [Option.bind_some, Option.map_some]

/-- Both neighbours of `b` are on the list, the upper one ahead of the lower one. -/
def UpperFirst (b : Block) (bs : List Block) : Prop :=
  ∃ front mid back low up, low.stop = b.hdr ∧ b.stop = up.hdr ∧
    bs = front ++ up :: (mid ++ low :: back)

/-- Only the last order of the scan drops a block. -/
theorem Coalesce.lost_nil {b : Block} {bs fs lost : List Block} (co : Coalesce b bs fs lost)
    (order : ¬ UpperFirst b bs) : lost = [] := by
  cases co with
  | alone miss => rfl
  | lower meet miss => rfl
  | upper meet miss => rfl
  | lowerUpper meetLow meetUp => rfl
  | @upperLower front mid back low up meetLow meetUp =>
      exact absurd ⟨front, mid, back, low, up, meetLow, meetUp, rfl⟩ order

namespace Rep

variable {M : Type} {base : Nat} {h : Heap ByteMem M} {L : Layout} {b : Block} {keep : List Block}
  {size : Nat}

/-- Writing the payload of a live block leaves the representation alone. -/
theorem writePayload (rep : Rep base h L) (live : b ∈ L.live) {mem' : ByteMem}
    (frame : ∀ x, x < b.hdr + sizeofHeader ∨ b.stop ≤ x → mem' x = h.mem x) :
    Rep base { h with mem := mem' } L := by
  have words : ∀ c ∈ L.blocks,
      sizeOf mem' c.hdr = sizeOf h.mem c.hdr ∧ nextOf mem' c.hdr = nextOf h.mem c.hdr := by
    intro c mem
    have off : c.hdr + 8 ≤ b.hdr + sizeofHeader ∨ b.stop ≤ c.hdr := by
      by_cases same : c = b
      · rw [same]
        exact Or.inl (Nat.le_refl _)
      · rcases rep.blocks_apart.forall mem (live_mem_blocks live) same with below | above
        · unfold Block.stop at below
          unfold sizeofHeader at *
          omega
        · exact Or.inr above
    constructor
    · exact ByteMem.load32_congr fun x low high => frame x (by omega)
    · exact ByteMem.load32_congr fun x low high => frame x (by omega)
  constructor
  · exact rep.base_pos
  · exact rep.base_le
  · exact rep.end_small
  · exact rep.end_aligned
  · exact rep.tiles
  · intro c mem
    have was := rep.headers c mem
    exact { was with size_eq := (words c mem).1.trans was.size_eq }
  · intro l
    refine (rep.chains l).congr fun a mem => ?_
    obtain ⟨c, inList, rfl⟩ := List.mem_map.mp mem
    exact (words c (free_mem_blocks inList)).2.symm
  · exact rep.noNeighbours

/-- What freeing the live block `b` does. -/
structure Freed (base : Nat) (h : Heap ByteMem M) (L : Layout) (b : Block) (keep : List Block)
    (h' : Heap ByteMem M) (L' : Layout) : Prop where
  rep : Rep base h' L'
  live : L'.live = keep
  kept : Kept keep h h'
  heapEnd : h'.heapEnd = h.heapEnd
  slack : L'.slack = L.slack
  lost : b.size ≤ 64 ∨ ¬ UpperFirst b (L.free 4) → L'.lost = L.lost

/-- `kfree` of a live block returns. -/
theorem kfree (rep : Rep base h L) (live : L.live.Perm (b :: keep)) :
    ∃ h' L', h.kfree (b.hdr + sizeofHeader) = some h' ∧ Freed base h L b keep h' L' := by
  have apartB := rep.live_apart live
  have apartKeep : ∀ c ∈ keep, ∀ d ∈ b :: L.freeBlocks, d.Apart c := by
    have pairs := ((live.append_right L.freeBlocks).pairwise_iff
      fun {_ _} => Block.Apart.symm).mp rep.blocks_apart
    intro c inKeep d inD
    rcases List.mem_cons.mp inD with same | free
    · rw [same]
      exact apartB c (List.mem_append_left _ inKeep)
    · exact ((List.pairwise_append.mp (List.pairwise_cons.mp pairs).2).2.2 c inKeep d free).symm
  by_cases quick : b.size ≤ 64
  · refine ⟨_, _, rep.kfree_quick live quick,
      rep.push live ((quickList_lt_iff b.size).mpr quick), rfl, ?_, rfl, rfl, fun _ => rfl⟩
    intro c inKeep x low high
    have frame : HeaderFrame ([b].map Block.hdr) h.mem (h.push (quickList b.size) b.hdr).mem :=
      HeaderFrame.setNext h.mem _ (List.mem_singleton.mpr rfl)
    refine frame_of_headers frame (fun d inD => ?_) x low high
    rw [List.mem_singleton.mp inD]
    exact apartKeep c inKeep b List.mem_cons_self
  · obtain ⟨fs, lost, co⟩ := coalesce_exists b (L.free 4)
    obtain ⟨h', call, rep', edit⟩ := rep.kfree_large live (Nat.lt_of_not_le quick) co
    refine ⟨h', _, call, rep', rfl, ?_, edit.heapEnd, rfl, fun order => ?_⟩
    · intro c inKeep
      refine frame_of_headers edit.frame fun d inD => apartKeep c inKeep d ?_
      rcases List.mem_cons.mp inD with same | free
      · rw [same]
        exact List.mem_cons_self
      · exact List.mem_cons_of_mem _ (Layout.mem_freeBlocks.mpr ⟨4, free⟩)
    · rw [co.lost_nil (order.resolve_left quick)]
      rfl

/-- The first half of `krealloc`: the new block, with the payload copied. -/
structure Copied (base size : Nat) (h : Heap ByteMem M) (L : Layout) (b c : Block) (h' : Heap ByteMem M)
    (L' : Layout) : Prop where
  rep : Rep base h' L'
  live : L'.live = c :: L.live
  enough : size ≤ c.size
  kept : Kept L.live h h'
  slack : L'.slack = h.tails h' size ++ L.slack
  lost : L'.lost = L.lost
  copied : ∀ i, i < min b.size size →
    h'.mem (c.hdr + sizeofHeader + i) = h.mem (b.hdr + sizeofHeader + i)

theorem copy (mmuAllocAt : M → Nat → Nat × M) (rep : Rep base h L) (live : b ∈ L.live)
    (pos : 0 < size) (more : h.MoreFits size) :
    ∃ c h₁ h' L', h.kmalloc mmuAllocAt size = some (c.hdr + sizeofHeader, h₁) ∧ Rep base h₁ L' ∧
      h.copyToNew mmuAllocAt (b.hdr + sizeofHeader) size = some (c.hdr + sizeofHeader, h') ∧
        Copied base size h L b c h' L' := by
  obtain ⟨c, h₁, L₁, call, served⟩ := rep.kmalloc mmuAllocAt pos more
  have rep₁ := served.rep
  have inLive : b ∈ L₁.live := by
    rw [served.live]
    exact List.mem_cons_of_mem _ live
  have cLive : c ∈ L₁.live := by
    rw [served.live]
    exact List.mem_cons_self
  have apartC : ∀ d ∈ L.live, c.Apart d := fun d inD =>
    rep₁.live_apart (List.Perm.of_eq served.live) d (List.mem_append_left _ inD)
  have off := apartC b live
  have enough := served.enough
  have sized : sizeOf h₁.mem (u32 (b.hdr + sizeofHeader + 4294967296 - sizeofHeader)) = b.size := by
    rw [rep₁.header_of_ptr (live_mem_blocks inLive)]
    exact (rep₁.headers b (live_mem_blocks inLive)).size_eq
  have copyEq : memcpy h₁.mem (c.hdr + sizeofHeader) (b.hdr + sizeofHeader) (min b.size size) =
      h₁.mem.copy (c.hdr + sizeofHeader) h₁.mem (b.hdr + sizeofHeader) (min b.size size) := by
    apply memcpy_eq_copy
    unfold Block.Apart Block.stop at off
    omega
  let h₂ : Heap ByteMem M :=
    { h₁ with
      mem := h₁.mem.copy (c.hdr + sizeofHeader) h₁.mem (b.hdr + sizeofHeader) (min b.size size) }
  have frame : ∀ x, x < c.hdr + sizeofHeader ∨ c.stop ≤ x → h₂.mem x = h₁.mem x := by
    intro x out
    apply ByteMem.copy_off
    unfold Block.stop at out
    omega
  refine ⟨c, h₁, h₂, L₁, call, rep₁, ?_, rep₁.writePayload cLive frame, served.live, enough, ?_, served.slack,
    served.lost, ?_⟩
  · unfold Heap.copyToNew
    rw [call, Option.map_some]
    dsimp only
    rw [sized, copyEq]
  · intro d inD x low high
    refine (frame x ?_).trans (served.kept d inD x low high)
    rcases apartC d inD with below | above
    · exact Or.inr (Nat.le_trans below low)
    · exact Or.inl (by omega)
  · intro i inside
    refine (ByteMem.copy_mem _ _ inside).trans (served.kept b live _ ?_ ?_)
    · omega
    · unfold Block.stop
      omega

/-- `krealloc` of a live block to a positive size: the copy, then `kfree`. -/
theorem krealloc (mmuAllocAt : M → Nat → Nat × M) (rep : Rep base h L)
    (live : L.live.Perm (b :: keep)) (pos : 0 < size) (more : h.MoreFits size) :
    ∃ c h₁ L₁ h' L', h.copyToNew mmuAllocAt (b.hdr + sizeofHeader) size =
        some (c.hdr + sizeofHeader, h₁) ∧
      Copied base size h L b c h₁ L₁ ∧ Freed base h₁ L₁ b (c :: keep) h' L' ∧
      h.krealloc mmuAllocAt (b.hdr + sizeofHeader) size = some (c.hdr + sizeofHeader, h') := by
  obtain ⟨c, -, h₁, L₁, -, -, call, copied⟩ := rep.copy mmuAllocAt (live_mem live) pos more
  have live₁ : L₁.live.Perm (b :: (c :: keep)) := by
    rw [copied.live]
    exact (List.Perm.cons c live).trans (List.Perm.swap b c keep)
  obtain ⟨h', L', free, freed⟩ := copied.rep.kfree live₁
  refine ⟨c, h₁, L₁, h', L', call, copied, freed, ?_⟩
  rw [Heap.krealloc_eq mmuAllocAt h (by unfold sizeofHeader; omega) (Nat.ne_of_gt pos), call,
    Option.bind_some]
  dsimp only
  rw [free, Option.map_some]

end Rep

end TrollOS.Mem
