import Mathlib.Tactic.Linarith
import TrollOS.Mem.FreeList

/-!
# The coalescing scan

`kfree` walks the unordered list once and merges the freed block with the
neighbours it meets.  The five ways this can go are the constructors of
`Coalesce`.  In the last one the upper neighbour stands before the lower one:
the freed block has already taken the upper neighbour's place when the lower
one is taken off the list, and nothing puts that one back.
-/

namespace TrollOS.Mem

open TrollOS.Lib

def Block.join (low high : Block) : Block := ⟨low.hdr, low.size + sizeofHeader + high.size⟩

theorem Block.join_stop {low high : Block} (meet : low.stop = high.hdr) :
    (low.join high).stop = high.stop := by
  unfold Block.join Block.stop at *
  dsimp only
  omega

/-- `Coalesce b bs fs lost`: freeing `b` turns the list `bs` into `fs`, and the
blocks of `lost` end up on no list. -/
inductive Coalesce (b : Block) : List Block → List Block → List Block → Prop where
  | alone {bs : List Block} (miss : ∀ c ∈ bs, c.stop ≠ b.hdr ∧ b.stop ≠ c.hdr) :
      Coalesce b bs (b :: bs) []
  | lower {front back : List Block} {low : Block} (meet : low.stop = b.hdr)
      (miss : ∀ c ∈ front ++ back, b.stop ≠ c.hdr) :
      Coalesce b (front ++ low :: back) (low.join b :: (front ++ back)) []
  | upper {front back : List Block} {up : Block} (meet : b.stop = up.hdr)
      (miss : ∀ c ∈ front ++ back, c.stop ≠ b.hdr) :
      Coalesce b (front ++ up :: back) (front ++ b.join up :: back) []
  | lowerUpper {front mid back : List Block} {low up : Block} (meetLow : low.stop = b.hdr)
      (meetUp : b.stop = up.hdr) :
      Coalesce b (front ++ low :: (mid ++ up :: back))
        ((front ++ mid) ++ (low.join b).join up :: back) []
  | upperLower {front mid back : List Block} {low up : Block} (meetLow : low.stop = b.hdr)
      (meetUp : b.stop = up.hdr) :
      Coalesce b (front ++ up :: (mid ++ low :: back)) (front ++ b.join up :: (mid ++ back)) [low]

/-- One of the five cases always applies. -/
theorem coalesce_exists (b : Block) (bs : List Block) :
    ∃ fs lost, Coalesce b bs fs lost := by
  by_cases hasLow : ∃ low ∈ bs, low.stop = b.hdr
  · obtain ⟨low, memLow, meetLow⟩ := hasLow
    obtain ⟨front, back, rfl⟩ := List.append_of_mem memLow
    by_cases hasUp : ∃ up ∈ front ++ back, b.stop = up.hdr
    · obtain ⟨up, memUp, meetUp⟩ := hasUp
      rcases List.mem_append.mp memUp with before | after
      · obtain ⟨left, mid, rfl⟩ := List.append_of_mem before
        have shape : (left ++ up :: mid) ++ low :: back = left ++ up :: (mid ++ low :: back) := by
          simp
        rw [shape]
        exact ⟨_, _, .upperLower meetLow meetUp⟩
      · obtain ⟨mid, right, rfl⟩ := List.append_of_mem after
        exact ⟨_, _, .lowerUpper meetLow meetUp⟩
    · exact ⟨_, _, .lower meetLow fun c mem meet => hasUp ⟨c, mem, meet⟩⟩
  · by_cases hasUp : ∃ up ∈ bs, b.stop = up.hdr
    · obtain ⟨up, memUp, meetUp⟩ := hasUp
      obtain ⟨front, back, rfl⟩ := List.append_of_mem memUp
      refine ⟨_, _, .upper meetUp fun c mem meet => hasLow ⟨c, ?_, meet⟩⟩
      exact List.perm_middle.mem_iff.mpr (List.mem_cons_of_mem _ mem)
    · exact ⟨_, _, .alone fun c mem =>
        ⟨fun meet => hasLow ⟨c, mem, meet⟩, fun meet => hasUp ⟨c, mem, meet⟩⟩⟩

namespace Coalesce

variable {b : Block} {bs fs lost : List Block}

/-- A property of all blocks taking part that merging keeps holds of the result. -/
theorem closed {P : Block → Prop} (co : Coalesce b bs fs lost) (all : ∀ c ∈ b :: bs, P c)
    (join : ∀ low high, P low → P high → P (low.join high)) : ∀ c ∈ fs, P c := by
  have pb : P b := all b List.mem_cons_self
  cases co with
  | alone miss => exact all
  | @lower front back low meet miss =>
      intro c mem
      rcases List.mem_cons.mp mem with same | rest
      · rw [same]
        exact join low b (all low (by simp)) pb
      · exact all c (by
          simp only [List.mem_append, List.mem_cons] at rest ⊢
          tauto)
  | @upper front back up meet miss =>
      intro c mem
      rcases List.mem_cons.mp (List.perm_middle.mem_iff.mp mem) with same | rest
      · rw [same]
        exact join b up pb (all up (by simp))
      · exact all c (by
          simp only [List.mem_append, List.mem_cons] at rest ⊢
          tauto)
  | @lowerUpper front mid back low up meetLow meetUp =>
      intro c mem
      rcases List.mem_cons.mp (List.perm_middle.mem_iff.mp mem) with same | rest
      · rw [same]
        exact join _ up (join low b (all low (by simp)) pb) (all up (by simp))
      · exact all c (by
          simp only [List.mem_append, List.mem_cons] at rest ⊢
          tauto)
  | @upperLower front mid back low up meetLow meetUp =>
      intro c mem
      rcases List.mem_cons.mp (List.perm_middle.mem_iff.mp mem) with same | rest
      · rw [same]
        exact join b up pb (all up (by simp))
      · exact all c (by
          simp only [List.mem_append, List.mem_cons] at rest ⊢
          tauto)

/-- Two neighbouring extents become one. -/
theorem glue {lo hi : Nat} {low high : Block} {rest : List Extent} (meet : low.stop = high.hdr)
    (tiles : Partition lo hi (low.extent :: high.extent :: rest)) :
    Partition lo hi ((low.join high).extent :: rest) := by
  have start : high.hdr = low.hdr + (low.size + sizeofHeader) := by
    unfold Block.stop at meet
    omega
  have size : (low.join high).size + sizeofHeader =
      (low.size + sizeofHeader) + (high.size + sizeofHeader) := by
    unfold Block.join
    dsimp only
    omega
  unfold Block.extent at tiles ⊢
  rw [size]
  rw [start] at tiles
  exact tiles.merge

/-- The blocks taking part are tiled anew. -/
theorem retile {lo hi : Nat} (co : Coalesce b bs fs lost) (rest : List Extent)
    (tiles : Partition lo hi ((b :: bs).map Block.extent ++ rest)) :
    Partition lo hi ((fs ++ lost).map Block.extent ++ rest) := by
  have reorder : ∀ {xs ys : List Extent}, (∀ e, xs.count e = ys.count e) → xs.Perm ys :=
    fun same => List.perm_iff_count.mpr same
  cases co with
  | alone miss => simpa using tiles
  | @lower front back low meet miss =>
      have moved : Partition lo hi (low.extent :: b.extent ::
          ((front ++ back).map Block.extent ++ rest)) :=
        tiles.perm (reorder fun e => by
          simp only [List.map_append, List.map_cons, List.count_append, List.count_cons]
          omega)
      simpa using glue meet moved
  | @upper front back up meet miss =>
      have moved : Partition lo hi (b.extent :: up.extent ::
          ((front ++ back).map Block.extent ++ rest)) :=
        tiles.perm (reorder fun e => by
          simp only [List.map_append, List.map_cons, List.count_append, List.count_cons]
          omega)
      exact (glue meet moved).perm (reorder fun e => by
        simp only [List.map_append, List.map_cons, List.count_append, List.count_cons,
          List.map_nil, List.count_nil]
        omega)
  | @lowerUpper front mid back low up meetLow meetUp =>
      have moved : Partition lo hi (low.extent :: b.extent :: up.extent ::
          ((front ++ mid ++ back).map Block.extent ++ rest)) :=
        tiles.perm (reorder fun e => by
          simp only [List.map_append, List.map_cons, List.count_append, List.count_cons]
          omega)
      have joined := glue ((Block.join_stop meetLow).trans meetUp) (glue meetLow moved)
      exact joined.perm (reorder fun e => by
        simp only [List.map_append, List.map_cons, List.count_append, List.count_cons,
          List.map_nil, List.count_nil]
        omega)
  | @upperLower front mid back low up meetLow meetUp =>
      have moved : Partition lo hi (b.extent :: up.extent ::
          ((front ++ mid ++ low :: back).map Block.extent ++ rest)) :=
        tiles.perm (reorder fun e => by
          simp only [List.map_append, List.map_cons, List.count_append, List.count_cons]
          omega)
      exact (glue meetUp moved).perm (reorder fun e => by
        simp only [List.map_append, List.map_cons, List.count_append, List.count_cons,
          List.map_nil, List.count_nil]
        omega)

/-- What the list looks like afterwards: one block made from `b`, which has no
neighbour among the others, and others that were there before. -/
theorem shape (co : Coalesce b bs fs lost) (apart : (b :: bs).Pairwise Block.Apart)
    (noNeighbours : ∀ c ∈ bs, ∀ d ∈ bs, c.stop ≠ d.hdr) :
    ∃ x rest, fs.Perm (x :: rest) ∧ (∀ c ∈ rest, c ∈ bs) ∧
      ∀ c ∈ rest, c.stop ≠ x.hdr ∧ x.stop ≠ c.hdr := by
  obtain ⟨fromB, inBs⟩ := List.pairwise_cons.mp apart
  -- Two blocks of the list that end together would overlap.
  have oneLow : ∀ front low back, bs = front ++ low :: back → low.stop = b.hdr →
      ∀ c ∈ front ++ back, c.stop ≠ b.hdr := by
    rintro front low back rfl meet c mem same
    have moved := (List.perm_middle.pairwise_iff fun {_ _} => Block.Apart.symm).mp inBs
    have off := (List.pairwise_cons.mp moved).1 c mem
    unfold Block.Apart Block.stop sizeofHeader at *
    omega
  cases co with
  | alone miss => exact ⟨b, bs, List.Perm.refl _, fun c mem => mem, miss⟩
  | @lower front back low meet miss =>
      refine ⟨low.join b, front ++ back, List.Perm.refl _, fun c mem => ?_, fun c mem => ?_⟩
      · exact List.perm_middle.mem_iff.mpr (List.mem_cons_of_mem _ mem)
      · rw [Block.join_stop meet]
        refine ⟨noNeighbours c ?_ low (by simp), miss c mem⟩
        exact List.perm_middle.mem_iff.mpr (List.mem_cons_of_mem _ mem)
  | @upper front back up meet miss =>
      refine ⟨b.join up, front ++ back, List.perm_middle, fun c mem => ?_, fun c mem => ?_⟩
      · exact List.perm_middle.mem_iff.mpr (List.mem_cons_of_mem _ mem)
      · rw [Block.join_stop meet]
        refine ⟨miss c mem, noNeighbours up (by simp) c ?_⟩
        exact List.perm_middle.mem_iff.mpr (List.mem_cons_of_mem _ mem)
  | @lowerUpper front mid back low up meetLow meetUp =>
      have sub : ∀ c ∈ (front ++ mid) ++ back, c ∈ front ++ low :: (mid ++ up :: back) := by
        intro c mem
        simp only [List.mem_append, List.mem_cons] at mem ⊢
        tauto
      refine ⟨(low.join b).join up, (front ++ mid) ++ back, List.perm_middle, sub, fun c mem => ?_⟩
      rw [Block.join_stop ((Block.join_stop meetLow).trans meetUp)]
      exact ⟨noNeighbours c (sub c mem) low (by simp), noNeighbours up (by simp) c (sub c mem)⟩
  | @upperLower front mid back low up meetLow meetUp =>
      have sub : ∀ c ∈ front ++ (mid ++ back), c ∈ front ++ up :: (mid ++ low :: back) := by
        intro c mem
        simp only [List.mem_append, List.mem_cons] at mem ⊢
        tauto
      refine ⟨b.join up, front ++ (mid ++ back), List.perm_middle, sub, fun c mem => ?_⟩
      rw [Block.join_stop meetUp]
      refine ⟨oneLow (front ++ up :: mid) low back (by simp) meetLow c ?_,
        noNeighbours up (by simp) c (sub c mem)⟩
      simp only [List.mem_append, List.mem_cons] at mem ⊢
      tauto

theorem noNeighbours (co : Coalesce b bs fs lost) (apart : (b :: bs).Pairwise Block.Apart)
    (old : ∀ c ∈ bs, ∀ d ∈ bs, c.stop ≠ d.hdr) : ∀ c ∈ fs, ∀ d ∈ fs, c.stop ≠ d.hdr := by
  obtain ⟨x, rest, perm, sub, miss⟩ := co.shape apart old
  intro c hc d hd
  rcases List.mem_cons.mp (perm.mem_iff.mp hc) with rfl | hc
  · rcases List.mem_cons.mp (perm.mem_iff.mp hd) with rfl | hd
    · unfold Block.stop sizeofHeader
      omega
    · exact (miss d hd).2
  · rcases List.mem_cons.mp (perm.mem_iff.mp hd) with rfl | hd
    · exact (miss c hc).1
    · exact old c (sub c hc) d (sub d hd)

end Coalesce

namespace Heap

variable {M : Type} {h : Heap ByteMem M} {front mid back : List Block} {b : Block} {merged : Bool}

/-- The scan passes over blocks that are no neighbours of the freed block. -/
theorem mergeScan_skip (list : FreeList h 4 (front ++ (mid ++ back)))
    (size : sizeOf h.mem b.hdr = b.size) (small : b.stop < 4294967296)
    (miss : ∀ c ∈ mid, c.stop ≠ b.hdr ∧ b.stop ≠ c.hdr) (fuel : Nat) :
    mergeScan (fuel + mid.length) h (linkAfter 4 front) b.hdr merged =
      mergeScan fuel h (linkAfter 4 (front ++ mid)) b.hdr merged := by
  induction mid generalizing front with
  | nil => simp
  | cons c rest ih =>
      have here : h.deref (linkAfter 4 front) = c.hdr := list.deref_cons
      have inList : c ∈ front ++ (c :: rest ++ back) := by simp
      have nonzero := list.hdr_ne_zero inList
      have sizeC := list.sizes c inList
      have smallC := list.small c inList
      obtain ⟨missLow, missUp⟩ := miss c List.mem_cons_self
      unfold Block.stop sizeofHeader at missLow missUp small smallC
      have notLow : u32 (c.hdr + sizeOf h.mem c.hdr + sizeofHeader) ≠ b.hdr := by
        rw [sizeC, u32_eq (by unfold sizeofHeader; omega)]
        unfold sizeofHeader
        omega
      have notUp : u32 (b.hdr + sizeofHeader + sizeOf h.mem b.hdr) ≠ c.hdr := by
        rw [size, u32_eq (by unfold sizeofHeader; omega)]
        unfold sizeofHeader
        omega
      have moved : FreeList h 4 ((front ++ [c]) ++ (rest ++ back)) := by
        simpa using list
      have step := ih moved fun d mem => miss d (List.mem_cons_of_mem _ mem)
      rw [linkAfter_snoc, List.append_assoc, List.singleton_append] at step
      rw [List.length_cons, ← Nat.add_assoc, mergeScan]
      dsimp only
      rw [here, if_neg nonzero, if_neg notLow, if_neg notUp]
      exact step

theorem mergeScan_done (list : FreeList h 4 front) (header : Nat) (fuel : Nat) :
    mergeScan (fuel + 1) h (linkAfter 4 front) header merged = some (h, header, merged) := by
  rw [mergeScan]
  dsimp only
  rw [list.deref_end, if_pos rfl]

/-- Scanning the rest of the list without meeting a neighbour. -/
theorem mergeScan_rest (list : FreeList h 4 (front ++ back))
    (size : sizeOf h.mem b.hdr = b.size) (small : b.stop < 4294967296)
    (miss : ∀ c ∈ back, c.stop ≠ b.hdr ∧ b.stop ≠ c.hdr) (fuel : Nat) :
    mergeScan (fuel + 1 + back.length) h (linkAfter 4 front) b.hdr merged =
      some (h, b.hdr, merged) := by
  have padded : FreeList h 4 (front ++ (back ++ [])) := by
    rwa [List.append_nil]
  rw [mergeScan_skip padded size small miss]
  exact mergeScan_done list b.hdr fuel

/-- What the two merges leave alone besides the headers they write. -/
structure Edit (h h' : Heap ByteMem M) (hs : List Nat) : Prop where
  frame : HeaderFrame hs h.mem h'.mem
  heads : ∀ k, k ≠ 4 → h'.freelist k = h.freelist k
  heapEnd : h'.heapEnd = h.heapEnd
  mmu : h'.mmu = h.mmu
  mapped : h'.mapped = h.mapped

theorem Edit.trans {h₁ h₂ h₃ : Heap ByteMem M} {hs : List Nat} (first : Edit h₁ h₂ hs)
    (second : Edit h₂ h₃ hs) : Edit h₁ h₃ hs :=
  ⟨first.frame.trans second.frame, fun k ne => (second.heads k ne).trans (first.heads k ne),
    second.heapEnd.trans first.heapEnd, second.mmu.trans first.mmu,
    second.mapped.trans first.mapped⟩

theorem Edit.mono {h₁ h₂ : Heap ByteMem M} {hs hs' : List Nat} (sub : ∀ a ∈ hs, a ∈ hs')
    (edit : Edit h₁ h₂ hs) : Edit h₁ h₂ hs' := { edit with frame := edit.frame.mono sub }

/-- The merge with a lower neighbour: it grows and leaves the list. -/
theorem mergeScan_lower {low : Block} (list : FreeList h 4 (front ++ low :: back))
    (size : sizeOf h.mem b.hdr = b.size) (small : b.stop < 4294967296)
    (meet : low.stop = b.hdr) :
    ∃ h', FreeList h' 4 (front ++ back) ∧ sizeOf h'.mem low.hdr = (low.join b).size ∧
      Edit h h' (low.hdr :: front.map Block.hdr) ∧
      ∀ fuel, mergeScan (fuel + 1) h (linkAfter 4 front) b.hdr merged =
        mergeScan fuel h' (.root 4) low.hdr merged := by
  have here := list.deref_cons
  have inList : low ∈ front ++ low :: back := by simp
  have nonzero := list.hdr_ne_zero inList
  have sizeLow := list.sizes low inList
  have smallLow := list.small low inList
  have chain := list.chain
  have apartLow : ∀ c ∈ front ++ back, HeadersApart low.hdr c.hdr :=
    fun c mem => (list.middle_apart mem).headers
  unfold Block.stop sizeofHeader at meet small smallLow
  have isLow : u32 (low.hdr + sizeOf h.mem low.hdr + sizeofHeader) = b.hdr := by
    rw [sizeLow, u32_eq (by unfold sizeofHeader; omega)]
    unfold sizeofHeader
    omega
  have total : u32 (sizeOf h.mem low.hdr + sizeofHeader + sizeOf h.mem b.hdr) =
      (low.join b).size := by
    rw [sizeLow, size, u32_eq (by unfold sizeofHeader; omega)]
    rfl
  have totalSmall : (low.join b).size < 4294967296 := by
    rw [← total]
    exact u32_lt _
  let grown : Heap ByteMem M := { h with mem := setSize h.mem low.hdr (low.join b).size }
  have nextKept : ∀ c ∈ front ++ low :: back, nextOf grown.mem c.hdr = nextOf h.mem c.hdr := by
    intro c mem
    rcases List.mem_cons.mp (List.perm_middle.mem_iff.mp mem) with same | other
    · rw [same]
      exact nextOf_setSize h.mem low.hdr _
    · exact nextOf_setSize_off _ (apartLow c other)
  have sizeKept : ∀ c ∈ front ++ back, sizeOf grown.mem c.hdr = sizeOf h.mem c.hdr :=
    fun c mem => sizeOf_setSize_off _ (apartLow c mem)
  have tail : Chain (nextOf grown.mem) (nextOf grown.mem low.hdr) (back.map Block.hdr) := by
    rw [nextKept low inList]
    have behind := list.chain
    rw [List.map_append, List.map_cons] at behind
    refine behind.drop_prefix.2.2.congr fun a mem => ?_
    obtain ⟨c, inC, rfl⟩ := List.mem_map.mp mem
    exact (nextKept c (by simp [inC])).symm
  have shorter : FreeList (grown.assign (linkAfter 4 front) (nextOf grown.mem low.hdr)) 4 (front ++ ([] ++ back)) :=
    assign_replace list rfl nextKept sizeKept (fun y mem => absurd mem List.not_mem_nil) List.Pairwise.nil
      (fun y mem => absurd mem List.not_mem_nil) tail (nextOf_lt _ _)
  refine ⟨_, shorter, ?_, ?_, ?_⟩
  · rw [assign_sizeOf]
    · exact sizeOf_setSize h.mem low.hdr _ totalSmall
    · exact fun d inFront => Or.inr (apartLow d (by simp [inFront])).symm
  · refine ⟨?_, ?_, assign_heapEnd _ _ _, assign_mmu _ _ _, assign_mapped _ _ _⟩
    · refine (HeaderFrame.setSize h.mem (low.join b).size List.mem_cons_self).trans ?_
      exact (assign_frame grown 4 front _).mono fun a mem => List.mem_cons_of_mem _ mem
    · exact fun k ne => assign_other grown front _ ne
  · intro fuel
    rw [mergeScan]
    dsimp only
    rw [here, if_neg nonzero, if_pos isLow, total]

/-- The merge with an upper neighbour: the freed block takes its place. -/
theorem mergeScan_upper {up : Block} (list : FreeList h 4 (front ++ up :: back))
    (size : sizeOf h.mem b.hdr = b.size) (small : b.stop < 4294967296) (nonzeroB : b.hdr ≠ 0)
    (apart : ∀ c ∈ front ++ up :: back, b.Apart c) (meet : b.stop = up.hdr) :
    ∃ h', FreeList h' 4 (front ++ b.join up :: back) ∧ Edit h h' (b.hdr :: front.map Block.hdr) ∧
      ∀ fuel, mergeScan (fuel + 1) h (linkAfter 4 front) b.hdr merged =
        mergeScan fuel h' (linkAfter 4 (front ++ [b.join up])) b.hdr true := by
  have here := list.deref_cons
  have inList : up ∈ front ++ up :: back := by simp
  have nonzero := list.hdr_ne_zero inList
  have sizeUp := list.sizes up inList
  have smallUp := list.small up inList
  have chain := list.chain
  have joinStop := Block.join_stop meet
  have apartB : ∀ c ∈ front ++ up :: back, HeadersApart b.hdr c.hdr :=
    fun c mem => (apart c mem).headers
  have sub : (front ++ back).Sublist (front ++ up :: back) :=
    List.Sublist.append_left (List.sublist_cons_self up back) front
  have joinApart : ∀ c ∈ front ++ back, (b.join up).Apart c := by
    intro c mem
    have fromB := apart c (sub.subset mem)
    have fromUp := list.middle_apart mem
    unfold Block.Apart at *
    rw [joinStop]
    unfold Block.stop sizeofHeader at *
    unfold Block.join
    dsimp only
    omega
  unfold Block.stop sizeofHeader at meet small smallUp
  have notLow : u32 (up.hdr + sizeOf h.mem up.hdr + sizeofHeader) ≠ b.hdr := by
    rw [sizeUp, u32_eq (by unfold sizeofHeader; omega)]
    unfold sizeofHeader
    omega
  have isUp : u32 (b.hdr + sizeofHeader + sizeOf h.mem b.hdr) = up.hdr := by
    rw [size, u32_eq (by unfold sizeofHeader; omega)]
    unfold sizeofHeader
    omega
  have total : u32 (sizeOf h.mem b.hdr + sizeofHeader + sizeOf h.mem up.hdr) =
      (b.join up).size := by
    rw [sizeUp, size, u32_eq (by unfold sizeofHeader; omega)]
    rfl
  have totalSmall : (b.join up).size < 4294967296 := by
    rw [← total]
    exact u32_lt _
  let sized := setSize h.mem b.hdr (b.join up).size
  let linked := setNext sized b.hdr (nextOf sized up.hdr)
  let grown : Heap ByteMem M := { h with mem := linked }
  have frame : HeaderFrame [b.hdr] h.mem linked :=
    (HeaderFrame.setSize h.mem (b.join up).size (by simp)).trans
      (HeaderFrame.setNext sized (nextOf sized up.hdr) (by simp))
  have nextKept : ∀ c ∈ front ++ up :: back, nextOf linked c.hdr = nextOf h.mem c.hdr :=
    fun c mem => frame.nextOf_eq (by simpa using apartB c mem)
  have sizeKept : ∀ c ∈ front ++ up :: back, sizeOf linked c.hdr = sizeOf h.mem c.hdr :=
    fun c mem => frame.sizeOf_eq (by simpa using apartB c mem)
  have upNext : nextOf sized up.hdr = nextOf linked up.hdr := by
    rw [nextKept up inList]
    exact nextOf_setSize_off _ (apartB up inList)
  have tail : Chain (nextOf grown.mem) b.hdr (([b.join up] ++ back).map Block.hdr) := by
    refine ⟨rfl, nonzeroB, ?_⟩
    have linkedNext : nextOf linked b.hdr = nextOf h.mem up.hdr := by
      rw [← nextKept up inList, ← upNext]
      exact nextOf_setNext sized b.hdr _ (nextOf_lt _ _)
    rw [List.map_append, List.map_cons] at chain
    change Chain (nextOf linked) (nextOf linked b.hdr) (back.map Block.hdr)
    rw [linkedNext]
    refine chain.drop_prefix.2.2.congr fun a mem => ?_
    obtain ⟨c, inC, rfl⟩ := List.mem_map.mp mem
    exact (nextKept c (by simp [inC])).symm
  have sizeJoin : sizeOf linked b.hdr = (b.join up).size :=
    (sizeOf_setNext sized b.hdr _).trans (sizeOf_setSize h.mem b.hdr _ totalSmall)
  have joined : FreeList (grown.assign (linkAfter 4 front) b.hdr) 4 (front ++ ([b.join up] ++ back)) := by
    refine assign_replace list rfl nextKept (fun c mem => sizeKept c (sub.subset mem)) (fun y mem => ?_)
      (List.pairwise_singleton _ _) (fun y mem => ?_) tail (by omega)
    · rw [List.mem_singleton.mp mem, joinStop]
      exact ⟨sizeJoin, list.small up inList⟩
    · rw [List.mem_singleton.mp mem]
      exact joinApart
  refine ⟨_, joined, ?_, ?_⟩
  · refine ⟨?_, ?_, assign_heapEnd _ _ _, assign_mmu _ _ _, assign_mapped _ _ _⟩
    · refine (frame.mono (by simp)).trans ?_
      exact (assign_frame grown 4 front b.hdr).mono fun a mem => List.mem_cons_of_mem _ mem
    · exact fun k ne => assign_other grown front _ ne
  · intro fuel
    have after := joined.deref_cons
    rw [mergeScan]
    dsimp only
    rw [here, if_neg nonzero, if_neg notLow, if_pos isUp, total, linkAfter_snoc]
    change mergeScan fuel (grown.assign (linkAfter 4 front) b.hdr)
      (.next ((grown.assign (linkAfter 4 front) b.hdr).deref (linkAfter 4 front))) b.hdr true = _
    rw [after]

/-- Pushing a block that overlaps none of the list. -/
theorem push_spec {l : Fin 5} {bs : List Block} {x : Block} (list : FreeList h l bs)
    (size : sizeOf h.mem x.hdr = x.size) (small : x.stop < 4294967296) (nonzero : x.hdr ≠ 0)
    (apart : ∀ c ∈ bs, x.Apart c) :
    FreeList (push h l x.hdr) l (x :: bs) ∧ HeaderFrame [x.hdr] h.mem (push h l x.hdr).mem := by
  have frame : HeaderFrame [x.hdr] h.mem (push h l x.hdr).mem :=
    HeaderFrame.setNext h.mem (h.freelist l) (by simp)
  have headSmall : h.freelist l < 4294967296 := by
    rw [list.chain.head_eq]
    cases bs with
    | nil => decide
    | cons c rest =>
        have smallC := list.small c List.mem_cons_self
        unfold Block.stop at smallC
        change c.hdr < _
        omega
  refine ⟨⟨⟨?_, nonzero, ?_⟩, ?_, ?_, List.pairwise_cons.mpr ⟨apart, list.apart⟩⟩, frame⟩
  · simp [push]
  · have linked : nextOf (push h l x.hdr).mem x.hdr = h.freelist l :=
      nextOf_setNext h.mem x.hdr _ headSmall
    rw [linked]
    refine list.chain.congr fun a mem => ?_
    obtain ⟨c, inList, rfl⟩ := List.mem_map.mp mem
    exact (frame.nextOf_eq (by simpa using (apart c inList).headers)).symm
  · intro c mem
    rcases List.mem_cons.mp mem with same | other
    · rw [same]
      exact (sizeOf_setNext h.mem x.hdr _).trans size
    · rw [frame.sizeOf_eq (by simpa using (apart c other).headers)]
      exact list.sizes c other
  · intro c mem
    rcases List.mem_cons.mp mem with same | other
    · rw [same]
      exact small
    · exact list.small c other

/-- The scan ends in `outcome` after at most `n` rounds. -/
def ScanEnds (h : Heap ByteMem M) (iter : Link) (header : Nat) (merged : Bool) (n : Nat)
    (outcome : Heap ByteMem M × Nat × Bool) : Prop :=
  ∀ fuel, mergeScan (fuel + n) h iter header merged = some outcome

def finish (outcome : Heap ByteMem M × Nat × Bool) : Heap ByteMem M :=
  if outcome.2.2 then outcome.1 else push outcome.1 4 outcome.2.1

/-- Merging with the upper neighbour and walking to the end of the list. -/
theorem upper_ends {up : Block} (list : FreeList h 4 (front ++ up :: back))
    (size : sizeOf h.mem b.hdr = b.size) (small : b.stop < 4294967296) (nonzero : b.hdr ≠ 0)
    (apart : ∀ c ∈ front ++ up :: back, b.Apart c) (meet : b.stop = up.hdr)
    (missFront : ∀ c ∈ front, c.stop ≠ b.hdr ∧ b.stop ≠ c.hdr)
    (missBack : ∀ c ∈ back, c.stop ≠ b.hdr ∧ (b.join up).stop ≠ c.hdr) :
    ∃ h', FreeList h' 4 (front ++ b.join up :: back) ∧ Edit h h' (b.hdr :: front.map Block.hdr) ∧
      ScanEnds h (.root 4) b.hdr merged (1 + back.length + 1 + front.length) (h', b.hdr, true) := by
  obtain ⟨h', joined, edit, step⟩ :=
    @mergeScan_upper M h front back b merged up list size small nonzero apart meet
  have atJoin : FreeList h' 4 ((front ++ [b.join up]) ++ back) := by
    simpa using joined
  have inJoined : b.join up ∈ front ++ b.join up :: back := by simp
  refine ⟨h', joined, edit, fun fuel => ?_⟩
  have skip := @mergeScan_skip M h [] front (up :: back) b merged list size small missFront
  rw [linkAfter_nil, List.nil_append] at skip
  rw [← Nat.add_assoc, ← Nat.add_assoc, ← Nat.add_assoc, skip, step]
  exact mergeScan_rest atJoin (joined.sizes _ inJoined) (joined.small _ inJoined) missBack fuel

/-- Separate blocks cannot end at the same address. -/
theorem stop_ne {c d : Block} (apart : c.Apart d) : c.stop ≠ d.stop := by
  unfold Block.Apart Block.stop sizeofHeader at *
  omega

theorem middle_mem {x : Block} : x ∈ front ++ x :: back := by simp

theorem mem_of_mem_rest {x c : Block} (mem : c ∈ front ++ back) : c ∈ front ++ x :: back :=
  List.perm_middle.mem_iff.mpr (List.mem_cons_of_mem _ mem)

/-- The state of `kfree` before its scan: a block on no list, and list 4. -/
structure ScanReady (h : Heap ByteMem M) (b : Block) (bs : List Block) : Prop where
  list : FreeList h 4 bs
  size : sizeOf h.mem b.hdr = b.size
  small : b.stop < 4294967296
  nonzero : b.hdr ≠ 0
  apart : ∀ c ∈ bs, b.Apart c
  noNeighbours : ∀ c ∈ bs, ∀ d ∈ bs, c.stop ≠ d.hdr

/-- The scan ends, in a number of rounds quadratic in the list at most, and leaves
the list `fs`. -/
def ScanResult (h : Heap ByteMem M) (b : Block) (bs fs : List Block) : Prop :=
  ∃ outcome n, n ≤ (bs.length + 1) * (bs.length + 1) ∧ ScanEnds h (.root 4) b.hdr false n outcome ∧
    FreeList (finish outcome) 4 fs ∧ Edit h (finish outcome) (b.hdr :: bs.map Block.hdr)

namespace ScanReady

variable {bs : List Block}

theorem alone (ready : ScanReady h b bs) (miss : ∀ c ∈ bs, c.stop ≠ b.hdr ∧ b.stop ≠ c.hdr) :
    ScanResult h b bs (b :: bs) := by
  have ends := @mergeScan_rest M h [] bs b false ready.list ready.size ready.small miss
  obtain ⟨pushed, frame⟩ :=
    push_spec ready.list ready.size ready.small ready.nonzero ready.apart
  refine ⟨(h, b.hdr, false), 1 + bs.length, by nlinarith, fun fuel => ?_, pushed, ?_⟩
  · rw [← Nat.add_assoc]
    exact ends fuel
  · exact ⟨frame.mono (by simp), fun k ne => Function.update_of_ne ne _ _, rfl, rfl, rfl⟩

/-- After the merge with a lower neighbour the scan starts over in a state of the same kind. -/
theorem afterLower {low : Block} (ready : ScanReady h b (front ++ low :: back))
    (meet : low.stop = b.hdr) (miss : ∀ c ∈ front, b.stop ≠ c.hdr) :
    ∃ h', ScanReady h' (low.join b) (front ++ back) ∧
      Edit h h' (b.hdr :: (front ++ low :: back).map Block.hdr) ∧
      ∀ fuel, mergeScan (fuel + 1 + front.length) h (.root 4) b.hdr merged =
        mergeScan fuel h' (.root 4) (low.join b).hdr merged := by
  obtain ⟨list, size, small, nonzero, apart, noNeighbours⟩ := ready
  obtain ⟨h', shorter, grown, edit, step⟩ :=
    @mergeScan_lower M h front back b merged low list size small meet
  have joinStop := Block.join_stop meet
  have nonzeroLow : low.hdr ≠ 0 := list.hdr_ne_zero middle_mem
  refine ⟨h', ⟨shorter, grown, ?_, nonzeroLow, ?_, ?_⟩, edit.mono ?_, ?_⟩
  · rwa [joinStop]
  · intro c mem
    have fromB := apart c (mem_of_mem_rest mem)
    have fromLow := list.middle_apart mem
    unfold Block.Apart at *
    rw [joinStop]
    unfold Block.stop sizeofHeader at *
    unfold Block.join
    dsimp only
    omega
  · exact fun c hc d hd => noNeighbours c (mem_of_mem_rest hc) d (mem_of_mem_rest hd)
  · intro a mem
    simp only [List.map_append, List.map_cons, List.mem_cons, List.mem_append] at mem ⊢
    tauto
  · intro fuel
    have missB : ∀ c ∈ front, c.stop ≠ b.hdr := fun c mem same =>
      stop_ne (list.middle_apart (List.mem_append_left _ mem)) (meet.trans same.symm)
    have skip := @mergeScan_skip M h [] front (low :: back) b merged list size small
      fun c mem => ⟨missB c mem, miss c mem⟩
    rw [linkAfter_nil, List.nil_append] at skip
    rw [skip, step]
    rfl

theorem lower {low : Block} (ready : ScanReady h b (front ++ low :: back))
    (meet : low.stop = b.hdr) (miss : ∀ c ∈ front ++ back, b.stop ≠ c.hdr) :
    ScanResult h b (front ++ low :: back) (low.join b :: (front ++ back)) := by
  have joinStop := Block.join_stop meet
  obtain ⟨h', ready', edit, step⟩ :=
    @afterLower M h front back b false low ready meet fun c mem => miss c (by simp [mem])
  obtain ⟨outcome, n, short, ends, done, edit'⟩ := ready'.alone fun c mem => by
    rw [joinStop]
    exact ⟨ready.noNeighbours c (mem_of_mem_rest mem) low middle_mem, miss c mem⟩
  refine ⟨outcome, n + 1 + front.length, ?_, fun fuel => ?_, done, edit.trans (edit'.mono ?_)⟩
  · simp only [List.length_append, List.length_cons] at short ⊢
    nlinarith
  · rw [← Nat.add_assoc, ← Nat.add_assoc, step]
    exact ends fuel
  · intro a mem
    simp only [Block.join, List.map_append, List.map_cons, List.mem_cons, List.mem_append] at mem ⊢
    tauto

/-- A scan that meets the upper neighbour only. -/
theorem upper {up : Block} (ready : ScanReady h b (front ++ up :: back))
    (meet : b.stop = up.hdr) (miss : ∀ c ∈ front ++ back, c.stop ≠ b.hdr) :
    ScanResult h b (front ++ up :: back) (front ++ b.join up :: back) := by
  obtain ⟨list, size, small, nonzero, apart, noNeighbours⟩ := ready
  have missHdr : ∀ c ∈ front ++ back, b.stop ≠ c.hdr := fun c mem same => by
    have off := (list.middle_apart mem).headers
    rw [← same, meet] at off
    unfold HeadersApart at off
    omega
  obtain ⟨h', joined, edit, ends⟩ := @upper_ends M h front back b false up list size small
    nonzero apart meet (fun c mem => ⟨miss c (by simp [mem]), missHdr c (by simp [mem])⟩)
    (fun c mem => by
      rw [Block.join_stop meet]
      exact ⟨miss c (by simp [mem]),
        noNeighbours up middle_mem c (mem_of_mem_rest (by simp [mem]))⟩)
  refine ⟨(h', b.hdr, true), _, ?_, ends, joined, edit.mono ?_⟩
  · simp only [List.length_append, List.length_cons]
    nlinarith
  · intro a mem
    simp only [List.map_append, List.map_cons, List.mem_cons, List.mem_append] at mem ⊢
    tauto

theorem lowerUpper {low up : Block} (ready : ScanReady h b (front ++ low :: (mid ++ up :: back)))
    (meetLow : low.stop = b.hdr) (meetUp : b.stop = up.hdr) :
    ScanResult h b (front ++ low :: (mid ++ up :: back))
      ((front ++ mid) ++ (low.join b).join up :: back) := by
  have joinStop := Block.join_stop meetLow
  have inUp : up ∈ front ++ low :: (mid ++ up :: back) := by simp
  have missFront : ∀ c ∈ front, b.stop ≠ c.hdr := fun c mem same => by
    have hc : c ∈ front ++ (low :: mid ++ back) := by simp [mem]
    have list : FreeList h 4 ((front ++ low :: mid) ++ up :: back) := by
      simpa using ready.list
    have off := (list.middle_apart (show c ∈ (front ++ low :: mid) ++ back by simp [mem])).headers
    rw [← same, meetUp] at off
    unfold HeadersApart at off
    omega
  obtain ⟨h', ready', edit, step⟩ :=
    @afterLower M h front (mid ++ up :: back) b false low ready meetLow missFront
  have ready'' : ScanReady h' (low.join b) ((front ++ mid) ++ up :: back) := by
    simpa using ready'
  obtain ⟨outcome, n, short, ends, done, edit'⟩ :=
    ready''.upper (joinStop.trans meetUp) fun c mem => by
      refine ready.noNeighbours c ?_ low middle_mem
      simp only [List.mem_append, List.mem_cons] at mem ⊢
      tauto
  refine ⟨outcome, n + 1 + front.length, ?_, fun fuel => ?_, done, edit.trans (edit'.mono ?_)⟩
  · simp only [List.length_append, List.length_cons] at short ⊢
    nlinarith
  · rw [← Nat.add_assoc, ← Nat.add_assoc, step]
    exact ends fuel
  · intro a mem
    simp only [Block.join, List.map_append, List.map_cons, List.mem_cons, List.mem_append] at mem ⊢
    tauto

/-- The upper neighbour first: the lower one leaves the list and is not put back. -/
theorem upperLower {low up : Block} (ready : ScanReady h b (front ++ up :: (mid ++ low :: back)))
    (meetLow : low.stop = b.hdr) (meetUp : b.stop = up.hdr) :
    ScanResult h b (front ++ up :: (mid ++ low :: back))
      (front ++ b.join up :: (mid ++ back)) := by
  obtain ⟨list, size, small, nonzero, apart, noNeighbours⟩ := ready
  have inLow : low ∈ front ++ up :: (mid ++ low :: back) := by simp
  have around : FreeList h 4 ((front ++ up :: mid) ++ low :: back) := by simpa using list
  have missLow : ∀ c ∈ front ++ mid, c.stop ≠ b.hdr := fun c mem same => by
    refine stop_ne (around.middle_apart ?_) (meetLow.trans same.symm)
    simp only [List.mem_append, List.mem_cons] at mem ⊢
    tauto
  have missUp : ∀ c ∈ front, b.stop ≠ c.hdr := fun c mem same => by
    have off := (list.middle_apart (List.mem_append_left _ mem)).headers
    rw [← same, meetUp] at off
    unfold HeadersApart at off
    omega
  have skip := @mergeScan_skip M h [] front (up :: (mid ++ low :: back)) b false list size small
    fun c mem => ⟨missLow c (by simp [mem]), missUp c mem⟩
  obtain ⟨h₁, joined, edit₁, step₁⟩ :=
    @mergeScan_upper M h front (mid ++ low :: back) b false up list size small nonzero apart meetUp
  have joinStop := Block.join_stop meetUp
  have inJoined : b.join up ∈ front ++ b.join up :: (mid ++ low :: back) := by simp
  have sizeJoin : sizeOf h₁.mem b.hdr = (b.join up).size := joined.sizes _ inJoined
  have smallJoin := joined.small _ inJoined
  have atMid : FreeList h₁ 4 ((front ++ [b.join up]) ++ (mid ++ low :: back)) := by
    simpa using joined
  have skip₁ := @mergeScan_skip M h₁ (front ++ [b.join up]) mid (low :: back) (b.join up) true atMid
    sizeJoin smallJoin fun c mem => by
      rw [joinStop]
      exact ⟨missLow c (by simp [mem]), noNeighbours up (by simp) c (by simp [mem])⟩
  have atLow : FreeList h₁ 4 (((front ++ [b.join up]) ++ mid) ++ low :: back) := by
    simpa using joined
  obtain ⟨h₂, shorter, grown, edit₂, step₂⟩ :=
    @mergeScan_lower M h₁ ((front ++ [b.join up]) ++ mid) back (b.join up) true low atLow sizeJoin
      smallJoin meetLow
  have stopLow : (low.join (b.join up)).stop = up.stop :=
    (Block.join_stop (show low.stop = (b.join up).hdr from meetLow)).trans joinStop
  have rest := @mergeScan_rest M h₂ [] (((front ++ [b.join up]) ++ mid) ++ back)
    (low.join (b.join up)) true shorter grown (by rwa [stopLow, ← joinStop]) fun c mem => by
      rw [stopLow]
      by_cases same : c = b.join up
      · rw [same, joinStop]
        change up.stop ≠ low.hdr ∧ up.stop ≠ b.hdr
        unfold Block.stop sizeofHeader at *
        omega
      · have old : c ∈ front ++ up :: (mid ++ low :: back) := by
          simp only [List.mem_append, List.mem_cons, List.not_mem_nil] at mem ⊢
          tauto
        exact ⟨noNeighbours c old low inLow, noNeighbours up (by simp) c old⟩
  have shape : ((front ++ [b.join up]) ++ mid) ++ back = front ++ b.join up :: (mid ++ back) := by
    simp
  refine ⟨(h₂, low.hdr, true), 1 + (front.length + 1 + mid.length + back.length) + 1 + mid.length +
    1 + front.length, ?_, fun fuel => ?_, ?_, (edit₁.mono ?_).trans (edit₂.mono ?_)⟩
  · simp only [List.length_append, List.length_cons]
    nlinarith
  · rw [linkAfter_nil, List.nil_append] at skip
    simp only [List.length_append, List.length_cons, List.length_nil, Nat.zero_add] at rest
    rw [← Nat.add_assoc, ← Nat.add_assoc, ← Nat.add_assoc, ← Nat.add_assoc, ← Nat.add_assoc,
      skip, step₁]
    have moved := skip₁ (fuel + 1 + (front.length + 1 + mid.length + back.length) + 1)
    change mergeScan _ h₁ _ b.hdr true = _ at moved
    rw [moved]
    exact (step₂ _).trans (rest fuel)
  · rw [← shape]
    exact shorter
  · intro a mem
    simp only [List.map_append, List.map_cons, List.mem_cons, List.mem_append] at mem ⊢
    tauto
  · intro a mem
    simp only [Block.join, List.map_append, List.map_cons, List.map_nil, List.mem_cons,
      List.mem_append, List.not_mem_nil, or_false] at mem ⊢
    tauto

end ScanReady

theorem mergeScan_spec {bs fs lost : List Block} (co : Coalesce b bs fs lost)
    (ready : ScanReady h b bs) : ScanResult h b bs fs := by
  cases co with
  | alone miss => exact ready.alone miss
  | lower meet miss => exact ready.lower meet miss
  | upper meet miss => exact ready.upper meet miss
  | lowerUpper meetLow meetUp => exact ready.lowerUpper meetLow meetUp
  | upperLower meetLow meetUp => exact ready.upperLower meetLow meetUp

end Heap

end TrollOS.Mem
