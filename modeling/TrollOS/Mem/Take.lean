import TrollOS.Mem.Growth

/-!
# Taking a block off a list

A scan finds the first block that fits.  A large one is split, and the rest
stays in its place on the list; otherwise the block is unlinked whole.
-/

namespace TrollOS.Mem

open TrollOS.Lib

/-- Rounding a size up to whole words. -/
theorem align_eq {x : Nat} (small : x + 3 < 4294967296) : align x = (x + 3) / 4 * 4 := by
  unfold align
  rw [u32_eq small]

namespace Heap

variable {M : Type} {h : Heap ByteMem M} {l : Fin 5} {front back : List Block}

/-- The scan stops behind a prefix of blocks that are too small. -/
theorem findFit_spec {size : Nat} (list : FreeList h l (front ++ back)) {fuel : Nat}
    (enough : back.length < fuel) :
    ∃ small rest, back = small ++ rest ∧ (∀ b ∈ small, b.size < size) ∧
      (∀ b ∈ rest.head?, size ≤ b.size) ∧
      findFit h size fuel (linkAfter l front) = some (linkAfter l (front ++ small)) := by
  induction fuel generalizing front back with
  | zero => omega
  | succ fuel ih =>
      cases back with
      | nil =>
          refine ⟨[], [], rfl, by simp, by simp, ?_⟩
          have here := list.deref_eq
          unfold findFit
          simp [here]
      | cons b rest =>
          have here := list.deref_cons
          have inList : b ∈ front ++ b :: rest := by simp
          have nonzero := list.hdr_ne_zero inList
          have size_eq := list.sizes b inList
          by_cases tooSmall : b.size < size
          · have moved : FreeList h l ((front ++ [b]) ++ rest) := by simpa using list
            obtain ⟨small, tail, split, allSmall, fits, scan⟩ :=
              ih moved (by simpa using enough)
            refine ⟨b :: small, tail, by rw [split]; rfl, ?_, fits, ?_⟩
            · intro c mem
              rcases List.mem_cons.mp mem with same | later
              · rw [same]
                exact tooSmall
              · exact allSmall c later
            · unfold findFit
              dsimp only
              rw [here, if_pos ⟨nonzero, by rwa [size_eq]⟩, ← linkAfter_snoc l front b, scan]
              simp
          · refine ⟨[], b :: rest, rfl, by simp, ?_, ?_⟩
            · intro c mem
              have same : b = c := by simpa using mem
              rw [← same]
              exact Nat.le_of_not_lt tooSmall
            · unfold findFit
              dsimp only
              rw [here, if_neg (fun both => tooSmall (by rw [← size_eq]; exact both.2))]
              simp

end Heap

namespace Rep

variable {M : Type} {base : Nat} {h : Heap ByteMem M} {L : Layout} {l : Fin 5}
  {front back : List Block} {b : Block} {size : Nat}

/-- Live blocks keep all their bytes. -/
def Kept (bs : List Block) (h h' : Heap ByteMem M) : Prop :=
  ∀ c ∈ bs, ∀ x, c.hdr ≤ x → x < c.stop → h'.mem x = h.mem x

theorem Kept.trans {bs : List Block} {h₁ h₂ h₃ : Heap ByteMem M} (first : Kept bs h₁ h₂)
    (second : Kept bs h₂ h₃) : Kept bs h₁ h₃ := fun c mem x low high =>
  (second c mem x low high).trans (first c mem x low high)

/-- Whether `take` splits a block. -/
def Splits (b : Block) (size : Nat) : Prop := (size + 3) / 4 * 4 + sizeofHeader < b.size

instance (b : Block) (size : Nat) : Decidable (Splits b size) :=
  inferInstanceAs (Decidable (_ < _))

def taken (b : Block) (size : Nat) : Block :=
  if Splits b size then ⟨b.hdr, (size + 3) / 4 * 4⟩ else b

def left (b : Block) (size : Nat) : List Block :=
  if Splits b size then
    [⟨b.hdr + sizeofHeader + (size + 3) / 4 * 4, b.size - ((size + 3) / 4 * 4 + sizeofHeader)⟩]
  else []

theorem taken_hdr (b : Block) (size : Nat) : (taken b size).hdr = b.hdr := by
  unfold taken
  split <;> rfl

theorem taken_size (fit : size ≤ b.size) : size ≤ (taken b size).size := by
  unfold taken
  split
  · dsimp only
    omega
  · exact fit

theorem take_retile {lo hi : Nat} {rest : List Extent}
    (tiles : Partition lo hi (b.extent :: rest)) :
    Partition lo hi ((taken b size).extent :: ((left b size).map Block.extent ++ rest)) := by
  unfold taken left
  by_cases splits : Splits b size
  · rw [if_pos splits, if_pos splits]
    unfold Splits at splits
    have cut : b.extent = ⟨b.hdr, ((size + 3) / 4 * 4 + sizeofHeader) +
        (b.size - ((size + 3) / 4 * 4 + sizeofHeader) + sizeofHeader)⟩ := by
      unfold Block.extent
      congr 1
      omega
    rw [cut] at tiles
    have halves := tiles.split
    simpa [Block.extent, Nat.add_assoc, Nat.add_comm, Nat.add_left_comm] using halves
  · rw [if_neg splits, if_neg splits]
    exact tiles

/-- Changes inside the blocks of one free list do not reach live blocks. -/
theorem kept_of_frame (rep : Rep base h L) (l : Fin 5) {h' : Heap ByteMem M}
    (frame : ∀ x, (∀ c ∈ L.free l, ¬ (c.hdr ≤ x ∧ x < c.stop)) → h'.mem x = h.mem x) :
    Kept L.live h h' := by
  have pairs := ((blocks_perm L l).pairwise_iff fun {_ _} => Block.Apart.symm).mp rep.blocks_apart
  have apart := (List.pairwise_append.mp pairs).2.2
  intro c inLive x low high
  apply frame
  intro d inL inside
  have off := apart c inLive d (List.mem_append_left _ inL)
  unfold Block.Apart at off
  omega

theorem aligned_size (rep : Rep base h L) (mem : b ∈ L.blocks) (fit : size ≤ b.size) :
    align size = (size + 3) / 4 * 4 ∧ align b.size = b.size := by
  have small := rep.stop_small mem
  have whole := (rep.headers b mem).size_aligned
  unfold Block.stop sizeofHeader at small
  constructor
  · exact align_eq (by omega)
  · rw [align_eq (by omega)]
    omega

/-- A block of a list, and the others on it. -/
theorem chosen (rep : Rep base h L) (split : L.free l = front ++ b :: back) :
    FreeList h l (front ++ b :: back) ∧ b ∈ L.free l ∧ ∀ c ∈ front ++ back, c ∈ L.free l := by
  have list := rep.freeList l
  rw [split] at list ⊢
  exact ⟨list, by simp, fun c inRest => Heap.mem_of_mem_rest inRest⟩

/-- What is handed out and what stays on the list fill the place of the block. -/
theorem retile_taken {lo hi : Nat} {others : List Extent} (split : L.free l = front ++ b :: back)
    (tiles : Partition lo hi ((L.free l).map Block.extent ++ others)) :
    Partition lo hi ((taken b size :: (front ++ (left b size ++ back))).map Block.extent ++ others) := by
  have first : Partition lo hi (b.extent :: ((front ++ back).map Block.extent ++ others)) := by
    rw [split] at tiles
    refine tiles.perm (List.perm_iff_count.mpr fun e => ?_)
    simp only [List.map_append, List.map_cons, List.count_append, List.count_cons]
    omega
  refine (@take_retile b size _ _ _ first).perm (List.perm_iff_count.mpr fun e => ?_)
  simp only [List.map_append, List.map_cons, List.count_append, List.count_cons]
  omega

/-- Only the list that has changed can have new neighbours. -/
theorem edit_noNeighbours (rep : Rep base h L) (l : Fin 5) {live fs : List Block} {slack lost : List Extent}
    (fresh : 4 = l → ∀ c ∈ fs, ∀ d ∈ fs, c.stop ≠ d.hdr) :
    ∀ c ∈ (L.edit live l fs slack lost).free 4, ∀ d ∈ (L.edit live l fs slack lost).free 4, c.stop ≠ d.hdr := by
  intro c hc d hd
  by_cases same : 4 = l
  · subst same
    rw [L.edit_free_self] at hc hd
    exact fresh rfl c hc d hd
  · rw [L.edit_free_ne _ _ _ _ same] at hc hd
    exact rep.noNeighbours c hc d hd

/-- Taking a block whole. -/
theorem take_whole (rep : Rep base h L) (split : L.free l = front ++ b :: back)
    (fit : size ≤ b.size) (whole : ¬ Splits b size) :
    ∃ h', Heap.take h (linkAfter l front) size = (b.hdr + sizeofHeader, h') ∧
      Rep base h' (L.edit (b :: L.live) l (front ++ back) L.slack L.lost) ∧
      Kept L.live h h' ∧ h'.heapEnd = h.heapEnd := by
  obtain ⟨list, inL, others⟩ := rep.chosen split
  have mem := free_mem_blocks inL
  obtain ⟨alignSize, alignB⟩ := rep.aligned_size mem fit
  have small := rep.stop_small mem
  have tail : Chain (nextOf h.mem) (nextOf h.mem b.hdr) (back.map Block.hdr) := by
    have chain := list.chain
    rw [List.map_append, List.map_cons] at chain
    exact chain.drop_prefix.2.2
  let h' := h.assign (linkAfter l front) (nextOf h.mem b.hdr)
  have replaced : FreeList h' l (front ++ ([] ++ back)) :=
    Heap.assign_replace list rfl (fun _ _ => rfl) (fun _ _ => rfl) (fun y mem => absurd mem List.not_mem_nil)
      List.Pairwise.nil (fun y mem => absurd mem List.not_mem_nil) tail (nextOf_lt _ _)
  have frame : HeaderFrame (front.map Block.hdr) h.mem h'.mem := h.assign_frame l front _
  have outside : ∀ x, (∀ c ∈ L.free l, ¬ (c.hdr ≤ x ∧ x < c.stop)) → h'.mem x = h.mem x :=
    fun x off => frame_outside front frame x fun d inFront => off d (others d (by simp [inFront]))
  have call : Heap.take h (linkAfter l front) size = (b.hdr + sizeofHeader, h') := by
    have wholeB := (rep.headers b mem).size_aligned
    unfold Heap.take
    dsimp only
    unfold Splits at whole
    unfold Block.stop sizeofHeader at *
    rw [list.deref_cons, (rep.headers b mem).size_eq, alignB, alignSize,
      u32_eq (show (size + 3) / 4 * 4 + 8 < 4294967296 by omega), if_neg (by omega),
      u32_eq (show b.hdr + 8 < 4294967296 by omega)]
  refine ⟨h', call, ?_, rep.kept_of_frame l outside, Heap.assign_heapEnd _ _ _⟩
  apply rep.surgery [] [b] (List.Perm.refl _) (List.Perm.refl _) (L.edit_free_self _ _ _ _ _)
    (fun k ne => L.edit_free_ne _ _ _ _ ne) (fun k ne => Heap.assign_other h front _ ne)
    (Heap.assign_heapEnd _ _ _)
  · intro rest tiles
    have done := @retile_taken _ _ _ _ _ size _ _ _ split tiles
    have isTaken : taken b size = b := if_neg whole
    have isLeft : left b size = [] := if_neg whole
    rw [isTaken, isLeft] at done
    exact done
  · exact fun x off => outside x fun c mem => off c (by simpa using mem)
  · intro c inNew
    have place : c = b ∨ c ∈ front ++ back := by simpa using inNew
    rcases place with same | rest
    · have was := rep.headers b mem
      have kept : sizeOf h'.mem b.hdr = sizeOf h.mem b.hdr :=
        Heap.assign_sizeOf h _ fun d inFront =>
          Or.inr (list.middle_apart (List.mem_append_left _ inFront)).headers.symm
      rw [same]
      exact { was with size_eq := kept.trans was.size_eq }
    · exact { rep.headers c (free_mem_blocks (others c rest)) with size_eq := replaced.sizes c rest }
  · exact replaced.chain
  · refine rep.edit_noNeighbours l fun same c hc d hd => ?_
    subst same
    exact rep.noNeighbours c (others c hc) d (others d hd)

/-! ## Splitting a block -/

/-- The headers of both halves: the sizes, and the link of the block goes to the second half. -/
def cutHeaders (mem : ByteMem) (own rest size restSize : Nat) : ByteMem :=
  let sized := setSize (setSize mem rest restSize) own size
  setNext sized rest (nextOf sized own)

section Cut

variable {mem mem' : ByteMem} {own rest restSize : Nat} {c : Block}

theorem cutHeaders_frame (mem : ByteMem) (own rest size restSize : Nat) :
    HeaderFrame [own, rest] mem (cutHeaders mem own rest size restSize) :=
  ((HeaderFrame.setSize mem restSize (by simp)).trans (HeaderFrame.setSize _ size (by simp))).trans
    (HeaderFrame.setNext _ _ (by simp))

theorem cutHeaders_next (mem : ByteMem) (apart : HeadersApart own rest) (size restSize : Nat) :
    nextOf (cutHeaders mem own rest size restSize) rest = nextOf mem own ∧
      nextOf (cutHeaders mem own rest size restSize) own = nextOf mem own := by
  have kept : nextOf (setSize (setSize mem rest restSize) own size) own = nextOf mem own :=
    (nextOf_setSize _ own _).trans (nextOf_setSize_off _ apart.symm)
  constructor
  · exact (nextOf_setNext _ rest _ (nextOf_lt _ _)).trans kept
  · exact (nextOf_setNext_off _ apart.symm).trans kept

theorem cutHeaders_size (mem : ByteMem) (apart : HeadersApart own rest) (small : size < 4294967296)
    (restSmall : restSize < 4294967296) :
    sizeOf (cutHeaders mem own rest size restSize) rest = restSize ∧
      sizeOf (cutHeaders mem own rest size restSize) own = size := by
  constructor
  · refine (sizeOf_setNext _ rest _).trans ((sizeOf_setSize_off _ apart).trans ?_)
    exact sizeOf_setSize _ rest _ restSmall
  · exact (sizeOf_setNext_off _ apart.symm).trans (sizeOf_setSize _ own _ small)

def restOf (b : Block) (size : Nat) : Block :=
  ⟨b.hdr + sizeofHeader + (size + 3) / 4 * 4, b.size - ((size + 3) / 4 * 4 + sizeofHeader)⟩

theorem Splits.stop (splits : Splits b size) : (restOf b size).stop = b.stop := by
  unfold Splits at splits
  change b.hdr + sizeofHeader + (size + 3) / 4 * 4 + sizeofHeader +
    (b.size - ((size + 3) / 4 * 4 + sizeofHeader)) = b.hdr + sizeofHeader + b.size
  omega

theorem restOf_low (pos : 0 < size) : b.hdr + sizeofHeader < (restOf b size).hdr := by
  change _ < b.hdr + sizeofHeader + (size + 3) / 4 * 4
  omega

theorem restOf_apart (pos : 0 < size) : HeadersApart b.hdr (restOf b size).hdr := by
  have low := @restOf_low b size pos
  unfold sizeofHeader at low
  unfold HeadersApart
  omega

theorem Splits.apart (splits : Splits b size) (off : b.Apart c) : (restOf b size).Apart c := by
  have low : b.hdr ≤ (restOf b size).hdr := Nat.le_trans (Nat.le_add_right _ _) (Nat.le_add_right _ _)
  unfold Block.Apart at *
  rw [splits.stop]
  omega

/-- Both halves have proper headers. -/
theorem Splits.ok (splits : Splits b size) (pos : 0 < size) (was : b.Ok mem)
    (own : sizeOf mem' b.hdr = (size + 3) / 4 * 4) (second : sizeOf mem' (restOf b size).hdr = (restOf b size).size) :
    (taken b size).Ok mem' ∧ (restOf b size).Ok mem' := by
  have aligned := was.hdr_aligned
  have whole := was.size_aligned
  have isTaken : taken b size = ⟨b.hdr, (size + 3) / 4 * 4⟩ := if_pos splits
  unfold Splits at splits
  rw [isTaken]
  unfold restOf at *
  constructor
  · constructor
    · exact own
    · exact aligned
    · exact Nat.mul_mod_left _ _
    · dsimp only
      omega
  · constructor
    · exact second
    · dsimp only
      unfold sizeofHeader
      omega
    · dsimp only
      unfold sizeofHeader
      omega
    · dsimp only
      omega

/-- The second half has the neighbours the block had. -/
theorem Splits.noNeighbours (splits : Splits b size) (apart : ∀ c ∈ front ++ back, b.Apart c)
    (old : ∀ c, c = b ∨ c ∈ front ++ back → ∀ d ∈ front ++ back, c.stop ≠ d.hdr) :
    ∀ c ∈ front ++ restOf b size :: back, ∀ d ∈ front ++ restOf b size :: back, c.stop ≠ d.hdr := by
  have place : ∀ {e : Block}, e ∈ front ++ restOf b size :: back → e = restOf b size ∨ e ∈ front ++ back :=
    fun inE => List.mem_cons.mp (List.perm_middle.mem_iff.mp inE)
  have stop := splits.stop
  intro c hc d hd
  rcases place hd with dRest | dOld
  · rw [dRest]
    rcases place hc with cRest | cOld
    · rw [cRest]
      unfold Block.stop sizeofHeader
      omega
    · have off := apart c cOld
      have low : b.hdr < (restOf b size).hdr := by
        unfold restOf sizeofHeader
        dsimp only
        omega
      unfold Block.Apart at off
      unfold Block.stop sizeofHeader at stop off ⊢
      omega
  · rcases place hc with cRest | cOld
    · rw [cRest, stop]
      exact old b (Or.inl rfl) d dOld
    · exact old c (Or.inr cOld) d dOld

end Cut

/-- Taking the front of a block and leaving the rest on the list. -/
theorem take_split (rep : Rep base h L) (split : L.free l = front ++ b :: back)
    (fit : size ≤ b.size) (pos : 0 < size) (splits : Splits b size) :
    ∃ h', Heap.take h (linkAfter l front) size = (b.hdr + sizeofHeader, h') ∧
      Rep base h'
        (L.edit (taken b size :: L.live) l (front ++ (left b size ++ back)) L.slack L.lost) ∧
      Kept L.live h h' ∧ h'.heapEnd = h.heapEnd := by
  obtain ⟨list, inL, others⟩ := rep.chosen split
  have mem := free_mem_blocks inL
  obtain ⟨alignSize, alignB⟩ := rep.aligned_size mem fit
  have small := rep.stop_small mem
  have okB := rep.headers b mem
  have apartB : ∀ c ∈ front ++ back, b.Apart c := fun c inRest => list.middle_apart inRest
  let rest := restOf b size
  have leftEq : left b size = [rest] := if_pos splits
  have restStop : rest.stop = b.stop := splits.stop
  have restLow : b.hdr + sizeofHeader < rest.hdr := restOf_low pos
  have restApart : ∀ c ∈ front ++ back, rest.Apart c := fun c inRest => splits.apart (apartB c inRest)
  have ownApart : HeadersApart b.hdr rest.hdr := restOf_apart pos
  let cut := cutHeaders h.mem b.hdr rest.hdr ((size + 3) / 4 * 4) rest.size
  let grown : Heap ByteMem M := { h with mem := cut }
  let h' := grown.assign (linkAfter l front) rest.hdr
  have frame : HeaderFrame [b.hdr, rest.hdr] h.mem cut := cutHeaders_frame h.mem _ _ _ _
  have keptHeaders : ∀ c ∈ front ++ back, sizeOf cut c.hdr = sizeOf h.mem c.hdr ∧ nextOf cut c.hdr = nextOf h.mem c.hdr := by
    intro c inRest
    have offs : ∀ a ∈ [b.hdr, rest.hdr], HeadersApart a c.hdr := by
      simpa using ⟨(apartB c inRest).headers, (restApart c inRest).headers⟩
    exact ⟨frame.sizeOf_eq offs, frame.nextOf_eq offs⟩
  obtain ⟨nextRest, nextB⟩ := cutHeaders_next h.mem ownApart ((size + 3) / 4 * 4) rest.size
  obtain ⟨sizeRest, sizeB⟩ := cutHeaders_size h.mem ownApart
    (show (size + 3) / 4 * 4 < 4294967296 by unfold Splits at splits; unfold Block.stop at small; omega)
    (show rest.size < 4294967296 by unfold Block.stop at small restStop; omega)
  have outside : ∀ x, (∀ c ∈ L.free l, ¬ (c.hdr ≤ x ∧ x < c.stop)) → h'.mem x = h.mem x := by
    intro x off
    have inB := off b inL
    refine (frame_outside front (grown.assign_frame l front rest.hdr) x fun d inFront =>
      off d (others d (by simp [inFront]))).trans (frame x ?_)
    intro a inOwn inside
    rcases List.mem_cons.mp inOwn with same | last
    · rw [same] at inside
      unfold Block.stop sizeofHeader at inB
      omega
    · rw [List.mem_singleton.mp last] at inside
      rw [← restStop] at inB
      unfold Block.stop sizeofHeader at inB
      unfold sizeofHeader at restLow
      omega
  have call : Heap.take h (linkAfter l front) size = (b.hdr + sizeofHeader, h') := by
    unfold Heap.take
    dsimp only
    unfold Splits at splits
    unfold Block.stop sizeofHeader at *
    rw [list.deref_cons, okB.size_eq, alignB, alignSize,
      u32_eq (show (size + 3) / 4 * 4 + 8 < 4294967296 by omega), if_pos splits,
      u32_eq (show b.hdr + 8 < 4294967296 by omega),
      u32_eq (show b.hdr + 8 + (size + 3) / 4 * 4 < 4294967296 by omega)]
    have restSize : u32 (b.size + 4294967296 - ((size + 3) / 4 * 4 + 8)) = rest.size := by
      change _ = b.size - ((size + 3) / 4 * 4 + 8)
      unfold u32
      omega
    rw [restSize]
    rfl
  have nextKept : ∀ c ∈ front ++ b :: back, nextOf cut c.hdr = nextOf h.mem c.hdr := by
    intro c inC
    rcases List.mem_cons.mp (List.perm_middle.mem_iff.mp inC) with same | other
    · rw [same]
      exact nextB
    · exact (keptHeaders c other).2
  have tail : Chain (nextOf grown.mem) rest.hdr (([rest] ++ back).map Block.hdr) := by
    have chain := list.chain
    rw [List.map_append, List.map_cons] at chain
    refine ⟨rfl, by omega, ?_⟩
    change Chain (nextOf cut) (nextOf cut rest.hdr) _
    rw [nextRest]
    refine chain.drop_prefix.2.2.congr fun a inBack => ?_
    obtain ⟨c, inC, rfl⟩ := List.mem_map.mp inBack
    exact (keptHeaders c (List.mem_append_right front inC)).2.symm
  have replaced : FreeList h' l (front ++ ([rest] ++ back)) := by
    refine Heap.assign_replace list rfl nextKept (fun c inRest => (keptHeaders c inRest).1) (fun y inNew => ?_)
      (List.pairwise_singleton _ _) (fun y inNew => ?_) tail (by unfold Block.stop at small restStop; omega)
    · rw [List.mem_singleton.mp inNew, restStop]
      exact ⟨sizeRest, small⟩
    · rw [List.mem_singleton.mp inNew]
      exact restApart
  obtain ⟨okTaken, okRest⟩ := splits.ok pos okB
    ((Heap.assign_sizeOf grown rest.hdr fun d inFront =>
      Or.inr (apartB d (List.mem_append_left _ inFront)).headers.symm).trans sizeB)
    (replaced.sizes rest (by simp))
  refine ⟨h', call, ?_, rep.kept_of_frame l outside, Heap.assign_heapEnd _ _ _⟩
  apply rep.surgery [] [taken b size] (List.Perm.refl _) (List.Perm.refl _)
    (L.edit_free_self _ _ _ _ _) (fun k ne => L.edit_free_ne _ _ _ _ ne)
    (fun k ne => Heap.assign_other grown front _ ne) (Heap.assign_heapEnd _ _ _)
  · exact fun others tiles => retile_taken split tiles
  · exact fun x off => outside x fun c mem => off c (by simpa using mem)
  · intro c inNew
    rw [leftEq] at inNew
    have place : c = taken b size ∨ c = rest ∨ c ∈ front ++ back := by
      simp only [List.mem_append, List.mem_cons, List.not_mem_nil, or_false] at inNew ⊢
      tauto
    rcases place with isTaken | isRest | old
    · rw [isTaken]
      exact okTaken
    · rw [isRest]
      exact okRest
    · exact { rep.headers c (free_mem_blocks (others c old)) with
        size_eq := replaced.sizes c (by
          simp only [List.mem_append] at old ⊢
          tauto) }
  · rw [leftEq]
    exact replaced.chain
  · refine rep.edit_noNeighbours l fun same => ?_
    subst same
    rw [leftEq]
    refine splits.noNeighbours apartB fun c place d dOld => ?_
    rcases place with isB | cOld
    · rw [isB]
      exact rep.noNeighbours b inL d (others d dOld)
    · exact rep.noNeighbours c (others c cOld) d (others d dOld)

end Rep

end TrollOS.Mem
