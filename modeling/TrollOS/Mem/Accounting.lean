import TrollOS.Mem.Safety

/-!
# Heap accounting

As long as no `kfree` meets both neighbours of a large block with the upper one
ahead of the lower one, every byte obtained from `ksbrk` stays in a live block,
in a listed block or in the tail of a cut chunk.  In the other order the lower
neighbour leaves the list for good.
-/

namespace TrollOS.Mem

open TrollOS.Lib

def blockBytes (bs : List Block) : Nat := (bs.map fun b => b.size + sizeofHeader).sum

theorem blockBytes_append (bs cs : List Block) :
    blockBytes (bs ++ cs) = blockBytes bs + blockBytes cs := by
  unfold blockBytes
  rw [List.map_append, List.sum_append]

theorem blockBytes_cons (b : Block) (bs : List Block) :
    blockBytes (b :: bs) = b.size + sizeofHeader + blockBytes bs := by
  unfold blockBytes
  rw [List.map_cons, List.sum_cons]

namespace Coalesce

variable {b : Block} {bs fs lost : List Block}

/-- Coalescing neither makes nor destroys bytes. -/
theorem bytes (co : Coalesce b bs fs lost) :
    blockBytes fs + blockBytes lost = blockBytes (b :: bs) := by
  have nil : blockBytes [] = 0 := rfl
  cases co with
  | alone miss => rw [nil, Nat.add_zero]
  | lower meet miss =>
      simp only [blockBytes_append, blockBytes_cons, nil, Block.join]
      omega
  | upper meet miss =>
      simp only [blockBytes_append, blockBytes_cons, nil, Block.join]
      omega
  | lowerUpper meetLow meetUp =>
      simp only [blockBytes_append, blockBytes_cons, nil, Block.join]
      omega
  | upperLower meetLow meetUp =>
      simp only [blockBytes_append, blockBytes_cons, nil, Block.join]
      omega

/-- With separate blocks the order of the two neighbours decides. -/
theorem lost_of_upperFirst (co : Coalesce b bs fs lost) (apart : bs.Pairwise Block.Apart)
    (order : UpperFirst b bs) : lost ≠ [] := by
  obtain ⟨front', mid', back', low', up', meetLow', meetUp', shape⟩ := order
  have lowMem : low' ∈ bs := by
    rw [shape]
    simp
  have upMem : up' ∈ bs := by
    rw [shape]
    simp
  cases co with
  | alone miss => exact absurd meetLow' (miss low' lowMem).1
  | @lower front back low meet miss =>
      rcases List.mem_cons.mp (List.perm_middle.mem_iff.mp upMem) with same | other
      · have off := Block.join_stop meet
        unfold Block.stop sizeofHeader at meet meetUp'
        rw [same] at meetUp'
        omega
      · exact absurd meetUp' (miss up' other)
  | @upper front back up meet miss =>
      rcases List.mem_cons.mp (List.perm_middle.mem_iff.mp lowMem) with same | other
      · unfold Block.stop sizeofHeader at meet meetLow'
        rw [same] at meetLow'
        omega
      · exact absurd meetLow' (miss low' other)
  | @lowerUpper front mid back low up meetLow meetUp =>
      have sameLow : low' = low := by
        by_contra ne
        have off := apart.forall lowMem (by simp) ne
        exact Heap.stop_ne off (meetLow'.trans meetLow.symm)
      have sameUp : up' = up := by
        by_contra ne
        have off := apart.forall upMem (by simp) ne
        have start := meetUp'.symm.trans meetUp
        unfold Block.Apart Block.stop sizeofHeader at off
        omega
      have distinct : (front ++ low :: (mid ++ up :: back)).Nodup := apart.imp fun off same => by
        rw [same] at off
        unfold Block.Apart Block.stop sizeofHeader at off
        omega
      have regroup : front ++ low :: (mid ++ up :: back) = (front ++ low :: mid) ++ up :: back := by
        simp
      rw [regroup] at distinct shape
      rw [sameLow, sameUp] at shape
      obtain ⟨-, tailNodup, across⟩ := List.nodup_append.mp distinct
      have notFront : up ∉ front ++ low :: mid := fun inFront => across up inFront up (by simp) rfl
      have notBack : up ∉ back := (List.nodup_cons.mp tailNodup).1
      obtain ⟨-, -, backEq⟩ := (List.append_cons_inj_of_notMem notFront notBack).mp shape
      refine absurd rfl (across low (by simp) low ?_)
      rw [backEq]
      simp
  | upperLower meetLow meetUp => exact List.cons_ne_nil _ _

end Coalesce

namespace Session

section Statements

variable {μ M : Type} [HeapMemory μ]

def extentAt (mem : μ) (hdr : Nat) : Extent := ⟨hdr, sizeOf mem hdr + sizeofHeader⟩

/-- Every byte obtained from `ksbrk` lies in exactly one live block, listed block or
tail of a cut chunk; `free l` are the headers along `freelist[l]`. -/
structure Accounted (base : Nat) (s : Session μ M) (free : Fin 5 → List Nat) : Prop where
  lists : ∀ l, Chain (nextOf s.heap.mem) (s.heap.freelist l) (free l)
  bytes : Partition base s.heap.heapEnd ((s.headers free).map (extentAt s.heap.mem) ++ s.slack)

def listBytes (mem : μ) (nodes : List Nat) : Nat :=
  (nodes.map fun hdr => sizeOf mem hdr + sizeofHeader).sum

/-- `kfree` of a large block: what `freelist[4]` held before and holds after. -/
structure KfreeExact (s : Session μ M) (ptr : Nat) (t : Session μ M) : Prop where
  grows : ∃ nodes nodes', Chain (nextOf s.heap.mem) (s.heap.freelist 4) nodes ∧
    Chain (nextOf t.heap.mem) (t.heap.freelist 4) nodes' ∧
    listBytes t.heap.mem nodes' =
      listBytes s.heap.mem nodes + (s.heap.blockSize ptr + sizeofHeader) ∧
    ∀ a ∈ nodes', ∀ b ∈ nodes', a + sizeofHeader + sizeOf t.heap.mem a ≠ b

end Statements

section Results

variable {M : Type} {mmuAllocAt : M → Nat → Nat × M} {base : Nat} {s t : Session ByteMem M} {L : Layout}

/-- Nothing is lost in a run none of whose `kfree` calls drops a lower neighbour. -/
theorem tracks_of_ordered (run : Permitted mmuAllocAt (FreesInOrder mmuAllocAt) base s) :
    ∃ L, Tracks base s L ∧ L.lost = [] := by
  induction run with
  | start init => exact init.tracks
  | @call s t c ptr run valid inOrder ran ih =>
      obtain ⟨L, tracks, none⟩ := ih
      obtain ⟨ptr', t', L', ran', outcome⟩ := @exec_valid M mmuAllocAt _ s L tracks c valid
      rw [ran] at ran'
      obtain ⟨rfl, rfl⟩ := Prod.mk.inj (Option.some.inj ran')
      exact ⟨L', outcome.tracks, (outcome.lost inOrder).trans none⟩
  | write b run owned inside ih =>
      obtain ⟨L, tracks, none⟩ := ih
      exact ⟨L, write_byte tracks owned inside b, none⟩

theorem Tracks.accounted (tracks : Tracks base s L) (none : L.lost = []) :
    Accounted base s fun l => (L.free l).map Block.hdr := by
  constructor
  · exact tracks.rep.chains
  · rw [tracks.headers_eq, List.map_map, ← tracks.slack]
    have tiles := tracks.rep.tiles
    unfold Layout.extents at tiles
    rw [none, List.append_nil] at tiles
    have extents : L.blocks.map (extentAt s.heap.mem ∘ Block.hdr) = L.blocks.map Block.extent := by
      refine List.map_congr_left fun b mem => ?_
      change Extent.mk b.hdr (sizeOf s.heap.mem b.hdr + sizeofHeader) = b.extent
      rw [(tracks.rep.headers b mem).size_eq]
      rfl
    rw [extents]
    exact tiles

theorem listBytes_eq {mem : ByteMem} {bs : List Block}
    (sized : ∀ b ∈ bs, sizeOf mem b.hdr = b.size) :
    listBytes mem (bs.map Block.hdr) = blockBytes bs := by
  unfold listBytes blockBytes
  rw [List.map_map]
  refine congrArg List.sum (List.map_congr_left fun b inBs => ?_)
  exact congrArg (· + sizeofHeader) (sized b inBs)

/-- `kfree` of a large block is exact if and only if it drops no lower neighbour. -/
theorem kfree_exact_iff (tracks : Tracks base s L) {ptr : Nat}
    (valid : s.Valid (.kfree ptr)) (large : 64 < s.heap.blockSize ptr) :
    ∃ t, s.exec mmuAllocAt (.kfree ptr) = some (0, t) ∧
      (KfreeExact s ptr t ↔ ¬ s.heap.DropsLower ptr) := by
  obtain ⟨a, mem, rfl, sub, live⟩ := tracks.owner valid
  have start := tracks.payload mem
  have rep := tracks.rep
  obtain ⟨fs, lost, co⟩ := coalesce_exists (s.heap.blockAt a.ptr) (L.free 4)
  obtain ⟨h', call, rep', -⟩ := rep.kfree_large live large co
  rw [start] at call
  refine ⟨⟨h', revoke s.live a.ptr, s.slack⟩, by simp [exec, call], ?_⟩
  have chain := rep.chains 4
  have chain' := rep'.chains 4
  rw [Layout.edit_free_self] at chain'
  have before : listBytes s.heap.mem ((L.free 4).map Block.hdr) = blockBytes (L.free 4) :=
    listBytes_eq fun b inList => (rep.headers b (Rep.free_mem_blocks inList)).size_eq
  have sized' : ∀ b ∈ fs, sizeOf h'.mem b.hdr = b.size := fun b inFs =>
    (rep'.headers b (@Rep.free_mem_blocks _ 4 b (by rwa [Layout.edit_free_self]))).size_eq
  have after : listBytes h'.mem (fs.map Block.hdr) = blockBytes fs := listBytes_eq sized'
  have total := co.bytes
  rw [blockBytes_cons] at total
  constructor
  · rintro ⟨nodes, nodes', isChain, isChain', bytes, -⟩ drops
    rw [isChain.unique chain, isChain'.unique chain', before, after] at bytes
    obtain ⟨-, front, mid, back, low, up, listed, meetLow, meetUp⟩ := drops
    have order : UpperFirst (s.heap.blockAt a.ptr) (L.free 4) := by
      have shape := listed.unique chain
      obtain ⟨fFront, rest, splitList, rfl, shapeRest⟩ := List.map_eq_append_iff.mp shape.symm
      obtain ⟨upB, rest', rfl, rfl, shapeRest'⟩ := List.map_eq_cons_iff.mp shapeRest
      obtain ⟨fMid, rest'', rfl, rfl, shapeBack⟩ := List.map_eq_append_iff.mp shapeRest'
      obtain ⟨lowB, fBack, rfl, rfl, rfl⟩ := List.map_eq_cons_iff.mp shapeBack
      have lowMem : lowB ∈ L.free 4 := by
        rw [splitList]
        simp
      refine ⟨fFront, fMid, fBack, lowB, upB, ?_, ?_, splitList⟩
      · rw [(rep.headers lowB (Rep.free_mem_blocks lowMem)).size_eq] at meetLow
        exact meetLow
      · unfold Block.stop
        rw [start]
        exact meetUp
    have dropped := co.lost_of_upperFirst (rep.freeList 4).apart order
    cases lost with
    | nil => exact dropped rfl
    | cons c rest =>
        rw [blockBytes_cons] at total
        unfold Heap.blockAt sizeofHeader at *
        dsimp only at total
        omega
  · intro keeps
    have order := order_of_not_dropsLower rep rfl (by rwa [start])
    rw [co.lost_nil (order.resolve_left (Nat.not_le_of_lt large))] at total
    refine ⟨_, _, chain, chain', ?_, ?_⟩
    · change listBytes h'.mem (fs.map Block.hdr) = _
      rw [before, after]
      change blockBytes fs + 0 = _ at total
      unfold Heap.blockAt at total
      dsimp only at total
      omega
    · intro hdr inList hdr' inList'
      obtain ⟨b, inFs, rfl⟩ := List.mem_map.mp inList
      obtain ⟨c, inFs', rfl⟩ := List.mem_map.mp inList'
      have separate := rep'.noNeighbours
      rw [Layout.edit_free_self] at separate
      change b.hdr + sizeofHeader + sizeOf h'.mem b.hdr ≠ c.hdr
      rw [sized' b inFs]
      exact separate b inFs c inFs'

end Results

end Session

end TrollOS.Mem
