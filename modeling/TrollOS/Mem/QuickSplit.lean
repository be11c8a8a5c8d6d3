import TrollOS.Mem.Take

/-!
# Cutting a fresh page into quick-list blocks

`carve` writes a row of equal headers through a pointer that is one link ahead
of the block being written.  The last link first points behind the row and is
then redirected to the old list, so the row ends up in front of it.
-/

namespace TrollOS.Mem

open TrollOS.Lib

def quickBlocks (hdr size : Nat) : Nat → List Block
  | 0 => []
  | count + 1 => ⟨hdr, size⟩ :: quickBlocks (hdr + sizeofHeader + size) size count

section QuickBlocks

variable {hdr size count : Nat} {b : Block}

/-- Where a block of the row lies. -/
theorem mem_quickBlocks (mem : b ∈ quickBlocks hdr size count) :
    b.size = size ∧ hdr ≤ b.hdr ∧ b.stop ≤ hdr + count * (size + sizeofHeader) := by
  induction count generalizing hdr with
  | zero => cases mem
  | succ count ih =>
      rcases List.mem_cons.mp mem with same | later
      · rw [same]
        refine ⟨rfl, Nat.le_refl _, ?_⟩
        unfold Block.stop
        dsimp only
        rw [Nat.succ_mul]
        omega
      · obtain ⟨size_eq, low, high⟩ := ih later
        refine ⟨size_eq, by omega, ?_⟩
        rw [Nat.succ_mul]
        omega

theorem quickBlocks_aligned (start : hdr % 4 = 0) (whole : size % 4 = 0)
    (mem : b ∈ quickBlocks hdr size count) : b.hdr % 4 = 0 := by
  induction count generalizing hdr with
  | zero => cases mem
  | succ count ih =>
      rcases List.mem_cons.mp mem with same | later
      · rw [same]
        exact start
      · refine ih ?_ later
        unfold sizeofHeader
        omega

theorem quickBlocks_apart (hdr size count : Nat) :
    (quickBlocks hdr size count).Pairwise Block.Apart := by
  induction count generalizing hdr with
  | zero => exact List.Pairwise.nil
  | succ count ih =>
      refine List.pairwise_cons.mpr ⟨fun c mem => Or.inl ?_, ih _⟩
      exact (mem_quickBlocks mem).2.1

/-- The last block of a row of at least one. -/
theorem quickBlocks_getLast? (hdr size count : Nat) :
    (quickBlocks hdr size (count + 1)).getLast? =
      some ⟨hdr + count * (size + sizeofHeader), size⟩ := by
  induction count generalizing hdr with
  | zero => simp [quickBlocks]
  | succ count ih =>
      rw [quickBlocks, quickBlocks, List.getLast?_cons_cons, ← quickBlocks, ih, Nat.succ_mul]
      congr 2
      omega

/-- A row and the bytes behind it tile one extent. -/
theorem quickBlocks_tile {lo hi tail : Nat} {rest : List Extent}
    (tiles : Partition lo hi (⟨hdr, count * (size + sizeofHeader) + tail⟩ :: rest)) :
    Partition lo hi ((quickBlocks hdr size count).map Block.extent ++
      (⟨hdr + count * (size + sizeofHeader), tail⟩ :: rest)) := by
  induction count generalizing hdr rest with
  | zero => simpa [quickBlocks] using tiles
  | succ count ih =>
      have grouped : (count + 1) * (size + sizeofHeader) + tail =
          (size + sizeofHeader) + (count * (size + sizeofHeader) + tail) := by
        rw [Nat.succ_mul]
        omega
      rw [grouped] at tiles
      have later := ih (tiles.split.perm (List.Perm.swap _ _ _))
      have place : hdr + (size + sizeofHeader) + count * (size + sizeofHeader) =
          hdr + (count + 1) * (size + sizeofHeader) := by
        rw [Nat.succ_mul]
        omega
      have next : hdr + (size + sizeofHeader) = hdr + sizeofHeader + size := by omega
      rw [place, next] at later
      refine later.perm (List.perm_iff_count.mpr fun e => ?_)
      simp only [quickBlocks, List.map_cons, List.count_append, List.count_cons, Block.extent]
      omega

end QuickBlocks

namespace Heap

variable {M : Type}

/-- The block the next round of `carve` writes. -/
def carveAt (mem : ByteMem) (header : Nat) : Option Nat → Nat
  | none => header
  | some block => nextOf mem block

theorem carve_succ (mem : ByteMem) (header blockSize count : Nat) (tmp : Option Nat) :
    carve mem header blockSize (count + 1) tmp =
      carve (setNext (setSize mem (carveAt mem header tmp) blockSize) (carveAt mem header tmp)
        (u32 (carveAt mem header tmp + blockSize + sizeofHeader)))
        header blockSize count (some (carveAt mem header tmp)) := by
  cases tmp <;> rfl

/-- What `carve` leaves behind: a row of linked headers, and no other byte changed. -/
structure Carved (mem mem' : ByteMem) (start blockSize count : Nat) : Prop where
  frame : ∀ x, x < start ∨ start + count * (blockSize + sizeofHeader) ≤ x → mem' x = mem x
  sizes : ∀ b ∈ quickBlocks start blockSize count, sizeOf mem' b.hdr = blockSize
  links : Segment (nextOf mem') start ((quickBlocks start blockSize count).map Block.hdr)
    (start + count * (blockSize + sizeofHeader))

theorem carve_spec {header blockSize start : Nat} (count : Nat) (mem : ByteMem) (tmp : Option Nat)
    (here : carveAt mem header tmp = start) (pos : 0 < start)
    (room : start + (count + 1) * (blockSize + sizeofHeader) < 4294967296) :
    ∃ mem', carve mem header blockSize (count + 1) tmp =
        (mem', some (start + count * (blockSize + sizeofHeader))) ∧
      Carved mem mem' start blockSize (count + 1) := by
  induction count generalizing mem tmp start with
  | zero =>
      refine ⟨_, by rw [carve_succ, here, carve, Nat.zero_mul, Nat.add_zero], ?_⟩
      have target : start + blockSize + sizeofHeader < 4294967296 := by omega
      constructor
      · intro x off
        unfold sizeofHeader at off
        refine (ByteMem.store32_off _ _ (by omega)).trans (ByteMem.store32_off _ _ (by omega))
      · intro b inRow
        rw [List.mem_singleton.mp inRow]
        refine (sizeOf_setNext _ _ _).trans (sizeOf_setSize _ _ _ (by omega))
      · refine ⟨rfl, Nat.ne_of_gt pos, ?_⟩
        change nextOf (setNext _ start _) start = _
        rw [nextOf_setNext _ _ _ (u32_lt _), u32_eq target]
        omega
  | succ count ih =>
      have step : start + sizeofHeader + blockSize + (count + 1) * (blockSize + sizeofHeader) =
          start + (count + 1 + 1) * (blockSize + sizeofHeader) := by
        rw [Nat.succ_mul (count + 1)]
        omega
      let mem₁ := setNext (setSize mem start blockSize) start
        (u32 (start + blockSize + sizeofHeader))
      have next₁ : nextOf mem₁ start = start + sizeofHeader + blockSize := by
        refine (nextOf_setNext _ _ _ (u32_lt _)).trans ?_
        rw [u32_eq (by omega)]
        omega
      have size₁ : sizeOf mem₁ start = blockSize :=
        (sizeOf_setNext _ _ _).trans (sizeOf_setSize _ _ _ (by omega))
      obtain ⟨mem', call, carved⟩ := ih mem₁ (some start) next₁ (by omega) (by omega)
      have keptWord : sizeOf mem' start = sizeOf mem₁ start ∧
          nextOf mem' start = nextOf mem₁ start := by
        unfold sizeofHeader at carved
        constructor
        · exact ByteMem.load32_congr fun x low high => carved.frame x (Or.inl (by omega))
        · exact ByteMem.load32_congr fun x low high => carved.frame x (Or.inl (by omega))
      refine ⟨mem', ?_, ?_⟩
      · rw [carve_succ, here, call, Nat.succ_mul]
        congr 2
        omega
      · constructor
        · intro x off
          refine (carved.frame x (by omega)).trans ?_
          unfold sizeofHeader at off
          refine (ByteMem.store32_off _ _ ?_).trans (ByteMem.store32_off _ _ ?_)
          · rw [Nat.succ_mul] at off
            omega
          · rw [Nat.succ_mul] at off
            omega
        · intro b inRow
          rcases List.mem_cons.mp inRow with same | later
          · rw [same]
            exact keptWord.1.trans size₁
          · exact carved.sizes b later
        · refine ⟨rfl, Nat.ne_of_gt pos, ?_⟩
          change Segment (nextOf mem') (nextOf mem' start) _ _
          rw [keptWord.2, next₁, ← step]
          exact carved.links

/-- The last link of a row is redirected to an old list: the row stands in front of it. -/
theorem Carved.relink {mem mem' : ByteMem} {start blockSize k target : Nat}
    (carved : Carved mem mem' start blockSize (k + 1)) (small : target < 4294967296) :
    (∀ x, x < start ∨ start + (k + 1) * (blockSize + sizeofHeader) ≤ x →
        setNext mem' (start + k * (blockSize + sizeofHeader)) target x = mem x) ∧
      (∀ b ∈ quickBlocks start blockSize (k + 1),
        sizeOf (setNext mem' (start + k * (blockSize + sizeofHeader)) target) b.hdr = blockSize) ∧
      ∀ rest, Chain (nextOf (setNext mem' (start + k * (blockSize + sizeofHeader)) target)) target rest →
        Chain (nextOf (setNext mem' (start + k * (blockSize + sizeofHeader)) target)) start
          ((quickBlocks start blockSize (k + 1)).map Block.hdr ++ rest) := by
  let last : Block := ⟨start + k * (blockSize + sizeofHeader), blockSize⟩
  have apart := quickBlocks_apart start blockSize (k + 1)
  have getLast : (quickBlocks start blockSize (k + 1)).getLast? = some last := quickBlocks_getLast? _ _ _
  have lastRow : last ∈ quickBlocks start blockSize (k + 1) := List.mem_of_getLast? getLast
  refine ⟨fun x off => ?_, fun b inRow => ?_, fun rest tail => ?_⟩
  · refine (ByteMem.store32_off _ _ ?_).trans (carved.frame x off)
    rw [Nat.succ_mul] at off
    unfold sizeofHeader at off ⊢
    omega
  · refine Eq.trans ?_ (carved.sizes b inRow)
    by_cases same : b = last
    · rw [same]
      exact sizeOf_setNext _ _ _
    · exact sizeOf_setNext_off _ (apart.forall lastRow inRow (Ne.symm same)).headers
  · have distinct : ((quickBlocks start blockSize (k + 1)).map Block.hdr).Nodup := by
      refine List.pairwise_map.mpr (apart.imp fun {c d} off => ?_)
      unfold Block.Apart Block.stop sizeofHeader at off
      omega
    have lastHdr : ((quickBlocks start blockSize (k + 1)).map Block.hdr).getLast? = some last.hdr := by
      rw [List.getLast?_map, getLast]
      rfl
    refine carved.links.relink distinct tail ?_ (fun empty => ?_) (fun _ => rfl) ?_
    · intro a inA notLast
      obtain ⟨c, inC, rfl⟩ := List.mem_map.mp inA
      have other : c ≠ last := by
        intro same
        rw [lastHdr, same] at notLast
        exact notLast rfl
      exact nextOf_setNext_off _ (apart.forall lastRow inC other.symm).headers
    · exact absurd empty (by simp [quickBlocks])
    · intro a isLast
      rw [lastHdr] at isLast
      rw [← Option.some.inj isLast]
      exact nextOf_setNext _ _ _ small

end Heap

namespace Rep

variable {M : Type} {base : Nat} {h : Heap ByteMem M} {L : Layout} {b : Block} {keep : List Block}

/-- How many blocks a chunk of `size` payload bytes yields for list `l`. -/
def quickCount (l : Fin 5) (size : Nat) : Nat := (size + sizeofHeader) / (8 <<< l.val + sizeofHeader)

def quickTail (l : Fin 5) (b : Block) : Extent :=
  ⟨b.hdr + quickCount l b.size * (8 <<< l.val + sizeofHeader),
    (b.size + sizeofHeader) % (8 <<< l.val + sizeofHeader)⟩

theorem shift_whole : ∀ l : Fin 5, (8 <<< l.val) % 4 = 0 ∧ 8 ≤ 8 <<< l.val := by
  decide

/-- The row and the bytes behind it fill the place of the block. -/
theorem quickBlocks_retile {lo hi : Nat} {rest : List Extent} (l : Fin 5) (b : Block)
    (tiles : Partition lo hi (b.extent :: rest)) :
    Partition lo hi ((quickBlocks b.hdr (8 <<< l.val) (quickCount l b.size)).map Block.extent ++
      (quickTail l b :: rest)) := by
  have total : quickCount l b.size * (8 <<< l.val + sizeofHeader) + (quickTail l b).len =
      b.size + sizeofHeader := by
    rw [Nat.mul_comm]
    exact Nat.div_add_mod _ _
  have whole : b.extent = ⟨b.hdr, quickCount l b.size * (8 <<< l.val + sizeofHeader) + (quickTail l b).len⟩ := by
    rw [total]
    rfl
  rw [whole] at tiles
  exact quickBlocks_tile tiles

/-- The head of a list is an address. -/
theorem freelist_small (rep : Rep base h L) (l : Fin 5) : h.freelist l < 4294967296 := by
  rw [(rep.chains l).head_eq]
  cases shape : L.free l with
  | nil => simp
  | cons d rest =>
      have inD : d ∈ L.free l := by
        rw [shape]
        exact List.mem_cons_self
      have low := rep.stop_small (free_mem_blocks inD)
      unfold Block.stop at low
      simp only [List.map_cons, List.headD_cons]
      omega

/-- Cutting the live block `b` into blocks of quick list `l`. -/
theorem splitQuick (rep : Rep base h L) (live : L.live.Perm (b :: keep)) {l : Fin 5} (quick : l < 4)
    (enough : 8 <<< l.val ≤ b.size) :
    Rep base (h.splitQuick l b.hdr)
      (L.edit keep l (quickBlocks b.hdr (8 <<< l.val) (quickCount l b.size) ++ L.free l)
        (quickTail l b :: L.slack) L.lost) ∧
      Kept keep h (h.splitQuick l b.hdr) ∧ (h.splitQuick l b.hdr).heapEnd = h.heapEnd := by
  have mem := live_mem_blocks (live_mem live)
  have okB := rep.headers b mem
  have small := rep.stop_small mem
  have nonzero := rep.hdr_ne_zero mem
  have apartB := rep.live_apart live
  obtain ⟨wholeSize, big⟩ := shift_whole l
  obtain ⟨k, count⟩ : ∃ k, quickCount l b.size = k + 1 := by
    have pos : 0 < quickCount l b.size := Nat.div_pos (by omega) (by omega)
    exact ⟨quickCount l b.size - 1, by omega⟩
  have rowEnd : b.hdr + (k + 1) * (8 <<< l.val + sizeofHeader) ≤ b.stop := by
    have total : quickCount l b.size * (8 <<< l.val + sizeofHeader) ≤ b.size + sizeofHeader := Nat.div_mul_le_self _ _
    rw [count] at total
    unfold Block.stop
    omega
  obtain ⟨mem', call, carved⟩ := Heap.carve_spec k h.mem none
    (show Heap.carveAt h.mem b.hdr none = b.hdr from rfl) (Nat.pos_of_ne_zero nonzero)
    (Nat.lt_of_le_of_lt rowEnd small)
  obtain ⟨frame, sizes, links⟩ := carved.relink (rep.freelist_small l)
  let h' : Heap ByteMem M :=
    { h with
      mem := setNext mem' (b.hdr + k * (8 <<< l.val + sizeofHeader)) (h.freelist l)
      freelist := Function.update h.freelist l b.hdr }
  have result : h.splitQuick l b.hdr = h' := by
    have rounds : u32 (sizeOf h.mem b.hdr + sizeofHeader) / (8 <<< l.val + sizeofHeader) = k + 1 := by
      rw [okB.size_eq, u32_eq (by unfold Block.stop at small; omega)]
      exact count
    unfold Heap.splitQuick
    dsimp only
    rw [rounds, call]
    rfl
  have ofFree : ∀ {d : Block}, d ∈ L.free l → d ∈ keep ++ L.freeBlocks := fun inD =>
    List.mem_append_right _ (Layout.mem_freeBlocks.mpr ⟨l, inD⟩)
  have outside : ∀ x, ¬ (b.hdr ≤ x ∧ x < b.stop) → h'.mem x = h.mem x := fun x off => frame x (by omega)
  have kept : ∀ d ∈ keep ++ L.freeBlocks, ∀ x, d.hdr ≤ x → x < d.stop → h'.mem x = h.mem x := by
    intro d inD x low high
    apply outside
    have off := apartB d inD
    unfold Block.Apart at off
    omega
  have tail : Chain (nextOf h'.mem) (h.freelist l) ((L.free l).map Block.hdr) := by
    refine (rep.chains l).congr fun a inA => ?_
    obtain ⟨d, inD, rfl⟩ := List.mem_map.mp inA
    have word : d.hdr + 8 ≤ d.stop := Nat.le_add_right _ _
    exact (ByteMem.load32_congr fun x low high =>
      kept d (ofFree inD) x (by omega) (by omega)).symm
  rw [result]
  refine ⟨?_, fun c inC x low high => kept c (List.mem_append_left _ inC) x low high, rfl⟩
  apply @surgery M base h L h' _ l keep _ rep [b] [] live (List.Perm.refl keep)
    (L.edit_free_self _ _ _ _ _) (fun k ne => L.edit_free_ne _ _ _ _ ne)
    (fun k ne => by simp [h', ne]) rfl
  · intro rest tiles
    have tiles' : Partition base h.heapEnd
        (b.extent :: ((L.free l).map Block.extent ++ ((L.slack ++ L.lost) ++ rest))) := tiles
    refine (quickBlocks_retile l b tiles').perm (List.perm_iff_count.mpr fun e => ?_)
    simp only [Layout.edit, List.map_append, List.count_append, List.count_cons, List.nil_append]
    omega
  · intro x off
    exact outside x (off b (by simp))
  · intro c inNew
    rw [List.nil_append, count] at inNew
    rcases List.mem_append.mp inNew with isRow | old
    · have size_eq : c.size = 8 <<< l.val := (mem_quickBlocks isRow).1
      constructor
      · rw [size_eq]
        exact sizes c isRow
      · exact quickBlocks_aligned okB.hdr_aligned wholeSize isRow
      · rw [size_eq]
        exact wholeSize
      · omega
    · have was := rep.headers c (free_mem_blocks old)
      have word : c.hdr + 8 ≤ c.stop := Nat.le_add_right _ _
      exact { was with
        size_eq := (ByteMem.load32_congr fun x low high =>
          kept c (ofFree old) x low (by omega)).trans was.size_eq }
  · have head : h'.freelist l = b.hdr := by
      simp [h']
    rw [head, List.map_append, count]
    exact links _ tail
  · refine rep.edit_noNeighbours l fun same => ?_
    subst same
    exact absurd quick (by decide)

end Rep

end TrollOS.Mem
