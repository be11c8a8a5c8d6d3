import TrollOS.Lib.Chain
import TrollOS.Mmu.Trees

/-!
# The pool of free frames

The free list is threaded through the frames themselves.  What is in a frame
that is on the list matters only as far as its first word.
-/

namespace TrollOS.Frames

open TrollOS.Lib Mmu

/-- The free list: a chain at least as long as the counter says. -/
structure Pool (s : Frames) (chain : List Nat) : Prop where
  linked : Chain (fun f => s.mem.load32 f) s.freeFrame chain
  enough : s.freeFrames ≤ chain.length
  frames : ∀ f ∈ chain, IsFrame f

variable {s : Frames} {chain : List Nat} {mem : ByteMem} {f table i : Nat}

theorem Pool.distinct (pool : Pool s chain) : chain.Nodup := pool.linked.nodup

theorem Pool.aligned (pool : Pool s chain) : ∀ f ∈ chain, f % pageSize = 0 :=
  fun f member => (pool.frames f member).aligned

/-- Work on other frames leaves the free list as it is. -/
theorem Pool.unchanged {blocks : List Nat} (pool : Pool s chain)
    (unchanged : Unchanged pageSize s.mem mem blocks) (aligned : ∀ b ∈ blocks, b % pageSize = 0)
    (apart : ∀ f ∈ chain, f ∉ blocks) : Pool { s with mem := mem } chain := by
  refine ⟨pool.linked.congr fun f member => ?_, pool.enough, pool.frames⟩
  exact (unchanged.load32 aligned (pool.aligned f member) (apart f member) (Nat.le_refl f)
    (Nat.add_le_add_left (by decide) f)).symm

theorem base_frame (frame : IsFrame f) : base f = f := by
  have aligned := frame.aligned
  unfold base pageLevelFieldAddr pageLevelAddrField
  unfold pageSize at aligned
  omega

/-- A frame is given back. -/
theorem Pool.free (pool : Pool s chain) (frame : IsFrame f) (fresh : f ∉ chain) :
    free f s = some ((), { s with mem := s.mem.store32 f s.freeFrame, freeFrame := f }) ∧
      Pool { s with mem := s.mem.store32 f s.freeFrame, freeFrame := f } (f :: chain) := by
  have inPage : f + 4 ≤ f + pageSize := Nat.add_le_add_left (by decide) f
  have other := pool.unchanged (Unchanged.store32 s.mem s.freeFrame (Nat.le_refl f) inPage)
    (fun b member => List.mem_singleton.mp member ▸ frame.aligned)
    (fun g member same => fresh (List.mem_singleton.mp same ▸ member))
  have word : s.freeFrame < 4294967296 := by
    cases chain with
    | nil =>
        have empty : s.freeFrame = 0 := pool.linked
        rw [empty]
        decide
    | cons first rest =>
        have head : s.freeFrame = first := pool.linked.1
        rw [head]
        exact (pool.frames first List.mem_cons_self).inRange
  constructor
  · unfold Frames.free
    rw [base_frame frame]
  · refine ⟨⟨rfl, frame.positive, ?_⟩, Nat.le_succ_of_le pool.enough, fun g member => ?_⟩
    · have link : (s.mem.store32 f s.freeFrame).load32 f = s.freeFrame :=
        ByteMem.load32_store32 _ _ _ word
      dsimp only
      rw [link]
      exact other.linked
    · rcases List.mem_cons.mp member with same | older
      · exact same ▸ frame
      · exact pool.frames g older

def taken (s : Frames) (f : Nat) : Frames :=
  ⟨s.mem.zero f pageSize, s.freeFrames - 1, s.mem.load32 f⟩

/-- A frame is taken, as long as the counter says there is one. -/
theorem Pool.alloc (pool : Pool s chain) (left : s.freeFrames ≠ 0) :
    ∃ f rest, chain = f :: rest ∧ alloc s = some (f, taken s f) ∧ Pool (taken s f) rest := by
  cases chain with
  | nil => exact absurd (Nat.le_zero.mp pool.enough) left
  | cons f rest =>
      have head : s.freeFrame = f := pool.linked.1
      have frame := pool.frames f List.mem_cons_self
      have apart := (List.nodup_cons.mp pool.distinct).1
      refine ⟨f, rest, rfl, ?_, ?_, ?_, fun g member => pool.frames g (List.mem_cons_of_mem _ member)⟩
      · unfold Frames.alloc taken
        rw [if_neg left, head, if_pos frame.aligned]
      · refine pool.linked.2.2.congr fun g member => ?_
        have other := pool.frames g (List.mem_cons_of_mem _ member)
        exact ((Unchanged.zero s.mem f).load32
          (fun b inList => List.mem_singleton.mp inList ▸ frame.aligned) other.aligned
          (fun same => apart (List.mem_singleton.mp same ▸ member)) (Nat.le_refl g)
          (Nat.add_le_add_left (by decide) g)).symm
      · have length := pool.enough
        rw [List.length_cons] at length
        exact Nat.sub_le_of_le_add length

theorem alloc_empty (none : s.freeFrames = 0) : alloc s = some (0, s) := if_pos none

/-! ## Entries of tables -/

theorem readEntry_eq (aligned : table % pageSize = 0) (small : i < 128) (s : Frames) :
    readEntry table i s = some (s.mem.load32 (table + 4 * i), s) := by
  refine if_pos ?_
  rw [aligned]
  unfold pageSize
  omega

theorem writeEntry_eq (aligned : table % pageSize = 0) (small : i < 128) (v : Nat) (s : Frames) :
    writeEntry table i v s = some ((), { s with mem := s.mem.store32 (table + 4 * i) v }) := by
  refine if_pos ?_
  rw [aligned]
  unfold pageSize
  omega

theorem modifyEntry_eq (aligned : table % pageSize = 0) (small : i < 128) (g : Nat → Nat)
    (s : Frames) :
    modifyEntry table i g s =
      some ((), { s with mem := s.mem.store32 (table + 4 * i) (g (s.mem.load32 (table + 4 * i))) }) := by
  unfold modifyEntry
  rw [bind_ran (readEntry_eq aligned small s), writeEntry_eq aligned small]

theorem store_entry (table : Nat) (mem : ByteMem) (small : i < 128) (v : Nat) :
    Unchanged pageSize mem (mem.store32 (table + 4 * i) v) [table] := by
  refine Unchanged.store32 mem v (Nat.le_add_right ..) ?_
  unfold pageSize
  omega

theorem load_other_entry (mem : ByteMem) {j : Nat} (v : Nat) (other : j ≠ i) :
    (mem.store32 (table + 4 * i) v).load32 (table + 4 * j) = mem.load32 (table + 4 * j) :=
  ByteMem.load32_store32_off mem v (by omega)

end TrollOS.Frames
