import TrollOS.Mmu.Placing
import TrollOS.Mmu.Window

/-!
# Who owns a frame

Every frame the allocator manages is on the free list or in the tree of one user
space, and there only once.  An operation on one space moves frames between the
free list and the tree of this space; the other trees keep all their bytes.
-/

namespace TrollOS.Frames

open TrollOS.Lib Mmu

def trees (mem : ByteMem) (roots : List Nat) : List Nat := roots.flatMap (tree mem)

/-- The frames are the free list and the trees, each frame once. -/
structure Owned (frames : List Nat) (s : Frames) (roots chain : List Nat) : Prop where
  pool : Pool s chain
  split : (chain ++ trees s.mem roots).Perm frames
  distinct : frames.Nodup
  valid : ∀ f ∈ frames, IsFrame f

/-- What one operation does to the frames `mine` and the trees of the other spaces. -/
structure Moved (s s' : Frames) (mine mine' others : List Nat) : Prop where
  perm : mine'.Perm mine
  unchanged : Unchanged pageSize s.mem s'.mem mine
  kept : trees s'.mem others = trees s.mem others
  agree : Agree s.mem s'.mem (trees s.mem others)

section Trees

variable {s s' : Frames} {frames roots chain mine mine' others : List Nat} {root : Nat} {mem mem' : ByteMem}

theorem trees_cons (mem : ByteMem) (root : Nat) (roots : List Nat) :
    trees mem (root :: roots) = tree mem root ++ trees mem roots := List.flatMap_cons ..

theorem trees_perm {more : List Nat} (perm : roots.Perm more) (mem : ByteMem) :
    (trees mem roots).Perm (trees mem more) := perm.flatMap_right _

theorem tree_subset (member : root ∈ roots) (mem : ByteMem) : tree mem root ⊆ trees mem roots :=
  fun _ inTree => List.mem_flatMap.mpr ⟨root, member, inTree⟩

/-- Trees whose blocks are the same are the same. -/
theorem trees_agree (agree : Agree mem mem' (trees mem roots)) : trees mem' roots = trees mem roots := by
  refine List.flatMap_congr fun root member => ?_
  have here := agree.mono (tree_subset member mem)
  exact congrArg (root :: ·) here.below

/-- Frames of one list without repetition are apart. -/
theorem moved_of_unchanged (valid : ∀ f ∈ frames, IsFrame f) (distinct : frames.Nodup)
    (all : (mine ++ trees s.mem others).Perm frames) (perm : mine'.Perm mine)
    (unchanged : Unchanged pageSize s.mem s'.mem mine) : Moved s s' mine mine' others := by
  have valid' (f : Nat) (member : f ∈ mine ++ trees s.mem others) : f % pageSize = 0 :=
    (valid f (all.subset member)).aligned
  have apart := (List.nodup_append.mp (all.nodup_iff.mpr distinct)).2.2
  have agree : Agree s.mem s'.mem (trees s.mem others) :=
    agree_of_unchanged unchanged (fun f member => valid' f (List.mem_append_left _ member))
      (fun f member => valid' f (List.mem_append_right _ member))
      fun f member again => apart f again f member rfl
  exact ⟨perm, unchanged, trees_agree agree, agree⟩

/-- Only frames of the allocator have changed. -/
theorem Moved.within (moved : Moved s s' mine mine' others)
    (all : (mine ++ trees s.mem others).Perm frames) : Unchanged pageSize s.mem s'.mem frames :=
  moved.unchanged.mono fun _ member => all.subset (List.mem_append_left _ member)

theorem Moved.all (moved : Moved s s' mine mine' others)
    (all : (mine ++ trees s.mem others).Perm frames) :
    (mine' ++ trees s'.mem others).Perm frames := by
  rw [moved.kept]
  exact (moved.perm.append_right _).trans all

namespace Owned

/-- One space set apart from the others. -/
theorem apart (owned : Owned frames s roots chain) (member : root ∈ roots) :
    ((chain ++ tree s.mem root) ++ trees s.mem (roots.erase root)).Perm frames := by
  have first := trees_perm (List.perm_cons_erase member) s.mem
  rw [trees_cons] at first
  rw [List.append_assoc]
  exact (first.symm.append_left chain).trans owned.split

theorem distinct_apart (owned : Owned frames s roots chain) (member : root ∈ roots) :
    (chain ++ tree s.mem root).Nodup :=
  (List.nodup_append.mp ((owned.apart member).nodup_iff.mpr owned.distinct)).1

theorem valid_tree (owned : Owned frames s roots chain) (member : root ∈ roots) (f : Nat)
    (inTree : f ∈ tree s.mem root) : IsFrame f :=
  owned.valid f (owned.split.subset (List.mem_append_right _ (tree_subset member s.mem inTree)))

/-- The trees after an operation on one of them. -/
theorem of_moved {chain' : List Nat} (owned : Owned frames s roots chain) (member : root ∈ roots)
    (pool : Pool s' chain')
    (moved : Moved s s' (chain ++ tree s.mem root) (chain' ++ tree s'.mem root) (roots.erase root)) :
    Owned frames s' roots chain' := by
  refine ⟨pool, ?_, owned.distinct, owned.valid⟩
  have first := trees_perm (List.perm_cons_erase member) s'.mem
  rw [trees_cons] at first
  have all := moved.all (owned.apart member)
  rw [List.append_assoc] at all
  exact (first.append_left chain').trans all

/-! ## The operations -/

/-- A root table for a new space. -/
theorem alloc (owned : Owned frames s roots chain) (left : s.freeFrames ≠ 0) :
    ∃ f rest, Frames.alloc s = some (f, taken s f) ∧ f ≠ 0 ∧
      Owned frames (taken s f) (f :: roots) rest ∧ below (taken s f).mem 3 f = [] ∧
        Moved s (taken s f) chain (rest ++ [f]) roots := by
  obtain ⟨f, rest, rfl, got, pool⟩ := owned.pool.alloc left
  have frame := owned.pool.frames f List.mem_cons_self
  have empty : below (taken s f).mem 3 f = [] := below_zero fun i small =>
    ByteMem.load32_zero_mem s.mem (Nat.le_add_right ..) (by unfold pageSize; omega)
  have perm : (rest ++ [f]).Perm (f :: rest) := List.perm_append_singleton ..
  have zeroed : Unchanged pageSize s.mem (taken s f).mem (f :: rest) :=
    (Unchanged.zero s.mem f).of_mem List.mem_cons_self
  have moved := moved_of_unchanged owned.valid owned.distinct owned.split perm zeroed
  refine ⟨f, rest, got, frame.positive, ⟨pool, ?_, owned.distinct, owned.valid⟩, empty, moved⟩
  have all := moved.all owned.split
  rw [List.append_assoc] at all
  rw [trees_cons]
  unfold tree
  rw [empty]
  exact all

/-- A page is put into a space. -/
theorem place (owned : Owned frames s roots chain) (member : root ∈ roots) (virt : Nat)
    (supervisor writeProtected : Bool) (enough : wanted s.mem virt 3 root ≤ s.freeFrames) :
    ∃ frame s' used rest, allocAt root virt supervisor writeProtected s = some (frame, s') ∧
      Placement s s' virt supervisor writeProtected 3 root frame chain used rest ∧
        Owned frames s' roots rest ∧
          Moved s s' (chain ++ tree s.mem root) (rest ++ tree s'.mem root) (roots.erase root) := by
  obtain ⟨frame, s', used, rest, ran, placement⟩ := placesAt virt supervisor writeProtected 2
    owned.pool (owned.valid_tree member) (owned.distinct_apart member) enough
  obtain ⟨changed, grew⟩ := placement.grew
  have grown : (tree s'.mem root).Perm (used ++ tree s.mem root) :=
    (grew.grown.cons root).trans List.perm_middle.symm
  have perm : (rest ++ tree s'.mem root).Perm (chain ++ tree s.mem root) := by
    rw [placement.split]
    refine (grown.append_left rest).trans ?_
    rw [← List.append_assoc]
    exact List.perm_append_comm.append_right _
  have within : changed ⊆ chain ++ tree s.mem root := by
    intro f inChanged
    rw [placement.split]
    rcases List.mem_append.mp (grew.within inChanged) with isUsed | inTree
    · exact List.mem_append_left _ (List.mem_append_left _ isUsed)
    · exact List.mem_append_right _ inTree
  have moved := moved_of_unchanged owned.valid owned.distinct (owned.apart member) perm
    (grew.unchanged.mono within)
  rw [allocAt_eq_place]
  exact ⟨frame, s', used, rest, ran, placement, owned.of_moved member placement.pool moved, moved⟩

/-- A space is emptied. -/
theorem clear (owned : Owned frames s roots chain) (member : root ∈ roots) :
    ∃ s' freed, clear 3 root s = some ((), s') ∧ freed.Perm (below s.mem 3 root) ∧
      s'.freeFrames = s.freeFrames ∧ below s'.mem 3 root = [] ∧
        Owned frames s' roots (freed ++ chain) ∧
          Moved s s' (chain ++ tree s.mem root) ((freed ++ chain) ++ tree s'.mem root)
            (roots.erase root) := by
  obtain ⟨s', freed, ran, perm, cleared, empty⟩ := clear_root owned.pool (owned.valid_tree member)
    (owned.distinct_apart member)
  have perm' : ((freed ++ chain) ++ tree s'.mem root).Perm (chain ++ tree s.mem root) := by
    unfold tree
    rw [empty]
    have swapped : (freed ++ chain).Perm (chain ++ below s.mem 3 root) :=
      List.perm_append_comm.trans (perm.append_left chain)
    refine (swapped.append_right [root]).trans ?_
    rw [List.append_assoc]
    exact (List.perm_append_singleton ..).append_left chain
  have within : root :: freed ⊆ chain ++ tree s.mem root := by
    intro f inList
    refine List.mem_append_right _ ?_
    rcases List.mem_cons.mp inList with same | inFreed
    · exact same ▸ List.mem_cons_self
    · exact List.mem_cons_of_mem _ (perm.subset inFreed)
  have moved := moved_of_unchanged owned.valid owned.distinct (owned.apart member) perm'
    (cleared.unchanged.mono within)
  exact ⟨s', freed, ran, perm, cleared.count, empty, owned.of_moved member cleared.pool moved, moved⟩

/-- A space is given back. -/
theorem free (owned : Owned frames s roots chain) (member : root ∈ roots) :
    ∃ s' chain', (do
        Frames.clear 3 root
        Frames.free root : Work Unit) s = some ((), s') ∧ s'.freeFrames = s.freeFrames ∧
      Owned frames s' (roots.erase root) chain' ∧ Unchanged pageSize s.mem s'.mem frames ∧
        Agree s.mem s'.mem (trees s.mem (roots.erase root)) := by
  obtain ⟨s₁, freed, ran₁, -, count, empty, owned₁, moved₁⟩ := owned.clear member
  have alone : tree s₁.mem root = [root] := congrArg (root :: ·) empty
  have once := owned₁.distinct_apart member
  have frame := owned₁.valid_tree member root List.mem_cons_self
  rw [alone] at once
  have fresh : root ∉ freed ++ chain := fun inChain =>
    (List.nodup_append.mp once).2.2 root inChain root List.mem_cons_self rfl
  obtain ⟨gives, pool⟩ := owned₁.pool.free frame fresh
  have all := owned₁.apart member
  rw [alone] at all
  have given : Unchanged pageSize s₁.mem (s₁.mem.store32 root s₁.freeFrame) ((freed ++ chain) ++ [root]) :=
    (Unchanged.store32 s₁.mem _ (Nat.le_refl root) (Nat.add_le_add_left (by decide) root)).of_mem
      (List.mem_append_right _ List.mem_cons_self)
  have moved₂ := @moved_of_unchanged s₁
    { s₁ with mem := s₁.mem.store32 root s₁.freeFrame, freeFrame := root } frames
    ((freed ++ chain) ++ [root]) (root :: (freed ++ chain)) (roots.erase root) owned.valid
    owned.distinct all (List.perm_append_singleton ..).symm given
  refine ⟨_, _, (bind_ran ran₁).trans gives, count, ⟨pool, moved₂.all all, owned.distinct, owned.valid⟩,
    (moved₁.within (owned.apart member)).trans (moved₂.within all), fun f inTrees x inside => ?_⟩
  rw [moved₂.agree f (moved₁.kept.symm ▸ inTrees) x inside]
  exact moved₁.agree f inTrees x inside

theorem child_of_empty {mem : ByteMem} {level table i : Nat} (empty : below mem (level + 1) table = [])
    (small : i < entries (level + 1)) : child mem (level + 1) table i = none := by
  cases leads : child mem (level + 1) table i with
  | none => rfl
  | some c =>
      have inside := below_child_subset small leads List.mem_cons_self
      rw [empty] at inside
      cases inside

/-- A space is copied into an empty one. -/
theorem copy {source target : Nat} (owned : Owned frames s roots chain) (sourceIn : source ∈ roots)
    (targetIn : target ∈ roots) (other : source ≠ target) (empty : below s.mem 3 target = []) :
    ∃ r s' used rest, copy 3 source target s = some (r, s') ∧ Took s s' chain used rest ∧
      Owned frames s' roots rest ∧
        Moved s s' (chain ++ tree s.mem target) (rest ++ tree s'.mem target) (roots.erase target) ∧
          r ≤ 0 ∧ (r = 0 ↔ (below s.mem 3 source).length ≤ s.freeFrames) ∧
            (r = 0 → Copied s.mem s'.mem 3 source target) := by
  have inOthers : source ∈ roots.erase target := (List.mem_erase_of_ne other).mpr sourceIn
  have alone : tree s.mem target = [target] := congrArg (target :: ·) empty
  have all := owned.apart targetIn
  have once : (chain ++ target :: source :: below s.mem 3 source).Nodup := by
    have parts := trees_perm (List.perm_cons_erase inOthers) s.mem
    rw [trees_cons] at parts
    have whole := ((parts.symm.append_left _).trans all).nodup_iff.mpr owned.distinct
    rw [← List.append_assoc, alone] at whole
    have front := (List.nodup_append.mp whole).1
    rw [List.append_assoc] at front
    exact front
  have frames' (f : Nat) (member : f ∈ target :: source :: below s.mem 3 source) : IsFrame f := by
    rcases List.mem_cons.mp member with same | inTree
    · exact same ▸ owned.valid_tree targetIn target List.mem_cons_self
    · exact owned.valid_tree sourceIn f inTree
  obtain ⟨r, s', used, rest, ran, took, done, counted, copied⟩ := @copiesAt 3 s chain source target
    owned.pool frames' (fun i small => child_of_empty empty small) once
  have perm : (rest ++ tree s'.mem target).Perm (chain ++ tree s.mem target) := by
    rw [took.split, alone]
    have swapped : (rest ++ below s'.mem 3 target).Perm (used ++ rest) :=
      (done.grown.append_left rest).trans List.perm_append_comm
    exact List.perm_middle.trans ((swapped.cons target).trans (List.perm_append_singleton ..).symm)
  have within : target :: used ⊆ chain ++ tree s.mem target := by
    intro f inList
    rw [took.split]
    rcases List.mem_cons.mp inList with same | isUsed
    · exact List.mem_append_right _ (same ▸ List.mem_cons_self)
    · exact List.mem_append_left _ (List.mem_append_left _ isUsed)
  have moved := moved_of_unchanged owned.valid owned.distinct all perm (done.unchanged.mono within)
  have count := took.count
  refine ⟨r, s', used, rest, ran, took, owned.of_moved targetIn took.pool moved, moved, done.result,
    ⟨fun ok => ?_, fun enough => ?_⟩, copied⟩
  · rw [← counted.whole ok, ← count]
    exact Nat.le_add_left ..
  · by_contra failed
    obtain ⟨empty, fewer⟩ := counted.short failed
    rw [empty, Nat.zero_add] at count
    exact Nat.lt_irrefl _ (Nat.lt_of_lt_of_le fewer (count ▸ enough))

end Owned

end Trees

end TrollOS.Frames
