import TrollOS.Mem.Safety

/-!
# Size classes

A block comes to a quick list by its own size, or as a fresh block of the size of the
class.  What is left of a block of a quick list that has been split is smaller than its
class and stays on the list all the same.
-/

namespace TrollOS.Mem

open TrollOS.Lib Rep

/-- Every block of a quick list is one for which that list is chosen. -/
def Heap.Classed {μ M : Type} [HeapMemory μ] (h : Heap μ M) : Prop :=
  ∀ l : Fin 5, l < 4 → ∀ nodes, Chain (nextOf h.mem) (h.freelist l) nodes →
    ∀ hdr ∈ nodes, quickList (sizeOf h.mem hdr) = l

/-- The size of the first block of a quick list that is large enough, or of a fresh one. -/
def Heap.firstFit {μ M : Type} [HeapMemory μ] (h : Heap μ M) (size : Nat) (nodes : List Nat) : Nat :=
  ((nodes.find? fun hdr => size ≤ sizeOf h.mem hdr).map (sizeOf h.mem)).getD
    (8 <<< (quickList size).val)

/-- A small request for which a block of a quick list has to be split. -/
def Heap.SplitsQuick {μ M : Type} [HeapMemory μ] (h : Heap μ M) (size : Nat) : Prop :=
  quickList size < 4 ∧ ∃ nodes, Chain (nextOf h.mem) (h.freelist (quickList size)) nodes ∧
    (size + 3) / 4 * 4 + sizeofHeader < h.firstFit size nodes

/-- A fresh block belongs to its class. -/
theorem quickList_fresh : ∀ l : Fin 5, l < 4 → quickList (8 <<< l.val) = l := by
  decide

/-- What is left of a split block is too small for the class of the request. -/
theorem quickList_left {size blockSize : Nat} (small : quickList size < 4)
    (same : quickList blockSize = quickList size)
    (splits : (size + 3) / 4 * 4 + sizeofHeader < blockSize) :
    quickList (blockSize - ((size + 3) / 4 * 4 + sizeofHeader)) ≠ quickList size := by
  have few := (quickList_lt_iff size).mp small
  rw [← same] at small
  have few' := (quickList_lt_iff blockSize).mp small
  unfold sizeofHeader at *
  unfold quickList at same ⊢
  norm_num at same ⊢
  split_ifs at same ⊢ <;> omega

section Layouts

variable {M : Type} {base size : Nat} {h h₁ h' : Heap ByteMem M} {L L' L₁ : Layout}

def Layout.Classed (L : Layout) : Prop := ∀ l : Fin 5, l < 4 → ∀ b ∈ L.free l, quickList b.size = l

theorem Rep.classed_iff (rep : Rep base h L) : h.Classed ↔ L.Classed := by
  constructor
  · intro classed l quick b inList
    have same := classed l quick _ (rep.chains l) b.hdr (List.mem_map.mpr ⟨b, inList, rfl⟩)
    rwa [(rep.headers b (free_mem_blocks inList)).size_eq] at same
  · intro classed l quick nodes chain hdr member
    rw [chain.unique (rep.chains l)] at member
    obtain ⟨b, inList, rfl⟩ := List.mem_map.mp member
    rw [(rep.headers b (free_mem_blocks inList)).size_eq]
    exact classed l quick b inList

/-- The scan finds the block `c`. -/
theorem Rep.firstFit_found (rep : Rep base h L) {front back : List Block} {c : Block}
    (split : L.free (quickList size) = front ++ c :: back) (tooSmall : ∀ d ∈ front, d.size < size)
    (fit : size ≤ c.size) : h.firstFit size ((L.free (quickList size)).map Block.hdr) = c.size := by
  have sized : ∀ d ∈ front ++ c :: back, sizeOf h.mem d.hdr = d.size := by
    intro d member
    rw [← split] at member
    exact (rep.headers d (free_mem_blocks member)).size_eq
  have none : (front.map Block.hdr).find? (fun hdr => size ≤ sizeOf h.mem hdr) = none := by
    rw [List.find?_eq_none]
    intro hdr member
    obtain ⟨d, inFront, rfl⟩ := List.mem_map.mp member
    rw [sized d (List.mem_append_left _ inFront), decide_eq_true_iff]
    exact Nat.not_le.mpr (tooSmall d inFront)
  have here := sized c (List.mem_append_right _ List.mem_cons_self)
  unfold Heap.firstFit
  rw [split, List.map_append, List.map_cons, List.find?_append, none, Option.none_or,
    List.find?_cons_of_pos (by rw [here, decide_eq_true_iff]; exact fit), Option.map_some, here]
  rfl

/-- The scan finds nothing. -/
theorem Rep.firstFit_missing (rep : Rep base h L)
    (missing : ∀ c ∈ L.free (quickList size), c.size < size) :
    h.firstFit size ((L.free (quickList size)).map Block.hdr) = 8 <<< (quickList size).val := by
  have none : ((L.free (quickList size)).map Block.hdr).find? (fun hdr => size ≤ sizeOf h.mem hdr) =
      none := by
    rw [List.find?_eq_none]
    intro hdr member
    obtain ⟨d, inList, rfl⟩ := List.mem_map.mp member
    rw [(rep.headers d (free_mem_blocks inList)).size_eq, decide_eq_true_iff]
    exact Nat.not_le.mpr (missing d inList)
  unfold Heap.firstFit
  rw [none]
  rfl

theorem Rep.splitsQuick_iff (rep : Rep base h L) : h.SplitsQuick size ↔
    quickList size < 4 ∧
      (size + 3) / 4 * 4 + sizeofHeader < h.firstFit size ((L.free (quickList size)).map Block.hdr) := by
  refine and_congr_right fun _ => ⟨?_, fun splits => ⟨_, rep.chains _, splits⟩⟩
  rintro ⟨nodes, chain, splits⟩
  rwa [chain.unique (rep.chains _)] at splits

/-- New blocks of a quick list are of its class. -/
theorem Restocked.classed (classed : L.Classed) (restocked : Restocked size L L₁) : L₁.Classed := by
  intro l quick b inList
  by_cases same : l = quickList size
  · subst same
    obtain ⟨fresh, list, sizes⟩ := restocked.1 quick
    rw [list] at inList
    rcases List.mem_append.mp inList with isFresh | old
    · rw [sizes b isFresh]
      exact quickList_fresh _ quick
    · exact classed _ quick b old
  · rw [restocked.2 l same] at inList
    exact classed l quick b inList

/-- The block that is drawn has the size the scan finds. -/
theorem drawn_size (rep : Rep base h L)
    (drawn : Drawn size L L' ∧ h.SameSystem h' ∨ (∀ c ∈ L.free (quickList size), c.size < size) ∧
      h₁.SameSystem h' ∧ ∃ L₁, Restocked size L L₁ ∧ Drawn size L₁ L') (quick : quickList size < 4) :
    ∃ L₁ : Layout, (L.Classed → L₁.Classed) ∧ (∀ k, k ≠ quickList size → L'.free k = L₁.free k) ∧
      ∃ front c back, L₁.free (quickList size) = front ++ c :: back ∧
        L'.free (quickList size) = front ++ (left c size ++ back) ∧
          c.size = h.firstFit size ((L.free (quickList size)).map Block.hdr) := by
  rcases drawn with ⟨⟨⟨front, c, back, split, tooSmall, fit, after⟩, others⟩, -⟩ |
    ⟨missing, -, L₁, restocked, ⟨front, c, back, split, tooSmall, fit, after⟩, others⟩
  · exact ⟨L, id, others, front, c, back, split, after, (rep.firstFit_found split tooSmall fit).symm⟩
  · refine ⟨L₁, fun classed => Restocked.classed classed restocked, others, front, c, back, split, after, ?_⟩
    obtain ⟨fresh, list, sizes⟩ := restocked.1 quick
    have member : c ∈ fresh ++ L.free (quickList size) := by
      rw [← list, split]
      exact List.mem_append_right _ List.mem_cons_self
    rw [rep.firstFit_missing missing]
    rcases List.mem_append.mp member with isFresh | old
    · exact sizes c isFresh
    · exact absurd (missing c old) (Nat.not_lt.mpr fit)

/-- An allocation from a heap in order leaves it so exactly when it splits no block of a
quick list. -/
theorem kmalloc_classed_iff {mmuAllocAt : M → Nat → Nat × M} (rep : Rep base h L) (pos : 0 < size)
    (more : h.MoreFits size) (classed : h.Classed) {ptr : Nat}
    (call : h.kmalloc mmuAllocAt size = some (ptr, h')) : h'.Classed ↔ ¬ h.SplitsQuick size := by
  obtain ⟨b, h₁, L', call', served, drawn⟩ := rep.kmalloc_drawn mmuAllocAt pos more
  rw [call] at call'
  obtain ⟨-, rfl⟩ := Prod.mk.inj (Option.some.inj call')
  have before := rep.classed_iff.mp classed
  rw [served.rep.classed_iff, rep.splitsQuick_iff]
  by_cases quick : quickList size < 4
  · obtain ⟨L₁, carried, others, front, c, back, split, after, size_eq⟩ := drawn_size rep drawn quick
    have here := carried before
    have ofClass : ∀ d ∈ front ++ c :: back, quickList d.size = quickList size := fun d member =>
      here _ quick d (by rw [split]; exact member)
    rw [← size_eq, and_iff_right quick]
    constructor
    · intro classed' splits
      have cut : left c size = [⟨c.hdr + sizeofHeader + (size + 3) / 4 * 4,
          c.size - ((size + 3) / 4 * 4 + sizeofHeader)⟩] := if_pos splits
      refine quickList_left quick (ofClass c (List.mem_append_right _ List.mem_cons_self)) splits ?_
      refine classed' _ quick ⟨c.hdr + sizeofHeader + (size + 3) / 4 * 4, _⟩ ?_
      rw [after, cut]
      exact List.mem_append_right _ List.mem_cons_self
    · intro whole l small d inList
      by_cases same : l = quickList size
      · subst same
        have none : left c size = [] := if_neg whole
        rw [after, none, List.nil_append] at inList
        exact ofClass d (Heap.mem_of_mem_rest inList)
      · rw [others l same] at inList
        exact here l small d inList
  · refine iff_of_true (fun l small d inList => ?_) fun both => quick both.1
    have other : l ≠ quickList size := fun same => quick (same ▸ small)
    rcases drawn with ⟨⟨-, others⟩, -⟩ | ⟨-, -, L₁, restocked, -, others⟩
    · rw [others l other] at inList
      exact before l small d inList
    · rw [others l other] at inList
      exact Restocked.classed before restocked l small d inList

/-- A freed block goes to the list of its own size. -/
theorem kfree_classed {b : Block} {keep : List Block} (rep : Rep base h L)
    (live : L.live.Perm (b :: keep)) (classed : h.Classed)
    (call : h.kfree (b.hdr + sizeofHeader) = some h') : h'.Classed := by
  have before := rep.classed_iff.mp classed
  by_cases quick : b.size ≤ 64
  · have small := (quickList_lt_iff b.size).mpr quick
    rw [rep.kfree_quick live quick] at call
    obtain rfl := Option.some.inj call
    rw [(rep.push live small).classed_iff]
    intro l lt c inList
    by_cases same : l = quickList b.size
    · subst same
      rw [Layout.edit_free_self] at inList
      rcases List.mem_cons.mp inList with rfl | old
      · rfl
      · exact before _ lt c old
    · rw [Layout.edit_free_ne _ _ _ _ _ same] at inList
      exact before l lt c inList
  · obtain ⟨fs, lost, co⟩ := coalesce_exists b (L.free 4)
    obtain ⟨h₁, call', rep', -⟩ := rep.kfree_large live (Nat.lt_of_not_le quick) co
    rw [call] at call'
    obtain rfl := Option.some.inj call'
    rw [rep'.classed_iff]
    intro l lt c inList
    have other : l ≠ 4 := fun same => by
      rw [same] at lt
      exact absurd lt (by decide)
    rw [Layout.edit_free_ne _ _ _ _ _ other] at inList
    exact before l lt c inList

end Layouts

/-! ## Runs -/

namespace Session

section Statements

variable {μ M : Type} [HeapMemory μ]

/-- The call splits no block of a quick list. -/
def Unsplit (s : Session μ M) : Call → Prop
  | .kmalloc size => size ≠ 0 → ¬ s.heap.SplitsQuick size
  | .kfree _ => True
  | .krealloc _ size => size ≠ 0 → ¬ s.heap.SplitsQuick size

/-- Every quick list holds blocks of its own class; `free l` are the headers met along
`freelist[l]`. -/
structure QuickLists (s : Session μ M) (free : Fin 5 → List Nat) : Prop where
  lists : ∀ l, Chain (nextOf s.heap.mem) (s.heap.freelist l) (free l)
  class_eq : ∀ l : Fin 5, l < 4 → ∀ hdr ∈ free l, quickList (sizeOf s.heap.mem hdr) = l

end Statements

variable {M : Type} {mmuAllocAt : M → Nat → Nat × M} {base : Nat} {s t : Session ByteMem M} {L : Layout}

/-- What one call preserves. -/
theorem exec_classed (tracks : Tracks base s L) (classed : s.heap.Classed) {c : Call}
    (valid : s.Valid c) (unsplit : s.Unsplit c) {ptr : Nat}
    (ran : s.exec mmuAllocAt c = some (ptr, t)) : t.heap.Classed := by
  cases c with
  | kmalloc size =>
      obtain ⟨⟨p, h'⟩, call, result⟩ := Option.map_eq_some_iff.mp ran
      obtain ⟨-, rfl⟩ := Prod.mk.inj result
      by_cases zero : size = 0
      · rw [zero] at call
        obtain ⟨-, rfl⟩ := Prod.mk.inj (Option.some.inj call)
        exact classed
      · exact (kmalloc_classed_iff tracks.rep (Nat.pos_of_ne_zero zero) (valid zero) classed call).mpr
          (unsplit zero)
  | kfree ptr =>
      obtain ⟨a, mem, rfl, -, live⟩ := tracks.owner valid
      obtain ⟨h', call, result⟩ := Option.map_eq_some_iff.mp ran
      obtain ⟨-, rfl⟩ := Prod.mk.inj result
      rw [← tracks.payload mem] at call
      exact kfree_classed tracks.rep live classed call
  | krealloc old size =>
      obtain ⟨isLive, more⟩ := valid
      obtain ⟨a, mem, rfl, -, live⟩ := tracks.owner isLive
      have start := tracks.payload mem
      obtain ⟨⟨p, h'⟩, call, result⟩ := Option.map_eq_some_iff.mp ran
      obtain ⟨-, rfl⟩ := Prod.mk.inj result
      have nonnull : a.ptr ≠ 0 := by
        have low := tracks.ptrs a mem
        unfold sizeofHeader at low
        omega
      by_cases zero : size = 0
      · unfold Heap.krealloc at call
        rw [if_neg nonnull, if_pos zero] at call
        obtain ⟨h₁, free, result⟩ := Option.map_eq_some_iff.mp call
        obtain ⟨-, rfl⟩ := Prod.mk.inj result
        rw [← start] at free
        exact kfree_classed tracks.rep live classed free
      · obtain ⟨c, h₁, h₂, L₂, malloc, rep₁, copy, copied⟩ := tracks.rep.copy mmuAllocAt
          (tracks.block_mem mem) (Nat.pos_of_ne_zero zero) (more zero)
        have here : h₁.Classed := (kmalloc_classed_iff tracks.rep (Nat.pos_of_ne_zero zero) (more zero)
          classed malloc).mpr (unsplit zero)
        have moved : h₂.Classed := copied.rep.classed_iff.mpr (rep₁.classed_iff.mp here)
        have live₂ : L₂.live.Perm (s.heap.blockAt a.ptr ::
            (c :: (revoke s.live a.ptr).map fun a => s.heap.blockAt a.ptr)) := by
          rw [copied.live]
          exact (List.Perm.cons c live).trans (List.Perm.swap _ c _)
        rw [start] at copy
        rw [Heap.krealloc_eq mmuAllocAt s.heap nonnull zero, copy, Option.bind_some] at call
        obtain ⟨h₃, free, result⟩ := Option.map_eq_some_iff.mp call
        obtain ⟨-, rfl⟩ := Prod.mk.inj result
        rw [← start] at free
        exact kfree_classed copied.rep live₂ moved free

theorem classed_of_unsplit (run : Permitted mmuAllocAt Unsplit base s) : s.heap.Classed := by
  refine run.invariant (fun s init l _ nodes chain hdr member => ?_)
    (fun s L c ptr t tracks classed valid unsplit ran => exec_classed tracks classed valid unsplit ran)
    fun s L x b tracks tracks' classed =>
      tracks'.rep.classed_iff.mpr (tracks.rep.classed_iff.mp classed)
  rw [init.lists l] at chain
  rw [chain.unique (show Chain _ 0 [] from rfl)] at member
  exact nomatch member

/-- After such a run an allocation keeps the classes exactly when it splits no such block. -/
theorem kmalloc_iff_of_unsplit (run : Permitted mmuAllocAt Unsplit base s) {size ptr : Nat}
    (pos : size ≠ 0) (valid : s.Valid (.kmalloc size))
    (ran : s.exec mmuAllocAt (.kmalloc size) = some (ptr, t)) :
    t.heap.Classed ↔ ¬ s.heap.SplitsQuick size := by
  obtain ⟨L, tracks⟩ := run.tracks
  obtain ⟨⟨p, h'⟩, call, result⟩ := Option.map_eq_some_iff.mp ran
  obtain ⟨-, rfl⟩ := Prod.mk.inj result
  exact kmalloc_classed_iff tracks.rep (Nat.pos_of_ne_zero pos) (valid pos) (classed_of_unsplit run) call

end Session

end TrollOS.Mem
