import TrollOS.Mem.Model

/-!
# What the free lists leave alone

Only `ksbrk` moves the heap end and calls the page mapper.  Taking a block, cutting a chunk
and freeing change headers and list heads.
-/

namespace TrollOS.Mem

open TrollOS.Lib

namespace Heap

variable {M : Type} {h h' h'' : Heap ByteMem M}

/-- No step between the two heaps has called `ksbrk`. -/
structure SameSystem (h h' : Heap ByteMem M) : Prop where
  heapEnd : h'.heapEnd = h.heapEnd
  mmu : h'.mmu = h.mmu
  mapped : h'.mapped = h.mapped

theorem SameSystem.refl (h : Heap ByteMem M) : h.SameSystem h := ⟨rfl, rfl, rfl⟩

theorem SameSystem.trans (first : h.SameSystem h') (second : h'.SameSystem h'') : h.SameSystem h'' :=
  ⟨second.heapEnd.trans first.heapEnd, second.mmu.trans first.mmu, second.mapped.trans first.mapped⟩

theorem assign_system (h : Heap ByteMem M) (link : Link) (value : Nat) : h.SameSystem (h.assign link value) := by
  cases link with
  | root list => exact ⟨rfl, rfl, rfl⟩
  | next header => exact ⟨rfl, rfl, rfl⟩

/-- The same with other bytes in memory. -/
theorem SameSystem.withMem {mem : ByteMem} (same : { h with mem := mem }.SameSystem h') :
    h.SameSystem h' := ⟨same.heapEnd, same.mmu, same.mapped⟩

theorem take_eq (h : Heap ByteMem M) (iter : Link) (size : Nat) : ∃ ptr mem value,
    h.take iter size = (ptr, assign { h with mem := mem } iter value) := by
  unfold take
  extract_lets header newheader mem mem₁ mem₂
  split
  · exact ⟨_, mem₂, newheader, rfl⟩
  · exact ⟨_, h.mem, _, rfl⟩

theorem take_system (h : Heap ByteMem M) (iter : Link) (size : Nat) : h.SameSystem (h.take iter size).2 := by
  obtain ⟨ptr, mem, value, same⟩ := take_eq h iter size
  rw [same]
  exact (assign_system { h with mem := mem } iter value).withMem

theorem splitQuick_system (h : Heap ByteMem M) (list : Fin 5) (header : Nat) :
    h.SameSystem (h.splitQuick list header) := by
  unfold splitQuick
  dsimp only
  generalize carve h.mem header _ _ none = carved
  rcases carved with ⟨mem, tmp⟩
  cases tmp with
  | none => exact ⟨rfl, rfl, rfl⟩
  | some last => exact ⟨rfl, rfl, rfl⟩

theorem mergeScan_system {fuel : Nat} {iter : Link} {header header' : Nat} {merged merged' : Bool}
    (call : mergeScan fuel h iter header merged = some (h', header', merged')) : h.SameSystem h' := by
  induction fuel generalizing h iter header merged with
  | zero => exact nomatch call
  | succ fuel ih =>
      unfold mergeScan at call
      dsimp only at call
      split_ifs at call with stop lower upper
      · obtain ⟨rfl, -⟩ := Prod.mk.inj (Option.some.inj call)
        exact .refl h
      · exact (assign_system _ iter _).withMem.trans (ih call)
      · exact (assign_system _ iter _).withMem.trans (ih call)
      · exact ih call

theorem kfree_system {ptr : Nat} (call : h.kfree ptr = some h') : h.SameSystem h' := by
  unfold kfree at call
  dsimp only at call
  split_ifs at call with null quick
  · obtain rfl := Option.some.inj call
    exact .refl h
  · obtain rfl := Option.some.inj call
    exact ⟨rfl, rfl, rfl⟩
  · obtain ⟨⟨h₁, header, merged⟩, scan, result⟩ := Option.map_eq_some_iff.mp call
    have same := mergeScan_system scan
    dsimp only at result
    cases merged with
    | true =>
        obtain rfl := result
        exact same
    | false =>
        obtain rfl := result
        exact same.trans ⟨rfl, rfl, rfl⟩

end Heap

end TrollOS.Mem
