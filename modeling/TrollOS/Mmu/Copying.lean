import TrollOS.Mmu.Clearing

/-!
# Copying a tree

The copy of a table is made of frames that were free before, and of nothing
else.  When it is complete it leads to the same pages under the same
descriptors, but for where they are.
-/

namespace TrollOS.Frames

open TrollOS.Lib Mmu

/-- What is behind two entries is the same, given what it is for the levels below. -/
def EntryCopied (level : Nat) (inner : Nat → Nat → Prop) (mem mem' : ByteMem)
    (source target i : Nat) : Prop :=
  (child mem (level + 1) source i = none ∧ child mem' (level + 1) target i = none) ∨
    ∃ c c', child mem (level + 1) source i = some c ∧ child mem' (level + 1) target i = some c' ∧
      (level = 0 → mem'.load32 (target + 4 * i) = setAddress 1 (mem.load32 (source + 4 * i)) c') ∧
        inner c c'

/-- Two trees lead to pages of the same contents under the same page descriptors. -/
def Copied (mem mem' : ByteMem) : Nat → Nat → Nat → Prop
  | 0, source, target => ∀ x, x < pageSize → mem' (target + x) = mem (source + x)
  | level + 1, source, target =>
      ∀ i, i < entries (level + 1) →
        EntryCopied level (Copied mem mem' level) mem mem' source target i

/-- Two memories have the same bytes in these blocks. -/
def Agree (mem mem' : ByteMem) (blocks : List Nat) : Prop :=
  ∀ f ∈ blocks, ∀ x, InBlock pageSize f x → mem' x = mem x

section Agree

variable {mem mem' mem₂ mem₂' : ByteMem} {blocks more : List Nat} {level table source target i c : Nat}

theorem Agree.mono (agree : Agree mem mem' more) (within : blocks ⊆ more) : Agree mem mem' blocks :=
  fun f member => agree f (within member)

theorem agree_of_unchanged (unchanged : Unchanged pageSize mem mem' blocks)
    (aligned : ∀ b ∈ blocks, b % pageSize = 0) (frames : ∀ f ∈ more, f % pageSize = 0)
    (apart : ∀ f ∈ more, f ∉ blocks) : Agree mem mem' more :=
  fun f member _ inside => unchanged.byte aligned (frames f member) (apart f member) inside

theorem Agree.word (agree : Agree mem mem' blocks) (member : table ∈ blocks) (small : i < 128) :
    mem'.load32 (table + 4 * i) = mem.load32 (table + 4 * i) :=
  word_congr small (agree table member)

/-- An entry of one word leads to one place. -/
theorem child_of_word (same : mem'.load32 (table + 4 * i) = mem.load32 (table + 4 * i)) :
    child mem' level table i = child mem level table i := by
  unfold child
  rw [same]

theorem Agree.below (agree : Agree mem mem' (table :: below mem level table)) :
    below mem' level table = Frames.below mem level table :=
  below_congr fun t member => agree t (tables_subset mem level table member)

theorem below_child_subset (small : i < entries (level + 1))
    (leads : child mem (level + 1) table i = some c) :
    c :: below mem level c ⊆ below mem (level + 1) table := by
  intro f member
  rw [below_succ]
  refine List.mem_flatMap.mpr ⟨i, List.mem_range.mpr small, ?_⟩
  rwa [belowAt_some leads]

/-- An entry depends on its word and on the blocks below it. -/
theorem belowAt_agree (word : mem'.load32 (table + 4 * i) = mem.load32 (table + 4 * i))
    (agree : Agree mem mem' (belowAt mem level table i)) :
    belowAt mem' level table i = belowAt mem level table i := by
  cases leads : child mem (level + 1) table i with
  | none => rw [belowAt_none leads, belowAt_none ((child_of_word word).trans leads)]
  | some c =>
      rw [belowAt_some leads] at agree
      rw [belowAt_some leads, belowAt_some ((child_of_word word).trans leads), agree.below]

theorem Copied.congr (agree : Agree mem mem₂ (source :: Frames.below mem level source))
    (agree' : Agree mem' mem₂' (target :: Frames.below mem' level target))
    (copied : Copied mem mem' level source target) : Copied mem₂ mem₂' level source target := by
  induction level generalizing source target with
  | zero =>
      intro x small
      rw [agree' target List.mem_cons_self _ ⟨Nat.le_add_right target x, by omega⟩,
        agree source List.mem_cons_self _ ⟨Nat.le_add_right source x, by omega⟩]
      exact copied x small
  | succ level ih =>
      intro i small
      have bound := Nat.lt_of_lt_of_le small (entries_le (level + 1))
      have word := agree.word List.mem_cons_self bound
      have word' := agree'.word List.mem_cons_self bound
      rcases copied i small with ⟨off, off'⟩ | ⟨c, c', leads, leads', descriptor, inner⟩
      · exact Or.inl ⟨(child_of_word word).trans off, (child_of_word word').trans off'⟩
      · refine Or.inr ⟨c, c', (child_of_word word).trans leads, (child_of_word word').trans leads',
          fun page => ?_, ih ?_ ?_ inner⟩
        · rw [word, word']
          exact descriptor page
        · exact agree.mono (List.subset_cons_of_subset _ (below_child_subset small leads))
        · exact agree'.mono (List.subset_cons_of_subset _ (below_child_subset small leads'))

/-- The same for one entry. -/
theorem EntryCopied.congr (word : mem₂.load32 (source + 4 * i) = mem.load32 (source + 4 * i))
    (word' : mem₂'.load32 (target + 4 * i) = mem'.load32 (target + 4 * i))
    (agree : Agree mem mem₂ (belowAt mem level source i))
    (agree' : Agree mem' mem₂' (belowAt mem' level target i))
    (copied : EntryCopied level (Copied mem mem' level) mem mem' source target i) :
    EntryCopied level (Copied mem₂ mem₂' level) mem₂ mem₂' source target i := by
  rcases copied with ⟨off, off'⟩ | ⟨c, c', leads, leads', descriptor, inner⟩
  · exact Or.inl ⟨(child_of_word word).trans off, (child_of_word word').trans off'⟩
  · rw [belowAt_some leads] at agree
    rw [belowAt_some leads'] at agree'
    refine Or.inr ⟨c, c', (child_of_word word).trans leads, (child_of_word word').trans leads',
      fun page => ?_, inner.congr agree agree'⟩
    rw [word, word']
    exact descriptor page

end Agree

section Entries

variable {s s' : Frames} {chain used : List Nat} {mem : ByteMem} {level source target i j c ph : Nat}

theorem setAddress_lt {w : Nat} (level ph : Nat) (small : w < 2 ^ 32) : setAddress level w ph < 2 ^ 32 := by
  unfold setAddress
  split
  · exact setField_lt _ small (by decide)
  · exact setField_lt _ small (by decide)
  · exact setField_lt _ small (by decide)

theorem linked_lt {w : Nat} (level ph : Nat) (small : w < 2 ^ 32) : linked level w ph < 2 ^ 32 :=
  setField_lt _ (setAddress_lt level ph small) (by decide)

/-- A page descriptor keeps its type when only the address is set. -/
theorem isResident_setAddress (w ph : Nat) : isResident 1 (setAddress 1 w ph) = isResident 1 w := by
  have type : descriptorType (setAddress 1 w ph) = descriptorType w :=
    field_setField_below w _ 20 (by decide : 0 + 2 ≤ 12)
  unfold isResident
  rw [type]

/-- The new descriptor leads to the new frame. -/
theorem link_spec (frame : IsFrame ph) (alignedS : source % pageSize = 0)
    (alignedT : target % pageSize = 0) (small : i < 128)
    (leads : child s.mem (level + 1) source i = some c) :
    ∃ mem, link (level + 1) source target i ph s = some ((), { s with mem := mem }) ∧
      Unchanged pageSize s.mem mem [target] ∧
        (∀ j, j ≠ i → mem.load32 (target + 4 * j) = s.mem.load32 (target + 4 * j)) ∧
          child mem (level + 1) target i = some ph ∧
            (level = 0 →
              mem.load32 (target + 4 * i) = setAddress 1 (s.mem.load32 (source + 4 * i)) ph) := by
  by_cases page : level + 1 = 1
  · obtain rfl : level = 0 := Nat.succ.inj page
    have word : setAddress 1 (s.mem.load32 (source + 4 * i)) ph < 2 ^ 32 :=
      setAddress_lt 1 ph (ByteMem.load32_lt ..)
    have stored : ∀ mem : ByteMem, (mem.store32 (target + 4 * i)
        (setAddress 1 (s.mem.load32 (source + 4 * i)) ph)).load32 (target + 4 * i) =
          setAddress 1 (s.mem.load32 (source + 4 * i)) ph := fun mem => ByteMem.load32_store32 _ _ _ word
    refine ⟨s.mem.store32 (target + 4 * i) (setAddress 1 (s.mem.load32 (source + 4 * i)) ph), ?_,
      store_entry target s.mem small _, fun j other => load_other_entry s.mem _ other, ?_,
      fun _ => stored s.mem⟩
    · unfold link
      rw [if_pos page, bind_ran (readEntry_eq alignedS small s),
        bind_ran (writeEntry_eq alignedT small _ s), modifyEntry_eq alignedT small]
      dsimp only
      rw [ByteMem.load32_store32 _ _ _ (ByteMem.load32_lt ..), ByteMem.store32_store32]
    · unfold child
      rw [stored, isResident_setAddress, (child_eq_some leads).1, if_pos rfl, address_setAddress frame]
  · have word : linked (level + 1) (s.mem.load32 (target + 4 * i)) ph < 2 ^ 32 :=
      linked_lt _ ph (ByteMem.load32_lt ..)
    refine ⟨s.mem.store32 (target + 4 * i) (linked (level + 1) (s.mem.load32 (target + 4 * i)) ph), ?_,
      store_entry target s.mem small _, fun j other => load_other_entry s.mem _ other, ?_,
      fun zero => absurd (congrArg (· + 1) zero) page⟩
    · unfold link
      rw [if_neg page, modifyEntry_modifyEntry target i _ fun w small => setAddress_lt _ ph small,
        modifyEntry_eq alignedT small]
      rfl
    · unfold child
      rw [ByteMem.load32_store32 _ _ _ word, isResident_linked page, if_pos rfl, address_linked frame]

/-- Frames have been taken from the front of the free list. -/
structure Took (s s' : Frames) (chain used rest : List Nat) : Prop where
  split : chain = used ++ rest
  pool : Pool s' rest
  count : s'.freeFrames + used.length = s.freeFrames

/-- What a copy has done, complete or not: the frames it took are what is below the target. -/
structure CopyDone (s s' : Frames) (used grown : List Nat) (target : Nat) (r : Int) : Prop where
  unchanged : Unchanged pageSize s.mem s'.mem (target :: used)
  grown : grown.Perm used
  result : r ≤ 0

/-- A copy takes one frame for each frame of the original, until there is none. -/
structure CopyCount (s' : Frames) (used original : List Nat) (r : Int) : Prop where
  whole : r = 0 → used.length = original.length
  short : r ≠ 0 → s'.freeFrames = 0 ∧ used.length < original.length

section Took

variable {s₁ s₂ : Frames} {rest left grown grown' original more used' : List Nat} {r : Int}

theorem Took.trans (first : Took s s₁ chain used rest) (second : Took s₁ s₂ rest used' left) :
    Took s s₂ chain (used ++ used') left := by
  refine ⟨?_, second.pool, ?_⟩
  · rw [first.split, second.split, List.append_assoc]
  · rw [List.length_append, ← first.count, ← second.count]
    omega

/-- The frames of the pool are aligned, and so are the ones taken. -/
theorem Took.aligned (took : Took s s' chain used rest) (pool : Pool s chain) (alignedT : target % pageSize = 0) :
    ∀ f ∈ target :: used, f % pageSize = 0 := by
  intro f member
  rcases List.mem_cons.mp member with same | deeper
  · exact same ▸ alignedT
  · exact pool.aligned f (took.split ▸ List.mem_append_left _ deeper)

/-- A copy that goes on behind another one. -/
theorem CopyDone.append (first : CopyDone s s₁ used grown target 0) (second : CopyDone s₁ s₂ used' grown' target r) :
    CopyDone s s₂ (used ++ used') (grown ++ grown') target r :=
  ⟨(first.unchanged.mono ((List.sublist_append_left _ _).cons_cons target).subset).trans
      (second.unchanged.mono ((List.sublist_append_right _ _).cons_cons target).subset),
    first.grown.append second.grown, second.result⟩

theorem CopyCount.append (first : CopyCount s₁ used original 0) (second : CopyCount s₂ used' more r) :
    CopyCount s₂ (used ++ used') (original ++ more) r := by
  have same := first.whole rfl
  refine ⟨fun whole => ?_, fun failed => ⟨(second.short failed).1, ?_⟩⟩
  · rw [List.length_append, List.length_append, same, second.whole whole]
  · rw [List.length_append, List.length_append, same]
    exact Nat.add_lt_add_left (second.short failed).2 _

end Took

/-- What copying at this level does. -/
def CopiesAt (level : Nat) : Prop :=
  ∀ {s : Frames} {chain : List Nat} {source target : Nat}, Pool s chain →
    (∀ f ∈ target :: source :: below s.mem level source, IsFrame f) →
    (∀ i, i < entries level → child s.mem level target i = none) →
    (chain ++ target :: source :: below s.mem level source).Nodup →
    ∃ r s' used rest, copy level source target s = some (r, s') ∧ Took s s' chain used rest ∧
      CopyDone s s' used (below s'.mem level target) target r ∧
        CopyCount s' used (below s.mem level source) r ∧
          (r = 0 → Copied s.mem s'.mem level source target)

theorem copyEntry_none (alignedS : source % pageSize = 0) (alignedT : target % pageSize = 0)
    (small : i < 128) (leads : child s.mem level source i = none) (below : Nat → Nat → Work Int) :
    copyEntry level below source target i s =
      some (0,
        { s with
          mem := s.mem.store32 (target + 4 * i)
            (setDescriptorType (s.mem.load32 (target + 4 * i)) 0) }) := by
  have off := child_eq_none leads
  unfold copyEntry
  rw [bind_ran (readEntry_eq alignedS small s), if_neg (Bool.eq_false_iff.mp off),
    bind_ran (modifyEntry_eq alignedT small _ s)]
  rfl

theorem copyEntry_full (aligned : source % pageSize = 0) (small : i < 128)
    (leads : child s.mem level source i = some c) (empty : s.freeFrames = 0)
    (below : Nat → Nat → Work Int) : copyEntry level below source target i s = some (-enomem, s) := by
  unfold copyEntry
  rw [bind_ran (readEntry_eq aligned small s), if_pos (child_eq_some leads).1,
    bind_ran (alloc_empty empty), if_pos rfl]
  rfl

theorem copyEntry_some {s₁ s₂ : Frames} (aligned : source % pageSize = 0) (small : i < 128)
    (leads : child s.mem level source i = some c) (got : alloc s = some (ph, s₁)) (valid : ph ≠ 0)
    (links : link level source target i ph s₁ = some ((), s₂))
    (same : s₂.mem.load32 (source + 4 * i) = s.mem.load32 (source + 4 * i))
    (below : Nat → Nat → Work Int) : copyEntry level below source target i s = below c ph s₂ := by
  obtain ⟨resident, here⟩ := child_eq_some leads
  unfold copyEntry
  rw [bind_ran (readEntry_eq aligned small s), if_pos resident, bind_ran got, if_neg valid,
    bind_ran links, bind_ran (readEntry_eq aligned small s₂), same, here]

/-- A frame that has just been taken has no resident entry. -/
theorem child_taken (s : Frames) (f level : Nat) (small : i < 128) :
    child (taken s f).mem level f i = none := by
  refine child_of_not ?_
  have word : (taken s f).mem.load32 (f + 4 * i) = 0 :=
    ByteMem.load32_zero_mem s.mem (Nat.le_add_right ..) (by unfold pageSize; omega)
  rw [word]
  unfold isResident
  split
  · rfl
  · rfl

theorem Agree.symm {mem mem' : ByteMem} {blocks : List Nat} (agree : Agree mem mem' blocks) :
    Agree mem' mem blocks := fun f member x inside => (agree f member x inside).symm

theorem setDescriptorType_lt {w : Nat} (type : Nat) (small : w < 2 ^ 32) :
    setDescriptorType w type < 2 ^ 32 := setField_lt _ small (by decide)

/-- An entry that leads nowhere is copied as such. -/
theorem copyEntry_none_spec (pool : Pool s chain) (small : i < 128)
    (alignedS : source % pageSize = 0) (alignedT : target % pageSize = 0) (apart : target ∉ chain)
    (leads : child s.mem (level + 1) source i = none) (inner : Nat → Nat → Work Int) :
    ∃ s', copyEntry (level + 1) inner source target i s = some (0, s') ∧ Took s s' chain [] chain ∧
      CopyDone s s' [] (belowAt s'.mem level target i) target 0 ∧
        (∀ j, j ≠ i → s'.mem.load32 (target + 4 * j) = s.mem.load32 (target + 4 * j)) ∧
          child s'.mem (level + 1) target i = none := by
  have entry := store_entry target s.mem small
    (setDescriptorType (s.mem.load32 (target + 4 * i)) 0)
  have off : child (s.mem.store32 (target + 4 * i)
      (setDescriptorType (s.mem.load32 (target + 4 * i)) 0)) (level + 1) target i = none := by
    refine child_of_not ?_
    rw [ByteMem.load32_store32 _ _ _ (setDescriptorType_lt 0 (ByteMem.load32_lt ..))]
    exact isResident_invalid _ _
  have kept := pool.unchanged entry (fun b member => List.mem_singleton.mp member ▸ alignedT)
    (fun f member same => apart (List.mem_singleton.mp same ▸ member))
  refine ⟨_, copyEntry_none alignedS alignedT small leads inner, ⟨rfl, kept, rfl⟩,
    ⟨entry, ?_, Int.le_refl 0⟩, fun j other => load_other_entry s.mem _ other, off⟩
  rw [belowAt_none off]

/-- One round of the copy. -/
theorem copyEntry_spec (inner : CopiesAt level) (pool : Pool s chain) (small : i < entries (level + 1))
    (frames : ∀ f ∈ target :: source :: belowAt s.mem level source i, IsFrame f)
    (fresh : child s.mem (level + 1) target i = none)
    (distinct : (chain ++ target :: source :: belowAt s.mem level source i).Nodup) :
    ∃ r s' used rest, copyEntry (level + 1) (copy level) source target i s = some (r, s') ∧
      Took s s' chain used rest ∧ CopyDone s s' used (belowAt s'.mem level target i) target r ∧
        CopyCount s' used (belowAt s.mem level source i) r ∧
          (∀ j, j ≠ i → j < 128 →
            s'.mem.load32 (target + 4 * j) = s.mem.load32 (target + 4 * j)) ∧
            (r = 0 →
              EntryCopied level (Copied s.mem s'.mem level) s.mem s'.mem source target i) := by
  have bound := Nat.lt_of_lt_of_le small (entries_le (level + 1))
  have frameT := frames target List.mem_cons_self
  have alignedS := (frames source (List.mem_cons_of_mem _ List.mem_cons_self)).aligned
  cases leads : child s.mem (level + 1) source i with
  | none =>
      have apart : target ∉ chain := by grind
      obtain ⟨s', ran, took, done, others, off⟩ :=
        copyEntry_none_spec pool bound alignedS frameT.aligned apart leads (copy level)
      refine ⟨0, s', [], chain, ran, took, done, ⟨fun _ => ?_, fun failed => absurd rfl failed⟩,
        fun j other _ => others j other, fun _ => Or.inl ⟨leads, off⟩⟩
      rw [belowAt_none leads]
  | some c =>
      rw [belowAt_some leads] at frames distinct ⊢
      by_cases empty : s.freeFrames = 0
      · refine ⟨-enomem, s, [], chain, copyEntry_full alignedS bound leads empty _,
          ⟨rfl, pool, rfl⟩, ⟨Unchanged.refl _ _, ?_, by decide⟩,
          ⟨fun wrong => absurd wrong (by decide), fun _ => ⟨empty, Nat.zero_lt_succ _⟩⟩,
          fun _ _ _ => rfl, fun wrong => absurd wrong (by decide)⟩
        rw [belowAt_none fresh]
      · obtain ⟨f, rest, rfl, got, pool₁⟩ := pool.alloc empty
        have frameF := pool.frames f List.mem_cons_self
        have aligned (g : Nat) (member : g ∈ f :: target :: source :: c :: below s.mem level c) :
            g % pageSize = 0 := by
          rcases List.mem_cons.mp member with same | deeper
          · exact same ▸ frameF.aligned
          · exact (frames g deeper).aligned
        have zeroed : Unchanged pageSize s.mem (taken s f).mem [f] := Unchanged.zero s.mem f
        have leads₁ : child (taken s f).mem (level + 1) source i = some c := by
          have apart : source ∉ [f] := by grind
          have word := zeroed.load32 (fun b member => aligned b (by grind)) alignedS apart
            (Nat.le_add_right source (4 * i)) (by unfold pageSize; omega)
          exact (child_of_word word).trans leads
        obtain ⟨mem₂, links, entry, others₂, leads₂, word₂⟩ :=
          link_spec frameF alignedS frameT.aligned bound leads₁
        have start : Unchanged pageSize s.mem mem₂ [f, target] :=
          (zeroed.of_mem List.mem_cons_self).trans (entry.of_mem (by grind))
        have agree : Agree s.mem mem₂ (source :: c :: below s.mem level c) :=
          agree_of_unchanged start (fun b member => aligned b (by grind))
            (fun g member => aligned g (by grind)) (by grind)
        have same := agree.word List.mem_cons_self bound
        have belowC : below mem₂ level c = below s.mem level c :=
          (agree.mono (List.subset_cons_self _ _)).below
        have pool₂ := pool₁.unchanged entry (fun b member => aligned b (by grind)) (by grind)
        have fresh₂ (j : Nat) (inTable : j < entries level) : child mem₂ level f j = none := by
          have below128 := Nat.lt_of_lt_of_le inTable (entries_le level)
          have word := entry.load32 (fun b member => aligned b (by grind)) frameF.aligned
            (by grind) (Nat.le_add_right f (4 * j)) (by unfold pageSize; omega)
          exact (child_of_word word).trans (child_taken s f level below128)
        obtain ⟨r, s₃, used, rest', ran, took, done, counted, copied⟩ := @inner _ _ c f pool₂
          (by
            rw [belowC]
            grind)
          fresh₂
          (by
            rw [belowC]
            grind)
        have fromPool := took.aligned pool₂ frameF.aligned
        have split := took.split
        have targetApart : target ∉ f :: used := by grind
        have targetWord (j : Nat) (inTable : j < 128) :
            s₃.mem.load32 (target + 4 * j) = mem₂.load32 (target + 4 * j) :=
          done.unchanged.load32 fromPool frameT.aligned targetApart (Nat.le_add_right ..)
            (by unfold pageSize; omega)
        have leads₃ : child s₃.mem (level + 1) target i = some f :=
          (child_of_word (targetWord i bound)).trans leads₂
        rw [belowC] at counted
        refine ⟨r, s₃, f :: used, rest', ?_, ⟨?_, took.pool, ?_⟩, ⟨?_, ?_, done.result⟩,
          ⟨fun ok => congrArg (· + 1) (counted.whole ok), fun failed =>
            ⟨(counted.short failed).1, Nat.succ_lt_succ (counted.short failed).2⟩⟩,
          fun j other inTable => ?_, fun ok => Or.inr ⟨c, f, leads, leads₃, fun page => ?_, ?_⟩⟩
        · rw [copyEntry_some alignedS bound leads got frameF.positive links same]
          exact ran
        · rw [split, List.cons_append]
        · have count := took.count
          have left : (taken s f).freeFrames = s.freeFrames - 1 := rfl
          dsimp only at count
          rw [left] at count
          rw [List.length_cons]
          omega
        · exact (start.mono (by grind)).trans (done.unchanged.mono (List.subset_cons_self _ _))
        · rw [belowAt_some leads₃]
          exact done.grown.cons f
        · have before := zeroed.load32 (fun b member => aligned b (by grind)) frameT.aligned
            (by grind) (Nat.le_add_right target (4 * j)) (by unfold pageSize; omega)
          rw [targetWord j inTable, others₂ j other]
          exact before
        · have first := zeroed.load32 (fun b member => aligned b (by grind)) alignedS
            (by grind) (Nat.le_add_right source (4 * i)) (by unfold pageSize; omega)
          rw [targetWord i bound, word₂ page, first]
        · have back : Agree mem₂ s.mem (c :: below mem₂ level c) := by
            rw [belowC]
            exact (agree.mono (List.subset_cons_self _ _)).symm
          exact (copied ok).congr back fun _ _ _ _ => rfl

theorem each_cons {body : Nat → Work Int} {indices : List Nat} {r : Int}
    (ran : body i s = some (r, s')) :
    each (i :: indices) body s = if r < 0 then some (r, s') else each indices body s' := by
  show (body i >>= fun result => if result < 0 then pure result else each indices body) s = _
  rw [bind_ran ran]
  split
  · rfl
  · rfl

/-- The loop of the copy: it ends early when no frame is left. -/
theorem copyEntries_spec (inner : CopiesAt level) {indices : List Nat} (once : indices.Nodup)
    (small : ∀ i ∈ indices, i < entries (level + 1)) (pool : Pool s chain)
    (frames : ∀ f ∈ target :: source :: indices.flatMap (belowAt s.mem level source), IsFrame f)
    (fresh : ∀ i ∈ indices, child s.mem (level + 1) target i = none)
    (distinct : (chain ++ target :: source :: indices.flatMap (belowAt s.mem level source)).Nodup) :
    ∃ r s' used rest, each indices (copyEntry (level + 1) (copy level) source target) s =
        some (r, s') ∧ Took s s' chain used rest ∧
      CopyDone s s' used (indices.flatMap (belowAt s'.mem level target)) target r ∧
        CopyCount s' used (indices.flatMap (belowAt s.mem level source)) r ∧
          (∀ j, j ∉ indices → j < 128 →
            s'.mem.load32 (target + 4 * j) = s.mem.load32 (target + 4 * j)) ∧
            (r = 0 → ∀ i ∈ indices,
              EntryCopied level (Copied s.mem s'.mem level) s.mem s'.mem source target i) := by
  induction indices generalizing s chain with
  | nil =>
      exact ⟨0, s, [], chain, rfl, ⟨rfl, pool, rfl⟩,
        ⟨Unchanged.refl _ _, List.Perm.refl _, Int.le_refl 0⟩,
        ⟨fun _ => rfl, fun failed => absurd rfl failed⟩, fun _ _ _ => rfl,
        fun _ i member => nomatch member⟩
  | cons i rest ih =>
      obtain ⟨first, once⟩ := List.nodup_cons.mp once
      rw [List.flatMap_cons] at frames distinct
      have small128 (j : Nat) (member : j ∈ i :: rest) : j < 128 :=
        Nat.lt_of_lt_of_le (small j member) (entries_le _)
      have aligned (f : Nat) (member : f ∈ target :: source :: (belowAt s.mem level source i ++
          rest.flatMap (belowAt s.mem level source))) : f % pageSize = 0 := (frames f member).aligned
      have framesI : ∀ f ∈ target :: source :: belowAt s.mem level source i, IsFrame f := by
        clear ih
        grind
      have distinctI : (chain ++ target :: source :: belowAt s.mem level source i).Nodup := by
        clear ih
        grind
      obtain ⟨r, s₁, used₁, left₁, ran₁, took₁, done₁, counted₁, others₁, copied₁⟩ :=
        copyEntry_spec inner pool (small i List.mem_cons_self) framesI
          (fresh i List.mem_cons_self) distinctI
      have split₁ := took₁.split
      have alignedT := aligned target List.mem_cons_self
      have usedAligned := took₁.aligned pool alignedT
      have fresh₁ (j : Nat) (member : j ∈ rest) : child s₁.mem (level + 1) target j = none := by
        have word := others₁ j (fun same => first (same ▸ member))
          (small128 j (List.mem_cons_of_mem _ member))
        exact (child_of_word word).trans (fresh j (List.mem_cons_of_mem _ member))
      rw [each_cons ran₁]
      by_cases failed : r < 0
      · rw [if_pos failed]
        have nonzero : r ≠ 0 := Int.ne_of_lt failed
        obtain ⟨empty, fewer⟩ := counted₁.short nonzero
        refine ⟨r, s₁, used₁, left₁, rfl, took₁, ⟨done₁.unchanged, ?_, done₁.result⟩,
          ⟨fun ok => absurd ok nonzero, fun _ => ⟨empty, ?_⟩⟩,
          fun j outside inTable => others₁ j (fun same => outside (same ▸ List.mem_cons_self)) inTable,
          fun ok => absurd ok nonzero⟩
        · have none : rest.flatMap (belowAt s₁.mem level target) = [] :=
            List.flatMap_eq_nil_iff.mpr fun j member => belowAt_none (fresh₁ j member)
          rw [List.flatMap_cons, none, List.append_nil]
          exact done₁.grown
        · rw [List.flatMap_cons, List.length_append]
          exact Nat.lt_add_right _ fewer
      · have ok : r = 0 := Int.le_antisymm done₁.result (Int.not_lt.mp failed)
        rw [if_neg failed]
        have apart : ∀ f ∈ source :: (belowAt s.mem level source i ++
            rest.flatMap (belowAt s.mem level source)), f ∉ target :: used₁ := by
          clear ih
          grind
        have agree : Agree s.mem s₁.mem (source :: (belowAt s.mem level source i ++
            rest.flatMap (belowAt s.mem level source))) :=
          agree_of_unchanged done₁.unchanged usedAligned
            (fun f member => aligned f (List.mem_cons_of_mem _ member)) apart
        have agreeAt (j : Nat) (member : j ∈ rest) : Agree s.mem s₁.mem (belowAt s.mem level source j) :=
          agree.mono fun f deeper => List.mem_cons_of_mem _ (List.mem_append_right _
            (List.mem_flatMap.mpr ⟨j, member, deeper⟩))
        have still : rest.flatMap (belowAt s₁.mem level source) =
            rest.flatMap (belowAt s.mem level source) :=
          List.flatMap_congr fun j member => belowAt_agree
            (agree.word List.mem_cons_self (small128 j (List.mem_cons_of_mem _ member)))
            (agreeAt j member)
        have frames₁ : ∀ f ∈ target :: source :: rest.flatMap (belowAt s₁.mem level source),
            IsFrame f := by
          rw [still]
          clear ih
          grind
        have distinct₁ : (left₁ ++ target :: source ::
            rest.flatMap (belowAt s₁.mem level source)).Nodup := by
          rw [still]
          clear ih
          grind
        obtain ⟨r', s₂, used₂, left₂, ran₂, took₂, done₂, counted₂, others₂, copied₂⟩ := ih once
          (fun j member => small j (List.mem_cons_of_mem _ member)) took₁.pool frames₁ fresh₁ distinct₁
        have split₂ := took₂.split
        have aligned₂ := took₂.aligned took₁.pool alignedT
        have apart₂ : ∀ f ∈ used₁, f ∉ target :: used₂ := by
          clear ih
          grind
        -- what is below the entry copied first stays as it is
        have agreeT : Agree s₁.mem s₂.mem (belowAt s₁.mem level target i) :=
          agree_of_unchanged done₂.unchanged aligned₂
            (fun f member => usedAligned f (List.mem_cons_of_mem _ (done₁.grown.subset member)))
            (fun f member => apart₂ f (done₁.grown.subset member))
        have wordT := others₂ i first (small128 i List.mem_cons_self)
        subst ok
        rw [still] at counted₂
        refine ⟨r', s₂, used₁ ++ used₂, left₂, ran₂, took₁.trans took₂, ?_, ?_, fun j outside inTable => ?_,
          fun done j member => ?_⟩
        · rw [List.flatMap_cons, belowAt_agree wordT agreeT]
          exact done₁.append done₂
        · rw [List.flatMap_cons]
          exact counted₁.append counted₂
        · rw [others₂ j (fun member => outside (List.mem_cons_of_mem _ member)) inTable]
          exact others₁ j (fun same => outside (same ▸ List.mem_cons_self)) inTable
        · rcases List.mem_cons.mp member with same | later
          · rw [same]
            exact (copied₁ rfl).congr rfl wordT (fun _ _ _ _ => rfl) agreeT
          · have word := agree.word List.mem_cons_self (small128 j member)
            refine (copied₂ done j later).congr word.symm rfl ?_ fun _ _ _ _ => rfl
            rw [belowAt_agree word (agreeAt j later)]
            exact (agreeAt j later).symm

theorem copyPage_spec (pool : Pool s chain) (frameS : IsFrame source)
    (frameT : target % pageSize = 0) (apart : target ∉ chain) :
    ∃ s', copy 0 source target s = some (0, s') ∧ Took s s' chain [] chain ∧
      Unchanged pageSize s.mem s'.mem [target] ∧ Copied s.mem s'.mem 0 source target := by
  have changed : Unchanged pageSize s.mem _ [target] := Unchanged.copy s.mem s.mem target source
  have kept := pool.unchanged changed (fun b member => List.mem_singleton.mp member ▸ frameT)
    (fun f member same => apart (List.mem_singleton.mp same ▸ member))
  refine ⟨_, ?_, ⟨rfl, kept, rfl⟩, changed, fun x small => ByteMem.copy_mem s.mem s.mem small⟩
  have copies : copyPage target source s =
      some ((), { s with mem := s.mem.copy target s.mem source pageSize }) := by
    unfold copyPage
    rw [if_pos frameT, base_frame frameS]
  exact bind_ran copies

end Entries

/-- The copy at every level, by induction on the level. -/
theorem copiesAt (level : Nat) : CopiesAt level := by
  induction level with
  | zero =>
      intro s chain source target pool frames _ distinct
      have apart : target ∉ chain := by grind
      obtain ⟨s', ran, took, changed, copied⟩ := copyPage_spec pool
        (frames source (List.mem_cons_of_mem _ List.mem_cons_self))
        (frames target List.mem_cons_self).aligned apart
      exact ⟨0, s', [], chain, ran, took, ⟨changed, List.Perm.refl _, Int.le_refl 0⟩,
        ⟨fun _ => rfl, fun failed => absurd rfl failed⟩, fun _ => copied⟩
  | succ level ih =>
      intro s chain source target pool frames fresh distinct
      rw [below_succ] at frames distinct
      obtain ⟨r, s', used, rest, ran, took, done, counted, -, copied⟩ := copyEntries_spec ih List.nodup_range
        (fun i member => List.mem_range.mp member) pool frames
        (fun i member => fresh i (List.mem_range.mp member)) distinct
      have result : (if r < 0 then pure r else pure 0 : Work Int) s' = some (r, s') := by
        by_cases failed : r < 0
        · rw [if_pos failed]
          rfl
        · have zero : r = 0 := Int.le_antisymm done.result (Int.not_lt.mp failed)
          rw [if_neg failed, zero]
          rfl
      refine ⟨r, s', used, rest, (bind_ran ran).trans result, took, ?_, ?_,
        fun ok i small => copied ok i (List.mem_range.mpr small)⟩
      · rwa [below_succ]
      · rwa [below_succ]

end TrollOS.Frames
