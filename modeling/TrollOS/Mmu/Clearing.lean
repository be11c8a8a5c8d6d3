import TrollOS.Mmu.Pool

/-!
# Giving a tree back

Clearing a table puts every frame below it on the free list, once.  The table
itself stays; a root table is left without a resident entry.
-/

namespace TrollOS.Frames

open TrollOS.Lib Mmu

/-- The frames in `freed` are on the free list, and nothing has changed but these frames and
the table they were below. -/
structure Cleared (s s' : Frames) (chain freed : List Nat) (table : Nat) : Prop where
  pool : Pool s' (freed ++ chain)
  count : s'.freeFrames = s.freeFrames
  unchanged : Unchanged pageSize s.mem s'.mem (table :: freed)

structure ClearedEntries (s s' : Frames) (chain freed : List Nat) (level table : Nat)
    (indices : List Nat) : Prop extends Cleared s s' chain freed table where
  others : ∀ j, j ∉ indices → j < 128 →
    s'.mem.load32 (table + 4 * j) = s.mem.load32 (table + 4 * j)
  gone : level = 3 → ∀ i ∈ indices, isResident 3 (s'.mem.load32 (table + 4 * i)) = false

/-- What clearing a table of this level does. -/
def ClearsAt (level : Nat) : Prop :=
  ∀ {s : Frames} {chain : List Nat} {table : Nat}, Pool s chain →
    (∀ f ∈ table :: below s.mem level table, IsFrame f) →
    (chain ++ table :: below s.mem level table).Nodup →
    ∃ s' freed, clear level table s = some ((), s') ∧
      freed.Perm (below s.mem level table) ∧ Cleared s s' chain freed table

variable {s s' : Frames} {chain freed : List Nat} {level table i c : Nat}

theorem Cleared.refl (pool : Pool s chain) (table : Nat) : Cleared s s chain [] table :=
  ⟨pool, rfl, Unchanged.refl s.mem _⟩

theorem child_eq_some {mem : ByteMem} (leads : child mem level table i = some c) :
    isResident level (mem.load32 (table + 4 * i)) = true ∧
      address level (mem.load32 (table + 4 * i)) = c := by
  unfold child at leads
  split at leads
  · next resident => exact ⟨resident, Option.some.inj leads⟩
  · exact nomatch leads

theorem child_eq_none {mem : ByteMem} (leads : child mem level table i = none) :
    isResident level (mem.load32 (table + 4 * i)) = false := by
  unfold child at leads
  split at leads
  · exact nomatch leads
  · next off => exact Bool.eq_false_iff.mpr off

theorem child_of_not {mem : ByteMem}
    (off : isResident level (mem.load32 (table + 4 * i)) = false) : child mem level table i = none := by
  unfold child
  rw [off]
  rfl

theorem belowAt_some {mem : ByteMem} (leads : child mem (level + 1) table i = some c) :
    belowAt mem level table i = c :: below mem level c := by
  unfold belowAt
  rw [leads, Option.elim_some]

theorem belowAt_none {mem : ByteMem} (leads : child mem (level + 1) table i = none) :
    belowAt mem level table i = [] := by
  unfold belowAt
  rw [leads, Option.elim_none]

/-- The run of one round on an entry that leads somewhere. -/
theorem clearEntry_some (aligned : table % pageSize = 0) (small : i < 128)
    (leads : child s.mem level table i = some c) (below : Nat → Work Unit) :
    clearEntry level below table i s =
      (do
        below c
        free c
        if level = 3 then modifyEntry table i fun w => setDescriptorType w 0 else pure () :
          Work Unit) s := by
  obtain ⟨resident, here⟩ := child_eq_some leads
  unfold clearEntry
  rw [bind_ran (readEntry_eq aligned small s), if_pos resident, here]

theorem clearEntry_none (aligned : table % pageSize = 0) (small : i < 128)
    (leads : child s.mem level table i = none) (below : Nat → Work Unit) :
    clearEntry level below table i s = some ((), s) := by
  have off := child_eq_none leads
  unfold clearEntry
  rw [bind_ran (readEntry_eq aligned small s), if_neg (Bool.eq_false_iff.mp off)]
  rfl

/-- The end of a round: a root table forgets the entry. -/
theorem forgetEntry_spec (aligned : table % pageSize = 0) (small : i < 128) (level : Nat)
    (s : Frames) :
    ∃ mem, (if level = 3 then modifyEntry table i fun w => setDescriptorType w 0
        else pure () : Work Unit) s = some ((), { s with mem := mem }) ∧
      Unchanged pageSize s.mem mem [table] ∧
        (∀ j, j ≠ i → mem.load32 (table + 4 * j) = s.mem.load32 (table + 4 * j)) ∧
          (level = 3 → isResident 3 (mem.load32 (table + 4 * i)) = false) := by
  by_cases top : level = 3
  · rw [if_pos top]
    refine ⟨_, modifyEntry_eq aligned small _ s, store_entry table s.mem small _,
      fun j other => load_other_entry s.mem _ other, fun _ => ?_⟩
    have word : setDescriptorType (s.mem.load32 (table + 4 * i)) 0 < 2 ^ 32 :=
      setField_lt 0 (ByteMem.load32_lt s.mem (table + 4 * i)) (by decide)
    rw [ByteMem.load32_store32 _ _ _ word]
    exact isResident_invalid 3 _
  · rw [if_neg top]
    exact ⟨s.mem, rfl, Unchanged.refl s.mem _, fun _ _ => rfl, fun same => absurd same top⟩

/-- One entry: the tree below it is cleared, its root is given back, and a root table
forgets the entry. -/
theorem clearEntry_spec (inner : ClearsAt level) (pool : Pool s chain) (small : i < 128)
    (frames : ∀ f ∈ table :: belowAt s.mem level table i, IsFrame f)
    (distinct : (chain ++ table :: belowAt s.mem level table i).Nodup) :
    ∃ s' freed, clearEntry (level + 1) (clear level) table i s = some ((), s') ∧
      freed.Perm (belowAt s.mem level table i) ∧
        ClearedEntries s s' chain freed (level + 1) table [i] := by
  have aligned := (frames table List.mem_cons_self).aligned
  cases leads : child s.mem (level + 1) table i with
  | none =>
      refine ⟨s, [], clearEntry_none aligned small leads _, ?_, Cleared.refl pool table,
        fun _ _ _ => rfl, fun top j member => ?_⟩
      · rw [belowAt_none leads]
      · rw [List.mem_singleton.mp member, ← top]
        exact child_eq_none leads
  | some c =>
      rw [belowAt_some leads] at frames distinct
      have inChain : (chain ++ c :: below s.mem level c).Nodup :=
        distinct.sublist ((List.sublist_cons_self table _).append_left chain)
      have ofChild (f : Nat) (member : f ∈ c :: below s.mem level c) : IsFrame f :=
        frames f (List.mem_cons_of_mem _ member)
      obtain ⟨s₁, freed, ran, perm, cleared⟩ := inner pool ofChild inChain
      have freedAligned (f : Nat) (member : f ∈ c :: freed) : f % pageSize = 0 :=
        (ofChild f ((perm.cons c).subset member)).aligned
      obtain ⟨tableFresh, -⟩ := List.nodup_cons.mp (List.nodup_append.mp distinct).2.1
      obtain ⟨childFresh, -⟩ := List.nodup_cons.mp (List.nodup_append.mp inChain).2.1
      have tableApart : table ∉ c :: freed := fun member => tableFresh ((perm.cons c).subset member)
      have childApart : c ∉ freed ++ chain := by
        rw [List.mem_append]
        rintro (inFreed | inFree)
        · exact childFresh (perm.subset inFreed)
        · exact (List.nodup_append.mp inChain).2.2 c inFree c List.mem_cons_self rfl
      have tableInChain : ∀ f ∈ c :: (freed ++ chain), f ∉ [table] := by
        intro f member same
        rw [List.mem_singleton.mp same] at member
        rcases List.mem_append.mp (List.cons_append ▸ member) with inFreed | inFree
        · exact tableApart inFreed
        · exact (List.nodup_append.mp distinct).2.2 table inFree table List.mem_cons_self rfl
      obtain ⟨gives, pool₂⟩ := cleared.pool.free (ofChild c List.mem_cons_self) childApart
      obtain ⟨mem, forgets, entry, others, gone⟩ := forgetEntry_spec aligned small (level + 1)
        { s₁ with mem := s₁.mem.store32 c s₁.freeFrame, freeFrame := c }
      have entryAligned (b : Nat) (member : b ∈ [table]) : b % pageSize = 0 :=
        List.mem_singleton.mp member ▸ aligned
      have given : Unchanged pageSize s₁.mem (s₁.mem.store32 c s₁.freeFrame) [c] :=
        Unchanged.store32 s₁.mem _ (Nat.le_refl c) (Nat.add_le_add_left (by decide) c)
      have before : Unchanged pageSize s.mem (s₁.mem.store32 c s₁.freeFrame) (c :: freed) :=
        cleared.unchanged.trans (given.of_mem List.mem_cons_self)
      refine ⟨_, c :: freed, ?_, ?_, ⟨pool₂.unchanged entry entryAligned tableInChain,
        cleared.count, ?_⟩, fun j other small' => ?_, fun top j member => ?_⟩
      · rw [clearEntry_some aligned small leads, bind_ran ran, bind_ran gives]
        exact forgets
      · rw [belowAt_some leads]
        exact perm.cons c
      · exact (before.mono (List.subset_cons_self table _)).trans
          (entry.of_mem List.mem_cons_self)
      · have kept := before.load32 freedAligned aligned tableApart
          (Nat.le_add_right table (4 * j)) (by unfold pageSize; omega)
        rw [← kept]
        exact others j fun same => other (List.mem_singleton.mpr same)
      · rw [List.mem_singleton.mp member]
        exact gone top

/-- What is below the other entries of the table is still there. -/
theorem ClearedEntries.belowAt_eq (cleared : ClearedEntries s s' chain freed (level + 1) table [i])
    {j : Nat} (other : j ≠ i) (small : j < 128) (freedAligned : ∀ f ∈ table :: freed, f % pageSize = 0)
    (frames : ∀ f ∈ belowAt s.mem level table j, f % pageSize = 0)
    (apart : ∀ f ∈ belowAt s.mem level table j, f ∉ table :: freed) :
    belowAt s'.mem level table j = belowAt s.mem level table j := by
  have word := cleared.others j (fun same => other (List.mem_singleton.mp same)) small
  have leads : child s'.mem (level + 1) table j = child s.mem (level + 1) table j := by
    unfold child
    rw [word]
  cases there : child s.mem (level + 1) table j with
  | none => rw [belowAt_none there, belowAt_none (leads.trans there)]
  | some c =>
      rw [belowAt_some there] at frames apart
      rw [belowAt_some there, belowAt_some (leads.trans there),
        below_unchanged cleared.unchanged freedAligned frames apart]

/-- The loop over a table, one entry after the other. -/
theorem clearEntries_spec (inner : ClearsAt level) {indices : List Nat} (once : indices.Nodup)
    (small : ∀ i ∈ indices, i < 128) (pool : Pool s chain)
    (frames : ∀ f ∈ table :: indices.flatMap (belowAt s.mem level table), IsFrame f)
    (distinct : (chain ++ table :: indices.flatMap (belowAt s.mem level table)).Nodup) :
    ∃ s' freed, indices.forM (clearEntry (level + 1) (clear level) table) s = some ((), s') ∧
      freed.Perm (indices.flatMap (belowAt s.mem level table)) ∧
        ClearedEntries s s' chain freed (level + 1) table indices := by
  induction indices generalizing s chain with
  | nil =>
      exact ⟨s, [], rfl, List.Perm.refl _, Cleared.refl pool table, fun _ _ _ => rfl,
        fun _ i member => nomatch member⟩
  | cons i rest ih =>
      obtain ⟨first, once⟩ := List.nodup_cons.mp once
      rw [List.flatMap_cons] at frames distinct
      have aligned (f : Nat) (member : f ∈ table :: (belowAt s.mem level table i ++
          rest.flatMap (belowAt s.mem level table))) : f % pageSize = 0 := (frames f member).aligned
      obtain ⟨s₁, freed₁, ran₁, perm₁, cleared₁⟩ := clearEntry_spec inner pool
        (small i List.mem_cons_self)
        (fun f member => frames f ((List.sublist_append_left _ _).cons_cons table |>.subset member))
        (distinct.sublist (((List.sublist_append_left _ _).cons_cons table).append_left chain))
      have freedAligned (f : Nat) (member : f ∈ table :: freed₁) : f % pageSize = 0 :=
        aligned f ((List.sublist_append_left _ _).cons_cons table |>.subset
          ((perm₁.cons table).subset member))
      -- what is below the rest is neither the table nor below the first entry
      have apart (f : Nat) (member : f ∈ rest.flatMap (belowAt s.mem level table)) :
          f ∉ table :: freed₁ := by
        have tail := (List.nodup_append.mp distinct).2.1
        intro again
        rcases List.mem_cons.mp again with same | inFreed
        · rw [same] at member
          exact (List.nodup_cons.mp tail).1 (List.mem_append_right _ member)
        · exact (List.nodup_append.mp (List.nodup_cons.mp tail).2).2.2 f (perm₁.subset inFreed) f
            member rfl
      have still : rest.flatMap (belowAt s₁.mem level table) =
          rest.flatMap (belowAt s.mem level table) := by
        refine List.flatMap_congr fun j member => ?_
        have inside (f : Nat) (deeper : f ∈ belowAt s.mem level table j) :
            f ∈ rest.flatMap (belowAt s.mem level table) := List.mem_flatMap.mpr ⟨j, member, deeper⟩
        exact cleared₁.belowAt_eq (fun same => first (same ▸ member))
          (small j (List.mem_cons_of_mem _ member)) freedAligned
          (fun f deeper => aligned f (List.mem_cons_of_mem _ (List.mem_append_right _ (inside f deeper))))
          (fun f deeper => apart f (inside f deeper))
      have moved : ((freed₁ ++ chain) ++ table :: rest.flatMap (belowAt s.mem level table)).Perm
          (chain ++ table :: (belowAt s.mem level table i ++ rest.flatMap (belowAt s.mem level table))) := by
        refine ((List.perm_append_comm.trans (perm₁.append_left chain)).append_right _).trans ?_
        rw [List.append_assoc]
        exact List.perm_middle.append_left chain
      obtain ⟨s₂, freed₂, ran₂, perm₂, cleared₂⟩ := ih once
        (fun j member => small j (List.mem_cons_of_mem _ member)) cleared₁.pool
        (fun f member => by
          rw [still] at member
          exact frames f ((List.sublist_append_right _ _).cons_cons table |>.subset member))
        (by
          rw [still]
          exact moved.nodup_iff.mpr distinct)
      rw [still] at perm₂
      refine ⟨s₂, freed₂ ++ freed₁, ?_, ?_, ⟨?_, cleared₂.count.trans cleared₁.count, ?_⟩,
        fun j outside small' => ?_, fun top j member => ?_⟩
      · exact (bind_ran ran₁).trans ran₂
      · rw [List.flatMap_cons]
        exact List.perm_append_comm.trans (perm₁.append perm₂)
      · rw [List.append_assoc]
        exact cleared₂.pool
      · exact (cleared₁.unchanged.mono ((List.sublist_append_right _ _).cons_cons table).subset).trans
          (cleared₂.unchanged.mono ((List.sublist_append_left _ _).cons_cons table).subset)
      · have here : j ∉ [i] := fun same =>
          outside (List.mem_singleton.mp same ▸ List.mem_cons_self)
        have later : j ∉ rest := fun member => outside (List.mem_cons_of_mem _ member)
        exact (cleared₂.others j later small').trans (cleared₁.others j here small')
      · rcases List.mem_cons.mp member with same | later
        · rw [same, cleared₂.others i first (small i List.mem_cons_self)]
          exact cleared₁.gone top i List.mem_cons_self
        · exact cleared₂.gone top j later

theorem clearsAt (level : Nat) : ClearsAt level := by
  induction level with
  | zero =>
      intro s chain table pool _ _
      exact ⟨s, [], rfl, List.Perm.refl _, Cleared.refl pool table⟩
  | succ level ih =>
      intro s chain table pool frames distinct
      rw [below_succ] at frames distinct ⊢
      obtain ⟨s', freed, ran, perm, cleared⟩ := clearEntries_spec ih List.nodup_range
        (fun i member => Nat.lt_of_lt_of_le (List.mem_range.mp member) (entries_le _)) pool frames
        distinct
      exact ⟨s', freed, ran, perm, cleared.toCleared⟩

/-- Clearing a root table leaves it without a resident entry. -/
theorem clear_root {root : Nat} (pool : Pool s chain) (frames : ∀ f ∈ tree s.mem root, IsFrame f)
    (distinct : (chain ++ tree s.mem root).Nodup) :
    ∃ s' freed, clear 3 root s = some ((), s') ∧ freed.Perm (below s.mem 3 root) ∧
      Cleared s s' chain freed root ∧ below s'.mem 3 root = [] := by
  unfold tree at frames distinct
  rw [below_succ] at frames distinct ⊢
  obtain ⟨s', freed, ran, perm, cleared⟩ := clearEntries_spec (clearsAt 2) List.nodup_range
    (fun i member => Nat.lt_of_lt_of_le (List.mem_range.mp member) (entries_le _)) pool frames
    distinct
  refine ⟨s', freed, ran, perm, cleared.toCleared, ?_⟩
  rw [below_succ]
  refine List.flatMap_eq_nil_iff.mpr fun i member => ?_
  exact belowAt_none (child_of_not (cleared.gone rfl i member))

end TrollOS.Frames
