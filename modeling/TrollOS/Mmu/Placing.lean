import TrollOS.Mmu.Copying

/-!
# Putting a page into a tree

What the hardware finds for an address is read off the tables by `lookup`.
Making an empty table changes no lookup; placing a page changes the lookup of
that page only.
-/

namespace TrollOS.Frames

open TrollOS.Lib Mmu

def index (level virt : Nat) : Nat :=
  match level with
  | 1 => pageTableIndex virt
  | 2 => pointerTableIndex virt
  | _ => rootTableIndex virt

/-- The page descriptor the hardware finds. -/
def lookup (mem : ByteMem) : Nat → Nat → Nat → Option Nat
  | 0, _, _ => none
  | 1, table, virt =>
      if isResident 1 (mem.load32 (table + 4 * index 1 virt)) then
        some (mem.load32 (table + 4 * index 1 virt))
      else none
  | level + 2, table, virt =>
      (child mem (level + 2) table (index (level + 2) virt)).bind fun c =>
        lookup mem (level + 1) c virt

theorem index_lt (level virt : Nat) : index level virt < 128 := by
  unfold index
  split
  · exact Nat.lt_of_lt_of_le (Nat.mod_lt _ (by decide)) (by decide : 64 ≤ 128)
  · exact Nat.mod_lt _ (by decide)
  · exact Nat.mod_lt _ (by decide)

theorem index_lt_entries (level virt : Nat) : index (level + 1) virt < entries (level + 1) := by
  match level with
  | 0 => exact Nat.mod_lt _ (by decide)
  | 1 => exact Nat.mod_lt _ (by decide)
  | _ + 2 => exact Nat.mod_lt _ (by decide)

/-- The work at a table made the tree below it grow by the frames in `used`, and changed
nothing outside the old tree and these frames. -/
structure Grew (mem mem' : ByteMem) (level table : Nat) (used changed : List Nat) : Prop where
  grown : (below mem' level table).Perm (used ++ below mem level table)
  unchanged : Unchanged pageSize mem mem' changed
  within : changed ⊆ used ++ table :: below mem level table

section Grew

variable {mem mem' mem'' : ByteMem} {level table i c : Nat} {used used' changed changed' : List Nat}

theorem Grew.refl (mem : ByteMem) (level table : Nat) : Grew mem mem level table [] [] :=
  ⟨List.Perm.refl _, Unchanged.refl mem _, List.nil_subset _⟩

theorem Grew.trans (first : Grew mem mem' level table used changed)
    (second : Grew mem' mem'' level table used' changed') :
    Grew mem mem'' level table (used ++ used') (changed ++ changed') := by
  refine ⟨?_, ?_, ?_⟩
  · have both := second.grown.trans (first.grown.append_left used')
    rw [← List.append_assoc] at both
    exact both.trans (List.perm_append_comm.append_right _)
  · exact (first.unchanged.mono (List.subset_append_left ..)).trans
      (second.unchanged.mono (List.subset_append_right ..))
  · intro f member
    have old (g : Nat) (within : g ∈ below mem' level table) : g ∈ used ++ below mem level table :=
      first.grown.subset within
    rcases List.mem_append.mp member with before | after
    · have here := first.within before
      grind
    · have here := second.within after
      grind

/-- A table of which one entry grew. -/
theorem grew_of_entry (small : i < entries (level + 1))
    (here : (belowAt mem' level table i).Perm (used ++ belowAt mem level table i))
    (others : ∀ j, j < entries (level + 1) → j ≠ i →
      belowAt mem' level table j = belowAt mem level table j) :
    (below mem' (level + 1) table).Perm (used ++ below mem (level + 1) table) := by
  rw [below_succ, below_succ]
  exact flatMap_grow List.nodup_range (List.mem_range.mpr small) here fun j member other =>
    others j (List.mem_range.mp member) other

/-- The frames below two different entries. -/
theorem belowAt_apart (distinct : (below mem (level + 1) table).Nodup) {j f : Nat}
    (small : i < entries (level + 1)) (small' : j < entries (level + 1)) (other : j ≠ i)
    (member : f ∈ belowAt mem level table i) : f ∉ belowAt mem level table j :=
  flatMap_apart (below_succ mem level table ▸ distinct) (List.mem_range.mpr small)
    (List.mem_range.mpr small') other member

theorem belowAt_subset (mem : ByteMem) (table : Nat) (small : i < entries (level + 1)) :
    belowAt mem level table i ⊆ below mem (level + 1) table := fun _ member =>
  below_succ mem level table ▸ List.mem_flatMap.mpr ⟨i, List.mem_range.mpr small, member⟩

/-- Growth below a table is growth below the table above it. -/
theorem Grew.lift (grew : Grew mem mem' level c used changed) (small : i < entries (level + 1))
    (leads : child mem (level + 1) table i = some c)
    (frames : ∀ f ∈ used ++ table :: below mem (level + 1) table, IsFrame f)
    (distinct : (used ++ table :: below mem (level + 1) table).Nodup) :
    Grew mem mem' (level + 1) table used changed := by
  have inside : c :: below mem level c ⊆ below mem (level + 1) table := below_child_subset small leads
  have within : changed ⊆ used ++ belowAt mem level table i := by
    rw [belowAt_some leads]
    exact grew.within
  have changedFrames (f : Nat) (member : f ∈ changed) : f % pageSize = 0 := by
    refine (frames f ?_).aligned
    have here := grew.within member
    grind
  have tableApart : table ∉ changed := by
    intro member
    have here := grew.within member
    grind
  have alignedT : table % pageSize = 0 := (frames table (by grind)).aligned
  have words (j : Nat) (bound : j < 128) :
      mem'.load32 (table + 4 * j) = mem.load32 (table + 4 * j) :=
    grew.unchanged.load32 changedFrames alignedT tableApart (Nat.le_add_right ..)
      (by unfold pageSize; omega)
  have bound (j : Nat) (inTable : j < entries (level + 1)) : j < 128 :=
    Nat.lt_of_lt_of_le inTable (entries_le _)
  refine ⟨grew_of_entry small ?_ fun j inTable other => ?_, grew.unchanged, ?_⟩
  · rw [belowAt_some leads, belowAt_some ((child_of_word (words i (bound i small))).trans leads)]
    exact (grew.grown.cons c).trans List.perm_middle.symm
  · refine belowAt_agree (words j (bound j inTable)) ?_
    have sub : belowAt mem level table j ⊆ below mem (level + 1) table := belowAt_subset mem table inTable
    refine agree_of_unchanged grew.unchanged changedFrames
      (fun f member => (frames f (by grind)).aligned) fun f member again => ?_
    have noRepeat : (below mem (level + 1) table).Nodup := by grind
    rcases List.mem_append.mp (within again) with isUsed | old
    · grind
    · exact belowAt_apart noRepeat small inTable other old member
  · intro f member
    have here := grew.within member
    grind

end Grew

/-! ## What a walk finds -/

/-- A walk from this table finds the same for both addresses. -/
def SamePath (level v virt : Nat) : Prop :=
  ∀ l, l < level → index (l + 1) v = index (l + 1) virt

/-- The page at an address and its contents are the same. -/
structure SameView (mem mem' : ByteMem) (level table v : Nat) : Prop where
  lookup : lookup mem' level table v = lookup mem level table v
  bytes : ∀ w, Frames.lookup mem level table v = some w → ∀ x, x < pageSize →
    mem' (address 1 w + x) = mem (address 1 w + x)

section Views

variable {mem mem' mem'' : ByteMem} {level table v virt c w : Nat}

theorem lookup_child (leads : child mem (level + 2) table (index (level + 2) v) = some c) :
    lookup mem (level + 2) table v = lookup mem (level + 1) c v := by
  show (child mem (level + 2) table (index (level + 2) v)).bind _ = _
  rw [leads, Option.bind_some]

theorem lookup_none (leads : child mem (level + 2) table (index (level + 2) v) = none) :
    lookup mem (level + 2) table v = none := by
  show (child mem (level + 2) table (index (level + 2) v)).bind _ = _
  rw [leads, Option.bind_none]

theorem lookup_page (leads : child mem 1 table (index 1 v) = some c) :
    lookup mem 1 table v = some (mem.load32 (table + 4 * index 1 v)) :=
  if_pos (child_eq_some leads).1

theorem lookup_no_page (leads : child mem 1 table (index 1 v) = none) : lookup mem 1 table v = none :=
  if_neg (Bool.eq_false_iff.mp (child_eq_none leads))

/-- The page a walk ends at is in the tree. -/
theorem lookup_below (found : lookup mem level table v = some w) :
    address 1 w ∈ below mem level table := by
  induction level generalizing table with
  | zero => cases found
  | succ level ih =>
      have small := index_lt_entries level v
      cases leads : child mem (level + 1) table (index (level + 1) v) with
      | none =>
          cases level with
          | zero => exact nomatch (lookup_no_page leads).symm.trans found
          | succ level => exact nomatch (lookup_none leads).symm.trans found
      | some c =>
          have inside := below_child_subset small leads
          cases level with
          | zero =>
              have word := Option.some.inj ((lookup_page leads).symm.trans found)
              have here := (child_eq_some leads).2
              rw [← word, here]
              exact inside List.mem_cons_self
          | succ level =>
              exact inside (List.mem_cons_of_mem _ (ih ((lookup_child leads).symm.trans found)))

theorem SameView.refl (mem : ByteMem) (level table v : Nat) : SameView mem mem level table v :=
  ⟨rfl, fun _ _ _ _ => rfl⟩

theorem SameView.trans (first : SameView mem mem' level table v)
    (second : SameView mem' mem'' level table v) : SameView mem mem'' level table v := by
  refine ⟨second.lookup.trans first.lookup, fun w found x small => ?_⟩
  rw [second.bytes w (first.lookup.trans found) x small]
  exact first.bytes w found x small

/-- A walk sees the blocks of the tree only. -/
theorem sameView_of_agree (agree : Agree mem mem' (table :: below mem level table)) (v : Nat) :
    SameView mem mem' level table v := by
  refine ⟨?_, fun w found x small => agree _ (List.mem_cons_of_mem _ (lookup_below found)) _
    ⟨Nat.le_add_right .., Nat.add_lt_add_left small _⟩⟩
  induction level generalizing table with
  | zero => rfl
  | succ level ih =>
      have word := agree.word List.mem_cons_self (index_lt (level + 1) v)
      have same : child mem' (level + 1) table _ = child mem (level + 1) table _ := child_of_word word
      have small := index_lt_entries level v
      cases leads : child mem (level + 1) table (index (level + 1) v) with
      | none =>
          cases level with
          | zero => rw [lookup_no_page leads, lookup_no_page (same.trans leads)]
          | succ level => rw [lookup_none leads, lookup_none (same.trans leads)]
      | some c =>
          cases level with
          | zero => rw [lookup_page leads, lookup_page (same.trans leads), word]
          | succ level =>
              rw [lookup_child leads, lookup_child (same.trans leads)]
              exact ih (agree.mono (List.subset_cons_of_subset _ (below_child_subset small leads)))

/-- The same for one entry of a table. -/
theorem sameView_of_entry
    (word : mem'.load32 (table + 4 * index (level + 1) v) =
      mem.load32 (table + 4 * index (level + 1) v))
    (agree : Agree mem mem' (belowAt mem level table (index (level + 1) v))) :
    SameView mem mem' (level + 1) table v := by
  have same : child mem' (level + 1) table _ = child mem (level + 1) table _ := child_of_word word
  cases leads : child mem (level + 1) table (index (level + 1) v) with
  | none =>
      cases level with
      | zero =>
          have gone := lookup_no_page leads
          refine ⟨(lookup_no_page (same.trans leads)).trans gone.symm, fun w found => ?_⟩
          exact nomatch gone.symm.trans found
      | succ level =>
          have gone := lookup_none leads
          refine ⟨(lookup_none (same.trans leads)).trans gone.symm, fun w found => ?_⟩
          exact nomatch gone.symm.trans found
  | some c =>
      rw [belowAt_some leads] at agree
      cases level with
      | zero =>
          have here := lookup_page leads
          refine ⟨by rw [here, lookup_page (same.trans leads), word], fun w found x small => ?_⟩
          have isWord := Option.some.inj (here.symm.trans found)
          rw [← isWord, (child_eq_some leads).2]
          exact agree c List.mem_cons_self _ ⟨Nat.le_add_right .., Nat.add_lt_add_left small _⟩
      | succ level =>
          have deeper := sameView_of_agree agree v
          have here := lookup_child leads
          refine ⟨by rw [here, lookup_child (same.trans leads)]; exact deeper.lookup, fun w found => ?_⟩
          exact deeper.bytes w (here.symm.trans found)

/-- A view from the table below is a view from the table above. -/
theorem SameView.lift (view : SameView mem mem' (level + 1) c v)
    (leads : child mem (level + 2) table (index (level + 2) v) = some c)
    (leads' : child mem' (level + 2) table (index (level + 2) v) = some c) :
    SameView mem mem' (level + 2) table v := by
  refine ⟨?_, fun w found => view.bytes w ((lookup_child leads).symm.trans found)⟩
  rw [lookup_child leads, lookup_child leads']
  exact view.lookup

end Views

/-! ## The placement -/

def place (virt : Nat) (supervisor writeProtected : Bool) : Nat → Nat → Work Nat
  | 0, _ => pure 0
  | 1, table => pageAt table (index 1 virt) supervisor writeProtected
  | level + 2, table => do
      let c ← tableAt (level + 2) table (index (level + 2) virt)
      place virt supervisor writeProtected (level + 1) c

theorem allocAt_eq_place (root virt : Nat) (supervisor writeProtected : Bool) :
    allocAt root virt supervisor writeProtected = place virt supervisor writeProtected 3 root := rfl

/-- How many frames a placement takes from the allocator. -/
def wanted (mem : ByteMem) (virt : Nat) : Nat → Nat → Nat
  | 0, _ => 0
  | 1, _ => 1
  | level + 2, table =>
      (child mem (level + 2) table (index (level + 2) virt)).elim (level + 2) fun c =>
        wanted mem virt (level + 1) c

/-- What a placement below a table has done.  The frames in `used` come from the free list. -/
structure Placement (s s' : Frames) (virt : Nat) (supervisor writeProtected : Bool)
    (level table f : Nat) (chain used rest : List Nat) : Prop where
  split : chain = used ++ rest
  pool : Pool s' rest
  count : s'.freeFrames + wanted s.mem virt level table = s.freeFrames
  length : lookup s.mem level table virt = none → used.length = wanted s.mem virt level table
  grew : ∃ changed, Grew s.mem s'.mem level table used changed
  frame : IsFrame f
  empty : ∀ x, x < pageSize → s'.mem (f + x) = 0
  here : ∃ w, lookup s'.mem level table virt = some (placed w f supervisor writeProtected)
  elsewhere : ∀ v, ¬ SamePath level v virt → SameView s.mem s'.mem level table v
  words : ∀ j, j < 128 → (j = index level virt → 1 < level ∧
      isResident level (s.mem.load32 (table + 4 * j)) = true) →
    s'.mem.load32 (table + 4 * j) = s.mem.load32 (table + 4 * j)

section Pages

variable {s : Frames} {chain rest : List Nat} {table i c f virt : Nat}
  {supervisor writeProtected : Bool}

theorem placed_lt {w : Nat} (small : w < 2 ^ 32) : placed w f supervisor writeProtected < 2 ^ 32 :=
  setField_lt _ (setField_lt _ (setField_lt _ (setField_lt _ (setAddress_lt 1 f small)
    (by decide)) (by decide)) (by decide)) (by decide)

/-- The address of a page descriptor is above all its other fields. -/
theorem pageAddress_setField {lo width : Nat} (low : lo + width ≤ 12) (w v : Nat) :
    address 1 (setField w lo width v) = address 1 w := by
  show pageLevelFieldAddr (field (setField w lo width v) 12 20) = _
  rw [field_setField_above w v 20 low]
  rfl

theorem address_placed (frame : IsFrame f) (w : Nat) :
    address 1 (placed w f supervisor writeProtected) = f := by
  unfold placed setDescriptorType setWriteProtected setCacheCopyBack setSupervisor
  rw [pageAddress_setField (by decide), pageAddress_setField (by decide),
    pageAddress_setField (by decide), pageAddress_setField (by decide), address_setAddress frame]

/-- A frame is taken and its descriptor is written. -/
theorem fillEntry_spec (pool : Pool s (f :: rest)) (left : s.freeFrames ≠ 0) (small : i < 128)
    (aligned : table % pageSize = 0) (apart : table ∉ f :: rest) :
    ∃ mem, (do
        let frame ← alloc
        modifyEntry table i fun w => placed w frame supervisor writeProtected
        pure frame : Work Nat) s = some (f, { taken s f with mem := mem }) ∧
      Pool { taken s f with mem := mem } rest ∧ Unchanged pageSize s.mem mem [f, table] ∧
        (∀ j, j ≠ i → j < 128 → mem.load32 (table + 4 * j) = s.mem.load32 (table + 4 * j)) ∧
          (∃ w, mem.load32 (table + 4 * i) = placed w f supervisor writeProtected) ∧
            ∀ x, x < pageSize → mem (f + x) = 0 := by
  obtain ⟨f', rest', same, got, pool'⟩ := pool.alloc left
  obtain ⟨rfl, rfl⟩ := List.cons.inj same
  have frameF := pool.frames f List.mem_cons_self
  have entry := store_entry table (taken s f).mem small
    (placed ((taken s f).mem.load32 (table + 4 * i)) f supervisor writeProtected)
  have zeroed : Unchanged pageSize s.mem (taken s f).mem [f] := Unchanged.zero s.mem f
  have alignedT (b : Nat) (member : b ∈ [table]) : b % pageSize = 0 :=
    List.mem_singleton.mp member ▸ aligned
  have alignedF (b : Nat) (member : b ∈ [f]) : b % pageSize = 0 :=
    List.mem_singleton.mp member ▸ frameF.aligned
  have tableApart : table ∉ [f] := by grind
  refine ⟨_, ?_, pool'.unchanged entry alignedT (by grind),
    (zeroed.of_mem List.mem_cons_self).trans (entry.of_mem (by grind)), fun j other inTable => ?_,
    ⟨_, ByteMem.load32_store32 _ _ _ (placed_lt (ByteMem.load32_lt ..))⟩, fun x inPage => ?_⟩
  · rw [bind_ran got, bind_ran (modifyEntry_eq aligned small _ (taken s f))]
    rfl
  · rw [load_other_entry _ _ other]
    exact zeroed.load32 alignedF aligned tableApart (Nat.le_add_right ..) (by unfold pageSize; omega)
  · have kept := entry.byte alignedT frameF.aligned (by grind)
      ⟨Nat.le_add_right f x, Nat.add_lt_add_left inPage f⟩
    rw [kept]
    exact ByteMem.zero_mem s.mem (Nat.le_add_right ..) (Nat.add_lt_add_left inPage f)

theorem replacePage_none (aligned : table % pageSize = 0) (small : i < 128)
    (leads : child s.mem 1 table i = none) : replacePage table i writeProtected s = some ((), s) := by
  unfold replacePage
  rw [bind_ran (readEntry_eq aligned small s),
    if_neg (Bool.eq_false_iff.mp (child_eq_none leads))]
  rfl

/-- A page that is in the place goes to the front of the free list. -/
theorem replacePage_some (pool : Pool s chain) (aligned : table % pageSize = 0) (small : i < 128)
    (leads : child s.mem 1 table i = some c) (frame : IsFrame c) (distinct : (chain ++ [table, c]).Nodup) :
    ∃ s', replacePage table i writeProtected s = some ((), s') ∧ Pool s' (c :: chain) ∧
      s'.freeFrames = s.freeFrames ∧ Unchanged pageSize s.mem s'.mem [c, table] ∧
        ∀ j, j ≠ i → j < 128 → s'.mem.load32 (table + 4 * j) = s.mem.load32 (table + 4 * j) := by
  obtain ⟨resident, here⟩ := child_eq_some leads
  have word : setWriteProtected (s.mem.load32 (table + 4 * i)) writeProtected < 2 ^ 32 :=
    setField_lt _ (ByteMem.load32_lt ..) (by decide)
  have entry := store_entry table s.mem small
    (setWriteProtected (s.mem.load32 (table + 4 * i)) writeProtected)
  have alignedT (b : Nat) (member : b ∈ [table]) : b % pageSize = 0 :=
    List.mem_singleton.mp member ▸ aligned
  have alignedC (b : Nat) (member : b ∈ [c]) : b % pageSize = 0 :=
    List.mem_singleton.mp member ▸ frame.aligned
  have kept := pool.unchanged entry alignedT (by grind)
  obtain ⟨gives, pool'⟩ := kept.free frame (by grind)
  have given (mem : ByteMem) : Unchanged pageSize mem (mem.store32 c s.freeFrame) [c] :=
    Unchanged.store32 mem _ (Nat.le_refl c) (Nat.add_le_add_left (by decide) c)
  refine ⟨_, ?_, pool', rfl, (entry.of_mem (by grind)).trans ((given _).of_mem List.mem_cons_self),
    fun j other inTable => ?_⟩
  · have same : address 1 (setWriteProtected (s.mem.load32 (table + 4 * i)) writeProtected) = c := by
      unfold setWriteProtected
      rw [pageAddress_setField (by decide), here]
    unfold replacePage
    rw [bind_ran (readEntry_eq aligned small s), if_pos resident,
      bind_ran (modifyEntry_eq aligned small _ s), bind_ran (readEntry_eq aligned small _)]
    dsimp only
    rw [ByteMem.load32_store32 _ _ _ word, same]
    exact gives
  · rw [← load_other_entry s.mem _ other]
    exact (given _).load32 alignedC aligned (by grind) (Nat.le_add_right ..)
      (by unfold pageSize; omega)

end Pages

/-- What a placement below a table of this level does. -/
def PlacesAt (virt : Nat) (supervisor writeProtected : Bool) (level : Nat) : Prop :=
  ∀ {s : Frames} {chain : List Nat} {table : Nat}, Pool s chain →
    (∀ f ∈ table :: below s.mem level table, IsFrame f) →
    (chain ++ table :: below s.mem level table).Nodup →
    wanted s.mem virt level table ≤ s.freeFrames →
    ∃ frame s' used rest, place virt supervisor writeProtected level table s = some (frame, s') ∧
      Placement s s' virt supervisor writeProtected level table frame chain used rest

/-- One entry of a page table has changed, and the frame behind it. -/
theorem sameView_of_page {mem mem' : ByteMem} {table f v virt : Nat}
    (unchanged : Unchanged pageSize mem mem' [f, table]) (frame : f % pageSize = 0)
    (frames : ∀ g ∈ table :: below mem 1 table, g % pageSize = 0)
    (distinct : (table :: below mem 1 table).Nodup)
    (apart : f ∉ belowAt mem 0 table (index 1 v))
    (words : ∀ j, j ≠ index 1 virt → j < 128 →
      mem'.load32 (table + 4 * j) = mem.load32 (table + 4 * j))
    (other : ¬ SamePath 1 v virt) : SameView mem mem' 1 table v := by
  have differs : index 1 v ≠ index 1 virt := fun same => other fun l small => by
    rw [Nat.lt_one_iff.mp small]
    exact same
  have inside := belowAt_subset mem table (index_lt_entries 0 v)
  refine sameView_of_entry (words _ differs (index_lt 1 v)) ?_
  refine agree_of_unchanged unchanged ?_ (fun g member => frames g
    (List.mem_cons_of_mem _ (inside member))) fun g member => ?_
  · have here := frames table List.mem_cons_self
    grind
  · have inTree := inside member
    grind

section Levels

variable {s s' : Frames} {chain used rest : List Nat} {table f virt level : Nat}
  {supervisor writeProtected : Bool}

/-- A page table in which one entry has changed. -/
theorem placement_of_entry (split : chain = used ++ rest) (pool : Pool s' rest)
    (count : s'.freeFrames + 1 = s.freeFrames)
    (length : lookup s.mem 1 table virt = none → used.length = 1) (frame : IsFrame f)
    (empty : ∀ x, x < pageSize → s'.mem (f + x) = 0)
    (unchanged : Unchanged pageSize s.mem s'.mem [f, table])
    (words : ∀ j, j ≠ index 1 virt → j < 128 →
      s'.mem.load32 (table + 4 * j) = s.mem.load32 (table + 4 * j))
    (word : ∃ w, s'.mem.load32 (table + 4 * index 1 virt) =
      placed w f supervisor writeProtected)
    (same : used ++ belowAt s.mem 0 table (index 1 virt) = [f])
    (frames : ∀ g ∈ table :: below s.mem 1 table, g % pageSize = 0)
    (distinct : (chain ++ table :: below s.mem 1 table).Nodup) :
    Placement s s' virt supervisor writeProtected 1 table f chain used rest := by
  have small := index_lt_entries 0 virt
  have inside := belowAt_subset s.mem table small
  obtain ⟨w, word⟩ := word
  have leads : child s'.mem 1 table (index 1 virt) = some f := by
    unfold child
    rw [word, isResident_placed, if_pos rfl, address_placed frame]
  have member : f ∈ used ++ belowAt s.mem 0 table (index 1 virt) := by
    rw [same]
    exact List.mem_cons_self
  refine ⟨split, pool, count, length, ⟨[f, table], ?_, unchanged, ?_⟩, frame, empty,
    ⟨w, (lookup_page leads).trans (congrArg some word)⟩, fun v other => ?_, fun j inTable here => ?_⟩
  · refine grew_of_entry small ?_ fun j inTable other => ?_
    · rw [same, belowAt_some leads]
      exact List.Perm.refl _
    · have word := words j other (Nat.lt_of_lt_of_le inTable (entries_le 1))
      cases page : child s.mem 1 table j with
      | none => rw [belowAt_none page, belowAt_none ((child_of_word word).trans page)]
      | some c => rw [belowAt_some page, belowAt_some ((child_of_word word).trans page)]; rfl
  · intro g inList
    have within := inside (a := g)
    grind
  · have noRepeat := (List.nodup_append.mp distinct).2.1
    refine sameView_of_page unchanged frame.aligned frames noRepeat ?_ words other
    intro again
    have differs : index 1 v ≠ index 1 virt := fun same => other fun l below => by
      rw [Nat.lt_one_iff.mp below]
      exact same
    have inTree := belowAt_subset s.mem table (index_lt_entries 0 v) again
    rcases List.mem_append.mp member with isUsed | here
    · exact (List.nodup_append.mp distinct).2.2 f (split ▸ List.mem_append_left _ isUsed) f
        (List.mem_cons_of_mem _ inTree) rfl
    · exact belowAt_apart (List.nodup_cons.mp noRepeat).2 small (index_lt_entries 0 v) differs here again
  · refine words j (fun same => ?_) inTable
    exact absurd (here same).1 (Nat.lt_irrefl 1)

/-- A page goes into a page table. -/
theorem placesAt_page (virt : Nat) (supervisor writeProtected : Bool) :
    PlacesAt virt supervisor writeProtected 1 := by
  intro s chain table pool frames distinct enough
  have left : s.freeFrames ≠ 0 := Nat.ne_of_gt enough
  have small := index_lt_entries 0 virt
  have bound := index_lt 1 virt
  have frameT := frames table List.mem_cons_self
  have aligned (g : Nat) (member : g ∈ table :: below s.mem 1 table) : g % pageSize = 0 :=
    (frames g member).aligned
  cases leads : child s.mem 1 table (index 1 virt) with
  | none =>
      obtain ⟨f, rest, rfl, got, -⟩ := pool.alloc left
      obtain ⟨mem, ran, pool', unchanged, words, word, empty⟩ := @fillEntry_spec s rest table
        (index 1 virt) f supervisor writeProtected pool left bound frameT.aligned (by grind)
      refine ⟨f, _, [f], rest, (bind_ran (replacePage_none frameT.aligned bound leads)).trans ran,
        placement_of_entry rfl pool' (Nat.sub_add_cancel enough) (fun _ => rfl)
          (pool.frames f List.mem_cons_self) empty unchanged words word ?_ aligned distinct⟩
      rw [belowAt_none leads, List.append_nil]
  | some c =>
      have inTree := below_child_subset small leads List.mem_cons_self
      have frameC := frames c (List.mem_cons_of_mem _ inTree)
      have apart : (chain ++ [table, c]).Nodup := by grind
      obtain ⟨s₁, replaces, pool₁, count, unchanged₁, words₁⟩ := @replacePage_some s chain table _ c
        writeProtected pool frameT.aligned bound leads frameC apart
      obtain ⟨mem, ran, pool', unchanged, words, word, empty⟩ := @fillEntry_spec s₁ chain table
        (index 1 virt) c supervisor writeProtected pool₁ (count ▸ left) bound frameT.aligned (by grind)
      refine ⟨c, _, [], chain, (bind_ran replaces).trans ran,
        placement_of_entry rfl pool' ?_ (fun page => ?_) frameC empty (unchanged₁.trans unchanged)
          (fun j other inTable => (words j other inTable).trans (words₁ j other inTable)) word ?_ aligned
          distinct⟩
      · show s₁.freeFrames - 1 + 1 = s.freeFrames
        rw [count]
        exact Nat.sub_add_cancel enough
      · exact nomatch (lookup_page leads).symm.trans page
      · rw [belowAt_some leads]
        rfl

/-- The table below an entry has been found, or made. -/
structure Descended (s s' : Frames) (virt level table c : Nat) (chain used rest : List Nat) :
    Prop where
  split : chain = used ++ rest
  pool : Pool s' rest
  count : s'.freeFrames + used.length = s.freeFrames
  wanted : used.length + wanted s'.mem virt (level + 1) c = wanted s.mem virt (level + 2) table
  grew : ∃ changed, Grew s.mem s'.mem (level + 2) table used changed
  leads : child s'.mem (level + 2) table (index (level + 2) virt) = some c
  view : ∀ v, SameView s.mem s'.mem (level + 2) table v
  words : ∀ j, j < 128 → (j = index (level + 2) virt → 1 < level + 2 ∧
      isResident (level + 2) (s.mem.load32 (table + 4 * j)) = true) →
    s'.mem.load32 (table + 4 * j) = s.mem.load32 (table + 4 * j)

section Zero

variable {mem : ByteMem} (zero : ∀ i, i < 128 → mem.load32 (f + 4 * i) = 0)
include zero

theorem child_zero {i : Nat} (small : i < 128) : child mem level f i = none := by
  refine child_of_not ?_
  rw [zero i small]
  unfold isResident
  split
  · rfl
  · rfl

/-- There is nothing below a table of zeros. -/
theorem below_zero : below mem level f = [] := by
  cases level with
  | zero => rfl
  | succ level =>
      rw [below_succ]
      refine List.flatMap_eq_nil_iff.mpr fun i member => belowAt_none (child_zero zero ?_)
      exact Nat.lt_of_lt_of_le (List.mem_range.mp member) (entries_le _)

theorem lookup_zero (v : Nat) : lookup mem level f v = none := by
  match level with
  | 0 => rfl
  | 1 => exact lookup_no_page (child_zero zero (index_lt 1 v))
  | level + 2 => exact lookup_none (child_zero zero (index_lt (level + 2) v))

theorem wanted_zero (virt : Nat) : wanted mem virt (level + 1) f = level + 1 := by
  cases level with
  | zero => rfl
  | succ level =>
      show (child mem (level + 2) f (index (level + 2) virt)).elim (level + 2) _ = level + 2
      rw [child_zero zero (index_lt (level + 2) virt), Option.elim_none]

end Zero

theorem tableAt_some {i c : Nat} (aligned : table % pageSize = 0) (small : i < 128)
    (leads : child s.mem level table i = some c) : tableAt level table i s = some (c, s) := by
  obtain ⟨resident, here⟩ := child_eq_some leads
  unfold tableAt
  rw [bind_ran (readEntry_eq aligned small s), if_pos resident, here]
  rfl

theorem tableAt_none {i : Nat} (aligned : table % pageSize = 0) (small : i < 128)
    (leads : child s.mem level table i = none) (got : alloc s = some (f, taken s f)) :
    tableAt level table i s =
      some (f,
        { taken s f with
          mem := (taken s f).mem.store32 (table + 4 * i)
            (linked level ((taken s f).mem.load32 (table + 4 * i)) f) }) := by
  have off := child_eq_none leads
  have joined : ∀ k : Unit → Work Nat,
      (modifyEntry table i (fun w => setAddress level w f) >>= fun _ =>
        modifyEntry table i (fun w => setDescriptorType w 2) >>= k) =
      (modifyEntry table i (fun w => linked level w f) >>= k) := by
    intro k
    rw [← bind_assoc, modifyEntry_modifyEntry table i _ fun w small => setAddress_lt _ f small]
    rfl
  unfold tableAt
  rw [bind_ran (readEntry_eq aligned small s), if_neg (Bool.eq_false_iff.mp off), bind_ran got,
    joined, bind_ran (modifyEntry_eq aligned small _ _)]
  rfl

/-- A table is made: an empty frame behind one entry. -/
theorem tableAt_made {i : Nat} (level : Nat) (upper : level ≠ 1) (pool : Pool s (f :: rest)) (left : s.freeFrames ≠ 0)
    (aligned : table % pageSize = 0) (apart : table ∉ f :: rest) (small : i < 128)
    (leads : child s.mem level table i = none) :
    ∃ mem, tableAt level table i s = some (f, { taken s f with mem := mem }) ∧
      Pool { taken s f with mem := mem } rest ∧ Unchanged pageSize s.mem mem [f, table] ∧
        (∀ j, j ≠ i → j < 128 → mem.load32 (table + 4 * j) = s.mem.load32 (table + 4 * j)) ∧
          child mem level table i = some f ∧ ∀ j, j < 128 → mem.load32 (f + 4 * j) = 0 := by
  obtain ⟨f', rest', same, got, pool'⟩ := pool.alloc left
  obtain ⟨rfl, rfl⟩ := List.cons.inj same
  have frameF := pool.frames f List.mem_cons_self
  have entry := store_entry table (taken s f).mem small
    (linked level ((taken s f).mem.load32 (table + 4 * i)) f)
  have zeroed : Unchanged pageSize s.mem (taken s f).mem [f] := Unchanged.zero s.mem f
  have alignedT (b : Nat) (member : b ∈ [table]) : b % pageSize = 0 :=
    List.mem_singleton.mp member ▸ aligned
  have alignedF (b : Nat) (member : b ∈ [f]) : b % pageSize = 0 :=
    List.mem_singleton.mp member ▸ frameF.aligned
  refine ⟨_, tableAt_none aligned small leads got, pool'.unchanged entry alignedT (by grind),
    (zeroed.of_mem List.mem_cons_self).trans (entry.of_mem (by grind)), fun j other inTable => ?_,
    ?_, fun j inTable => ?_⟩
  · rw [load_other_entry _ _ other]
    exact zeroed.load32 alignedF aligned (by grind) (Nat.le_add_right ..) (by unfold pageSize; omega)
  · unfold child
    rw [ByteMem.load32_store32 _ _ _ (linked_lt _ f (ByteMem.load32_lt ..)), isResident_linked upper,
      if_pos rfl, address_linked frameF]
  · have inPage : f + 4 * j + 4 ≤ f + pageSize := by
      unfold pageSize
      omega
    rw [entry.load32 alignedT frameF.aligned (by grind) (Nat.le_add_right ..) inPage]
    exact ByteMem.load32_zero_mem s.mem (Nat.le_add_right ..) inPage

/-- The table a placement goes on with. -/
theorem tableAt_spec (pool : Pool s chain) (frame : IsFrame table)
    (frames : ∀ g ∈ below s.mem (level + 2) table, IsFrame g)
    (distinct : (chain ++ table :: below s.mem (level + 2) table).Nodup)
    (enough : wanted s.mem virt (level + 2) table ≤ s.freeFrames) :
    ∃ c s' used rest, tableAt (level + 2) table (index (level + 2) virt) s = some (c, s') ∧
      Descended s s' virt level table c chain used rest := by
  have small := index_lt_entries (level + 1) virt
  have bound := index_lt (level + 2) virt
  cases leads : child s.mem (level + 2) table (index (level + 2) virt) with
  | some c =>
      have same : wanted s.mem virt (level + 2) table = wanted s.mem virt (level + 1) c := by
        show (child s.mem (level + 2) table (index (level + 2) virt)).elim (level + 2) _ = _
        rw [leads, Option.elim_some]
      exact ⟨c, s, [], chain, tableAt_some frame.aligned bound leads, rfl, pool, rfl,
        (Nat.zero_add _).trans same.symm, ⟨[], Grew.refl ..⟩, leads, fun v => SameView.refl ..,
        fun _ _ _ => rfl⟩
  | none =>
      have all : wanted s.mem virt (level + 2) table = level + 2 := by
        show (child s.mem (level + 2) table (index (level + 2) virt)).elim (level + 2) _ = _
        rw [leads, Option.elim_none]
      have left : s.freeFrames ≠ 0 := by omega
      obtain ⟨f, rest, rfl, got, -⟩ := pool.alloc left
      have frameF := pool.frames f List.mem_cons_self
      obtain ⟨mem, ran, pool', unchanged, words, leads', zero⟩ := tableAt_made
        (level + 2) (by omega) pool left frame.aligned (by grind) bound leads
      have aligned (b : Nat) (member : b ∈ [f, table]) : b % pageSize = 0 := by
        have here := frame.aligned
        have there := frameF.aligned
        grind
      have agree (j : Nat) (inTable : j < entries (level + 2)) :
          Agree s.mem mem (belowAt s.mem (level + 1) table j) := by
        have inside := belowAt_subset s.mem table inTable
        refine agree_of_unchanged unchanged aligned
          (fun g member => (frames g (inside member)).aligned) fun g member => ?_
        have inTree := inside member
        grind
      refine ⟨f, _, [f], rest, ran, rfl, pool', Nat.sub_add_cancel (Nat.pos_of_ne_zero left), ?_,
        ⟨[f, table], grew_of_entry small ?_ fun j inTable other => ?_, unchanged, by grind⟩, leads',
        fun v => ?_, fun j inTable here => ?_⟩
      · rw [all, wanted_zero zero]
        exact Nat.add_comm ..
      · rw [belowAt_some leads', below_zero zero, belowAt_none leads]
        exact List.Perm.refl _
      · exact belowAt_agree (words j other (Nat.lt_of_lt_of_le inTable (entries_le _))) (agree j inTable)
      · by_cases same : index (level + 2) v = index (level + 2) virt
        · have before : lookup s.mem (level + 2) table v = none := lookup_none (same ▸ leads)
          refine ⟨?_, fun w found => nomatch before.symm.trans found⟩
          rw [before, lookup_child (same ▸ leads'), lookup_zero zero]
        · exact sameView_of_entry (words _ same (index_lt ..)) (agree _ (index_lt_entries _ v))
      · refine words j (fun same => ?_) inTable
        have resident := (here same).2
        rw [same, child_eq_none leads] at resident
        cases resident

/-- What a placement below one entry does to the table. -/
theorem placement_lift {s₁ s' : Frames} {c frame : Nat} {used₁ rest₁ used₂ rest₂ : List Nat}
    (down : Descended s s₁ virt level table c chain used₁ rest₁)
    (inner : Placement s₁ s' virt supervisor writeProtected (level + 1) c frame rest₁ used₂ rest₂)
    (frames : ∀ g ∈ chain ++ table :: below s.mem (level + 2) table, IsFrame g)
    (distinct : (chain ++ table :: below s.mem (level + 2) table).Nodup) :
    Placement s s' virt supervisor writeProtected (level + 2) table frame chain (used₁ ++ used₂)
      rest₂ := by
  have small := index_lt_entries (level + 1) virt
  have bound := index_lt (level + 2) virt
  obtain ⟨changed₁, grew₁⟩ := down.grew
  obtain ⟨changed₂, grew₂⟩ := inner.grew
  have split : chain = used₁ ++ (used₂ ++ rest₂) := down.split.trans (congrArg (used₁ ++ ·) inner.split)
  have grown := grew₁.grown
  have within := grew₂.within
  have inside := below_child_subset small down.leads
  have known (g : Nat) (member : g ∈ used₂ ++ table :: below s₁.mem (level + 2) table) : IsFrame g := by
    have from₁ (h : Nat) (there : h ∈ below s₁.mem (level + 2) table) :
        h ∈ used₁ ++ below s.mem (level + 2) table := grown.subset there
    grind
  have noRepeat : (used₂ ++ table :: below s₁.mem (level + 2) table).Nodup := by
    have moved : (used₂ ++ table :: below s₁.mem (level + 2) table).Perm
        (used₂ ++ (used₁ ++ table :: below s.mem (level + 2) table)) :=
      ((grown.cons table).trans List.perm_middle.symm).append_left used₂
    refine moved.nodup_iff.mpr ?_
    grind
  have lifted := grew₂.lift small down.leads known noRepeat
  have aligned (b : Nat) (member : b ∈ changed₂) : b % pageSize = 0 := by
    refine (known b ?_).aligned
    have here := within member
    grind
  have tableApart : table ∉ changed₂ := by
    intro member
    have here := within member
    grind
  have word (j : Nat) (inTable : j < 128) :
      s'.mem.load32 (table + 4 * j) = s₁.mem.load32 (table + 4 * j) :=
    grew₂.unchanged.load32 aligned (known table (by grind)).aligned tableApart
      (Nat.le_add_right ..) (by unfold pageSize; omega)
  have leads' : child s'.mem (level + 2) table (index (level + 2) virt) = some c :=
    (child_of_word (word _ bound)).trans down.leads
  refine ⟨by rw [split, List.append_assoc], inner.pool, ?_, fun gone => ?_,
    ⟨_, grew₁.trans lifted⟩, inner.frame, inner.empty, ?_, fun v other => (down.view v).trans ?_,
    fun j inTable here => (word j inTable).trans (down.words j inTable here)⟩
  · have first := down.count
    have second := inner.count
    have both := down.wanted
    omega
  · have before := (lookup_child down.leads).symm.trans ((down.view virt).lookup.trans gone)
    rw [List.length_append, inner.length before]
    exact down.wanted
  · obtain ⟨w, found⟩ := inner.here
    exact ⟨w, (lookup_child leads').trans found⟩
  · by_cases same : index (level + 2) v = index (level + 2) virt
    · have deeper : ¬ SamePath (level + 1) v virt := fun path => other fun l below => by
        rcases Nat.lt_succ_iff_lt_or_eq.mp below with lower | top
        · exact path l lower
        · rw [top]
          exact same
      exact (inner.elsewhere v deeper).lift (same ▸ down.leads) (same ▸ leads')
    · refine sameView_of_entry (word _ (index_lt ..)) ?_
      have apart := @belowAt_apart s₁.mem (level + 1) table (index (level + 2) virt)
        (by grind) (index (level + 2) v)
      have inTable := belowAt_subset s₁.mem table (index_lt_entries (level + 1) v)
      refine agree_of_unchanged grew₂.unchanged aligned
        (fun g member => (known g (by grind)).aligned) fun g member again => ?_
      have inTree := inTable member
      rcases List.mem_append.mp (within again) with isUsed | deeper
      · grind
      · rw [← belowAt_some down.leads] at deeper
        exact apart small (index_lt_entries (level + 1) v) same deeper member

theorem placesAt_succ (inner : PlacesAt virt supervisor writeProtected (level + 1)) :
    PlacesAt virt supervisor writeProtected (level + 2) := by
  intro s chain table pool frames distinct enough
  obtain ⟨c, s₁, used₁, rest₁, ran₁, down⟩ := tableAt_spec pool (frames table List.mem_cons_self)
    (fun g member => frames g (List.mem_cons_of_mem _ member)) distinct enough
  obtain ⟨changed, grew⟩ := down.grew
  have split := down.split
  have inside := below_child_subset (index_lt_entries (level + 1) virt) down.leads
  have from₁ (g : Nat) (member : g ∈ c :: below s₁.mem (level + 1) c) :
      g ∈ used₁ ++ below s.mem (level + 2) table := grew.grown.subset (inside member)
  have known (g : Nat) (member : g ∈ chain ++ table :: below s.mem (level + 2) table) : IsFrame g := by
    rcases List.mem_append.mp member with free | inTree
    · exact pool.frames g free
    · exact frames g inTree
  have once : (c :: below s₁.mem (level + 1) c).Nodup := by
    have noRepeat : (used₁ ++ below s.mem (level + 2) table).Nodup := by grind
    have all := grew.grown.nodup_iff.mpr noRepeat
    rw [below_succ] at all
    have here := (List.nodup_flatMap.mp all).1 _
      (List.mem_range.mpr (index_lt_entries (level + 1) virt))
    rwa [belowAt_some down.leads] at here
  obtain ⟨frame, s', used₂, rest₂, ran₂, placement⟩ := @inner s₁ rest₁ c down.pool
    (fun g member => known g (by grind)) (by grind)
    (by
      have count := down.count
      have both := down.wanted
      omega)
  exact ⟨frame, s', _, rest₂, (bind_ran ran₁).trans ran₂,
    placement_lift down placement known distinct⟩

end Levels

/-- A placement below a table of any level, by induction on the level. -/
theorem placesAt (virt : Nat) (supervisor writeProtected : Bool) (level : Nat) :
    PlacesAt virt supervisor writeProtected (level + 1) := by
  induction level with
  | zero => exact placesAt_page virt supervisor writeProtected
  | succ level ih => exact placesAt_succ ih

end TrollOS.Frames
