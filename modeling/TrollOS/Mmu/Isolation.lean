import TrollOS.Mmu.UserSpaces

/-!
# Copies of a user space

A complete copy maps the same pages with the same contents.  The two trees have no
frame in common, so that what is written through one space is never read through
the other.
-/

namespace TrollOS.Frames

open TrollOS.Lib Mmu

/-! ## Pages of a copy -/

/-- An address leads to pages with the same fields and the same bytes. -/
inductive SamePage (mem mem' : ByteMem) (source target virt : Nat) : Prop
  | unmapped : lookup mem 3 source virt = none → lookup mem' 3 target virt = none →
      SamePage mem mem' source target virt
  | mapped (w w' : Nat) : lookup mem 3 source virt = some w → lookup mem' 3 target virt = some w' →
      supervisorBit w' = supervisorBit w → writeProtectedBit w' = writeProtectedBit w →
      cacheMode w' = cacheMode w →
      (∀ x, x < pageSize → mem' (address 1 w' + x) = mem (address 1 w + x)) →
      SamePage mem mem' source target virt

section Pages

variable {mem mem' : ByteMem} {level source target virt : Nat}

/-- What a walk finds in a copy. -/
theorem lookup_copied (copied : Copied mem mem' (level + 1) source target) (virt : Nat) :
    (lookup mem (level + 1) source virt = none ∧ lookup mem' (level + 1) target virt = none) ∨
      ∃ w c', lookup mem (level + 1) source virt = some w ∧
        lookup mem' (level + 1) target virt = some (setAddress 1 w c') ∧
          ∀ x, x < pageSize →
            mem' (address 1 (setAddress 1 w c') + x) = mem (address 1 w + x) := by
  induction level generalizing source target with
  | zero =>
      rcases copied _ (index_lt_entries 0 virt) with ⟨off, off'⟩ | ⟨c, c', leads, leads', word, inner⟩
      · exact Or.inl ⟨lookup_no_page off, lookup_no_page off'⟩
      · have found := lookup_page leads'
        have here := (child_eq_some leads').2
        rw [word rfl] at found here
        refine Or.inr ⟨_, c', lookup_page leads, found, fun x small => ?_⟩
        rw [here, (child_eq_some leads).2]
        exact inner x small
  | succ level ih =>
      rcases copied _ (index_lt_entries (level + 1) virt) with
        ⟨off, off'⟩ | ⟨c, c', leads, leads', -, inner⟩
      · exact Or.inl ⟨lookup_none off, lookup_none off'⟩
      · rw [lookup_child leads, lookup_child leads']
        exact ih inner

theorem samePage_of_copied (copied : Copied mem mem' 3 source target) (virt : Nat) :
    SamePage mem mem' source target virt := by
  rcases lookup_copied copied virt with ⟨off, off'⟩ | ⟨w, c', found, found', bytes⟩
  · exact .unmapped off off'
  · exact .mapped w _ found found' (field_setField_below w _ 20 (by decide : 7 + 1 ≤ 12))
      (field_setField_below w _ 20 (by decide : 2 + 1 ≤ 12))
      (field_setField_below w _ 20 (by decide : 5 + 2 ≤ 12)) bytes

/-- A page of a tree is not one of its tables. -/
theorem page_not_table {table w : Nat} (distinct : (table :: below mem level table).Nodup)
    (found : lookup mem level table virt = some w) : address 1 w ∉ tables mem level table := by
  induction level generalizing table with
  | zero => cases found
  | succ level ih =>
      have small := index_lt_entries level virt
      have isBelow := lookup_below found
      obtain ⟨fresh, once⟩ := List.nodup_cons.mp distinct
      rw [tables_succ]
      intro member
      rcases List.mem_cons.mp member with same | deeper
      · rw [same] at isBelow
        exact fresh isBelow
      · obtain ⟨j, inTable, inside⟩ := List.mem_flatMap.mp deeper
        cases leads : child mem (level + 1) table j with
        | none =>
            unfold tablesAt at inside
            rw [leads] at inside
            cases inside
        | some c =>
            unfold tablesAt at inside
            rw [leads, Option.elim_some] at inside
            cases level with
            | zero => cases inside
            | succ level =>
                cases leads' : child mem (level + 2) table (index (level + 2) virt) with
                | none => exact nomatch (lookup_none leads').symm.trans found
                | some d =>
                    have found' := (lookup_child leads').symm.trans found
                    have here : address 1 w ∈ belowAt mem (level + 1) table (index (level + 2) virt) := by
                      rw [belowAt_some leads']
                      exact List.mem_cons_of_mem _ (lookup_below found')
                    by_cases same : j = index (level + 2) virt
                    · obtain rfl : c = d := Option.some.inj (leads.symm.trans (same ▸ leads'))
                      refine ih ?_ found' inside
                      rw [below_succ] at once
                      have part := (List.nodup_flatMap.mp once).1 j inTable
                      rwa [belowAt_some leads] at part
                    · refine belowAt_apart once small (List.mem_range.mp inTable) same here ?_
                      rw [belowAt_some leads]
                      exact tables_subset mem (level + 1) c inside

/-- A walk reads tables only. -/
theorem lookup_tables {table : Nat} (agree : Agree mem mem' (tables mem level table)) (virt : Nat) :
    lookup mem' level table virt = lookup mem level table virt := by
  induction level generalizing table with
  | zero => rfl
  | succ level ih =>
      have word := agree.word List.mem_cons_self (index_lt (level + 1) virt)
      have same : child mem' (level + 1) table _ = child mem (level + 1) table _ := child_of_word word
      cases leads : child mem (level + 1) table (index (level + 1) virt) with
      | none =>
          cases level with
          | zero => rw [lookup_no_page leads, lookup_no_page (same.trans leads)]
          | succ level => rw [lookup_none leads, lookup_none (same.trans leads)]
      | some c =>
          cases level with
          | zero => rw [lookup_page leads, lookup_page (same.trans leads), word]
          | succ level =>
              rw [lookup_child leads, lookup_child (same.trans leads)]
              refine ih (agree.mono fun t member => List.mem_cons_of_mem _ (List.mem_flatMap.mpr
                ⟨_, List.mem_range.mpr (index_lt_entries (level + 1) virt), ?_⟩))
              rw [leads]
              exact member

/-- What a walk ends at is behind the entry it starts with. -/
theorem lookup_belowAt {table w : Nat} (found : lookup mem (level + 1) table virt = some w) :
    address 1 w ∈ belowAt mem level table (index (level + 1) virt) := by
  cases leads : child mem (level + 1) table (index (level + 1) virt) with
  | none =>
      cases level with
      | zero => exact nomatch (lookup_no_page leads).symm.trans found
      | succ level => exact nomatch (lookup_none leads).symm.trans found
  | some c =>
      rw [belowAt_some leads]
      cases level with
      | zero =>
          obtain rfl := Option.some.inj ((lookup_page leads).symm.trans found)
          exact (child_eq_some leads).2 ▸ List.mem_cons_self
      | succ level => exact List.mem_cons_of_mem _ (lookup_below ((lookup_child leads).symm.trans found))

/-- Two pages of a tree are in different frames. -/
theorem lookup_apart {table v w w' : Nat} (distinct : (below mem level table).Nodup)
    (found : lookup mem level table v = some w) (found' : lookup mem level table virt = some w')
    (same : address 1 w = address 1 w') : SamePath level v virt := by
  induction level generalizing table with
  | zero => cases found
  | succ level ih =>
      have here := lookup_belowAt found
      have there := lookup_belowAt found'
      by_cases top : index (level + 1) v = index (level + 1) virt
      · intro l small
        rcases Nat.lt_succ_iff_lt_or_eq.mp small with deeper | rfl
        · cases level with
          | zero => exact absurd deeper (Nat.not_lt_zero l)
          | succ level =>
              cases leads : child mem (level + 2) table (index (level + 2) v) with
              | none => exact nomatch (lookup_none leads).symm.trans found
              | some c =>
                  have once := (List.nodup_flatMap.mp (below_succ mem (level + 1) table ▸ distinct)).1 _
                    (List.mem_range.mpr (index_lt_entries (level + 1) v))
                  rw [belowAt_some leads] at once
                  exact ih (List.nodup_cons.mp once).2 ((lookup_child leads).symm.trans found)
                    ((lookup_child (top ▸ leads)).symm.trans found') l deeper
        · exact top
      · rw [same] at here
        exact absurd there (belowAt_apart distinct (index_lt_entries level v) (index_lt_entries level virt)
          (Ne.symm top) here)

end Pages

/-! ## Access through a user space -/

def storeByte (mem : ByteMem) (w offset : Nat) (b : UInt8) : ByteMem :=
  fun x => if x = address 1 w + offset then b else mem x

/-- A byte is written through a space; an address that is not mapped is not written. -/
def writeUser (mem : ByteMem) (root virt : Nat) (b : UInt8) : ByteMem :=
  (lookup mem 3 root virt).elim mem fun w => storeByte mem w (virt % pageSize) b

def readUser (mem : ByteMem) (root virt : Nat) : Option UInt8 :=
  (lookup mem 3 root virt).map fun w => mem (address 1 w + virt % pageSize)

/-- A write of a byte at an address, through one of two spaces. -/
structure UserWrite where
  side : Bool
  virt : Nat
  byte : UInt8

def writeUsers (space : Bool → Nat) (mem : ByteMem) (writes : List UserWrite) : ByteMem :=
  writes.foldl (fun mem w => writeUser mem (space w.side) w.virt w.byte) mem

/-- Two spaces without a common frame. -/
structure Isolated (mem : ByteMem) (space : Bool → Nat) : Prop where
  aligned : ∀ side, ∀ f ∈ tree mem (space side), f % pageSize = 0
  distinct : ∀ side, (tree mem (space side)).Nodup
  apart : ∀ side, ∀ f ∈ tree mem (space side), f ∉ tree mem (space !side)

section Access

variable {mem mem' : ByteMem} {space : Bool → Nat} {root virt : Nat} {b : UInt8}

theorem writeUser_some {w : Nat} (found : lookup mem 3 root virt = some w) :
    writeUser mem root virt b = storeByte mem w (virt % pageSize) b := by
  unfold writeUser
  rw [found, Option.elim_some]

theorem writeUser_none (off : lookup mem 3 root virt = none) : writeUser mem root virt b = mem := by
  unfold writeUser
  rw [off, Option.elim_none]

theorem storeByte_unchanged (mem : ByteMem) (w : Nat) {offset : Nat} (inPage : offset < pageSize) :
    Unchanged pageSize mem (storeByte mem w offset b) [address 1 w] := by
  intro x outside
  refine if_neg fun same => outside _ List.mem_cons_self ?_
  rw [same]
  exact ⟨Nat.le_add_right .., Nat.add_lt_add_left inPage _⟩

theorem writeUser_unchanged {w : Nat} (found : lookup mem 3 root virt = some w) :
    Unchanged pageSize mem (writeUser mem root virt b) [address 1 w] := by
  rw [writeUser_some found]
  exact storeByte_unchanged mem w (Nat.mod_lt _ (by decide))

/-- A write through a space leaves the tables of both spaces as they are. -/
theorem Isolated.tables_agree (isolated : Isolated mem space) (side side' : Bool) :
    Agree mem (writeUser mem (space side) virt b) (tables mem 3 (space side')) := by
  cases found : lookup mem 3 (space side) virt with
  | none =>
      rw [writeUser_none found]
      exact fun _ _ _ _ => rfl
  | some w =>
      have inTree : address 1 w ∈ tree mem (space side) := List.mem_cons_of_mem _ (lookup_below found)
      have isTable := tables_subset mem 3 (space side')
      refine agree_of_unchanged (writeUser_unchanged found)
        (fun f member => List.mem_singleton.mp member ▸ isolated.aligned side _ inTree)
        (fun f member => isolated.aligned side' f (isTable member)) fun f member same => ?_
      rw [List.mem_singleton.mp same] at member
      by_cases here : side' = side
      · subst here
        exact page_not_table (isolated.distinct side') found member
      · have other : side' = !side := Bool.eq_not_of_ne here
        rw [other] at isTable member
        exact isolated.apart side _ inTree (isTable member)

theorem Isolated.tree_eq (isolated : Isolated mem space) (side side' : Bool) :
    tree (writeUser mem (space side) virt b) (space side') = tree mem (space side') :=
  congrArg (space side' :: ·) (below_congr fun t member => isolated.tables_agree side side' t member)

theorem Isolated.write (isolated : Isolated mem space) (side : Bool) (virt : Nat) (b : UInt8) :
    Isolated (writeUser mem (space side) virt b) space := by
  refine ⟨fun s => ?_, fun s => ?_, fun s => ?_⟩
  · rw [isolated.tree_eq side s]
    exact isolated.aligned s
  · rw [isolated.tree_eq side s]
    exact isolated.distinct s
  · rw [isolated.tree_eq side s, isolated.tree_eq side !s]
    exact isolated.apart s

/-- A write through one space changes nothing in the tree of the other. -/
theorem Isolated.write_other (isolated : Isolated mem space) (side : Bool) :
    Agree mem (writeUser mem (space !side) virt b) (tree mem (space side)) := by
  cases found : lookup mem 3 (space !side) virt with
  | none =>
      rw [writeUser_none found]
      exact fun _ _ _ _ => rfl
  | some w =>
      have inTree : address 1 w ∈ tree mem (space !side) := List.mem_cons_of_mem _ (lookup_below found)
      refine agree_of_unchanged (writeUser_unchanged found)
        (fun f member => List.mem_singleton.mp member ▸ isolated.aligned (!side) _ inTree)
        (fun f member => isolated.aligned side f member) fun f member same => ?_
      have noShare := isolated.apart side f member
      rw [List.mem_singleton.mp same] at noShare
      exact noShare inTree

/-- The same write in two memories that agree on the tree. -/
theorem writeUser_agree (agree : Agree mem mem' (tree mem root)) (virt : Nat) (b : UInt8) :
    Agree (writeUser mem root virt b) (writeUser mem' root virt b) (tree mem root) := by
  have view := sameView_of_agree agree virt
  intro f member x inside
  cases found : lookup mem 3 root virt with
  | none =>
      rw [writeUser_none found, writeUser_none (view.lookup.trans found)]
      exact agree f member x inside
  | some w =>
      rw [writeUser_some found, writeUser_some (view.lookup.trans found)]
      unfold storeByte
      split
      · rfl
      · exact agree f member x inside

theorem writeUsers_cons (space : Bool → Nat) (mem : ByteMem) (first : UserWrite) (rest : List UserWrite) :
    writeUsers space mem (first :: rest) =
      writeUsers space (writeUser mem (space first.side) first.virt first.byte) rest :=
  List.foldl_cons ..

/-- What is read through a space depends on the writes through this space only. -/
theorem readUser_writeUsers (side : Bool) (isolated : Isolated mem space) (isolated' : Isolated mem' space)
    (agree : Agree mem mem' (tree mem (space side))) (writes : List UserWrite) (virt : Nat) :
    readUser (writeUsers space mem' writes) (space side) virt =
      readUser (writeUsers space mem (writes.filter fun w => w.side = side)) (space side) virt := by
  induction writes generalizing mem mem' with
  | nil =>
      have view := sameView_of_agree agree virt
      show readUser mem' (space side) virt = readUser mem (space side) virt
      unfold readUser
      rw [view.lookup]
      cases found : lookup mem 3 (space side) virt with
      | none => rfl
      | some w => exact congrArg some (view.bytes w found _ (Nat.mod_lt _ (by decide)))
  | cons first rest ih =>
      have after' := isolated'.write first.side first.virt first.byte
      rw [writeUsers_cons]
      by_cases here : first.side = side
      · rw [List.filter_cons_of_pos (by rw [decide_eq_true_eq]; exact here), writeUsers_cons]
        refine ih (isolated.write first.side first.virt first.byte) after' ?_
        rw [isolated.tree_eq first.side side, here]
        exact writeUser_agree agree first.virt first.byte
      · rw [List.filter_cons_of_neg (by rw [decide_eq_true_eq]; exact here)]
        have other : first.side = !side := Bool.eq_not_of_ne here
        have same : tree mem' (space side) = tree mem (space side) := congrArg (space side :: ·) agree.below
        refine ih isolated after' fun f member x inside => ?_
        rw [other, isolated'.write_other side f (same.symm ▸ member) x inside]
        exact agree f member x inside

end Access

end TrollOS.Frames

namespace TrollOS.Mmu

open TrollOS.Lib Frames

def pair (source target : Nat) (side : Bool) : Nat :=
  rootLevelFieldAddr (if side then source else target)

namespace UserSpaces

variable {frames : List Nat} {u : UserSpaces} {source target : Nat} {m : Mmu}

/-- Two spaces in use have no frame in common. -/
theorem Owned.isolated (owned : u.Owned frames) (sourceIn : source ∈ u.live) (targetIn : target ∈ u.live)
    (other : source ≠ target) : Isolated u.mmu.mem (pair source target) := by
  obtain ⟨chain, roles⟩ := owned.roles
  have once := (List.nodup_append.mp (roles.split.nodup_iff.mpr roles.distinct)).2.1
  have inRoots (side : Bool) : pair source target side ∈ u.roots := by
    cases side with
    | true => exact mem_roots sourceIn
    | false => exact mem_roots targetIn
  refine ⟨fun side f member => (roles.valid_tree (inRoots side) f member).aligned,
    fun side => (List.nodup_append.mp (roles.distinct_apart (inRoots side))).2.1,
    fun side f member => flatMap_apart once (inRoots side) (inRoots !side) ?_ member⟩
  intro same
  have handles := rootLevelFieldAddr_injective same
  cases side with
  | true => exact other handles.symm
  | false => exact other handles

/-- A complete copy maps the pages the original maps, with the same fields and contents;
the original is as it was, and no write through one space is read through the other. -/
theorem cloneUserspace_isolated (owned : u.Owned frames)
    (named : u.Named (.cloneUserspace source target))
    (done : Mmu.cloneUserspace source target u.mmu = some (0, m)) :
    (∀ virt, SamePage m.mem m.mem (rootLevelFieldAddr source) (rootLevelFieldAddr target) virt) ∧
      (∀ f ∈ tree m.mem (rootLevelFieldAddr source), f ∉ tree m.mem (rootLevelFieldAddr target)) ∧
      (tree m.mem (rootLevelFieldAddr source) = tree u.mmu.mem (rootLevelFieldAddr source) ∧
        Agree u.mmu.mem m.mem (tree u.mmu.mem (rootLevelFieldAddr source))) ∧
      ∀ side writes virt,
        readUser (writeUsers (pair source target) m.mem writes) (pair source target side) virt =
          readUser (writeUsers (pair source target) m.mem (writes.filter fun w => w.side = side))
            (pair source target side) virt := by
  obtain ⟨r, m', rest, ran, mapping, roles, kept, -, copied⟩ := cloneUserspace_owned owned named
  obtain ⟨sourceIn, targetIn, other, -⟩ := named
  have both := Option.some.inj (done.symm.trans ran)
  obtain ⟨rfl, rfl⟩ := Prod.mk.inj both
  have inOthers : rootLevelFieldAddr source ∈ u.roots.erase (rootLevelFieldAddr target) :=
    (List.mem_erase_of_ne fun same => other (rootLevelFieldAddr_injective same)).mpr (mem_roots sourceIn)
  have agree := kept.mono (tree_subset inOthers u.mmu.mem)
  have after : UserSpaces.Owned frames ⟨m, u.live⟩ := ⟨mapping, rest, roles⟩
  have isolated := after.isolated sourceIn targetIn other
  refine ⟨fun virt => samePage_of_copied ?_ virt, fun f member => isolated.apart true f member,
    ⟨congrArg (rootLevelFieldAddr source :: ·) agree.below, agree⟩, fun side writes virt => ?_⟩
  · exact (copied rfl).congr agree fun _ _ _ _ => rfl
  · exact readUser_writeUsers side isolated isolated (fun _ _ _ _ => rfl) writes virt

/-- A space with one page is copied into another. -/
theorem cloneUserspace_isolated_page : ∃ u source target m,
    UserSpaces.Named u (.cloneUserspace source target) ∧
      Mmu.cloneUserspace source target u.mmu = some (0, m) ∧
        (below u.mmu.mem 3 (rootLevelFieldAddr source)).length = 3 ∧
          ∀ virt, SamePage m.mem m.mem (rootLevelFieldAddr source) (rootLevelFieldAddr target) virt := by
  obtain ⟨_, m₂, page⟩ := onePage (show 8 ≤ 16384 by decide) (by decide +kernel) (by decide)
  have left := page.frames
  obtain ⟨m₃, inits, owned, fresh, empty, agree, count⟩ :=
    page.owned.init_first (show m₂.memLayout.freeFrames ≠ 0 by omega)
  have kept : below m₃.mem 3 (rootLevelFieldAddr firstSpace) = below m₂.mem 3 dramStart := by
    have mine := agree.mono (tree_subset (mem_roots (List.mem_cons_self : firstSpace ∈ [_])) m₂.mem)
    rw [firstSpace_root] at mine ⊢
    exact mine.below
  have named : UserSpaces.Named ⟨m₃, [_, firstSpace]⟩
      (.cloneUserspace firstSpace (rootLevelAddrField m₂.memLayout.freeFrame)) :=
    ⟨List.mem_cons_of_mem _ List.mem_cons_self, List.mem_cons_self,
      fun same => fresh (same ▸ List.mem_cons_self), empty⟩
  obtain ⟨r, m, left₄, ran, -, -, -, enough, -⟩ := cloneUserspace_owned owned named
  have complete : r = 0 := by
    refine enough.mpr ?_
    have room : m₃.memLayout.freeFrames = m₂.memLayout.freeFrames - 1 := count
    show (below m₃.mem 3 _).length ≤ m₃.memLayout.freeFrames
    rw [kept, page.pages, room]
    omega
  subst complete
  have isolated := cloneUserspace_isolated owned named ran
  refine ⟨_, _, _, m, named, ran, ?_, isolated.1⟩
  show (below m₃.mem 3 _).length = 3
  rw [kept, page.pages]

end UserSpaces

end TrollOS.Mmu
