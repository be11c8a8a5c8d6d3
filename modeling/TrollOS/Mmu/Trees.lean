import TrollOS.Lib.Blocks
import TrollOS.Mmu.Frames

/-!
# The frames of a translation tree

What a tree consists of is read off its tables: `child` follows one descriptor
and `below` lists every frame under a table.  Only the tables matter for that,
so a change elsewhere leaves the tree as it is.
-/

namespace TrollOS.Frames

open TrollOS.Lib Mmu

/-- A frame the allocator can own. -/
structure IsFrame (f : Nat) : Prop where
  aligned : f % pageSize = 0
  positive : f ≠ 0
  inRange : f < 4294967296

def child (mem : ByteMem) (level table i : Nat) : Option Nat :=
  if isResident level (mem.load32 (table + 4 * i)) then
    some (address level (mem.load32 (table + 4 * i)))
  else none

def below (mem : ByteMem) : Nat → Nat → List Nat
  | 0, _ => []
  | level + 1, table =>
      (List.range (entries (level + 1))).flatMap fun i =>
        (child mem (level + 1) table i).elim [] fun c => c :: below mem level c

/-- The frames behind one entry of a table. -/
def belowAt (mem : ByteMem) (level table i : Nat) : List Nat :=
  (child mem (level + 1) table i).elim [] fun c => c :: below mem level c

theorem below_succ (mem : ByteMem) (level table : Nat) :
    below mem (level + 1) table = (List.range (entries (level + 1))).flatMap (belowAt mem level table) :=
  rfl

def tables (mem : ByteMem) : Nat → Nat → List Nat
  | 0, _ => []
  | level + 1, table =>
      table :: (List.range (entries (level + 1))).flatMap fun i =>
        (child mem (level + 1) table i).elim [] fun c => tables mem level c

def tablesAt (mem : ByteMem) (level table i : Nat) : List Nat :=
  (child mem (level + 1) table i).elim [] fun c => tables mem level c

theorem tables_succ (mem : ByteMem) (level table : Nat) :
    tables mem (level + 1) table =
      table :: (List.range (entries (level + 1))).flatMap (tablesAt mem level table) :=
  rfl

def tree (mem : ByteMem) (root : Nat) : List Nat := root :: below mem 3 root

section Descriptors

variable {ph w : Nat}

theorem entries_le (level : Nat) : entries level ≤ 128 := by
  unfold entries
  split
  · exact Nat.zero_le 128
  · exact (by decide : pageDescriptors ≤ 128)
  · exact Nat.le_refl 128
  · exact Nat.le_refl 128

theorem descriptorType_set (w type : Nat) : descriptorType (setDescriptorType w type) = type % 4 :=
  field_setField w 0 2 type

/-- An invalidated descriptor leads nowhere. -/
theorem isResident_invalid (level w : Nat) : isResident level (setDescriptorType w 0) = false := by
  unfold isResident
  rw [descriptorType_set]
  split
  · rfl
  · rfl

/-- The word `mmu040_alloc_at` and the clone put into an upper table. -/
def linked (level w ph : Nat) : Nat := setDescriptorType (setAddress level w ph) 2

theorem isResident_linked {level : Nat} (upper : level ≠ 1) (w ph : Nat) :
    isResident level (linked level w ph) = true := by
  unfold isResident linked
  rw [if_neg upper, descriptorType_set]
  rfl

/-- An address comes back from a field that is wide enough. -/
theorem address_field (frame : IsFrame ph) {unit lo width : Nat} (w : Nat)
    (divides : unit ∣ pageSize) (fits : 4294967296 ≤ 2 ^ width * unit) :
    field (setField w lo width (ph / unit)) lo width * unit = ph := by
  have whole : unit ∣ ph := Nat.dvd_trans divides (Nat.dvd_of_mod_eq_zero frame.aligned)
  have small : ph / unit < 2 ^ width :=
    Nat.div_lt_of_lt_mul (Nat.mul_comm .. ▸ Nat.lt_of_lt_of_le frame.inRange fits)
  rw [field_setField, Nat.mod_eq_of_lt small]
  exact Nat.div_mul_cancel whole

theorem address_setAddress (frame : IsFrame ph) (level w : Nat) :
    address level (setAddress level w ph) = ph := by
  match level with
  | 1 => exact address_field frame w (Nat.dvd_refl pageSize) (by decide)
  | 2 => exact address_field frame w (by decide : 128 ∣ pageSize) (by decide)
  | 0 => exact address_field frame w (by decide : 512 ∣ pageSize) (by decide)
  | _ + 3 => exact address_field frame w (by decide : 512 ∣ pageSize) (by decide)

/-- Fields below the address do not matter. -/
theorem address_setField {level lo width : Nat} (low : lo + width ≤ 7) (w v : Nat) :
    address level (setField w lo width v) = address level w := by
  unfold address
  split
  · unfold physicalAddress
    rw [field_setField_above w v 20 (by omega)]
  · unfold pointerTableAddress
    rw [field_setField_above w v 25 (by omega)]
  · unfold rootTableAddress
    rw [field_setField_above w v 23 (by omega)]

theorem address_linked (frame : IsFrame ph) (level w : Nat) : address level (linked level w ph) = ph := by
  unfold linked setDescriptorType
  rw [address_setField (by decide), address_setAddress frame]

theorem isResident_placed (w ph : Nat) (supervisor writeProtected : Bool) :
    isResident 1 (placed w ph supervisor writeProtected) = true := by
  unfold isResident placed
  rw [if_pos rfl, descriptorType_set]
  rfl

end Descriptors

section Congruence

variable {mem mem' : ByteMem}

/-- A word of a table depends on the block of the table only. -/
theorem word_congr {table i : Nat} (small : i < 128)
    (same : ∀ x, InBlock pageSize table x → mem' x = mem x) :
    mem'.load32 (table + 4 * i) = mem.load32 (table + 4 * i) :=
  ByteMem.load32_congr fun x low high => by
    refine same x ⟨by omega, ?_⟩
    unfold pageSize
    omega

theorem child_congr {level table i : Nat} (small : i < entries level)
    (same : ∀ x, InBlock pageSize table x → mem' x = mem x) :
    child mem' level table i = child mem level table i := by
  unfold child
  rw [word_congr (Nat.lt_of_lt_of_le small (entries_le level)) same]

theorem mem_tables_child {level table i c : Nat} (small : i < entries (level + 1))
    (leads : child mem (level + 1) table i = some c) {t : Nat} (member : t ∈ tables mem level c) :
    t ∈ tables mem (level + 1) table := by
  rw [tables_succ]
  refine List.mem_cons_of_mem _ (List.mem_flatMap.mpr ⟨i, List.mem_range.mpr small, ?_⟩)
  unfold tablesAt
  rw [leads]
  exact member

theorem mem_tables_self (mem : ByteMem) (level table : Nat) : table ∈ tables mem (level + 1) table := by
  rw [tables_succ]
  exact List.mem_cons_self

/-- A tree is determined by its tables. -/
theorem below_congr {level table : Nat}
    (same : ∀ t ∈ tables mem level table, ∀ x, InBlock pageSize t x → mem' x = mem x) :
    below mem' level table = below mem level table := by
  induction level generalizing table with
  | zero => rfl
  | succ level ih =>
      rw [below_succ, below_succ]
      refine List.flatMap_congr fun i member => ?_
      have small := List.mem_range.mp member
      unfold belowAt
      rw [child_congr small (same table (mem_tables_self mem level table))]
      cases leads : child mem (level + 1) table i with
      | none => rw [Option.elim_none, Option.elim_none]
      | some c =>
          have deeper := ih fun t inTree => same t (mem_tables_child small leads inTree)
          rw [Option.elim_some, Option.elim_some, deeper]

theorem tables_subset (mem : ByteMem) (level table : Nat) :
    tables mem level table ⊆ table :: below mem level table := by
  induction level generalizing table with
  | zero => exact fun t member => nomatch member
  | succ level ih =>
      rw [tables_succ, below_succ]
      intro t member
      rcases List.mem_cons.mp member with here | deeper
      · rw [here]
        exact List.mem_cons_self
      · obtain ⟨i, inRange, inside⟩ := List.mem_flatMap.mp deeper
        refine List.mem_cons_of_mem _ (List.mem_flatMap.mpr ⟨i, inRange, ?_⟩)
        unfold tablesAt at inside
        unfold belowAt
        cases leads : child mem (level + 1) table i with
        | none =>
            rw [leads] at inside
            exact nomatch inside
        | some c =>
            rw [leads] at inside
            exact ih c inside

/-- A change in other frames leaves a tree as it is. -/
theorem below_unchanged {level table : Nat} {blocks : List Nat}
    (unchanged : Unchanged pageSize mem mem' blocks) (aligned : ∀ b ∈ blocks, b % pageSize = 0)
    (frames : ∀ t ∈ table :: below mem level table, t % pageSize = 0)
    (apart : ∀ t ∈ table :: below mem level table, t ∉ blocks) :
    below mem' level table = below mem level table :=
  below_congr fun t member _ inside =>
    unchanged.byte aligned (frames t (tables_subset mem level table member))
      (apart t (tables_subset mem level table member)) inside

end Congruence

end TrollOS.Frames
