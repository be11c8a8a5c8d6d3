/-!
# Counting the slots of a table
-/

namespace TrollOS.Lib

/-- How many of the first `size` slots satisfy `p`. -/
def slots (size : Nat) (p : Nat → Bool) : Nat := (List.range size).countP p

theorem slots_succ (size : Nat) (p : Nat → Bool) :
    slots (size + 1) p = slots size p + (p size).toNat := by
  unfold slots
  rw [List.range_succ, List.countP_append, List.countP_singleton]
  cases p size with
  | false => rfl
  | true => rfl

theorem slots_congr {size : Nat} {p q : Nat → Bool} (same : ∀ slot, slot < size → p slot = q slot) :
    slots size p = slots size q := by
  induction size with
  | zero => rfl
  | succ size ih =>
      rw [slots_succ, slots_succ, same size (Nat.lt_succ_self size),
        ih fun slot small => same slot (Nat.lt_succ_of_lt small)]

/-- Changing one slot changes the count by that slot. -/
theorem slots_change {size k : Nat} {p q : Nat → Bool} (small : k < size)
    (same : ∀ slot, slot ≠ k → p slot = q slot) :
    slots size q + (p k).toNat = slots size p + (q k).toNat := by
  induction size with
  | zero => exact absurd small (Nat.not_lt_zero k)
  | succ size ih =>
      rw [slots_succ, slots_succ]
      by_cases last : k = size
      · subst last
        have others : slots k p = slots k q :=
          slots_congr fun slot below => same slot (Nat.ne_of_lt below)
        rw [others]
        exact Nat.add_right_comm _ _ _
      · have rest := ih (Nat.lt_of_le_of_ne (Nat.le_of_lt_succ small) last)
        rw [same size fun here => last here.symm]
        omega

theorem slots_none {size : Nat} {p : Nat → Bool} (none : ∀ slot, slot < size → p slot = false) :
    slots size p = 0 := by
  induction size with
  | zero => rfl
  | succ size ih =>
      rw [slots_succ, none size (Nat.lt_succ_self size),
        ih fun slot small => none slot (Nat.lt_succ_of_lt small)]
      rfl

end TrollOS.Lib
