import Mathlib.Algebra.GroupWithZero.Nat
import Mathlib.Data.List.Basic

/-!
# Sharing out a list

Calls that take what comes next from a list: each gets as many entries as it asks for,
as long as there are some.  Copies of the first entry are such shares only while no
second entry is asked for.
-/

namespace TrollOS.Lib

variable {α : Type}

/-- A list in order, shared out to calls that ask for so many entries each. -/
def shares : List α → List Nat → List (List α)
  | _, [] => []
  | entries, k :: ks => entries.take k :: shares (entries.drop k) ks

theorem shares_nil (ks : List Nat) : shares ([] : List α) ks = ks.map fun _ => [] := by
  induction ks with
  | nil => rfl
  | cons k ks ih =>
      unfold shares
      rw [List.take_nil, List.drop_nil, ih]
      rfl

theorem shares_append (entries : List α) (ks more : List Nat) :
    shares entries (ks ++ more) = shares entries ks ++ shares (entries.drop ks.sum) more := by
  induction ks generalizing entries with
  | nil => rfl
  | cons k ks ih =>
      rw [List.cons_append, List.sum_cons, ← List.drop_drop]
      exact congrArg (List.cons (entries.take k)) (ih (entries.drop k))

/-- The shares in a row are what has been asked for. -/
theorem shares_flatten (entries : List α) (ks : List Nat) :
    (shares entries ks).flatten = entries.take ks.sum := by
  induction ks generalizing entries with
  | nil => rfl
  | cons k ks ih =>
      rw [List.sum_cons, List.take_add, ← ih (entries.drop k)]
      rfl

/-- Copies of an entry that does not remain are shares only of nothing. -/
theorem copies_absent {first : α} {entries : List α} (absent : first ∉ entries) (ks : List Nat) :
    ks.map (fun k => List.replicate k first) = shares entries ks ↔ ks.sum = 0 := by
  induction ks with
  | nil => exact iff_of_true rfl rfl
  | cons k ks ih =>
      rw [List.sum_cons]
      cases k with
      | zero =>
          unfold shares
          rw [List.take_zero, List.drop_zero, List.map_cons, List.replicate_zero, Nat.zero_add, ← ih]
          exact ⟨fun same => (List.cons.inj same).2, fun same => by rw [same]⟩
      | succ k =>
          refine iff_of_false (fun same => absent ?_) (by omega)
          have head : List.replicate (k + 1) first = entries.take (k + 1) := (List.cons.inj same).1
          have member : first ∈ List.replicate (k + 1) first := List.mem_cons_self
          rw [head] at member
          exact List.mem_of_mem_take member

/-- Copies of the first entry are the shares as long as no second entry is asked for. -/
theorem copies_first {first : α} {rest : List α} (absent : first ∉ rest) (ks : List Nat) :
    ks.map (fun k => List.replicate k first) = shares (first :: rest) ks ↔ ks.sum ≤ 1 := by
  induction ks with
  | nil => exact iff_of_true rfl (Nat.zero_le 1)
  | cons k ks ih =>
      rw [List.sum_cons]
      match k with
      | 0 =>
          unfold shares
          rw [List.take_zero, List.drop_zero, List.map_cons, List.replicate_zero, Nat.zero_add, ← ih]
          exact ⟨fun same => (List.cons.inj same).2, fun same => by rw [same]⟩
      | 1 =>
          have later := copies_absent absent ks
          constructor
          · intro same
            have none := later.mp (List.cons.inj same).2
            omega
          · intro few
            change [first] :: _ = [first] :: shares rest ks
            rw [later.mpr (by omega)]
      | k + 2 =>
          refine iff_of_false (fun same => absent ?_) (by omega)
          have head : first :: List.replicate (k + 1) first = first :: rest.take (k + 1) :=
            (List.cons.inj same).1
          have member : first ∈ List.replicate (k + 1) first := List.mem_cons_self
          rw [(List.cons.inj head).2] at member
          exact List.mem_of_mem_take member

end TrollOS.Lib
