import Mathlib.Algebra.Group.Nat.Defs
import Mathlib.Tactic.Common

/-!
# Bit fields of a word

A field is given by its lowest bit and its width.  Setting one keeps the bits
above and below it.
-/

namespace TrollOS.Lib

/-- `width` bits of `w` from bit `lo` on. -/
def field (w lo width : Nat) : Nat := w / 2 ^ lo % 2 ^ width

def setField (w lo width v : Nat) : Nat :=
  (w / 2 ^ (lo + width) * 2 ^ width + v % 2 ^ width) * 2 ^ lo + w % 2 ^ lo

theorem field_lt (w lo width : Nat) : field w lo width < 2 ^ width :=
  Nat.mod_lt _ (Nat.two_pow_pos width)

theorem setField_div (w lo width v : Nat) :
    setField w lo width v / 2 ^ lo = w / 2 ^ (lo + width) * 2 ^ width + v % 2 ^ width := by
  unfold setField
  rw [Nat.mul_comm, Nat.mul_add_div (Nat.two_pow_pos lo),
    Nat.div_eq_of_lt (Nat.mod_lt w (Nat.two_pow_pos lo)), Nat.add_zero]

theorem setField_mod (w lo width v : Nat) : setField w lo width v % 2 ^ lo = w % 2 ^ lo := by
  unfold setField
  rw [Nat.mul_comm, Nat.mul_add_mod, Nat.mod_mod]

@[simp]
theorem field_setField (w lo width v : Nat) :
    field (setField w lo width v) lo width = v % 2 ^ width := by
  unfold field
  rw [setField_div, Nat.mul_comm, Nat.mul_add_mod, Nat.mod_mod]

/-- The bits from the end of the field on. -/
theorem setField_above (w lo width v : Nat) :
    setField w lo width v / 2 ^ (lo + width) = w / 2 ^ (lo + width) := by
  rw [Nat.pow_add 2 lo width, ← Nat.div_div_eq_div_mul, setField_div,
    Nat.mul_comm (w / _), Nat.mul_add_div (Nat.two_pow_pos width),
    Nat.div_eq_of_lt (Nat.mod_lt v (Nat.two_pow_pos width)), Nat.add_zero, Nat.pow_add]

/-- A field above the one that is set keeps its value. -/
theorem field_setField_above (w v : Nat) {lo width lo' : Nat} (width' : Nat)
    (above : lo + width ≤ lo') :
    field (setField w lo width v) lo' width' = field w lo' width' := by
  obtain ⟨gap, rfl⟩ := Nat.exists_eq_add_of_le above
  unfold field
  rw [Nat.pow_add 2 (lo + width) gap, ← Nat.div_div_eq_div_mul, ← Nat.div_div_eq_div_mul,
    setField_above]

/-- A field depends on nothing above it. -/
theorem field_mod (w : Nat) {lo width bound : Nat} (below : lo + width ≤ bound) :
    field (w % 2 ^ bound) lo width = field w lo width := by
  obtain ⟨gap, rfl⟩ := Nat.exists_eq_add_of_le below
  unfold field
  rw [Nat.add_assoc, Nat.pow_add 2 lo, Nat.mod_mul_right_div_self, Nat.pow_add,
    Nat.mod_mul_right_mod]

/-- A field below the one that is set keeps its value. -/
theorem field_setField_below (w v : Nat) {lo lo' width' : Nat} (width : Nat)
    (below : lo' + width' ≤ lo) :
    field (setField w lo width v) lo' width' = field w lo' width' := by
  rw [← field_mod _ below, setField_mod, field_mod _ below]

/-- Setting a field keeps a word in its range. -/
theorem setField_lt {w lo width bound : Nat} (v : Nat) (small : w < 2 ^ bound)
    (fits : lo + width ≤ bound) : setField w lo width v < 2 ^ bound := by
  obtain ⟨gap, rfl⟩ := Nat.exists_eq_add_of_le fits
  have high : w / 2 ^ (lo + width) < 2 ^ gap := by
    apply Nat.div_lt_of_lt_mul
    rwa [← Nat.pow_add]
  rw [← setField_above w lo width v, Nat.div_lt_iff_lt_mul (Nat.two_pow_pos _)] at high
  rwa [Nat.pow_add, Nat.mul_comm]

end TrollOS.Lib
