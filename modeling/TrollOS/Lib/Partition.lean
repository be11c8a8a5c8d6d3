import Mathlib.Data.List.Nodup
import Mathlib.Data.List.Count
import Mathlib.Data.List.Perm.Basic
import Mathlib.Tactic.Common

/-!
# Partitions of an address range

`Partition lo hi extents` says that every address of `[lo, hi)` lies in exactly
one of the extents and that no extent reaches outside.  Counting the covering
extents makes this one equation, which survives reordering, cutting an extent
in two and gluing two neighbours.
-/

namespace TrollOS.Lib

/-- The addresses `base`, …, `base + len - 1`. -/
structure Extent where
  base : Nat
  len : Nat
  deriving DecidableEq, Repr

namespace Extent

def covers (x : Nat) (e : Extent) : Bool := decide (e.base ≤ x) && decide (x < e.base + e.len)

@[simp]
theorem covers_iff (x : Nat) (e : Extent) :
    e.covers x = true ↔ e.base ≤ x ∧ x < e.base + e.len := by
  simp [covers]

def Disjoint (d e : Extent) : Prop := d.base + d.len ≤ e.base ∨ e.base + e.len ≤ d.base

end Extent

def Partition (lo hi : Nat) (extents : List Extent) : Prop :=
  ∀ x, extents.countP (Extent.covers x) = if lo ≤ x ∧ x < hi then 1 else 0

namespace Partition

variable {lo hi : Nat} {extents rest : List Extent} {e d : Extent}

theorem perm (partition : Partition lo hi extents) {other : List Extent}
    (reorder : extents.Perm other) : Partition lo hi other := fun x => by
  rw [← reorder.countP_eq, partition x]

theorem empty (lo : Nat) : Partition lo lo [] := fun x => by
  rw [if_neg (by omega), List.countP_nil]

/-- Cut an extent in two. -/
theorem split {base m n : Nat} (partition : Partition lo hi (⟨base, m + n⟩ :: rest)) :
    Partition lo hi (⟨base, m⟩ :: ⟨base + m, n⟩ :: rest) := fun x => by
  have count := partition x
  simp only [List.countP_cons, Extent.covers_iff] at count ⊢
  rw [← count]
  split <;> split <;> split <;> omega

/-- Glue two neighbours. -/
theorem merge {base m n : Nat} (partition : Partition lo hi (⟨base, m⟩ :: ⟨base + m, n⟩ :: rest)) :
    Partition lo hi (⟨base, m + n⟩ :: rest) := fun x => by
  have count := partition x
  simp only [List.countP_cons, Extent.covers_iff] at count ⊢
  rw [← count]
  split <;> split <;> split <;> omega

/-- Grow the range by one extent at its end. -/
theorem extend (partition : Partition lo hi rest) (ordered : lo ≤ hi) (n : Nat) :
    Partition lo (hi + n) (⟨hi, n⟩ :: rest) := fun x => by
  rw [List.countP_cons, partition x]
  simp only [Extent.covers_iff]
  split <;> split <;> split <;> omega

theorem bounds (partition : Partition lo hi extents) (mem : e ∈ extents) (pos : 0 < e.len) :
    lo ≤ e.base ∧ e.base + e.len ≤ hi := by
  have covered : ∀ x, e.base ≤ x → x < e.base + e.len → lo ≤ x ∧ x < hi := by
    intro x low high
    have one : 0 < extents.countP (Extent.covers x) :=
      List.countP_pos_iff.mpr ⟨e, mem, (Extent.covers_iff x e).mpr ⟨low, high⟩⟩
    rw [partition x] at one
    by_contra out
    rw [if_neg out] at one
    omega
  have first := covered e.base (Nat.le_refl _) (by omega)
  have last := covered (e.base + e.len - 1) (by omega) (by omega)
  omega

/-- Extents that never cover an address twice are pairwise disjoint. -/
theorem pairwise_of_count (once : ∀ x, extents.countP (Extent.covers x) ≤ 1)
    (pos : ∀ e ∈ extents, 0 < e.len) : extents.Pairwise Extent.Disjoint := by
  induction extents with
  | nil => exact List.Pairwise.nil
  | cons e rest ih =>
      refine List.pairwise_cons.mpr ⟨fun d mem => ?_, ih (fun x => ?_) (fun d mem => ?_)⟩
      · by_contra meet
        have pe := pos e List.mem_cons_self
        have pd := pos d (List.mem_cons_of_mem _ mem)
        unfold Extent.Disjoint at meet
        have inE : e.covers (max e.base d.base) = true := by
          rw [Extent.covers_iff]
          omega
        have inD : d.covers (max e.base d.base) = true := by
          rw [Extent.covers_iff]
          omega
        have count := once (max e.base d.base)
        rw [List.countP_cons, if_pos inE] at count
        have one := List.countP_pos_iff.mpr ⟨d, mem, inD⟩
        omega
      · have count := once x
        rw [List.countP_cons] at count
        omega
      · exact pos d (List.mem_cons_of_mem _ mem)

theorem count_le (partition : Partition lo hi extents) (x : Nat) :
    extents.countP (Extent.covers x) ≤ 1 := by
  rw [partition x]
  split <;> omega

end Partition

end TrollOS.Lib
