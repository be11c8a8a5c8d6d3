import Mathlib.Logic.Function.Basic

/-!
# Painting

A loop each turn of which writes to some places of a function.
-/

namespace TrollOS.Lib

variable {ι α β : Type} {step : (α → β) → ι → α → β} {turns : List ι} {p : α}

/-- A place that no turn writes to. -/
theorem foldl_kept (kept : ∀ i ∈ turns, ∀ f, step f i p = f p) (f : α → β) : turns.foldl step f p = f p := by
  induction turns generalizing f with
  | nil => rfl
  | cons i turns ih =>
      rw [List.foldl_cons, ih fun j member => kept j (List.mem_cons_of_mem i member)]
      exact kept i List.mem_cons_self f

/-- A place that one turn writes to, and no other. -/
theorem foldl_written {i : ι} {value : β} (member : i ∈ turns) (written : ∀ f, step f i p = value)
    (kept : ∀ j ∈ turns, j ≠ i → ∀ f, step f j p = f p) (f : α → β) : turns.foldl step f p = value := by
  induction turns generalizing f with
  | nil => cases member
  | cons j turns ih =>
      have later : ∀ k ∈ turns, k ≠ i → ∀ f, step f k p = f p :=
        fun k inside => kept k (List.mem_cons_of_mem j inside)
      rw [List.foldl_cons]
      by_cases again : i ∈ turns
      · exact ih again later _
      · rcases List.mem_cons.1 member with rfl | inside
        · rw [foldl_kept fun k inside => later k inside fun same => again (same ▸ inside)]
          exact written f
        · exact absurd inside again

end TrollOS.Lib
