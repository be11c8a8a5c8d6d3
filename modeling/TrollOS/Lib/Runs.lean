import Mathlib.Tactic.Common

/-!
# Maximal runs

The runs of a list between the elements that satisfy `p`.
-/

namespace TrollOS.Lib

variable {α : Type} (p : α → Bool)

/-- The maximal non-empty stretches without an element that satisfies `p`, in order. -/
def runs (s : List α) : List (List α) := (s.splitOnP p).filter fun run => !run.isEmpty

variable {p}

theorem runs_sep {x : α} (sep : p x = true) (s : List α) : runs p (x :: s) = runs p s := by
  unfold runs
  rw [← List.nil_append (x :: s),
    List.splitOnP_append_cons_of_forall_mem (fun _ member => absurd member List.not_mem_nil) x sep]
  rfl

/-- Separators at the front are skipped. -/
theorem runs_skip {seps : List α} (all : ∀ x ∈ seps, p x = true) (s : List α) :
    runs p (seps ++ s) = runs p s := by
  induction seps with
  | nil => rfl
  | cons x rest ih =>
      rw [List.cons_append, runs_sep (all x List.mem_cons_self)]
      exact ih fun y member => all y (List.mem_cons_of_mem x member)

theorem runs_single {run : List α} (whole : ∀ x ∈ run, p x = false) (some' : run ≠ []) :
    runs p run = [run] := by
  unfold runs
  rw [List.splitOnP_eq_singleton whole, List.filter_cons_of_pos (by simpa using some')]
  rfl

theorem runs_append {run : List α} (whole : ∀ x ∈ run, p x = false) (some' : run ≠ []) {x : α}
    (sep : p x = true) (s : List α) : runs p (run ++ x :: s) = run :: runs p s := by
  unfold runs
  rw [List.splitOnP_append_cons_of_forall_mem whole x sep, List.filter_cons_of_pos (by simpa using some')]

/-- A list is one stretch, or goes on behind a separator. -/
theorem stretch_cases (p : α → Bool) (s : List α) : (∀ x ∈ s, p x = false) ∨
    ∃ run x rest, s = run ++ x :: rest ∧ (∀ y ∈ run, p y = false) ∧ p x = true := by
  induction s with
  | nil => exact Or.inl fun x member => absurd member List.not_mem_nil
  | cons x s ih =>
      by_cases sep : p x = true
      · exact Or.inr ⟨[], x, s, rfl, fun y member => absurd member List.not_mem_nil, sep⟩
      · have plain : p x = false := Bool.eq_false_iff.2 sep
        rcases ih with whole | ⟨run, y, rest, rfl, whole, sep'⟩
        · exact Or.inl (List.forall_mem_cons.2 ⟨plain, whole⟩)
        · exact Or.inr ⟨x :: run, y, rest, rfl, List.forall_mem_cons.2 ⟨plain, whole⟩, sep'⟩

end TrollOS.Lib
