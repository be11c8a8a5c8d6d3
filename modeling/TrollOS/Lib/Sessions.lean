import Mathlib.Data.List.Basic
import Mathlib.Logic.Function.Basic

/-!
# Sessions

A party that answers requests one after the other.
-/

namespace TrollOS.Lib.Sessions

variable {σ τ ι β : Type}

def run (step : σ → ι → β × σ) : σ → List ι → List β × σ
  | state, [] => ([], state)
  | state, request :: requests =>
      ((step state request).1 :: (run step (step state request).2 requests).1,
        (run step (step state request).2 requests).2)

@[simp] theorem run_nil (step : σ → ι → β × σ) (state : σ) : run step state [] = ([], state) := rfl

@[simp] theorem run_cons (step : σ → ι → β × σ) (state : σ) (request : ι) (requests : List ι) :
    run step state (request :: requests) =
      ((step state request).1 :: (run step (step state request).2 requests).1,
        (run step (step state request).2 requests).2) := rfl

theorem run_append (step : σ → ι → β × σ) (state : σ) (first second : List ι) :
    run step state (first ++ second) =
      ((run step state first).1 ++ (run step (run step state first).2 second).1,
        (run step (run step state first).2 second).2) := by
  induction first generalizing state with
  | nil => rfl
  | cons request first ih => rw [List.cons_append, run_cons, run_cons, ih]; rfl

/-- Requests that change nothing. -/
theorem run_fixed {step : σ → ι → β × σ} {state : σ} {requests : List ι}
    (fixed : ∀ request ∈ requests, (step state request).2 = state) : (run step state requests).2 = state := by
  induction requests with
  | nil => rfl
  | cons request requests ih =>
      rw [run_cons, fixed request List.mem_cons_self]
      exact ih fun later member => fixed later (List.mem_cons_of_mem request member)

/-- Every request meets a condition in the state it comes to. -/
def Legal (step : σ → ι → β × σ) (allowed : σ → ι → Prop) : σ → List ι → Prop
  | _, [] => True
  | state, request :: requests =>
      allowed state request ∧ Legal step allowed (step state request).2 requests

end TrollOS.Lib.Sessions
