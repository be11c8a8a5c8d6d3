/-!
# Calls that return, fail or never end
-/

namespace TrollOS.Lib

/-- What becomes of a call: it returns a value, it returns a negative error
number, or it never returns. -/
inductive Outcome (α : Type) where
  | value (result : α)
  | error (errno : Int)
  | hang
  deriving DecidableEq, Repr

namespace Outcome

variable {α β γ : Type}

/-- Go on with the value, if there is one. -/
def andThen (call : Outcome α) (next : α → Outcome β) : Outcome β :=
  match call with
  | value result => next result
  | error errno => error errno
  | hang => hang

@[simp] theorem andThen_value (result : α) (next : α → Outcome β) :
    (value result).andThen next = next result := rfl

@[simp] theorem andThen_error (errno : Int) (next : α → Outcome β) :
    (error errno : Outcome α).andThen next = error errno := rfl

@[simp] theorem andThen_hang (next : α → Outcome β) :
    (hang : Outcome α).andThen next = hang := rfl

theorem andThen_assoc (call : Outcome α) (next : α → Outcome β) (last : β → Outcome γ) :
    (call.andThen next).andThen last = call.andThen fun result => (next result).andThen last := by
  cases call with
  | value result => rfl
  | error errno => rfl
  | hang => rfl

theorem andThen_eq_value {call : Outcome α} {next : α → Outcome β} {result : β}
    (done : call.andThen next = value result) :
    ∃ first, call = value first ∧ next first = value result := by
  cases call with
  | value first => exact ⟨first, rfl, done⟩
  | error errno => exact nomatch done
  | hang => exact nomatch done

end Outcome

end TrollOS.Lib
