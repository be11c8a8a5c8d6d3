import Mathlib.Tactic.Common

/-!
# Searching a ring of slots

`cyclicFind` walks over the slots `0`, …, `n - 1` in cyclic order until it meets
one that satisfies a test.  A walk that has not stopped after `n` slots has seen
them all and never stops.
-/

namespace TrollOS.Lib

def cyclicFind (n : Nat) (found : Nat → Bool) : Nat → Nat → Option Nat
  | 0, _ => none
  | fuel + 1, pos => if found pos then some pos else cyclicFind n found fuel ((pos + 1) % n)

section CyclicFind

variable {n : Nat} {found : Nat → Bool} {fuel pos : Nat}

theorem slot_next (n pos d : Nat) : ((pos + 1) % n + d) % n = (pos + (d + 1)) % n := by
  rw [Nat.mod_add_mod, Nat.add_assoc, Nat.add_comm 1 d]

/-- The result is the first slot in cyclic order that satisfies the test. -/
theorem cyclicFind_eq_some_iff (small : pos < n) {r : Nat} :
    cyclicFind n found fuel pos = some r ↔
      ∃ d, d < fuel ∧ r = (pos + d) % n ∧ found r = true ∧
        ∀ e, e < d → found ((pos + e) % n) = false := by
  induction fuel generalizing pos with
  | zero =>
      constructor
      · exact fun impossible => nomatch impossible
      · rintro ⟨d, impossible, -⟩
        exact absurd impossible (Nat.not_lt_zero d)
  | succ fuel ih =>
      have start : (pos + 0) % n = pos := Nat.mod_eq_of_lt small
      have inner := ih (Nat.mod_lt (pos + 1) (Nat.lt_of_le_of_lt (Nat.zero_le pos) small))
      unfold cyclicFind
      cases here : found pos with
      | true =>
          rw [if_pos rfl]
          constructor
          · intro same
            have eq : pos = r := Option.some.inj same
            refine ⟨0, Nat.succ_pos fuel, ?_, ?_, fun e none => absurd none (Nat.not_lt_zero e)⟩
            · rw [start, eq]
            · rw [← eq, here]
          · rintro ⟨d, -, place, -, before⟩
            cases d with
            | zero => rw [place, start]
            | succ d =>
                have no := before 0 (Nat.succ_pos d)
                rw [start, here] at no
                exact nomatch no
      | false =>
          rw [if_neg (by decide), inner]
          constructor
          · rintro ⟨d, less, place, hit, before⟩
            refine ⟨d + 1, Nat.succ_lt_succ less, ?_, hit, ?_⟩
            · rw [place, slot_next]
            · intro e earlier
              cases e with
              | zero => rw [start, here]
              | succ e =>
                  rw [← slot_next]
                  exact before e (Nat.lt_of_succ_lt_succ earlier)
          · rintro ⟨d, less, place, hit, before⟩
            cases d with
            | zero =>
                rw [place, start, here] at hit
                exact nomatch hit
            | succ d =>
                refine ⟨d, Nat.lt_of_succ_lt_succ less, ?_, hit, ?_⟩
                · rw [place, slot_next]
                · intro e earlier
                  rw [slot_next]
                  exact before (e + 1) (Nat.succ_lt_succ earlier)

/-- A walk over all `n` slots finds a slot when there is one. -/
theorem cyclicFind_isSome (small : pos < n) {d : Nat} (near : d < fuel)
    (hit : found ((pos + d) % n) = true) : ∃ r, cyclicFind n found fuel pos = some r := by
  induction fuel generalizing pos d with
  | zero => exact absurd near (Nat.not_lt_zero d)
  | succ fuel ih =>
      unfold cyclicFind
      cases here : found pos with
      | true => exact ⟨pos, rfl⟩
      | false =>
          rw [if_neg (by decide)]
          cases d with
          | zero =>
              rw [Nat.add_zero, Nat.mod_eq_of_lt small, here] at hit
              exact nomatch hit
          | succ d =>
              refine ih (Nat.mod_lt _ (Nat.lt_of_le_of_lt (Nat.zero_le pos) small))
                (Nat.lt_of_succ_lt_succ near) ?_
              rw [slot_next]
              exact hit

end CyclicFind

end TrollOS.Lib
