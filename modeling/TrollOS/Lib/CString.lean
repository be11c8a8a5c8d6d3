import TrollOS.Lib.ByteMemory

/-!
# C strings in byte memory
-/

namespace TrollOS.Lib

/-- The bytes from `p` up to the first NUL, at most `n`. -/
def cString (m : ByteMem) (p : Nat) : Nat → List UInt8
  | 0 => []
  | n + 1 => if m p = 0 then [] else m p :: cString m (p + 1) n

section

variable {m m' : ByteMem} {p p' n : Nat}

theorem cString_length_le (m : ByteMem) (p n : Nat) : (cString m p n).length ≤ n := by
  induction n generalizing p with
  | zero => exact Nat.le_refl 0
  | succ n ih =>
      unfold cString
      split
      · exact Nat.zero_le _
      · exact Nat.succ_le_succ (ih _)

/-- The bytes before the NUL. -/
theorem cString_nonzero {k : Nat} (within : k < (cString m p n).length) : m (p + k) ≠ 0 := by
  induction n generalizing p k with
  | zero => exact absurd within (Nat.not_lt_zero _)
  | succ n ih =>
      unfold cString at within
      by_cases ends : m p = 0
      · rw [if_pos ends] at within
        exact absurd within (Nat.not_lt_zero _)
      · rw [if_neg ends] at within
        cases k with
        | zero => exact ends
        | succ k =>
            have later := ih (Nat.lt_of_succ_lt_succ within)
            rwa [Nat.add_right_comm] at later

/-- A name in memory is the string there. -/
theorem cString_eq {name : List UInt8} (text : 0 ∉ name) (short : name.length ≤ n)
    (bytes : ∀ i < n, i ≤ name.length → m (p + i) = name.getD i 0) : cString m p n = name := by
  induction name generalizing p n with
  | nil =>
      cases n with
      | zero => rfl
      | succ n => exact if_pos (bytes 0 (Nat.succ_pos n) (Nat.le_refl 0))
  | cons char name ih =>
      obtain ⟨n, rfl⟩ := Nat.exists_eq_succ_of_ne_zero (Nat.ne_of_gt (Nat.lt_of_lt_of_le (Nat.succ_pos _) short))
      obtain ⟨other, text'⟩ := not_or.1 (mt List.mem_cons.2 text)
      have here : m p = char := bytes 0 (Nat.succ_pos n) (Nat.zero_le _)
      have later : cString m (p + 1) n = name :=
        ih text' (Nat.le_of_succ_le_succ short) fun i small within => by
          rw [Nat.add_assoc, Nat.add_comm 1 i]
          exact bytes (i + 1) (Nat.succ_lt_succ small) (Nat.succ_le_succ within)
      unfold cString
      rw [here, later, if_neg (Ne.symm other)]

/-- A string depends on its bytes and its NUL only. -/
theorem cString_congr (same : ∀ i, i ≤ (cString m p n).length → m (p + i) = m' (p' + i)) :
    cString m' p' n = cString m p n := by
  induction n generalizing p p' with
  | zero => rfl
  | succ n ih =>
      have first := same 0 (Nat.zero_le _)
      rw [Nat.add_zero, Nat.add_zero] at first
      unfold cString at same ⊢
      rw [← first]
      by_cases ends : m p = 0
      · rw [if_pos ends, if_pos ends]
      · rw [if_neg ends] at same
        rw [if_neg ends, if_neg ends]
        congr 1
        refine ih fun i within => ?_
        have later := same (i + 1) (Nat.succ_le_succ within)
        rwa [← Nat.add_assoc, Nat.add_right_comm p, ← Nat.add_assoc, Nat.add_right_comm p'] at later

/-- A string shorter than the bound ends in a NUL. -/
theorem cString_end (short : (cString m p n).length < n) : m (p + (cString m p n).length) = 0 := by
  induction n generalizing p with
  | zero => exact absurd short (Nat.not_lt_zero _)
  | succ n ih =>
      unfold cString at short ⊢
      by_cases ends : m p = 0
      · rw [if_pos ends]
        exact ends
      · rw [if_neg ends] at short ⊢
        have later := ih (Nat.lt_of_succ_lt_succ short)
        rwa [Nat.add_right_comm] at later

end

end TrollOS.Lib
