import Mathlib.Tactic.Common
import Mathlib.Logic.Function.Basic

/-!
# Big-endian byte memory

A memory is a total map from addresses to bytes.  Words are four consecutive
bytes, most significant first.  The lemmas below say what a word store shows
to a later load and what it leaves alone.
-/

namespace TrollOS.Lib

/-- Unsigned 32-bit arithmetic keeps the low word. -/
def u32 (n : Nat) : Nat := n % 4294967296

theorem u32_eq {n : Nat} (small : n < 4294967296) : u32 n = n := Nat.mod_eq_of_lt small

theorem u32_lt (n : Nat) : u32 n < 4294967296 := Nat.mod_lt _ (by decide)

def toInt32 (n : Nat) : Int := if n < 2147483648 then n else (n : Int) - 4294967296

/-- A sum of a signed 64-bit type. -/
def toInt64 (value : Int) : Int := value.bmod 18446744073709551616

theorem toInt64_eq {x : Int} (low : -9223372036854775808 ≤ x) (high : x < 9223372036854775808) :
    toInt64 x = x := by
  unfold toInt64
  rw [Int.bmod_def]
  split
  · omega
  · omega

theorem toInt64_wrapped {x : Int} (low : 9223372036854775808 ≤ x) (high : x < 18446744073709551616) :
    toInt64 x = x - 18446744073709551616 := by
  unfold toInt64
  rw [Int.bmod_def]
  split
  · omega
  · omega

abbrev ByteMem := Nat → UInt8

namespace ByteMem

def load32 (m : ByteMem) (a : Nat) : Nat :=
  (m a).toNat * 16777216 + (m (a + 1)).toNat * 65536 + (m (a + 2)).toNat * 256 + (m (a + 3)).toNat

def store32 (m : ByteMem) (a v : Nat) : ByteMem := fun x =>
  if x = a then UInt8.ofNat (v / 16777216)
  else if x = a + 1 then UInt8.ofNat (v / 65536)
  else if x = a + 2 then UInt8.ofNat (v / 256)
  else if x = a + 3 then UInt8.ofNat v
  else m x

/-- Fill `n` bytes from `a` with zero. -/
def zero (m : ByteMem) (a n : Nat) : ByteMem := fun x =>
  if a ≤ x ∧ x < a + n then 0 else m x

/-- Copy `n` bytes to `dst` from `src` of the memory `source`. -/
def copy (m : ByteMem) (dst : Nat) (source : ByteMem) (src n : Nat) : ByteMem := fun x =>
  if dst ≤ x ∧ x < dst + n then source (src + (x - dst)) else m x

theorem load32_lt (m : ByteMem) (a : Nat) : load32 m a < 4294967296 := by
  have h0 := (m a).toNat_lt
  have h1 := (m (a + 1)).toNat_lt
  have h2 := (m (a + 2)).toNat_lt
  have h3 := (m (a + 3)).toNat_lt
  unfold load32
  omega

/-- A word is determined by its four bytes. -/
theorem load32_congr {m m' : ByteMem} {a : Nat}
    (same : ∀ x, a ≤ x → x < a + 4 → m x = m' x) : load32 m a = load32 m' a := by
  unfold load32
  rw [same a (by omega) (by omega), same (a + 1) (by omega) (by omega),
    same (a + 2) (by omega) (by omega), same (a + 3) (by omega) (by omega)]

theorem load32_store32_mod (m : ByteMem) (a v : Nat) :
    load32 (store32 m a v) a = v % 4294967296 := by
  have e1 : a + 1 ≠ a := by omega
  have e2 : a + 2 ≠ a := by omega
  have e3 : a + 2 ≠ a + 1 := by omega
  have e4 : a + 3 ≠ a := by omega
  have e5 : a + 3 ≠ a + 1 := by omega
  have e6 : a + 3 ≠ a + 2 := by omega
  simp only [load32, store32, e1, e2, e3, e4, e5, e6, if_true, if_false, UInt8.toNat_ofNat']
  omega

@[simp]
theorem load32_store32 (m : ByteMem) (a v : Nat) (hv : v < 4294967296) :
    load32 (store32 m a v) a = v := by
  rw [load32_store32_mod, Nat.mod_eq_of_lt hv]

/-- A byte outside the stored word keeps its value. -/
theorem store32_off (m : ByteMem) {a x : Nat} (v : Nat) (off : x < a ∨ a + 4 ≤ x) :
    store32 m a v x = m x := by
  unfold store32
  rw [if_neg (by omega), if_neg (by omega), if_neg (by omega), if_neg (by omega)]

/-- A word apart from the stored word keeps its value. -/
theorem load32_store32_off (m : ByteMem) {a b : Nat} (v : Nat) (off : b + 4 ≤ a ∨ a + 4 ≤ b) :
    load32 (store32 m a v) b = load32 m b :=
  load32_congr fun x _ _ => store32_off m v (by omega)

/-- The second of two stores to one address is the one that counts. -/
theorem store32_store32 (m : ByteMem) (a v w : Nat) :
    store32 (store32 m a v) a w = store32 m a w := by
  funext x
  unfold store32
  split
  · rfl
  · split
    · rfl
    · split
      · rfl
      · split <;> rfl

theorem zero_off (m : ByteMem) {a n x : Nat} (off : x < a ∨ a + n ≤ x) : zero m a n x = m x := by
  unfold zero
  rw [if_neg (by omega)]

theorem zero_mem (m : ByteMem) {a n x : Nat} (lo : a ≤ x) (hi : x < a + n) : zero m a n x = 0 := by
  unfold zero
  rw [if_pos ⟨lo, hi⟩]

theorem load32_zero_mem (m : ByteMem) {a n b : Nat} (lo : a ≤ b) (hi : b + 4 ≤ a + n) :
    load32 (zero m a n) b = 0 := by
  unfold load32
  rw [zero_mem m lo (by omega), zero_mem m (by omega) (by omega),
    zero_mem m (by omega) (by omega), zero_mem m (by omega) (by omega)]
  rfl

theorem copy_off (m source : ByteMem) {dst src n x : Nat} (off : x < dst ∨ dst + n ≤ x) :
    copy m dst source src n x = m x := by
  unfold copy
  rw [if_neg (by omega)]

theorem copy_mem (m source : ByteMem) {dst src n i : Nat} (hi : i < n) :
    copy m dst source src n (dst + i) = source (src + i) := by
  unfold copy
  rw [if_pos (by omega), Nat.add_sub_cancel_left]

end ByteMem

end TrollOS.Lib
