import TrollOS.Lib.ByteMemory

/-!
# Half words and rows of words in byte memory

16-bit words, most significant byte first, and rows of words of any size.
-/

namespace TrollOS.Lib.ByteMem

/-- The half word at `a`. -/
def load16 (m : ByteMem) (a : Nat) : Nat := (m a).toNat * 256 + (m (a + 1)).toNat

/-- Store the low 16 bits of `v` at `a`. -/
def store16 (m : ByteMem) (a v : Nat) : ByteMem := fun x =>
  if x = a then UInt8.ofNat (v / 256) else if x = a + 1 then UInt8.ofNat v else m x

theorem load16_congr {m m' : ByteMem} {a : Nat} (same : ∀ x, a ≤ x → x < a + 2 → m x = m' x) :
    load16 m a = load16 m' a := by
  unfold load16
  rw [same a (by omega) (by omega), same (a + 1) (by omega) (by omega)]

theorem load16_store16 (m : ByteMem) (a v : Nat) : load16 (store16 m a v) a = v % 65536 := by
  have next : a + 1 ≠ a := by omega
  simp only [load16, store16, next, if_true, if_false, UInt8.toNat_ofNat']
  omega

theorem store16_off (m : ByteMem) {a x : Nat} (v : Nat) (off : x < a ∨ a + 2 ≤ x) :
    store16 m a v x = m x := by
  unfold store16
  rw [if_neg (by omega), if_neg (by omega)]

theorem load16_store16_off (m : ByteMem) {a b : Nat} (v : Nat) (off : b + 2 ≤ a ∨ a + 2 ≤ b) :
    load16 (store16 m a v) b = load16 m b :=
  load16_congr fun x _ _ => store16_off m v (by omega)

theorem load16_store32_off (m : ByteMem) {a b : Nat} (v : Nat) (off : b + 2 ≤ a ∨ a + 4 ≤ b) :
    load16 (store32 m a v) b = load16 m b :=
  load16_congr fun x _ _ => store32_off m v (by omega)

theorem load16_lt (m : ByteMem) (a : Nat) : load16 m a < 65536 := by
  have high := (m a).toNat_lt
  have low := (m (a + 1)).toNat_lt
  unfold load16
  omega

/-- A word is two half words. -/
theorem load32_halves (m : ByteMem) (a : Nat) : load32 m a = load16 m a * 65536 + load16 m (a + 2) := by
  unfold load32 load16
  rw [Nat.add_assoc a 2 1]
  omega

/-- A size of words, with what a store shows to a load. -/
structure WordSize where
  bytes : Nat
  bound : Nat
  load : ByteMem → Nat → Nat
  store : ByteMem → Nat → Nat → ByteMem
  load_store : ∀ m a v, v < bound → load (store m a v) a = v
  store_off : ∀ m a v x, x < a ∨ a + bytes ≤ x → store m a v x = m x
  load_congr : ∀ m m' a, (∀ x, a ≤ x → x < a + bytes → m x = m' x) → load m a = load m' a

theorem load16_store16_small (m : ByteMem) (a v : Nat) (small : v < 65536) :
    load16 (store16 m a v) a = v := by
  rw [load16_store16, Nat.mod_eq_of_lt small]

def half : WordSize where
  bytes := 2
  bound := 65536
  load := load16
  store := store16
  load_store := load16_store16_small
  store_off m _ v _ off := store16_off m v off
  load_congr _ _ _ same := load16_congr same

def long : WordSize where
  bytes := 4
  bound := 4294967296
  load := load32
  store := store32
  load_store := load32_store32
  store_off m _ v _ off := store32_off m v off
  load_congr _ _ _ same := load32_congr same

namespace WordSize

variable (size : WordSize)

/-- The `n` words from `a` on. -/
def loadRow (m : ByteMem) (a : Nat) : Nat → List Nat
  | 0 => []
  | n + 1 => size.load m a :: loadRow m (a + size.bytes) n

/-- Store words one behind the other. -/
def storeRow (m : ByteMem) (a : Nat) : List Nat → ByteMem
  | [] => m
  | w :: ws => storeRow (size.store m a w) (a + size.bytes) ws

variable {size}

theorem loadRow_congr {m m' : ByteMem} {a n : Nat}
    (same : ∀ x, a ≤ x → x < a + size.bytes * n → m x = m' x) : size.loadRow m a n = size.loadRow m' a n := by
  induction n generalizing a with
  | zero => rfl
  | succ n ih =>
      rw [Nat.mul_succ] at same
      have first : size.load m a = size.load m' a :=
        size.load_congr _ _ _ fun x above below => same x above (by omega)
      have later : size.loadRow m (a + size.bytes) n = size.loadRow m' (a + size.bytes) n :=
        ih fun x above below => same x (by omega) (by omega)
      rw [loadRow, loadRow, first, later]

theorem loadRow_length (m : ByteMem) (a n : Nat) : (size.loadRow m a n).length = n := by
  induction n generalizing a with
  | zero => rfl
  | succ n ih => rw [loadRow, List.length_cons, ih]

theorem loadRow_get (m : ByteMem) (a : Nat) {i n : Nat} (within : i < n) :
    (size.loadRow m a n)[i]? = some (size.load m (a + size.bytes * i)) := by
  induction n generalizing a i with
  | zero => exact absurd within (Nat.not_lt_zero i)
  | succ n ih =>
      cases i with
      | zero => rfl
      | succ i =>
          rw [loadRow, List.getElem?_cons_succ, ih (a + size.bytes) (Nat.lt_of_succ_lt_succ within),
            Nat.mul_succ, Nat.add_assoc, Nat.add_comm size.bytes]

theorem storeRow_off {m : ByteMem} {a x : Nat} {ws : List Nat}
    (off : x < a ∨ a + size.bytes * ws.length ≤ x) : size.storeRow m a ws x = m x := by
  induction ws generalizing m a with
  | nil => rfl
  | cons w ws ih =>
      rw [List.length_cons, Nat.mul_succ] at off
      rw [storeRow, ih (by omega), size.store_off m a w x (by omega)]

/-- Words that have been stored are found again. -/
theorem loadRow_storeRow (m : ByteMem) (a : Nat) {ws : List Nat} (small : ∀ w ∈ ws, w < size.bound) :
    size.loadRow (size.storeRow m a ws) a ws.length = ws := by
  induction ws generalizing m a with
  | nil => rfl
  | cons w ws ih =>
      have first : size.load (size.storeRow (size.store m a w) (a + size.bytes) ws) a = w := by
        rw [size.load_congr _ _ _ fun x _ _ => storeRow_off (by omega)]
        exact size.load_store m a w (small w List.mem_cons_self)
      have later := ih (size.store m a w) (a + size.bytes) fun x member =>
        small x (List.mem_cons_of_mem w member)
      rw [List.length_cons, loadRow, storeRow, first, later]

end WordSize

end TrollOS.Lib.ByteMem
