import Mathlib.Data.List.Flatten
import Mathlib.Data.List.Perm.Basic
import TrollOS.Lib.ByteMemory

/-!
# Aligned blocks of memory

Memory is divided into blocks of one size at multiples of that size.  What a
program does is described by the blocks outside of which it changes nothing.
-/

namespace TrollOS.Lib

def InBlock (size b x : Nat) : Prop := b ≤ x ∧ x < b + size

/-- Nothing outside these blocks has changed. -/
def Unchanged (size : Nat) (m m' : ByteMem) (blocks : List Nat) : Prop :=
  ∀ x, (∀ b ∈ blocks, ¬ InBlock size b x) → m' x = m x

variable {size : Nat} {m m' m'' : ByteMem} {blocks more : List Nat}

/-- An address is in one aligned block only. -/
theorem InBlock.unique {b c x : Nat} (hb : b % size = 0) (hc : c % size = 0)
    (inB : InBlock size b x) (inC : InBlock size c x) : b = c := by
  obtain ⟨lowB, highB⟩ := inB
  obtain ⟨lowC, highC⟩ := inC
  obtain ⟨i, rfl⟩ := Nat.dvd_of_mod_eq_zero hb
  obtain ⟨j, rfl⟩ := Nat.dvd_of_mod_eq_zero hc
  have left : i < j + 1 := by
    apply Nat.lt_of_mul_lt_mul_left (a := size)
    rw [Nat.mul_add, Nat.mul_one]
    omega
  have right : j < i + 1 := by
    apply Nat.lt_of_mul_lt_mul_left (a := size)
    rw [Nat.mul_add, Nat.mul_one]
    omega
  rw [Nat.le_antisymm (Nat.le_of_lt_succ left) (Nat.le_of_lt_succ right)]

namespace Unchanged

theorem refl (m : ByteMem) (blocks : List Nat) : Unchanged size m m blocks := fun _ _ => rfl

theorem mono (unchanged : Unchanged size m m' blocks) (within : blocks ⊆ more) :
    Unchanged size m m' more :=
  fun x outside => unchanged x fun b member => outside b (within member)

theorem of_mem {b : Nat} (unchanged : Unchanged size m m' [b]) (member : b ∈ blocks) :
    Unchanged size m m' blocks :=
  unchanged.mono fun _ inList => List.mem_singleton.mp inList ▸ member

/-- One step after the other. -/
theorem trans (first : Unchanged size m m' blocks) (second : Unchanged size m' m'' blocks) :
    Unchanged size m m'' blocks :=
  fun x outside => (second x outside).trans (first x outside)

/-- A byte of another block. -/
theorem byte (unchanged : Unchanged size m m' blocks) (aligned : ∀ b ∈ blocks, b % size = 0)
    {c x : Nat} (hc : c % size = 0) (apart : c ∉ blocks) (inside : InBlock size c x) :
    m' x = m x := by
  refine unchanged x fun b member inB => apart ?_
  rw [← inB.unique (aligned b member) hc inside]
  exact member

/-- A word of another block. -/
theorem load32 (unchanged : Unchanged size m m' blocks) (aligned : ∀ b ∈ blocks, b % size = 0)
    {c a : Nat} (hc : c % size = 0) (apart : c ∉ blocks) (low : c ≤ a) (high : a + 4 ≤ c + size) :
    m'.load32 a = m.load32 a :=
  ByteMem.load32_congr fun x lowX highX =>
    unchanged.byte aligned hc apart ⟨Nat.le_trans low lowX, by omega⟩

theorem store32 (m : ByteMem) {b a : Nat} (v : Nat) (low : b ≤ a) (high : a + 4 ≤ b + size) :
    Unchanged size m (m.store32 a v) [b] := by
  intro x outside
  refine ByteMem.store32_off m v ?_
  by_contra inside
  exact outside b List.mem_cons_self ⟨by omega, by omega⟩

theorem zero (m : ByteMem) (b : Nat) : Unchanged size m (m.zero b size) [b] := by
  intro x outside
  have off := outside b List.mem_cons_self
  unfold ByteMem.zero
  exact if_neg off

theorem copy (m source : ByteMem) (b src : Nat) : Unchanged size m (m.copy b source src size) [b] := by
  intro x outside
  have off := outside b List.mem_cons_self
  unfold ByteMem.copy
  exact if_neg off

end Unchanged

/-- Two lists of a family without repetition have no common member. -/
theorem flatMap_apart {l : List Nat} {f : Nat → List Nat} (distinct : (l.flatMap f).Nodup)
    {i j x : Nat} (left : i ∈ l) (right : j ∈ l) (other : j ≠ i) (member : x ∈ f i) : x ∉ f j := by
  induction l with
  | nil => cases left
  | cons k rest ih =>
      rw [List.flatMap_cons] at distinct
      obtain ⟨-, tail, apart⟩ := List.nodup_append.mp distinct
      have inTail {n : Nat} (later : n ∈ rest) (here : x ∈ f n) : x ∈ rest.flatMap f :=
        List.mem_flatMap.mpr ⟨n, later, here⟩
      intro again
      rcases List.mem_cons.mp left with same | later
      · rcases List.mem_cons.mp right with same' | later'
        · exact other (same'.trans same.symm)
        · exact apart x (same ▸ member) x (inTail later' again) rfl
      · rcases List.mem_cons.mp right with same' | later'
        · exact apart x (same' ▸ again) x (inTail later member) rfl
        · exact ih tail later later' again

/-- A family of lists in which one list grows. -/
theorem flatMap_grow {l : List Nat} (distinct : l.Nodup) {i : Nat} (member : i ∈ l)
    {f g : Nat → List Nat} {extra : List Nat} (here : (g i).Perm (extra ++ f i))
    (others : ∀ j ∈ l, j ≠ i → g j = f j) : (l.flatMap g).Perm (extra ++ l.flatMap f) := by
  induction l with
  | nil => cases member
  | cons j rest ih =>
      obtain ⟨fresh, distinct⟩ := List.nodup_cons.mp distinct
      rw [List.flatMap_cons, List.flatMap_cons]
      rcases List.mem_cons.mp member with same | later
      · subst same
        have tail : rest.flatMap g = rest.flatMap f :=
          List.flatMap_congr fun k inRest => others k (List.mem_cons_of_mem _ inRest)
            fun same => fresh (same ▸ inRest)
        rw [tail, ← List.append_assoc]
        exact here.append_right _
      · have first : g j = f j := others j List.mem_cons_self fun same => fresh (same ▸ later)
        rw [first]
        have grown := ih distinct later fun k inRest => others k (List.mem_cons_of_mem _ inRest)
        have swapped : (f j ++ extra).Perm (extra ++ f j) := List.perm_append_comm
        refine (grown.append_left (f j)).trans ?_
        rw [← List.append_assoc, ← List.append_assoc]
        exact swapped.append_right _

end TrollOS.Lib
