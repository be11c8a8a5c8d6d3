import Mathlib.Data.List.Nodup
import TrollOS.Elf.Model

/-!
# The rounds of `alloc`

The page loop of the loader by its arithmetic alone: the pages it puts into the space, and the
copies it hands to `mmu040_fill_frame`.
-/

namespace TrollOS.Elf

open TrollOS.Lib Mmu

/-- A copy of `length` bytes from `source`, `offset` bytes into the frame, when `remaining` is the
running `size`. -/
structure Copy where
  offset : Nat
  source : Nat
  length : Nat
  remaining : Nat

/-- One round: a page, and what is copied into its frame. -/
structure Round where
  page : Nat
  copy : Option Copy

/-- The loop of `alloc` with `left` pages to go. -/
def rounds (base : Nat) : Nat → Nat → Nat → Nat → Nat → List Round
  | 0, _, _, _, _ => []
  | left + 1, i, data, size, offset =>
      if data ≠ 0 then
        ⟨u32 (base + i * pageSize), some ⟨offset, data, size % pageSize, size⟩⟩ ::
          rounds base left (i + 1) (u32 (data / pageSize * pageSize + pageSize))
            (u32 (size + 4294967296 - (pageSize - offset))) 0
      else ⟨u32 (base + i * pageSize), none⟩ :: rounds base left (i + 1) data size offset

def allocRounds (virt data size : Nat) : List Round :=
  rounds (virt / pageSize * pageSize) (u32 (size + (pageSize - 1)) / pageSize) 0 data size (virt % pageSize)

/-- What `alloc` does in one round. -/
def Round.perform (memory : ByteMem) (writeProtect : Bool) (r : Round) : Action Unit := do
  let frame ← allocAt r.page false writeProtect
  match r.copy with
  | some c => fillFrame frame c.offset (fun k => memory (u32 (c.source + k))) c.length
  | none => pure ()

def copiesOf (rs : List Round) : List Copy := rs.filterMap Round.copy

section Rounds

variable {memory : ByteMem} {writeProtect : Bool} {base left i data size offset : Nat}

theorem rounds_data (some' : data ≠ 0) : rounds base (left + 1) i data size offset =
    ⟨u32 (base + i * pageSize), some ⟨offset, data, size % pageSize, size⟩⟩ ::
      rounds base left (i + 1) (u32 (data / pageSize * pageSize + pageSize))
        (u32 (size + 4294967296 - (pageSize - offset))) 0 := if_pos some'

theorem rounds_null : rounds base (left + 1) i 0 size offset =
    ⟨u32 (base + i * pageSize), none⟩ :: rounds base left (i + 1) 0 size offset :=
  if_neg fun some' => some' rfl

/-- The loop of `alloc` does what its rounds say. -/
theorem allocPages_rounds (memory : ByteMem) (writeProtect : Bool) (base left i data size offset : Nat) :
    allocPages memory writeProtect base left i data size offset =
      (rounds base left i data size offset).forM (Round.perform memory writeProtect) := by
  induction left generalizing i data size offset with
  | zero => rfl
  | succ left ih =>
      unfold allocPages
      by_cases null : data = 0
      · subst null
        rw [rounds_null]
        simp only [ne_eq, not_true_eq_false, if_false, ih, List.forM_eq_forM, List.forM_cons,
          Round.perform, bind_assoc, pure_bind]
      · rw [rounds_data null]
        simp only [ne_eq, null, not_false_eq_true, if_true, ih, List.forM_eq_forM, List.forM_cons,
          Round.perform, bind_assoc]

theorem alloc_rounds (memory : ByteMem) (virt data size : Nat) (writeProtect : Bool) :
    alloc memory virt writeProtect data size =
      (allocRounds virt data size).forM (Round.perform memory writeProtect) :=
  allocPages_rounds ..

/-- The pages do not depend on what is copied. -/
theorem rounds_pages (base left i data size offset : Nat) :
    (rounds base left i data size offset).map Round.page =
      (List.range' i left).map fun j => u32 (base + j * pageSize) := by
  induction left generalizing i data size offset with
  | zero => rfl
  | succ left ih =>
      by_cases null : data = 0
      · subst null
        rw [rounds_null, List.range'_succ, List.map_cons, List.map_cons, ih]
      · rw [rounds_data null, List.range'_succ, List.map_cons, List.map_cons, ih]

/-- Without data nothing is copied. -/
theorem copies_null (base left i size offset : Nat) : copiesOf (rounds base left i 0 size offset) = [] := by
  induction left generalizing i with
  | zero => rfl
  | succ left ih =>
      rw [rounds_null]
      exact ih (i + 1)

theorem copies_data (some' : data ≠ 0) : copiesOf (rounds base (left + 1) i data size offset) =
    ⟨offset, data, size % pageSize, size⟩ ::
      copiesOf (rounds base left (i + 1) (u32 (data / pageSize * pageSize + pageSize))
        (u32 (size + 4294967296 - (pageSize - offset))) 0) := by
  rw [rounds_data some']
  rfl

end Rounds

/-- The running `size` is at least what a round takes from it. -/
def Enough (c : Copy) : Prop := pageSize - c.offset ≤ c.remaining

section Later

variable {base left i first size : Nat}

/-- A source pointer at the start of a page wraps to null after the last page. -/
theorem source_page (small : first < 1048576) : u32 (first * pageSize) = first * pageSize :=
  u32_eq (by
    unfold pageSize
    omega)

theorem source_end : u32 (1048576 * pageSize) = 0 := rfl

/-- The running `size` after a whole page. -/
theorem remaining_page (one : pageSize ≤ size) (fits : size < 4294967296) :
    u32 (size + 4294967296 - (pageSize - 0)) = size - pageSize := by
  unfold u32 pageSize at *
  omega

/-- The rounds after the first, whose sources start at pages: the running `size` does not wrap as
long as it has a page for each round before the source does. -/
theorem later_enough (positive : 0 < first) (small : first ≤ 1048576) (fits : size < 4294967296) :
    (∀ c ∈ copiesOf (rounds base left i (u32 (first * pageSize)) size 0), Enough c) ↔
      pageSize * min left (1048576 - first) ≤ size := by
  induction left generalizing i first size with
  | zero =>
      rw [Nat.zero_min, Nat.mul_zero]
      exact ⟨fun _ => Nat.zero_le _, fun _ c member => nomatch member⟩
  | succ left ih =>
      rcases Nat.lt_or_eq_of_le small with inside | rfl
      · have here := source_page inside
        have some' : first * pageSize ≠ 0 := Nat.mul_ne_zero (Nat.ne_of_gt positive) (by decide)
        have next : first * pageSize / pageSize * pageSize + pageSize = (first + 1) * pageSize := by
          rw [Nat.mul_div_cancel _ (by decide : 0 < pageSize), Nat.succ_mul]
        rw [here, copies_data some', List.forall_mem_cons, next]
        show pageSize ≤ size ∧ _ ↔ _
        constructor
        · rintro ⟨one, rest⟩
          rw [remaining_page one fits] at rest
          have more := (ih (Nat.succ_pos _) inside (by omega)).mp rest
          unfold pageSize at *
          omega
        · intro all
          have one : pageSize ≤ size := by
            unfold pageSize at *
            omega
          rw [remaining_page one fits]
          refine ⟨one, (ih (Nat.succ_pos _) inside (by omega)).mpr ?_⟩
          unfold pageSize at *
          omega
      · rw [source_end, copies_null]
        rw [Nat.sub_self, Nat.min_zero, Nat.mul_zero]
        exact ⟨fun _ => Nat.zero_le _, fun _ c member => nomatch member⟩

/-- What these rounds copy when the running `size` does not wrap. -/
theorem later_copies (positive : 0 < first) (small : first ≤ 1048576) (fits : size < 4294967296)
    (enough : pageSize * min left (1048576 - first) ≤ size) {c : Copy}
    (member : c ∈ copiesOf (rounds base left i (u32 (first * pageSize)) size 0)) :
    ∃ j, first + j < 1048576 ∧ (j + 1) * pageSize ≤ size ∧
      c = ⟨0, (first + j) * pageSize, (size - j * pageSize) % pageSize, size - j * pageSize⟩ := by
  induction left generalizing i first size with
  | zero => exact nomatch member
  | succ left ih =>
      rcases Nat.lt_or_eq_of_le small with inside | rfl
      · have here := source_page inside
        have some' : first * pageSize ≠ 0 := Nat.mul_ne_zero (Nat.ne_of_gt positive) (by decide)
        have next : first * pageSize / pageSize * pageSize + pageSize = (first + 1) * pageSize := by
          rw [Nat.mul_div_cancel _ (by decide : 0 < pageSize), Nat.succ_mul]
        have one : pageSize ≤ size := by
          unfold pageSize at *
          omega
        rw [here, copies_data some', next] at member
        rcases List.mem_cons.mp member with rfl | later
        · refine ⟨0, inside, by omega, ?_⟩
          rw [Nat.zero_mul, Nat.sub_zero, Nat.add_zero]
        · rw [remaining_page one fits] at later
          obtain ⟨j, below, room, rfl⟩ := ih (Nat.succ_pos _) inside (by omega) (by
            unfold pageSize at *
            omega) later
          have more : (j + 1 + 1) * pageSize = (j + 1) * pageSize + pageSize := Nat.succ_mul ..
          refine ⟨j + 1, by omega, by omega, ?_⟩
          rw [Nat.sub_sub, Nat.add_comm pageSize, ← Nat.succ_mul, Nat.add_right_comm first 1 j,
            Nat.add_assoc first j 1]
      · rw [source_end, copies_null] at member
        exact nomatch member

end Later

/-! ## One call of `alloc` -/

/-- The page at this address holds a byte of the range. -/
def Overlaps (virt size page : Nat) : Prop :=
  ∃ a, virt ≤ a ∧ a < virt + size ∧ a / pageSize * pageSize = page

/-- `alloc` works at the pages of the range, once at each, copies inside the page and from the
source only, and its running `size` does not wrap. -/
structure StaysInside (virt data size : Nat) : Prop where
  pages : ∀ page, page ∈ (allocRounds virt data size).map Round.page ↔ Overlaps virt size page
  once : ((allocRounds virt data size).map Round.page).Nodup
  frame : ∀ c ∈ copiesOf (allocRounds virt data size), c.offset + c.length ≤ pageSize
  source : ∀ c ∈ copiesOf (allocRounds virt data size), ∀ k, k < c.length →
    u32 (u32 (c.source + k) + 4294967296 - data) < size
  enough : ∀ c ∈ copiesOf (allocRounds virt data size), Enough c

def pagesFilled (size : Nat) : Nat := (size + (pageSize - 1)) / pageSize

/-- The range touches no more pages than its size fills; and it ends with a page, or there is
nothing to copy, or the source pointer wraps to null before the last page. -/
def Fits (virt data size : Nat) : Prop :=
  size + (pageSize - 1) < 4294967296 ∧ virt % pageSize + size ≤ pagesFilled size * pageSize ∧
    (data = 0 ∨ (virt + size) % pageSize = 0 ∨ 1048576 < data / pageSize + pagesFilled size)

instance (virt data size : Nat) : Decidable (Fits virt data size) :=
  inferInstanceAs (Decidable (_ ∧ _ ∧ _))

section Alloc

variable {virt data size : Nat}

/-- The pages `alloc` works at, when its count does not wrap. -/
theorem alloc_pages (data : Nat) (range : virt + size ≤ 4294967296)
    (fits : size + (pageSize - 1) < 4294967296) :
    (allocRounds virt data size).map Round.page =
      (List.range' (virt / pageSize) (pagesFilled size)).map (· * pageSize) := by
  unfold allocRounds
  rw [rounds_pages, u32_eq fits]
  show (List.range' 0 (pagesFilled size)).map _ = _
  rw [List.range'_eq_map_range, List.range'_eq_map_range, List.map_map, List.map_map]
  refine List.map_congr_left fun j member => ?_
  have below := List.mem_range.mp member
  show u32 (virt / pageSize * pageSize + (0 + j) * pageSize) = (virt / pageSize + j) * pageSize
  rw [Nat.zero_add, ← Nat.add_mul]
  refine u32_eq ?_
  unfold pagesFilled pageSize at *
  omega

theorem pages_iff (range : virt + size ≤ 4294967296) (some' : 0 < size) (word : size < 4294967296) :
    (∀ page, page ∈ (allocRounds virt data size).map Round.page ↔ Overlaps virt size page) ↔
      size + (pageSize - 1) < 4294967296 ∧ virt % pageSize + size ≤ pagesFilled size * pageSize := by
  by_cases fits : size + (pageSize - 1) < 4294967296
  · rw [alloc_pages data range fits]
    constructor
    · intro exact'
      refine ⟨fits, ?_⟩
      obtain ⟨n, inRange, same⟩ := List.mem_map.mp ((exact' ((virt + size - 1) / pageSize * pageSize)).mpr
        ⟨virt + size - 1, by omega, by omega, rfl⟩)
      obtain ⟨low, high⟩ := List.mem_range'_1.mp inRange
      unfold pagesFilled pageSize at *
      omega
    · rintro ⟨-, room⟩ page
      constructor
      · intro member
        obtain ⟨n, inRange, rfl⟩ := List.mem_map.mp member
        obtain ⟨low, high⟩ := List.mem_range'_1.mp inRange
        by_cases first : n = virt / pageSize
        · exact ⟨virt, Nat.le_refl _, Nat.lt_add_of_pos_right some', by rw [first]⟩
        · refine ⟨n * pageSize, ?_, ?_, by rw [Nat.mul_div_cancel _ (by decide : 0 < pageSize)]⟩
          · unfold pageSize at *
            omega
          · unfold pagesFilled pageSize at *
            omega
      · rintro ⟨a, low, high, rfl⟩
        refine List.mem_map.mpr ⟨a / pageSize, List.mem_range'_1.mpr ⟨Nat.div_le_div_right low, ?_⟩, rfl⟩
        unfold pagesFilled pageSize at *
        omega
  · refine ⟨fun exact' => ?_, fun both => absurd both.1 fits⟩
    have none : u32 (size + (pageSize - 1)) / pageSize = 0 := by
      unfold u32 pageSize at *
      omega
    have member := (exact' (virt / pageSize * pageSize)).mpr
      ⟨virt, Nat.le_refl _, Nat.lt_add_of_pos_right some', rfl⟩
    unfold allocRounds at member
    rw [none] at member
    exact nomatch member

/-- The copies of `alloc`: the first goes into the page of the start. -/
theorem alloc_copies (some' : data ≠ 0) (fits : size + (pageSize - 1) < 4294967296) {n : Nat}
    (count : pagesFilled size = n + 1) :
    copiesOf (allocRounds virt data size) = ⟨virt % pageSize, data, size % pageSize, size⟩ ::
      copiesOf (rounds (virt / pageSize * pageSize) n 1 (u32 ((data / pageSize + 1) * pageSize))
        (u32 (size + 4294967296 - (pageSize - virt % pageSize))) 0) := by
  have rounds' : u32 (size + (pageSize - 1)) / pageSize = n + 1 := (congrArg (· / pageSize) (u32_eq fits)).trans count
  unfold allocRounds
  rw [rounds', copies_data some', Nat.succ_mul]

/-- The running `size` after the first page. -/
theorem remaining_first (range : virt % pageSize + size ≥ pageSize) (fits : size < 4294967296) :
    u32 (size + 4294967296 - (pageSize - virt % pageSize)) = virt % pageSize + size - pageSize := by
  unfold u32 pageSize at *
  omega

theorem remaining_small (word : size < 4294967296) : virt % pageSize + size - pageSize < 4294967296 := by
  have inPage := Nat.mod_lt virt (by decide : 0 < pageSize)
  omega

theorem enough_iff (some' : 0 < size) (small : data < 4294967296)
    (fits : size + (pageSize - 1) < 4294967296)
    (room : virt % pageSize + size ≤ pagesFilled size * pageSize) :
    (∀ c ∈ copiesOf (allocRounds virt data size), Enough c) ↔
      data = 0 ∨ (virt + size) % pageSize = 0 ∨ 1048576 < data / pageSize + pagesFilled size := by
  by_cases null : data = 0
  · subst null
    unfold allocRounds
    rw [copies_null]
    exact ⟨fun _ => Or.inl rfl, fun _ c member => nomatch member⟩
  · obtain ⟨n, count⟩ : ∃ n, pagesFilled size = n + 1 := by
      refine Nat.exists_eq_add_one_of_ne_zero ?_
      unfold pagesFilled pageSize
      omega
    have word : size < 4294967296 := by omega
    have inside : data / pageSize < 1048576 := by
      unfold pageSize
      omega
    rw [alloc_copies null fits count, List.forall_mem_cons, count]
    rw [count] at room
    constructor
    · rintro ⟨one, rest⟩
      have one' : virt % pageSize + size ≥ pageSize := by
        unfold Enough at one
        dsimp only at one
        omega
      rw [remaining_first one' word] at rest
      have all := (later_enough (Nat.succ_pos _) inside (remaining_small word)).mp rest
      unfold pagesFilled pageSize at *
      omega
    · intro either
      have one' : virt % pageSize + size ≥ pageSize := by
        unfold pagesFilled pageSize at *
        omega
      rw [remaining_first one' word]
      refine ⟨?_, (later_enough (Nat.succ_pos _) inside (remaining_small word)).mpr ?_⟩
      · unfold Enough
        dsimp only
        omega
      · unfold pagesFilled pageSize at *
        omega

/-- What `alloc` copies when its running `size` does not wrap. -/
theorem copies_inside (small : data < 4294967296) (fits : size + (pageSize - 1) < 4294967296)
    (some' : 0 < size) (room : virt % pageSize + size ≤ pagesFilled size * pageSize)
    (enough : ∀ c ∈ copiesOf (allocRounds virt data size), Enough c) {c : Copy}
    (member : c ∈ copiesOf (allocRounds virt data size)) :
    c.offset + c.length ≤ pageSize ∧
      ∀ k, k < c.length → u32 (u32 (c.source + k) + 4294967296 - data) < size := by
  by_cases null : data = 0
  · subst null
    unfold allocRounds at member
    rw [copies_null] at member
    exact nomatch member
  · obtain ⟨n, count⟩ : ∃ n, pagesFilled size = n + 1 := by
      refine Nat.exists_eq_add_one_of_ne_zero ?_
      unfold pagesFilled pageSize
      omega
    have word : size < 4294967296 := by omega
    have inside : data / pageSize < 1048576 := by
      unfold pageSize
      omega
    rw [alloc_copies null fits count] at enough member
    obtain ⟨one, rest⟩ := List.forall_mem_cons.mp enough
    have one' : virt % pageSize + size ≥ pageSize := by
      unfold Enough at one
      dsimp only at one
      omega
    rw [remaining_first one' word] at rest member
    have all := (later_enough (Nat.succ_pos _) inside (remaining_small word)).mp rest
    rcases List.mem_cons.mp member with rfl | later
    · refine ⟨?_, fun k below => ?_⟩
      · dsimp only
        unfold pagesFilled pageSize at *
        omega
      · dsimp only at below ⊢
        unfold u32 pageSize at *
        omega
    · obtain ⟨j, last, enough', rfl⟩ := later_copies (Nat.succ_pos _) inside (remaining_small word) all later
      refine ⟨?_, fun k below => ?_⟩
      · exact Nat.le_trans (Nat.le_of_eq (Nat.zero_add _)) (Nat.le_of_lt (Nat.mod_lt _ (by decide)))
      · dsimp only at below ⊢
        unfold u32 pageSize at *
        omega

/-- When `alloc` stays inside its pages, its source and its count. -/
theorem staysInside_iff (some' : 0 < size) (word : size < 4294967296) (range : virt + size ≤ 4294967296)
    (small : data < 4294967296) : StaysInside virt data size ↔ Fits virt data size := by
  constructor
  · intro stays
    obtain ⟨fits, room⟩ := (pages_iff range some' word).mp stays.pages
    exact ⟨fits, room, (enough_iff some' small fits room).mp stays.enough⟩
  · rintro ⟨fits, room, ends⟩
    have enough := (enough_iff some' small fits room).mpr ends
    refine ⟨(pages_iff range some' word).mpr ⟨fits, room⟩, ?_,
      fun c member => (copies_inside small fits some' room enough member).1,
      fun c member => (copies_inside small fits some' room enough member).2, enough⟩
    rw [alloc_pages data range fits]
    exact List.Nodup.map (fun a b same => Nat.eq_of_mul_eq_mul_right (by decide) same) List.nodup_range'

/-- `alloc` does what its rounds say, and they stay inside their pages, the source and the count
exactly when the range and the source fit. -/
theorem alloc_inside_iff (some' : 0 < size) (word : size < 4294967296)
    (range : virt + size ≤ 4294967296) (small : data < 4294967296) :
    (∀ memory writeProtect, alloc memory virt writeProtect data size =
      (allocRounds virt data size).forM (Round.perform memory writeProtect)) ∧
      (StaysInside virt data size ↔ Fits virt data size) :=
  ⟨fun memory writeProtect => alloc_rounds memory virt data size writeProtect,
    staysInside_iff some' word range small⟩

/-- A section that ends with its page. -/
theorem alloc_inside_iff_last : Fits 0x1100 0x5000 0xf00 ∧ StaysInside 0x1100 0x5000 0xf00 :=
  ⟨by decide, (alloc_inside_iff (by decide) (by decide) (by decide) (by decide)).2.mpr (by decide)⟩

/-- 512 bytes for an address 256 bytes before the end of a page. -/
theorem copy_overruns : ¬ ∀ virt data size, 0 < size → size < 4294967296 → virt + size ≤ 4294967296 →
    data < 4294967296 → StaysInside virt data size := by
  intro inside
  have stays := inside 0x1f00 0x5000 0x200 (by decide) (by decide) (by decide) (by decide)
  have copies : copiesOf (allocRounds 0x1f00 0x5000 0x200) = [⟨0xf00, 0x5000, 0x200, 0x200⟩] := rfl
  have within := stays.frame ⟨0xf00, 0x5000, 0x200, 0x200⟩ (copies ▸ List.mem_cons_self)
  exact absurd within (by decide)

end Alloc

end TrollOS.Elf
