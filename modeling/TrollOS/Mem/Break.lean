import TrollOS.Mem.Growth

/-!
# The heap break

`ksbrk` for any increments, not only for whole pages: each call rounds the old and the new end of
the heap and maps the pages in between.
-/

namespace TrollOS.Mem

open TrollOS.Lib

/-- The first page boundary from `n` on, which may be the end of the address space. -/
def roundUp (n : Nat) : Nat := (n + 4095) / 4096 * 4096

/-- The pages that start in `[roundUp lo, roundUp hi)`, in order. -/
def pagesBetween (lo hi : Nat) : List Nat := List.range' (roundUp lo) ((roundUp hi - roundUp lo) / 4096) 4096

section Pages

variable {lo mid hi : Nat}

theorem roundUp_mono (le : lo ≤ hi) : roundUp lo ≤ roundUp hi := by
  unfold roundUp
  omega

theorem pagesBetween_self (n : Nat) : pagesBetween n n = [] := by
  unfold pagesBetween
  rw [Nat.sub_self]
  rfl

/-- Consecutive stretches of the heap have consecutive pages. -/
theorem pagesBetween_append (first : lo ≤ mid) (second : mid ≤ hi) :
    pagesBetween lo mid ++ pagesBetween mid hi = pagesBetween lo hi := by
  have start : roundUp lo + 4096 * ((roundUp mid - roundUp lo) / 4096) = roundUp mid := by
    unfold roundUp
    omega
  have count : (roundUp mid - roundUp lo) / 4096 + (roundUp hi - roundUp mid) / 4096 =
      (roundUp hi - roundUp lo) / 4096 := by
    unfold roundUp
    omega
  unfold pagesBetween
  rw [← count, ← List.range'_append, start]

theorem mem_pagesBetween {page : Nat} :
    page ∈ pagesBetween lo hi ↔ page % 4096 = 0 ∧ roundUp lo ≤ page ∧ page < roundUp hi := by
  unfold pagesBetween
  rw [List.mem_range']
  constructor
  · rintro ⟨i, below, rfl⟩
    unfold roundUp at below ⊢
    omega
  · rintro ⟨whole, least, most⟩
    refine ⟨(page - roundUp lo) / 4096, ?_, ?_⟩
    · unfold roundUp at least most ⊢
      omega
    · unfold roundUp at least most ⊢
      omega

theorem pagesBetween_ascending (lo hi : Nat) : (pagesBetween lo hi).Pairwise (· < ·) :=
  List.pairwise_lt_range' 4096

/-- A byte of the stretch is in one of its pages, or in the page that the stretch starts in. -/
theorem page_covered {b : Nat} (least : lo ≤ b) (most : b < hi) :
    b / 4096 = lo / 4096 ∨ b / 4096 * 4096 ∈ pagesBetween lo hi := by
  by_cases first : b / 4096 = lo / 4096
  · exact Or.inl first
  · refine Or.inr (mem_pagesBetween.2 ⟨Nat.mul_mod_left _ _, ?_, ?_⟩)
    · unfold roundUp
      omega
    · unfold roundUp
      omega

end Pages

namespace Heap

variable {μ M : Type} [HeapMemory μ] (mmuAllocAt : M → Nat → Nat × M)

def pages (h : Heap μ M) : List Nat := h.mapped.map Prod.fst

def ksbrks (h : Heap μ M) : List Nat → Heap μ M
  | [] => h
  | n :: later => ksbrks (ksbrk mmuAllocAt h n).2 later

theorem mapPages_pages (n page : Nat) (h : Heap μ M) (inside : n = 0 ∨ page + n * 4096 ≤ 4294967296) :
    (mapPages mmuAllocAt h page n).pages = h.pages ++ List.range' page n 4096 := by
  induction n generalizing page h with
  | zero => exact (List.append_nil _).symm
  | succ n ih =>
      have bound : page + (n + 1) * 4096 ≤ 4294967296 := inside.resolve_left (Nat.succ_ne_zero n)
      have here : (mapPage mmuAllocAt h page).pages = h.pages ++ [page] := List.map_append
      cases n with
      | zero => exact here
      | succ n =>
          have next : u32 (page + mmuPageSize) = page + 4096 := u32_eq (by unfold mmuPageSize; omega)
          have rest := ih (page + 4096) (mapPage mmuAllocAt h page) (Or.inr (by omega))
          rw [here, List.append_assoc] at rest
          rw [List.range'_succ]
          unfold mapPages
          rw [next]
          exact rest

/-- The rounded end as it is computed: beyond the last page it wraps to zero. -/
theorem alignPage_cases {n : Nat} (small : n < 4294967296) :
    alignPage n = roundUp n ∨ (alignPage n = 0 ∧ roundUp n = 4294967296) := by
  unfold alignPage mmuPageSize roundUp u32
  omega

theorem pages_counted {e n : Nat} (small : n < 2147483648) (room : e + n < 4294967296) :
    u32 (alignPage (e + n) + 4294967296 - alignPage e) = roundUp (e + n) - roundUp e := by
  have most : roundUp (e + n) ≤ roundUp e + 2147483648 := by
    unfold roundUp
    omega
  have mono : roundUp e ≤ roundUp (e + n) := roundUp_mono (Nat.le_add_right e n)
  have last : roundUp (e + n) ≤ 4294967296 := by
    unfold roundUp
    omega
  unfold u32
  rcases alignPage_cases room with same | ⟨zero, top⟩
  · rcases @alignPage_cases e (by omega) with same' | ⟨zero', top'⟩
    · rw [same, same']
      omega
    · rw [same, zero']
      omega
  · rcases @alignPage_cases e (by omega) with same' | ⟨zero', top'⟩
    · rw [zero, same']
      omega
    · rw [zero, zero']
      omega

/-- What `ksbrk` computes: the rounded ends wrap together, so their distance is right even at the
end of the address space. -/
theorem ksbrk_grows {n : Nat} (h : Heap μ M) (small : n < 2147483648) (room : h.heapEnd + n < 4294967296) :
    ∃ count, ksbrk mmuAllocAt h n = (h.heapEnd,
        { mapPages mmuAllocAt h (alignPage h.heapEnd) count with heapEnd := h.heapEnd + n }) ∧
      count = (roundUp (h.heapEnd + n) - roundUp h.heapEnd) / 4096 := by
  have moved : (((h.heapEnd : Int) + (n : Int)) % 4294967296).toNat = h.heapEnd + n := by omega
  by_cases pos : 0 < n
  · refine ⟨_, ?_, rfl⟩
    unfold ksbrk
    dsimp only
    rw [Int.toNat_natCast, u32_eq room, pages_counted small room, if_pos (Int.natCast_pos.2 pos), moved]
    rfl
  · have none' : n = 0 := Nat.eq_zero_of_not_pos pos
    have still : ¬ (0 : Int) < (n : Int) := by omega
    refine ⟨0, ?_, by rw [none', Nat.add_zero, Nat.sub_self]⟩
    unfold ksbrk
    dsimp only
    rw [if_neg still, moved]
    rfl

/-- The pages of a call start at the rounded end and stay in the address space. -/
theorem count_inside {e n count : Nat} (room : e + n < 4294967296)
    (counted : count = (roundUp (e + n) - roundUp e) / 4096) :
    count = 0 ∨ (alignPage e = roundUp e ∧ roundUp e + count * 4096 ≤ 4294967296) := by
  rcases @alignPage_cases e (by omega) with same | ⟨-, top⟩
  · refine Or.inr ⟨same, ?_⟩
    rw [counted]
    unfold roundUp
    omega
  · refine Or.inl ?_
    rw [counted, top]
    unfold roundUp
    omega

/-- One call moves the end, maps the pages behind it and leaves the bytes below it alone. -/
theorem ksbrk_step {n : Nat} (h : Heap μ M) (small : n < 2147483648) (room : h.heapEnd + n < 4294967296) :
    (ksbrk mmuAllocAt h n).2.heapEnd = h.heapEnd + n ∧
      (ksbrk mmuAllocAt h n).2.pages = h.pages ++ pagesBetween h.heapEnd (h.heapEnd + n) ∧
      ∀ x, x < h.heapEnd →
        HeapMemory.load8 (ksbrk mmuAllocAt h n).2.mem x = HeapMemory.load8 h.mem x := by
  obtain ⟨count, call, counted⟩ := ksbrk_grows mmuAllocAt h small room
  have least : h.heapEnd ≤ roundUp h.heapEnd := by
    unfold roundUp
    omega
  rw [call]
  refine ⟨rfl, ?_⟩
  unfold pagesBetween
  rw [← counted]
  rcases count_inside room counted with none' | ⟨start, inside⟩
  · subst none'
    exact ⟨(List.append_nil _).symm, fun _ _ => rfl⟩
  · rw [← start] at inside least ⊢
    exact ⟨mapPages_pages mmuAllocAt count _ h (Or.inr inside),
      (mapPages_below mmuAllocAt count _ h (Or.inr ⟨least, inside⟩) (Nat.mul_mod_left _ _)).1⟩

/-- A run of calls. -/
theorem ksbrks_run (h : Heap μ M) (increments : List Nat) (small : ∀ n ∈ increments, n < 2147483648)
    (room : h.heapEnd + increments.sum < 4294967296) :
    (ksbrks mmuAllocAt h increments).heapEnd = h.heapEnd + increments.sum ∧
      (ksbrks mmuAllocAt h increments).pages =
        h.pages ++ pagesBetween h.heapEnd (h.heapEnd + increments.sum) := by
  induction increments generalizing h with
  | nil =>
      rw [List.sum_nil, Nat.add_zero, pagesBetween_self, List.append_nil]
      exact ⟨rfl, rfl⟩
  | cons n later ih =>
      rw [List.sum_cons] at room
      obtain ⟨moved, mapped, -⟩ := @ksbrk_step μ M _ mmuAllocAt n h (small n List.mem_cons_self) (by omega)
      obtain ⟨moved', mapped'⟩ := ih (ksbrk mmuAllocAt h n).2
        (fun k member => small k (List.mem_cons_of_mem n member)) (by rw [moved]; omega)
      rw [moved] at moved' mapped'
      rw [List.sum_cons, ← Nat.add_assoc]
      refine ⟨moved', ?_⟩
      rw [← pagesBetween_append (Nat.le_add_right h.heapEnd n) (Nat.le_add_right _ later.sum),
        ← List.append_assoc, ← mapped]
      exact mapped'

/-- A heap that ends inside a page, and frames from 0x10000 on. -/
def unevenHeap : Heap PagedMem Nat :=
  ⟨⟨fun _ => 0, fun _ => 0, fun _ => false⟩, 5000, fun _ => 0, 0, 16, []⟩

end Heap

end TrollOS.Mem
