import TrollOS.Mmu.Counter

/-!
# The first free list

Which frames `mmu040_init` puts on the free list, for any pages of the supervisor: those from the
running maximum of its walk to the end of the memory.
-/

namespace TrollOS

open TrollOS.Lib Mmu

namespace Frames

/-- The local `free_frame` at a resident page. -/
def raise (bound ph : Nat) : Nat := if bound ≤ ph then u32 (ph + pageSize) else bound

def lastPage : Nat := 4294963200

theorem skip_raise (found : List Nat) (r : Nat × Nat) : (found.foldl skip r).1 = found.foldl raise r.1 := by
  induction found generalizing r with
  | nil => rfl
  | cons ph rest ih =>
      have step : (skip r ph).1 = raise r.1 ph := by
        unfold skip raise
        split <;> rfl
      rw [List.foldl_cons, List.foldl_cons, ih, step]

def IsPage (ph : Nat) : Prop := ph % pageSize = 0 ∧ ph < 4294967296

theorem IsPage.le_last {ph : Nat} (page : IsPage ph) : ph ≤ lastPage := by
  obtain ⟨aligned, small⟩ := page
  unfold pageSize at aligned
  unfold lastPage
  omega

theorem raise_page {bound ph : Nat} (start : IsPage bound) (page : IsPage ph) : IsPage (raise bound ph) := by
  obtain ⟨aligned, -⟩ := page
  unfold raise
  split
  · refine ⟨?_, u32_lt _⟩
    unfold u32 pageSize at *
    omega
  · exact start

theorem raised_page {found : List Nat} {bound : Nat} (start : IsPage bound) (pages : ∀ ph ∈ found, IsPage ph) :
    IsPage (found.foldl raise bound) := by
  induction found generalizing bound with
  | nil => exact start
  | cons ph rest ih =>
      exact ih (raise_page start (pages ph List.mem_cons_self)) fun q member =>
        pages q (List.mem_cons_of_mem ph member)

/-- Without the last page of the address space the walk leaves the end of the highest page. -/
theorem raised_above {found : List Nat} {bound : Nat} (start : IsPage bound) (pages : ∀ ph ∈ found, IsPage ph)
    (below : lastPage ∉ found) : bound ≤ found.foldl raise bound ∧ (∀ ph ∈ found, ph < found.foldl raise bound) ∧
      (found.foldl raise bound = bound ∨ ∃ ph ∈ found, found.foldl raise bound = ph + pageSize) := by
  induction found generalizing bound with
  | nil => exact ⟨Nat.le_refl bound, fun ph member => absurd member List.not_mem_nil, Or.inl rfl⟩
  | cons ph rest ih =>
      rw [List.mem_cons, not_or] at below
      have page := pages ph List.mem_cons_self
      have low : ph < lastPage := Nat.lt_of_le_of_ne page.le_last (Ne.symm below.1)
      have step : raise bound ph = if bound ≤ ph then ph + pageSize else bound := by
        unfold raise
        rw [u32_eq]
        unfold lastPage at low
        unfold pageSize
        omega
      obtain ⟨higher, above, reached⟩ := ih (raise_page start page)
        (fun q member => pages q (List.mem_cons_of_mem ph member)) below.2
      rw [List.foldl_cons]
      have first : bound ≤ raise bound ph ∧ ph < raise bound ph := by
        rw [step]
        unfold pageSize
        split <;> omega
      refine ⟨Nat.le_trans first.1 higher, List.forall_mem_cons.2 ⟨Nat.lt_of_lt_of_le first.2 higher, above⟩, ?_⟩
      rcases reached with same | ⟨q, member, same⟩
      · by_cases raises : bound ≤ ph
        · rw [if_pos raises] at step
          exact Or.inr ⟨ph, List.mem_cons_self, same.trans step⟩
        · rw [if_neg raises] at step
          exact Or.inl (same.trans step)
      · exact Or.inr ⟨q, List.mem_cons_of_mem ph member, same⟩

/-- The last page of the address space makes the walk start again from zero. -/
theorem raised_again {front back : List Nat} {bound : Nat} (start : IsPage bound)
    (pages : ∀ ph ∈ front, IsPage ph) :
    (front ++ lastPage :: back).foldl raise bound = back.foldl raise 0 := by
  have low := (raised_page start pages).le_last
  have again : raise (front.foldl raise bound) lastPage = 0 := if_pos low
  rw [List.foldl_append, List.foldl_cons, again]

/-- No resident page is at the end of the address space, or behind the last one there comes one at
the end of what is resident in the memory. -/
def Covered (found : List Nat) : Prop :=
  ∀ front back, found = front ++ lastPage :: back → lastPage ∉ back →
    ∃ q ∈ back, dramStart ≤ q + pageSize ∧ ∀ ph ∈ found, ph < dramEnd → ph ≤ q

/-- Every frame from `start` to the end of the memory is in the memory and is not resident. -/
def Clear (found : List Nat) (start : Nat) : Prop :=
  ∀ f, f ≠ 0 → f % pageSize = 0 → start ≤ f → f < dramEnd → dramStart ≤ f ∧ f ∉ found

theorem dramStart_page : IsPage dramStart := by
  constructor <;> decide

/-- The last occurrence of an element. -/
theorem last_occurrence {x : Nat} {found : List Nat} (member : x ∈ found) :
    ∃ front back, found = front ++ x :: back ∧ x ∉ back := by
  obtain ⟨back, front, split, fresh⟩ := List.eq_append_cons_of_mem (List.mem_reverse.2 member)
  refine ⟨front.reverse, back.reverse, ?_, fun again => fresh (List.mem_reverse.1 again)⟩
  have turned := congrArg List.reverse split
  rw [List.reverse_reverse, List.reverse_append, List.reverse_cons, List.append_assoc] at turned
  exact turned

/-- The frames behind the walk, from its last start on. -/
theorem clear_behind {found front back : List Nat} (pages : ∀ ph ∈ found, IsPage ph)
    (split : found = front ++ lastPage :: back) (fresh : lastPage ∉ back) :
    Clear found (found.foldl raise dramStart) ↔
      ∃ q ∈ back, dramStart ≤ q + pageSize ∧ ∀ ph ∈ found, ph < dramEnd → ph ≤ q := by
  have inFront : ∀ ph ∈ front, IsPage ph := fun ph member => pages ph (split ▸ List.mem_append_left _ member)
  have inBack : ∀ ph ∈ back, IsPage ph := fun ph member =>
    pages ph (split ▸ List.mem_append_right _ (List.mem_cons_of_mem _ member))
  have again : found.foldl raise dramStart = back.foldl raise 0 := by
    rw [split, raised_again dramStart_page inFront]
  have zero : IsPage 0 := ⟨rfl, by decide⟩
  have aligned := (raised_page zero inBack).1
  obtain ⟨-, above, reached⟩ := raised_above zero inBack fresh
  rw [again]
  generalize back.foldl raise 0 = start at aligned above reached
  constructor
  · intro clear
    rcases reached with none' | ⟨q, member, ends⟩
    · have low := (clear pageSize (by decide) (by decide) (by omega) (by decide)).1
      exact absurd low (by decide)
    · refine ⟨q, member, ?_, fun ph resident inMemory => ?_⟩
      · by_cases inside : start < dramEnd
        · rw [← ends]
          exact (clear start (by unfold pageSize at ends; omega) aligned (Nat.le_refl _) inside).1
        · unfold dramEnd at inside
          omega
      · by_contra higher
        have pageQ := (inBack q member).1
        have page := (pages ph resident).1
        refine (clear ph (by omega) page ?_ inMemory).2 resident
        unfold pageSize at *
        omega
  · rintro ⟨q, member, low, covers⟩ f _ _ least inMemory
    have pageQ := (inBack q member).1
    have below := above q member
    have higher : q + pageSize ≤ start := by
      unfold pageSize at *
      omega
    refine ⟨by omega, fun resident => ?_⟩
    have covered := covers f resident inMemory
    omega

/-- The frames the walk leaves are clear exactly when the resident pages are covered. -/
theorem clear_iff {found : List Nat} (pages : ∀ ph ∈ found, IsPage ph) :
    Clear found (found.foldl raise dramStart) ↔ Covered found := by
  by_cases top : lastPage ∈ found
  · obtain ⟨front, back, split, fresh⟩ := last_occurrence top
    constructor
    · intro clear front' back' split' fresh'
      exact (clear_behind pages split' fresh').1 clear
    · intro covered
      exact (clear_behind pages split fresh).2 (covered front back split fresh)
  · have clear : Clear found (found.foldl raise dramStart) := by
      obtain ⟨low, above, -⟩ := raised_above dramStart_page pages top
      intro f _ _ least _
      exact ⟨Nat.le_trans low least, fun member => Nat.not_lt_of_le least (above f member)⟩
    refine ⟨fun _ front back split => absurd ?_ top, fun _ => clear⟩
    rw [split]
    exact List.mem_append_right _ List.mem_cons_self

/-- What a page descriptor holds. -/
theorem pages_page (mem : ByteMem) (level table : Nat) : ∀ ph ∈ pages mem (level + 1) table, IsPage ph := by
  induction level generalizing table with
  | zero =>
      intro ph member
      obtain ⟨i, -, behind⟩ := List.mem_flatMap.1 member
      unfold child at behind
      split at behind
      · rw [List.mem_singleton.1 behind]
        have small := field_lt (mem.load32 (table + 4 * i)) 12 20
        constructor
        · exact Nat.mul_mod_left _ _
        · change field (mem.load32 (table + 4 * i)) 12 20 * 4096 < 4294967296
          omega
      · exact absurd behind List.not_mem_nil
  | succ level ih =>
      intro ph member
      obtain ⟨i, -, behind⟩ := List.mem_flatMap.1 member
      unfold child at behind
      split at behind
      · exact ih _ ph behind
      · exact absurd behind List.not_mem_nil

/-- Frames given to an empty list, the frame 0 first if at all: it stays empty then. -/
theorem free_listed {frames : List Nat} {s : Frames} (empty : s.freeFrame = 0)
    (valid : ∀ f ∈ frames, IsPage f) (distinct : frames.Nodup) (first : 0 ∈ frames → frames.head? = some 0) :
    ∃ s' chain, frames.forM free s = some ((), s') ∧ Chain (fun f => s'.mem.load32 f) s'.freeFrame chain ∧
      ∀ f, f ∈ chain ↔ f ∈ frames ∧ f ≠ 0 := by
  have all : ∀ {rest : List Nat} {t : Frames}, t.freeFrame = 0 → (∀ f ∈ rest, IsPage f) → rest.Nodup → 0 ∉ rest →
      ∃ s' chain, rest.forM free t = some ((), s') ∧ Chain (fun f => s'.mem.load32 f) s'.freeFrame chain ∧
        ∀ f, f ∈ chain ↔ f ∈ rest := by
    intro rest t empty valid distinct nonzero
    have pool : Pool { t with freeFrames := 0 } [] := ⟨empty, Nat.le_refl 0, fun f member => nomatch member⟩
    have frames : ∀ f ∈ rest, IsFrame f := fun f member =>
      ⟨(valid f member).1, fun zero => nonzero (zero ▸ member), (valid f member).2⟩
    obtain ⟨s', gives, pool, -⟩ := free_all pool frames distinct fun f _ member => nomatch member
    rw [List.append_nil] at pool
    exact ⟨s', rest.reverse, gives, pool.linked, fun f => List.mem_reverse⟩
  by_cases zero : 0 ∈ frames
  · cases frames with
    | nil => exact nomatch zero
    | cons f rest =>
        have same : f = 0 := Option.some.inj (first zero)
        subst same
        obtain ⟨notAgain, distinct⟩ := List.nodup_cons.1 distinct
        have ran : free 0 s = some ((), { s with mem := s.mem.store32 0 s.freeFrame, freeFrame := 0 }) := rfl
        obtain ⟨s', chain, gives, linked, members⟩ := @all rest
          { s with mem := s.mem.store32 0 s.freeFrame, freeFrame := 0 } rfl
          (fun g member => valid g (List.mem_cons_of_mem 0 member)) distinct notAgain
        refine ⟨s', chain, (bind_ran ran).trans gives, linked, fun g => ?_⟩
        rw [members, List.mem_cons]
        constructor
        · intro member
          exact ⟨Or.inr member, fun same => notAgain (same ▸ member)⟩
        · rintro ⟨same | member, nonzero⟩
          · exact absurd same nonzero
          · exact member
  · obtain ⟨s', chain, gives, linked, members⟩ := all empty valid distinct zero
    refine ⟨s', chain, gives, linked, fun g => ?_⟩
    rw [members]
    exact ⟨fun member => ⟨member, fun same => zero (same ▸ member)⟩, And.left⟩

/-- The frames from `start` to the end of the memory, as the second loop counts them. -/
def framesAbove (start : Nat) : List Nat := (List.range (framesFrom start 16384)).map fun n => start + n * pageSize

theorem mem_framesAbove {start f : Nat} (page : start % pageSize = 0) :
    f ∈ framesAbove start ↔ f % pageSize = 0 ∧ start ≤ f ∧ f < dramEnd := by
  unfold framesAbove framesFrom
  rw [List.mem_map]
  constructor
  · rintro ⟨n, inRange, rfl⟩
    have small := List.mem_range.1 inRange
    unfold dramEnd dramStart pageSize at *
    omega
  · rintro ⟨aligned, least, most⟩
    refine ⟨(f - start) / pageSize, List.mem_range.2 ?_, ?_⟩
    · unfold dramEnd dramStart pageSize at *
      omega
    · unfold pageSize at *
      omega

theorem framesAbove_first {start : Nat} (member : 0 ∈ framesAbove start) : (framesAbove start).head? = some 0 := by
  unfold framesAbove at member ⊢
  obtain ⟨n, inRange, zero⟩ := List.mem_map.1 member
  have none' : start = 0 := by omega
  cases count : framesFrom start 16384 with
  | zero =>
      rw [count] at inRange
      exact absurd inRange List.not_mem_nil
  | succ more =>
      rw [List.range_succ_eq_map, List.map_cons, List.head?_cons, none']
      rfl

theorem framesAbove_nodup (start : Nat) : (framesAbove start).Nodup := by
  refine List.nodup_range.map_on fun a _ b _ same => ?_
  unfold pageSize at same
  omega

end Frames

namespace Mmu

open Frames Action

variable {m : Mmu}

/-- The list is null-terminated, and its frames are different ones of the memory that are not
resident. -/
def FreeList (before after : Mmu) : Prop :=
  ∃ chain, Chain (fun f => after.mem.load32 f) after.memLayout.freeFrame chain ∧ chain.Nodup ∧
    ∀ f ∈ chain, f % pageSize = 0 ∧ dramStart ≤ f ∧ f < dramEnd ∧ f ∉ before.residentPages

theorem residentPages_page (m : Mmu) : ∀ ph ∈ m.residentPages, IsPage ph :=
  pages_page m.mem 2 (rootLevelFieldAddr m.srp)

/-- `mmu040_init` lists the frames from the running maximum of the walk on. -/
theorem init_lists (mapping : m.mapping = 0) (whole : Whole m.mem 3 (rootLevelFieldAddr m.srp)) :
    ∃ m' chain, Mmu.init m = some ((), m') ∧
      Chain (fun f => m'.mem.load32 f) m'.memLayout.freeFrame chain ∧
      ∀ f, f ∈ chain ↔ f ∈ framesAbove (m.residentPages.foldl raise dramStart) ∧ f ≠ 0 := by
  have pages := m.residentPages_page
  have start := raised_page dramStart_page pages
  obtain ⟨m₁, walked, done⟩ :=
    @skip_supervisor { m with memLayout := ⟨16384, 16384, 0⟩ } dramStart mapping whole
  rw [skip_raise] at walked
  have walked' : (List.range rootLevelDescriptors).foldlM skipPointerTable dramStart
      { m with memLayout := ⟨16384, 16384, 0⟩ } = some (m.residentPages.foldl raise dramStart, m₁) := walked
  have layout : m₁.memLayout.totalFrames = 16384 := done.totalFrames
  have empty : m₁.frames.freeFrame = 0 := done.freeFrame
  have valid : ∀ f ∈ framesAbove (m.residentPages.foldl raise dramStart), IsPage f := fun f member => by
    obtain ⟨aligned, -, below⟩ := (mem_framesAbove start.1).1 member
    exact ⟨aligned, Nat.lt_trans below (by decide)⟩
  obtain ⟨s, chain, gives, linked, members⟩ :=
    free_listed empty valid (framesAbove_nodup _) framesAbove_first
  unfold framesAbove at gives
  rw [List.forM_eq_forM, List.forM_map] at gives
  obtain ⟨m', given, done'⟩ := run_of_simulates
    (fun held => Simulates.forM fun n => Simulates.free (by decide) held _) done.mapping gives
  have memory : m'.mem = s.mem := congrArg Frames.mem done'.frames
  refine ⟨m', chain, ?_, ?_, members⟩
  · have begins : setMemLayout ⟨16384, 16384, 0⟩ m = some ((), { m with memLayout := ⟨16384, 16384, 0⟩ }) := rfl
    have looked : getMemLayout m₁ = some (m₁.memLayout, m₁) := rfl
    have builds : buildFreeFrameList { m with memLayout := ⟨16384, 16384, 0⟩ } =
        some (m'.memLayout.freeFrame, m') := by
      unfold buildFreeFrameList
      rw [bind_of_some walked', bind_of_some looked, layout, bind_of_some given]
      rfl
    unfold Mmu.init
    rw [bind_of_some begins, bind_of_some builds]
    rfl
  · rw [done'.freeFrame, memory]
    exact linked

/-- A list that keeps clear of the resident pages. -/
theorem FreeList.covered {m' : Mmu} (mapping : m.mapping = 0) (whole : Whole m.mem 3 (rootLevelFieldAddr m.srp))
    (ran : Mmu.init m = some ((), m')) (list : FreeList m m') : Covered m.residentPages := by
  have pages := m.residentPages_page
  have start := raised_page dramStart_page pages
  obtain ⟨m₁, chain, ran₁, linked, members⟩ := init_lists mapping whole
  obtain ⟨chain', linked', -, right⟩ := list
  cases ran.symm.trans ran₁
  cases linked.unique linked'
  rw [← clear_iff pages]
  intro f nonzero aligned least below
  have listed := right f ((members f).2 ⟨(mem_framesAbove start.1).2 ⟨aligned, least, below⟩, nonzero⟩)
  exact ⟨listed.2.1, listed.2.2.2⟩

/-- One resident page, the one that `word` describes. -/
def oneResident (word : Nat) : Mmu :=
  { zeroed with
    mem := ByteMem.store32 (ByteMem.store32 (ByteMem.store32 (fun _ => 0) 0 0x1003) 4096 0x2003) 8192 word }

section One

variable {word : Nat}

theorem oneResident_word (small : word < 4294967296) {a : Nat} (aligned : a % 4 = 0) :
    (oneResident word).mem.load32 a =
      if a = 8192 then word else if a = 4096 then 0x2003 else if a = 0 then 0x1003 else 0 := by
  unfold oneResident
  dsimp only
  by_cases third : a = 8192
  · rw [if_pos third, third, ByteMem.load32_store32 _ _ _ small]
  · rw [if_neg third, ByteMem.load32_store32_off _ _ (by omega)]
    by_cases second : a = 4096
    · rw [if_pos second, second, ByteMem.load32_store32 _ _ _ (by decide)]
    · rw [if_neg second, ByteMem.load32_store32_off _ _ (by omega)]
      by_cases first : a = 0
      · rw [if_pos first, first, ByteMem.load32_store32 _ _ _ (by decide)]
      · rw [if_neg first, ByteMem.load32_store32_off _ _ (by omega)]
        exact zeroed_word a

/-- The other entries of the three tables are not resident. -/
theorem oneResident_child (small : word < 4294967296) {level table i : Nat} (page : table % 4096 = 0)
    (later : 0 < i) (inTable : i < 128) : child (oneResident word).mem level table i = none := by
  have other : (oneResident word).mem.load32 (table + 4 * i) = 0 := by
    rw [oneResident_word small (by omega), if_neg (by omega), if_neg (by omega), if_neg (by omega)]
  unfold child
  rw [other]
  refine if_neg ?_
  unfold isResident
  split <;> decide

theorem oneResident_root (small : word < 4294967296) : child (oneResident word).mem 3 0 0 = some 4096 := by
  have first : (oneResident word).mem.load32 (0 + 4 * 0) = 0x1003 := oneResident_word small rfl
  unfold child
  rw [first]
  rfl

theorem oneResident_pointer (small : word < 4294967296) :
    child (oneResident word).mem 2 4096 0 = some 8192 := by
  have second : (oneResident word).mem.load32 (4096 + 4 * 0) = 0x2003 := oneResident_word small rfl
  unfold child
  rw [second]
  rfl

theorem oneResident_page (small : word < 4294967296) (resident : isResident 1 word = true) :
    child (oneResident word).mem 1 8192 0 = some (address 1 word) := by
  have third : (oneResident word).mem.load32 (8192 + 4 * 0) = word := oneResident_word small rfl
  unfold child
  rw [third]
  exact if_pos resident

variable {level table c : Nat}

/-- A table with one resident entry, the first. -/
theorem pages_first (small : word < 4294967296) (page : table % 4096 = 0)
    (first : child (oneResident word).mem (level + 1) table 0 = some c)
    (pos : 0 < entries (level + 1)) (few : entries (level + 1) ≤ 128) :
    pages (oneResident word).mem (level + 1) table = pages (oneResident word).mem level c := by
  obtain ⟨count, entries'⟩ := Nat.exists_eq_succ_of_ne_zero (Nat.ne_of_gt pos)
  have none' : ((List.range count).map Nat.succ).flatMap
      (fun i => (child (oneResident word).mem (level + 1) table i).elim [] (pages (oneResident word).mem level)) = [] := by
    refine List.flatMap_eq_nil_iff.2 fun i member => ?_
    obtain ⟨j, inRange, rfl⟩ := List.mem_map.1 member
    have below := List.mem_range.1 inRange
    rw [oneResident_child small page (Nat.succ_pos j) (by omega), Option.elim_none]
  conv_lhs => unfold pages
  rw [entries', List.range_succ_eq_map, List.flatMap_cons, first, Option.elim_some, none', List.append_nil]

theorem whole_first (small : word < 4294967296) (page : table % 4096 = 0)
    (first : child (oneResident word).mem (level + 1) table 0 = some c)
    (few : entries (level + 1) ≤ 128) (below : Whole (oneResident word).mem level c) :
    Whole (oneResident word).mem (level + 1) table := by
  refine ⟨?_, fun i inTable other leads => ?_⟩
  · unfold pageSize
    omega
  · cases i with
    | zero => exact Option.some.inj (first.symm.trans leads) ▸ below
    | succ i =>
        rw [oneResident_child small page (Nat.succ_pos i) (by omega)] at leads
        exact nomatch leads

theorem oneResident_table : rootLevelFieldAddr (oneResident word).srp = 0 := by
  have start : (oneResident word).srp = 0 := rfl
  rw [start]
  exact Nat.zero_mul 512

theorem oneResident_pages (small : word < 4294967296) (resident : isResident 1 word = true) :
    (oneResident word).residentPages = [address 1 word] := by
  unfold residentPages
  rw [oneResident_table, pages_first small rfl (oneResident_root small) (by decide) (by decide),
    pages_first small rfl (oneResident_pointer small) (by decide) (by decide),
    pages_first small rfl (oneResident_page small resident) (by decide) (by decide)]
  rfl

theorem oneResident_whole (small : word < 4294967296) (resident : isResident 1 word = true) :
    Whole (oneResident word).mem 3 (rootLevelFieldAddr (oneResident word).srp) := by
  rw [oneResident_table]
  exact whole_first small rfl (oneResident_root small) (by decide)
    (whole_first small rfl (oneResident_pointer small) (by decide)
      (whole_first small rfl (oneResident_page small resident) (by decide) trivial))

end One

end Mmu

end TrollOS
