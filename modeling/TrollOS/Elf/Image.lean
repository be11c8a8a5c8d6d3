import TrollOS.Elf.Loading

/-!
# The bytes of an image

`elf_load` on an image whose loadable sections lie in pages of their own.
-/

namespace TrollOS.Elf

open TrollOS.Lib Frames Mmu UserSpaces

/-- An image the loader takes: it passes the checks, the bytes of its loadable sections are in it,
and these sections have no address in common. -/
structure Image (memory : ByteMem) (elf length : Nat) : Prop where
  accepted : (header memory elf).accepted = true
  start : 0 < elf
  fits : elf + length ≤ 4294967296
  within : ∀ h ∈ loadedOf (sections memory elf), h.Within length
  disjoint : (loadedOf (sections memory elf)).Pairwise fun s t => ∀ v, ¬ (s.Covers v ∧ t.Covers v)

/-- The pages of `elf_load`, the page of the stack last. -/
def allPages (memory : ByteMem) (elf : Nat) : List Nat :=
  pagesOf (sections memory elf) ++ [stackPage / pageSize]

def Placed (memory : ByteMem) (elf : Nat) (u : UserSpaces) : Prop :=
  ∀ h ∈ loadedOf (sections memory elf), ∀ i, i < h.size →
    u.byteAt (h.address + i) = some (if h.isNobits then 0 else memory (elf + h.offset + i))

/-- The layouts the page loop of the loader is made for. -/
structure PageWise (memory : ByteMem) (elf : Nat) : Prop where
  inPages : ∀ h ∈ loadedOf (sections memory elf), h.InPages
  ordered : (loadedOf (sections memory elf)).Pairwise Ordered

variable {frames seen : List Nat} {u : UserSpaces} {memory : ByteMem} {elf length : Nat}

/-- The page of the stack. -/
theorem alloc_stack (loading : Loading frames u seen [stackPage / pageSize]) :
    ∃ m, alloc memory stackPage false 0 pageSize u.mmu = some ((), m) ∧
      Left frames u seen [stackPage / pageSize] [] (fun _ => 0) m := by
  obtain ⟨m, ran, left⟩ := @allocPages_zeros frames seen [] u memory false pageSize 0 1 0
    (stackPage / pageSize) loading (by decide)
  exact ⟨m, ran, left⟩

/-- `elf_load` of an image that passes the checks: its sections, then the page of the stack. -/
theorem elfLoad_ran {m m' : Mmu} (accepted : (header memory elf).accepted = true)
    (ran : (sections memory elf).forM (loadSection memory elf) u.mmu = some ((), m))
    (stack : alloc memory stackPage false 0 pageSize m = some ((), m')) :
    elfLoad memory elf u.mmu = some ((header memory elf).entry, m') := by
  unfold elfLoad
  rw [if_pos accepted]
  exact (bind_of_some ran).trans ((bind_of_some stack).trans rfl)

/-- Below the page of the stack its page is another. -/
theorem page_below_stack {v : Nat} (below : v < stackPage) : v / pageSize ∉ [stackPage / pageSize] := by
  intro member
  have same := List.mem_singleton.mp member
  unfold stackPage pageSize at *
  omega

/-- The loader puts every byte of the loadable sections where it belongs. -/
theorem elfLoad_places (image : Image memory elf length) (pageWise : PageWise memory elf)
    (ready : Ready frames u)
    (enough : framesFor [] (allPages memory elf) ≤ u.mmu.memLayout.freeFrames) :
    ∃ entry m, elfLoad memory elf u.mmu = some (entry, m) ∧ Placed memory elf ⟨m, u.live⟩ := by
  have loading : Loading frames u [] (allPages memory elf) :=
    ⟨ready, fun page member => absurd member List.not_mem_nil, enough⟩
  obtain ⟨m, ran, loading', urp, bytes⟩ := loadSections_spec loading
    (fun h member => ⟨pageWise.inPages h member, image.within h member⟩) image.start image.fits
  obtain ⟨m', stack, left⟩ := @alloc_stack frames _ ⟨m, u.live⟩ memory loading'
  refine ⟨_, m', elfLoad_ran image.accepted ran stack, fun h member i inside => ?_⟩
  have covers : h.Covers (h.address + i) := ⟨Nat.le_add_right .., Nat.add_lt_add_left inside _⟩
  have below : h.address + i < stackPage := Nat.lt_of_lt_of_le covers.2 (image.within h member).user
  have small : h.address + i < 4294967296 := Nat.lt_trans below (by decide)
  rw [left.bytes _ small, if_neg (page_below_stack below)]
  show byteAt ⟨m, u.live⟩ (h.address + i) = _
  rw [bytes _ small, shown_section pageWise.inPages image.disjoint pageWise.ordered member covers]
  refine congrArg some ?_
  unfold SectionHeader.byte
  cases kind : h.isNobits with
  | true => exact if_neg fun both => nomatch both.1
  | false =>
      rw [if_pos ⟨rfl, covers⟩, Nat.add_sub_cancel_left]
      rfl

/-- An image at 0x1000 with one section, which starts at its first byte and goes to 0x1000. -/
def oneSection (size : Nat) : ByteMem :=
  [(0x1000, 0x7f454c46), (0x1004, 0x01020000), (0x1010, 0x00020004), (0x1018, 0x1000), (0x1020, 0x34),
    (0x102c, 40), (0x1030, 0x10000), (0x1038, 1), (0x103c, 2), (0x1040, 0x1000), (0x1048, size)].foldl
    (fun mem word => mem.store32 word.1 word.2) fun _ => 0

def onlyHeader (size : Nat) : SectionHeader := ⟨1, 2, 0x1000, 0, size⟩

/-- The sections and the pages of an image with one section that has one page. -/
structure OneSection (size : Nat) : Prop where
  accepted : (header (oneSection size) 0x1000).accepted = true
  sections : sections (oneSection size) 0x1000 = [onlyHeader size]
  isLoaded : (onlyHeader size).isLoaded = true
  pages : (onlyHeader size).pages = [1]

theorem oneSection_sixteen : OneSection 16 := ⟨rfl, rfl, rfl, rfl⟩

theorem oneSection_page : OneSection 4096 := ⟨rfl, rfl, rfl, rfl⟩

section OneSection

variable {size : Nat}

theorem OneSection.loaded (one : OneSection size) :
    loadedOf (Elf.sections (oneSection size) 0x1000) = [onlyHeader size] := by
  rw [one.sections]
  exact List.filter_cons_of_pos one.isLoaded

theorem OneSection.image (one : OneSection size) (small : size ≤ 4096) :
    Image (oneSection size) 0x1000 4096 := by
  refine ⟨one.accepted, by decide, by decide, fun h member => ?_, ?_⟩
  · rw [one.loaded] at member
    obtain rfl := List.mem_singleton.mp member
    refine ⟨fun _ => ?_, ?_⟩
    · show 0 + size ≤ 4096
      omega
    · show 0x1000 + size ≤ stackPage
      unfold stackPage
      omega
  · rw [one.loaded]
    exact List.pairwise_singleton ..

theorem OneSection.allPages (one : OneSection size) :
    allPages (oneSection size) 0x1000 = [1, stackPage / pageSize] := by
  unfold Elf.allPages pagesOf
  rw [one.loaded]
  show (onlyHeader size).pages ++ [] ++ _ = _
  rw [one.pages]
  rfl

theorem OneSection.pageWise (one : OneSection size) (small : size < 4096) :
    PageWise (oneSection size) 0x1000 := by
  refine ⟨fun h member => ?_, ?_⟩
  · rw [one.loaded] at member
    obtain rfl := List.mem_singleton.mp member
    refine ⟨fun _ => ⟨small, ?_⟩, fun zeros => nomatch zeros⟩
    show 0x1000 % pageSize + size ≤ pageSize
    unfold pageSize
    omega
  · rw [one.loaded]
    exact List.pairwise_singleton ..

end OneSection

/-- An empty space with seven frames for its pages. -/
theorem eightFrames_ready : ∃ u, Ready (frameList 8) u ∧ below u.mmu.mem 3 u.root = [] ∧
    u.mmu.memLayout.freeFrames = 7 := by
  have start : (freshFrames 8).Owned (frameList 8) := freshFrames_owned (by decide) (by decide +kernel)
  obtain ⟨chain, roles⟩ := start.roles
  obtain ⟨f, rest, got, valid, roles', empty, -⟩ := roles.alloc (by decide)
  obtain ⟨m, -, frames, mapping, urp, -⟩ := initUserspace_some start.mapping got valid
  have root := rootLevelFieldAddr_addrField (roles'.valid_tree List.mem_cons_self f List.mem_cons_self)
  refine ⟨⟨m, [rootLevelAddrField f]⟩, ⟨⟨mapping, rest, ?_⟩, urp ▸ List.mem_cons_self⟩, ?_,
    congrArg Frames.freeFrames frames⟩
  · show Frames.Owned (frameList 8) m.frames [rootLevelFieldAddr (rootLevelAddrField f)] rest
    rw [root, frames]
    exact roles'
  · show below m.frames.mem 3 (rootLevelFieldAddr m.urp) = []
    rw [urp, root, frames]
    exact empty

theorem framesFor_two : framesFor [] [1, stackPage / pageSize] = 6 := rfl

/-- An image with a section of sixteen bytes. -/
theorem elfLoad_places_sixteen : ∃ u entry m, Ready (frameList 8) u ∧
    elfLoad (oneSection 16) 0x1000 u.mmu = some (entry, m) ∧ Placed (oneSection 16) 0x1000 ⟨m, u.live⟩ := by
  obtain ⟨u, ready, -, free⟩ := eightFrames_ready
  have enough : framesFor [] (allPages (oneSection 16) 0x1000) ≤ u.mmu.memLayout.freeFrames := by
    rw [oneSection_sixteen.allPages, framesFor_two, free]
    decide
  obtain ⟨entry, m, ran, placed⟩ := elfLoad_places (oneSection_sixteen.image (by decide))
    (oneSection_sixteen.pageWise (by decide)) ready enough
  exact ⟨u, entry, m, ready, ran, placed⟩

/-- A section of one whole page: the loader copies `4096 & 0xfff` bytes of it. -/
theorem whole_page_lost : ¬ ∀ (memory : ByteMem) (elf length : Nat) (frames : List Nat) (u : UserSpaces),
    Image memory elf length → Ready frames u → below u.mmu.mem 3 u.root = [] →
      framesFor [] (allPages memory elf) ≤ u.mmu.memLayout.freeFrames →
        ∃ entry m, elfLoad memory elf u.mmu = some (entry, m) ∧ Placed memory elf ⟨m, u.live⟩ := by
  intro places
  obtain ⟨u, ready, empty, free⟩ := eightFrames_ready
  have enough : framesFor [] (allPages (oneSection 4096) 0x1000) ≤ u.mmu.memLayout.freeFrames := by
    rw [oneSection_page.allPages, framesFor_two, free]
    decide
  obtain ⟨entry, m, ran, placed⟩ := places _ _ 4096 _ u (oneSection_page.image (by decide)) ready empty enough
  have loading : Loading (frameList 8) u [] [1, stackPage / pageSize] :=
    ⟨ready, fun page member => absurd member List.not_mem_nil, oneSection_page.allPages ▸ enough⟩
  obtain ⟨m₁, ran₁, left₁⟩ := @allocPages_data (frameList 8) [] [stackPage / pageSize] u (oneSection 4096)
    true 1 0x1000 4096 0 (fun k => oneSection 4096 (u32 (0x1000 + k))) loading (by decide) (by decide)
    (by decide) fun k _ => rfl
  obtain ⟨m₂, ran₂, left₂⟩ := @alloc_stack (frameList 8) [1] ⟨m₁, u.live⟩ (oneSection 4096) left₁.loading
  have all : (sections (oneSection 4096) 0x1000).forM (loadSection (oneSection 4096) 0x1000) u.mmu =
      some ((), m₁) := by
    rw [oneSection_page.sections]
    exact (bind_of_some ran₁).trans rfl
  have known := elfLoad_ran oneSection_page.accepted all ran₂
  obtain ⟨-, rfl⟩ := Prod.mk.inj (Option.some.inj (ran.symm.trans known))
  have byte := placed (onlyHeader 4096) (by
    rw [oneSection_page.loaded]
    exact List.mem_cons_self) 0 (by decide)
  have zero : byteAt ⟨m, u.live⟩ 0x1000 = some 0 := by
    rw [left₂.bytes 0x1000 (by decide), if_neg (by decide)]
    exact (left₁.bytes 0x1000 (by decide)).trans rfl
  exact absurd (zero.symm.trans byte) (by decide)

end TrollOS.Elf
