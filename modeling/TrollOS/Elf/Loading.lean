import TrollOS.Elf.Pages

/-!
# What the ELF loader leaves in a user space

`alloc` puts a page at each of its rounds and copies into it.  The bytes a section leaves are
those of the last section that put a page there.
-/

namespace TrollOS.Elf

open TrollOS.Lib Frames Mmu UserSpaces

/-! ## Frames for the pages -/

/-- How many frames a page takes when there are tables for the pages in `seen`. -/
def framesAt (seen : List Nat) (page : Nat) : Nat :=
  if seen.any fun q => q / 64 == page / 64 then 1
  else if seen.any fun q => q / 8192 == page / 8192 then 2
  else 3

/-- How many frames some pages take, one after the other. -/
def framesFor : List Nat → List Nat → Nat
  | _, [] => 0
  | seen, page :: rest => framesAt seen page + framesFor (page :: seen) rest

/-- A loader that has put the pages in `seen` and has the pages in `todo` to go. -/
structure Loading (frames : List Nat) (u : UserSpaces) (seen todo : List Nat) : Prop where
  ready : Ready frames u
  maps : ∀ page ∈ seen, u.Maps (page * pageSize)
  enough : framesFor seen todo ≤ u.mmu.memLayout.freeFrames

section Pages

variable {frames seen todo : List Nat} {u : UserSpaces} {page v : Nat}

/-- A page takes no more frames than the pages before it leave to take. -/
theorem wanted_framesAt (maps : ∀ q ∈ seen, u.Maps (q * pageSize)) :
    wanted u.mmu.mem (page * pageSize) 3 u.root ≤ framesAt seen page := by
  unfold framesAt
  split
  · next near =>
      obtain ⟨q, member, same⟩ := List.any_eq_true.mp near
      have table : q / 64 = page / 64 := beq_iff_eq.mp same
      refine wanted_shared (maps q member) Nat.one_pos fun l low high => ?_
      match l, low, high with
      | 1, _, _ =>
          show q * pageSize / 262144 % 128 = page * pageSize / 262144 % 128
          unfold pageSize
          omega
      | 2, _, _ =>
          show q * pageSize / 33554432 % 128 = page * pageSize / 33554432 % 128
          unfold pageSize
          omega
  · split
    · next near =>
        obtain ⟨q, member, same⟩ := List.any_eq_true.mp near
        have table : q / 8192 = page / 8192 := beq_iff_eq.mp same
        refine wanted_shared (maps q member) Nat.two_pos fun l low high => ?_
        match l, low, high with
        | 2, _, _ =>
            show q * pageSize / 33554432 % 128 = page * pageSize / 33554432 % 128
            unfold pageSize
            omega
    · exact wanted_le ..

/-- Below the end of the address space a page has one number. -/
theorem pageOf_iff (smallV : v < 4294967296) (small : page < 1048576) :
    pageOf v = pageOf (page * pageSize) ↔ v / pageSize = page := by
  rw [Fin.ext_iff]
  show v / pageSize % 2 ^ 20 = page * pageSize / pageSize % 2 ^ 20 ↔ _
  unfold pageSize
  omega

/-- One page is put into the space. -/
theorem Loading.allocAt (loading : Loading frames u seen (page :: todo)) (writeProtect : Bool) :
    ∃ f m, Mmu.allocAt (page * pageSize) false writeProtect u.mmu = some (f, m) ∧
      Added frames u (page * pageSize) f m ∧ Loading frames ⟨m, u.live⟩ (page :: seen) todo := by
  have enough : framesAt seen page + framesFor (page :: seen) todo ≤ u.mmu.memLayout.freeFrames :=
    loading.enough
  have takes := @wanted_framesAt seen u page loading.maps
  obtain ⟨f, m, ran, added⟩ := loading.ready.allocAt
    (Nat.le_trans takes (Nat.le_trans (Nat.le_add_right ..) enough)) writeProtect
  have count := added.count
  refine ⟨f, m, ran, added, added.ready, fun q member => (added.maps _).mpr ?_, ?_⟩
  · rcases List.mem_cons.mp member with rfl | before
    · exact Or.inl rfl
    · exact Or.inr (loading.maps q before)
  · show framesFor (page :: seen) todo ≤ m.memLayout.freeFrames
    omega

/-- Bytes are put into a page that is there. -/
theorem Loading.fillFrame (loading : Loading frames u seen todo) {w offset n : Nat} {src : Nat → UInt8}
    (found : lookup u.mmu.mem 3 u.root v = some w) (inPage : offset + n ≤ pageSize) :
    ∃ m, Mmu.fillFrame (address 1 w) offset src n u.mmu = some ((), m) ∧
      Filled frames u v offset n src m ∧ Loading frames ⟨m, u.live⟩ seen todo := by
  obtain ⟨m, ran, filled⟩ := loading.ready.fillFrame found inPage
  refine ⟨m, ran, filled, filled.ready, fun q member => (filled.maps _).mpr (loading.maps q member), ?_⟩
  show framesFor seen todo ≤ m.memLayout.freeFrames
  rw [filled.freeFrames]
  exact loading.enough

end Pages

/-! ## One section -/

/-- What a part of the loader leaves: pages put into the space, and the bytes in them. -/
structure Left (frames : List Nat) (u : UserSpaces) (seen pages todo : List Nat)
    (byte : Nat → UInt8) (m : Mmu) : Prop where
  loading : Loading frames ⟨m, u.live⟩ (pages.reverse ++ seen) todo
  urp : m.urp = u.mmu.urp
  bytes : ∀ v, v < 4294967296 →
    byteAt ⟨m, u.live⟩ v = if v / pageSize ∈ pages then some (byte v) else u.byteAt v

section Rounds

variable {frames seen todo : List Nat} {u : UserSpaces} {memory : ByteMem} {writeProtect : Bool}

/-- The address `alloc` works at in one round. -/
theorem round_address {first i : Nat} (small : first + i < 1048576) :
    u32 (first * pageSize + i * pageSize) = (first + i) * pageSize := by
  rw [← Nat.add_mul]
  refine u32_eq ?_
  unfold pageSize
  omega

/-- The rounds of `alloc` without data. -/
theorem allocPages_zeros (size offset : Nat) (left i : Nat) {first : Nat}
    (loading : Loading frames u seen (List.range' (first + i) left ++ todo))
    (below : first + i + left ≤ 1048576) :
    ∃ m, allocPages memory writeProtect (first * pageSize) left i 0 size offset u.mmu = some ((), m) ∧
      Left frames u seen (List.range' (first + i) left) todo (fun _ => 0) m := by
  induction left generalizing i u seen with
  | zero => exact ⟨u.mmu, rfl, loading, rfl, fun v _ => (if_neg List.not_mem_nil).symm⟩
  | succ left ih =>
      rw [List.range'_succ, List.cons_append] at loading
      obtain ⟨f, m₁, ran, added, loading₁⟩ := loading.allocAt writeProtect
      obtain ⟨m, rest, after⟩ := @ih ((first + i) :: seen) ⟨m₁, u.live⟩ (i + 1) loading₁ (by omega)
      refine ⟨m, ?_, ?_, after.urp.trans added.urp, fun v small => ?_⟩
      · unfold allocPages
        rw [round_address (by omega)]
        refine (bind_of_some ran).trans ?_
        rw [if_neg (fun none => none rfl)]
        exact rest
      · have loaded := after.loading
        rw [List.range'_succ, List.reverse_cons, List.append_assoc]
        exact loaded
      · have page := pageOf_iff small (by omega : first + i < 1048576)
        rw [after.bytes v small, added.bytes v, List.range'_succ]
        show (if v / pageSize ∈ List.range' (first + i + 1) left then _ else _) = _
        by_cases here : v / pageSize = first + i
        · rw [if_pos (List.mem_cons.mpr (Or.inl here)), if_pos (page.mpr here), ite_self]
        · rw [if_neg (fun same => here (page.mp same))]
          by_cases later : v / pageSize ∈ List.range' (first + i + 1) left
          · rw [if_pos later, if_pos (List.mem_cons_of_mem _ later)]
          · rw [if_neg later, if_neg (fun member => (List.mem_cons.mp member).elim here later)]

/-- The only round of `alloc` for data that ends in the page it starts in. -/
theorem allocPages_data {first data size offset : Nat} {src : Nat → UInt8}
    (loading : Loading frames u seen (first :: todo)) (below : first < 1048576) (some' : data ≠ 0)
    (inPage : offset + size % pageSize ≤ pageSize)
    (reads : ∀ k, k < size % pageSize → memory (u32 (data + k)) = src k) :
    ∃ m, allocPages memory writeProtect (first * pageSize) 1 0 data size offset u.mmu = some ((), m) ∧
      Left frames u seen [first] todo (fun v =>
        if offset ≤ v % pageSize ∧ v % pageSize < offset + size % pageSize then src (v % pageSize - offset)
        else 0) m := by
  obtain ⟨f, m₁, ran, added, loading₁⟩ := loading.allocAt writeProtect
  obtain ⟨w, found, rfl⟩ := added.found
  have here : lookup m₁.mem 3 (root ⟨m₁, u.live⟩) (first * pageSize) = some w := by
    unfold root
    rw [added.urp]
    exact found
  obtain ⟨m, fills, filled, loading₂⟩ := @Loading.fillFrame frames (first :: seen) todo ⟨m₁, u.live⟩
    (first * pageSize) loading₁ w offset (size % pageSize) (fun k => memory (u32 (data + k)))
    here inPage
  refine ⟨m, ?_, loading₂, filled.urp.trans added.urp, fun v small => ?_⟩
  · unfold allocPages
    rw [@round_address first 0 (by omega), Nat.add_zero]
    refine (bind_of_some ran).trans ?_
    rw [if_pos some']
    exact (bind_of_some fills).trans rfl
  · have page := pageOf_iff small below
    have only : v / pageSize ∈ [first] ↔ v / pageSize = first := List.mem_singleton
    rw [filled.bytes v, added.bytes v]
    by_cases here : v / pageSize = first
    · rw [if_pos (only.mpr here), if_pos (page.mpr here)]
      by_cases inside : offset ≤ v % pageSize ∧ v % pageSize < offset + size % pageSize
      · rw [if_pos ⟨page.mpr here, inside⟩, if_pos inside, reads _ (by omega)]
      · rw [if_neg (fun both => inside both.2), if_neg inside]
    · rw [if_neg (fun member => here (only.mp member)), if_neg (fun both => here (page.mp both.1)),
        if_neg (fun same => here (page.mp same))]

end Rounds

namespace SectionHeader

def Covers (h : SectionHeader) (v : Nat) : Prop := h.address ≤ v ∧ v < h.address + h.size

instance (h : SectionHeader) (v : Nat) : Decidable (h.Covers v) :=
  inferInstanceAs (Decidable (_ ∧ _))

def byte (memory : ByteMem) (elf : Nat) (h : SectionHeader) (v : Nat) : UInt8 :=
  if h.isNobits = false ∧ h.Covers v then memory (elf + h.offset + (v - h.address)) else 0

def pageCount (h : SectionHeader) : Nat := (h.size + (pageSize - 1)) / pageSize

/-- The pages `alloc` puts into the space for the section. -/
def pages (h : SectionHeader) : List Nat := List.range' (h.address / pageSize) h.pageCount

/-- A section with bytes is smaller than a page and lies in one page; a section of zeros lies in
as many pages as its size fills. -/
structure InPages (h : SectionHeader) : Prop where
  bits : h.isNobits = false → h.size < pageSize ∧ h.address % pageSize + h.size ≤ pageSize
  zeros : h.isNobits = true → h.size = 0 ∨ h.address % pageSize + h.size ≤ h.pageCount * pageSize

/-- The section is in the image, and below the page of the stack. -/
structure Within (h : SectionHeader) (length : Nat) : Prop where
  image : h.isNobits = false → h.offset + h.size ≤ length
  user : h.address + h.size ≤ stackPage

end SectionHeader

section Section

variable {frames seen todo : List Nat} {u : UserSpaces} {memory : ByteMem} {elf length : Nat}
  {h : SectionHeader}

theorem pageCount_below (within : h.Within length) :
    h.address / pageSize + h.pageCount ≤ 1048575 := by
  have user := within.user
  unfold stackPage at user
  unfold SectionHeader.pageCount pageSize
  omega

theorem pageCount_eq (within : h.Within length) :
    u32 (h.size + (pageSize - 1)) / pageSize = h.pageCount := by
  have user := within.user
  unfold stackPage at user
  unfold SectionHeader.pageCount
  rw [u32_eq (by
    unfold pageSize
    omega)]

/-- A section of zeros. -/
theorem loadSection_zeros (loading : Loading frames u seen (h.pages ++ todo)) (loaded : h.isLoaded = true)
    (within : h.Within length) (zeros : h.isNobits = true) :
    ∃ m, loadSection memory elf h u.mmu = some ((), m) ∧
      Left frames u seen h.pages todo (h.byte memory elf) m := by
  have below := pageCount_below within
  obtain ⟨m, ran, left⟩ := @allocPages_zeros frames seen todo u memory false h.size (h.address % pageSize)
    h.pageCount 0 (h.address / pageSize) loading (by omega)
  have none : h.byte memory elf = fun _ => 0 := funext fun v => if_neg fun both => by
    rw [zeros] at both
    exact nomatch both.1
  refine ⟨m, ?_, none ▸ left⟩
  unfold loadSection alloc
  rw [if_pos loaded, if_pos zeros, pageCount_eq within]
  exact ran

/-- A section with bytes, which is in one page. -/
theorem loadSection_data (loading : Loading frames u seen (h.pages ++ todo)) (loaded : h.isLoaded = true)
    (within : h.Within length) (data : h.isNobits = false)
    (bits : h.size < pageSize ∧ h.address % pageSize + h.size ≤ pageSize) (start : 0 < elf)
    (fits : elf + length ≤ 4294967296) :
    ∃ m, loadSection memory elf h u.mmu = some ((), m) ∧
      Left frames u seen h.pages todo (h.byte memory elf) m := by
  have below := pageCount_below within
  have image := within.image data
  have whole : h.size % pageSize = h.size := Nat.mod_eq_of_lt bits.1
  have ran : loadSection memory elf h = allocPages memory (!h.isWrite) (h.address / pageSize * pageSize)
      h.pageCount 0 (u32 (elf + h.offset)) h.size (h.address % pageSize) := by
    unfold loadSection alloc
    rw [if_pos loaded, data, if_neg Bool.false_ne_true, pageCount_eq within]
  rw [ran]
  by_cases empty : h.size = 0
  · have none : h.pageCount = 0 := by
      unfold SectionHeader.pageCount
      rw [empty]
      rfl
    have noPages : h.pages = [] := by
      unfold SectionHeader.pages
      rw [none]
      rfl
    rw [noPages] at loading ⊢
    rw [none]
    exact ⟨u.mmu, rfl, loading, rfl, fun v _ => (if_neg List.not_mem_nil).symm⟩
  · have one : h.pageCount = 1 := by
      unfold SectionHeader.pageCount
      have small := bits.1
      unfold pageSize at small ⊢
      omega
    have onePage : h.pages = [h.address / pageSize] := by
      unfold SectionHeader.pages
      rw [one]
      rfl
    have pointer : u32 (elf + h.offset) = elf + h.offset := u32_eq (by omega)
    rw [onePage] at loading ⊢
    rw [one, pointer]
    obtain ⟨m, fills, left⟩ := @allocPages_data frames seen todo u memory (!h.isWrite)
      (h.address / pageSize) (elf + h.offset) h.size (h.address % pageSize)
      (fun k => memory (elf + h.offset + k)) loading (by omega) (by omega) (by omega)
      (fun k small => congrArg memory (u32_eq (by omega)))
    refine ⟨m, fills, left.loading, left.urp, fun v small => ?_⟩
    rw [left.bytes v small, whole]
    by_cases here : v / pageSize ∈ [h.address / pageSize]
    · rw [if_pos here, if_pos here]
      have page := List.mem_singleton.mp here
      have start := Nat.div_add_mod v pageSize
      have start' := Nat.div_add_mod h.address pageSize
      rw [page] at start
      unfold SectionHeader.byte
      by_cases inside : h.address % pageSize ≤ v % pageSize ∧ v % pageSize < h.address % pageSize + h.size
      · rw [if_pos inside, if_pos ⟨data, by omega, by omega⟩]
        congr 2
        omega
      · rw [if_neg inside, if_neg fun both => inside ⟨by have := both.2.1; omega, by have := both.2.2; omega⟩]
    · rw [if_neg here, if_neg here]

/-- What a section that is loaded leaves. -/
theorem loadSection_spec (loading : Loading frames u seen (h.pages ++ todo)) (loaded : h.isLoaded = true)
    (inPages : h.InPages) (within : h.Within length) (start : 0 < elf) (fits : elf + length ≤ 4294967296) :
    ∃ m, loadSection memory elf h u.mmu = some ((), m) ∧
      Left frames u seen h.pages todo (h.byte memory elf) m := by
  cases kind : h.isNobits with
  | true => exact loadSection_zeros loading loaded within kind
  | false => exact loadSection_data loading loaded within kind (inPages.bits kind) start fits

end Section

/-! ## All sections -/

/-- The sections that are loaded, in the order of the table. -/
def loadedOf (hs : List SectionHeader) : List SectionHeader := hs.filter SectionHeader.isLoaded

def pagesOf (hs : List SectionHeader) : List Nat := (loadedOf hs).flatMap SectionHeader.pages

/-- The byte at an address after some sections: the last of them with a page there decides. -/
def shown (memory : ByteMem) (elf v : Nat) (hs : List SectionHeader) (before : Option UInt8) :
    Option UInt8 :=
  hs.foldl (fun b h => if v / pageSize ∈ h.pages then some (h.byte memory elf v) else b) before

section Sections

variable {frames seen todo : List Nat} {u : UserSpaces} {memory : ByteMem} {elf length v : Nat}
  {h s : SectionHeader} {hs : List SectionHeader}

theorem shown_nil (memory : ByteMem) (elf v : Nat) (before : Option UInt8) :
    shown memory elf v [] before = before := rfl

theorem shown_cons (memory : ByteMem) (elf v : Nat) (h : SectionHeader) (hs : List SectionHeader)
    (before : Option UInt8) : shown memory elf v (h :: hs) before =
      shown memory elf v hs (if v / pageSize ∈ h.pages then some (h.byte memory elf v) else before) :=
  List.foldl_cons ..

/-- The rounds of `elf_load`. -/
theorem loadSections_spec (loading : Loading frames u seen (pagesOf hs ++ todo))
    (each : ∀ h ∈ loadedOf hs, h.InPages ∧ h.Within length) (start : 0 < elf)
    (fits : elf + length ≤ 4294967296) :
    ∃ m, hs.forM (loadSection memory elf) u.mmu = some ((), m) ∧
      Loading frames ⟨m, u.live⟩ ((pagesOf hs).reverse ++ seen) todo ∧ m.urp = u.mmu.urp ∧
        ∀ v, v < 4294967296 → byteAt ⟨m, u.live⟩ v = shown memory elf v (loadedOf hs) (u.byteAt v) := by
  induction hs generalizing u seen with
  | nil => exact ⟨u.mmu, rfl, loading, rfl, fun v _ => (shown_nil memory elf v _).symm⟩
  | cons h rest ih =>
      by_cases loaded : h.isLoaded = true
      · have head : loadedOf (h :: rest) = h :: loadedOf rest := List.filter_cons_of_pos loaded
        have split : pagesOf (h :: rest) = h.pages ++ pagesOf rest := by
          unfold pagesOf
          rw [head, List.flatMap_cons]
        rw [split, List.append_assoc] at loading
        rw [head] at each
        obtain ⟨inPages, within⟩ := each h List.mem_cons_self
        obtain ⟨m₁, ran, left⟩ := @loadSection_spec frames seen (pagesOf rest ++ todo) u memory elf length h
          loading loaded inPages within start fits
        obtain ⟨m, later, loading', urp, bytes⟩ := @ih (h.pages.reverse ++ seen) ⟨m₁, u.live⟩ left.loading
          fun t member => each t (List.mem_cons_of_mem _ member)
        refine ⟨m, (bind_of_some ran).trans later, ?_, urp.trans left.urp, fun v small => ?_⟩
        · rw [split, List.reverse_append, List.append_assoc]
          exact loading'
        · rw [bytes v small, left.bytes v small, head, shown_cons]
      · have head : loadedOf (h :: rest) = loadedOf rest := List.filter_cons_of_neg loaded
        have same : pagesOf (h :: rest) = pagesOf rest := congrArg (List.flatMap SectionHeader.pages) head
        have skips : loadSection memory elf h u.mmu = some ((), u.mmu) := by
          unfold loadSection
          rw [if_neg loaded]
          rfl
        rw [same] at loading ⊢
        rw [head] at each ⊢
        obtain ⟨m, later, after⟩ := ih loading each
        exact ⟨m, (bind_of_some skips).trans later, after⟩

/-- Where a section has a page it has a byte. -/
theorem covered_of_page {page : Nat} (member : page ∈ h.pages) : ∃ w, h.Covers w ∧ w / pageSize = page := by
  obtain ⟨low, high⟩ := List.mem_range'_1.mp member
  unfold SectionHeader.pageCount at high
  unfold SectionHeader.Covers
  by_cases first : page = h.address / pageSize
  · refine ⟨h.address, ⟨Nat.le_refl _, ?_⟩, first.symm⟩
    unfold pageSize at *
    omega
  · refine ⟨page * pageSize, ?_, Nat.mul_div_cancel _ (by decide)⟩
    unfold pageSize at *
    omega

theorem page_of_covered (inPages : h.InPages) (covers : h.Covers v) : v / pageSize ∈ h.pages := by
  obtain ⟨low, high⟩ := covers
  have room : h.address % pageSize + h.size ≤ h.pageCount * pageSize := by
    cases kind : h.isNobits with
    | true => exact (inPages.zeros kind).resolve_left (by omega)
    | false =>
        obtain ⟨small, inPage⟩ := inPages.bits kind
        unfold SectionHeader.pageCount
        unfold pageSize at *
        omega
  refine List.mem_range'_1.mpr ?_
  unfold pageSize at *
  omega

/-- Later sections that want the same byte. -/
theorem shown_keeps {b : UInt8} (keeps : ∀ t ∈ hs, v / pageSize ∈ t.pages → t.byte memory elf v = b) :
    shown memory elf v hs (some b) = some b := by
  induction hs with
  | nil => rfl
  | cons h rest ih =>
      have later := ih fun t member => keeps t (List.mem_cons_of_mem _ member)
      rw [shown_cons]
      by_cases here : v / pageSize ∈ h.pages
      · rw [if_pos here, keeps h List.mem_cons_self here]
        exact later
      · rw [if_neg here]
        exact later

/-- The bytes of two sections in one page: the later section is the one with bytes, if any is. -/
def Ordered (s t : SectionHeader) : Prop :=
  s.isNobits = false → ∀ v w, s.Covers v → t.Covers w → v / pageSize ≠ w / pageSize

theorem shown_section (inPages : ∀ h ∈ hs, h.InPages)
    (disjoint : hs.Pairwise fun s t => ∀ v, ¬ (s.Covers v ∧ t.Covers v)) (ordered : hs.Pairwise Ordered)
    (member : s ∈ hs) (covers : s.Covers v) (before : Option UInt8) :
    shown memory elf v hs before = some (s.byte memory elf v) := by
  induction hs generalizing before with
  | nil => exact nomatch member
  | cons h rest ih =>
      obtain ⟨apart, disjoint'⟩ := List.pairwise_cons.mp disjoint
      obtain ⟨first, ordered'⟩ := List.pairwise_cons.mp ordered
      rw [shown_cons]
      rcases List.mem_cons.mp member with rfl | later
      · rw [if_pos (page_of_covered (inPages s List.mem_cons_self) covers)]
        refine shown_keeps fun t isLater page => ?_
        obtain ⟨w, covers', here⟩ := covered_of_page page
        cases kind : s.isNobits with
        | true =>
            have zero : s.byte memory elf v = 0 := if_neg fun both => by
              rw [kind] at both
              exact nomatch both.1
            have zero' : t.byte memory elf v = 0 := if_neg fun both => apart t isLater v ⟨covers, both.2⟩
            rw [zero, zero']
        | false => exact absurd here.symm (first t isLater kind v w covers covers')
      · exact ih (fun t isIn => inPages t (List.mem_cons_of_mem _ isIn)) disjoint' ordered' later _

end Sections

end TrollOS.Elf
