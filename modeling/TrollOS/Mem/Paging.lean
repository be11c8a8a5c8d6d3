import TrollOS.Mem.Accounting
import TrollOS.Mem.Backing
import TrollOS.Mem.Classes

/-!
# Private memory behind the page tables

As long as every page gets a frame, the heap on the kernel's pages runs exactly
as on memory in which no page is shared.
-/

namespace TrollOS.Mem

open TrollOS.Lib

namespace PagedMem

/-- Pages that all have a frame of their own; `zero` is what frame 0 holds. -/
def ofOwn (zero own : ByteMem) : PagedMem := ⟨own, zero, fun _ => false⟩

variable (zero own : ByteMem)

theorem store32_ofOwn (a v : Nat) : (ofOwn zero own).store32 a v = ofOwn zero (own.store32 a v) := by
  have bytes : Function.update (Function.update (Function.update (Function.update own a
      (UInt8.ofNat (v / 16777216))) (a + 1) (UInt8.ofNat (v / 65536))) (a + 2) (UInt8.ofNat (v / 256)))
      (a + 3) (UInt8.ofNat v) = own.store32 a v := by
    funext x
    unfold ByteMem.store32
    simp only [Function.update_apply]
    split_ifs <;> first | rfl | omega
  exact congrArg (ofOwn zero) bytes

theorem place_ofOwn {frame : Nat} (found : frame ≠ 0) (page : Nat) :
    (ofOwn zero own).place page frame = ofOwn zero (own.zero page mmuPageSize) := by
  unfold place
  rw [if_neg found]
  exact congrArg (PagedMem.mk _ zero) (Function.update_eq_self (page / mmuPageSize) fun _ => false)

theorem setSize_ofOwn (a v : Nat) : setSize (ofOwn zero own) a v = ofOwn zero (setSize own a v) :=
  store32_ofOwn zero own a v

theorem setNext_ofOwn (a v : Nat) : setNext (ofOwn zero own) a v = ofOwn zero (setNext own a v) :=
  store32_ofOwn zero own (a + 4) v

theorem nextOf_ofOwn (a : Nat) : nextOf (ofOwn zero own) a = nextOf own a := rfl

theorem memcpy_ofOwn (dest src n : Nat) (own : ByteMem) :
    memcpy (ofOwn zero own) dest src n = ofOwn zero (memcpy own dest src n) := by
  induction n generalizing own with
  | zero => rfl
  | succ n ih => exact ih _

theorem carve_ofOwn (header blockSize count : Nat) (tmp : Option Nat) (own : ByteMem) :
    Heap.carve (ofOwn zero own) header blockSize count tmp =
      (ofOwn zero (Heap.carve own header blockSize count tmp).1,
        (Heap.carve own header blockSize count tmp).2) := by
  induction count generalizing own tmp with
  | zero => rfl
  | succ count ih =>
      unfold Heap.carve
      cases tmp with
      | none => simp only [setSize_ofOwn, setNext_ofOwn, ih]
      | some block => simp only [nextOf_ofOwn, setSize_ofOwn, setNext_ofOwn, ih]

end PagedMem

open PagedMem

namespace Heap

variable {M : Type} (mmuAllocAt : M → Nat → Nat × M) (zero : ByteMem)

def paged (h : Heap ByteMem M) : Heap PagedMem M :=
  ⟨ofOwn zero h.mem, h.heapEnd, h.freelist, h.mallocUsedMem, h.mmu, h.mapped⟩

/-- Every page that was asked for has a frame. -/
def Framed {μ : Type} (h : Heap μ M) : Prop := ∀ e ∈ h.mapped, e.2 ≠ 0

theorem Framed.of_moved {h : Heap ByteMem M} {n : Nat} (framed : Framed { h with heapEnd := n }) : h.Framed :=
  framed

theorem deref_paged (h : Heap ByteMem M) (link : Link) : (h.paged zero).deref link = h.deref link := by
  cases link with
  | root list => rfl
  | next header => rfl

theorem assign_paged (h : Heap ByteMem M) (link : Link) (value : Nat) :
    (h.paged zero).assign link value = (h.assign link value).paged zero := by
  cases link with
  | root list => rfl
  | next header =>
      unfold assign paged
      dsimp only
      rw [setNext_ofOwn]

theorem push_paged (h : Heap ByteMem M) (list : Fin 5) (header : Nat) :
    (h.paged zero).push list header = (h.push list header).paged zero := by
  unfold push paged
  dsimp only
  rw [setNext_ofOwn]

theorem take_paged (h : Heap ByteMem M) (iter : Link) (size : Nat) :
    (h.paged zero).take iter size = ((h.take iter size).1, (h.take iter size).2.paged zero) := by
  unfold take
  simp only [deref_paged]
  have sized : sizeOf (h.paged zero).mem (h.deref iter) = sizeOf h.mem (h.deref iter) := rfl
  simp only [sized]
  split
  · refine Prod.ext rfl ?_
    rw [← assign_paged]
    unfold paged
    simp only [setSize_ofOwn, setNext_ofOwn, nextOf_ofOwn]
  · exact Prod.ext rfl (assign_paged zero h iter _)

theorem findFit_paged (h : Heap ByteMem M) (size fuel : Nat) (iter : Link) :
    (h.paged zero).findFit size fuel iter = h.findFit size fuel iter := by
  induction fuel generalizing iter with
  | zero => rfl
  | succ fuel ih =>
      unfold findFit
      simp only [deref_paged, ih]
      rfl

theorem splitQuick_paged (h : Heap ByteMem M) (list : Fin 5) (header : Nat) :
    (h.paged zero).splitQuick list header = (h.splitQuick list header).paged zero := by
  unfold splitQuick
  have sized : sizeOf (h.paged zero).mem header = sizeOf h.mem header := rfl
  have carved := carve_ofOwn zero header (8 <<< list.val)
    (u32 (sizeOf h.mem header + sizeofHeader) / (8 <<< list.val + sizeofHeader)) none h.mem
  simp only [sized]
  change prepend _ _ _ (carve (ofOwn zero h.mem) _ _ _ _) = _
  rw [carved]
  generalize carve h.mem header _ _ none = cut
  rcases cut with ⟨mem, tmp⟩
  cases tmp with
  | none => rfl
  | some last =>
      unfold prepend paged
      dsimp only
      rw [setNext_ofOwn]

theorem mergeScan_paged (h : Heap ByteMem M) (fuel : Nat) (iter : Link) (header : Nat) (merged : Bool) :
    (h.paged zero).mergeScan fuel iter header merged =
      (h.mergeScan fuel iter header merged).map fun r => (r.1.paged zero, r.2) := by
  induction fuel generalizing h iter header merged with
  | zero => rfl
  | succ fuel ih =>
      have lower : ∀ mem value, assign { h.paged zero with mem := ofOwn zero mem } iter value =
          (assign { h with mem := mem } iter value).paged zero := fun mem value =>
        assign_paged zero { h with mem := mem } iter value
      have sized : ∀ a, sizeOf (h.paged zero).mem a = sizeOf h.mem a := fun _ => rfl
      have stored : ∀ a v, setSize (h.paged zero).mem a v = ofOwn zero (setSize h.mem a v) :=
        setSize_ofOwn zero h.mem
      unfold mergeScan
      simp only [deref_paged, sized, stored, setNext_ofOwn, nextOf_ofOwn, lower]
      split
      · rfl
      · split
        · exact ih _ _ _ _
        · split
          · exact ih _ _ _ _
          · exact ih _ _ _ _

theorem kfree_paged (h : Heap ByteMem M) (ptr : Nat) :
    (h.paged zero).kfree ptr = (h.kfree ptr).map (paged zero) := by
  have sized : ∀ a, sizeOf (h.paged zero).mem a = sizeOf h.mem a := fun _ => rfl
  unfold kfree
  simp only [sized, push_paged, mergeScan_paged, Option.map_map]
  split
  · rfl
  · split
    · rfl
    · generalize mergeScan loopFuel h _ _ _ = scanned
      cases scanned with
      | none => rfl
      | some r =>
          obtain ⟨h', header, merged⟩ := r
          cases merged with
          | true => rfl
          | false => exact congrArg some (push_paged zero h' 4 header)

section System

variable {h h' : Heap ByteMem M}

theorem mapPages_sub (n page : Nat) (h : Heap ByteMem M) :
    h.mapped ⊆ (mapPages mmuAllocAt h page n).mapped := by
  induction n generalizing page h with
  | zero => exact List.Subset.refl _
  | succ n ih => exact List.Subset.trans (List.subset_append_left _ _) (ih _ (mapPage mmuAllocAt h page))

theorem mapPages_paged (n page : Nat) (h : Heap ByteMem M)
    (framed : (mapPages mmuAllocAt h page n).Framed) :
    mapPages mmuAllocAt (h.paged zero) page n = (mapPages mmuAllocAt h page n).paged zero := by
  induction n generalizing page h with
  | zero => rfl
  | succ n ih =>
      have found : (mmuAllocAt h.mmu page).1 ≠ 0 := by
        refine framed (page, _) (mapPages_sub mmuAllocAt n _ (mapPage mmuAllocAt h page) ?_)
        exact List.mem_append_right _ (List.mem_singleton.mpr rfl)
      have here : mapPage mmuAllocAt (h.paged zero) page = (mapPage mmuAllocAt h page).paged zero := by
        have own : (if (mmuAllocAt h.mmu page).1 = 0 then h.mem else h.mem.zero page mmuPageSize) =
            h.mem.zero page mmuPageSize := if_neg found
        unfold mapPage paged
        change Heap.mk ((ofOwn zero h.mem).place page (mmuAllocAt h.mmu page).1) _ _ _ _ _ =
          Heap.mk (ofOwn zero (if (mmuAllocAt h.mmu page).1 = 0 then h.mem
            else h.mem.zero page mmuPageSize)) _ _ _ _ _
        rw [place_ofOwn zero h.mem found, own]
      unfold mapPages
      rw [here]
      exact ih _ _ framed

theorem ksbrk_sub (h : Heap ByteMem M) (increment : Int) :
    h.mapped ⊆ (ksbrk mmuAllocAt h increment).2.mapped := by
  unfold ksbrk
  dsimp only
  split
  · exact mapPages_sub mmuAllocAt _ _ h
  · exact List.Subset.refl _

theorem moved_paged (h : Heap ByteMem M) (n : Nat) :
    { h.paged zero with heapEnd := n } = { h with heapEnd := n }.paged zero := rfl

theorem ksbrk_paged (h : Heap ByteMem M) (increment : Int)
    (framed : (ksbrk mmuAllocAt h increment).2.Framed) :
    ksbrk mmuAllocAt (h.paged zero) increment =
      ((ksbrk mmuAllocAt h increment).1, (ksbrk mmuAllocAt h increment).2.paged zero) := by
  have same : (h.paged zero).heapEnd = h.heapEnd := rfl
  unfold ksbrk at framed ⊢
  rw [same]
  dsimp only at framed ⊢
  generalize (((h.heapEnd : Int) + increment) % 4294967296).toNat = stop at framed ⊢
  generalize u32 (_ + 4294967296 - alignPage h.heapEnd) / mmuPageSize = pages at framed ⊢
  generalize alignPage h.heapEnd = start at framed ⊢
  split
  · rename_i grows
    rw [if_pos grows] at framed
    rw [mapPages_paged mmuAllocAt zero _ _ h framed.of_moved, moved_paged]
  · rw [moved_paged]

/-- The statistics that `getmore` keeps. -/
theorem counted_paged (h : Heap ByteMem M) (n : Nat) :
    { h.paged zero with mallocUsedMem := n } = { h with mallocUsedMem := n }.paged zero := rfl

theorem getmore_sub (h : Heap ByteMem M) (size : Nat) :
    h.mapped ⊆ (getmore mmuAllocAt h size).2.mapped := by
  unfold getmore
  dsimp only
  generalize alignPage (u32 (size + sizeofHeader)) = bytes
  have grown := ksbrk_sub mmuAllocAt { h with mallocUsedMem := u32 (h.mallocUsedMem + bytes) } (toInt32 bytes)
  split
  · exact grown
  · exact grown

theorem getmore_paged (h : Heap ByteMem M) (size : Nat) (framed : (getmore mmuAllocAt h size).2.Framed) :
    getmore mmuAllocAt (h.paged zero) size =
      ((getmore mmuAllocAt h size).1, (getmore mmuAllocAt h size).2.paged zero) := by
  have used : (h.paged zero).mallocUsedMem = h.mallocUsedMem := rfl
  unfold getmore at framed ⊢
  dsimp only at framed ⊢
  generalize alignPage (u32 (size + sizeofHeader)) = bytes at framed ⊢
  rw [used, counted_paged]
  have same := ksbrk_paged mmuAllocAt zero { h with mallocUsedMem := u32 (h.mallocUsedMem + bytes) }
    (toInt32 bytes) (by
      split at framed
      · exact fun e member => framed e member
      · exact fun e member => framed e member)
  rw [same]
  dsimp only
  split
  · rfl
  · unfold paged
    dsimp only
    rw [setSize_ofOwn]

/-- Only `getmore` maps pages, and it forgets none. -/
theorem kmallocLoop_sub {size fuel ptr : Nat} (call : kmallocLoop mmuAllocAt size fuel h = some (ptr, h')) :
    h.mapped ⊆ h'.mapped := by
  induction fuel generalizing h with
  | zero => exact nomatch call
  | succ fuel ih =>
      obtain ⟨iter, -, rest⟩ := Option.bind_eq_some_iff.mp call
      dsimp only at rest
      have more := getmore_sub mmuAllocAt h size
      split at rest
      · have taken := (take_system h iter size).mapped
        rw [Option.some.inj rest] at taken
        rw [taken]
        exact List.Subset.refl _
      · split at rest
        · obtain ⟨-, rfl⟩ := Prod.mk.inj (Option.some.inj rest)
          exact more
        · split at rest
          · have later := ih rest
            rw [(splitQuick_system _ _ _).mapped] at later
            exact List.Subset.trans more later
          · obtain ⟨h₁, freed, later⟩ := Option.bind_eq_some_iff.mp rest
            have last := ih later
            rw [(kfree_system freed).mapped] at last
            exact List.Subset.trans more last

theorem kmallocLoop_paged {size fuel ptr : Nat}
    (call : kmallocLoop mmuAllocAt size fuel h = some (ptr, h')) (framed : h'.Framed) :
    kmallocLoop mmuAllocAt size fuel (h.paged zero) = some (ptr, h'.paged zero) := by
  induction fuel generalizing h with
  | zero => exact nomatch call
  | succ fuel ih =>
      obtain ⟨iter, scan, rest⟩ := Option.bind_eq_some_iff.mp call
      unfold kmallocLoop
      dsimp only at rest ⊢
      rw [findFit_paged, scan, Option.bind_some, deref_paged, take_paged]
      split at rest
      · rename_i found
        rw [if_pos found, Option.some.inj rest]
      · rename_i missing
        rw [if_neg missing]
        have before : (getmore mmuAllocAt h size).2.Framed := by
          refine fun e member => framed e ?_
          split at rest
          · obtain ⟨-, rfl⟩ := Prod.mk.inj (Option.some.inj rest)
            exact member
          · split at rest
            · have later := kmallocLoop_sub mmuAllocAt rest
              rw [(splitQuick_system _ _ _).mapped] at later
              exact later member
            · obtain ⟨h₁, freed, later⟩ := Option.bind_eq_some_iff.mp rest
              have last := kmallocLoop_sub mmuAllocAt later
              rw [(kfree_system freed).mapped] at last
              exact last member
        rw [getmore_paged mmuAllocAt zero h size before]
        dsimp only
        split at rest
        · rename_i null
          obtain ⟨rfl, rfl⟩ := Prod.mk.inj (Option.some.inj rest)
          rw [if_pos null]
        · rename_i header
          rw [if_neg header]
          split at rest
          · rename_i quick
            rw [if_pos quick, splitQuick_paged]
            exact ih rest
          · rename_i large
            obtain ⟨h₁, freed, later⟩ := Option.bind_eq_some_iff.mp rest
            rw [if_neg large, kfree_paged, freed]
            exact ih later

theorem kmalloc_paged {size ptr : Nat} (call : h.kmalloc mmuAllocAt size = some (ptr, h'))
    (framed : h'.Framed) : (h.paged zero).kmalloc mmuAllocAt size = some (ptr, h'.paged zero) := by
  unfold kmalloc at call ⊢
  split at call
  · rename_i none
    obtain ⟨rfl, rfl⟩ := Prod.mk.inj (Option.some.inj call)
    rw [if_pos none]
  · rename_i some
    rw [if_neg some]
    exact kmallocLoop_paged mmuAllocAt zero call framed

theorem copied_paged (h : Heap ByteMem M) (dest src n : Nat) :
    (dest, { h.paged zero with mem := memcpy (h.paged zero).mem dest src n }) =
      (dest, { h with mem := memcpy h.mem dest src n }.paged zero) := by
  have copied : memcpy (h.paged zero).mem dest src n = ofOwn zero (memcpy h.mem dest src n) :=
    memcpy_ofOwn zero dest src n h.mem
  rw [copied]
  rfl

theorem copyToNew_paged {ptr size tmp : Nat} (copy : h.copyToNew mmuAllocAt ptr size = some (tmp, h'))
    (framed : h'.Framed) :
    (h.paged zero).copyToNew mmuAllocAt ptr size = some (tmp, h'.paged zero) := by
  obtain ⟨⟨p, h₁⟩, malloc, result⟩ := Option.map_eq_some_iff.mp copy
  obtain ⟨rfl, rfl⟩ := Prod.mk.inj result
  unfold copyToNew
  rw [kmalloc_paged mmuAllocAt zero malloc fun e member => framed e member, Option.map_some]
  dsimp only
  generalize u32 _ = header
  have sized : sizeOf (h₁.paged zero).mem header = sizeOf h₁.mem header := rfl
  rw [sized]
  generalize min _ size = n
  exact congrArg some (copied_paged zero h₁ p ptr n)

theorem krealloc_paged {old size ptr : Nat} (call : h.krealloc mmuAllocAt old size = some (ptr, h'))
    (framed : h'.Framed) : (h.paged zero).krealloc mmuAllocAt old size = some (ptr, h'.paged zero) := by
  by_cases null : old = 0
  · unfold krealloc at call ⊢
    rw [if_pos null] at call ⊢
    exact kmalloc_paged mmuAllocAt zero call framed
  · by_cases none : size = 0
    · unfold krealloc at call ⊢
      rw [if_neg null, if_pos none] at call ⊢
      obtain ⟨h₁, freed, result⟩ := Option.map_eq_some_iff.mp call
      obtain ⟨rfl, rfl⟩ := Prod.mk.inj result
      rw [kfree_paged, freed]
      rfl
    · rw [krealloc_eq mmuAllocAt _ null none] at call ⊢
      obtain ⟨⟨tmp, h₁⟩, copy, rest⟩ := Option.bind_eq_some_iff.mp call
      obtain ⟨h₂, freed, result⟩ := Option.map_eq_some_iff.mp rest
      obtain ⟨rfl, rfl⟩ := Prod.mk.inj result
      have before : h₁.Framed := fun e member => framed e (by rwa [(kfree_system freed).mapped])
      rw [copyToNew_paged mmuAllocAt zero copy before, Option.bind_some]
      dsimp only
      rw [kfree_paged, freed]
      rfl

/-- Pages that get a frame each. -/
theorem mapPages_framed {n page : Nat} (framed : h.Framed) (frames : FramesFor mmuAllocAt h.mmu page n) :
    (mapPages mmuAllocAt h page n).Framed := by
  induction n generalizing page h with
  | zero => exact framed
  | succ n ih =>
      obtain ⟨found, rest⟩ := frames
      refine @ih (mapPage mmuAllocAt h page) (u32 (page + mmuPageSize)) (fun e member => ?_) rest
      rcases List.mem_append.mp member with old | new
      · exact framed e old
      · rw [List.mem_singleton.mp new]
        exact found

theorem framed_kept : KeptBySystem mmuAllocAt Framed where
  same same framed e member := framed e (by rwa [← same.mapped])
  grow {h size} fits frames framed := by
    let counted : Heap ByteMem M := { h with mallocUsedMem := u32 (h.mallocUsedMem + request size) }
    have before : counted.Framed := fun e member => framed e member
    intro e member
    rw [(h.getmore_system mmuAllocAt fits).2] at member
    exact mapPages_framed mmuAllocAt before frames e member

end System

end Heap

/-! ## Runs -/

namespace Session

variable {M : Type} {mmuAllocAt : M → Nat → Nat × M} {base : Nat}

def paged (zero : ByteMem) (s : Session ByteMem M) : Session PagedMem M :=
  ⟨s.heap.paged zero, s.live, s.slack⟩

variable {zero : ByteMem} {s t : Session ByteMem M} {L : Layout} {c : Call}

theorem moreFits_paged (zero : ByteMem) (size : Nat) :
    (s.heap.paged zero).MoreFits size ↔ s.heap.MoreFits size := by
  unfold Heap.MoreFits
  simp only [Heap.findFit_paged, Heap.deref_paged]
  rfl

theorem moreFrames_paged {size : Nat} (more : (s.heap.paged zero).MoreFrames mmuAllocAt size) :
    s.heap.MoreFrames mmuAllocAt size :=
  fun iter scan empty => more iter ((Heap.findFit_paged zero s.heap _ _ _).trans scan)
    ((Heap.deref_paged zero s.heap iter).trans empty)

theorem valid_paged (zero : ByteMem) : (s.paged zero).Valid c ↔ s.Valid c := by
  cases c with
  | kmalloc size => exact imp_congr_right fun _ => moreFits_paged zero size
  | kfree ptr => rfl
  | krealloc ptr size => exact and_congr_right fun _ => imp_congr_right fun _ => moreFits_paged zero size

theorem granted_paged (granted : (s.paged zero).Granted mmuAllocAt c) : s.Granted mmuAllocAt c := by
  cases c with
  | kmalloc size => exact fun pos => moreFrames_paged (granted pos)
  | kfree ptr => trivial
  | krealloc ptr size => exact fun pos => moreFrames_paged (granted pos)

theorem exec_paged {ptr : Nat} (ran : s.exec mmuAllocAt c = some (ptr, t)) (framed : t.heap.Framed) :
    (s.paged zero).exec mmuAllocAt c = some (ptr, t.paged zero) := by
  cases c with
  | kmalloc size =>
      obtain ⟨⟨p, h'⟩, call, result⟩ := Option.map_eq_some_iff.mp ran
      obtain ⟨rfl, rfl⟩ := Prod.mk.inj result
      exact Option.map_eq_some_iff.mpr ⟨_, Heap.kmalloc_paged mmuAllocAt zero call framed, rfl⟩
  | kfree old =>
      obtain ⟨h', call, result⟩ := Option.map_eq_some_iff.mp ran
      obtain ⟨rfl, rfl⟩ := Prod.mk.inj result
      have freed := Heap.kfree_paged zero s.heap old
      rw [call] at freed
      exact Option.map_eq_some_iff.mpr ⟨_, freed, rfl⟩
  | krealloc old size =>
      obtain ⟨⟨p, h'⟩, call, result⟩ := Option.map_eq_some_iff.mp ran
      obtain ⟨rfl, rfl⟩ := Prod.mk.inj result
      exact Option.map_eq_some_iff.mpr ⟨_, Heap.krealloc_paged mmuAllocAt zero call framed, rfl⟩

/-- A granted call on the kernel's pages does what it does on private memory. -/
theorem exec_private (tracks : Tracks base s L) (framed : s.heap.Framed) (valid : (s.paged zero).Valid c)
    (granted : (s.paged zero).Granted mmuAllocAt c) :
    ∃ ptr t L', s.exec mmuAllocAt c = some (ptr, t) ∧ t.heap.Framed ∧
      (s.paged zero).exec mmuAllocAt c = some (ptr, t.paged zero) ∧
        Outcome mmuAllocAt base s L c ptr t L' := by
  obtain ⟨ptr, t, L', ran, outcome⟩ := exec_valid tracks ((valid_paged zero).mp valid)
  have after : t.heap.Framed := exec_kept (Heap.framed_kept mmuAllocAt) tracks framed
    ((valid_paged zero).mp valid) (granted_paged granted) ran
  exact ⟨ptr, t, L', ran, after, exec_paged ran after, outcome⟩

/-- A run on the kernel's pages in which every page gets a frame is a run on private memory. -/
theorem Permitted.onPrivate {permits : Session PagedMem M → Call → Prop}
    {permits' : Session ByteMem M → Call → Prop} {p : Session PagedMem M}
    (run : Permitted mmuAllocAt (fun s c => s.Granted mmuAllocAt c ∧ permits s c) base p)
    (agree : ∀ zero (s : Session ByteMem M) L c, Tracks base s L → s.heap.Framed → s.Valid c →
      s.Granted mmuAllocAt c → permits (s.paged zero) c → permits' s c) :
    ∃ zero s, p = s.paged zero ∧ s.heap.Framed ∧ Permitted mmuAllocAt permits' base s := by
  induction run with
  | @start p init =>
      obtain ⟨⟨mem, heapEnd, freelist, used, mmu, mapped⟩, live, slack⟩ := p
      have none : mem.onZero = fun _ => false := funext init.private'
      have pages : mem = ofOwn mem.frameZero mem.own := by
        unfold ofOwn
        rw [← none]
      refine ⟨mem.frameZero, ⟨⟨mem.own, heapEnd, freelist, used, mmu, mapped⟩, live, slack⟩, ?_, ?_, .start ?_⟩
      · unfold paged Heap.paged
        dsimp only
        rw [← pages]
      · intro e member
        rw [show mapped = [] from init.mapped] at member
        exact nomatch member
      · exact ⟨trivial, init.mapped, init.lists, init.heapEnd, init.live, init.slack, init.nonnull,
          init.small, init.aligned⟩
  | @call p q c ptr run valid permitted ran ih =>
      obtain ⟨zero, s, rfl, framed, flat⟩ := ih
      obtain ⟨L, tracks⟩ := flat.tracks
      obtain ⟨ptr', t, L', ran', after, same, -⟩ := exec_private tracks framed valid permitted.1
      rw [ran] at same
      obtain ⟨rfl, rfl⟩ := Prod.mk.inj (Option.some.inj same)
      have valid' := (valid_paged zero).mp valid
      exact ⟨zero, t, rfl, after, .call flat valid' (agree zero s L c tracks framed valid'
        (granted_paged permitted.1) permitted.2) ran'⟩
  | write b run owned inside ih =>
      obtain ⟨zero, s, rfl, framed, flat⟩ := ih
      exact ⟨zero, s.write _ b, rfl, framed, .write b flat owned inside⟩

end Session

end TrollOS.Mem
