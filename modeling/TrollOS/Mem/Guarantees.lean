import TrollOS.Mem.Paging

/-!
# What the heap guarantees

The results over whole runs, on the kernel's pages.  All of them need a frame
for every page that is asked for: `ksbrk` does not look at what `mmu_alloc_at`
returns, and pages without a frame overlay each other.
-/

namespace TrollOS.Mem

open TrollOS.Lib PagedMem

/-- A mapper that always finds a frame. -/
def everyPage : Unit → Nat → Nat × Unit := fun mmu page => (page + mmuPageSize, mmu)

theorem framesFor_everyPage (mmu : Unit) (page n : Nat) : FramesFor everyPage mmu page n := by
  induction n generalizing page with
  | zero => trivial
  | succ n ih => exact ⟨Nat.succ_ne_zero _, ih _⟩

/-- A mapper with a number of free frames, the next of them at the address of the page. -/
def countedPages : Nat → Nat → Nat × Nat
  | 0, _ => (0, 0)
  | free + 1, page => (page, free)

def zeroed : ByteMem := fun _ => 0

namespace Session

def emptySession : Session ByteMem Unit := ⟨⟨zeroed, 3221291008, fun _ => 0, 0, (), []⟩, [], []⟩

theorem emptySession_initial : Initial 3221291008 emptySession :=
  ⟨trivial, rfl, fun _ => rfl, rfl, rfl, rfl, by decide, by decide, by decide⟩

/-- A session on private memory whose run could be made on the kernel's pages. -/
structure OnPages (permits : Session PagedMem Unit → Call → Prop) (base : Nat) (s : Session ByteMem Unit) :
    Prop where
  run : Permitted everyPage permits base (s.paged zeroed)
  tracks : ∃ L, Tracks base s L
  framed : s.heap.Framed

section OnPages

variable {permits : Session PagedMem Unit → Call → Prop} {base : Nat} {s : Session ByteMem Unit}

theorem granted_everyPage {μ : Type} [HeapMemory μ] (s : Session μ Unit) (c : Call) :
    s.Granted everyPage c := by
  cases c with
  | kmalloc size => exact fun _ _ _ _ => framesFor_everyPage _ _ _
  | kfree ptr => trivial
  | krealloc ptr size => exact fun _ _ _ _ => framesFor_everyPage _ _ _

theorem OnPages.start (init : Initial base s) : OnPages permits base s where
  run := .start ⟨fun _ => rfl, init.mapped, init.lists, init.heapEnd, init.live, init.slack,
    init.nonnull, init.small, init.aligned⟩
  tracks := init.tracks.imp fun _ tracks => tracks.1
  framed e member := by
    rw [init.mapped] at member
    exact nomatch member

theorem OnPages.after (on : OnPages permits base s) {c : Call} (valid : s.Valid c)
    (permitted : permits (s.paged zeroed) c) : OnPages permits base (s.after everyPage c) := by
  obtain ⟨run, ⟨L, tracks⟩, framed⟩ := on
  have onPages := (valid_paged zeroed).mpr valid
  obtain ⟨ptr, t, L', ran, framed', same, outcome⟩ :=
    exec_private tracks framed onPages (granted_everyPage _ c)
  have reached : s.after everyPage c = t := by
    unfold Session.after
    rw [ran]
    rfl
  rw [reached]
  exact ⟨.call run onPages permitted same, ⟨L', outcome.tracks⟩, framed'⟩

theorem OnPages.returns (on : OnPages permits base s) {c : Call} (valid : s.Valid c) :
    ∃ ptr t, s.exec everyPage c = some (ptr, t) ∧ s.after everyPage c = t := by
  obtain ⟨-, ⟨L, tracks⟩, -⟩ := on
  obtain ⟨ptr, t, -, ran, -⟩ := @exec_valid Unit everyPage _ _ _ tracks _ valid
  refine ⟨ptr, t, ran, ?_⟩
  unfold Session.after
  rw [ran]
  rfl

end OnPages

/-- An empty heap on the kernel's pages with so many free frames. -/
def countedSession (free : Nat) : Session PagedMem Nat :=
  ⟨⟨ofOwn zeroed zeroed, 3221291008, fun _ => 0, 0, free, []⟩, [], []⟩

theorem countedSession_initial (free : Nat) : Initial 3221291008 (countedSession free) :=
  ⟨fun _ => rfl, rfl, fun _ => rfl, rfl, rfl, rfl, by decide, by decide, by decide⟩

variable {M : Type} {mmuAllocAt : M → Nat → Nat × M} {base : Nat}

/-- A run goes on with a call that returns. -/
theorem Permitted.after {permits : Session PagedMem M → Call → Prop} {s : Session PagedMem M} {c : Call}
    (run : Permitted mmuAllocAt permits base s) (valid : s.Valid c) (permitted : permits s c)
    (returns : (s.exec mmuAllocAt c).isSome = true) :
    Permitted mmuAllocAt permits base (s.after mmuAllocAt c) := by
  obtain ⟨⟨ptr, t⟩, ran⟩ := Option.isSome_iff_exists.mp returns
  have reached : s.after mmuAllocAt c = t := by
    unfold Session.after
    rw [ran]
    rfl
  rw [reached]
  exact .call run valid permitted ran

def oneAllocated : Session PagedMem Nat := (countedSession 2).after countedPages (.kmalloc 100)

theorem oneAllocated_run : Permitted countedPages (Granted countedPages) 3221291008 oneAllocated := by
  refine Permitted.after (.start (countedSession_initial 2)) (valid_kmalloc ⟨by decide, by decide⟩) ?_
    (by decide +kernel)
  intro _ _ _ _
  exact ⟨by decide, trivial⟩

theorem oneAllocated_system : oneAllocated.heap.heapEnd = 3221295104 ∧ oneAllocated.heap.mmu = 1 := by
  decide +kernel

theorem oneAllocated_valid : oneAllocated.Valid (.kmalloc 4088) := by
  apply valid_kmalloc
  rw [oneAllocated_system.1]
  exact ⟨by decide, by decide⟩

theorem oneAllocated_granted : oneAllocated.Granted countedPages (.kmalloc 4088) := by
  intro _ _ _ _
  rw [oneAllocated_system.1, oneAllocated_system.2]
  exact ⟨by decide, trivial⟩

section Granted

variable {s : Session PagedMem M}

/-- A run of granted calls. -/
theorem onPrivate_granted (run : Permitted mmuAllocAt (Granted mmuAllocAt) base s) :
    ∃ zero t, s = paged zero t ∧ t.heap.Framed ∧ Permitted mmuAllocAt (Granted mmuAllocAt) base t := by
  have padded : Permitted mmuAllocAt (fun s c => s.Granted mmuAllocAt c ∧ True) base s := by
    induction run with
    | start init => exact .start init
    | call run valid granted ran ih => exact .call ih valid ⟨granted, trivial⟩ ran
    | write b run owned inside ih => exact .write b ih owned inside
  exact padded.onPrivate fun zero t L c tracks framed valid granted _ => granted

/-- Heap safety: while every page gets a frame, every state of every run is safe, every
valid call returns, and payloads only change where their owners or `krealloc` write them. -/
theorem heap_safety (run : Permitted mmuAllocAt (Granted mmuAllocAt) base s) :
    (∃ free, Safe base s free) ∧
      ∀ c, s.Valid c → s.Granted mmuAllocAt c →
        ∃ ptr t, s.exec mmuAllocAt c = some (ptr, t) ∧ Payloads s c ptr t := by
  obtain ⟨zero, t, rfl, framed, flat⟩ := onPrivate_granted run
  obtain ⟨L, tracks⟩ := flat.tracks
  have safe := tracks.safe
  refine ⟨⟨_, safe.lists, safe.duplicateFree, safe.notLive, safe.aligned, safe.inside, safe.disjoint,
    safe.enough⟩, fun c valid granted => ?_⟩
  obtain ⟨ptr, u, L', -, -, same, outcome⟩ := exec_private tracks framed valid granted
  exact ⟨ptr, u.paged zero, same, outcome.payloads.kept, outcome.payloads.copied⟩

theorem heap_safety_after_kmalloc : (∃ free, Safe 3221291008 oneAllocated free) ∧
    ∃ ptr t, oneAllocated.exec countedPages (.kmalloc 4088) = some (ptr, t) ∧
      Payloads oneAllocated (.kmalloc 4088) ptr t := by
  obtain ⟨safe, calls⟩ := heap_safety oneAllocated_run
  exact ⟨safe, calls (.kmalloc 4088) oneAllocated_valid oneAllocated_granted⟩

/-- After one allocation of two pages for which there was no frame. -/
def overlaid : Session PagedMem Nat := (countedSession 0).after countedPages (.kmalloc 4092)

/-- The header of the remainder lies on that of the block, and the free list leaves the heap. -/
theorem pages_overlay : ¬ ∀ s : Session PagedMem Nat, Reachable countedPages 3221291008 s →
    ∃ free, Safe 3221291008 s free := by
  intro claim
  have reach : Reachable countedPages 3221291008 overlaid :=
    Permitted.after (.start (countedSession_initial 0)) (valid_kmalloc ⟨by decide, by decide⟩) trivial
      (by decide +kernel)
  obtain ⟨free, safe⟩ := claim overlaid reach
  have chain : Chain (nextOf overlaid.heap.mem) (overlaid.heap.freelist 4) [3221295108, 4084] := by
    decide +kernel
  have listed : 4084 ∈ overlaid.headers free := by
    refine List.mem_append_right _ (List.mem_flatMap.mpr ⟨4, List.mem_finRange 4, ?_⟩)
    rw [(safe.lists 4).unique chain]
    exact List.mem_cons_of_mem _ List.mem_cons_self
  exact absurd (safe.inside 4084 listed).1 (by decide)

/-- As long as no request wraps and the mapper has a frame for every page, `kmalloc` returns,
and returns null or memory of the heap on mapped pages, and no call moves the heap end back. -/
theorem kmalloc_honest (run : Permitted mmuAllocAt (Granted mmuAllocAt) base s) :
    (∀ size, s.Valid (.kmalloc size) → s.Granted mmuAllocAt (.kmalloc size) →
      ∃ ptr h', s.heap.kmalloc mmuAllocAt size = some (ptr, h') ∧ s.heap.Honest base size ptr h') ∧
      ∀ c ptr t, s.Valid c → s.Granted mmuAllocAt c → s.exec mmuAllocAt c = some (ptr, t) →
        s.heap.heapEnd ≤ t.heap.heapEnd := by
  obtain ⟨zero, t, rfl, framed, flat⟩ := onPrivate_granted run
  obtain ⟨L, tracks⟩ := flat.tracks
  constructor
  · intro size valid granted
    obtain ⟨ptr, h', call, honest⟩ := exec_honest flat ((valid_paged zero).mp valid) (granted_paged granted)
    obtain ⟨ptr', u, L', ran, after, -⟩ := exec_private tracks framed valid granted
    obtain ⟨⟨p, h₁⟩, malloc, result⟩ := Option.map_eq_some_iff.mp ran
    rw [call] at malloc
    obtain ⟨rfl, rfl⟩ := Prod.mk.inj (Option.some.inj malloc)
    obtain ⟨-, rfl⟩ := Prod.mk.inj result
    exact ⟨ptr, h'.paged zero, Heap.kmalloc_paged mmuAllocAt zero call after, honest⟩
  · intro c ptr u valid granted ran
    obtain ⟨ptr', t', L', flatRan, -, same, -⟩ := exec_private tracks framed valid granted
    rw [ran] at same
    obtain ⟨-, rfl⟩ := Prod.mk.inj (Option.some.inj same)
    exact exec_kept (end_kept _) tracks (Nat.le_refl _) ((valid_paged zero).mp valid) (granted_paged granted) flatRan

theorem kmalloc_honest_again :
    (∃ ptr h', oneAllocated.heap.kmalloc countedPages 4088 = some (ptr, h') ∧
        oneAllocated.heap.Honest 3221291008 4088 ptr h') ∧
      ∀ ptr t, oneAllocated.exec countedPages (.kmalloc 4088) = some (ptr, t) →
        oneAllocated.heap.heapEnd ≤ t.heap.heapEnd := by
  obtain ⟨honest, grows⟩ := kmalloc_honest oneAllocated_run
  exact ⟨honest 4088 oneAllocated_valid oneAllocated_granted,
    fun ptr t ran => grows _ ptr t oneAllocated_valid oneAllocated_granted ran⟩

/-- Without a free frame `kmalloc` returns memory on a page that has got none. -/
theorem kmalloc_unmapped : ¬ ∀ s : Session PagedMem Nat, Reachable countedPages 3221291008 s →
    ∀ size, size < 4294967296 → ∃ ptr h', s.heap.kmalloc countedPages size = some (ptr, h') ∧
      s.heap.Honest 3221291008 size ptr h' ∧ s.heap.heapEnd ≤ h'.heapEnd := by
  intro claim
  obtain ⟨ptr, h', call, honest, -⟩ := claim (countedSession 0) (.start (countedSession_initial 0))
    100 (by decide)
  have known : ((countedSession 0).heap.kmalloc countedPages 100).map
      (fun r => (r.1, r.2.mapped)) = some (3221291016, [(3221291008, 0)]) := by
    decide +kernel
  rw [call] at known
  obtain ⟨ptrEq, mapped⟩ := Prod.mk.inj (Option.some.inj known)
  dsimp only at ptrEq mapped
  rw [ptrEq] at honest
  rcases honest with ⟨null, -⟩ | ⟨-, -, all⟩
  · exact absurd null (by decide)
  · rcases all 3221291016 (Nat.le_refl _) (by decide) with early | ⟨frame, nonzero, member⟩
    · exact absurd early (by decide)
    · rw [mapped, List.mem_singleton] at member
      exact nonzero (Prod.mk.inj member).2

end Granted

section Accounting

variable {s : Session PagedMem M}

theorem freesInOrder_paged {zero : ByteMem} {t : Session ByteMem M} {L : Layout} {c : Call}
    (tracks : Tracks base t L) (framed : t.heap.Framed) (valid : t.Valid c)
    (granted : t.Granted mmuAllocAt c) (inOrder : (t.paged zero).FreesInOrder mmuAllocAt c) :
    t.FreesInOrder mmuAllocAt c := by
  cases c with
  | kmalloc size => trivial
  | kfree ptr => exact inOrder
  | krealloc ptr size =>
      unfold FreesInOrder at inOrder ⊢
      dsimp only at inOrder ⊢
      split
      · rename_i none
        rw [if_pos none] at inOrder
        exact inOrder
      · rename_i some
        rw [if_neg some] at inOrder
        intro tmp h copy
        obtain ⟨h₁, malloc, same⟩ := copyToNew_system copy
        have before := kmalloc_kept (Heap.framed_kept mmuAllocAt) tracks.rep (Nat.pos_of_ne_zero some)
          (valid.2 some) (granted some) framed malloc
        have after : h.Framed := (Heap.framed_kept mmuAllocAt).same same before
        exact inOrder tmp (h.paged zero) (Heap.copyToNew_paged mmuAllocAt zero copy after)

theorem accounted_paged {zero : ByteMem} {t : Session ByteMem M} {free : Fin 5 → List Nat} :
    Accounted base (t.paged zero) free ↔ Accounted base t free :=
  ⟨fun accounted => ⟨accounted.lists, accounted.bytes⟩, fun accounted => ⟨accounted.lists, accounted.bytes⟩⟩

/-- While every page gets a frame, no byte is lost in a run whose `kfree` calls drop no lower
neighbour, and a `kfree` of a large block is exact if and only if it drops none. -/
theorem heap_accounting
    (run : Permitted mmuAllocAt (fun s c => s.Granted mmuAllocAt c ∧ s.FreesInOrder mmuAllocAt c) base s) :
    (∃ free, Accounted base s free) ∧
      ∀ ptr, s.Valid (.kfree ptr) → 64 < s.heap.blockSize ptr →
        ∃ t, s.exec mmuAllocAt (.kfree ptr) = some (0, t) ∧
          (KfreeExact s ptr t ↔ ¬ s.heap.DropsLower ptr) := by
  obtain ⟨zero, t, rfl, framed, flat⟩ := run.onPrivate fun zero t L c tracks framed valid granted inOrder =>
    freesInOrder_paged tracks framed valid granted inOrder
  obtain ⟨L, tracks, none⟩ := tracks_of_ordered flat
  refine ⟨⟨_, accounted_paged.mpr (tracks.accounted none)⟩, fun ptr valid large => ?_⟩
  obtain ⟨u, ran, exact'⟩ := @kfree_exact_iff M mmuAllocAt base t L tracks ptr valid large
  have after : u.heap.Framed :=
    @exec_kept M mmuAllocAt base t u L _ (Heap.framed_kept mmuAllocAt) tracks framed (.kfree ptr) valid
      trivial 0 ran
  refine ⟨u.paged zero, exec_paged ran after, ?_⟩
  exact Iff.trans ⟨fun exact => ⟨exact.grows⟩, fun exact => ⟨exact.grows⟩⟩ exact'

def twoBlocks : Session ByteMem Unit :=
  (emptySession.after everyPage (.kmalloc 100)).after everyPage (.kmalloc 20)

theorem heap_accounting_twoBlocks : (∃ free, Accounted 3221291008 (twoBlocks.paged zeroed) free) ∧
    ∀ ptr, (twoBlocks.paged zeroed).Valid (.kfree ptr) →
      64 < (twoBlocks.paged zeroed).heap.blockSize ptr →
        ∃ t, (twoBlocks.paged zeroed).exec everyPage (.kfree ptr) = some (0, t) ∧
          (KfreeExact (twoBlocks.paged zeroed) ptr t ↔ ¬ (twoBlocks.paged zeroed).heap.DropsLower ptr) := by
  have first : OnPages (fun s c => s.Granted everyPage c ∧ s.FreesInOrder everyPage c) 3221291008
      (emptySession.after everyPage (.kmalloc 100)) :=
    (OnPages.start emptySession_initial).after (valid_kmalloc ⟨by decide, by decide⟩)
      ⟨granted_everyPage _ _, trivial⟩
  have fits : Fits (emptySession.after everyPage (.kmalloc 100)).heap.heapEnd 20 :=
    ⟨by decide, by decide +kernel⟩
  have second := @OnPages.after _ _ _ first (.kmalloc 20) (valid_kmalloc fits)
    ⟨granted_everyPage _ _, trivial⟩
  exact heap_accounting second.run

/-- Four blocks `A`, `B`, `C`, `D` side by side, freed in the order `A`, `C`, `B`. -/
def middleLast : Session ByteMem Unit :=
  [Call.kmalloc 100, .kmalloc 100, .kmalloc 100, .kmalloc 100, .kfree 3221291016,
    .kfree 3221291232, .kfree 3221291124].foldl (Session.after everyPage) emptySession

theorem middleLast_onPages : OnPages (fun _ _ => True) 3221291008 middleLast := by
  have grow : ∀ {s : Session ByteMem Unit}, OnPages (fun _ _ => True) 3221291008 s →
      s.heap.heapEnd ≤ 3221295104 →
      OnPages (fun _ _ => True) 3221291008 (s.after everyPage (.kmalloc 100)) := fun on low =>
    on.after (valid_kmalloc ⟨by decide, by
      have more : request 100 = 4096 := by decide
      omega⟩) trivial
  have r₁ := grow (.start emptySession_initial) (by decide +kernel)
  have r₂ := grow r₁ (by decide +kernel)
  have r₃ := grow r₂ (by decide +kernel)
  have r₄ := grow r₃ (by decide +kernel)
  have r₅ := @OnPages.after _ _ _ r₄ (.kfree 3221291016) (show _ ∈ List.map _ _ by decide +kernel) trivial
  have r₆ := @OnPages.after _ _ _ r₅ (.kfree 3221291232) (show _ ∈ List.map _ _ by decide +kernel) trivial
  exact @OnPages.after _ _ _ r₆ (.kfree 3221291124) (show _ ∈ List.map _ _ by decide +kernel) trivial

/-- The first byte of `A` is in no live block, no listed block and no tail. -/
theorem lower_neighbour_lost :
    ¬ ∀ s : Session PagedMem Unit, Reachable everyPage 3221291008 s →
      ∃ free, Accounted 3221291008 s free := by
  intro claim
  obtain ⟨free, onPages⟩ := claim (middleLast.paged zeroed) middleLast_onPages.run
  obtain ⟨lists, bytes⟩ := accounted_paged.mp onPages
  have small : ∀ l : Fin 5, l ≠ 4 →
      Chain (nextOf middleLast.heap.mem) (middleLast.heap.freelist l) [] := by decide +kernel
  have large : Chain (nextOf middleLast.heap.mem) (middleLast.heap.freelist 4)
      [3221291116, 3221291440] := by decide +kernel
  have known : free = fun l => if l = 4 then [3221291116, 3221291440] else [] := by
    funext l
    by_cases same : l = 4
    · rw [same, if_pos rfl]
      exact (lists 4).unique large
    · rw [if_neg same]
      exact (lists l).unique (small l same)
  have once := bytes 3221291008
  rw [known] at once
  revert once
  decide +kernel

end Accounting

section Classes

variable {s : Session PagedMem M}

/-- While every page gets a frame, in a run that splits no block of a quick list these lists hold
blocks of their own class, and the next allocation keeps it so exactly when it splits none. -/
theorem quick_lists_classed
    (run : Permitted mmuAllocAt (fun s c => s.Granted mmuAllocAt c ∧ s.Unsplit c) base s) :
    (∃ free, QuickLists s free) ∧
      ∀ size ptr t, size ≠ 0 → s.Valid (.kmalloc size) → s.Granted mmuAllocAt (.kmalloc size) →
        s.exec mmuAllocAt (.kmalloc size) = some (ptr, t) →
          (t.heap.Classed ↔ ¬ s.heap.SplitsQuick size) := by
  have unsplit_paged : ∀ zero (t : Session ByteMem M) L c, Tracks base t L → t.heap.Framed → t.Valid c →
      t.Granted mmuAllocAt c → (t.paged zero).Unsplit c → t.Unsplit c := by
    intro zero t L c tracks framed valid granted unsplit
    cases c with
    | kmalloc size => exact unsplit
    | kfree ptr => trivial
    | krealloc ptr size => exact unsplit
  obtain ⟨zero, t, rfl, framed, flat⟩ := run.onPrivate unsplit_paged
  obtain ⟨L, tracks⟩ := flat.tracks
  refine ⟨⟨fun l => (L.free l).map Block.hdr, tracks.rep.chains, fun l quick hdr member => ?_⟩,
    fun size ptr u pos valid granted ran => ?_⟩
  · exact classed_of_unsplit flat l quick _ (tracks.rep.chains l) hdr member
  · obtain ⟨ptr', t', L', flatRan, -, same, -⟩ := exec_private tracks framed valid granted
    rw [ran] at same
    obtain ⟨-, rfl⟩ := Prod.mk.inj (Option.some.inj same)
    exact kmalloc_iff_of_unsplit flat pos ((valid_paged zero).mp valid) flatRan

/-- On the empty heap a fresh block of the class is split or not. -/
theorem emptySession_splitsQuick (size : Nat) : emptySession.heap.SplitsQuick size ↔
    quickList size < 4 ∧ (size + 3) / 4 * 4 + sizeofHeader < 8 <<< (quickList size).val := by
  refine and_congr_right fun _ => ⟨?_, fun splits => ⟨[], rfl, splits⟩⟩
  rintro ⟨nodes, chain, splits⟩
  rwa [chain.unique (show Chain _ 0 [] from rfl)] at splits

def oneClassed : Session PagedMem Unit := (emptySession.after everyPage (.kmalloc 16)).paged zeroed

theorem quick_lists_classed_after_kmalloc :
    (∃ free, QuickLists oneClassed free) ∧
      ∀ size ptr t, size ≠ 0 → oneClassed.Valid (.kmalloc size) →
        oneClassed.exec everyPage (.kmalloc size) = some (ptr, t) →
          (t.heap.Classed ↔ ¬ oneClassed.heap.SplitsQuick size) := by
  have first : OnPages (fun s c => s.Granted everyPage c ∧ s.Unsplit c) 3221291008
      (emptySession.after everyPage (.kmalloc 16)) := by
    refine (OnPages.start emptySession_initial).after (valid_kmalloc ⟨by decide, by decide⟩)
      ⟨granted_everyPage _ _, fun _ splits => ?_⟩
    exact absurd ((emptySession_splitsQuick 16).mp splits) (by decide)
  obtain ⟨lists, next⟩ := quick_lists_classed first.run
  exact ⟨lists, fun size ptr t pos valid ran => next size ptr t pos valid (granted_everyPage _ _) ran⟩

/-- What is left of a fresh block of 64 bytes after a request for 33 stays on the list of
blocks of 64. -/
theorem quick_list_remainder : ¬ ∀ s : Session PagedMem Unit, Reachable everyPage 3221291008 s →
    ∃ free, QuickLists s free := by
  intro claim
  have start : OnPages (fun _ _ => True) 3221291008 emptySession := .start emptySession_initial
  have valid : emptySession.Valid (.kmalloc 33) := valid_kmalloc ⟨by decide, by decide⟩
  obtain ⟨ptr, t, ran, same⟩ := start.returns valid
  have reach := start.after valid trivial
  rw [same] at reach
  obtain ⟨free, lists, class_eq⟩ := claim (t.paged zeroed) reach.run
  have classed : t.heap.Classed := by
    intro l quick nodes chain hdr member
    rw [chain.unique (lists l)] at member
    exact class_eq l quick hdr member
  have unsplit : Permitted everyPage Unsplit 3221291008 emptySession := .start emptySession_initial
  exact (kmalloc_iff_of_unsplit unsplit (by decide) valid ran).mp classed
    ((emptySession_splitsQuick 33).mpr (by decide))

end Classes

end Session

end TrollOS.Mem
