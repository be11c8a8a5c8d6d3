import TrollOS.Mmu.UserSpaces

/-!
# The free list at startup

`_build_free_frame_list` looks for the resident pages of the supervisor and puts the
frames above them on the free list.  The counter is right when these pages fill the
memory from its start on.
-/

namespace TrollOS

open TrollOS.Lib Mmu

namespace Frames

/-! ## The walk over the supervisor's tables -/

/-- The pages below a table, in the order of the entries. -/
def pages (mem : ByteMem) : Nat → Nat → List Nat
  | 0, page => [page]
  | level + 1, table =>
      (List.range (entries (level + 1))).flatMap fun i =>
        (child mem (level + 1) table i).elim [] (pages mem level)

/-- Every table lies in one page. -/
def Whole (mem : ByteMem) : Nat → Nat → Prop
  | 0, _ => True
  | level + 1, table =>
      table % pageSize + 4 * entries (level + 1) ≤ pageSize ∧
        ∀ i, i < entries (level + 1) → ∀ c, child mem (level + 1) table i = some c → Whole mem level c

/-- `_mem_layout.free_frames--`. -/
def lower (free : Nat) : Nat := u32 (free + 4294967295)

/-- A resident page: the local `free_frame` of the walk, and the counter. -/
def skip (r : Nat × Nat) (ph : Nat) : Nat × Nat :=
  if r.1 ≤ ph then (u32 (ph + pageSize), lower r.2) else r

/-- An entry of a table, given what is done below it. -/
def walkEntry (level : Nat) (inner : Nat → Nat → Work Nat) (table bound i : Nat) : Work Nat := do
  let w ← readEntry table i
  if isResident level w then inner bound (address level w) else pure bound

/-- The first loops of `_build_free_frame_list` below a table. -/
def walk : Nat → Nat → Nat → Work Nat
  | 0, bound, page => fun s =>
      some ((skip (bound, s.freeFrames) page).1, { s with freeFrames := (skip (bound, s.freeFrames) page).2 })
  | level + 1, bound, table =>
      (List.range (entries (level + 1))).foldlM (walkEntry (level + 1) (walk level) table) bound

theorem walk_succ (level bound table : Nat) :
    walk (level + 1) bound table =
      (List.range (entries (level + 1))).foldlM (walkEntry (level + 1) (walk level) table) bound := rfl

def counting (s : Frames) (free : Nat) : Frames := { s with freeFrames := free }

theorem counting_freeFrames (s : Frames) (free : Nat) : (s.counting free).freeFrames = free := rfl

variable {s : Frames} {mem : ByteMem} {level table : Nat}

def pagesAt (mem : ByteMem) (level table i : Nat) : List Nat :=
  (child mem (level + 1) table i).elim [] (pages mem level)

theorem walk_entries {indices : List Nat}
    (inner : ∀ r c, Whole s.mem level c → walk level r.1 c (s.counting r.2) =
      some (((pages s.mem level c).foldl skip r).1, s.counting ((pages s.mem level c).foldl skip r).2))
    (whole : Whole s.mem (level + 1) table) (within : ∀ i ∈ indices, i < entries (level + 1)) (r : Nat × Nat) :
    indices.foldlM (walkEntry (level + 1) (walk level) table) r.1 (s.counting r.2) =
      some (((indices.flatMap (pagesAt s.mem level table)).foldl skip r).1,
        s.counting ((indices.flatMap (pagesAt s.mem level table)).foldl skip r).2) := by
  induction indices generalizing r with
  | nil => rfl
  | cons i rest ih =>
      have small := within i List.mem_cons_self
      have read : readEntry table i (s.counting r.2) =
          some (s.mem.load32 (table + 4 * i), s.counting r.2) := by
        refine if_pos ?_
        have inPage := whole.1
        omega
      have step : walkEntry (level + 1) (walk level) table r.1 i (s.counting r.2) =
          some (((pagesAt s.mem level table i).foldl skip r).1,
            s.counting ((pagesAt s.mem level table i).foldl skip r).2) := by
        unfold walkEntry pagesAt
        rw [bind_ran read]
        by_cases resident : isResident (level + 1) (s.mem.load32 (table + 4 * i)) = true
        · have leads : child s.mem (level + 1) table i =
              some (address (level + 1) (s.mem.load32 (table + 4 * i))) := if_pos resident
          rw [if_pos resident, leads]
          exact inner r _ (whole.2 i small _ leads)
        · have off : child s.mem (level + 1) table i = none := if_neg resident
          rw [if_neg resident, off]
          rfl
      rw [List.flatMap_cons, List.foldl_append, List.foldlM_cons, bind_ran step]
      exact ih (fun j member => within j (List.mem_cons_of_mem _ member)) _

/-- The walk looks at the pages one after the other. -/
theorem walk_eq (s : Frames) (level table : Nat) (r : Nat × Nat) (whole : Whole s.mem level table) :
    walk level r.1 table (s.counting r.2) =
      some (((pages s.mem level table).foldl skip r).1,
        s.counting ((pages s.mem level table).foldl skip r).2) := by
  induction level generalizing table r with
  | zero => rfl
  | succ level ih =>
      exact walk_entries (fun r c whole => ih c r whole) whole (fun i member => List.mem_range.mp member) r

def dramEnd : Nat := dramStart + 16384 * pageSize

/-- A resident page above all the pages before it is the next one, and in memory. -/
def OneByOne : Nat → List Nat → Prop
  | _, [] => True
  | bound, ph :: rest =>
      if bound ≤ ph then ph = bound ∧ bound < dramEnd ∧ OneByOne (bound + pageSize) rest
      else OneByOne bound rest

/-- The counter is what is left above the pages. -/
theorem skip_counts {found : List Nat} {bound free : Nat} (oneByOne : OneByOne bound found)
    (left : bound + free * pageSize = dramEnd) :
    (found.foldl skip (bound, free)).1 + (found.foldl skip (bound, free)).2 * pageSize = dramEnd ∧
      bound ≤ (found.foldl skip (bound, free)).1 ∧
        ((found.foldl skip (bound, free)).1 - bound) % pageSize = 0 := by
  induction found generalizing bound free with
  | nil => exact ⟨left, Nat.le_refl _, (Nat.sub_self bound).symm ▸ rfl⟩
  | cons ph rest ih =>
      rw [List.foldl_cons]
      unfold OneByOne at oneByOne
      by_cases above : bound ≤ ph
      · rw [if_pos above] at oneByOne
        obtain ⟨rfl, inMemory, oneByOne⟩ := oneByOne
        have raised : skip (ph, free) ph = (ph + pageSize, free - 1) := by
          unfold skip
          rw [if_pos (Nat.le_refl ph)]
          unfold lower u32
          unfold dramEnd dramStart pageSize at *
          rw [Prod.mk.injEq]
          omega
        rw [raised]
        have left' : ph + pageSize + (free - 1) * pageSize = dramEnd := by
          unfold pageSize at *
          omega
        obtain ⟨count, low, aligned⟩ := ih oneByOne left'
        refine ⟨count, by omega, ?_⟩
        unfold pageSize at *
        omega
      · rw [if_neg above] at oneByOne
        have same : skip (bound, free) ph = (bound, free) := if_neg above
        rw [same]
        exact ih oneByOne left

/-! ## Giving the frames to the list -/

/-- Frames are put on the list one after the other. -/
theorem free_all {frames chain : List Nat} {s : Frames} (pool : Pool { s with freeFrames := 0 } chain)
    (valid : ∀ f ∈ frames, IsFrame f) (distinct : frames.Nodup) (fresh : ∀ f ∈ frames, f ∉ chain) :
    ∃ s', frames.forM free s = some ((), s') ∧ Pool { s' with freeFrames := 0 } (frames.reverse ++ chain) ∧
      s'.freeFrames = s.freeFrames := by
  induction frames generalizing s chain with
  | nil => exact ⟨s, rfl, pool, rfl⟩
  | cons f rest ih =>
      obtain ⟨notAgain, distinct⟩ := List.nodup_cons.mp distinct
      have frame := valid f List.mem_cons_self
      obtain ⟨-, pool'⟩ := pool.free frame (fresh f List.mem_cons_self)
      have ran : free f s = some ((), { s with mem := s.mem.store32 f s.freeFrame, freeFrame := f }) := by
        unfold Frames.free
        rw [base_frame frame]
      have fresh' : ∀ g ∈ rest, g ∉ f :: chain := by
        intro g member again
        rcases List.mem_cons.mp again with rfl | old
        · exact notAgain member
        · exact fresh g (List.mem_cons_of_mem _ member) old
      obtain ⟨s', runs, pool'', count⟩ := @ih _
        { s with mem := s.mem.store32 f s.freeFrame, freeFrame := f } pool'
        (fun g member => valid g (List.mem_cons_of_mem _ member)) distinct fresh'
      refine ⟨s', (bind_ran ran).trans runs, ?_, count⟩
      rw [List.reverse_cons, List.append_assoc]
      exact pool''

end Frames

namespace Mmu

open Frames Action

/-! ## The walk through the window -/

section Simulation

variable {depth : Nat} {held : Nat → Nat} {p ph : Nat}

theorem Simulates.foldlM {indices : List Nat} {f : Nat → Nat → Action Nat} {g : Nat → Nat → Work Nat}
    (body : ∀ a i, Simulates depth held (f a i) (g a i) fun _ => depth) (a : Nat) :
    Simulates depth held (indices.foldlM f a) (indices.foldlM g a) fun _ => depth := by
  induction indices generalizing a with
  | nil => exact .pure depth held a rfl
  | cons i rest ih =>
      rw [List.foldlM_cons, List.foldlM_cons]
      exact (body a i).bind fun b _ => ih b

/-- The counter is changed. -/
theorem counter_simulates (g : Nat → Nat) (v : Nat) :
    Simulates depth held (do
        let l ← getMemLayout
        setMemLayout { l with freeFrames := g l.freeFrames }
        pure v) (fun s => some (v, s.counting (g s.freeFrames))) fun _ => depth := by
  intro m r s mapping shows ran
  obtain ⟨rfl, rfl⟩ := Prod.mk.inj (Option.some.inj ran)
  exact ⟨{ m with memLayout := { m.memLayout with freeFrames := g m.memLayout.freeFrames } },
    rfl, rfl, rfl, rfl, rfl, mapping, shows⟩

theorem walk_above {bound page : Nat} (above : bound ≤ page) :
    walk 0 bound page = fun s => some (u32 (page + pageSize), s.counting (lower s.freeFrames)) := by
  funext s
  show some _ = some _
  unfold skip
  rw [if_pos above]
  rfl

theorem walk_below {bound page : Nat} (below : ¬ bound ≤ page) : walk 0 bound page = Pure.pure bound := by
  funext s
  show some _ = some _
  unfold skip
  rw [if_neg below]

theorem skipPage_simulates (points : Points depth held p ph) (bound k : Nat) :
    Simulates depth held (skipPage p bound k) (walkEntry 1 (walk 0) ph bound k) fun _ => depth := by
  rw [skipPage, walkEntry]
  refine (Simulates.read32 points k).bind fun w _ => ?_
  have tests : isResident 1 w = pdtIsResident (descriptorType w) := rfl
  have leads : address 1 w = pageLevelFieldAddr (physicalAddress w) := rfl
  rw [tests, leads]
  split
  · dsimp only
    split
    · next above =>
        rw [walk_above above]
        exact counter_simulates lower _
    · next below =>
        rw [walk_below below]
        exact .pure depth held bound rfl
  · exact .pure depth held bound rfl

/-- A loop over a table, after which its slot is taken off. -/
theorem popped_simulates {x : Action Nat} {y : Work Nat}
    (inner : Simulates (depth + 1) held x y fun _ => depth + 1) :
    Simulates (depth + 1) held (x >>= fun r => mappingPop >>= fun _ => Pure.pure r) y fun _ => depth := by
  have both : Simulates (depth + 1) held (x >>= fun r => mappingPop >>= fun _ => Pure.pure r)
      (y >>= fun r => Pure.pure r) fun _ => depth :=
    inner.bind fun r _ => .skip (.pop (depth + 1) held) (.pure depth held r rfl)
  rwa [bind_pure] at both

theorem skipPageTable_simulates (points : Points depth held p ph) (room : depth < mapperPages)
    (bound j : Nat) :
    Simulates depth held (skipPageTable p bound j) (walkEntry 2 (walk 1) ph bound j) fun _ => depth := by
  rw [skipPageTable, walkEntry]
  refine (Simulates.read32 points j).bind fun w _ => ?_
  have tests : isResident 2 w = udtIsResident (descriptorType w) := rfl
  rw [tests]
  split
  · refine .push room (fun _ => Nat.le_refl depth) ?_
    rw [walk_succ]
    exact popped_simulates (.foldlM (skipPage_simulates (points_repage depth held (address 2 w))) bound)
  · exact .pure depth held bound rfl

/-- What a resident entry of the root table costs. -/
theorem pointerTable_simulates (room : depth + 1 < mapperPages) (bound w : Nat) :
    Simulates depth held (do
        let page ← mappingPush (rootLevelFieldAddr (rootTableAddress w))
        let freeFrame ← (List.range pointerLevelDescriptors).foldlM
          (skipPageTable (repage (rootLevelFieldAddr (rootTableAddress w)) page)) bound
        mappingPop
        pure freeFrame) (walk 2 bound (address 3 w)) fun _ => depth := by
  refine .push (Nat.lt_of_succ_lt room) (fun _ => Nat.le_refl depth) ?_
  rw [walk_succ]
  exact popped_simulates
    (.foldlM (skipPageTable_simulates (points_repage depth held (address 3 w)) room) bound)

end Simulation

section Start

variable {m : Mmu} {r bound i : Nat} {s : Frames}

theorem Done.trans {m m₁ m₂ : Mmu} {depth₁ depth₂ : Nat} {held₁ held₂ : Nat → Nat} {s₁ s₂ : Frames}
    (first : Done m m₁ depth₁ held₁ s₁) (second : Done m₁ m₂ depth₂ held₂ s₂) : Done m m₂ depth₂ held₂ s₂ :=
  ⟨second.frames, second.totalFrames.trans first.totalFrames, second.srp.trans first.srp,
    second.urp.trans first.urp, second.mapping, second.held⟩

theorem Done.freeFrames {m₁ : Mmu} {depth : Nat} {held : Nat → Nat} (done : Done m m₁ depth held s) :
    m₁.memLayout.freeFrames = s.freeFrames := congrArg Frames.freeFrames done.frames

theorem Done.freeFrame {m₁ : Mmu} {depth : Nat} {held : Nat → Nat} (done : Done m m₁ depth held s) :
    m₁.memLayout.freeFrame = s.freeFrame := congrArg Frames.freeFrame done.frames

/-- An entry of the supervisor's root table, which is not behind the window. -/
theorem skipPointerTable_entry (mapping : m.mapping = 0)
    (ran : walkEntry 3 (walk 2) (rootLevelFieldAddr m.srp) bound i m.frames = some (r, s)) :
    ∃ m', skipPointerTable bound i m = some (r, m') ∧ Done m m' 0 (fun _ => 0) s := by
  unfold walkEntry at ran
  obtain ⟨⟨w, s₁⟩, read, rest⟩ := Option.bind_eq_some_iff.mp ran
  have word : w = m.mem.load32 (rootLevelFieldAddr m.srp + 4 * i) ∧ s₁ = m.frames := by
    unfold readEntry at read
    split at read
    · obtain ⟨rfl, rfl⟩ := Prod.mk.inj (Option.some.inj read)
      exact ⟨rfl, rfl⟩
    · exact nomatch read
  obtain ⟨rfl, rfl⟩ := word
  have first : readRootTd i m = some (m.mem.load32 (rootLevelFieldAddr m.srp + 4 * i), m) := rfl
  rw [skipPointerTable, bind_of_some first]
  generalize m.mem.load32 (rootLevelFieldAddr m.srp + 4 * i) = w at rest
  have tests : isResident 3 w = udtIsResident (descriptorType w) := rfl
  dsimp only at rest ⊢
  rw [tests] at rest
  by_cases resident : udtIsResident (descriptorType w) = true
  · rw [if_pos resident] at rest ⊢
    exact run_of_simulates (fun _ => pointerTable_simulates (by decide) bound w) mapping rest
  · rw [if_neg resident] at rest ⊢
    obtain ⟨rfl, rfl⟩ := Prod.mk.inj (Option.some.inj rest)
    exact ⟨m, rfl, rfl, rfl, rfl, rfl, mapping, fun slot below => absurd below (Nat.not_lt_zero slot)⟩

theorem skipPointerTable_loop {indices : List Nat} (mapping : m.mapping = 0)
    (ran : indices.foldlM (walkEntry 3 (walk 2) (rootLevelFieldAddr m.srp)) bound m.frames = some (r, s)) :
    ∃ m', indices.foldlM skipPointerTable bound m = some (r, m') ∧ Done m m' 0 (fun _ => 0) s := by
  induction indices generalizing m bound with
  | nil =>
      obtain ⟨rfl, rfl⟩ := Prod.mk.inj (Option.some.inj ran)
      exact ⟨m, rfl, rfl, rfl, rfl, rfl, mapping, fun slot below => absurd below (Nat.not_lt_zero slot)⟩
  | cons i rest ih =>
      rw [List.foldlM_cons] at ran ⊢
      obtain ⟨⟨b, s₁⟩, step, ran⟩ := Option.bind_eq_some_iff.mp ran
      obtain ⟨m₁, step', done₁⟩ := skipPointerTable_entry mapping step
      rw [bind_of_some step']
      have ran' : rest.foldlM (walkEntry 3 (walk 2) (rootLevelFieldAddr m₁.srp)) b m₁.frames =
          some (r, s) := by
        rw [done₁.srp, done₁.frames]
        exact ran
      obtain ⟨m₂, steps, done₂⟩ := ih done₁.mapping ran'
      exact ⟨m₂, steps, done₁.trans done₂⟩

def residentPages (m : Mmu) : List Nat := pages m.mem 3 (rootLevelFieldAddr m.srp)

/-- The supervisor's tables lie in a page each, and its resident pages fill the memory from
its start on. -/
def Boots (m : Mmu) : Prop :=
  m.mapping = 0 ∧ Whole m.mem 3 (rootLevelFieldAddr m.srp) ∧ OneByOne dramStart m.residentPages

/-- The frames above the resident pages. -/
theorem frames_above {start free total : Nat} (counted : start + free * pageSize = dramEnd)
    (low : dramStart ≤ start) (aligned : (start - dramStart) % pageSize = 0)
    (ends : dramStart + total * pageSize = dramEnd) :
    framesFrom start total = free ∧
      (∀ f ∈ (List.range free).map fun n => start + n * pageSize, IsFrame f) ∧
        ((List.range free).map fun n => start + n * pageSize).Nodup := by
  refine ⟨?_, fun f member => ?_, ?_⟩
  · unfold framesFrom
    rw [ends]
    unfold pageSize at *
    omega
  · obtain ⟨n, inRange, rfl⟩ := List.mem_map.mp member
    have small := List.mem_range.mp inRange
    unfold dramEnd dramStart pageSize at *
    exact ⟨by unfold pageSize; omega, by omega, by omega⟩
  · refine (List.nodup_range).map_on fun a _ b _ same => ?_
    unfold pageSize at same
    omega

/-- What the walk over the supervisor's tables leaves. -/
theorem skip_supervisor (mapping : m.mapping = 0) (whole : Whole m.mem 3 (rootLevelFieldAddr m.srp)) :
    ∃ m', (List.range rootLevelDescriptors).foldlM skipPointerTable bound m =
        some ((m.residentPages.foldl skip (bound, m.memLayout.freeFrames)).1, m') ∧
      Done m m' 0 (fun _ => 0)
        (m.frames.counting (m.residentPages.foldl skip (bound, m.memLayout.freeFrames)).2) :=
  skipPointerTable_loop mapping
    (walk_eq m.frames 3 (rootLevelFieldAddr m.srp) (bound, m.memLayout.freeFrames) whole)

/-- The second loop of `_build_free_frame_list`. -/
theorem free_above {free count : Nat} (mapping : m.mapping = 0)
    (valid : ∀ f ∈ (List.range free).map fun n => i + n * pageSize, IsFrame f)
    (distinct : ((List.range free).map fun n => i + n * pageSize).Nodup)
    (empty : m.memLayout.freeFrame = 0) (counted : m.memLayout.freeFrames = free)
    (times : count = free) :
    ∃ m' chain, ((List.range count).forM fun n => freeFrame (i + n * pageSize)) m = some ((), m') ∧
      m'.mapping = 0 ∧ m'.srp = m.srp ∧ Pool m'.frames chain ∧ m'.memLayout.freeFrames = chain.length ∧
        chain.length = free := by
  subst times
  have pool : Pool { m.frames with freeFrames := 0 } [] :=
    ⟨empty, Nat.le_refl 0, fun f member => nomatch member⟩
  obtain ⟨s, gives, pool, kept⟩ := free_all pool valid distinct fun f _ member => nomatch member
  rw [List.append_nil] at pool
  rw [List.forM_eq_forM, List.forM_map] at gives
  obtain ⟨m', given, done⟩ := run_of_simulates
    (fun held => Simulates.forM fun n => Simulates.free (by decide) held _) mapping gives
  have length : m'.memLayout.freeFrames =
      ((List.range count).map fun n => i + n * pageSize).reverse.length := by
    rw [List.length_reverse, List.length_map, List.length_range, done.freeFrames, kept]
    exact counted
  refine ⟨m', _, given, done.mapping, done.srp, ⟨?_, Nat.le_of_eq length, pool.frames⟩, length,
    (length.symm.trans done.freeFrames).trans (kept.trans counted)⟩
  rw [done.frames]
  exact pool.linked

/-- The free list after `_build_free_frame_list`. -/
theorem buildFreeFrameList_pool {total : Nat} (boots : Boots m) (empty : m.memLayout.freeFrame = 0)
    (free : m.memLayout.freeFrames = total) (all : m.memLayout.totalFrames = total)
    (ends : dramStart + total * pageSize = dramEnd) :
    ∃ r m' chain, buildFreeFrameList m = some (r, m') ∧ m'.mapping = 0 ∧ m'.srp = m.srp ∧
      Pool m'.frames chain ∧ m'.memLayout.freeFrames = chain.length ∧
        chain.length = (m.residentPages.foldl skip (dramStart, total)).2 := by
  obtain ⟨mapping, whole, oneByOne⟩ := boots
  obtain ⟨m₁, walked, done⟩ := @skip_supervisor m dramStart mapping whole
  rw [free] at walked done
  obtain ⟨counted, low, aligned⟩ := skip_counts oneByOne ends
  revert walked done counted low aligned
  generalize m.residentPages.foldl skip (dramStart, total) = result
  intro walked done counted low aligned
  obtain ⟨times, valid, distinct⟩ := frames_above counted low aligned ends
  have total₁ : m₁.memLayout.totalFrames = total := done.totalFrames.trans all
  have free₁ : m₁.memLayout.freeFrames = result.2 :=
    done.freeFrames.trans (counting_freeFrames m.frames result.2)
  have empty₁ : m₁.memLayout.freeFrame = 0 := done.freeFrame.trans empty
  obtain ⟨m₂, chain, given, mapping₂, srp, pool, length⟩ := free_above done.mapping valid distinct empty₁
    free₁ ((congrArg (framesFrom result.1) total₁).trans times)
  refine ⟨m₂.memLayout.freeFrame, m₂, chain, ?_, mapping₂, srp.trans done.srp, pool, length⟩
  have layout : getMemLayout m₁ = some (m₁.memLayout, m₁) := rfl
  unfold buildFreeFrameList
  rw [bind_of_some walked, bind_of_some layout, bind_of_some given]
  rfl

/-- The free list after `mmu040_init`. -/
theorem init_pool (boots : Boots m) :
    ∃ m' chain, Mmu.init m = some ((), m') ∧ m'.mapping = 0 ∧ m'.srp = m.srp ∧ Pool m'.frames chain ∧
      m'.memLayout.freeFrames = chain.length ∧
        chain.length = (m.residentPages.foldl skip (dramStart, 16384)).2 := by
  obtain ⟨r, m', chain, builds, rest⟩ := buildFreeFrameList_pool
    (m := { m with memLayout := ⟨16384, 16384, 0⟩ }) boots rfl rfl rfl (Eq.refl dramEnd)
  refine ⟨m', chain, ?_, rest⟩
  have begins : setMemLayout ⟨16384, 16384, 0⟩ m = some ((), { m with memLayout := ⟨16384, 16384, 0⟩ }) := rfl
  unfold Mmu.init
  rw [bind_of_some begins, bind_of_some builds]
  rfl

end Start

end Mmu

end TrollOS
