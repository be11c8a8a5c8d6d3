import Mathlib.Logic.Function.Basic
import TrollOS.Mmu.Frames

/-!
# The mapping window

What a function of the page mapper does through the window is its work on
physical memory.  `held` says which frames are behind the slots in use, and
`after` how deep the stack is when the function ends with a given result.
-/

namespace TrollOS.Mmu

open TrollOS.Lib Frames Action
open Function (update)

variable {α β : Type}

/-- An action has done its work: nothing else has changed but the window above the
stack. -/
structure Done (m m' : Mmu) (depth : Nat) (held : Nat → Nat) (s : Frames) : Prop where
  frames : m'.frames = s
  totalFrames : m'.memLayout.totalFrames = m.memLayout.totalFrames
  srp : m'.srp = m.srp
  urp : m'.urp = m.urp
  mapping : m'.mapping = depth
  held : ∀ slot, slot < depth → m'.window slot = held slot

def Simulates (depth : Nat) (held : Nat → Nat) (x : Action α) (y : Work α) (after : α → Nat) :
    Prop :=
  ∀ m r s, m.mapping = depth → (∀ slot, slot < depth → m.window slot = held slot) →
    y m.frames = some (r, s) → ∃ m', x m = some (r, m') ∧ Done m m' (after r) held s

/-- A pointer into the window that stands for the physical address `ph`. -/
def Points (depth : Nat) (held : Nat → Nat) (p ph : Nat) : Prop :=
  ∃ slot, slot < depth ∧ p = slot * pageSize + ph % pageSize ∧ held slot = base ph

def Gives (y : Work α) (r : α) : Prop := ∃ s s', y s = some (r, s')

section Points

variable {depth : Nat} {held : Nat → Nat} {p ph : Nat}

theorem base_add_mod (ph : Nat) : base ph + ph % pageSize = ph := by
  unfold base pageLevelFieldAddr pageLevelAddrField pageSize
  omega

theorem base_of_aligned (aligned : ph % pageSize = 0) : base ph = ph := by
  have same := base_add_mod ph
  rwa [aligned, Nat.add_zero] at same

theorem Points.update (points : Points depth held p ph) (other : Nat) :
    Points (depth + 1) (update held depth other) p ph := by
  obtain ⟨slot, below, pointer, frame⟩ := points
  refine ⟨slot, Nat.lt_succ_of_lt below, pointer, ?_⟩
  rw [Function.update_of_ne (Nat.ne_of_lt below)]
  exact frame

/-- The pointer made from a page that has just been mapped. -/
theorem points_repage (depth : Nat) (held : Nat → Nat) (ph : Nat) :
    Points (depth + 1) (Function.update held depth (base ph)) (repage ph (depth * pageSize)) ph := by
  refine ⟨depth, Nat.lt_succ_self depth, ?_, Function.update_self ..⟩
  unfold repage
  rw [Nat.mul_div_cancel _ (by decide)]

theorem points_page (depth : Nat) (held : Nat → Nat) {ph : Nat} (aligned : ph % pageSize = 0) :
    Points (depth + 1) (Function.update held depth (base ph)) (depth * pageSize) ph := by
  refine ⟨depth, Nat.lt_succ_self depth, ?_, Function.update_self ..⟩
  rw [aligned, Nat.add_zero]

/-- The address behind a pointer, as long as it stays in its page. -/
theorem Points.translate (points : Points depth held p ph) {m : Mmu} {offset : Nat}
    (shows : ∀ slot, slot < depth → m.window slot = held slot)
    (inPage : ph % pageSize + offset < pageSize) : m.translate (p + offset) = ph + offset := by
  obtain ⟨slot, below, rfl, frame⟩ := points
  have page : (slot * pageSize + ph % pageSize + offset) / pageSize = slot := by
    rw [Nat.add_assoc, Nat.mul_comm, Nat.mul_add_div (by decide), Nat.div_eq_of_lt inPage,
      Nat.add_zero]
  have rest : (slot * pageSize + ph % pageSize + offset) % pageSize = ph % pageSize + offset := by
    rw [Nat.add_assoc, Nat.mul_comm, Nat.mul_add_mod, Nat.mod_eq_of_lt inPage]
  unfold Mmu.translate
  rw [page, rest, shows slot below, frame, ← Nat.add_assoc, base_add_mod]

theorem Points.translate_page (points : Points depth held p ph) {m : Mmu}
    (shows : ∀ slot, slot < depth → m.window slot = held slot) (aligned : ph % pageSize = 0) :
    m.translate p = ph := by
  have inPage : ph % pageSize + 0 < pageSize := by
    rw [aligned]
    decide
  exact points.translate shows inPage

end Points

theorem bind_of_some {x : Action α} {f : α → Action β} {m m' : Mmu} {a : α}
    (ran : x m = some (a, m')) : (x >>= f) m = f a m' := by
  show (x m).bind (fun result => f result.1 result.2) = _
  rw [ran, Option.bind_some]

namespace Simulates

variable {depth : Nat} {held : Nat → Nat}

theorem pure (depth : Nat) (held : Nat → Nat) (a : α) {after : α → Nat} (stays : after a = depth) :
    Simulates depth held (Pure.pure a) (Pure.pure a) after := by
  intro m r s mapping shows ran
  obtain ⟨rfl, rfl⟩ := Prod.mk.inj (Option.some.inj ran)
  exact ⟨m, rfl, rfl, rfl, rfl, rfl, mapping.trans stays.symm, fun slot below =>
    shows slot (by omega)⟩

theorem bind {x : Action α} {y : Work α} {f : α → Action β} {g : α → Work β} {mid : α → Nat}
    {after : β → Nat} (first : Simulates depth held x y mid)
    (rest : ∀ r, Gives y r → Simulates (mid r) held (f r) (g r) after) :
    Simulates depth held (x >>= f) (y >>= g) after := by
  intro m r s mapping shows ran
  obtain ⟨⟨r₁, s₁⟩, ran₁, ran₂⟩ := Option.bind_eq_some_iff.mp ran
  obtain ⟨m₁, step₁, done₁⟩ := first m r₁ s₁ mapping shows ran₁
  have ran₂ : g r₁ m₁.frames = some (r, s) := by
    rw [done₁.frames]
    exact ran₂
  obtain ⟨m₂, step₂, done₂⟩ := rest r₁ ⟨_, _, ran₁⟩ m₁ r s done₁.mapping done₁.held ran₂
  refine ⟨m₂, ?_, done₂.frames, done₂.totalFrames.trans done₁.totalFrames,
    done₂.srp.trans done₁.srp, done₂.urp.trans done₁.urp, done₂.mapping, done₂.held⟩
  exact Option.bind_eq_some_iff.mpr ⟨(r₁, m₁), step₁, step₂⟩

/-- An action that works on nothing but the window. -/
theorem skip {x : Action α} {f : α → Action β} {a : α} {y : Work β} {mid : α → Nat}
    {after : β → Nat} (first : Simulates depth held x (Pure.pure a) mid)
    (rest : Simulates (mid a) held (f a) y after) : Simulates depth held (x >>= f) y after := by
  have both : Simulates depth held (x >>= f) ((Pure.pure a : Work α) >>= fun _ => y) after := by
    refine bind first fun r gives => ?_
    obtain ⟨s, s', given⟩ := gives
    obtain ⟨rfl, -⟩ := Prod.mk.inj (Option.some.inj given)
    exact rest
  exact both

theorem push {ph : Nat} {f : Nat → Action α} {y : Work α} {after : α → Nat}
    (room : depth < mapperPages) (shrinks : ∀ r, after r ≤ depth)
    (rest : Simulates (depth + 1) (update held depth (base ph)) (f (depth * pageSize)) y after) :
    Simulates depth held (mappingPush ph >>= f) y after := by
  intro m r s mapping shows ran
  have pushed : mappingPush ph m = some (depth * pageSize,
      { m with
        window := fun slot => if slot = m.mapping then base ph else m.window slot
        mapping := m.mapping + 1 }) := by
    unfold mappingPush
    rw [mapping, if_neg (Nat.not_le.mpr room)]
    rfl
  let after' : Mmu :=
    { m with
      window := fun slot => if slot = m.mapping then base ph else m.window slot
      mapping := m.mapping + 1 }
  have top : after'.mapping = depth + 1 := congrArg (· + 1) mapping
  have shows' : ∀ slot, slot < depth + 1 →
      after'.window slot = update held depth (base ph) slot := by
    intro slot below
    show (if slot = m.mapping then base ph else m.window slot) = _
    rw [mapping]
    by_cases last : slot = depth
    · rw [if_pos last, last, Function.update_self]
    · rw [if_neg last, Function.update_of_ne last]
      exact shows slot (Nat.lt_of_le_of_ne (Nat.le_of_lt_succ below) last)
  obtain ⟨m', step, done⟩ := rest after' r s top shows' ran
  refine ⟨m', ?_, done.frames, done.totalFrames, done.srp, done.urp, done.mapping,
    fun slot below => ?_⟩
  · exact Option.bind_eq_some_iff.mpr ⟨_, pushed, step⟩
  · have other : slot ≠ depth := Nat.ne_of_lt (Nat.lt_of_lt_of_le below (shrinks r))
    rw [done.held slot below, Function.update_of_ne other]

/-- What is behind the slots above the stack does not matter. -/
theorem above {slot : Nat} (unused : depth ≤ slot) (other : Nat) {x : Action α} {y : Work α}
    {after : α → Nat} (shrinks : ∀ r, after r ≤ depth) (inner : Simulates depth held x y after) :
    Simulates depth (update held slot other) x y after := by
  have same : ∀ k, k < depth → update held slot other k = held k := fun k below =>
    Function.update_of_ne (Nat.ne_of_lt (Nat.lt_of_lt_of_le below unused)) _ _
  intro m r s mapping shows ran
  obtain ⟨m', step, done⟩ :=
    inner m r s mapping (fun k below => (shows k below).trans (same k below)) ran
  refine ⟨m', step, done.frames, done.totalFrames, done.srp, done.urp, done.mapping,
    fun k below => (done.held k below).trans ?_⟩
  exact (same k (Nat.lt_of_lt_of_le below (shrinks r))).symm

theorem pop (depth : Nat) (held : Nat → Nat) :
    Simulates depth held mappingPop (Pure.pure ()) fun _ => depth - 1 := by
  intro m r s mapping shows ran
  obtain ⟨rfl, rfl⟩ := Prod.mk.inj (Option.some.inj ran)
  refine ⟨_, rfl, rfl, rfl, rfl, rfl, congrArg (· - 1) mapping, fun slot below => ?_⟩
  exact shows slot (Nat.lt_of_lt_of_le below (Nat.sub_le depth 1))

theorem pops (held : Nat → Nat) (n : Nat) (depth : Nat) :
    Simulates depth held (mappingPops n) (Pure.pure ()) fun _ => depth - n := by
  induction n generalizing depth with
  | zero => exact pure depth held () rfl
  | succ n ih =>
      refine skip (pop depth held) ?_
      have rest := ih (depth - 1)
      rwa [Nat.sub_sub, Nat.add_comm 1 n] at rest

/-- An action at whose end the stack is taken down. -/
theorem popped {n : Nat} {x : Action α} {y : Work α}
    (inner : Simulates (depth + n) held x y fun _ => depth + n) :
    Simulates (depth + n) held
      (x >>= fun r => mappingPops n >>= fun _ => Pure.pure r) y fun _ => depth := by
  have both : Simulates (depth + n) held (x >>= fun r => mappingPops n >>= fun _ => Pure.pure r)
      (y >>= fun r => Pure.pure r) fun _ => depth :=
    inner.bind fun r _ => .skip (.pops held n (depth + n))
      (.pure _ held r (Nat.add_sub_cancel depth n).symm)
  rwa [bind_pure] at both

section Access

variable {p ph : Nat}

theorem read32 (points : Points depth held p ph) (i : Nat) :
    Simulates depth held (read32 (p + 4 * i)) (readEntry ph i) fun _ => depth := by
  intro m r s mapping shows ran
  unfold readEntry at ran
  split at ran
  · next inPage =>
      obtain ⟨rfl, rfl⟩ := Prod.mk.inj (Option.some.inj ran)
      refine ⟨m, ?_, rfl, rfl, rfl, rfl, mapping, shows⟩
      unfold Action.read32
      rw [points.translate shows inPage]
      rfl
  · exact nomatch ran

theorem write32 (points : Points depth held p ph) (i v : Nat) :
    Simulates depth held (write32 (p + 4 * i) v) (writeEntry ph i v) fun _ => depth := by
  intro m r s mapping shows ran
  unfold writeEntry at ran
  split at ran
  · next inPage =>
      obtain ⟨rfl, rfl⟩ := Prod.mk.inj (Option.some.inj ran)
      refine ⟨_, rfl, ?_, rfl, rfl, rfl, mapping, shows⟩
      unfold Mmu.frames
      dsimp only
      rw [points.translate shows inPage]
  · exact nomatch ran

theorem modify32 (points : Points depth held p ph) (i : Nat) (f : Nat → Nat) :
    Simulates depth held (modify32 (p + 4 * i) f) (modifyEntry ph i f) fun _ => depth :=
  (read32 points i).bind fun w _ => write32 points i (f w)

theorem memcpyPage {q src : Nat} (points : Points depth held p ph)
    (source : Points depth held q src) (aligned : src % pageSize = 0) :
    Simulates depth held (memcpyPage p q) (copyPage ph src) fun _ => depth := by
  intro m r s mapping shows ran
  unfold copyPage at ran
  split at ran
  · next target =>
      obtain ⟨rfl, rfl⟩ := Prod.mk.inj (Option.some.inj ran)
      have here : m.translate p = ph := points.translate_page shows target
      have there : m.translate q = base src := by
        rw [source.translate_page shows aligned, base_of_aligned aligned]
      refine ⟨_, rfl, ?_, rfl, rfl, rfl, mapping, shows⟩
      unfold Mmu.frames
      dsimp only
      rw [here, there]
  · exact nomatch ran

end Access

theorem alloc (room : depth < mapperPages) (held : Nat → Nat) :
    Simulates depth held allocFrame alloc fun _ => depth := by
  intro m r s mapping shows ran
  unfold Frames.alloc at ran
  split at ran
  · next none =>
      obtain ⟨rfl, rfl⟩ := Prod.mk.inj (Option.some.inj ran)
      have branch : m.memLayout.freeFrames = 0 := none
      refine ⟨m, ?_, rfl, rfl, rfl, rfl, mapping, shows⟩
      show (if m.memLayout.freeFrames = 0 then Pure.pure 0 else _ : Action Nat) m = _
      rw [if_pos branch]
      rfl
  · next some =>
      split at ran
      · next aligned =>
          obtain ⟨rfl, rfl⟩ := Prod.mk.inj (Option.some.inj ran)
          have branch : m.memLayout.freeFrames ≠ 0 := some
          have panics : ¬ mapperPages ≤ m.mapping := by omega
          have top : pageLevelFieldAddr (pageLevelAddrField m.memLayout.freeFrame) =
              m.memLayout.freeFrame := base_of_aligned aligned
          refine ⟨{ m with
            mem := m.mem.zero m.memLayout.freeFrame pageSize
            memLayout := { m.memLayout with
              freeFrames := m.memLayout.freeFrames - 1
              freeFrame := m.mem.load32 m.memLayout.freeFrame }
            window := fun slot =>
              if slot = m.mapping then m.memLayout.freeFrame else m.window slot }, ?_,
            rfl, rfl, rfl, rfl, mapping, fun slot below => ?_⟩
          · simp only [allocFrame, getMemLayout, setMemLayout, mappingPush, Action.read32, zero4k,
              mappingPop, StateT.bind, Bind.bind, Option.bind, branch, panics, if_false,
              Mmu.translate, Nat.mul_div_cancel _ (by decide : 0 < pageSize), Nat.mul_mod_left,
              if_true, Nat.add_zero, Nat.add_sub_cancel, top]
            rfl
          · have other : slot ≠ m.mapping := mapping ▸ Nat.ne_of_lt below
            exact (if_neg other).trans (shows slot below)
      · exact nomatch ran

theorem free (room : depth < mapperPages) (held : Nat → Nat) (ph : Nat) :
    Simulates depth held (freeFrame ph) (free ph) fun _ => depth := by
  intro m r s mapping shows ran
  obtain ⟨rfl, rfl⟩ := Prod.mk.inj (Option.some.inj ran)
  have panics : ¬ mapperPages ≤ m.mapping := by omega
  refine ⟨{ m with
    mem := m.mem.store32 (base ph) m.memLayout.freeFrame
    memLayout := { m.memLayout with freeFrame := ph }
    window := fun slot => if slot = m.mapping then base ph else m.window slot }, ?_,
    rfl, rfl, rfl, rfl, mapping, fun slot below => ?_⟩
  · simp only [freeFrame, mappingPush, getMemLayout, Action.write32, setMemLayout, mappingPop,
      StateT.bind, Bind.bind, Option.bind, panics, if_false, Mmu.translate,
      Nat.mul_div_cancel _ (by decide : 0 < pageSize), Nat.mul_mod_left, if_true, Nat.add_zero,
      Nat.add_sub_cancel]
    rfl
  · have other : slot ≠ m.mapping := mapping ▸ Nat.ne_of_lt below
    exact (if_neg other).trans (shows slot below)

/-- A loop. -/
theorem forM {indices : List Nat} {f : Nat → Action Unit} {g : Nat → Work Unit}
    (body : ∀ i, Simulates depth held (f i) (g i) fun _ => depth) :
    Simulates depth held (indices.forM f) (indices.forM g) fun _ => depth := by
  induction indices with
  | nil => exact pure depth held () rfl
  | cons i rest ih => exact (body i).bind fun _ _ => ih

/-- A loop that can end the function, with the stack at `out`. -/
theorem each {indices : List Nat} {f : Nat → Action Int} {g : Nat → Work Int} {out : Nat}
    (body : ∀ i, Simulates depth held (f i) (g i) fun r => if r < 0 then out else depth) :
    Simulates depth held (each indices f) (each indices g) fun r => if r < 0 then out else depth := by
  induction indices with
  | nil => exact pure depth held 0 rfl
  | cons i rest ih =>
      refine (body i).bind fun r _ => ?_
      by_cases negative : r < 0
      · rw [if_pos negative, if_pos negative, if_pos negative]
        exact pure out held r (if_pos negative)
      · rw [if_neg negative, if_neg negative, if_neg negative]
        exact ih

end Simulates

/-! ## The operations -/

section Operations

variable {depth : Nat} {held : Nat → Nat} {p q ph source target : Nat}

theorem clear_one (table : Nat) :
    clear 1 table = ((List.range pageDescriptors).forM fun i => do
      let w ← readEntry table i
      if isResident 1 w then free (address 1 w) else pure ()) := by
  have level : ¬ 0 + 1 = 3 := by decide
  unfold clear clearEntry
  simp only [clear, entries, pure_bind, level, if_false, bind_pure_unit]

theorem clear_two (table : Nat) :
    clear 2 table = ((List.range pointerLevelDescriptors).forM fun i => do
      let w ← readEntry table i
      if isResident 2 w then do
        clear 1 (address 2 w)
        free (address 2 w)
      else pure ()) := by
  have level : ¬ 1 + 1 = 3 := by decide
  conv_lhs => unfold clear clearEntry
  simp only [entries, level, if_false, bind_pure_unit]

theorem clear_three (table : Nat) :
    clear 3 table = ((List.range rootLevelDescriptors).forM fun i => do
      let w ← readEntry table i
      if isResident 3 w then do
        clear 2 (address 3 w)
        free (address 3 w)
        modifyEntry table i fun w => setDescriptorType w 0
      else pure ()) := by
  have level : 2 + 1 = 3 := rfl
  conv_lhs => unfold clear clearEntry
  simp only [entries, level, if_true]

theorem clearPageTable_simulates (points : Points depth held p ph) (room : depth < mapperPages) :
    Simulates depth held (clearPageTable p) (clear 1 ph) fun _ => depth := by
  rw [clear_one]
  refine .forM fun k => (Simulates.read32 points k).bind fun w _ => ?_
  show Simulates depth held (if pdtIsResident (descriptorType w) then _ else _)
    (if pdtIsResident (descriptorType w) then _ else _) _
  split
  · exact .free room held _
  · exact .pure depth held () rfl

theorem clearPointerTable_simulates (points : Points depth held p ph)
    (room : depth + 1 < mapperPages) :
    Simulates depth held (clearPointerTable p) (clear 2 ph) fun _ => depth := by
  rw [clear_two]
  refine .forM fun j => (Simulates.read32 points j).bind fun w _ => ?_
  show Simulates depth held (if udtIsResident (descriptorType w) then _ else _)
    (if udtIsResident (descriptorType w) then _ else _) _
  split
  · refine .push (Nat.lt_of_succ_lt room) (fun _ => Nat.le_refl depth) ?_
    refine (clearPageTable_simulates (points_repage depth held _) room).bind fun _ _ => ?_
    refine .skip (.pop (depth + 1) _) ?_
    exact .free (Nat.lt_of_succ_lt room) _ _
  · exact .pure depth held () rfl

theorem clearRootTable_simulates (points : Points depth held p ph)
    (room : depth + 2 < mapperPages) :
    Simulates depth held (clearRootTable p) (clear 3 ph) fun _ => depth := by
  rw [clear_three]
  refine .forM fun i => (Simulates.read32 points i).bind fun w _ => ?_
  show Simulates depth held (if udtIsResident (descriptorType w) then _ else _)
    (if udtIsResident (descriptorType w) then _ else _) _
  split
  · refine .push (by omega) (fun _ => Nat.le_refl depth) ?_
    refine (clearPointerTable_simulates (points_repage depth held _) room).bind fun _ _ => ?_
    refine .skip (.pop (depth + 1) _) ?_
    refine .above (Nat.le_refl depth) _ (fun _ => Nat.le_refl depth) ?_
    refine (Simulates.free (by omega) held _).bind fun _ _ => ?_
    exact .modify32 points i _
  · exact .pure depth held () rfl

theorem clearUserspace_simulates (room : depth + 3 < mapperPages) (userspace : Nat) :
    Simulates depth held (clearUserspace userspace) (clear 3 (rootLevelFieldAddr userspace))
      fun _ => depth := by
  unfold clearUserspace
  dsimp only
  refine .push (by omega) (fun _ => Nat.le_refl depth) ?_
  have inner := clearRootTable_simulates (points_repage depth held (rootLevelFieldAddr userspace))
    room
  have popped := inner.bind fun _ _ => Simulates.pop (depth + 1) _
  rwa [bind_pure_unit] at popped

theorem freeUserspace_simulates (room : depth + 3 < mapperPages) (userspace : Nat) :
    Simulates depth held (freeUserspace userspace)
      (do
        clear 3 (rootLevelFieldAddr userspace)
        free (rootLevelFieldAddr userspace))
      fun _ => depth :=
  (clearUserspace_simulates room userspace).bind fun _ _ => .free (by omega) held _

theorem alloc_aligned {ph : Nat} (gives : Gives alloc ph) : ph % pageSize = 0 := by
  obtain ⟨s, s', given⟩ := gives
  unfold alloc at given
  split at given
  · obtain ⟨rfl, -⟩ := Prod.mk.inj (Option.some.inj given)
    rfl
  · split at given
    · next aligned =>
        obtain ⟨rfl, -⟩ := Prod.mk.inj (Option.some.inj given)
        exact aligned
    · exact nomatch given

/-- Where a loop of the clone leaves the stack: an error has taken everything off. -/
def cloneAfter (depth out : Nat) (r : Int) : Nat := if r < 0 then out else depth

theorem cloneAfter_le {out : Nat} (below : out ≤ depth) (r : Int) : cloneAfter depth out r ≤ depth := by
  unfold cloneAfter
  split
  · exact below
  · exact Nat.le_refl depth

theorem clonePage_simulates (reads : Points depth held p source) (writes : Points depth held q target)
    (room : depth + 1 < mapperPages) (k : Nat) :
    Simulates depth held (clonePage p q k) (copyEntry 1 (copy 0) source target k)
      (cloneAfter depth (depth - 6)) := by
  have shrinks (r : Int) : cloneAfter depth (depth - 6) r ≤ depth :=
    cloneAfter_le (Nat.sub_le depth 6) r
  refine (Simulates.read32 reads k).bind fun w _ => ?_
  show Simulates depth held (if pdtIsResident (descriptorType w) then _ else _)
    (if pdtIsResident (descriptorType w) then _ else _) _
  split
  · refine (Simulates.alloc (Nat.lt_of_succ_lt room) held).bind fun ph gives => ?_
    split
    · exact .skip (.pops held 6 depth) (.pure _ held _ rfl)
    · rw [show link 1 source target k ph = _ from if_pos rfl]
      simp only [bind_assoc]
      refine .push (Nat.lt_of_succ_lt room) shrinks ?_
      refine (Simulates.read32 (reads.update _) k).bind fun whole _ => ?_
      refine (Simulates.write32 (writes.update _) k whole).bind fun _ _ => ?_
      refine (Simulates.modify32 (writes.update _) k _).bind fun _ _ => ?_
      refine (Simulates.read32 (reads.update _) k).bind fun w _ => ?_
      refine .push room (fun r => Nat.le_succ_of_le (shrinks r)) ?_
      have pageTo := (points_page depth held (alloc_aligned gives)).update (base (address 1 w))
      have pageFrom := points_page (depth + 1) (Function.update held depth (base ph))
        (Nat.mul_mod_left (physicalAddress w) pageSize)
      refine (Simulates.memcpyPage pageTo pageFrom (Nat.mul_mod_left _ _)).bind fun _ _ => ?_
      exact .skip (.pops _ 2 (depth + 2)) (.pure _ _ _ rfl)
  · refine (Simulates.modify32 writes k _).bind fun _ _ => ?_
    exact .pure depth held 0 rfl

/-- What is left when the loop over a copied table ends. -/
theorem cloneAfter_result {out : Nat} (held : Nat → Nat) (r : Int) :
    Simulates (cloneAfter (depth + 2) out r) held
      (if r < 0 then Pure.pure r
        else do
          mappingPops 2
          Pure.pure 0)
      (if r < 0 then Pure.pure r else Pure.pure 0) (cloneAfter depth out) := by
  unfold cloneAfter
  by_cases negative : r < 0
  · rw [if_pos negative, if_pos negative, if_pos negative]
    exact .pure out held r (if_pos negative)
  · rw [if_neg negative, if_neg negative, if_neg negative]
    exact .skip (.pops held 2 (depth + 2)) (.pure depth held 0 rfl)

/-- An outer loop of the clone, given the loop inside it. -/
theorem cloneTable_simulates {level mapped : Nat} {clone : Nat → Nat → Nat → Action Int}
    (upper : level + 1 ≠ 1)
    (inner : ∀ {held : Nat → Nat} {p q source target : Nat},
      Points (depth + 2) held p source → Points (depth + 2) held q target → ∀ i,
        Simulates (depth + 2) held (clone p q i) (copyEntry level (copy (level - 1)) source target i)
          (cloneAfter (depth + 2) (depth - mapped)))
    (deeper : level ≠ 0) (reads : Points depth held p source) (writes : Points depth held q target)
    (room : depth + 1 < mapperPages) (i : Nat) :
    Simulates depth held
      (cloneTable (address (level + 1)) (setAddress (level + 1)) mapped (entries level) clone p q i)
      (copyEntry (level + 1) (copy level) source target i) (cloneAfter depth (depth - mapped)) := by
  obtain ⟨below, rfl⟩ := Nat.exists_eq_succ_of_ne_zero deeper
  have shrinks (r : Int) : cloneAfter depth (depth - mapped) r ≤ depth :=
    cloneAfter_le (Nat.sub_le depth mapped) r
  have tests (w : Nat) : isResident (below.succ + 1) w = udtIsResident (descriptorType w) :=
    if_neg upper
  refine (Simulates.read32 reads i).bind fun w _ => ?_
  rw [tests]
  split
  · refine (Simulates.alloc (Nat.lt_of_succ_lt room) held).bind fun ph gives => ?_
    split
    · exact .skip (.pops held mapped depth) (.pure _ held _ rfl)
    · rw [show link (below.succ + 1) source target i ph = _ from if_neg upper]
      simp only [bind_assoc]
      refine .push (Nat.lt_of_succ_lt room) shrinks ?_
      refine (Simulates.modify32 (writes.update _) i _).bind fun _ _ => ?_
      refine (Simulates.modify32 (writes.update _) i _).bind fun _ _ => ?_
      refine (Simulates.read32 (reads.update _) i).bind fun w _ => ?_
      refine .push room (fun r => Nat.le_succ_of_le (shrinks r)) ?_
      have tableTo := (points_page depth held (alloc_aligned gives)).update
        (base (address (below.succ + 1) w))
      have tableFrom := points_repage (depth + 1) (Function.update held depth (base ph))
        (address (below.succ + 1) w)
      exact (Simulates.each (inner tableFrom tableTo)).bind fun r _ => cloneAfter_result _ r
  · refine (Simulates.modify32 writes i _).bind fun _ _ => ?_
    exact .pure depth held 0 rfl

theorem clonePageTable_simulates (reads : Points depth held p source)
    (writes : Points depth held q target) (room : depth + 3 < mapperPages) (j : Nat) :
    Simulates depth held (clonePageTable p q j) (copyEntry 2 (copy 1) source target j)
      (cloneAfter depth (depth - 4)) := by
  have inner {held : Nat → Nat} {p q source target : Nat} (reads : Points (depth + 2) held p source)
      (writes : Points (depth + 2) held q target) (k : Nat) :=
    clonePage_simulates reads writes room k
  have out : depth + 2 - 6 = depth - 4 := by omega
  rw [out] at inner
  exact cloneTable_simulates (by decide) inner (by decide) reads writes (by omega) j

theorem clonePointerTable_simulates (reads : Points depth held p source)
    (writes : Points depth held q target) (room : depth + 5 < mapperPages) (i : Nat) :
    Simulates depth held (clonePointerTable p q i) (copyEntry 3 (copy 2) source target i)
      (cloneAfter depth (depth - 2)) := by
  have inner {held : Nat → Nat} {p q source target : Nat} (reads : Points (depth + 2) held p source)
      (writes : Points (depth + 2) held q target) (j : Nat) :=
    clonePageTable_simulates reads writes room j
  have out : depth + 2 - 4 = depth - 2 := by omega
  rw [out] at inner
  exact cloneTable_simulates (by decide) inner (by decide) reads writes (by omega) i

/-- The clone leaves the stack as it found it, whatever the result. -/
theorem cloneUserspace_simulates (room : depth + 7 < mapperPages) (source target : Nat) :
    Simulates depth held (cloneUserspace source target)
      (copy 3 (rootLevelFieldAddr source) (rootLevelFieldAddr target)) fun _ => depth := by
  unfold cloneUserspace
  dsimp only
  have shrinks (r : Int) : depth ≤ depth + 1 := Nat.le_succ depth
  refine .push (by omega) (fun _ => Nat.le_refl depth) ?_
  refine .push (by omega) shrinks ?_
  have tableFrom := (points_repage depth held (rootLevelFieldAddr source)).update
    (base (rootLevelFieldAddr target))
  have tableTo := points_repage (depth + 1)
    (Function.update held depth (base (rootLevelFieldAddr source))) (rootLevelFieldAddr target)
  have same : (fun _ => depth) = cloneAfter depth depth := by
    funext r
    exact (ite_self depth).symm
  rw [same]
  refine (Simulates.each (clonePointerTable_simulates tableFrom tableTo room)).bind fun r _ => ?_
  exact cloneAfter_result _ r

section AllocAt

variable {α : Type} {f : Nat → Action α} {g : Nat → Work α} {after : α → Nat} {table : Nat}

/-- Both ways to a table leave a pointer to it on the stack. -/
theorem tableBelow_simulates {level : Nat} (upper : level ≠ 1) (points : Points depth held p table)
    (room : depth < mapperPages) (shrinks : ∀ r, after r ≤ depth) (i : Nat)
    (rest : ∀ q ph, Points (depth + 1) (Function.update held depth (base ph)) q ph →
      Simulates (depth + 1) (Function.update held depth (base ph)) (f q) (g ph) after) :
    Simulates depth held (tableBelow (address level) (setAddress level) p i >>= f)
      (tableAt level table i >>= g) after := by
  unfold tableBelow tableAt
  simp only [bind_assoc]
  refine (Simulates.read32 points i).bind fun w _ => ?_
  have tests : isResident level w = udtIsResident (descriptorType w) := if_neg upper
  rw [tests]
  by_cases resident : udtIsResident (descriptorType w) = true
  · rw [if_pos resident, if_pos resident]
    simp only [bind_assoc, pure_bind]
    refine .push room shrinks ?_
    exact rest _ _ (points_repage depth held _)
  · rw [if_neg resident, if_neg resident]
    simp only [bind_assoc, pure_bind]
    refine (Simulates.alloc room held).bind fun ph gives => ?_
    refine .push room shrinks ?_
    refine (Simulates.modify32 (points.update _) i _).bind fun _ _ => ?_
    refine (Simulates.modify32 (points.update _) i _).bind fun _ _ => ?_
    exact rest _ _ (points_page depth held (alloc_aligned gives))

theorem pointerTableAt_eq : pointerTableAt = tableBelow (address 3) (setAddress 3) := rfl

theorem pageTableAt_eq : pageTableAt = tableBelow (address 2) (setAddress 2) := rfl

theorem replacePage_simulates (points : Points depth held p table) (room : depth < mapperPages)
    (k : Nat) (writeProtected : Bool) :
    Simulates depth held (Mmu.replacePage p k writeProtected)
      (Frames.replacePage table k writeProtected)
      fun _ => depth := by
  refine (Simulates.read32 points k).bind fun w _ => ?_
  show Simulates depth held (if pdtIsResident (descriptorType w) then _ else _)
    (if pdtIsResident (descriptorType w) then _ else _) _
  split
  · refine (Simulates.modify32 points k _).bind fun _ _ => ?_
    refine (Simulates.read32 points k).bind fun w _ => ?_
    exact .free room held _
  · exact .pure depth held () rfl

theorem pageAt_simulates (points : Points depth held p table) (room : depth < mapperPages)
    (k : Nat) (supervisor writeProtected : Bool) :
    Simulates depth held (Mmu.pageAt p k supervisor writeProtected)
      (Frames.pageAt table k supervisor writeProtected) fun _ => depth := by
  refine (replacePage_simulates points room k writeProtected).bind fun _ _ => ?_
  refine (Simulates.alloc room held).bind fun frame _ => ?_
  rw [placed_steps fun _ g => modifyEntry_modifyEntry table k g]
  simp only [bind_assoc]
  refine (Simulates.modify32 points k _).bind fun _ _ => ?_
  refine (Simulates.modify32 points k _).bind fun _ _ => ?_
  refine (Simulates.modify32 points k _).bind fun _ _ => ?_
  refine (Simulates.modify32 points k _).bind fun _ _ => ?_
  refine (Simulates.modify32 points k _).bind fun _ _ => ?_
  exact .pure depth held frame rfl

theorem allocBelow_simulates (room : depth + 3 < mapperPages) (rp virt : Nat)
    (supervisor writeProtected : Bool) :
    Simulates depth held (allocBelow rp virt supervisor writeProtected)
      (Frames.allocAt (rootLevelFieldAddr rp) virt supervisor writeProtected) fun _ => depth := by
  unfold allocBelow
  dsimp only
  rw [pointerTableAt_eq, pageTableAt_eq]
  unfold Frames.allocAt
  refine .push (by omega) (fun _ => Nat.le_refl depth) ?_
  refine tableBelow_simulates (by decide : 3 ≠ 1) (points_repage depth held _) (by omega)
    (fun _ => Nat.le_succ depth) _ fun q ph pointer => ?_
  refine tableBelow_simulates (by decide : 2 ≠ 1) pointer (by omega)
    (fun _ => Nat.le_add_right depth 2) _ fun q ph pointer => ?_
  have page : Simulates (depth + 3) _ _ _ fun _ => depth + 3 :=
    pageAt_simulates pointer (by omega) (pageTableIndex virt) supervisor writeProtected
  exact page.popped

/-- The root pointer register a call of `mmu040_alloc_at` reads. -/
def rootPointer (m : Mmu) (supervisor : Bool) : Nat := if supervisor then m.srp else m.urp

theorem allocAt_eq (m : Mmu) (virt : Nat) (supervisor writeProtected : Bool) :
    Mmu.allocAt virt supervisor writeProtected m =
      allocBelow (m.rootPointer supervisor) virt supervisor writeProtected m := by
  have read : getRootPointer supervisor m = some (m.rootPointer supervisor, m) := by
    cases supervisor with
    | true => rfl
    | false => rfl
  exact bind_of_some read

end AllocAt

end Operations

end TrollOS.Mmu
