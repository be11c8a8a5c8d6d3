import TrollOS.Mmu.Discipline
import TrollOS.Mmu.Startup

/-!
# Staying in the page

A page table has half the size of the other tables and its address is a multiple of 128
only, so it can reach over the end of its page into the next slot of the window.  Which
page tables a call reads is in the memory, so what an action does to it is followed here
as well: `P` holds of the physical memory before the action, and `Q` after it.
-/

namespace TrollOS.Mmu

open TrollOS.Lib Frames
open Function (update)

namespace Access

def InPage (a : Access) : Prop := a.pointer.offset + a.offset + a.bytes ≤ pageSize

end Access

namespace Watched

variable {α β : Type}

structure Stay (srp : Nat) (held : Nat → Nat) (w : Watch) (result : Option α × Watch)
    (Q : α → Frames → Prop) (after : α → Nat) : Prop where
  inPage : ∀ a ∈ result.2.log, a ∈ w.log ∨ a.InPage
  srp : ∀ r, result.1 = some r → result.2.mmu.srp = srp
  mapping : ∀ r, result.1 = some r → result.2.mmu.mapping = after r
  held : ∀ r, result.1 = some r → ∀ slot, slot < after r → result.2.mmu.window slot = held slot
  post : ∀ r, result.1 = some r → Q r result.2.mmu.frames

/-- From a stack of `depth` slots, which hold the frames `held`, and a memory with `P`, the
action accesses nothing beyond the page of a slot, and ends at `after` with `Q`. -/
def Stays (srp depth : Nat) (held : Nat → Nat) (P : Frames → Prop) (x : Watched α)
    (Q : α → Frames → Prop) (after : α → Nat) : Prop :=
  ∀ w, w.mmu.srp = srp → w.mmu.mapping = depth → (∀ slot, slot < depth → w.mmu.window slot = held slot) →
    P w.mmu.frames → Stay srp held w (x w) Q after

/-- A pointer, and the physical address behind it. -/
structure Leads (depth : Nat) (held : Nat → Nat) (p : Pointer) (ph : Nat) : Prop where
  below : p.slot < depth
  frame : held p.slot = base ph
  offset : p.offset = ph % pageSize

section Pointers

variable {depth ph : Nat} {held : Nat → Nat} {p : Pointer}

theorem Leads.points (leads : Leads depth held p ph) : Points depth held p.value ph :=
  ⟨p.slot, leads.below, congrArg (p.slot * pageSize + ·) leads.offset, leads.frame⟩

theorem Leads.update (leads : Leads depth held p ph) (other : Nat) :
    Leads (depth + 1) (update held depth other) p ph := by
  refine ⟨Nat.lt_succ_of_lt leads.below, ?_, leads.offset⟩
  rw [Function.update_of_ne (Nat.ne_of_lt leads.below)]
  exact leads.frame

theorem leads_repage (depth : Nat) (held : Nat → Nat) (ph entries : Nat) :
    Leads (depth + 1) (Function.update held depth (base ph)) ((pushed depth ph).repage ph entries) ph :=
  ⟨Nat.lt_succ_self depth, Function.update_self .., rfl⟩

theorem base_mod (ph : Nat) : base ph % pageSize = 0 := Nat.mul_mod_left _ _

theorem base_base (ph : Nat) : base (base ph) = base ph := base_of_aligned (base_mod ph)

theorem leads_base (depth : Nat) (held : Nat → Nat) (ph : Nat) :
    Leads (depth + 1) (Function.update held depth (base ph)) (pushed depth ph) (base ph) :=
  ⟨Nat.lt_succ_self depth, (Function.update_self ..).trans (base_base ph).symm, (base_mod ph).symm⟩

theorem leads_pushed (depth : Nat) (held : Nat → Nat) {ph : Nat} (aligned : ph % pageSize = 0) :
    Leads (depth + 1) (Function.update held depth (base ph)) (pushed depth ph) ph :=
  ⟨Nat.lt_succ_self depth, Function.update_self .., aligned.symm⟩

end Pointers

namespace Stays

variable {srp depth : Nat} {held : Nat → Nat} {P P' : Frames → Prop} {Q : α → Frames → Prop}
  {R : β → Frames → Prop}

theorem pure (a : α) {after : α → Nat} (stays : after a = depth) (ends : ∀ s, P s → Q a s) :
    Stays srp depth held P (Pure.pure a) Q after := by
  intro w root mapping shows holds
  refine ⟨fun _ member => Or.inl member, ?_, ?_, ?_, ?_⟩
  · rintro r ⟨⟩
    exact root
  · rintro r ⟨⟩
    exact mapping.trans stays.symm
  · rintro r ⟨⟩ slot below
    exact shows slot (stays ▸ below)
  · rintro r ⟨⟩
    exact ends _ holds

theorem bind {x : Watched α} {f : α → Watched β} {mid : α → Nat} {after : β → Nat}
    (first : Stays srp depth held P x Q mid)
    (rest : ∀ r, Stays srp (mid r) held (Q r) (f r) R after) :
    Stays srp depth held P (x >>= f) R after := by
  intro w root mapping shows holds
  obtain ⟨inPage, sameRoot, deep, held', post⟩ := first w root mapping shows holds
  rw [bind_eq]
  rcases ran : x w with ⟨_ | a, w'⟩
  · rw [ran] at inPage
    exact ⟨inPage, fun _ wrong => (nomatch wrong), fun _ wrong => (nomatch wrong),
      fun _ wrong => (nomatch wrong), fun _ wrong => (nomatch wrong)⟩
  · rw [ran] at inPage sameRoot deep held' post
    have second := rest a w' (sameRoot a rfl) (deep a rfl) (held' a rfl) (post a rfl)
    refine ⟨fun access member => ?_, second.srp, second.mapping, second.held, second.post⟩
    rcases second.inPage access member with before | good
    · exact inPage access before
    · exact Or.inr good

/-- The first step of an action that something follows. -/
theorem bindThen {γ : Type} {S : γ → Frames → Prop} {x : Watched α} {f : α → Watched β} {f' : β → Watched γ}
    {mid : α → Nat} {after : γ → Nat} (first : Stays srp depth held P x Q mid)
    (rest : ∀ r, Stays srp (mid r) held (Q r) (f r >>= f') S after) :
    Stays srp depth held P (x >>= f >>= f') S after := by
  rw [bind_bind]
  exact first.bind rest

/-- What is known of the memory may say something about a value. -/
theorem given {φ : Prop} {x : Watched α} {after : α → Nat} (fact : ∀ s, P s → φ)
    (rest : φ → Stays srp depth held P x Q after) : Stays srp depth held P x Q after :=
  fun w root mapping shows holds => rest (fact _ holds) w root mapping shows holds

theorem weaken {x : Watched α} {after : α → Nat} (weaker : ∀ s, P s → P' s)
    (inner : Stays srp depth held P' x Q after) : Stays srp depth held P x Q after :=
  fun w root mapping shows holds => inner w root mapping shows (weaker _ holds)

/-- An action that leaves the window and the stack alone. -/
theorem plain {x : Action α}
    (steady : ∀ m r, x m = some r → r.2.srp = m.srp ∧ r.2.mapping = m.mapping ∧ r.2.window = m.window)
    (ends : ∀ m r, x m = some r → m.srp = srp → P m.frames → Q r.1 r.2.frames) :
    Stays srp depth held P (Watched.plain x) Q fun _ => depth := by
  intro w root mapping shows holds
  cases ran : x w.mmu with
  | none =>
      rw [plain_none ran]
      exact ⟨fun _ member => Or.inl member, fun _ wrong => (nomatch wrong), fun _ wrong => (nomatch wrong),
        fun _ wrong => (nomatch wrong), fun _ wrong => (nomatch wrong)⟩
  | some r =>
      obtain ⟨sameRoot, sameMapping, sameWindow⟩ := steady _ _ ran
      rw [plain_some ran]
      refine ⟨fun _ member => Or.inl member, fun _ _ => sameRoot.trans root,
        fun _ _ => sameMapping.trans mapping, fun _ _ slot below => ?_, ?_⟩
      · show r.2.window slot = _
        rw [sameWindow]
        exact shows slot below
      · rintro a ⟨⟩
        exact ends _ _ ran root holds

theorem note {p : Pointer} {offset bytes : Nat} {x : Watched α} {after : α → Nat}
    (inPage : p.offset + offset + bytes ≤ pageSize) (rest : Stays srp depth held P x Q after) :
    Stays srp depth held P (Watched.note p offset bytes >>= fun _ => x) Q after := by
  intro w root mapping shows holds
  obtain ⟨inPage', sameRoot, deep, held', post⟩ :=
    rest { w with log := ⟨p, offset, bytes, w.mmu.mapping, w.mmu.window p.slot⟩ :: w.log } root mapping shows
      holds
  refine ⟨fun access member => ?_, sameRoot, deep, held', post⟩
  rcases inPage' access member with logged | good
  · rcases List.mem_cons.mp logged with rfl | before
    · exact Or.inr inPage
    · exact Or.inl before
  · exact Or.inr good

theorem push {ph : Nat} {f : Pointer → Watched α} {after : α → Nat} (shrinks : ∀ r, after r ≤ depth)
    (rest : Stays srp (depth + 1) (update held depth (base ph)) P (f (pushed depth ph)) Q after) :
    Stays srp depth held P (Watched.mappingPush ph >>= f) Q after := by
  intro w root mapping shows holds
  by_cases full : mapperPages ≤ depth
  · rw [mappingPush_bind_full f (mapping ▸ full)]
    exact ⟨fun _ member => Or.inl member, fun _ wrong => (nomatch wrong), fun _ wrong => (nomatch wrong),
      fun _ wrong => (nomatch wrong), fun _ wrong => (nomatch wrong)⟩
  · rw [mappingPush_bind_room f (mapping ▸ Nat.not_le.mp full), mapping]
    have shows' : ∀ slot, slot < depth + 1 →
        (w.mmu.withSlot ph).window slot = update held depth (base ph) slot := by
      intro slot below
      show (if slot = w.mmu.mapping then base ph else w.mmu.window slot) = _
      rw [mapping]
      by_cases last : slot = depth
      · rw [if_pos last, last, Function.update_self]
      · rw [if_neg last, Function.update_of_ne last]
        exact shows slot (Nat.lt_of_le_of_ne (Nat.le_of_lt_succ below) last)
    obtain ⟨inPage, sameRoot, deep, held', post⟩ :=
      rest { w with mmu := w.mmu.withSlot ph } root (congrArg (· + 1) mapping) shows' holds
    refine ⟨inPage, sameRoot, deep, fun r ran slot below => ?_, post⟩
    have other : slot ≠ depth := Nat.ne_of_lt (Nat.lt_of_lt_of_le below (shrinks r))
    rw [held' r ran slot below, Function.update_of_ne other]

theorem pushThen {ph : Nat} {f : Pointer → Watched α} {f' : α → Watched β} {after : β → Nat}
    (shrinks : ∀ r, after r ≤ depth)
    (rest : Stays srp (depth + 1) (update held depth (base ph)) P (f (pushed depth ph) >>= f') R after) :
    Stays srp depth held P (Watched.mappingPush ph >>= f >>= f') R after := by
  rw [bind_bind]
  exact push shrinks rest

/-- What is behind the slots above the stack does not matter. -/
theorem above {slot : Nat} (unused : depth ≤ slot) (other : Nat) {x : Watched α} {after : α → Nat}
    (shrinks : ∀ r, after r ≤ depth) (inner : Stays srp depth held P x Q after) :
    Stays srp depth (update held slot other) P x Q after := by
  have same : ∀ k, k < depth → update held slot other k = held k := fun k below =>
    Function.update_of_ne (Nat.ne_of_lt (Nat.lt_of_lt_of_le below unused)) _ _
  intro w root mapping shows holds
  obtain ⟨inPage, sameRoot, deep, held', post⟩ :=
    inner w root mapping (fun k below => (shows k below).trans (same k below)) holds
  refine ⟨inPage, sameRoot, deep, fun r ran k below => (held' r ran k below).trans ?_, post⟩
  exact (same k (Nat.lt_of_lt_of_le below (shrinks r))).symm

theorem pops (depth n : Nat) : Stays srp depth held P (Watched.mappingPops n) (fun _ => P) fun _ => depth - n := by
  intro w root mapping shows holds
  have ran : ∀ m, Mmu.mappingPops n m = some ((), { m with mapping := m.mapping - n }) := by
    clear mapping
    induction n with
    | zero => exact fun m => rfl
    | succ n ih =>
        intro m
        refine (ih { m with mapping := m.mapping - 1 }).trans ?_
        dsimp only
        rw [Nat.sub_sub, Nat.add_comm 1 n]
  have watched : Watched.mappingPops n w =
      (some (), { w with mmu := { w.mmu with mapping := w.mmu.mapping - n } }) := plain_some (ran _)
  rw [watched]
  exact ⟨fun _ member => Or.inl member, fun _ _ => root, fun _ _ => congrArg (· - n) mapping,
    fun _ _ slot below => shows slot (Nat.lt_of_lt_of_le below (Nat.sub_le depth n)), fun _ _ => holds⟩

theorem pop (depth : Nat) : Stays srp depth held P Watched.mappingPop (fun _ => P) fun _ => depth - 1 :=
  pops depth 1

section Access

variable {p : Pointer} {ph i : Nat}

/-- A word is read: `v` is what the memory has there. -/
theorem read32 (leads : Leads depth held p ph) (fits : ph % pageSize + 4 * i + 4 ≤ pageSize) :
    Stays srp depth held P (Watched.read32 p i) (fun v s => P s ∧ v = s.mem.load32 (ph + 4 * i))
      fun _ => depth := by
  refine .note (by rw [leads.offset]; exact fits) fun w root mapping shows holds => ?_
  refine ⟨fun _ member => Or.inl member, fun _ _ => root, fun _ _ => mapping, fun _ _ => shows, ?_⟩
  intro v ran
  have place : w.mmu.translate (p.value + 4 * i) = ph + 4 * i := leads.points.translate shows (by omega)
  have word : v = w.mmu.mem.load32 (w.mmu.translate (p.value + 4 * i)) := (Option.some.inj ran).symm
  exact ⟨holds, place ▸ word⟩

theorem write32 {R : Unit → Frames → Prop} (leads : Leads depth held p ph)
    (fits : ph % pageSize + 4 * i + 4 ≤ pageSize) (v : Nat)
    (ends : ∀ s, P s → R () { s with mem := s.mem.store32 (ph + 4 * i) v }) :
    Stays srp depth held P (Watched.write32 p i v) R fun _ => depth := by
  refine .note (by rw [leads.offset]; exact fits) fun w root mapping shows holds => ?_
  refine ⟨fun _ member => Or.inl member, fun _ _ => root, fun _ _ => mapping, fun _ _ => shows, ?_⟩
  intro _ _
  have place : w.mmu.translate (p.value + 4 * i) = ph + 4 * i := leads.points.translate shows (by omega)
  have stored := ends _ holds
  rw [← place] at stored
  exact stored

theorem modify32 {R : Unit → Frames → Prop} (leads : Leads depth held p ph)
    (fits : ph % pageSize + 4 * i + 4 ≤ pageSize) (f : Nat → Nat)
    (ends : ∀ s, P s →
      R () { s with mem := s.mem.store32 (ph + 4 * i) (f (s.mem.load32 (ph + 4 * i))) }) :
    Stays srp depth held P (Watched.modify32 p i f) R fun _ => depth := by
  refine (read32 leads fits).bind fun v => write32 leads fits (f v) fun s holds => ?_
  rw [holds.2]
  exact ends s holds.1

theorem zero4k {R : Unit → Frames → Prop} (leads : Leads depth held p ph) (aligned : ph % pageSize = 0)
    (ends : ∀ s, P s → R () { s with mem := s.mem.zero ph pageSize }) :
    Stays srp depth held P (Watched.zero4k p) R fun _ => depth := by
  refine .note (by rw [leads.offset, aligned]; exact Nat.le_refl _) fun w root mapping shows holds => ?_
  refine ⟨fun _ member => Or.inl member, fun _ _ => root, fun _ _ => mapping, fun _ _ => shows, ?_⟩
  intro _ _
  have zeroed := ends _ holds
  rw [← leads.points.translate_page shows aligned] at zeroed
  exact zeroed

theorem memcpyPage {p' : Pointer} {src : Nat} {R : Unit → Frames → Prop} (dst : Leads depth held p ph)
    (source : Leads depth held p' src) (aligned : ph % pageSize = 0) (aligned' : src % pageSize = 0)
    (ends : ∀ s, P s → R () { s with mem := s.mem.copy ph s.mem src pageSize }) :
    Stays srp depth held P (Watched.memcpyPage p p') R fun _ => depth := by
  refine .note (by rw [source.offset, aligned']; exact Nat.le_refl _) ?_
  refine .note (by rw [dst.offset, aligned]; exact Nat.le_refl _) fun w root mapping shows holds => ?_
  refine ⟨fun _ member => Or.inl member, fun _ _ => root, fun _ _ => mapping, fun _ _ => shows, ?_⟩
  intro _ _
  have copied := ends _ holds
  rw [← dst.points.translate_page shows aligned, ← source.points.translate_page shows aligned'] at copied
  exact copied

/-- The table of a word that is not looked at. -/
theorem touch (fits : p.offset + 4 * i + 4 ≤ pageSize) :
    Stays srp depth held (fun _ => True) (Watched.read32 p i) (fun _ _ => True) fun _ => depth :=
  .note fits (.plain (fun m r ran => by rw [← Option.some.inj ran]; exact ⟨rfl, rfl, rfl⟩)
    fun _ _ _ _ _ => trivial)

end Access

section Loops

/-- A loop. -/
theorem forM {indices : List Nat} {f : Nat → Watched Unit}
    (body : ∀ i ∈ indices, Stays srp depth held P (f i) (fun _ => P) fun _ => depth) :
    Stays srp depth held P (indices.forM f) (fun _ => P) fun _ => depth := by
  induction indices with
  | nil => exact pure _ rfl fun _ holds => holds
  | cons i rest ih =>
      refine (body i List.mem_cons_self).bind fun _ => ih fun j member => ?_
      exact body j (List.mem_cons_of_mem _ member)

theorem foldlM {indices : List Nat} {f : Nat → Nat → Watched Nat}
    (body : ∀ a, ∀ i ∈ indices, Stays srp depth held P (f a i) (fun _ => P) fun _ => depth) (a : Nat) :
    Stays srp depth held P (indices.foldlM f a) (fun _ => P) fun _ => depth := by
  induction indices generalizing a with
  | nil => exact pure _ rfl fun _ holds => holds
  | cons i rest ih =>
      refine (body a i List.mem_cons_self).bind fun b => ih (fun c j member => ?_) b
      exact body c j (List.mem_cons_of_mem _ member)

/-- A loop that can end the function, with the stack at `out`. -/
theorem each {indices : List Nat} {f : Nat → Watched Int} {out : Nat}
    (body : ∀ i ∈ indices, Stays srp depth held P (f i) (fun _ => P) fun r => if r < 0 then out else depth) :
    Stays srp depth held P (Mmu.each indices f) (fun _ => P) fun r => if r < 0 then out else depth := by
  induction indices with
  | nil => exact pure _ rfl fun _ holds => holds
  | cons i rest ih =>
      refine (body i List.mem_cons_self).bind fun r => ?_
      by_cases negative : r < 0
      · rw [if_pos negative, if_pos negative]
        exact pure r (if_pos negative) fun _ holds => holds
      · rw [if_neg negative, if_neg negative]
        exact ih fun j member => body j (List.mem_cons_of_mem _ member)

end Loops

end Stays

/-! ## Frames -/

section Frames

variable {srp depth : Nat} {held : Nat → Nat} {P : Frames → Prop}

theorem getMemLayout_stays :
    Stays srp depth held P (plain Action.getMemLayout)
      (fun l s => P s ∧ l.freeFrames = s.freeFrames ∧ l.freeFrame = s.freeFrame) fun _ => depth :=
  .plain (fun m r ran => by rw [← Option.some.inj ran]; exact ⟨rfl, rfl, rfl⟩)
    fun m r ran _ holds => by rw [← Option.some.inj ran]; exact ⟨holds, rfl, rfl⟩

theorem setMemLayout_stays {R : Unit → Frames → Prop} (l : MemLayout)
    (ends : ∀ s, P s → R () ⟨s.mem, l.freeFrames, l.freeFrame⟩) :
    Stays srp depth held P (plain (Action.setMemLayout l)) R fun _ => depth :=
  .plain (fun m r ran => by rw [← Option.some.inj ran]; exact ⟨rfl, rfl, rfl⟩)
    fun m r ran _ holds => by rw [← Option.some.inj ran]; exact ends _ holds

/-- What `_alloc_frame` does to the memory. -/
theorem allocFrame_stays {R : Nat → Frames → Prop} (none : ∀ s, P s → s.freeFrames = 0 → R 0 s)
    (some : ∀ s, P s → s.freeFrames ≠ 0 → R s.freeFrame
      ⟨s.mem.zero (base s.freeFrame) pageSize, s.freeFrames - 1, s.mem.load32 (base s.freeFrame)⟩) :
    Stays srp depth held P Watched.allocFrame R fun _ => depth := by
  refine getMemLayout_stays.bind fun l => ?_
  by_cases empty : l.freeFrames = 0
  · rw [if_pos empty]
    exact .pure 0 rfl fun s holds => none s holds.1 (holds.2.1.symm.trans empty)
  · rw [if_neg empty]
    refine Stays.bind (Q := fun _ s => ∃ s₀, (P s₀ ∧ l.freeFrames = s₀.freeFrames ∧
      l.freeFrame = s₀.freeFrame) ∧ s.mem = s₀.mem) (setMemLayout_stays _ fun s holds => ⟨s, holds, rfl⟩) ?_
    refine fun _ => .push (fun _ => Nat.le_refl depth) ?_
    have page := leads_base depth held l.freeFrame
    have first : base l.freeFrame % pageSize + 4 * 0 + 4 ≤ pageSize := by
      rw [base_mod]
      decide
    refine (Stays.read32 page first).bind fun next => ?_
    refine Stays.bind (Q := fun _ s => ∃ s₀, (P s₀ ∧ s₀.freeFrames ≠ 0 ∧ l.freeFrame = s₀.freeFrame) ∧
      s = ⟨s₀.mem, s₀.freeFrames - 1, s₀.mem.load32 (base s₀.freeFrame)⟩)
      (setMemLayout_stays _ fun s holds => ?_) fun _ => ?_
    · obtain ⟨⟨s₀, ⟨holds, count, head⟩, same⟩, read⟩ := holds
      refine ⟨s₀, ⟨holds, count ▸ empty, head⟩, ?_⟩
      rw [read, same, count, head, Nat.mul_zero, Nat.add_zero]
    refine Stays.bind (Q := fun _ s => R l.freeFrame s) (.zero4k page (base_mod _) fun s holds => ?_)
      fun _ => (Stays.pop (depth + 1)).bind fun _ => .pure l.freeFrame rfl fun _ holds => holds
    obtain ⟨s₀, ⟨holds, left, head⟩, rfl⟩ := holds
    rw [head]
    exact some s₀ holds left

/-- What `_free_frame` does to the memory. -/
theorem freeFrame_stays {R : Unit → Frames → Prop} (ph : Nat)
    (ends : ∀ s, P s → R () ⟨s.mem.store32 (base ph) s.freeFrame, s.freeFrames, ph⟩) :
    Stays srp depth held P (Watched.freeFrame ph) R fun _ => depth := by
  refine .push (fun _ => Nat.le_refl depth) ?_
  refine getMemLayout_stays.bind fun l => ?_
  have first : base ph % pageSize + 4 * 0 + 4 ≤ pageSize := by
    rw [base_mod]
    decide
  refine Stays.bind (Q := fun _ s => ∃ s₀, P s₀ ∧ l.freeFrames = s₀.freeFrames ∧
    s.mem = s₀.mem.store32 (base ph) s₀.freeFrame)
    (.write32 (leads_base depth held ph) first _ fun s holds => ⟨s, holds.1, holds.2.1, ?_⟩) fun _ => ?_
  · rw [holds.2.2, Nat.mul_zero, Nat.add_zero]
  refine Stays.bind (Q := R) (setMemLayout_stays _ fun s holds => ?_) fun _ => .pop (depth + 1)
  obtain ⟨s₀, holds, count, stored⟩ := holds
  rw [stored, count]
  exact ends s₀ holds

end Frames

/-! ## Starting up -/

section Starting

variable {mem : ByteMem} {srp depth : Nat} {held : Nat → Nat} {p : Pointer} {ph : Nat}

theorem entry_inPage {n i : Nat} (fits : ph % pageSize + 4 * n ≤ pageSize) (small : i < n) :
    ph % pageSize + 4 * i + 4 ≤ pageSize := by omega

/-- The walk over the supervisor's tables changes the counter only. -/
theorem skipPage_stays (leads : Leads depth held p ph) {k : Nat} (fits : ph % pageSize + 4 * k + 4 ≤ pageSize)
    (freeFrame : Nat) :
    Stays srp depth held (fun s => s.mem = mem) (Watched.skipPage p freeFrame k) (fun _ s => s.mem = mem)
      fun _ => depth := by
  refine (Stays.read32 leads fits).bind fun w => .weaken (fun s holds => holds.1) ?_
  dsimp only
  split
  · split
    · refine getMemLayout_stays.bind fun l => .weaken (fun s holds => holds.1) ?_
      refine Stays.bind (Q := fun _ s => s.mem = mem) (setMemLayout_stays _ fun s same => same) fun _ => ?_
      exact .pure _ rfl fun _ same => same
    · exact .pure _ rfl fun _ same => same
  · exact .pure _ rfl fun _ same => same

theorem skipPageTable_stays (leads : Leads depth held p ph) (whole : Whole mem 2 ph) {j : Nat}
    (small : j < pointerLevelDescriptors) (freeFrame : Nat) :
    Stays srp depth held (fun s => s.mem = mem) (Watched.skipPageTable p freeFrame j)
      (fun _ s => s.mem = mem) fun _ => depth := by
  refine (Stays.read32 leads (entry_inPage whole.1 small)).bind fun w => ?_
  dsimp only
  by_cases resident : udtIsResident (descriptorType w) = true
  · rw [if_pos resident]
    refine .given (fun s holds => ?_) fun (below : Whole mem 1 (address 2 w)) =>
      .weaken (fun s holds => holds.1) ?_
    · obtain ⟨same, rfl⟩ := holds
      rw [same] at resident ⊢
      exact whole.2 j small _ (if_pos resident)
    · refine .push (fun _ => Nat.le_refl depth) ?_
      have table := leads_repage depth held (address 2 w) pageDescriptors
      refine (Stays.foldlM (fun a k member => ?_) freeFrame).bind fun a => ?_
      · exact skipPage_stays table (entry_inPage below.1 (List.mem_range.mp member)) a
      · exact (Stays.pop (depth + 1)).bind fun _ => .pure a rfl fun _ same => same
  · rw [if_neg resident]
    exact .pure _ rfl fun _ holds => holds.1

theorem skipPointerTable_stays (whole : Whole mem 3 (rootLevelFieldAddr srp)) {i : Nat}
    (small : i < rootLevelDescriptors) (freeFrame : Nat) :
    Stays srp depth held (fun s => s.mem = mem) (Watched.skipPointerTable freeFrame i)
      (fun _ s => s.mem = mem) fun _ => depth := by
  refine Stays.bind (Q := fun w s => s.mem = mem ∧ w = mem.load32 (rootLevelFieldAddr srp + 4 * i))
    (.plain (fun m r ran => ?_) fun m r ran root same => ?_) fun w => ?_
  · rw [← Option.some.inj ran]
    exact ⟨rfl, rfl, rfl⟩
  · rw [← Option.some.inj ran, ← root, ← same]
    exact ⟨rfl, rfl⟩
  dsimp only
  by_cases resident : udtIsResident (descriptorType w) = true
  · rw [if_pos resident]
    refine .given (fun s holds => ?_) fun (below : Whole mem 2 (address 3 w)) =>
      .weaken (fun s holds => holds.1) ?_
    · obtain ⟨-, rfl⟩ := holds
      exact whole.2 i small _ (if_pos resident)
    · refine .push (fun _ => Nat.le_refl depth) ?_
      have table := leads_repage depth held (address 3 w) pointerLevelDescriptors
      refine (Stays.foldlM (fun a j member => ?_) freeFrame).bind fun a => ?_
      · exact skipPageTable_stays table below (List.mem_range.mp member) a
      · exact (Stays.pop (depth + 1)).bind fun _ => .pure a rfl fun _ same => same
  · rw [if_neg resident]
    exact .pure _ rfl fun _ holds => holds.1

theorem init_stays (whole : Whole mem 3 (rootLevelFieldAddr srp)) :
    Stays srp depth held (fun s => s.mem = mem) Watched.init (fun _ _ => True) fun _ => depth := by
  refine Stays.bind (Q := fun _ s => s.mem = mem) (setMemLayout_stays _ fun s same => same) fun _ => ?_
  have list : Stays srp depth held (fun s => s.mem = mem) Watched.buildFreeFrameList (fun _ _ => True)
      fun _ => depth := by
    refine (Stays.foldlM (fun a i member => ?_) _).bind fun start => ?_
    · exact skipPointerTable_stays whole (List.mem_range.mp member) a
    · refine getMemLayout_stays.bind fun l => .weaken (fun s _ => trivial) ?_
      refine (Stays.forM fun n _ => freeFrame_stays _ fun _ _ => trivial).bind fun _ => ?_
      exact getMemLayout_stays.bind fun l => .pure _ rfl fun _ _ => trivial
  exact list.bind fun _ => .pure () rfl fun _ _ => trivial

end Starting

/-! ## Giving a space back -/

section Clearing

variable {mem mem' : ByteMem} {srp depth : Nat} {held : Nat → Nat} {p : Pointer} {ph : Nat}

/-- Every word is what it was, or leads nowhere. -/
def Fewer (mem mem' : ByteMem) : Prop :=
  ∀ a, a % 4 = 0 → mem'.load32 a = mem.load32 a ∨ descriptorType (mem'.load32 a) = 0

theorem Fewer.store32 (fewer : Fewer mem mem') {a v : Nat} (aligned : a % 4 = 0)
    (off : descriptorType v = 0) : Fewer mem (mem'.store32 a v) := by
  intro b aligned'
  by_cases here : b = a
  · right
    have word : (mem'.store32 a v).load32 a = v % 2 ^ 32 := ByteMem.load32_store32_mod mem' a v
    rw [here, word]
    unfold descriptorType
    rw [field_mod v (by decide)]
    exact off
  · rw [ByteMem.load32_store32_off mem' v (by omega)]
    exact fewer b aligned'

/-- A word of an address leads nowhere. -/
theorem descriptorType_aligned {v : Nat} (aligned : v % 4 = 0) : descriptorType v = 0 := by
  unfold descriptorType field
  rw [Nat.pow_zero, Nat.div_one]
  exact aligned

theorem not_resident_of_type {w : Nat} (level : Nat) (off : descriptorType w = 0) :
    isResident level w = false := by
  unfold isResident
  rw [off]
  split
  · rfl
  · rfl

/-- What an entry leads to, it led to before. -/
theorem Fewer.child (fewer : Fewer mem mem') {level table i : Nat} (aligned : table % 4 = 0)
    (resident : isResident level (mem'.load32 (table + 4 * i)) = true) :
    Frames.child mem level table i = some (address level (mem'.load32 (table + 4 * i))) := by
  rcases fewer (table + 4 * i) (by omega) with same | off
  · rw [same] at resident ⊢
    exact if_pos resident
  · rw [not_resident_of_type level off] at resident
    exact nomatch resident

/-- While a space is given back, its tables lose entries only. -/
structure Emptied (mem : ByteMem) (s : Frames) : Prop where
  fewer : Fewer mem s.mem
  link : s.freeFrame % 4 = 0

theorem rootLevelFieldAddr_mod (f : Nat) : rootLevelFieldAddr f % 4 = 0 := by
  unfold rootLevelFieldAddr
  omega

theorem address_aligned (level w : Nat) : address level w % 4 = 0 := by
  unfold address
  split
  · unfold pageLevelFieldAddr
    omega
  · unfold pointerLevelFieldAddr
    omega
  · exact rootLevelFieldAddr_mod _

theorem freeFrame_emptied {ph : Nat} (aligned : ph % 4 = 0) :
    Stays srp depth held (Emptied mem) (Watched.freeFrame ph) (fun _ => Emptied mem) fun _ => depth := by
  refine freeFrame_stays ph fun s emptied => ⟨emptied.fewer.store32 ?_ ?_, aligned⟩
  · have page := base_mod ph
    unfold pageSize at page
    omega
  · exact descriptorType_aligned emptied.link

theorem clearPageTable_stays (leads : Leads depth held p ph)
    (fits : ph % pageSize + 4 * pageDescriptors ≤ pageSize) :
    Stays srp depth held (Emptied mem) (Watched.clearPageTable p) (fun _ => Emptied mem) fun _ => depth := by
  refine .forM fun k member => ?_
  refine (Stays.read32 leads (entry_inPage fits (List.mem_range.mp member))).bind fun w => ?_
  refine .weaken (fun s holds => holds.1) ?_
  split
  · exact freeFrame_emptied (address_aligned 1 w)
  · exact .pure () rfl fun _ holds => holds

theorem clearPointerTable_stays (leads : Leads depth held p ph) (whole : Whole mem 2 ph) (aligned : ph % 4 = 0) :
    Stays srp depth held (Emptied mem) (Watched.clearPointerTable p) (fun _ => Emptied mem)
      fun _ => depth := by
  refine .forM fun j member => ?_
  have small := List.mem_range.mp member
  refine (Stays.read32 leads (entry_inPage whole.1 small)).bind fun w => ?_
  by_cases resident : udtIsResident (descriptorType w) = true
  · rw [if_pos resident]
    refine .given (fun s holds => ?_) fun (below : Whole mem 1 (address 2 w)) =>
      .weaken (fun s holds => holds.1) ?_
    · rw [holds.2] at resident ⊢
      exact whole.2 j small _ (holds.1.fewer.child aligned resident)
    · refine .push (fun _ => Nat.le_refl depth) ?_
      refine (clearPageTable_stays (leads_repage depth held _ _) below.1).bind fun _ => ?_
      refine (Stays.pop (depth + 1)).bind fun _ => ?_
      exact freeFrame_emptied (address_aligned 2 w)
  · rw [if_neg resident]
    exact .pure () rfl fun _ holds => holds.1

theorem clearRootTable_stays (leads : Leads depth held p ph) (whole : Whole mem 3 ph) (aligned : ph % 4 = 0) :
    Stays srp depth held (Emptied mem) (Watched.clearRootTable p) (fun _ => Emptied mem)
      fun _ => depth := by
  refine .forM fun i member => ?_
  have small := List.mem_range.mp member
  have fits := entry_inPage whole.1 small
  refine (Stays.read32 leads fits).bind fun w => ?_
  by_cases resident : udtIsResident (descriptorType w) = true
  · rw [if_pos resident]
    refine .given (fun s holds => ?_) fun (below : Whole mem 2 (address 3 w)) =>
      .weaken (fun s holds => holds.1) ?_
    · rw [holds.2] at resident ⊢
      exact whole.2 i small _ (holds.1.fewer.child aligned resident)
    · refine .push (fun _ => Nat.le_refl depth) ?_
      refine (clearPointerTable_stays (leads_repage depth held _ _) below (address_aligned 3 w)).bind
        fun _ => ?_
      refine (Stays.pop (depth + 1)).bind fun _ => ?_
      refine .above (Nat.le_refl depth) _ (fun _ => Nat.le_refl depth) ?_
      refine (freeFrame_emptied (address_aligned 3 w)).bind fun _ => ?_
      refine .modify32 leads fits _ fun s emptied => ⟨emptied.fewer.store32 (by omega) ?_, emptied.link⟩
      exact descriptorType_set _ 0
  · rw [if_neg resident]
    exact .pure () rfl fun _ holds => holds.1

theorem clearUserspace_stays {userspace : Nat} (whole : Whole mem 3 (rootLevelFieldAddr userspace)) :
    Stays srp depth held (Emptied mem) (Watched.clearUserspace userspace) (fun _ => Emptied mem)
      fun _ => depth := by
  refine .push (fun _ => Nat.le_refl depth) ?_
  exact (clearRootTable_stays (leads_repage depth held _ _) whole (rootLevelFieldAddr_mod userspace)).bind
    fun _ => .pop (depth + 1)

theorem freeUserspace_stays {userspace : Nat} (whole : Whole mem 3 (rootLevelFieldAddr userspace)) :
    Stays srp depth held (Emptied mem) (Watched.freeUserspace userspace) (fun _ => Emptied mem)
      fun _ => depth :=
  (clearUserspace_stays whole).bind fun _ => freeFrame_emptied (rootLevelFieldAddr_mod userspace)

end Clearing

/-! ## Copying a space -/

section Copying

variable {mem : ByteMem} {srp depth : Nat} {held : Nat → Nat} {p p' : Pointer} {source target level i : Nat}
  {sources chain writes : List Nat} {s : Frames}

/-- While a space is copied, the pages with its tables stay as they are, and the free list
is as good as before; the pages that are written are not on it. -/
structure Copying (mem : ByteMem) (sources chain writes : List Nat) (s : Frames) : Prop where
  agree : Agree mem s.mem (sources.map base)
  list : ∃ rest, Pool s rest ∧ rest ⊆ chain ∧ ∀ t ∈ writes, t ∉ rest

structure Source (mem : ByteMem) (sources : List Nat) (level t : Nat) : Prop where
  whole : Whole mem level t
  within : tables mem level t ⊆ sources

structure Target (sources writes : List Nat) (t : Nat) : Prop where
  fits : t % pageSize + 4 * 128 ≤ pageSize
  written : base t ∈ writes
  apart : base t ∉ sources.map base

theorem Target.mono {f : Nat} (tar : Target sources writes target) : Target sources (f :: writes) target :=
  ⟨tar.fits, List.mem_cons_of_mem f tar.written, tar.apart⟩

/-- An entry of a table that is copied stays as it is. -/
theorem Source.word (src : Source mem sources (level + 1) source) (small : i < entries (level + 1))
    (copying : Copying mem sources chain writes s) :
    s.mem.load32 (source + 4 * i) = mem.load32 (source + 4 * i) := by
  have inPage := src.whole.1
  have place := base_add_mod source
  have member : base source ∈ sources.map base := List.mem_map_of_mem (src.within (mem_tables_self ..))
  exact ByteMem.load32_congr fun x low high => copying.agree _ member x ⟨by omega, by omega⟩

theorem Source.child (src : Source mem sources (level + 1) source) (small : i < entries (level + 1))
    (resident : isResident (level + 1) (mem.load32 (source + 4 * i)) = true) :
    Source mem sources level (address (level + 1) (mem.load32 (source + 4 * i))) := by
  have leads : Frames.child mem (level + 1) source i =
      some (address (level + 1) (mem.load32 (source + 4 * i))) := if_pos resident
  exact ⟨src.whole.2 i small _ leads, fun t deeper => src.within (mem_tables_child small leads deeper)⟩

/-- One of the pages that are written changes. -/
theorem Copying.change {t : Nat} {mem' : ByteMem} (copying : Copying mem sources chain writes s)
    (unchanged : Unchanged pageSize s.mem mem' [base t]) (written : base t ∈ writes)
    (apart : base t ∉ sources.map base) : Copying mem sources chain writes { s with mem := mem' } := by
  obtain ⟨rest, pool, within, out⟩ := copying.list
  have aligned (b : Nat) (member : b ∈ [base t]) : b % pageSize = 0 := by
    rw [List.mem_singleton.mp member]
    exact base_mod t
  have still : Agree s.mem mem' (sources.map base) := by
    refine agree_of_unchanged unchanged aligned (fun f member => ?_) fun f member same => ?_
    · obtain ⟨g, -, rfl⟩ := List.mem_map.mp member
      exact base_mod g
    · rw [List.mem_singleton.mp same] at member
      exact apart member
  refine ⟨fun f member x inside => (still f member x inside).trans (copying.agree f member x inside),
    rest, pool.unchanged unchanged aligned fun f member same => ?_, within, out⟩
  rw [List.mem_singleton.mp same] at member
  exact out _ written member

theorem Copying.store (copying : Copying mem sources chain writes s) (tar : Target sources writes target)
    (small : i < 128) (v : Nat) :
    Copying mem sources chain writes { s with mem := s.mem.store32 (target + 4 * i) v } := by
  have fits := tar.fits
  have place := base_add_mod target
  exact copying.change (Unchanged.store32 s.mem v (by omega) (by omega)) tar.written tar.apart

theorem write32_copying (changes : Leads depth held p target) (tar : Target sources writes target)
    (small : i < 128) (v : Nat) :
    Stays srp depth held (Copying mem sources chain writes) (Watched.write32 p i v)
      (fun _ => Copying mem sources chain writes) fun _ => depth :=
  .write32 changes (entry_inPage tar.fits small) v fun _ copying => copying.store tar small v

theorem modify32_copying (changes : Leads depth held p target) (tar : Target sources writes target)
    (small : i < 128) (f : Nat → Nat) :
    Stays srp depth held (Copying mem sources chain writes) (Watched.modify32 p i f)
      (fun _ => Copying mem sources chain writes) fun _ => depth :=
  .modify32 changes (entry_inPage tar.fits small) f fun _ copying => copying.store tar small _

/-- A frame for the copy, if there is one. -/
theorem allocFrame_copying (free : ∀ f ∈ chain, f ∉ sources.map base) :
    Stays srp depth held (Copying mem sources chain writes) Watched.allocFrame
      (fun f s => (f = 0 ∧ Copying mem sources chain writes s) ∨
        IsFrame f ∧ f ∉ sources.map base ∧ Copying mem sources chain (f :: writes) s) fun _ => depth := by
  refine allocFrame_stays (fun s copying _ => Or.inl ⟨rfl, copying⟩) fun s copying left => Or.inr ?_
  obtain ⟨rest, pool, within, out⟩ := copying.list
  obtain ⟨f, rest', rfl, -, pool'⟩ := pool.alloc left
  have head : s.freeFrame = f := pool.linked.1
  have frame := pool.frames f List.mem_cons_self
  have apart := free f (within List.mem_cons_self)
  rw [head, base_frame frame]
  have zeroed : Agree s.mem (s.mem.zero f pageSize) (sources.map base) := by
    refine agree_of_unchanged (Unchanged.zero s.mem f)
      (fun b member => (List.mem_singleton.mp member).symm ▸ frame.aligned) (fun g member => ?_)
      fun g member same => apart ((List.mem_singleton.mp same) ▸ member)
    obtain ⟨t, -, rfl⟩ := List.mem_map.mp member
    exact base_mod t
  refine ⟨frame, apart, fun g member x inside => ?_, rest', pool', ?_, fun t member => ?_⟩
  · exact (zeroed g member x inside).trans (copying.agree g member x inside)
  · exact fun g member => within (List.mem_cons_of_mem f member)
  · rcases List.mem_cons.mp member with rfl | older
    · exact (List.nodup_cons.mp pool.distinct).1
    · exact fun later => out t older (List.mem_cons_of_mem f later)

theorem Copying.fewer {f : Nat} (copying : Copying mem sources chain (f :: writes) s) :
    Copying mem sources chain writes s := by
  obtain ⟨agree, rest, pool, within, out⟩ := copying
  exact ⟨agree, rest, pool, within, fun t member => out t (List.mem_cons_of_mem f member)⟩

/-- What follows an attempt to get a frame for the copy. -/
theorem allocFrame_bind {α : Type} {f : Nat → Watched α} {Q : α → Frames → Prop} {after : α → Nat}
    (free : ∀ f ∈ chain, f ∉ sources.map base)
    (none : Stays srp depth held (Copying mem sources chain writes) (f 0) Q after)
    (some : ∀ ph, IsFrame ph → ph ∉ sources.map base →
      Stays srp depth held (Copying mem sources chain (ph :: writes)) (f ph) Q after) :
    Stays srp depth held (Copying mem sources chain writes) (Watched.allocFrame >>= f) Q after := by
  refine (allocFrame_copying free).bind fun ph => ?_
  by_cases failed : ph = 0
  · rw [failed]
    refine .weaken (fun s holds => ?_) none
    rcases holds with ⟨-, copying⟩ | ⟨-, -, copying⟩
    · exact copying
    · exact copying.fewer
  · refine .given (fun s holds => ?_) fun (facts : IsFrame ph ∧ ph ∉ sources.map base) =>
      .weaken (fun s holds => ?_) (some ph facts.1 facts.2)
    · rcases holds with ⟨zero, -⟩ | ⟨frame, apart, -⟩
      · exact absurd zero failed
      · exact ⟨frame, apart⟩
    · rcases holds with ⟨zero, -⟩ | ⟨-, -, copying⟩
      · exact absurd zero failed
      · exact copying

/-- A frame of the copy as a table. -/
theorem target_frame {f : Nat} (frame : IsFrame f) (apart : f ∉ sources.map base) :
    Target sources (f :: writes) f := by
  refine ⟨?_, ?_, ?_⟩
  · rw [frame.aligned]
    decide
  · rw [base_frame frame]
    exact List.mem_cons_self
  · rw [base_frame frame]
    exact apart

theorem clonePage_stays (free : ∀ f ∈ chain, f ∉ sources.map base) (reads : Leads depth held p source)
    (changes : Leads depth held p' target) (src : Source mem sources 1 source)
    (tar : Target sources writes target) {k : Nat} (small : k < pageDescriptors) :
    Stays srp depth held (Copying mem sources chain writes) (Watched.clonePage p p' k)
      (fun _ => Copying mem sources chain writes) (stackAfter depth (depth - 6)) := by
  have shrinks (r : Int) : stackAfter depth (depth - 6) r ≤ depth := stackAfter_le (Nat.sub_le depth 6) r
  have inSource := entry_inPage src.whole.1 small
  have small128 : k < 128 := Nat.lt_of_lt_of_le small (by decide)
  refine (Stays.read32 reads inSource).bind fun w => .weaken (fun s holds => holds.1) ?_
  split
  · refine allocFrame_bind free ?_ fun ph frame apart => ?_
    · exact (Stays.pops depth 6).bind fun _ => .pure (-enomem) rfl fun _ holds => holds
    · rw [if_neg frame.positive]
      refine .push shrinks ?_
      refine (Stays.read32 (reads.update _) inSource).bind fun whole => .weaken (fun s holds => holds.1) ?_
      refine (write32_copying (changes.update _) tar.mono small128 whole).bind fun _ => ?_
      refine (modify32_copying (changes.update _) tar.mono small128 _).bind fun _ => ?_
      refine (Stays.read32 (reads.update _) inSource).bind fun w => .weaken (fun s holds => holds.1) ?_
      refine .push (fun r => Nat.le_succ_of_le (shrinks r)) ?_
      have page : Target sources (ph :: writes) ph := target_frame frame apart
      refine Stays.bind (Q := fun _ => Copying mem sources chain (ph :: writes))
        (.memcpyPage ((leads_pushed depth held frame.aligned).update _)
          (leads_base (depth + 1) _ _) frame.aligned (base_mod _) fun s copying => ?_) fun _ => ?_
      · refine copying.change (t := ph) ?_ page.written page.apart
        rw [base_frame frame]
        exact Unchanged.copy s.mem s.mem ph _
      · exact (Stays.pops (depth + 2) 2).bind fun _ => .pure 0 rfl fun _ copying => copying.fewer
  · exact (modify32_copying changes tar small128 _).bind fun _ => .pure 0 rfl fun _ holds => holds

/-- What is left when the loop over a copied table ends. -/
theorem stackAfter_stays {out : Nat} {P : Frames → Prop} (r : Int) :
    Stays srp (stackAfter (depth + 2) out r) held P
      (if r < 0 then Pure.pure r
        else do
          Watched.mappingPops 2
          Pure.pure 0) (fun _ => P) (stackAfter depth out) := by
  unfold stackAfter
  by_cases negative : r < 0
  · rw [if_pos negative, if_pos negative]
    exact .pure r (if_pos negative) fun _ holds => holds
  · rw [if_neg negative, if_neg negative]
    exact (Stays.pops (depth + 2) 2).bind fun _ => .pure 0 rfl fun _ holds => holds

/-- An outer loop of the clone, given the loop inside it. -/
theorem cloneTable_stays (level : Nat) {setAddress : Nat → Nat → Nat} {mapped descriptors : Nat}
    {clone : Pointer → Pointer → Nat → Watched Int} (upper : level + 1 ≠ 1)
    (inner : ∀ {held : Nat → Nat} {p p' : Pointer} {source target : Nat} {writes : List Nat},
      Leads (depth + 2) held p source → Leads (depth + 2) held p' target → Source mem sources level source →
        Target sources writes target → ∀ i, i < descriptors →
          Stays srp (depth + 2) held (Copying mem sources chain writes) (clone p p' i)
            (fun _ => Copying mem sources chain writes) (stackAfter (depth + 2) (depth - mapped)))
    (free : ∀ f ∈ chain, f ∉ sources.map base) (reads : Leads depth held p source)
    (changes : Leads depth held p' target) (src : Source mem sources (level + 1) source)
    (tar : Target sources writes target) (small : i < entries (level + 1)) :
    Stays srp depth held (Copying mem sources chain writes)
      (Watched.cloneTable (address (level + 1)) setAddress mapped descriptors clone p p' i)
      (fun _ => Copying mem sources chain writes) (stackAfter depth (depth - mapped)) := by
  have shrinks (r : Int) : stackAfter depth (depth - mapped) r ≤ depth :=
    stackAfter_le (Nat.sub_le depth mapped) r
  have small128 : i < 128 := Nat.lt_of_lt_of_le small (entries_le _)
  have inSource := entry_inPage src.whole.1 small
  refine (Stays.read32 reads inSource).bind fun w => ?_
  by_cases resident : udtIsResident (descriptorType w) = true
  · rw [if_pos resident]
    refine .given (fun s holds => ?_) fun
      (leads : isResident (level + 1) (mem.load32 (source + 4 * i)) = true) => ?_
    · rw [← src.word small holds.1, ← holds.2]
      exact (if_neg upper).trans resident
    refine .weaken (fun s holds => holds.1) (allocFrame_bind free ?_ fun ph frame apart => ?_)
    · exact (Stays.pops depth mapped).bind fun _ => .pure (-enomem) rfl fun _ holds => holds
    · rw [if_neg frame.positive]
      refine .push shrinks ?_
      refine (modify32_copying (changes.update _) tar.mono small128 _).bind fun _ => ?_
      refine (modify32_copying (changes.update _) tar.mono small128 _).bind fun _ => ?_
      refine (Stays.read32 (reads.update _) inSource).bind fun w => ?_
      refine .given (fun s holds => ?_) fun (below : Source mem sources level (address (level + 1) w)) =>
        .weaken (fun s holds => holds.1) ?_
      · rw [holds.2, src.word small holds.1]
        exact src.child small leads
      refine .push (fun r => Nat.le_succ_of_le (shrinks r)) ?_
      have tableTo := (leads_pushed depth held frame.aligned).update (base (address (level + 1) w))
      have tableFrom := leads_repage (depth + 1) (Function.update held depth (base ph))
        (address (level + 1) w) descriptors
      refine (Stays.each fun i member => ?_).bind fun r =>
        .weaken (fun s holds => holds.fewer) (stackAfter_stays r)
      exact inner tableFrom tableTo below (target_frame frame apart) i (List.mem_range.mp member)
  · rw [if_neg resident]
    exact .weaken (fun s holds => holds.1) ((modify32_copying changes tar small128 _).bind fun _ => .pure 0 rfl fun _ holds => holds)

theorem clonePageTable_stays (free : ∀ f ∈ chain, f ∉ sources.map base) (reads : Leads depth held p source)
    (changes : Leads depth held p' target) (src : Source mem sources 2 source)
    (tar : Target sources writes target) {j : Nat} (small : j < pointerLevelDescriptors) :
    Stays srp depth held (Copying mem sources chain writes) (Watched.clonePageTable p p' j)
      (fun _ => Copying mem sources chain writes) (stackAfter depth (depth - 4)) := by
  refine cloneTable_stays 1 (by decide) ?_ free reads changes src tar small
  intro held p p' source target writes reads changes src tar k small
  have page : Stays srp _ _ _ _ _ _ := clonePage_stays free reads changes src tar small
  have out : depth + 2 - 6 = depth - 4 := by omega
  rwa [out] at page

theorem clonePointerTable_stays (free : ∀ f ∈ chain, f ∉ sources.map base)
    (reads : Leads depth held p source) (changes : Leads depth held p' target)
    (src : Source mem sources 3 source) (tar : Target sources writes target) {i : Nat}
    (small : i < rootLevelDescriptors) :
    Stays srp depth held (Copying mem sources chain writes) (Watched.clonePointerTable p p' i)
      (fun _ => Copying mem sources chain writes) (stackAfter depth (depth - 2)) := by
  refine cloneTable_stays 2 (by decide) ?_ free reads changes src tar small
  intro held p p' source target writes reads changes src tar j small
  have table : Stays srp _ _ _ _ _ _ := clonePageTable_stays free reads changes src tar small
  have out : depth + 2 - 4 = depth - 2 := by omega
  rwa [out] at table

theorem cloneUserspace_stays {source target : Nat} (free : ∀ f ∈ chain, f ∉ sources.map base)
    (src : Source mem sources 3 (rootLevelFieldAddr source))
    (tar : Target sources writes (rootLevelFieldAddr target)) :
    Stays srp depth held (Copying mem sources chain writes) (Watched.cloneUserspace source target)
      (fun _ => Copying mem sources chain writes) fun _ => depth := by
  refine .push (fun _ => Nat.le_refl depth) (.push (fun _ => Nat.le_succ depth) ?_)
  have tableFrom := (leads_repage depth held (rootLevelFieldAddr source) rootLevelDescriptors).update
    (base (rootLevelFieldAddr target))
  have tableTo := leads_repage (depth + 1) (Function.update held depth (base (rootLevelFieldAddr source)))
    (rootLevelFieldAddr target) rootLevelDescriptors
  have same : (fun _ => depth) = stackAfter depth depth := by
    funext r
    exact (ite_self depth).symm
  rw [same]
  refine (Stays.each fun i member => ?_).bind fun r => stackAfter_stays r
  exact clonePointerTable_stays free tableFrom tableTo src tar (List.mem_range.mp member)

end Copying

/-! ## Placing a page -/

section Placing

variable {srp depth : Nat} {held : Nat → Nat} {p : Pointer} {table i k : Nat} {s₀ : Frames} {α : Type}

/-- The word that leads `mmu040_alloc_at` to the page table: a pointer table that it makes is
empty, but without a free frame it is frame 0. -/
def pageTableWord (s : Frames) (root virt : Nat) : Nat :=
  let entry := root + 4 * rootTableIndex virt
  if isResident 3 (s.mem.load32 entry) then
    s.mem.load32 (address 3 (s.mem.load32 entry) + 4 * pointerTableIndex virt)
  else if s.freeFrames = 0 then
    (s.mem.store32 entry (linked 3 (s.mem.load32 entry) 0)).load32 (4 * pointerTableIndex virt)
  else 0

section Word

variable {s : Frames} {root virt : Nat}

theorem pageTableWord_found (resident : isResident 3 (s.mem.load32 (root + 4 * rootTableIndex virt)) = true) :
    pageTableWord s root virt = s.mem.load32
      (address 3 (s.mem.load32 (root + 4 * rootTableIndex virt)) + 4 * pointerTableIndex virt) :=
  if_pos resident

theorem pageTableWord_none (off : ¬ isResident 3 (s.mem.load32 (root + 4 * rootTableIndex virt)) = true)
    (none : s.freeFrames = 0) :
    pageTableWord s root virt =
      (s.mem.store32 (root + 4 * rootTableIndex virt)
        (linked 3 (s.mem.load32 (root + 4 * rootTableIndex virt)) 0)).load32 (4 * pointerTableIndex virt) :=
  (if_neg off).trans (if_pos none)

end Word

/-- A page table reaches up to an entry at least. -/
def EntryFits (w k : Nat) : Prop :=
  isResident 2 w = true → address 2 w % pageSize + 4 * k + 4 ≤ pageSize

theorem Stays.write32_any (fits : p.offset + 4 * i + 4 ≤ pageSize) (v : Nat) :
    Stays srp depth held (fun _ => True) (Watched.write32 p i v) (fun _ _ => True) fun _ => depth :=
  .note fits (.plain (fun m r ran => by rw [← Option.some.inj ran]; exact ⟨rfl, rfl, rfl⟩)
    fun _ _ _ _ _ => trivial)

theorem Stays.modify32_any (fits : p.offset + 4 * i + 4 ≤ pageSize) (f : Nat → Nat) :
    Stays srp depth held (fun _ => True) (Watched.modify32 p i f) (fun _ _ => True) fun _ => depth :=
  (Stays.touch fits).bind fun w => .write32_any fits (f w)

theorem freeFrame_any (ph : Nat) :
    Stays srp depth held (fun _ => True) (Watched.freeFrame ph) (fun _ _ => True) fun _ => depth :=
  freeFrame_stays ph fun _ _ => trivial

theorem allocFrame_any :
    Stays srp depth held (fun _ => True) Watched.allocFrame (fun _ _ => True) fun _ => depth :=
  allocFrame_stays (fun _ _ _ => trivial) fun _ _ _ => trivial

theorem pageAt_stays (fits : p.offset + 4 * k + 4 ≤ pageSize) (supervisor writeProtected : Bool) :
    Stays srp depth held (fun _ => True) (Watched.pageAt p k supervisor writeProtected) (fun _ _ => True)
      fun _ => depth := by
  have replaced : Stays srp depth held (fun _ => True) (Watched.replacePage p k writeProtected)
      (fun _ _ => True) fun _ => depth := by
    refine (Stays.touch fits).bind fun w => ?_
    split
    · exact (Stays.modify32_any fits _).bind fun _ => (Stays.touch fits).bind fun w => freeFrame_any _
    · exact .pure () rfl fun _ _ => trivial
  refine replaced.bind fun _ => allocFrame_any.bind fun frame => ?_
  refine (Stays.modify32_any fits _).bind fun _ => (Stays.modify32_any fits _).bind fun _ => ?_
  refine (Stays.modify32_any fits _).bind fun _ => (Stays.modify32_any fits _).bind fun _ => ?_
  exact (Stays.modify32_any fits _).bind fun _ => .pure frame rfl fun _ _ => trivial

/-- The memory when `mmu040_alloc_at` has made a table for an entry. -/
def Made (P : Frames → Prop) (setAddress : Nat → Nat → Nat) (table i ph : Nat) (s : Frames) : Prop :=
  ∃ s₀, P s₀ ∧ ∃ mem,
    ((s₀.freeFrames = 0 ∧ ph = 0 ∧ mem = s₀.mem) ∨
      (s₀.freeFrames ≠ 0 ∧ ph = s₀.freeFrame ∧ mem = s₀.mem.zero (base ph) pageSize)) ∧
    s.mem = mem.store32 (table + 4 * i) (setDescriptorType (setAddress (mem.load32 (table + 4 * i)) ph) 2)

/-- The table below an entry, and what follows. -/
theorem tableBelow_stays {P : Frames → Prop} {address : Nat → Nat} {setAddress : Nat → Nat → Nat}
    {descriptors : Nat} {f : Pointer → Watched α} {Q : α → Frames → Prop} {after : α → Nat}
    (word : ∀ w ph, w < 2 ^ 32 → setAddress w ph < 2 ^ 32)
    (leads : Leads depth held p table) (inPage : table % pageSize + 4 * i + 4 ≤ pageSize)
    (shrinks : ∀ r, after r ≤ depth)
    (found : ∀ w, udtIsResident (descriptorType w) = true →
      Stays srp (depth + 1) (update held depth (base (address w)))
        (fun s => P s ∧ w = s.mem.load32 (table + 4 * i))
        (f ((pushed depth (address w)).repage (address w) descriptors)) Q after)
    (made : ∀ ph, Stays srp (depth + 1) (update held depth (base ph))
      (Made (fun s => P s ∧ ¬ udtIsResident (descriptorType (s.mem.load32 (table + 4 * i))) = true)
        setAddress table i ph)
      (f (pushed depth ph)) Q after) :
    Stays srp depth held P (Watched.tableBelow address setAddress descriptors p i >>= f) Q after := by
  rw [Watched.tableBelow]
  refine .bindThen (.read32 leads inPage) fun w => ?_
  by_cases resident : udtIsResident (descriptorType w) = true
  · rw [if_pos resident]
    exact .pushThen shrinks (found w resident)
  · rw [if_neg resident]
    refine Stays.bindThen (Q := fun ph s => ∃ s₀, (P s₀ ∧
      ¬ udtIsResident (descriptorType (s₀.mem.load32 (table + 4 * i))) = true) ∧
        ((s₀.freeFrames = 0 ∧ ph = 0 ∧ s.mem = s₀.mem) ∨
          (s₀.freeFrames ≠ 0 ∧ ph = s₀.freeFrame ∧ s.mem = s₀.mem.zero (base ph) pageSize)))
      (allocFrame_stays (fun s holds none => ?_) fun s holds some => ?_) fun ph => ?_
    · exact ⟨s, ⟨holds.1, holds.2 ▸ resident⟩, Or.inl ⟨none, rfl, rfl⟩⟩
    · exact ⟨s, ⟨holds.1, holds.2 ▸ resident⟩, Or.inr ⟨some, rfl, rfl⟩⟩
    refine .pushThen shrinks ?_
    refine Stays.bindThen (Q := fun _ s => ∃ s₀, (P s₀ ∧
      ¬ udtIsResident (descriptorType (s₀.mem.load32 (table + 4 * i))) = true) ∧ ∃ mem,
        ((s₀.freeFrames = 0 ∧ ph = 0 ∧ mem = s₀.mem) ∨
          (s₀.freeFrames ≠ 0 ∧ ph = s₀.freeFrame ∧ mem = s₀.mem.zero (base ph) pageSize)) ∧
            s.mem = mem.store32 (table + 4 * i) (setAddress (mem.load32 (table + 4 * i)) ph))
      (.modify32 (leads.update _) inPage _ fun s holds => ?_) fun _ => ?_
    · obtain ⟨s₀, holds, taken⟩ := holds
      exact ⟨s₀, holds, s.mem, taken, rfl⟩
    refine Stays.bindThen (.modify32 (leads.update _) inPage _ fun s holds => ?_) fun _ => made ph
    obtain ⟨s₀, holds, mem, taken, same⟩ := holds
    refine ⟨s₀, holds, mem, taken, ?_⟩
    rw [same, ByteMem.load32_store32 _ _ _ (word _ ph (ByteMem.load32_lt _ _)), ByteMem.store32_store32]

/-- The page table below an entry of a pointer table, and what follows. -/
theorem pageTableAt_stays {P : Frames → Prop} {f : Pointer → Watched α} {after : α → Nat}
    (leads : Leads depth held p table) (inPage : table % pageSize + 4 * i + 4 ≤ pageSize)
    (small : k < pageDescriptors) (fits : ∀ s, P s → EntryFits (s.mem.load32 (table + 4 * i)) k)
    (shrinks : ∀ r, after r ≤ depth)
    (rest : ∀ held p, p.offset + 4 * k + 4 ≤ pageSize →
      Stays srp (depth + 1) held (fun _ => True) (f p) (fun _ _ => True) after) :
    Stays srp depth held P (Watched.pageTableAt p i >>= f) (fun _ _ => True) after := by
  rw [Watched.pageTableAt]
  refine tableBelow_stays (fun w ph small => setAddress_lt 2 ph small) leads inPage shrinks
    (fun w resident => ?_) fun ph => ?_
  · refine .given (fun s holds => ?_) fun (fits : EntryFits w k) => .weaken (fun _ _ => trivial) ?_
    · rw [holds.2]
      exact fits s holds.1
    · exact rest _ _ (fits resident)
  · refine .weaken (fun _ _ => trivial) (rest _ _ ?_)
    have zero : (pushed depth ph).offset = 0 := rfl
    rw [zero]
    unfold pageSize
    unfold pageDescriptors at small
    omega

/-- The word for a pointer table, taken for the word for a page table. -/
theorem address_linked_zero (ph : Nat) : address 2 (linked 3 0 ph) % 512 = 0 := by
  have word : pointerTableAddress (linked 3 0 ph) = field (setRootTableAddress 0 (rootLevelAddrField ph)) 7 25 :=
    field_setField_above _ _ 25 (by decide)
  have leads : address 2 (linked 3 0 ph) = pointerLevelFieldAddr (pointerTableAddress (linked 3 0 ph)) := rfl
  rw [leads, word]
  unfold pointerLevelFieldAddr field setRootTableAddress setField
  omega

/-- An entry of a new pointer table is empty, or it is the entry of the root table itself. -/
theorem entryFits_made {P : Frames → Prop} {root ph j : Nat} {s : Frames} (aligned : root % 4 = 0)
    (small : j < 128) (smallK : k < pageDescriptors)
    (empty : ∀ s, P s → s.freeFrames = 0 →
      EntryFits ((s.mem.store32 (root + 4 * i) (linked 3 (s.mem.load32 (root + 4 * i)) 0)).load32 (4 * j)) k)
    (made : Made P (setAddress 3) root i ph s) :
    EntryFits (s.mem.load32 (base ph + 4 * j)) k := by
  obtain ⟨s₀, holds, mem, taken, stored⟩ := made
  rw [stored]
  rcases taken with ⟨none, rfl, rfl⟩ | ⟨some, -, rfl⟩
  · have first : base 0 + 4 * j = 4 * j := Nat.zero_add _
    rw [first]
    exact empty s₀ holds none
  · have page := base_mod ph
    have inPage : 4 * j + 4 ≤ pageSize := by
      unfold pageSize
      omega
    have zero : (s₀.mem.zero (base ph) pageSize).load32 (base ph + 4 * j) = 0 :=
      ByteMem.load32_zero_mem _ (by omega) (by omega)
    intro resident
    by_cases here : base ph + 4 * j = root + 4 * i
    · have word := ByteMem.load32_store32 (s₀.mem.zero (base ph) pageSize) (base ph + 4 * j) (linked 3 0 ph)
        (linked_lt 3 ph (by decide))
      unfold linked at word
      rw [← here, zero, word]
      have aligned' := address_linked_zero ph
      unfold linked at aligned'
      unfold pageSize
      unfold pageDescriptors at smallK
      omega
    · have apart : root + 4 * i + 4 ≤ base ph + 4 * j ∨ base ph + 4 * j + 4 ≤ root + 4 * i := by
        unfold pageSize at page
        omega
      rw [ByteMem.load32_store32_off _ _ apart.symm, zero] at resident
      exact nomatch resident

/-- The pointer table below an entry of the root table, and what follows: the entry of the
pointer table that is looked at next is the word of the memory at the beginning. -/
theorem pointerTableAt_stays {f : Pointer → Watched α} {after : α → Nat} {root virt : Nat}
    (leads : Leads depth held p root) (aligned : root % 512 = 0) (shrinks : ∀ r, after r ≤ depth)
    (fits : EntryFits (pageTableWord s₀ root virt) (pageTableIndex virt))
    (rest : ∀ held p table P, Leads (depth + 1) held p table →
      table % pageSize + 4 * pointerTableIndex virt + 4 ≤ pageSize →
        (∀ s, P s → EntryFits (s.mem.load32 (table + 4 * pointerTableIndex virt)) (pageTableIndex virt)) →
          Stays srp (depth + 1) held P (f p) (fun _ _ => True) after) :
    Stays srp depth held (fun s => s = s₀) (Watched.pointerTableAt p (rootTableIndex virt) >>= f)
      (fun _ _ => True) after := by
  have rootIndex : rootTableIndex virt < 128 := Nat.mod_lt _ (by decide)
  have pointerIndex : pointerTableIndex virt < 128 := Nat.mod_lt _ (by decide)
  have pageIndex : pageTableIndex virt < pageDescriptors := Nat.mod_lt _ (by decide)
  rw [Watched.pointerTableAt]
  refine tableBelow_stays (fun w ph small => setAddress_lt 3 ph small) leads
    (entry_inPage (table_inPage aligned) rootIndex) shrinks (fun w resident => ?_) fun ph => ?_
  · have inTable := entry_inPage (table_inPage (rootLevelFieldAddr_aligned (rootTableAddress w))) pointerIndex
    refine rest _ _ _ _ (leads_repage depth _ _ _) inTable fun s holds => ?_
    obtain ⟨rfl, word⟩ := holds
    rw [word] at resident ⊢
    rwa [pageTableWord_found resident] at fits
  · refine rest _ _ _ _ (leads_base depth _ ph) ?_ fun s made => ?_
    · rw [base_mod]
      unfold pageSize
      omega
    · have aligned4 : root % 4 = 0 := by omega
      refine entryFits_made aligned4 pointerIndex pageIndex (fun s holds none => ?_) made
      obtain ⟨rfl, missing⟩ := holds
      rwa [pageTableWord_none missing none] at fits

theorem allocBelow_stays (rp virt : Nat) (supervisor writeProtected : Bool)
    (fits : EntryFits (pageTableWord s₀ (rootLevelFieldAddr rp) virt) (pageTableIndex virt)) :
    Stays srp depth held (fun s => s = s₀) (Watched.allocBelow rp virt supervisor writeProtected)
      (fun _ _ => True) fun _ => depth := by
  have pageIndex : pageTableIndex virt < pageDescriptors := Nat.mod_lt _ (by decide)
  refine .push (fun _ => Nat.le_refl depth) ?_
  refine pointerTableAt_stays (leads_repage depth held _ _) (rootLevelFieldAddr_aligned rp)
    (fun _ => Nat.le_succ depth) fits fun held p table P leads inPage fits => ?_
  refine pageTableAt_stays leads inPage pageIndex fits (fun _ => Nat.le_add_right depth 2) fun held p inPage => ?_
  refine (pageAt_stays inPage supervisor writeProtected).bind fun frame => ?_
  exact (Stays.pops (depth + 3) 3).bind fun _ => .pure frame rfl fun _ _ => trivial

end Placing

end Watched

end TrollOS.Mmu
