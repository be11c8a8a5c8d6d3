import TrollOS.Mmu.Watching

/-!
# The mapping stack is disciplined

A call of the page mapper leaves the stack as deep as it found it, whatever its result,
and from an empty stack it needs at most eight slots.  While a pointer is used its slot
maps the frame it was pushed for.  The one call that can go beyond the slot is
`mmu040_fill_frame`, with a range that does not fit the frame.
-/

namespace TrollOS.Mmu

open TrollOS.Lib
open Function (update)

def withSlot (m : Mmu) (ph : Nat) : Mmu :=
  { m with
    window := fun slot =>
      if slot = m.mapping then pageLevelFieldAddr (pageLevelAddrField ph) else m.window slot
    mapping := m.mapping + 1 }

theorem mappingPush_room {m : Mmu} (room : m.mapping < mapperPages) (ph : Nat) :
    mappingPush ph m = some (m.mapping * pageSize, m.withSlot ph) :=
  if_neg (Nat.not_le.mpr room)

theorem mappingPush_full {m : Mmu} (full : mapperPages ≤ m.mapping) (ph : Nat) : mappingPush ph m = none :=
  if_pos full

namespace Watched

variable {α β : Type}

/-- What a watched action leaves behind, beside the action it watches. -/
structure Outcome (spare : Pointer → Prop) (top : Nat) (held : Nat → Nat) (w : Watch)
    (result : Option α × Watch) (ran : Option (α × Mmu)) (after : α → Nat) : Prop where
  erased : ran = result.1.map fun a => (a, result.2.mmu)
  right : ∀ a ∈ result.2.log, a ∈ w.log ∨ a.Kept spare
  returns : top ≤ mapperPages → result.1.isSome = true
  mapping : ∀ r, result.1 = some r → result.2.mmu.mapping = after r
  held : ∀ r, result.1 = some r → ∀ slot, slot < after r → result.2.mmu.window slot = held slot

/-- From a stack of `depth` slots, which hold the frames `held`, the action is watched with
all accesses right, goes no deeper than `top` and ends at `after`. -/
def Follows (spare : Pointer → Prop) (top depth : Nat) (held : Nat → Nat) (x : Watched α)
    (y : Action α) (after : α → Nat) : Prop :=
  ∀ w, w.mmu.mapping = depth → (∀ slot, slot < depth → w.mmu.window slot = held slot) →
    Outcome spare top held w (x w) (y w.mmu) after

/-- A pointer, the number it is in the source, and the table behind it. -/
structure StandsFor (spare : Pointer → Prop) (depth : Nat) (held : Nat → Nat) (p : Pointer)
    (q entries : Nat) : Prop where
  below : p.slot < depth
  frame : held p.slot = p.frame
  value : p.value = q
  room : 4 * entries ≤ p.size
  fits : ¬ spare p → p.offset + p.size ≤ pageSize

/-- A page table, which is not always inside one page. -/
def IsPageTable (p : Pointer) : Prop := p.size = 4 * pageDescriptors

section Pointers

variable {spare : Pointer → Prop} {depth q entries : Nat} {held : Nat → Nat} {p : Pointer}

theorem StandsFor.update (stands : StandsFor spare depth held p q entries) (other : Nat) :
    StandsFor spare (depth + 1) (update held depth other) p q entries := by
  refine ⟨Nat.lt_succ_of_lt stands.below, ?_, stands.value, stands.room, stands.fits⟩
  rw [Function.update_of_ne (Nat.ne_of_lt stands.below)]
  exact stands.frame

def pushed (depth ph : Nat) : Pointer := ⟨depth, pageLevelFieldAddr (pageLevelAddrField ph), 0, pageSize⟩

theorem standsFor_pushed (depth : Nat) (held : Nat → Nat) (ph : Nat) {entries : Nat}
    (fits : 4 * entries ≤ pageSize) :
    StandsFor spare (depth + 1) (Function.update held depth (pageLevelFieldAddr (pageLevelAddrField ph)))
      (pushed depth ph) (depth * pageSize) entries :=
  ⟨Nat.lt_succ_self depth, Function.update_self .., Nat.add_zero _, fits, fun _ => Nat.le_of_eq (Nat.zero_add _)⟩

theorem standsFor_repage (depth : Nat) (held : Nat → Nat) {ph entries : Nat}
    (fits : ¬ spare ((pushed depth ph).repage ph entries) → ph % pageSize + 4 * entries ≤ pageSize) :
    StandsFor spare (depth + 1) (Function.update held depth (pageLevelFieldAddr (pageLevelAddrField ph)))
      ((pushed depth ph).repage ph entries) (repage ph (depth * pageSize)) entries := by
  refine ⟨Nat.lt_succ_self depth, Function.update_self .., ?_, Nat.le_refl _, fits⟩
  unfold repage
  rw [Nat.mul_div_cancel _ (by decide)]
  rfl

/-- The tables of the two upper levels start where such a table ends. -/
theorem table_inPage {ph : Nat} (aligned : ph % 512 = 0) : ph % pageSize + 4 * 128 ≤ pageSize := by
  unfold pageSize
  omega

theorem rootLevelFieldAddr_aligned (f : Nat) : rootLevelFieldAddr f % 512 = 0 := Nat.mul_mod_left f 512

theorem standsFor_table (depth : Nat) (held : Nat → Nat) (f : Nat) :
    StandsFor spare (depth + 1)
      (Function.update held depth (pageLevelFieldAddr (pageLevelAddrField (rootLevelFieldAddr f))))
      ((pushed depth (rootLevelFieldAddr f)).repage (rootLevelFieldAddr f) rootLevelDescriptors)
      (repage (rootLevelFieldAddr f) (depth * pageSize)) rootLevelDescriptors :=
  standsFor_repage depth held fun _ => table_inPage (rootLevelFieldAddr_aligned f)

theorem standsFor_pageTable (depth : Nat) (held : Nat → Nat) (ph : Nat) :
    StandsFor IsPageTable (depth + 1)
      (Function.update held depth (pageLevelFieldAddr (pageLevelAddrField ph)))
      ((pushed depth ph).repage ph pageDescriptors) (repage ph (depth * pageSize)) pageDescriptors :=
  standsFor_repage depth held fun other => absurd rfl other

theorem mappingPush_bind_room (f : Pointer → Watched α) {w : Watch} {ph : Nat}
    (room : w.mmu.mapping < mapperPages) :
    (Watched.mappingPush ph >>= f) w =
      f (pushed w.mmu.mapping ph) { w with mmu := w.mmu.withSlot ph } := by
  unfold Watched.mappingPush pushed
  rw [bind_bind, bind_eq, plain_some (mappingPush_room room ph)]
  dsimp only
  rw [Nat.mul_div_cancel _ (by decide : 0 < pageSize)]
  rfl

theorem mappingPush_bind_full (f : Pointer → Watched α) {w : Watch} {ph : Nat}
    (full : mapperPages ≤ w.mmu.mapping) : (Watched.mappingPush ph >>= f) w = (none, w) := by
  unfold Watched.mappingPush
  rw [bind_bind, bind_eq, plain_none (mappingPush_full full ph)]

end Pointers

namespace Follows

variable {spare : Pointer → Prop} {top depth : Nat} {held : Nat → Nat}

theorem pure (top depth : Nat) (held : Nat → Nat) (a : α) {after : α → Nat} (stays : after a = depth) :
    Follows spare top depth held (Pure.pure a) (Pure.pure a) after := by
  intro w mapping shows
  refine ⟨rfl, fun _ member => Or.inl member, fun _ => rfl, ?_, ?_⟩
  · rintro r ⟨⟩
    exact mapping.trans stays.symm
  · rintro r ⟨⟩ slot below
    exact shows slot (stays ▸ below)

theorem bind {x : Watched α} {y : Action α} {f : α → Watched β} {g : α → Action β} {mid : α → Nat}
    {after : β → Nat} (first : Follows spare top depth held x y mid)
    (rest : ∀ r, Follows spare top (mid r) held (f r) (g r) after) :
    Follows spare top depth held (x >>= f) (y >>= g) after := by
  intro w mapping shows
  obtain ⟨erased, right, returns, deep, holds⟩ := first w mapping shows
  rw [bind_eq]
  have erased' : (y >>= g) w.mmu = (y w.mmu).bind fun r => g r.1 r.2 := rfl
  rw [erased', erased]
  rcases ran : x w with ⟨_ | a, w'⟩
  · rw [ran] at right returns
    exact ⟨rfl, right, fun room => (nomatch returns room), fun _ wrong => (nomatch wrong),
      fun _ wrong => (nomatch wrong)⟩
  · rw [ran] at right deep holds
    have second := rest a w' (deep a rfl) (holds a rfl)
    refine ⟨second.erased, fun access member => ?_, second.returns, second.mapping, second.held⟩
    rcases second.right access member with before | good
    · exact right access before
    · exact Or.inr good

/-- The first step of an action that something follows. -/
theorem bindThen {γ δ : Type} {x : Watched α} {y : Action α} {f : α → Watched β} {g : α → Action δ}
    {f' : β → Watched γ} {g' : δ → Action γ} {mid : α → Nat} {after : γ → Nat}
    (first : Follows spare top depth held x y mid)
    (rest : ∀ r, Follows spare top (mid r) held (f r >>= f') (g r >>= g') after) :
    Follows spare top depth held (x >>= f >>= f') (y >>= g >>= g') after := by
  rw [bind_bind, bind_assoc]
  exact first.bind rest

/-- An action that leaves the window and the stack alone. -/
theorem plain {x : Action α} (total : ∀ m, (x m).isSome = true)
    (steady : ∀ m r, x m = some r → r.2.mapping = m.mapping ∧ r.2.window = m.window) :
    Follows spare top depth held (Watched.plain x) x fun _ => depth := by
  intro w mapping shows
  obtain ⟨⟨a, m⟩, ran⟩ := Option.isSome_iff_exists.mp (total w.mmu)
  obtain ⟨sameMapping, sameWindow⟩ := steady _ _ ran
  rw [plain_some ran, ran]
  refine ⟨rfl, fun _ member => Or.inl member, fun _ => rfl, fun _ _ => sameMapping.trans mapping, ?_⟩
  intro _ _ slot below
  show m.window slot = _
  rw [sameWindow]
  exact shows slot below

/-- An access is right. -/
theorem note {p : Pointer} {q entries offset bytes : Nat} {x : Watched α} {y : Action α} {after : α → Nat}
    (stands : StandsFor spare depth held p q entries) (inside : offset + bytes ≤ p.size)
    (rest : Follows spare top depth held x y after) :
    Follows spare top depth held (Watched.note p offset bytes >>= fun _ => x) y after := by
  intro w mapping shows
  obtain ⟨erased, right, returns, deep, holds⟩ :=
    rest { w with log := ⟨p, offset, bytes, w.mmu.mapping, w.mmu.window p.slot⟩ :: w.log } mapping shows
  refine ⟨erased, fun access member => ?_, returns, deep, holds⟩
  rcases right access member with logged | good
  · rcases List.mem_cons.mp logged with rfl | before
    · exact Or.inr ⟨mapping ▸ stands.below, (shows _ stands.below).trans stands.frame, inside, stands.fits⟩
    · exact Or.inl before
  · exact Or.inr good

theorem push {ph : Nat} {f : Pointer → Watched α} {g : Nat → Action α} {after : α → Nat}
    (room : depth < top) (shrinks : ∀ r, after r ≤ depth)
    (rest : Follows spare top (depth + 1)
      (update held depth (pageLevelFieldAddr (pageLevelAddrField ph)))
      (f (pushed depth ph)) (g (depth * pageSize)) after) :
    Follows spare top depth held (Watched.mappingPush ph >>= f) (Mmu.mappingPush ph >>= g) after := by
  intro w mapping shows
  by_cases full : mapperPages ≤ depth
  · have erased : (Mmu.mappingPush ph >>= g) w.mmu = none := by
      show (Mmu.mappingPush ph w.mmu).bind _ = none
      rw [mappingPush_full (mapping ▸ full)]
      rfl
    rw [mappingPush_bind_full f (mapping ▸ full), erased]
    exact ⟨rfl, fun _ member => Or.inl member, fun enough => absurd enough (by omega),
      fun _ wrong => (nomatch wrong), fun _ wrong => (nomatch wrong)⟩
  · have left : w.mmu.mapping < mapperPages := mapping ▸ Nat.not_le.mp full
    have erased : (Mmu.mappingPush ph >>= g) w.mmu = g (depth * pageSize) (w.mmu.withSlot ph) := by
      show (Mmu.mappingPush ph w.mmu).bind _ = _
      rw [mappingPush_room left, mapping]
      rfl
    rw [mappingPush_bind_room f left, erased, mapping]
    have shows' : ∀ slot, slot < depth + 1 → (w.mmu.withSlot ph).window slot =
        update held depth (pageLevelFieldAddr (pageLevelAddrField ph)) slot := by
      intro slot below
      show (if slot = w.mmu.mapping then pageLevelFieldAddr (pageLevelAddrField ph) else w.mmu.window slot) = _
      rw [mapping]
      by_cases last : slot = depth
      · rw [if_pos last, last, Function.update_self]
      · rw [if_neg last, Function.update_of_ne last]
        exact shows slot (Nat.lt_of_le_of_ne (Nat.le_of_lt_succ below) last)
    obtain ⟨erased, right, returns, deep, holds⟩ :=
      rest { w with mmu := w.mmu.withSlot ph } (congrArg (· + 1) mapping) shows'
    refine ⟨erased, right, returns, deep, fun r ran slot below => ?_⟩
    have other : slot ≠ depth := Nat.ne_of_lt (Nat.lt_of_lt_of_le below (shrinks r))
    rw [holds r ran slot below, Function.update_of_ne other]

theorem pushThen {γ : Type} {ph : Nat} {f : Pointer → Watched α} {g : Nat → Action γ} {f' : α → Watched β}
    {g' : γ → Action β} {after : β → Nat} (room : depth < top) (shrinks : ∀ r, after r ≤ depth)
    (rest : Follows spare top (depth + 1)
      (update held depth (pageLevelFieldAddr (pageLevelAddrField ph)))
      (f (pushed depth ph) >>= f') (g (depth * pageSize) >>= g') after) :
    Follows spare top depth held (Watched.mappingPush ph >>= f >>= f') (Mmu.mappingPush ph >>= g >>= g') after := by
  rw [bind_bind, bind_assoc]
  exact push room shrinks rest

/-- What is behind the slots above the stack does not matter. -/
theorem above {slot : Nat} (unused : depth ≤ slot) (other : Nat) {x : Watched α} {y : Action α}
    {after : α → Nat} (shrinks : ∀ r, after r ≤ depth) (inner : Follows spare top depth held x y after) :
    Follows spare top depth (update held slot other) x y after := by
  have same : ∀ k, k < depth → update held slot other k = held k := fun k below =>
    Function.update_of_ne (Nat.ne_of_lt (Nat.lt_of_lt_of_le below unused)) _ _
  intro w mapping shows
  obtain ⟨erased, right, returns, deep, holds⟩ :=
    inner w mapping fun k below => (shows k below).trans (same k below)
  refine ⟨erased, right, returns, deep, fun r ran k below => (holds r ran k below).trans ?_⟩
  exact (same k (Nat.lt_of_lt_of_le below (shrinks r))).symm

theorem pops (top depth : Nat) (held : Nat → Nat) (n : Nat) :
    Follows spare top depth held (Watched.mappingPops n) (Mmu.mappingPops n) fun _ => depth - n := by
  intro w mapping shows
  have ran : ∀ m, Mmu.mappingPops n m = some ((), { m with mapping := m.mapping - n }) := by
    induction n with
    | zero => exact fun m => rfl
    | succ n ih =>
        intro m
        refine (ih { m with mapping := m.mapping - 1 }).trans ?_
        dsimp only
        rw [Nat.sub_sub, Nat.add_comm 1 n]
  have watched : Watched.mappingPops n w =
      (some (), { w with mmu := { w.mmu with mapping := w.mmu.mapping - n } }) := plain_some (ran _)
  rw [watched, ran]
  refine ⟨rfl, fun _ member => Or.inl member, fun _ => rfl, fun _ _ => congrArg (· - n) mapping, ?_⟩
  exact fun _ _ slot below => shows slot (Nat.lt_of_lt_of_le below (Nat.sub_le depth n))

theorem pop (top depth : Nat) (held : Nat → Nat) :
    Follows spare top depth held Watched.mappingPop Mmu.mappingPop fun _ => depth - 1 :=
  pops top depth held 1

section Access

variable {p : Pointer} {q entries : Nat}

theorem read32 (stands : StandsFor spare depth held p q entries) {i : Nat} (small : i < entries) :
    Follows spare top depth held (Watched.read32 p i) (Action.read32 (q + 4 * i)) fun _ => depth := by
  rw [← stands.value]
  refine .note stands ?_ (.plain (fun _ => rfl) fun m r ran => ?_)
  · have fits := stands.room
    omega
  · rw [← Option.some.inj ran]
    exact ⟨rfl, rfl⟩

theorem write32 (stands : StandsFor spare depth held p q entries) {i : Nat} (small : i < entries) (v : Nat) :
    Follows spare top depth held (Watched.write32 p i v) (Action.write32 (q + 4 * i) v) fun _ => depth := by
  rw [← stands.value]
  refine .note stands ?_ (.plain (fun _ => rfl) fun m r ran => ?_)
  · have fits := stands.room
    omega
  · rw [← Option.some.inj ran]
    exact ⟨rfl, rfl⟩

theorem modify32 (stands : StandsFor spare depth held p q entries) {i : Nat} (small : i < entries)
    (f : Nat → Nat) :
    Follows spare top depth held (Watched.modify32 p i f) (Action.modify32 (q + 4 * i) f) fun _ => depth :=
  (read32 stands small).bind fun w => write32 stands small (f w)

end Access

/-- A loop. -/
theorem forM {indices : List Nat} {f : Nat → Watched Unit} {g : Nat → Action Unit}
    (body : ∀ i ∈ indices, Follows spare top depth held (f i) (g i) fun _ => depth) :
    Follows spare top depth held (indices.forM f) (indices.forM g) fun _ => depth := by
  induction indices with
  | nil => exact pure top depth held () rfl
  | cons i rest ih =>
      refine (body i List.mem_cons_self).bind fun _ => ih fun j member => ?_
      exact body j (List.mem_cons_of_mem _ member)

theorem foldlM {indices : List Nat} {f : Nat → Nat → Watched Nat} {g : Nat → Nat → Action Nat}
    (body : ∀ a, ∀ i ∈ indices, Follows spare top depth held (f a i) (g a i) fun _ => depth) (a : Nat) :
    Follows spare top depth held (indices.foldlM f a) (indices.foldlM g a) fun _ => depth := by
  induction indices generalizing a with
  | nil => exact pure top depth held a rfl
  | cons i rest ih =>
      refine (body a i List.mem_cons_self).bind fun b => ih (fun c j member => ?_) b
      exact body c j (List.mem_cons_of_mem _ member)

/-- A loop that can end the function, with the stack at `out`. -/
theorem each {indices : List Nat} {f : Nat → Watched Int} {g : Nat → Action Int} {out : Nat}
    (body : ∀ i ∈ indices, Follows spare top depth held (f i) (g i) fun r => if r < 0 then out else depth) :
    Follows spare top depth held (Mmu.each indices f) (Mmu.each indices g)
      fun r => if r < 0 then out else depth := by
  induction indices with
  | nil => exact pure top depth held 0 rfl
  | cons i rest ih =>
      refine (body i List.mem_cons_self).bind fun r => ?_
      by_cases negative : r < 0
      · rw [if_pos negative, if_pos negative, if_pos negative]
        exact pure top out held r (if_pos negative)
      · rw [if_neg negative, if_neg negative, if_neg negative]
        exact ih fun j member => body j (List.mem_cons_of_mem _ member)

end Follows

/-! ## The operations -/

section Operations

variable {spare : Pointer → Prop} {top depth : Nat} {held : Nat → Nat} {p p' : Pointer} {q q' : Nat}

theorem read32_first (stands : StandsFor spare depth held p q 1024) :
    Follows spare top depth held (Watched.read32 p 0) (Action.read32 q) fun _ => depth :=
  Follows.read32 stands (i := 0) (by decide)

theorem write32_first (stands : StandsFor spare depth held p q 1024) (v : Nat) :
    Follows spare top depth held (Watched.write32 p 0 v) (Action.write32 q v) fun _ => depth :=
  Follows.write32 stands (i := 0) (by decide) v

theorem zero4k_follows (stands : StandsFor spare depth held p q 1024) :
    Follows spare top depth held (Watched.zero4k p) (Action.zero4k q) fun _ => depth := by
  rw [← stands.value]
  refine .note stands (by rw [Nat.zero_add]; exact stands.room)
    (.plain (fun _ => rfl) fun m r ran => ?_)
  rw [← Option.some.inj ran]
  exact ⟨rfl, rfl⟩

theorem memcpyPage_follows (dst : StandsFor spare depth held p q 1024) (src : StandsFor spare depth held p' q' 1024) :
    Follows spare top depth held (Watched.memcpyPage p p') (Action.memcpyPage q q') fun _ => depth := by
  rw [← dst.value, ← src.value]
  refine .note src (by rw [Nat.zero_add]; exact src.room) ?_
  refine .note dst (by rw [Nat.zero_add]; exact dst.room)
    (.plain (fun _ => rfl) fun m r ran => ?_)
  rw [← Option.some.inj ran]
  exact ⟨rfl, rfl⟩

theorem getMemLayout_follows :
    Follows spare top depth held (plain Action.getMemLayout) Action.getMemLayout fun _ => depth :=
  .plain (fun _ => rfl) fun m r ran => by rw [← Option.some.inj ran]; exact ⟨rfl, rfl⟩

theorem setMemLayout_follows (l : MemLayout) :
    Follows spare top depth held (plain (Action.setMemLayout l)) (Action.setMemLayout l) fun _ => depth :=
  .plain (fun _ => rfl) fun m r ran => by rw [← Option.some.inj ran]; exact ⟨rfl, rfl⟩

theorem whole_page (depth : Nat) (held : Nat → Nat) (ph : Nat) :
    StandsFor spare (depth + 1) (update held depth (pageLevelFieldAddr (pageLevelAddrField ph)))
      (pushed depth ph) (depth * pageSize) 1024 :=
  standsFor_pushed depth held ph (by decide)

theorem allocFrame_follows (room : depth < top) :
    Follows spare top depth held Watched.allocFrame Mmu.allocFrame fun _ => depth := by
  refine getMemLayout_follows.bind fun l => ?_
  by_cases empty : l.freeFrames = 0
  · rw [if_pos empty, if_pos empty]
    exact .pure top depth held 0 rfl
  · rw [if_neg empty, if_neg empty]
    refine (setMemLayout_follows _).bind fun _ => ?_
    refine .push room (fun _ => Nat.le_refl depth) ?_
    have page := @whole_page spare depth held l.freeFrame
    refine (read32_first page).bind fun next => ?_
    refine (setMemLayout_follows _).bind fun _ => ?_
    refine (zero4k_follows page).bind fun _ => ?_
    exact (Follows.pop top (depth + 1) _).bind fun _ => .pure top depth _ _ rfl

theorem freeFrame_follows (room : depth < top) (ph : Nat) :
    Follows spare top depth held (Watched.freeFrame ph) (Mmu.freeFrame ph) fun _ => depth := by
  refine .push room (fun _ => Nat.le_refl depth) ?_
  refine getMemLayout_follows.bind fun l => ?_
  refine (write32_first (whole_page depth held ph) _).bind fun _ => ?_
  exact (setMemLayout_follows _).bind fun _ => .pop top (depth + 1) _

/-! ### Starting up -/

theorem skipPage_follows (stands : StandsFor spare depth held p q pageDescriptors) (freeFrame : Nat) {k : Nat}
    (small : k < pageDescriptors) :
    Follows spare top depth held (Watched.skipPage p freeFrame k) (Mmu.skipPage q freeFrame k)
      fun _ => depth := by
  refine (Follows.read32 stands small).bind fun w => ?_
  dsimp only
  split
  · split
    · refine getMemLayout_follows.bind fun l => ?_
      exact (setMemLayout_follows _).bind fun _ => .pure top depth held _ rfl
    · exact .pure top depth held _ rfl
  · exact .pure top depth held _ rfl

theorem skipPageTable_follows (stands : StandsFor IsPageTable depth held p q pointerLevelDescriptors)
    (room : depth < top) (freeFrame : Nat) {j : Nat} (small : j < pointerLevelDescriptors) :
    Follows IsPageTable top depth held (Watched.skipPageTable p freeFrame j) (Mmu.skipPageTable q freeFrame j)
      fun _ => depth := by
  refine (Follows.read32 stands small).bind fun w => ?_
  dsimp only
  split
  · refine .push room (fun _ => Nat.le_refl depth) ?_
    have table := standsFor_pageTable depth held (pointerLevelFieldAddr (pointerTableAddress w))
    refine (Follows.foldlM (fun a k member => ?_) freeFrame).bind fun a => ?_
    · exact skipPage_follows table a (List.mem_range.mp member)
    · exact (Follows.pop top (depth + 1) _).bind fun _ => .pure top depth _ _ rfl
  · exact .pure top depth held _ rfl

theorem skipPointerTable_follows (room : depth + 1 < top) (freeFrame i : Nat) :
    Follows IsPageTable top depth held (Watched.skipPointerTable freeFrame i) (Mmu.skipPointerTable freeFrame i)
      fun _ => depth := by
  have read : Follows IsPageTable top depth held (plain (Action.readRootTd i)) (Action.readRootTd i) fun _ => depth :=
    .plain (fun _ => rfl) fun m r ran => by rw [← Option.some.inj ran]; exact ⟨rfl, rfl⟩
  refine read.bind fun w => ?_
  dsimp only
  split
  · refine .push (Nat.lt_of_succ_lt room) (fun _ => Nat.le_refl depth) ?_
    have table := @standsFor_table IsPageTable depth held (rootTableAddress w)
    refine (Follows.foldlM (fun a j member => ?_) freeFrame).bind fun a => ?_
    · exact skipPageTable_follows table room a (List.mem_range.mp member)
    · exact (Follows.pop top (depth + 1) _).bind fun _ => .pure top depth _ _ rfl
  · exact .pure top depth held _ rfl

theorem init_follows (room : depth + 1 < top) :
    Follows IsPageTable top depth held Watched.init Mmu.init fun _ => depth := by
  refine (setMemLayout_follows _).bind fun _ => ?_
  have list : Follows IsPageTable top depth held Watched.buildFreeFrameList Mmu.buildFreeFrameList
      fun _ => depth := by
    refine (Follows.foldlM (fun a i _ => skipPointerTable_follows room a i) _).bind fun start => ?_
    refine getMemLayout_follows.bind fun l => ?_
    refine (Follows.forM fun n _ => freeFrame_follows (Nat.lt_of_succ_lt room) _).bind fun _ => ?_
    exact getMemLayout_follows.bind fun l => .pure top depth held _ rfl
  exact list.bind fun _ => .pure top depth held () rfl

/-! ### User spaces -/

theorem initUserspace_follows (room : depth < top) :
    Follows spare top depth held Watched.initUserspace Mmu.initUserspace fun _ => depth := by
  refine (allocFrame_follows room).bind fun directory => ?_
  by_cases failed : directory = 0
  · rw [if_pos failed, if_pos failed]
    exact .pure top depth held _ rfl
  · rw [if_neg failed, if_neg failed]
    have set : Follows spare top depth held (plain (Action.setUrp (rootLevelAddrField directory)))
        (Action.setUrp (rootLevelAddrField directory)) fun _ => depth :=
      .plain (fun _ => rfl) fun m r ran => by rw [← Option.some.inj ran]; exact ⟨rfl, rfl⟩
    exact set.bind fun _ => .pure top depth held _ rfl

theorem clearPageTable_follows (stands : StandsFor IsPageTable depth held p q pageDescriptors) (room : depth < top) :
    Follows IsPageTable top depth held (Watched.clearPageTable p) (Mmu.clearPageTable q) fun _ => depth := by
  refine .forM fun k member => (Follows.read32 stands (List.mem_range.mp member)).bind fun w => ?_
  split
  · exact freeFrame_follows room _
  · exact .pure top depth held () rfl

theorem clearPointerTable_follows (stands : StandsFor IsPageTable depth held p q pointerLevelDescriptors)
    (room : depth + 1 < top) :
    Follows IsPageTable top depth held (Watched.clearPointerTable p) (Mmu.clearPointerTable q) fun _ => depth := by
  refine .forM fun j member => (Follows.read32 stands (List.mem_range.mp member)).bind fun w => ?_
  dsimp only
  split
  · refine .push (Nat.lt_of_succ_lt room) (fun _ => Nat.le_refl depth) ?_
    refine (clearPageTable_follows (standsFor_pageTable depth held _) room).bind fun _ => ?_
    refine (Follows.pop top (depth + 1) _).bind fun _ => ?_
    exact freeFrame_follows (Nat.lt_of_succ_lt room) _
  · exact .pure top depth held () rfl

theorem clearRootTable_follows (stands : StandsFor IsPageTable depth held p q rootLevelDescriptors)
    (room : depth + 2 < top) :
    Follows IsPageTable top depth held (Watched.clearRootTable p) (Mmu.clearRootTable q) fun _ => depth := by
  refine .forM fun i member => (Follows.read32 stands (List.mem_range.mp member)).bind fun w => ?_
  dsimp only
  split
  · refine .push (by omega) (fun _ => Nat.le_refl depth) ?_
    refine (clearPointerTable_follows (standsFor_table depth held _) room).bind fun _ => ?_
    refine (Follows.pop top (depth + 1) _).bind fun _ => ?_
    refine .above (Nat.le_refl depth) _ (fun _ => Nat.le_refl depth) ?_
    refine (freeFrame_follows (by omega) _).bind fun _ => ?_
    exact .modify32 stands (List.mem_range.mp member) _
  · exact .pure top depth held () rfl

theorem clearUserspace_follows (room : depth + 3 < top) (userspace : Nat) :
    Follows IsPageTable top depth held (Watched.clearUserspace userspace) (Mmu.clearUserspace userspace)
      fun _ => depth := by
  refine .push (by omega) (fun _ => Nat.le_refl depth) ?_
  refine (clearRootTable_follows (standsFor_table depth held _) room).bind fun _ => ?_
  exact .pop top (depth + 1) _

theorem freeUserspace_follows (room : depth + 3 < top) (userspace : Nat) :
    Follows IsPageTable top depth held (Watched.freeUserspace userspace) (Mmu.freeUserspace userspace)
      fun _ => depth :=
  (clearUserspace_follows room userspace).bind fun _ => freeFrame_follows (by omega) _

/-- Where a loop of the clone leaves the stack: an error has taken everything off. -/
def stackAfter (depth out : Nat) (r : Int) : Nat := if r < 0 then out else depth

theorem stackAfter_le {out : Nat} (below : out ≤ depth) (r : Int) : stackAfter depth out r ≤ depth := by
  unfold stackAfter
  split
  · exact below
  · exact Nat.le_refl depth

theorem clonePage_follows (reads : StandsFor IsPageTable depth held p q pageDescriptors)
    (writes : StandsFor IsPageTable depth held p' q' pageDescriptors) (room : depth + 1 < top) {k : Nat}
    (small : k < pageDescriptors) :
    Follows IsPageTable top depth held (Watched.clonePage p p' k) (Mmu.clonePage q q' k)
      (stackAfter depth (depth - 6)) := by
  have shrinks (r : Int) : stackAfter depth (depth - 6) r ≤ depth := stackAfter_le (Nat.sub_le depth 6) r
  refine (Follows.read32 reads small).bind fun w => ?_
  split
  · refine (allocFrame_follows (Nat.lt_of_succ_lt room)).bind fun ph => ?_
    by_cases failed : ph = 0
    · rw [if_pos failed, if_pos failed]
      exact (Follows.pops top depth held 6).bind fun _ => .pure top _ held _ rfl
    · rw [if_neg failed, if_neg failed]
      refine .push (Nat.lt_of_succ_lt room) shrinks ?_
      refine (Follows.read32 (reads.update _) small).bind fun whole => ?_
      refine (Follows.write32 (writes.update _) small whole).bind fun _ => ?_
      refine (Follows.modify32 (writes.update _) small _).bind fun _ => ?_
      refine (Follows.read32 (reads.update _) small).bind fun w => ?_
      refine .push room (fun r => Nat.le_succ_of_le (shrinks r)) ?_
      refine (memcpyPage_follows ((whole_page depth held ph).update _) (whole_page (depth + 1) _ _)).bind
        fun _ => ?_
      exact (Follows.pops top (depth + 2) _ 2).bind fun _ => .pure top _ _ 0 rfl
  · exact (Follows.modify32 writes small _).bind fun _ => .pure top depth held 0 rfl

/-- What is left when the loop over a copied table ends. -/
theorem stackAfter_result {out : Nat} (held : Nat → Nat) (r : Int) :
    Follows IsPageTable top (stackAfter (depth + 2) out r) held
      (if r < 0 then Pure.pure r
        else do
          Watched.mappingPops 2
          Pure.pure 0)
      (if r < 0 then Pure.pure r
        else do
          Mmu.mappingPops 2
          Pure.pure 0) (stackAfter depth out) := by
  unfold stackAfter
  by_cases negative : r < 0
  · rw [if_pos negative, if_pos negative, if_pos negative]
    exact .pure top out held r (if_pos negative)
  · rw [if_neg negative, if_neg negative, if_neg negative]
    exact (Follows.pops top (depth + 2) held 2).bind fun _ => .pure top depth held 0 rfl

/-- An outer loop of the clone, given the loop inside it. -/
theorem cloneTable_follows {address : Nat → Nat} {setAddress : Nat → Nat → Nat}
    {mapped descriptors entries : Nat} {clone : Pointer → Pointer → Nat → Watched Int}
    {clone' : Nat → Nat → Nat → Action Int} (fits : 4 * descriptors ≤ pageSize)
    (lies : ∀ w, ¬ 4 * descriptors = 4 * pageDescriptors →
      address w % pageSize + 4 * descriptors ≤ pageSize)
    (inner : ∀ {held : Nat → Nat} {p p' : Pointer} {q q' : Nat},
      StandsFor IsPageTable (depth + 2) held p q descriptors → StandsFor IsPageTable (depth + 2) held p' q' descriptors →
        ∀ i, i < descriptors → Follows IsPageTable top (depth + 2) held (clone p p' i) (clone' q q' i)
          (stackAfter (depth + 2) (depth - mapped)))
    (reads : StandsFor IsPageTable depth held p q entries) (writes : StandsFor IsPageTable depth held p' q' entries)
    (room : depth + 1 < top) {i : Nat} (small : i < entries) :
    Follows IsPageTable top depth held (Watched.cloneTable address setAddress mapped descriptors clone p p' i)
      (Mmu.cloneTable address setAddress mapped descriptors clone' q q' i)
      (stackAfter depth (depth - mapped)) := by
  have shrinks (r : Int) : stackAfter depth (depth - mapped) r ≤ depth :=
    stackAfter_le (Nat.sub_le depth mapped) r
  refine (Follows.read32 reads small).bind fun w => ?_
  split
  · refine (allocFrame_follows (Nat.lt_of_succ_lt room)).bind fun ph => ?_
    by_cases failed : ph = 0
    · rw [if_pos failed, if_pos failed]
      exact (Follows.pops top depth held mapped).bind fun _ => .pure top _ held _ rfl
    · rw [if_neg failed, if_neg failed]
      refine .push (Nat.lt_of_succ_lt room) shrinks ?_
      refine (Follows.modify32 (writes.update _) small _).bind fun _ => ?_
      refine (Follows.modify32 (writes.update _) small _).bind fun _ => ?_
      refine (Follows.read32 (reads.update _) small).bind fun w => ?_
      refine .push room (fun r => Nat.le_succ_of_le (shrinks r)) ?_
      have tableTo := (@standsFor_pushed IsPageTable depth held ph descriptors fits).update
        (pageLevelFieldAddr (pageLevelAddrField (address w)))
      have tableFrom := @standsFor_repage IsPageTable (depth + 1)
        (Function.update held depth (pageLevelFieldAddr (pageLevelAddrField ph))) (address w) descriptors (lies w)
      refine (Follows.each fun i member => ?_).bind fun r => stackAfter_result _ r
      exact inner tableFrom tableTo i (List.mem_range.mp member)
  · exact (Follows.modify32 writes small _).bind fun _ => .pure top depth held 0 rfl

theorem clonePageTable_follows (reads : StandsFor IsPageTable depth held p q pointerLevelDescriptors)
    (writes : StandsFor IsPageTable depth held p' q' pointerLevelDescriptors) (room : depth + 3 < top) {j : Nat}
    (small : j < pointerLevelDescriptors) :
    Follows IsPageTable top depth held (Watched.clonePageTable p p' j) (Mmu.clonePageTable q q' j)
      (stackAfter depth (depth - 4)) := by
  have inner {held : Nat → Nat} {p p' : Pointer} {q q' : Nat}
      (reads : StandsFor IsPageTable (depth + 2) held p q pageDescriptors)
      (writes : StandsFor IsPageTable (depth + 2) held p' q' pageDescriptors) (k : Nat) (small : k < pageDescriptors) :=
    clonePage_follows reads writes room small
  have out : depth + 2 - 6 = depth - 4 := by omega
  rw [out] at inner
  exact cloneTable_follows (by decide) (fun _ other => absurd rfl other) inner reads writes (by omega) small

theorem clonePointerTable_follows (reads : StandsFor IsPageTable depth held p q rootLevelDescriptors)
    (writes : StandsFor IsPageTable depth held p' q' rootLevelDescriptors) (room : depth + 5 < top) {i : Nat}
    (small : i < rootLevelDescriptors) :
    Follows IsPageTable top depth held (Watched.clonePointerTable p p' i) (Mmu.clonePointerTable q q' i)
      (stackAfter depth (depth - 2)) := by
  have inner {held : Nat → Nat} {p p' : Pointer} {q q' : Nat}
      (reads : StandsFor IsPageTable (depth + 2) held p q pointerLevelDescriptors)
      (writes : StandsFor IsPageTable (depth + 2) held p' q' pointerLevelDescriptors) (j : Nat)
      (small : j < pointerLevelDescriptors) := clonePageTable_follows reads writes room small
  have out : depth + 2 - 4 = depth - 2 := by omega
  rw [out] at inner
  have lies (w : Nat) (_ : ¬ 4 * pointerLevelDescriptors = 4 * pageDescriptors) :=
    table_inPage (rootLevelFieldAddr_aligned (rootTableAddress w))
  exact cloneTable_follows (by decide) lies inner reads writes (by omega) small

theorem cloneUserspace_follows (room : depth + 7 < top) (source target : Nat) :
    Follows IsPageTable top depth held (Watched.cloneUserspace source target) (Mmu.cloneUserspace source target)
      fun _ => depth := by
  refine .push (by omega) (fun _ => Nat.le_refl depth) ?_
  refine .push (by omega) (fun _ => Nat.le_succ depth) ?_
  have tableFrom := (@standsFor_table IsPageTable depth held source).update
    (pageLevelFieldAddr (pageLevelAddrField (rootLevelFieldAddr target)))
  have tableTo := @standsFor_table IsPageTable (depth + 1) (Function.update held depth
    (pageLevelFieldAddr (pageLevelAddrField (rootLevelFieldAddr source)))) target
  have same : (fun _ => depth) = stackAfter depth depth := by
    funext r
    exact (ite_self depth).symm
  rw [same]
  refine (Follows.each fun i member => ?_).bind fun r => stackAfter_result _ r
  exact clonePointerTable_follows tableFrom tableTo room (List.mem_range.mp member)

/-! ### Placing pages -/

/-- Both ways to a table leave a pointer to it on the stack. -/
theorem tableBelow_follows {address : Nat → Nat} {setAddress : Nat → Nat → Nat}
    {descriptors entries : Nat} {f : Pointer → Watched α} {g : Nat → Action α} {after : α → Nat}
    (fits : 4 * descriptors ≤ pageSize)
    (lies : ∀ w, ¬ 4 * descriptors = 4 * pageDescriptors →
      address w % pageSize + 4 * descriptors ≤ pageSize)
    (stands : StandsFor IsPageTable depth held p q entries) (room : depth < top)
    (shrinks : ∀ r, after r ≤ depth) {i : Nat} (small : i < entries)
    (rest : ∀ {held : Nat → Nat} {p : Pointer} {q : Nat}, StandsFor IsPageTable (depth + 1) held p q descriptors →
      Follows IsPageTable top (depth + 1) held (f p) (g q) after) :
    Follows IsPageTable top depth held (Watched.tableBelow address setAddress descriptors p i >>= f)
      (Mmu.tableBelow address setAddress q i >>= g) after := by
  rw [Watched.tableBelow, Mmu.tableBelow]
  refine .bindThen (.read32 stands small) fun w => ?_
  by_cases resident : udtIsResident (descriptorType w) = true
  · rw [if_pos resident, if_pos resident]
    refine .pushThen room shrinks ?_
    exact rest (standsFor_repage depth held (lies w))
  · rw [if_neg resident, if_neg resident]
    refine .bindThen (allocFrame_follows room) fun ph => ?_
    refine .pushThen room shrinks ?_
    refine .bindThen (.modify32 (stands.update _) small _) fun _ => ?_
    refine .bindThen (.modify32 (stands.update _) small _) fun _ => ?_
    exact rest (standsFor_pushed depth held ph fits)

theorem pageAt_follows (stands : StandsFor IsPageTable depth held p q pageDescriptors) (room : depth < top) {k : Nat}
    (small : k < pageDescriptors) (supervisor writeProtected : Bool) :
    Follows IsPageTable top depth held (Watched.pageAt p k supervisor writeProtected)
      (Mmu.pageAt q k supervisor writeProtected) fun _ => depth := by
  have replaced : Follows IsPageTable top depth held (Watched.replacePage p k writeProtected)
      (Mmu.replacePage q k writeProtected) fun _ => depth := by
    refine (Follows.read32 stands small).bind fun w => ?_
    split
    · refine (Follows.modify32 stands small _).bind fun _ => ?_
      exact (Follows.read32 stands small).bind fun w => freeFrame_follows room _
    · exact .pure top depth held () rfl
  refine replaced.bind fun _ => ?_
  refine (allocFrame_follows room).bind fun frame => ?_
  refine (Follows.modify32 stands small _).bind fun _ => ?_
  refine (Follows.modify32 stands small _).bind fun _ => ?_
  refine (Follows.modify32 stands small _).bind fun _ => ?_
  refine (Follows.modify32 stands small _).bind fun _ => ?_
  refine (Follows.modify32 stands small _).bind fun _ => ?_
  exact .pure top depth held frame rfl

theorem pointerTableAt_follows {f : Pointer → Watched α} {g : Nat → Action α} {after : α → Nat}
    (stands : StandsFor IsPageTable depth held p q rootLevelDescriptors) (room : depth < top)
    (shrinks : ∀ r, after r ≤ depth) (virt : Nat)
    (rest : ∀ {held : Nat → Nat} {p : Pointer} {q : Nat},
      StandsFor IsPageTable (depth + 1) held p q pointerLevelDescriptors → Follows IsPageTable top (depth + 1) held (f p) (g q) after) :
    Follows IsPageTable top depth held (Watched.pointerTableAt p (rootTableIndex virt) >>= f)
      (Mmu.pointerTableAt q (rootTableIndex virt) >>= g) after := by
  have small : rootTableIndex virt < rootLevelDescriptors := Nat.mod_lt _ (by decide)
  have lies (w : Nat) (_ : ¬ 4 * pointerLevelDescriptors = 4 * pageDescriptors) :=
    table_inPage (rootLevelFieldAddr_aligned (rootTableAddress w))
  rw [Watched.pointerTableAt, Mmu.pointerTableAt]
  exact tableBelow_follows (by decide) lies stands room shrinks small rest

theorem pageTableAt_follows {f : Pointer → Watched α} {g : Nat → Action α} {after : α → Nat}
    (stands : StandsFor IsPageTable depth held p q pointerLevelDescriptors) (room : depth < top)
    (shrinks : ∀ r, after r ≤ depth) (virt : Nat)
    (rest : ∀ {held : Nat → Nat} {p : Pointer} {q : Nat},
      StandsFor IsPageTable (depth + 1) held p q pageDescriptors → Follows IsPageTable top (depth + 1) held (f p) (g q) after) :
    Follows IsPageTable top depth held (Watched.pageTableAt p (pointerTableIndex virt) >>= f)
      (Mmu.pageTableAt q (pointerTableIndex virt) >>= g) after := by
  have small : pointerTableIndex virt < pointerLevelDescriptors := Nat.mod_lt _ (by decide)
  rw [Watched.pageTableAt, Mmu.pageTableAt]
  exact tableBelow_follows (by decide) (fun _ other => absurd rfl other) stands room shrinks small rest

theorem allocBelow_follows (room : depth + 3 < top) (rp virt : Nat) (supervisor writeProtected : Bool) :
    Follows IsPageTable top depth held (Watched.allocBelow rp virt supervisor writeProtected)
      (Mmu.allocBelow rp virt supervisor writeProtected) fun _ => depth := by
  rw [Watched.allocBelow, Mmu.allocBelow]
  refine .push (by omega) (fun _ => Nat.le_refl depth) ?_
  refine pointerTableAt_follows (standsFor_table depth held _) (by omega)
    (fun _ => Nat.le_succ depth) virt fun pointerTable => ?_
  refine pageTableAt_follows pointerTable (by omega) (fun _ => Nat.le_add_right depth 2) virt
    fun pageTable => ?_
  have small : pageTableIndex virt < pageDescriptors := Nat.mod_lt _ (by decide)
  refine (pageAt_follows pageTable (by omega) small supervisor writeProtected).bind fun frame => ?_
  exact (Follows.pops top (depth + 3) _ 3).bind fun _ => .pure top _ _ frame rfl

theorem allocAt_follows (room : depth + 3 < top) (virt : Nat) (supervisor writeProtected : Bool) :
    Follows IsPageTable top depth held (Watched.allocAt virt supervisor writeProtected)
      (Mmu.allocAt virt supervisor writeProtected) fun _ => depth := by
  have pointer : Follows IsPageTable top depth held (plain (Action.getRootPointer supervisor))
      (Action.getRootPointer supervisor) fun _ => depth := by
    cases supervisor with
    | true => exact .plain (fun _ => rfl) fun m r ran => by rw [← Option.some.inj ran]; exact ⟨rfl, rfl⟩
    | false => exact .plain (fun _ => rfl) fun m r ran => by rw [← Option.some.inj ran]; exact ⟨rfl, rfl⟩
  exact pointer.bind fun rp => allocBelow_follows room rp virt supervisor writeProtected

end Operations

end Watched

end TrollOS.Mmu
