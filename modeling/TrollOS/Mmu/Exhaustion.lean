import TrollOS.Mmu.UserSpaces

/-!
# Placing a page without a frame

`mmu040_alloc_at` does not look at what the allocator answers.  When an allocation
finds no frame, so does the allocation of the page, and the page descriptor is
made resident with the null frame.
-/

namespace TrollOS.Mmu

open TrollOS.Lib Frames Action

/-- The tables `mmu040_alloc_at` finds or makes, with the states in which it has them; the
tables are pointers into the window. -/
structure Way (m : Mmu) (rp virt : Nat) (rootTable pointerTable pageTable : Nat)
    (m₁ m₂ m₃ : Mmu) : Prop where
  root : (do
      let page ← mappingPush (rootLevelFieldAddr rp)
      pure (repage (rootLevelFieldAddr rp) page)) m = some (rootTable, m₁)
  pointer : pointerTableAt rootTable (rootTableIndex virt) m₁ = some (pointerTable, m₂)
  page : pageTableAt pointerTable (pointerTableIndex virt) m₂ = some (pageTable, m₃)

def word (m : Mmu) (p : Nat) : Nat := m.mem.load32 (m.translate p)

/-- One of the allocations of `mmu040_alloc_at` finds the allocator empty. -/
def FindsEmpty (m : Mmu) (rp virt : Nat) : Prop :=
  ∃ rootTable pointerTable pageTable m₁ m₂ m₃,
    Way m rp virt rootTable pointerTable pageTable m₁ m₂ m₃ ∧
      ((udtIsResident (descriptorType (m₁.word (rootTable + 4 * rootTableIndex virt))) = false ∧
          m₁.memLayout.freeFrames = 0) ∨
        (udtIsResident (descriptorType (m₂.word (pointerTable + 4 * pointerTableIndex virt))) = false ∧
          m₂.memLayout.freeFrames = 0) ∨
        m₃.memLayout.freeFrames = 0)

/-- The call returns null, none of the three descriptors on the way is resident with the
null frame, every address leads where it led before, and the free list has its frames. -/
def Harmless (m : Mmu) (supervisor writeProtected : Bool) (virt : Nat) : Prop :=
  ∃ rootTable pointerTable pageTable m₁ m₂ m₃ m',
    Way m (m.rootPointer supervisor) virt rootTable pointerTable pageTable m₁ m₂ m₃ ∧
      Mmu.allocAt virt supervisor writeProtected m = some (0, m') ∧
        (∀ d ∈ [(3, rootTable + 4 * rootTableIndex virt), (2, pointerTable + 4 * pointerTableIndex virt),
            (1, pageTable + 4 * pageTableIndex virt)],
          isResident d.1 (m'.word d.2) = true → address d.1 (m'.word d.2) ≠ 0) ∧
          (∀ v, SameView m.mem m'.mem 3 (rootLevelFieldAddr (m.rootPointer supervisor)) v) ∧
            ∀ chain, Pool m.frames chain → ∃ chain', Pool m'.frames chain' ∧ chain'.Perm chain

section Empty

variable {m m' : Mmu} {ph p table i rp virt : Nat}

theorem mappingPush_some (room : m.mapping < mapperPages) (ph : Nat) :
    ∃ m', mappingPush ph m = some (m.mapping * pageSize, m') ∧ m'.mem = m.mem ∧
      m'.memLayout = m.memLayout ∧ m'.mapping = m.mapping + 1 := by
  unfold mappingPush
  rw [if_neg (Nat.not_le.mpr room)]
  exact ⟨_, rfl, rfl, rfl, rfl⟩

/-- An empty allocator answers with the null frame and does nothing. -/
theorem allocFrame_empty (empty : m.memLayout.freeFrames = 0) : allocFrame m = some (0, m) := by
  unfold allocFrame
  have read : getMemLayout m = some (m.memLayout, m) := rfl
  rw [bind_of_some read, if_pos empty]
  rfl

theorem read32_eq (p : Nat) (m : Mmu) : read32 p m = some (m.word p, m) := rfl

theorem modify32_eq (p : Nat) (f : Nat → Nat) (m : Mmu) :
    modify32 p f m = some ((), { m with mem := m.mem.store32 (m.translate p) (f (m.word p)) }) := rfl

/-- Finding or making a table with an empty allocator. -/
theorem tableBelow_empty (room : m.mapping < mapperPages) (empty : m.memLayout.freeFrames = 0)
    (address : Nat → Nat) (setAddress : Nat → Nat → Nat) (table i : Nat) :
    ∃ q m', tableBelow address setAddress table i m = some (q, m') ∧
      m'.memLayout.freeFrames = 0 ∧ m'.mapping = m.mapping + 1 := by
  unfold tableBelow
  rw [bind_of_some (read32_eq _ m)]
  by_cases resident : udtIsResident (descriptorType (m.word (table + 4 * i))) = true
  · rw [if_pos resident]
    obtain ⟨m', pushed, -, layout, mapping⟩ := mappingPush_some room (address (m.word (table + 4 * i)))
    exact ⟨_, m', bind_of_some pushed, layout ▸ empty, mapping⟩
  · rw [if_neg resident, bind_of_some (allocFrame_empty empty)]
    obtain ⟨m', pushed, -, layout, mapping⟩ := mappingPush_some room 0
    rw [bind_of_some pushed, bind_of_some (modify32_eq _ _ m'), bind_of_some (modify32_eq _ _ _)]
    exact ⟨_, _, rfl, layout ▸ empty, mapping⟩

theorem room_of_push {r : Nat × Mmu} (pushed : mappingPush ph m = some r) : m.mapping < mapperPages := by
  by_contra full
  unfold mappingPush at pushed
  rw [if_pos (Nat.not_lt.mp full)] at pushed
  cases pushed

/-- A bound computation that has a result. -/
theorem bind_some {α β : Type} {x : Action α} {f : α → Action β} {r : β × Mmu}
    (ran : (x >>= f) m = some r) : ∃ a m₁, x m = some (a, m₁) ∧ f a m₁ = some r := by
  have parts : (x m).bind (fun result => f result.1 result.2) = some r := ran
  obtain ⟨⟨a, m₁⟩, first, second⟩ := Option.bind_eq_some_iff.mp parts
  exact ⟨a, m₁, first, second⟩

/-- An empty allocator stays empty. -/
theorem tableBelow_stays {address : Nat → Nat} {setAddress : Nat → Nat → Nat} {q : Nat}
    (ran : tableBelow address setAddress table i m = some (q, m'))
    (empty : m.memLayout.freeFrames = 0) : m'.memLayout.freeFrames = 0 := by
  have room : m.mapping < mapperPages := by
    have parts := ran
    unfold tableBelow at parts
    rw [bind_of_some (read32_eq _ m)] at parts
    by_cases resident : udtIsResident (descriptorType (m.word (table + 4 * i))) = true
    · rw [if_pos resident] at parts
      obtain ⟨_, _, pushed, -⟩ := bind_some parts
      exact room_of_push pushed
    · rw [if_neg resident, bind_of_some (allocFrame_empty empty)] at parts
      obtain ⟨_, _, pushed, -⟩ := bind_some parts
      exact room_of_push pushed
  obtain ⟨q', m'', ran', kept, -⟩ := tableBelow_empty room empty address setAddress table i
  obtain ⟨rfl, rfl⟩ := Prod.mk.inj (Option.some.inj (ran.symm.trans ran'))
  exact kept

theorem freeFrame_counter {r : Unit × Mmu} (ran : freeFrame ph m = some r) :
    r.2.memLayout.freeFrames = m.memLayout.freeFrames := by
  unfold freeFrame at ran
  obtain ⟨free, m₁, pushed, rest⟩ := bind_some ran
  obtain ⟨m₂, pushed', -, layout, -⟩ := mappingPush_some (room_of_push pushed) ph
  obtain ⟨rfl, rfl⟩ := Prod.mk.inj (Option.some.inj (pushed.symm.trans pushed'))
  have done := Option.some.inj rest
  rw [← done, ← layout]

theorem replacePage_counter {writeProtected : Bool} {r : Unit × Mmu}
    (ran : replacePage table i writeProtected m = some r) :
    r.2.memLayout.freeFrames = m.memLayout.freeFrames := by
  unfold replacePage at ran
  rw [bind_of_some (read32_eq _ m)] at ran
  by_cases resident : pdtIsResident (descriptorType (m.word (table + 4 * i))) = true
  · rw [if_pos resident, bind_of_some (modify32_eq _ _ m), bind_of_some (read32_eq _ _)] at ran
    have kept := freeFrame_counter ran
    exact kept
  · rw [if_neg resident] at ran
    rw [← Option.some.inj ran]

theorem word_modified {f : Nat → Nat} (small : f (m.word p) < 2 ^ 32) :
    word { m with mem := m.mem.store32 (m.translate p) (f (m.word p)) } p = f (m.word p) :=
  ByteMem.load32_store32 _ _ _ small

theorem modify32_modify32 (p : Nat) {f : Nat → Nat} (g : Nat → Nat)
    (bounded : ∀ w, w < 2 ^ 32 → f w < 2 ^ 32) :
    (modify32 p f >>= fun _ => modify32 p g) = modify32 p fun w => g (f w) := by
  funext m
  have small := bounded (m.word p) (ByteMem.load32_lt ..)
  rw [bind_of_some (modify32_eq p f m), modify32_eq, modify32_eq, word_modified small]
  have stored := ByteMem.store32_store32 m.mem (m.translate p) (f (m.word p)) (g (f (m.word p)))
  exact congrArg (fun mem => some ((), { m with mem := mem })) stored

/-- The page descriptor that is written when there is no frame. -/
theorem pageAt_empty {supervisor writeProtected : Bool} {r : Nat × Mmu}
    (ran : pageAt table i supervisor writeProtected m = some r) (empty : m.memLayout.freeFrames = 0) :
    r.1 = 0 ∧ ∃ w, r.2.word (table + 4 * i) = placed w 0 supervisor writeProtected := by
  unfold pageAt at ran
  obtain ⟨_, m₁, replaced, ran⟩ := bind_some ran
  have still := (replacePage_counter replaced).trans empty
  rw [bind_of_some (allocFrame_empty still)] at ran
  have joined : (modify32 (table + 4 * i) (fun w => placed w 0 supervisor writeProtected) >>=
      fun _ => (Pure.pure 0 : Action Nat)) m₁ = some r := by
    rw [Frames.placed_steps fun _ g => modify32_modify32 (table + 4 * i) g]
    simp only [bind_assoc]
    exact ran
  rw [bind_of_some (modify32_eq _ _ m₁)] at joined
  have small : placed (m₁.word (table + 4 * i)) 0 supervisor writeProtected < 2 ^ 32 :=
    placed_lt (ByteMem.load32_lt ..)
  have written := word_modified (f := fun w => placed w 0 supervisor writeProtected) small
  obtain ⟨frame, m'⟩ := r
  obtain ⟨rfl, rfl⟩ := Prod.mk.inj (Option.some.inj joined)
  exact ⟨rfl, _, written⟩

/-- The null frame in a page descriptor. -/
theorem address_placed_null (w : Nat) (supervisor writeProtected : Bool) :
    address 1 (placed w 0 supervisor writeProtected) = 0 := by
  unfold placed setDescriptorType setWriteProtected setCacheCopyBack setSupervisor
  rw [pageAddress_setField (by decide), pageAddress_setField (by decide),
    pageAddress_setField (by decide), pageAddress_setField (by decide)]
  show pageLevelFieldAddr (field (setField w 12 20 0) 12 20) = 0
  rw [field_setField]
  rfl

end Empty

/-- When an allocation finds no frame, the page descriptor on the way becomes resident with
the null frame. -/
theorem FindsEmpty.null_descriptor {m m₁ m₂ m₃ m' : Mmu} {supervisor writeProtected : Bool}
    {virt rootTable pointerTable pageTable r : Nat}
    (exhausted : FindsEmpty m (m.rootPointer supervisor) virt)
    (way : Way m (m.rootPointer supervisor) virt rootTable pointerTable pageTable m₁ m₂ m₃)
    (ran : Mmu.allocAt virt supervisor writeProtected m = some (r, m')) :
    isResident 1 (m'.word (pageTable + 4 * pageTableIndex virt)) = true ∧
      address 1 (m'.word (pageTable + 4 * pageTableIndex virt)) = 0 := by
  obtain ⟨rootTable', pointerTable', pageTable', n₁, n₂, n₃, way', found⟩ := exhausted
  obtain ⟨rfl, rfl⟩ := Prod.mk.inj (Option.some.inj (way.root.symm.trans way'.root))
  obtain ⟨rfl, rfl⟩ := Prod.mk.inj (Option.some.inj (way.pointer.symm.trans way'.pointer))
  obtain ⟨rfl, rfl⟩ := Prod.mk.inj (Option.some.inj (way.page.symm.trans way'.page))
  have empty : m₃.memLayout.freeFrames = 0 := by
    rcases found with ⟨-, first⟩ | ⟨-, second⟩ | third
    · exact tableBelow_stays way.page (tableBelow_stays way.pointer first)
    · exact tableBelow_stays way.page second
    · exact third
  obtain ⟨page, n₁, pushed, same⟩ := bind_some way.root
  obtain ⟨rfl, rfl⟩ := Prod.mk.inj (Option.some.inj same)
  rw [allocAt_eq] at ran
  have rest : (do
      let frame ← pageAt pageTable (pageTableIndex virt) supervisor writeProtected
      mappingPops 3
      pure frame : Action Nat) m₃ = some (r, m') := by
    unfold allocBelow at ran
    rw [bind_of_some pushed, bind_of_some way.pointer, bind_of_some way.page] at ran
    exact ran
  obtain ⟨frame, m₄, placedPage, popped⟩ := bind_some rest
  obtain ⟨-, w, written⟩ := pageAt_empty placedPage empty
  have last : m'.word (pageTable + 4 * pageTableIndex virt) = placed w 0 supervisor writeProtected := by
    rw [← written]
    obtain ⟨-, rfl⟩ := Prod.mk.inj (Option.some.inj popped)
    rfl
  rw [last]
  exact ⟨isResident_placed .., address_placed_null ..⟩

/-- Whenever an allocation finds no frame, the call is not harmless. -/
theorem allocAt_not_harmless (m : Mmu) (supervisor writeProtected : Bool) (virt : Nat)
    (exhausted : FindsEmpty m (m.rootPointer supervisor) virt) :
    ¬ Harmless m supervisor writeProtected virt := by
  rintro ⟨rootTable, pointerTable, pageTable, m₁, m₂, m₃, m', way, ran, installed, -⟩
  obtain ⟨resident, null⟩ := exhausted.null_descriptor way ran
  refine installed (1, pageTable + 4 * pageTableIndex virt) ?_ resident null
  exact List.mem_cons_of_mem _ (List.mem_cons_of_mem _ List.mem_cons_self)

/-- An empty allocator is found empty. -/
theorem findsEmpty_of_empty {m : Mmu} (mapping : m.mapping = 0) (empty : m.memLayout.freeFrames = 0)
    (rp virt : Nat) : FindsEmpty m rp virt := by
  obtain ⟨m₁, pushed, -, layout, deep⟩ := mappingPush_some (m := m) (by rw [mapping]; decide)
    (rootLevelFieldAddr rp)
  have empty₁ : m₁.memLayout.freeFrames = 0 := layout ▸ empty
  have deep₁ : m₁.mapping = 1 := by rw [deep, mapping]
  obtain ⟨pointerTable, m₂, first, empty₂, deep₂⟩ := tableBelow_empty (m := m₁)
    (by rw [deep₁]; decide) empty₁ (fun w => rootLevelFieldAddr (rootTableAddress w))
    (fun w ph => setRootTableAddress w (rootLevelAddrField ph))
    (repage (rootLevelFieldAddr rp) (m.mapping * pageSize)) (rootTableIndex virt)
  obtain ⟨pageTable, m₃, second, empty₃, -⟩ := tableBelow_empty (m := m₂)
    (by rw [deep₂, deep₁]; decide) empty₂ (fun w => pointerLevelFieldAddr (pointerTableAddress w))
    (fun w ph => setPointerTableAddress w (pointerLevelAddrField ph)) pointerTable
    (pointerTableIndex virt)
  exact ⟨_, _, _, m₁, m₂, m₃, ⟨bind_of_some pushed, first, second⟩, Or.inr (Or.inr empty₃)⟩

/-- The only frame is the root table of the space. -/
theorem oneFrame_space : ∃ m, (freshFrames 1).serve .initUserspace = some ⟨m, [4194304]⟩ ∧
    m.mapping = 0 ∧ m.memLayout.freeFrames = 0 := by
  have got : Frames.alloc (freshFrames 1).mmu.frames =
      some (0x80000000, taken (freshFrames 1).mmu.frames 0x80000000) := rfl
  obtain ⟨m, ran, frames, mapping, -, -⟩ := initUserspace_some rfl got (by decide)
  exact ⟨m, UserSpaces.serve_initUserspace_some ran, mapping, congrArg Frames.freeFrames frames⟩

theorem allocAt_not_harmless_oneFrame : ∃ m, (freshFrames 1).serve .initUserspace = some ⟨m, [4194304]⟩ ∧
    ¬ Harmless m false false 0x1000 := by
  obtain ⟨m, served, mapping, empty⟩ := oneFrame_space
  exact ⟨m, served, allocAt_not_harmless m false false 0x1000 (findsEmpty_of_empty mapping empty _ _)⟩

/-- A page put into a new space when its root table was the last frame. -/
theorem null_frame_mapped : ¬ ∀ m supervisor writeProtected virt, Mmu.mapping m = 0 →
    FindsEmpty m (m.rootPointer supervisor) virt → Harmless m supervisor writeProtected virt := by
  intro claimed
  obtain ⟨m, -, mapping, empty⟩ := oneFrame_space
  have exhausted := findsEmpty_of_empty mapping empty (m.rootPointer false) 0x1000
  obtain ⟨rootTable, pointerTable, pageTable, m₁, m₂, m₃, m', way, ran, installed, -⟩ :=
    claimed m false false 0x1000 mapping exhausted
  obtain ⟨resident, null⟩ := exhausted.null_descriptor way ran
  refine installed (1, pageTable + 4 * pageTableIndex 0x1000) ?_ resident null
  exact List.mem_cons_of_mem _ (List.mem_cons_of_mem _ List.mem_cons_self)

end TrollOS.Mmu
