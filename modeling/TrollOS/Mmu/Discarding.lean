import TrollOS.Mmu.Isolation

/-!
# A copy that is given up

A space that is made, copied into, completely or not, and given back leaves the
free list with the frames it had.
-/

namespace TrollOS.Mmu

open TrollOS.Lib Frames

namespace UserSpaces

variable {frames : List Nat} {u : UserSpaces} {source : Nat}

/-- The frames of the free list are what the trees leave. -/
theorem Owned.chain_perm {v : UserSpaces} {chain chain' : List Nat}
    (before : Frames.Owned frames u.mmu.frames u.roots chain)
    (after : Frames.Owned frames v.mmu.frames u.roots chain')
    (same : Agree u.mmu.mem v.mmu.mem (trees u.mmu.mem u.roots)) : chain'.Perm chain := by
  have split := after.split
  have kept : trees v.mmu.frames.mem u.roots = trees u.mmu.frames.mem u.roots := trees_agree same
  rw [kept] at split
  exact (List.perm_append_right_iff _).mp (split.trans before.split.symm)

/-- A copy fails with a negative number. -/
theorem cloneUserspace_nonpos (owned : u.Owned frames) {target : Nat}
    (named : u.Named (.cloneUserspace source target)) {r : Int} {m : Mmu}
    (ran : Mmu.cloneUserspace source target u.mmu = some (r, m)) : r ≤ 0 := by
  obtain ⟨chain, roles⟩ := owned.roles
  obtain ⟨sourceIn, targetIn, other, empty⟩ := named
  obtain ⟨r', s, used, rest, copies, -, -, -, nonpos, -⟩ := roles.copy (mem_roots sourceIn)
    (mem_roots targetIn) (fun same => other (rootLevelFieldAddr_injective same)) empty
  obtain ⟨m', ran', -⟩ := run_of_simulates
    (fun _ => cloneUserspace_simulates (by decide) source target) owned.mapping copies
  obtain ⟨rfl, -⟩ := Prod.mk.inj (Option.some.inj (ran.symm.trans ran'))
  exact nonpos

/-- What becomes of a space that is made, copied into, completely or not, and given back. -/
structure Tried (frames : List Nat) (u : UserSpaces) (source target : Nat) (m₁ : Mmu) (r : Int)
    (m₂ m₃ : Mmu) : Prop where
  inits : Mmu.initUserspace u.mmu = some ((0, target), m₁)
  handle : target = rootLevelAddrField u.mmu.memLayout.freeFrame
  fresh : target ∉ u.live
  clones : Mmu.cloneUserspace source target m₁ = some (r, m₂)
  result : r ≤ 0
  fits : r = 0 ↔ (below u.mmu.mem 3 (rootLevelFieldAddr source)).length < u.mmu.memLayout.freeFrames
  copied : UserSpaces.Owned frames ⟨m₂, target :: u.live⟩
  frees : Mmu.freeUserspace target m₂ = some ((), m₃)
  after : UserSpaces.Owned frames ⟨m₃, u.live⟩
  agree : Agree u.mmu.mem m₃.mem (trees u.mmu.mem u.roots)

theorem copy_tried (owned : u.Owned frames) (left : u.mmu.memLayout.freeFrames ≠ 0)
    (sourceIn : source ∈ u.live) : ∃ target m₁ r m₂ m₃, Tried frames u source target m₁ r m₂ m₃ := by
  obtain ⟨m, inits, owned₁, fresh, alone, agree₁, sameCount⟩ := owned.init_first left
  generalize isTarget : rootLevelAddrField u.mmu.memLayout.freeFrame = target at *
  have trees₁ : trees m.mem u.roots = trees u.mmu.mem u.roots := trees_agree agree₁
  have named : UserSpaces.Named ⟨m, target :: u.live⟩
      (.cloneUserspace source target) :=
    ⟨List.mem_cons_of_mem _ sourceIn, List.mem_cons_self, fun same => fresh (same ▸ sourceIn), alone⟩
  obtain ⟨r, m₂, rest, clones, mapping, roles₂, agree₂, enough, -⟩ := cloneUserspace_owned owned₁ named
  have others : (roots ⟨m, target :: u.live⟩).erase
      (rootLevelFieldAddr target) = u.roots := List.erase_cons_head ..
  rw [others] at agree₂
  have trees₂ : trees m₂.mem u.roots = trees m.mem u.roots := trees_agree agree₂
  obtain ⟨s, chain', frees, -, roles₃, -, agree₃⟩ := roles₂.free (mem_roots List.mem_cons_self)
  rw [others] at roles₃ agree₃
  obtain ⟨m₃, ran₃, done⟩ := run_of_simulates
    (fun _ => freeUserspace_simulates (by decide) target) mapping frees
  obtain rfl := done.frames
  have agree : Agree u.mmu.mem m₃.mem (trees u.mmu.mem u.roots) := by
    intro g member x inside
    have member₁ : g ∈ trees m.mem u.roots := trees₁.symm ▸ member
    have member₂ : g ∈ trees m₂.mem u.roots := trees₂.symm ▸ member₁
    have last : m₃.mem x = m₂.mem x := agree₃ g member₂ x inside
    rw [last, agree₂ g member₁ x inside]
    exact agree₁ g member x inside
  have sameBelow : below m.mem 3 (rootLevelFieldAddr source) =
      below u.mmu.mem 3 (rootLevelFieldAddr source) :=
    (agree₁.mono (tree_subset (mem_roots sourceIn) u.mmu.mem)).below
  have fits : r = 0 ↔
      (below u.mmu.mem 3 (rootLevelFieldAddr source)).length < u.mmu.memLayout.freeFrames := by
    dsimp only at enough
    rw [enough, sameBelow, sameCount]
    omega
  exact ⟨_, m, r, m₂, m₃,
    { inits := inits
      handle := isTarget.symm
      fresh := fresh
      clones := clones
      result := cloneUserspace_nonpos owned₁ named clones
      fits := fits
      copied := ⟨mapping, rest, roles₂⟩
      frees := ran₃
      after := ⟨done.mapping, chain', roles₃⟩
      agree := agree }⟩

/-- The free list has the same frames again. -/
theorem Tried.perm {target : Nat} {m₁ m₂ m₃ : Mmu} {r : Int} (owned : u.Owned frames)
    (tried : Tried frames u source target m₁ r m₂ m₃) :
    ∃ chain chain', Pool u.mmu.frames chain ∧ Pool m₃.frames chain' ∧ chain'.Perm chain := by
  obtain ⟨chain, roles⟩ := owned.roles
  obtain ⟨chain', roles'⟩ := tried.after.roles
  exact ⟨chain, chain', roles.pool, roles'.pool,
    @Owned.chain_perm frames u ⟨m₃, u.live⟩ chain chain' roles roles' tried.agree⟩

/-- A failing `mmu040_init_userspace` changes nothing.  Where it succeeds, a copy into the
new space, complete or not, and giving the space back leave the free list with the same
frames and every space with its tree and its bytes. -/
theorem clone_discarded (owned : u.Owned frames) (sourceIn : source ∈ u.live) :
    ∃ chain, Pool u.mmu.frames chain ∧
      ((∃ m, Mmu.initUserspace u.mmu = some ((-enomem, 0), m) ∧ m.frames = u.mmu.frames) ∨
        ∃ target m₁ r m₂ m₃ chain', Mmu.initUserspace u.mmu = some ((0, target), m₁) ∧
          Mmu.cloneUserspace source target m₁ = some (r, m₂) ∧
            Mmu.freeUserspace target m₂ = some ((), m₃) ∧
              Pool m₃.frames chain' ∧ chain'.Perm chain ∧
                tree m₃.mem (rootLevelFieldAddr source) = tree u.mmu.mem (rootLevelFieldAddr source) ∧
                  Agree u.mmu.mem m₃.mem (tree u.mmu.mem (rootLevelFieldAddr source))) := by
  by_cases empty : u.mmu.memLayout.freeFrames = 0
  · obtain ⟨chain, roles⟩ := owned.roles
    obtain ⟨m, ran, done⟩ := initUserspace_none owned.mapping empty
    exact ⟨chain, roles.pool, Or.inl ⟨m, ran, done.frames⟩⟩
  · obtain ⟨target, m₁, r, m₂, m₃, tried⟩ := copy_tried owned empty sourceIn
    obtain ⟨chain, chain', pool, pool', perm⟩ := tried.perm owned
    have ofSource := tried.agree.mono (tree_subset (mem_roots sourceIn) u.mmu.mem)
    exact ⟨chain, pool, Or.inr ⟨target, m₁, r, m₂, m₃, chain', tried.inits, tried.clones, tried.frees,
      pool', perm, congrArg (rootLevelFieldAddr source :: ·) ofSource.below, ofSource⟩⟩

/-- With two frames left a space with a page is copied no further than its first table. -/
theorem clone_discarded_page : ∃ (m : Mmu) (f : Nat) (chain : List Nat), Pool m.frames chain ∧
    (below m.mem 3 f).length = 3 ∧
      ∃ target m₁ r m₂ m₃ chain', Mmu.initUserspace m = some ((0, target), m₁) ∧
        Mmu.cloneUserspace (rootLevelAddrField f) target m₁ = some (r, m₂) ∧ r < 0 ∧
          Mmu.freeUserspace target m₂ = some ((), m₃) ∧ Pool m₃.frames chain' ∧ chain'.Perm chain ∧
            tree m₃.mem f = tree m.mem f ∧ Agree m.mem m₃.mem (tree m.mem f) := by
  obtain ⟨_, m, page⟩ := onePage (show 6 ≤ 16384 by decide) (by decide +kernel) (by decide)
  have left := page.frames
  obtain ⟨chain, pool, result⟩ := clone_discarded page.owned List.mem_cons_self
  obtain ⟨target', n₁, r', n₂, n₃, tried⟩ := copy_tried page.owned (show m.memLayout.freeFrames ≠ 0 by omega)
    List.mem_cons_self
  rcases result with ⟨m₁, fails, -⟩ | ⟨target, m₁, r, m₂, m₃, chain', inits, clones, frees, pool', perm, kept, agree⟩
  · rw [tried.inits] at fails
    have same : (0 : Int) = -enomem := congrArg (fun result => result.1.1) (Option.some.inj fails)
    exact absurd same (by decide)
  · obtain ⟨handle, rfl⟩ := Prod.mk.inj (Option.some.inj (tried.inits.symm.trans inits))
    obtain ⟨-, rfl⟩ := Prod.mk.inj handle
    obtain ⟨rfl, rfl⟩ := Prod.mk.inj (Option.some.inj (tried.clones.symm.trans clones))
    have stops : r' ≠ 0 := fun complete => by
      have room : (below m.mem 3 (rootLevelFieldAddr firstSpace)).length < m.memLayout.freeFrames :=
        tried.fits.1 complete
      rw [firstSpace_root, page.pages] at room
      omega
    have negative := tried.result
    rw [firstSpace_root] at kept agree
    exact ⟨m, dramStart, chain, pool, page.pages, _, n₁, r', n₂, m₃, chain', inits, clones, by omega, frees, pool', perm,
      kept, agree⟩

end UserSpaces

/-! ## A space that could not be made -/

/-- An empty space and one free frame, which the counter does not count. -/
def uncounted : UserSpaces where
  mmu :=
    { mem := fun _ => 0
      memLayout := ⟨0, 2, 0x80001000⟩
      window := fun _ => 0
      mapping := 0
      srp := 0
      urp := 0x400000 }
  live := [0x400000]

theorem uncounted_load32 (a : Nat) : uncounted.mmu.frames.mem.load32 a = 0 := by
  show ByteMem.load32 (fun _ => 0) a = 0
  simp [ByteMem.load32]

theorem uncounted_zero (table i : Nat) (_ : i < 128) :
    uncounted.mmu.frames.mem.load32 (table + 4 * i) = 0 := uncounted_load32 _

theorem uncounted_pool : Pool uncounted.mmu.frames [0x80001000] := by
  refine ⟨⟨rfl, by decide, uncounted_load32 _⟩, Nat.zero_le 1, fun f member => ?_⟩
  rw [List.mem_singleton.mp member]
  exact ⟨rfl, by decide, by decide⟩

theorem uncounted_owned : uncounted.Owned (frameList 2) := by
  have alone : trees uncounted.mmu.frames.mem uncounted.roots = [0x80000000] := by
    show tree _ _ ++ [] = _
    unfold tree
    rw [below_zero (uncounted_zero _)]
    rfl
  refine ⟨rfl, _, uncounted_pool, ?_, by decide, frameList_valid (by decide)⟩
  rw [alone]
  exact List.Perm.swap ..

/-- Storing zero descriptors over zeros. -/
theorem uncounted_copyEntry (inner : Nat → Nat → Work Int) {i : Nat} (small : i < 128) :
    copyEntry 3 inner 0x80000000 0 i uncounted.mmu.frames = some (0, uncounted.mmu.frames) := by
  have off : child uncounted.mmu.frames.mem 3 0x80000000 i = none :=
    child_zero (uncounted_zero 0x80000000) small
  have same : uncounted.mmu.frames.mem.store32 (0 + 4 * i) 0 = uncounted.mmu.frames.mem := by
    funext x
    unfold ByteMem.store32
    repeat' split
    all_goals rfl
  rw [copyEntry_none rfl rfl small off, uncounted_load32]
  show some (_, { uncounted.mmu.frames with mem := uncounted.mmu.frames.mem.store32 (0 + 4 * i) 0 }) = _
  rw [same]

theorem each_stays {body : Nat → Work Int} {s : Frames} {indices : List Nat}
    (stays : ∀ i ∈ indices, body i s = some (0, s)) : each indices body s = some (0, s) := by
  induction indices with
  | nil => rfl
  | cons i rest ih =>
      rw [each_cons (stays i List.mem_cons_self), if_neg (by decide)]
      exact ih fun j member => stays j (List.mem_cons_of_mem _ member)

theorem uncounted_copy : Frames.copy 3 0x80000000 0 uncounted.mmu.frames = some (0, uncounted.mmu.frames) := by
  have loop := each_stays fun i (member : i ∈ List.range (entries 3)) =>
    uncounted_copyEntry (Frames.copy 2) (List.mem_range.mp member)
  exact bind_ran loop

theorem uncounted_clear : Frames.clear 3 0 uncounted.mmu.frames = some ((), uncounted.mmu.frames) := by
  refine forM_stays fun i member => clearEntry_none rfl (List.mem_range.mp member) ?_ _
  exact child_zero (uncounted_zero 0) (List.mem_range.mp member)

/-- Without a frame for the root table the handle is zero; giving it back puts the null
frame on the free list, which ends there. -/
theorem null_space_given_back : ¬ ∀ frames u source result target m₁ r m₂ m₃ chain,
    UserSpaces.Owned frames u → source ∈ u.live →
      Mmu.initUserspace u.mmu = some ((result, target), m₁) →
        Mmu.cloneUserspace source target m₁ = some (r, m₂) →
          Mmu.freeUserspace target m₂ = some ((), m₃) → Pool u.mmu.frames chain →
            ∃ chain', Pool m₃.frames chain' ∧ chain'.Perm chain := by
  intro keeps
  obtain ⟨m₁, inits, done₁⟩ := @initUserspace_none uncounted.mmu rfl rfl
  obtain ⟨m₂, clones, done₂⟩ := run_of_simulates
    (fun _ => cloneUserspace_simulates (by decide) 0x400000 0) done₁.mapping
    (done₁.frames ▸ uncounted_copy)
  have gives : (do
      Frames.clear 3 0
      Frames.free 0 : Work Unit) uncounted.mmu.frames =
    some ((), { uncounted.mmu.frames with
      mem := uncounted.mmu.frames.mem.store32 (base 0) 0x80001000
      freeFrame := 0 }) := bind_ran uncounted_clear
  obtain ⟨m₃, frees, done₃⟩ := run_of_simulates (fun _ => freeUserspace_simulates (by decide) 0)
    done₂.mapping (by
      rw [done₂.frames, done₁.frames]
      exact gives)
  obtain ⟨chain', pool, perm⟩ := keeps _ uncounted 0x400000 _ _ m₁ _ m₂ m₃ _ uncounted_owned
    List.mem_cons_self inits clones frees uncounted_pool
  have linked := pool.linked
  rw [done₃.frames] at linked
  cases chain' with
  | nil => exact absurd perm.length_eq (by decide)
  | cons node rest => exact linked.2.1 linked.1.symm

end TrollOS.Mmu
