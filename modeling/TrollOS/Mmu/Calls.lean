import TrollOS.Mmu.InPage

/-!
# The calls of the page mapper

Every call keeps the stack, and uses a pointer only while its slot maps the frame it was
pushed for.  It stays in the page of the slot when the page tables it comes to do;
`mmu040_fill_frame` goes beyond the page exactly when the range does not fit.
-/

namespace TrollOS.Mmu

open TrollOS.Lib Frames
open Function (update)

inductive Call where
  | init
  | initUserspace
  | clearUserspace (userspace : Nat)
  | freeUserspace (userspace : Nat)
  | cloneUserspace (source target : Nat)
  | allocAt (virt : Nat) (supervisor writeProtected : Bool)
  | fillFrame (frame offset : Nat) (src : Nat → UInt8) (size : Nat)
  | copyFromUserspace (src size : Nat)
  | copyToUserspace (dst : Nat) (bytes : List UInt8)
  | mapCurrentUserspace

def ignore {μ : Type → Type} [Monad μ] {α : Type} (x : μ α) : μ Unit := do
  let _ ← x
  pure ()

def Call.run (ptestr : Mmu → Nat → Nat) : Call → Action Unit
  | .init => Mmu.init
  | .initUserspace => ignore Mmu.initUserspace
  | .clearUserspace userspace => Mmu.clearUserspace userspace
  | .freeUserspace userspace => Mmu.freeUserspace userspace
  | .cloneUserspace source target => ignore (Mmu.cloneUserspace source target)
  | .allocAt virt supervisor writeProtected => ignore (Mmu.allocAt virt supervisor writeProtected)
  | .fillFrame frame offset src size => Mmu.fillFrame frame offset src size
  | .copyFromUserspace src size => ignore (Mmu.copyFromUserspace ptestr src size)
  | .copyToUserspace dst bytes => Mmu.copyToUserspace ptestr dst bytes
  | .mapCurrentUserspace => Mmu.mapCurrentUserspace

def Call.watched (ptestr : Mmu → Nat → Nat) : Call → Watched Unit
  | .init => Watched.init
  | .initUserspace => ignore Watched.initUserspace
  | .clearUserspace userspace => Watched.clearUserspace userspace
  | .freeUserspace userspace => Watched.freeUserspace userspace
  | .cloneUserspace source target => ignore (Watched.cloneUserspace source target)
  | .allocAt virt supervisor writeProtected => ignore (Watched.allocAt virt supervisor writeProtected)
  | .fillFrame frame offset src size => Watched.fillFrame frame offset src size
  | .copyFromUserspace src size => ignore (Watched.copyFromUserspace ptestr src size)
  | .copyToUserspace dst bytes => Watched.copyToUserspace ptestr dst bytes
  | .mapCurrentUserspace => Watched.mapCurrentUserspace

/-- What is accessed lies in the pages that are mapped for it.  The walks over a space want
page tables that do; while one is copied, neither the page of the target nor a free frame is
one of the source's tables.  `mmu040_fill_frame` wants a range in the frame, or no slot left. -/
def Call.Inside (m : Mmu) : Call → Prop
  | .init => Whole m.mem 3 (rootLevelFieldAddr m.srp)
  | .clearUserspace userspace | .freeUserspace userspace =>
      Whole m.mem 3 (rootLevelFieldAddr userspace) ∧ m.memLayout.freeFrame % 4 = 0
  | .cloneUserspace source target =>
      Whole m.mem 3 (rootLevelFieldAddr source) ∧ ∃ chain, Pool m.frames chain ∧
        base (rootLevelFieldAddr target) ∉ chain ∧
          ∀ t ∈ tables m.mem 3 (rootLevelFieldAddr source),
            base t ≠ base (rootLevelFieldAddr target) ∧ base t ∉ chain
  | .allocAt virt supervisor _ =>
      Watched.EntryFits
        (Watched.pageTableWord m.frames (rootLevelFieldAddr (m.rootPointer supervisor)) virt)
        (pageTableIndex virt)
  | .fillFrame _ offset _ size => size = 0 ∨ offset + size ≤ pageSize ∨ mapperPages ≤ m.mapping
  | .initUserspace | .copyFromUserspace _ _ | .copyToUserspace _ _ | .mapCurrentUserspace => True

/-- Only the walks over the tables of a space come to page tables. -/
def Call.Spare : Call → Pointer → Prop
  | .initUserspace | .copyFromUserspace _ _ | .copyToUserspace _ _ | .mapCurrentUserspace =>
      fun _ => False
  | _ => Watched.IsPageTable

/-- The stack is afterwards what it was before, from an empty stack there is no panic, and
every access is right. -/
structure Disciplined (ptestr : Mmu → Nat → Nat) (c : Call) (m : Mmu) : Prop where
  balanced : ∀ r m', c.run ptestr m = some (r, m') → m'.mapping = m.mapping
  room : m.mapping = 0 → (c.run ptestr m).isSome = true
  right : ∀ a ∈ (c.watched ptestr ⟨m, []⟩).2.log, a.Right

namespace Watched

variable {α : Type} {spare : Pointer → Prop} {top depth : Nat} {held : Nat → Nat}

theorem Follows.ignore {x : Watched α} {y : Action α} (follows : Follows spare top depth held x y fun _ => depth) :
    Follows spare top depth held (Mmu.ignore x) (Mmu.ignore y) fun _ => depth :=
  follows.bind fun _ => .pure top depth held () rfl

theorem ignore_log (x : Watched α) (w : Watch) : (Mmu.ignore x w).2.log = (x w).2.log := by
  unfold Mmu.ignore
  rw [bind_eq]
  rcases x w with ⟨_ | a, w'⟩
  · rfl
  · rfl

/-! ## The copies -/

section Copies

variable {ptestr : Mmu → Nat → Nat} {p : Pointer} {q : Nat} {after : α → Nat}

/-- The physical address is as far in its page as the virtual one. -/
theorem getPhysical_follows {virt : Nat} {f : Nat → Watched α} {g : Nat → Action α}
    (rest : ∀ phys, phys % pageSize = virt % pageSize → Follows spare top depth held (f phys) (g phys) after) :
    Follows spare top depth held (plain (getPhysical ptestr virt) >>= f) (getPhysical ptestr virt >>= g) after := by
  intro w mapping shows
  refine rest (ptestr w.mmu virt / pageSize * pageSize + virt % pageSize) ?_ w mapping shows
  rw [Nat.mul_comm, Nat.mul_add_mod, Nat.mod_mod]

theorem read8_follows (stands : StandsFor spare depth held p q 1024) {i : Nat} (small : i < pageSize) :
    Follows spare top depth held (Watched.read8 p i) (Action.read8 (q + i)) fun _ => depth := by
  rw [← stands.value]
  refine .note stands (Nat.le_trans small stands.room)
    (.plain (fun _ => rfl) fun m r ran => ?_)
  rw [← Option.some.inj ran]
  exact ⟨rfl, rfl⟩

theorem write8_follows (stands : StandsFor spare depth held p q 1024) {i : Nat} (small : i < pageSize) (b : UInt8) :
    Follows spare top depth held (Watched.write8 p i b) (Action.write8 (q + i) b) fun _ => depth := by
  rw [← stands.value]
  refine .note stands (Nat.le_trans small stands.room)
    (.plain (fun _ => rfl) fun m r ran => ?_)
  rw [← Option.some.inj ran]
  exact ⟨rfl, rfl⟩

/-- Where the next byte is, when it is not the first of a page. -/
theorem next_byte {virt : Nat} (inside : ¬ u32 (virt + 1) % pageSize = 0) :
    u32 (virt + 1) % pageSize = virt % pageSize + 1 := by
  unfold u32 pageSize at *
  omega

theorem page_lt (a : Nat) : a % pageSize < pageSize := Nat.mod_lt a (by decide)

/-- The loop of the copy out of a user space, and what follows it. -/
theorem copyFromLoop_follows (room : depth < top) (shrinks : ∀ r, after r ≤ depth) (left : Nat)
    {f : List UInt8 → Watched α} {g : List UInt8 → Action α}
    (rest : ∀ held bytes, Follows spare top (depth + 1) held (f bytes) (g bytes) after) :
    ∀ {held : Nat → Nat} {p : Pointer} {q : Nat} (src : Nat), StandsFor spare (depth + 1) held p q 1024 →
      Follows spare top (depth + 1) held (Watched.copyFromLoop ptestr left src p (src % pageSize) >>= f)
        (Mmu.copyFromLoop ptestr left src (q + src % pageSize) >>= g) after := by
  induction left generalizing f g with
  | zero => exact fun src stands => rest _ []
  | succ left ih =>
      intro held p q src stands
      rw [Watched.copyFromLoop, Mmu.copyFromLoop]
      refine .bindThen (read8_follows stands (page_lt src)) fun b => ?_
      dsimp only
      by_cases last : left = 0
      · rw [if_pos last, if_pos last]
        exact rest held [b]
      rw [if_neg last, if_neg last]
      have rest' : ∀ held bytes, Follows spare top (depth + 1) held
          ((Pure.pure (b :: bytes) : Watched (List UInt8)) >>= f)
          ((Pure.pure (b :: bytes) : Action (List UInt8)) >>= g) after :=
        fun held bytes => rest held (b :: bytes)
      by_cases boundary : u32 (src + 1) % pageSize = 0
      · rw [if_pos boundary, if_pos boundary]
        refine .bindThen (.pop top (depth + 1) held) fun _ => ?_
        rw [bind_bind, bind_assoc]
        refine getPhysical_follows fun phys same => ?_
        refine .pushThen room shrinks ?_
        rw [same, bind_bind, bind_assoc]
        exact ih rest' _ (whole_page depth held phys)
      · rw [if_neg boundary, if_neg boundary, bind_bind, bind_assoc, Nat.add_assoc, ← next_byte boundary]
        exact ih rest' _ stands

theorem copyFromUserspace_follows (room : depth < top) (src size : Nat) :
    Follows spare top depth held (Watched.copyFromUserspace ptestr src size)
      (Mmu.copyFromUserspace ptestr src size) fun _ => depth := by
  unfold Watched.copyFromUserspace Mmu.copyFromUserspace
  by_cases empty : size = 0
  · rw [if_pos empty, if_pos empty]
    exact .pure top depth held [] rfl
  · rw [if_neg empty, if_neg empty]
    refine getPhysical_follows fun phys same => ?_
    refine .push room (fun _ => Nat.le_refl depth) ?_
    rw [same]
    refine copyFromLoop_follows room (fun _ => Nat.le_refl depth) size (fun held bytes => ?_) src
      (whole_page depth held phys)
    exact (Follows.pop top (depth + 1) held).bind fun _ => .pure top depth held bytes rfl

/-- The loop of the copy into a user space, and what follows it. -/
theorem copyToLoop_follows (room : depth < top) (shrinks : ∀ r, after r ≤ depth) {f : Unit → Watched α}
    {g : Unit → Action α} (rest : ∀ held r, Follows spare top (depth + 1) held (f r) (g r) after)
    (bytes : List UInt8) :
    ∀ {held : Nat → Nat} {p : Pointer} {q : Nat} (dst : Nat), StandsFor spare (depth + 1) held p q 1024 →
      Follows spare top (depth + 1) held (Watched.copyToLoop ptestr bytes dst p (dst % pageSize) >>= f)
        (Mmu.copyToLoop ptestr bytes dst (q + dst % pageSize) >>= g) after := by
  induction bytes with
  | nil => exact fun dst stands => rest _ ()
  | cons b bytes ih =>
      intro held p q dst stands
      rw [Watched.copyToLoop, Mmu.copyToLoop]
      refine .bindThen (write8_follows stands (page_lt dst) b) fun _ => ?_
      dsimp only
      by_cases last : bytes.isEmpty = true
      · rw [if_pos last, if_pos last]
        exact rest held ()
      rw [if_neg last, if_neg last]
      by_cases boundary : u32 (dst + 1) % pageSize = 0
      · rw [if_pos boundary, if_pos boundary]
        refine .bindThen (.pop top (depth + 1) held) fun _ => ?_
        rw [bind_bind, bind_assoc]
        refine getPhysical_follows fun phys same => ?_
        refine .pushThen room shrinks ?_
        rw [same]
        exact ih _ (whole_page depth held phys)
      · rw [if_neg boundary, if_neg boundary, Nat.add_assoc, ← next_byte boundary]
        exact ih _ stands

theorem copyToUserspace_follows (room : depth < top) (dst : Nat) (bytes : List UInt8) :
    Follows spare top depth held (Watched.copyToUserspace ptestr dst bytes)
      (Mmu.copyToUserspace ptestr dst bytes) fun _ => depth := by
  unfold Watched.copyToUserspace Mmu.copyToUserspace
  by_cases empty : bytes.isEmpty = true
  · rw [if_pos empty, if_pos empty]
    exact .pure top depth held () rfl
  · rw [if_neg empty, if_neg empty]
    refine getPhysical_follows fun phys same => ?_
    refine .push room (fun _ => Nat.le_refl depth) ?_
    rw [same]
    refine copyToLoop_follows room (fun _ => Nat.le_refl depth) (fun held _ => ?_) bytes dst
      (whole_page depth held phys)
    exact .pop top (depth + 1) held

theorem mapCurrentUserspace_follows (room : depth + 1 < top) :
    Follows spare top depth held Watched.mapCurrentUserspace Mmu.mapCurrentUserspace fun _ => depth := by
  have getSrp : Follows spare top depth held (plain Action.getSrp) Action.getSrp fun _ => depth :=
    .plain (fun _ => rfl) fun m r ran => by rw [← Option.some.inj ran]; exact ⟨rfl, rfl⟩
  have getUrp : Follows spare top depth held (plain Action.getUrp) Action.getUrp fun _ => depth :=
    .plain (fun _ => rfl) fun m r ran => by rw [← Option.some.inj ran]; exact ⟨rfl, rfl⟩
  rw [Watched.mapCurrentUserspace, Mmu.mapCurrentUserspace]
  refine getSrp.bind fun srp => getUrp.bind fun urp => ?_
  refine .push (Nat.lt_of_succ_lt room) (fun _ => Nat.le_refl depth) ?_
  refine .push room (fun _ => Nat.le_succ depth) ?_
  have supervisor := (@standsFor_table spare depth held srp).update
    (pageLevelFieldAddr (pageLevelAddrField (rootLevelFieldAddr urp)))
  have user := @standsFor_table spare (depth + 1) (Function.update held depth
    (pageLevelFieldAddr (pageLevelAddrField (rootLevelFieldAddr srp)))) urp
  refine Follows.bind (?_ : Follows spare top (depth + 2) _ _ _ fun _ => depth + 2) fun _ =>
    .pops top (depth + 2) _ 2
  refine .forM fun i member => ?_
  have small : i < rootLevelDescriptors :=
    Nat.lt_of_lt_of_le (List.mem_range.mp member) (by decide)
  exact (Follows.read32 user small).bind fun w => .write32 supervisor small w

end Copies

/-! ## Filling a frame -/

/-- The loop of `mmu040_fill_frame`, which writes whatever the pointer leads to. -/
theorem fill_loop (p : Pointer) (offset : Nat) (src : Nat → UInt8) (indices : List Nat) (w : Watch) :
    ∃ mem, (indices.forM fun i => Watched.write8 p (i + offset) (src i)) w =
        (some (), ⟨{ w.mmu with mem := mem },
          (indices.map fun i => ⟨p, i + offset, 1, w.mmu.mapping, w.mmu.window p.slot⟩).reverse ++ w.log⟩) ∧
      (indices.forM fun i => Action.write8 (p.value + (i + offset)) (src i)) w.mmu =
        some ((), { w.mmu with mem := mem }) := by
  induction indices generalizing w with
  | nil => exact ⟨w.mmu.mem, rfl, rfl⟩
  | cons i rest ih =>
      obtain ⟨mem, watched, ran⟩ := ih
        ⟨{ w.mmu with mem := fun a => if a = w.mmu.translate (p.value + (i + offset)) then src i else w.mmu.mem a },
          ⟨p, i + offset, 1, w.mmu.mapping, w.mmu.window p.slot⟩ :: w.log⟩
      refine ⟨mem, Eq.trans watched ?_, ran⟩
      rw [List.map_cons, List.reverse_cons, List.append_assoc]
      rfl

/-- `mmu040_fill_frame` when there is a slot left. -/
theorem fillFrame_room (frame offset : Nat) (src : Nat → UInt8) (size : Nat) {w : Watch}
    (room : w.mmu.mapping < mapperPages) :
    ∃ mem, Watched.fillFrame frame offset src size w =
        (some (), ⟨{ w.mmu.withSlot frame with mem := mem, mapping := w.mmu.mapping },
          ((List.range size).map fun i =>
            ⟨pushed w.mmu.mapping frame, i + offset, 1, w.mmu.mapping + 1,
              pageLevelFieldAddr (pageLevelAddrField frame)⟩).reverse ++ w.log⟩) ∧
      Mmu.fillFrame frame offset src size w.mmu =
        some ((), { w.mmu.withSlot frame with mem := mem, mapping := w.mmu.mapping }) := by
  obtain ⟨mem, watched, ran⟩ := fill_loop (pushed w.mmu.mapping frame) offset src (List.range size)
    { w with mmu := w.mmu.withSlot frame }
  have value : (pushed w.mmu.mapping frame).value = w.mmu.mapping * pageSize := Nat.add_zero _
  have shown : (w.mmu.withSlot frame).window (pushed w.mmu.mapping frame).slot =
      pageLevelFieldAddr (pageLevelAddrField frame) := if_pos rfl
  rw [value] at ran
  refine ⟨mem, ?_, ?_⟩
  · rw [Watched.fillFrame, mappingPush_bind_room _ room, bind_eq, watched]
    dsimp only
    rw [shown]
    rfl
  · rw [Mmu.fillFrame]
    show (Mmu.mappingPush frame w.mmu).bind _ = _
    rw [mappingPush_room room, Option.bind_some]
    show (((List.range size).forM fun i => Action.write8 (w.mmu.mapping * pageSize + (i + offset)) (src i))
      (w.mmu.withSlot frame)).bind _ = _
    rw [ran]
    rfl

theorem fillFrame_full (frame offset : Nat) (src : Nat → UInt8) (size : Nat) {w : Watch}
    (full : mapperPages ≤ w.mmu.mapping) :
    Watched.fillFrame frame offset src size w = (none, w) ∧
      Mmu.fillFrame frame offset src size w.mmu = none := by
  refine ⟨mappingPush_bind_full _ full, ?_⟩
  show (Mmu.mappingPush frame w.mmu).bind _ = none
  rw [mappingPush_full full]
  rfl

end Watched

namespace Call

/-- Every call but `mmu040_fill_frame` needs at most eight slots, and leaves the stack as
it was. -/
theorem follows (ptestr : Mmu → Nat → Nat) (c : Call)
    (other : ∀ frame offset src size, c ≠ .fillFrame frame offset src size)
    (depth : Nat) (held : Nat → Nat) :
    Watched.Follows c.Spare (depth + 8) depth held (c.watched ptestr) (c.run ptestr) fun _ => depth := by
  cases c with
  | init => exact Watched.init_follows (by omega)
  | initUserspace => exact (Watched.initUserspace_follows (by omega)).ignore
  | clearUserspace userspace => exact Watched.clearUserspace_follows (by omega) userspace
  | freeUserspace userspace => exact Watched.freeUserspace_follows (by omega) userspace
  | cloneUserspace source target => exact (Watched.cloneUserspace_follows (by omega) source target).ignore
  | allocAt virt supervisor writeProtected =>
      exact (Watched.allocAt_follows (by omega) virt supervisor writeProtected).ignore
  | fillFrame frame offset src size => exact absurd rfl (other frame offset src size)
  | copyFromUserspace src size => exact (Watched.copyFromUserspace_follows (by omega) src size).ignore
  | copyToUserspace dst bytes => exact Watched.copyToUserspace_follows (by omega) dst bytes
  | mapCurrentUserspace => exact Watched.mapCurrentUserspace_follows (by omega)

/-- The log is only a log. -/
theorem watched_run (ptestr : Mmu → Nat → Nat) (c : Call) (m : Mmu) :
    c.run ptestr m = (c.watched ptestr ⟨m, []⟩).1.map fun r => (r, (c.watched ptestr ⟨m, []⟩).2.mmu) := by
  by_cases fill : ∃ frame offset src size, c = .fillFrame frame offset src size
  · obtain ⟨frame, offset, src, size, rfl⟩ := fill
    by_cases room : m.mapping < mapperPages
    · obtain ⟨mem, watched, ran⟩ := Watched.fillFrame_room frame offset src size (w := ⟨m, []⟩) room
      exact ran.trans (by rw [Call.watched, watched]; rfl)
    · obtain ⟨watched, ran⟩ := Watched.fillFrame_full frame offset src size (w := ⟨m, []⟩) (Nat.not_lt.mp room)
      exact ran.trans (by rw [Call.watched, watched]; rfl)
  · have other : ∀ frame offset src size, c ≠ .fillFrame frame offset src size :=
      fun frame offset src size isFill => fill ⟨frame, offset, src, size, isFill⟩
    exact (follows ptestr c other m.mapping m.window ⟨m, []⟩ rfl fun _ _ => rfl).erased

/-- A range that is filled is in the frame exactly when every byte is. -/
theorem fills_inside {offset size : Nat} :
    (∀ i, i < size → i + offset + 1 ≤ pageSize) ↔ size = 0 ∨ offset + size ≤ pageSize := by
  constructor
  · intro each
    by_cases empty : size = 0
    · exact Or.inl empty
    · have last := each (size - 1) (by omega)
      exact Or.inr (by omega)
  · rintro (rfl | fits) i small
    · exact absurd small (Nat.not_lt_zero i)
    · omega

theorem fillFrame_disciplined_iff (ptestr : Mmu → Nat → Nat) (frame offset : Nat) (src : Nat → UInt8)
    (size : Nat) (m : Mmu) :
    Disciplined ptestr (.fillFrame frame offset src size) m ↔
      (Call.fillFrame frame offset src size).Inside m := by
  by_cases room : m.mapping < mapperPages
  · obtain ⟨mem, watched, ran⟩ := Watched.fillFrame_room frame offset src size (w := ⟨m, []⟩) room
    have inside : (Call.fillFrame frame offset src size).Inside m ↔
        ∀ i, i < size → i + offset + 1 ≤ pageSize := by
      rw [fills_inside]
      exact or_congr_right (or_iff_left (Nat.not_le.mpr room))
    rw [inside]
    constructor
    · intro disciplined i small
      have good := disciplined.right ⟨Watched.pushed m.mapping frame, i + offset, 1, m.mapping + 1,
        pageLevelFieldAddr (pageLevelAddrField frame)⟩ (by
          rw [Call.watched, watched]
          refine List.mem_append_left _ (List.mem_reverse.mpr (List.mem_map.mpr ⟨i, ?_, rfl⟩))
          exact List.mem_range.mpr small)
      exact good.inside
    · intro inside
      refine ⟨fun r m' ran' => ?_, fun _ => ?_, fun a member => ?_⟩
      · obtain ⟨-, rfl⟩ := Prod.mk.inj (Option.some.inj (ran.symm.trans ran'))
        rfl
      · exact Option.isSome_iff_exists.mpr ⟨_, ran⟩
      · rw [Call.watched, watched, List.append_nil] at member
        obtain ⟨i, inRange, rfl⟩ := List.mem_map.mp (List.mem_reverse.mp member)
        have small := inside i (List.mem_range.mp inRange)
        exact ⟨Nat.lt_succ_self _, rfl, small, (Nat.zero_add (i + offset)).symm ▸ small⟩
  · obtain ⟨watched, ran⟩ := Watched.fillFrame_full frame offset src size (w := ⟨m, []⟩) (Nat.not_lt.mp room)
    refine ⟨fun _ => Or.inr (Or.inr (Nat.not_lt.mp room)), fun _ => ⟨fun r m' ran' => ?_, fun empty => ?_,
      fun a member => ?_⟩⟩
    · exact nomatch ran.symm.trans ran'
    · rw [empty] at room
      exact absurd (by decide) room
    · rw [Call.watched, watched] at member
      exact nomatch member

/-- Every call keeps the stack, and from an empty one it does not panic. -/
theorem balanced (ptestr : Mmu → Nat → Nat) (c : Call) (m : Mmu) :
    (∀ r m', c.run ptestr m = some (r, m') → m'.mapping = m.mapping) ∧
      (m.mapping = 0 → (c.run ptestr m).isSome = true) := by
  by_cases fill : ∃ frame offset src size, c = .fillFrame frame offset src size
  · obtain ⟨frame, offset, src, size, rfl⟩ := fill
    by_cases room : m.mapping < mapperPages
    · obtain ⟨mem, -, ran⟩ := Watched.fillFrame_room frame offset src size (w := ⟨m, []⟩) room
      refine ⟨fun r m' ran' => ?_, fun _ => Option.isSome_iff_exists.mpr ⟨_, ran⟩⟩
      obtain ⟨-, rfl⟩ := Prod.mk.inj (Option.some.inj (ran.symm.trans ran'))
      rfl
    · obtain ⟨-, ran⟩ := Watched.fillFrame_full frame offset src size (w := ⟨m, []⟩) (Nat.not_lt.mp room)
      refine ⟨fun r m' ran' => (nomatch ran.symm.trans ran'), fun empty => ?_⟩
      rw [empty] at room
      exact absurd (by decide) room
  · have other : ∀ frame offset src size, c ≠ .fillFrame frame offset src size :=
      fun frame offset src size isFill => fill ⟨frame, offset, src, size, isFill⟩
    obtain ⟨erased, -, returns, mapping, -⟩ :=
      follows ptestr c other m.mapping m.window ⟨m, []⟩ rfl fun _ _ => rfl
    refine ⟨fun r m' ran => ?_, fun empty => ?_⟩
    · obtain ⟨a, result, same⟩ := Option.map_eq_some_iff.mp (erased.symm.trans ran)
      obtain ⟨rfl, rfl⟩ := Prod.mk.inj same
      exact mapping a result
    · rw [erased, Option.isSome_map]
      exact returns (by rw [empty]; decide)

theorem kept (ptestr : Mmu → Nat → Nat) (c : Call)
    (other : ∀ frame offset src size, c ≠ .fillFrame frame offset src size) (m : Mmu) (a : Access)
    (member : a ∈ (c.watched ptestr ⟨m, []⟩).2.log) : a.Kept c.Spare :=
  ((follows ptestr c other m.mapping m.window ⟨m, []⟩ rfl fun _ _ => rfl).right a member).resolve_left
    fun wrong => (nomatch wrong)

/-- A call whose page tables lie in their pages accesses nothing beyond a page. -/
theorem inPage (ptestr : Mmu → Nat → Nat) (c : Call)
    (other : ∀ frame offset src size, c ≠ .fillFrame frame offset src size) {m : Mmu} (inside : c.Inside m)
    (a : Access) (member : a ∈ (c.watched ptestr ⟨m, []⟩).2.log) : a.InPage := by
  have kept := kept ptestr c other m a member
  have of_stays {α : Type} {P : Frames → Prop} {Q : α → Frames → Prop} {x : Watched α} {after : α → Nat}
      (stays : Watched.Stays m.srp m.mapping m.window P x Q after) (holds : P m.frames)
      (member : a ∈ (x ⟨m, []⟩).2.log) : a.InPage :=
    ((stays ⟨m, []⟩ rfl rfl (fun _ _ => rfl) holds).inPage a member).resolve_left fun wrong => (nomatch wrong)
  cases c with
  | init => exact of_stays (Watched.init_stays inside) rfl member
  | initUserspace => exact kept.page_of_not id
  | clearUserspace userspace =>
      exact of_stays (Watched.clearUserspace_stays inside.1) ⟨fun _ _ => Or.inl rfl, inside.2⟩ member
  | freeUserspace userspace =>
      exact of_stays (Watched.freeUserspace_stays inside.1) ⟨fun _ _ => Or.inl rfl, inside.2⟩ member
  | cloneUserspace source target =>
      obtain ⟨whole, chain, pool, apart, distinct⟩ := inside
      have free : ∀ f ∈ chain, f ∉ (tables m.mem 3 (rootLevelFieldAddr source)).map base := by
        intro f inChain inTables
        obtain ⟨t, inTree, rfl⟩ := List.mem_map.mp inTables
        exact (distinct t inTree).2 inChain
      have target : Watched.Target (tables m.mem 3 (rootLevelFieldAddr source))
          [base (rootLevelFieldAddr target)] (rootLevelFieldAddr target) := by
        refine ⟨Watched.table_inPage (Watched.rootLevelFieldAddr_aligned target), List.mem_singleton_self _, ?_⟩
        intro inTables
        obtain ⟨t, inTree, same⟩ := List.mem_map.mp inTables
        exact (distinct t inTree).1 same
      rw [Call.watched, Watched.ignore_log] at member
      refine of_stays (Watched.cloneUserspace_stays free ⟨whole, fun _ => id⟩ target)
        ⟨fun _ _ _ _ => rfl, chain, pool, fun _ => id, fun t written => ?_⟩ member
      exact (List.mem_singleton.mp written) ▸ apart
  | allocAt virt supervisor writeProtected =>
      have begins : (Watched.allocAt virt supervisor writeProtected) ⟨m, []⟩ =
          Watched.allocBelow (m.rootPointer supervisor) virt supervisor writeProtected ⟨m, []⟩ := by
        cases supervisor with
        | true => rfl
        | false => rfl
      rw [Call.watched, Watched.ignore_log, begins] at member
      exact of_stays (Watched.allocBelow_stays (m.rootPointer supervisor) virt supervisor writeProtected inside)
        rfl member
  | fillFrame frame offset src size => exact absurd rfl (other frame offset src size)
  | copyFromUserspace src size => exact kept.page_of_not id
  | copyToUserspace dst bytes => exact kept.page_of_not id
  | mapCurrentUserspace => exact kept.page_of_not id

theorem disciplined_of_inside {ptestr : Mmu → Nat → Nat} {c : Call} {m : Mmu} (inside : c.Inside m) :
    Disciplined ptestr c m := by
  by_cases fill : ∃ frame offset src size, c = .fillFrame frame offset src size
  · obtain ⟨frame, offset, src, size, rfl⟩ := fill
    exact (fillFrame_disciplined_iff ptestr frame offset src size m).mpr inside
  · have other : ∀ frame offset src size, c ≠ .fillFrame frame offset src size :=
      fun frame offset src size isFill => fill ⟨frame, offset, src, size, isFill⟩
    obtain ⟨returns, total⟩ := balanced ptestr c m
    exact ⟨returns, total, fun a member =>
      (kept ptestr c other m a member).right (inPage ptestr c other inside a member)⟩

section Spaces

variable {u v : UserSpaces} {frames chain roots : List Nat} {mem : ByteMem} {level table root virt : Nat}

/-- Tables in frames of their own lie in their pages. -/
theorem whole_of_frames (valid : ∀ f ∈ table :: below mem level table, IsFrame f) : Whole mem level table := by
  induction level generalizing table with
  | zero => trivial
  | succ level ih =>
      refine ⟨?_, fun i small c leads => ih fun f member => valid f ?_⟩
      · have bound := entries_le (level + 1)
        rw [(valid table List.mem_cons_self).aligned]
        unfold pageSize
        omega
      · exact List.mem_cons_of_mem _ (below_child_subset small leads member)

theorem whole_of_owned {m : Mmu} (owned : Frames.Owned frames m.frames roots chain) (member : root ∈ roots) :
    Whole m.mem 3 root := by
  have valid : ∀ f ∈ root :: below m.mem 3 root, IsFrame f := owned.valid_tree member
  exact whole_of_frames valid

/-- The free list begins with a frame, or it is empty. -/
theorem link_of_pool {s : Frames} (pool : Pool s chain) : s.freeFrame % 4 = 0 := by
  cases chain with
  | nil =>
      have empty : s.freeFrame = 0 := pool.linked
      rw [empty]
  | cons f rest =>
      have head : s.freeFrame = f := pool.linked.1
      have aligned := (pool.frames f List.mem_cons_self).aligned
      rw [head]
      unfold pageSize at aligned
      omega

/-- The way to a page goes through frames, when the tables it needs can be made. -/
theorem entryFits_of_frames {s : Frames} (valid : ∀ f ∈ tree s.mem root, IsFrame f)
    (supplied : wanted s.mem virt 3 root ≤ s.freeFrames) :
    Watched.EntryFits (Watched.pageTableWord s root virt) (pageTableIndex virt) := by
  have rootIndex : rootTableIndex virt < 128 := Nat.mod_lt _ (by decide)
  have pointerIndex : pointerTableIndex virt < 128 := Nat.mod_lt _ (by decide)
  have pageIndex : pageTableIndex virt < 64 := Nat.mod_lt _ (by decide)
  intro resident
  by_cases found : isResident 3 (s.mem.load32 (root + 4 * rootTableIndex virt)) = true
  · rw [Watched.pageTableWord_found found] at resident ⊢
    have leads : child s.mem 3 root (rootTableIndex virt) = some _ := if_pos found
    have leads' : child s.mem 2 _ (pointerTableIndex virt) = some _ := if_pos resident
    have inPointers := @below_child_subset s.mem 1 _ _ _ pointerIndex leads' _ List.mem_cons_self
    have inTree := @below_child_subset s.mem 2 _ _ _ rootIndex leads _ (List.mem_cons_of_mem _ inPointers)
    rw [(valid _ (List.mem_cons_of_mem _ inTree)).aligned]
    unfold pageSize
    omega
  · have leads : child s.mem 3 root (index 3 virt) = none := if_neg found
    have left : s.freeFrames ≠ 0 := by
      have all : wanted s.mem virt 3 root = 3 := by
        show (child s.mem 3 root (index 3 virt)).elim 3 _ = 3
        rw [leads]
        rfl
      omega
    have word : Watched.pageTableWord s root virt = 0 := (if_neg found).trans (if_neg left)
    rw [word] at resident
    exact nomatch resident

def Request.call : Request → Option Call
  | .initUserspace => some .initUserspace
  | .allocAt virt writeProtected => some (.allocAt virt false writeProtected)
  | .switchUserspace _ => none
  | .cloneUserspace source target => some (.cloneUserspace source target)
  | .clearUserspace userspace => some (.clearUserspace userspace)
  | .freeUserspace userspace => some (.freeUserspace userspace)

theorem inside_of_owned (owned : u.Owned frames) {r : Request} (allowed : u.Allowed r) (c : Call)
    (made : Request.call r = some c) : c.Inside u.mmu := by
  obtain ⟨chain, roles⟩ := owned.roles
  obtain ⟨named, current⟩ := allowed
  cases r with
  | initUserspace =>
      obtain rfl := Option.some.inj made
      trivial
  | allocAt virt writeProtected =>
      obtain rfl := Option.some.inj made
      exact entryFits_of_frames (roles.valid_tree (UserSpaces.mem_roots (current virt writeProtected rfl))) named
  | switchUserspace userspace => exact nomatch made
  | cloneUserspace source target =>
      obtain rfl := Option.some.inj made
      obtain ⟨sourceIn, targetIn, other, -⟩ := named
      have sourceRoot := UserSpaces.mem_roots sourceIn
      have targetRoot := UserSpaces.mem_roots targetIn
      have apart : rootLevelFieldAddr target ∈ u.roots.erase (rootLevelFieldAddr source) :=
        (List.mem_erase_of_ne fun same => other (rootLevelFieldAddr_injective same).symm).mpr targetRoot
      have all := (roles.apart sourceRoot).nodup_iff.mpr roles.distinct
      have targetFrame := roles.valid_tree targetRoot _ List.mem_cons_self
      have whole : Whole u.mmu.mem 3 (rootLevelFieldAddr source) := whole_of_owned roles sourceRoot
      refine ⟨whole, chain, roles.pool, fun free => ?_, fun t inTables => ?_⟩
      · rw [base_frame targetFrame] at free
        exact (List.nodup_append.mp (roles.distinct_apart targetRoot)).2.2 _ free _ List.mem_cons_self rfl
      · have inTree := tables_subset _ _ _ inTables
        rw [base_frame targetFrame, base_frame (roles.valid_tree sourceRoot t inTree)]
        refine ⟨fun same => ?_, fun free => ?_⟩
        · exact (List.nodup_append.mp all).2.2 t (List.mem_append_right _ inTree) _
            (tree_subset apart _ List.mem_cons_self) same
        · exact (List.nodup_append.mp (roles.distinct_apart sourceRoot)).2.2 t free t inTree rfl
  | clearUserspace userspace =>
      obtain rfl := Option.some.inj made
      have whole : Whole u.mmu.mem 3 (rootLevelFieldAddr userspace) :=
        whole_of_owned roles (UserSpaces.mem_roots named)
      exact ⟨whole, link_of_pool roles.pool⟩
  | freeUserspace userspace =>
      obtain rfl := Option.some.inj made
      have whole : Whole u.mmu.mem 3 (rootLevelFieldAddr userspace) :=
        whole_of_owned roles (UserSpaces.mem_roots named)
      exact ⟨whole, link_of_pool roles.pool⟩

/-- In a run that keeps every frame in one role, every call is disciplined. -/
theorem run_disciplined (ptestr : Mmu → Nat → Nat) {requests : List Request} (start : u.Owned frames)
    (run : UserSpaces.Run UserSpaces.Allowed u requests v) {r : Request} (allowed : v.Allowed r) (c : Call)
    (made : Request.call r = some c) : Disciplined ptestr c v.mmu :=
  disciplined_of_inside (inside_of_owned (UserSpaces.owned_run start run).1 allowed c made)

end Spaces

end Call

end TrollOS.Mmu
