import TrollOS.Mmu.Mapping
import TrollOS.Elf.Model

/-!
# Bytes of a user space

What is read through a space after a page was put into it, and after bytes were put into
the frame of one of its pages.
-/

namespace TrollOS.Lib.ByteMem

def filled (mem : ByteMem) (a n : Nat) (src : Nat → UInt8) : ByteMem :=
  fun x => if a ≤ x ∧ x < a + n then src (x - a) else mem x

variable {mem : ByteMem} {a n x : Nat} {src : Nat → UInt8}

theorem filled_in (low : a ≤ x) (high : x < a + n) : mem.filled a n src x = src (x - a) :=
  if_pos ⟨low, high⟩

theorem filled_off (off : x < a ∨ a + n ≤ x) : mem.filled a n src x = mem x :=
  if_neg fun inside => by omega

theorem filled_zero (mem : ByteMem) (a : Nat) (src : Nat → UInt8) : mem.filled a 0 src = mem :=
  funext fun x => filled_off (Nat.lt_or_ge x a)

/-- One more byte. -/
theorem filled_succ (mem : ByteMem) (a n : Nat) (src : Nat → UInt8) :
    mem.filled a (n + 1) src = fun x => if x = a + n then src n else mem.filled a n src x := by
  funext x
  by_cases last : x = a + n
  · rw [if_pos last, last, filled_in (Nat.le_add_right a n) (Nat.lt_succ_self _), Nat.add_sub_cancel_left]
  · rw [if_neg last]
    by_cases inside : a ≤ x ∧ x < a + n
    · rw [filled_in inside.1 inside.2, filled_in inside.1 (Nat.lt_succ_of_lt inside.2)]
    · rw [filled_off (by omega), filled_off (by omega)]

end TrollOS.Lib.ByteMem

namespace TrollOS.Mmu

open TrollOS.Lib Frames Action

section Fill

variable {m : Mmu} {frame offset n : Nat} {src : Nat → UInt8}

/-- The loop of `mmu040_fill_frame` in the first page of the window. -/
theorem fill_page (shows : m.window 0 = frame) (inPage : offset + n ≤ pageSize) :
    ((List.range n).forM fun i => write8 (0 + (i + offset)) (src i)) m =
      some ((), { m with mem := m.mem.filled (frame + offset) n src }) := by
  induction n with
  | zero =>
      rw [ByteMem.filled_zero]
      rfl
  | succ n ih =>
      have before := ih (Nat.le_of_succ_le inPage)
      have split : ((List.range (n + 1)).forM fun i => write8 (0 + (i + offset)) (src i)) = (do
          (List.range n).forM fun i => write8 (0 + (i + offset)) (src i)
          write8 (0 + (n + offset)) (src n)) := by
        rw [List.range_succ, List.forM_eq_forM, List.forM_append, List.forM_cons, List.forM_nil]
        simp only [bind_pure_unit]
      have there : translate { m with mem := m.mem.filled (frame + offset) n src } (0 + (n + offset)) =
          frame + offset + n := by
        unfold translate
        rw [Nat.zero_add, Nat.div_eq_of_lt (by omega), Nat.mod_eq_of_lt (by omega)]
        show m.window 0 + (n + offset) = _
        rw [shows]
        omega
      rw [split, ByteMem.filled_succ]
      refine (bind_of_some before).trans ?_
      unfold write8
      rw [there]

/-- `mmu040_fill_frame` inside its frame. -/
theorem fillFrame_ran (mapping : m.mapping = 0) (aligned : frame % pageSize = 0)
    (inPage : offset + n ≤ pageSize) :
    ∃ m', fillFrame frame offset src n m = some ((), m') ∧
      Done m m' 0 (fun _ => 0) { m.frames with mem := m.mem.filled (frame + offset) n src } := by
  have pushes : mappingPush frame m = some (0,
      { m with
        window := fun slot => if slot = m.mapping then base frame else m.window slot
        mapping := m.mapping + 1 }) := by
    unfold mappingPush
    rw [mapping, if_neg (by decide)]
    rfl
  have fills := @fill_page
    { m with
      window := fun slot => if slot = m.mapping then base frame else m.window slot
      mapping := m.mapping + 1 } frame offset n src
    ((if_pos mapping.symm).trans (base_of_aligned aligned)) inPage
  refine ⟨_, (bind_of_some pushes).trans ((bind_of_some fills).trans rfl), rfl, rfl, rfl, rfl, mapping,
    fun slot below => absurd below (Nat.not_lt_zero slot)⟩

end Fill

end TrollOS.Mmu

namespace TrollOS.Frames

open TrollOS.Lib Mmu

section Pages

variable {mem : ByteMem} {s : Frames} {frames roots chain : List Nat} {root level table v virt w : Nat}

/-- A new page is full of zeros, and the others are as they were. -/
theorem readUser_placement {s' : Frames} {f : Nat} {supervisor writeProtected : Bool}
    {used rest : List Nat}
    (placement : Placement s s' virt supervisor writeProtected 3 root f chain used rest) (v : Nat) :
    readUser s'.mem root v = if pageOf v = pageOf virt then some 0 else readUser s.mem root v := by
  unfold readUser
  by_cases page : pageOf v = pageOf virt
  · obtain ⟨w, here⟩ := placement.here
    rw [if_pos page, lookup_samePath ((samePath_iff v virt).mpr page), here, Option.map_some,
      address_placed placement.frame, placement.empty _ (Nat.mod_lt _ (by decide))]
  · have view := placement.elsewhere v fun path => page ((samePath_iff v virt).mp path)
    rw [if_neg page, view.lookup]
    cases found : lookup s.mem 3 root v with
    | none => rfl
    | some w => exact congrArg some (view.bytes w found _ (Nat.mod_lt _ (by decide)))

/-- A change in a page of a space is no change in the tables of any space. -/
theorem Owned.page_tables (owned : Owned frames s roots chain) (member : root ∈ roots)
    (found : lookup s.mem 3 root virt = some w) (unchanged : Unchanged pageSize s.mem mem [address 1 w])
    (r : Nat) (inRoots : r ∈ roots) : Agree s.mem mem (tables s.mem 3 r) := by
  have inTree : address 1 w ∈ tree s.mem root := List.mem_cons_of_mem _ (lookup_below found)
  have isTable := tables_subset s.mem 3 r
  refine agree_of_unchanged unchanged
    (fun f same => List.mem_singleton.mp same ▸ (owned.valid_tree member _ inTree).aligned)
    (fun f inTables => (owned.valid_tree inRoots f (isTable inTables)).aligned) fun f inTables same => ?_
  rw [List.mem_singleton.mp same] at inTables
  by_cases here : r = root
  · subst here
    exact page_not_table (List.nodup_append.mp (owned.distinct_apart member)).2.1 found inTables
  · have once := (List.nodup_append.mp (owned.split.nodup_iff.mpr owned.distinct)).2.1
    exact flatMap_apart once member inRoots here inTree (isTable inTables)

theorem Owned.page_changed (owned : Owned frames s roots chain) (member : root ∈ roots)
    (found : lookup s.mem 3 root virt = some w) (unchanged : Unchanged pageSize s.mem mem [address 1 w]) :
    Owned frames { s with mem := mem } roots chain := by
  have inTree : address 1 w ∈ tree s.mem root := List.mem_cons_of_mem _ (lookup_below found)
  have same : trees mem roots = trees s.mem roots := List.flatMap_congr fun r inRoots =>
    congrArg (r :: ·) (below_congr (owned.page_tables member found unchanged r inRoots))
  refine ⟨owned.pool.unchanged unchanged
    (fun f here => List.mem_singleton.mp here ▸ (owned.valid_tree member _ inTree).aligned)
    fun f free here => ?_, ?_, owned.distinct, owned.valid⟩
  · have apart := (List.nodup_append.mp (owned.distinct_apart member)).2.2
    exact apart f free _ inTree (List.mem_singleton.mp here)
  · show (chain ++ trees mem roots).Perm frames
    rw [same]
    exact owned.split

/-- Bytes put into the frame of one page. -/
theorem readUser_filled {offset n : Nat} {src : Nat → UInt8} (owned : Owned frames s roots chain)
    (member : root ∈ roots) (found : lookup s.mem 3 root virt = some w) (inPage : offset + n ≤ pageSize)
    (v : Nat) :
    readUser (s.mem.filled (address 1 w + offset) n src) root v =
      if pageOf v = pageOf virt ∧ offset ≤ v % pageSize ∧ v % pageSize < offset + n then
        some (src (v % pageSize - offset))
      else readUser s.mem root v := by
  have unchanged : Unchanged pageSize s.mem (s.mem.filled (address 1 w + offset) n src) [address 1 w] := by
    intro x outside
    have off := outside _ List.mem_cons_self
    unfold InBlock at off
    exact ByteMem.filled_off (by omega)
  have same := lookup_tables (owned.page_tables member found unchanged root member) v
  have small := Nat.mod_lt v (by decide : 0 < pageSize)
  unfold readUser
  rw [same]
  cases here : lookup s.mem 3 root v with
  | none =>
      refine (if_neg fun inside => ?_).symm
      have path := (samePath_iff v virt).mpr inside.1
      exact nomatch here.symm.trans ((lookup_samePath path).trans found)
  | some w' =>
      show some (s.mem.filled _ n src (address 1 w' + v % pageSize)) = _
      by_cases page : pageOf v = pageOf virt
      · have isPage := (lookup_samePath ((samePath_iff v virt).mpr page)).symm.trans here
        obtain rfl := Option.some.inj (found.symm.trans isPage)
        by_cases inside : offset ≤ v % pageSize ∧ v % pageSize < offset + n
        · rw [if_pos ⟨page, inside⟩, ByteMem.filled_in (by omega) (by omega), Nat.add_sub_add_left]
        · rw [if_neg fun both => inside both.2, ByteMem.filled_off (by omega)]
          rfl
      · rw [if_neg fun both => page both.1]
        have once := (List.nodup_append.mp (owned.distinct_apart member)).2.1
        have apart : address 1 w' ≠ address 1 w := fun equal => page ((samePath_iff v virt).mp
          (lookup_apart (List.nodup_cons.mp once).2 here found equal))
        have aligned := (owned.valid_tree member _ (List.mem_cons_of_mem _ (lookup_below here))).aligned
        have aligned' := (owned.valid_tree member _ (List.mem_cons_of_mem _ (lookup_below found))).aligned
        rw [ByteMem.filled_off (by
          unfold pageSize at *
          omega)]
        rfl

theorem wanted_le (mem : ByteMem) (virt level table : Nat) : wanted mem virt level table ≤ level := by
  induction level generalizing table with
  | zero => exact Nat.le_refl 0
  | succ level ih =>
      cases level with
      | zero => exact Nat.le_refl 1
      | succ level =>
          show (child mem (level + 2) table (index (level + 2) virt)).elim (level + 2) _ ≤ level + 2
          cases child mem (level + 2) table (index (level + 2) virt) with
          | none => exact Nat.le_refl _
          | some c => exact Nat.le_succ_of_le (ih c)

/-- A page in the same table as one that is there takes no frame for the table. -/
theorem wanted_shared {n : Nat} (found : lookup mem level table v ≠ none) (positive : 0 < n)
    (shared : ∀ l, n ≤ l → l < level → index (l + 1) v = index (l + 1) virt) :
    wanted mem virt level table ≤ n := by
  induction level generalizing table with
  | zero => exact Nat.zero_le n
  | succ level ih =>
      cases level with
      | zero => exact positive
      | succ level =>
          by_cases low : n ≤ level + 1
          · have top := shared (level + 1) low (Nat.lt_succ_self _)
            cases leads : child mem (level + 2) table (index (level + 2) v) with
            | none => exact absurd (lookup_none leads) found
            | some c =>
                rw [lookup_child leads] at found
                show (child mem (level + 2) table (index (level + 2) virt)).elim (level + 2) _ ≤ n
                rw [← top, leads, Option.elim_some]
                exact ih found fun l above below => shared l above (Nat.lt_succ_of_lt below)
          · exact Nat.le_trans (wanted_le mem virt (level + 2) table) (by omega)

end Pages

end TrollOS.Frames

namespace TrollOS.Mmu

open TrollOS.Lib Frames

namespace UserSpaces

def root (u : UserSpaces) : Nat := rootLevelFieldAddr u.mmu.urp

/-- What the process reads at an address. -/
def byteAt (u : UserSpaces) (v : Nat) : Option UInt8 := readUser u.mmu.mem u.root v

def Maps (u : UserSpaces) (v : Nat) : Prop := lookup u.mmu.mem 3 u.root v ≠ none

structure Ready (frames : List Nat) (u : UserSpaces) : Prop where
  owned : u.Owned frames
  current : u.mmu.urp ∈ u.live

structure Added (frames : List Nat) (u : UserSpaces) (virt f : Nat) (m : Mmu) : Prop where
  ready : Ready frames ⟨m, u.live⟩
  urp : m.urp = u.mmu.urp
  found : ∃ w, lookup m.mem 3 u.root virt = some w ∧ address 1 w = f
  count : m.memLayout.freeFrames + wanted u.mmu.mem virt 3 u.root = u.mmu.memLayout.freeFrames
  bytes : ∀ v, byteAt ⟨m, u.live⟩ v = if pageOf v = pageOf virt then some 0 else u.byteAt v
  maps : ∀ v, Maps ⟨m, u.live⟩ v ↔ pageOf v = pageOf virt ∨ u.Maps v

structure Filled (frames : List Nat) (u : UserSpaces) (virt offset n : Nat) (src : Nat → UInt8)
    (m : Mmu) : Prop where
  ready : Ready frames ⟨m, u.live⟩
  urp : m.urp = u.mmu.urp
  freeFrames : m.memLayout.freeFrames = u.mmu.memLayout.freeFrames
  bytes : ∀ v, byteAt ⟨m, u.live⟩ v =
    if pageOf v = pageOf virt ∧ offset ≤ v % pageSize ∧ v % pageSize < offset + n then
      some (src (v % pageSize - offset))
    else u.byteAt v
  maps : ∀ v, Maps ⟨m, u.live⟩ v ↔ u.Maps v

variable {frames : List Nat} {u : UserSpaces} {virt : Nat}

theorem maps_iff (u : UserSpaces) (v : Nat) : u.Maps v ↔ u.byteAt v ≠ none := by
  unfold Maps byteAt readUser
  cases lookup u.mmu.mem 3 u.root v with
  | none => exact ⟨fun none => absurd rfl none, fun none => absurd rfl none⟩
  | some w => exact ⟨fun _ => Option.some_ne_none _, fun _ => Option.some_ne_none _⟩

theorem Ready.allocAt (ready : Ready frames u) (supplied : Supplied u.mmu u.mmu.urp virt)
    (writeProtected : Bool) :
    ∃ f m, Mmu.allocAt virt false writeProtected u.mmu = some (f, m) ∧ Added frames u virt f m := by
  obtain ⟨chain, roles⟩ := ready.owned.roles
  obtain ⟨f, m, used, rest, ran, done, placement, roles', -⟩ := allocAt_owned ready.owned.mapping false
    writeProtected virt rfl roles (mem_roots ready.current) supplied
  have urp : m.urp = u.mmu.urp := done.urp
  have bytes (v : Nat) : byteAt ⟨m, u.live⟩ v = if pageOf v = pageOf virt then some 0 else u.byteAt v := by
    unfold byteAt root
    rw [urp]
    exact readUser_placement placement v
  obtain ⟨w, here⟩ := placement.here
  refine ⟨f, m, ran, ⟨⟨done.mapping, rest, roles'⟩, urp ▸ ready.current⟩, urp,
    ⟨_, here, address_placed placement.frame w⟩, placement.count, bytes, fun v => ?_⟩
  rw [maps_iff, maps_iff, bytes v]
  by_cases page : pageOf v = pageOf virt
  · rw [if_pos page]
    exact ⟨fun _ => Or.inl page, fun _ => Option.some_ne_none _⟩
  · rw [if_neg page]
    exact ⟨Or.inr, fun either => either.resolve_left page⟩

theorem Ready.fillFrame (ready : Ready frames u) {w offset n : Nat} {src : Nat → UInt8}
    (found : lookup u.mmu.mem 3 u.root virt = some w) (inPage : offset + n ≤ pageSize) :
    ∃ m, Mmu.fillFrame (address 1 w) offset src n u.mmu = some ((), m) ∧
      Filled frames u virt offset n src m := by
  obtain ⟨chain, roles⟩ := ready.owned.roles
  have member := mem_roots ready.current
  have frame := roles.valid_tree member _ (List.mem_cons_of_mem _ (lookup_below found))
  obtain ⟨m, ran, done⟩ := @fillFrame_ran u.mmu (address 1 w) offset n src ready.owned.mapping frame.aligned inPage
  have unchanged : Unchanged pageSize u.mmu.mem (u.mmu.mem.filled (address 1 w + offset) n src) [address 1 w] := by
    intro x outside
    have off := outside _ List.mem_cons_self
    unfold InBlock at off
    exact ByteMem.filled_off (by omega)
  have mem : m.mem = u.mmu.mem.filled (address 1 w + offset) n src := congrArg Frames.mem done.frames
  have urp : m.urp = u.mmu.urp := done.urp
  have bytes (v : Nat) : byteAt ⟨m, u.live⟩ v =
      if pageOf v = pageOf virt ∧ offset ≤ v % pageSize ∧ v % pageSize < offset + n then
        some (src (v % pageSize - offset))
      else u.byteAt v := by
    unfold byteAt root
    rw [urp, mem]
    exact readUser_filled roles member found inPage v
  refine ⟨m, ran, ⟨⟨done.mapping, chain, ?_⟩, urp ▸ ready.current⟩, urp,
    congrArg Frames.freeFrames done.frames, bytes, fun v => ?_⟩
  · rw [done.frames]
    exact roles.page_changed member found unchanged
  · unfold Maps root
    rw [urp, mem, lookup_tables (roles.page_tables member found unchanged _ member) v]
    exact Iff.rfl

end UserSpaces

end TrollOS.Mmu
