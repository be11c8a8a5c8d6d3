import TrollOS.Mmu.Counter
import TrollOS.Mmu.Isolation

/-!
# What the kernel sees of a user space

`process_switch_to` copies the first 96 entries of the root table of the process into the
root table of the supervisor.  The copy is as good as the tree it was made of until the root
table of the process changes.
-/

namespace TrollOS

open TrollOS.Lib Mmu

namespace Frames

/-- Only words of this table have changed, up to entry `n`. -/
def WordsOnly (mem mem' : ByteMem) (table n : Nat) : Prop :=
  ∀ x, x < table ∨ table + 4 * n ≤ x → mem' x = mem x

variable {mem mem' : ByteMem} {s : Frames} {source target n i : Nat}

theorem WordsOnly.word (only : WordsOnly mem mem' target n) {a : Nat}
    (apart : a + 4 ≤ target ∨ target + 4 * n ≤ a) : mem'.load32 a = mem.load32 a :=
  ByteMem.load32_congr fun x low high => only x (by omega)

/-- The first entries of one root table become those of another. -/
theorem copyRoots_spec (small : n ≤ 128) (tableS : source % 512 = 0) (tableT : target % 512 = 0)
    (apart : source + 512 ≤ target ∨ target + 512 ≤ source) :
    ∃ mem', copyEntries target source n s = some ((), { s with mem := mem' }) ∧
      (∀ i, i < n → mem'.load32 (target + 4 * i) = s.mem.load32 (source + 4 * i)) ∧
        WordsOnly s.mem mem' target n := by
  induction n with
  | zero => exact ⟨s.mem, rfl, fun i below => absurd below (Nat.not_lt_zero i), fun _ _ => rfl⟩
  | succ n ih =>
      obtain ⟨mem', ran, copied, only⟩ := ih (Nat.le_of_succ_le small)
      have inPage (table : Nat) (aligned : table % 512 = 0) : table % pageSize + 4 * n < pageSize := by
        unfold pageSize
        omega
      have kept : mem'.load32 (source + 4 * n) = s.mem.load32 (source + 4 * n) :=
        only.word (apart.imp (fun before => by omega) fun behind => by omega)
      have reads : readEntry source n { s with mem := mem' } =
          some (s.mem.load32 (source + 4 * n), { s with mem := mem' }) := by
        rw [← kept]
        exact if_pos (inPage source tableS)
      have writes : writeEntry target n (s.mem.load32 (source + 4 * n)) { s with mem := mem' } =
          some ((), { s with mem := mem'.store32 (target + 4 * n) (s.mem.load32 (source + 4 * n)) }) :=
        if_pos (inPage target tableT)
      refine ⟨mem'.store32 (target + 4 * n) (s.mem.load32 (source + 4 * n)), ?_, fun i below => ?_,
        fun x off => ?_⟩
      · have split : copyEntries target source (n + 1) = (do
            copyEntries target source n
            let w ← readEntry source n
            writeEntry target n w) := by
          unfold copyEntries
          rw [List.range_succ, List.forM_eq_forM, List.forM_append, List.forM_cons, List.forM_nil]
          simp only [bind_pure_unit]
        rw [split]
        exact (bind_ran ran).trans ((bind_ran reads).trans writes)
      · rcases Nat.lt_succ_iff_lt_or_eq.mp below with before | last
        · rw [ByteMem.load32_store32_off _ _ (by omega)]
          exact copied i before
        · rw [last, ByteMem.load32_store32 _ _ _ (ByteMem.load32_lt ..)]
      · rw [ByteMem.store32_off _ _ (by omega)]
        exact only x (by omega)

end Frames

namespace Mmu

open Frames Action

/-! ## The copy of the root entries -/

/-- `mmu040_map_current_userspace` once it has read the root pointer registers. -/
def mapRoots (srp urp : Nat) : Action Unit := do
  let ph := rootLevelFieldAddr srp
  let page ← mappingPush ph
  let supervisorRootTable := repage ph page
  let ph := rootLevelFieldAddr urp
  let page ← mappingPush ph
  let userRootTable := repage ph page
  (List.range (rootLevelDescriptors / 4 * 3)).forM fun i => do
    let descriptor ← read32 (userRootTable + 4 * i)
    write32 (supervisorRootTable + 4 * i) descriptor
  mappingPops 2

theorem mapCurrentUserspace_eq (m : Mmu) : mapCurrentUserspace m = mapRoots m.srp m.urp m :=
  (bind_of_some rfl).trans (bind_of_some rfl)

theorem mapRoots_simulates {depth : Nat} {held : Nat → Nat} (room : depth + 1 < mapperPages)
    (srp urp : Nat) : Simulates depth held (mapRoots srp urp)
      (copyEntries (rootLevelFieldAddr srp) (rootLevelFieldAddr urp) (rootLevelDescriptors / 4 * 3))
      fun _ => depth := by
  unfold mapRoots
  dsimp only
  refine .push (by omega) (fun _ => Nat.le_refl depth) ?_
  refine .push (by omega) (fun _ => Nat.le_succ depth) ?_
  have supervisor := (points_repage depth held (rootLevelFieldAddr srp)).update
    (base (rootLevelFieldAddr urp))
  have user := points_repage (depth + 1)
    (Function.update held depth (base (rootLevelFieldAddr srp))) (rootLevelFieldAddr urp)
  unfold copyEntries
  have loop : Simulates (depth + 2) _ ((List.range (rootLevelDescriptors / 4 * 3)).forM _) _
      fun _ => depth + 2 :=
    .forM fun i => (Simulates.read32 user i).bind fun w _ => .write32 supervisor i w
  have popped := loop.bind fun _ _ => Simulates.pops _ 2 (depth + 2)
  rwa [bind_pure_unit] at popped

end Mmu

/-! ## A root table that shows another tree -/

namespace Frames

/-- The first 96 entries of the two root tables lead to the same tables, and the second tree
has no page behind its other entries. -/
structure Mirrors (mem : ByteMem) (supervisor user : Nat) : Prop where
  entries : ∀ i, i < 96 → child mem 3 supervisor i = child mem 3 user i
  rest : ∀ virt, 96 ≤ rootTableIndex virt → lookup mem 3 user virt = none

section Mirrors

variable {mem mem' : ByteMem} {supervisor user virt w : Nat}

/-- What a walk finds in the tree of the user it finds in the tree of the supervisor. -/
theorem Mirrors.lookup (mirrors : Mirrors mem supervisor user)
    (found : lookup mem 3 user virt = some w) : lookup mem 3 supervisor virt = some w := by
  by_cases low : rootTableIndex virt < 96
  · have same : child mem 3 supervisor (index 3 virt) = child mem 3 user (index 3 virt) :=
      mirrors.entries _ low
    cases leads : child mem 3 user (index 3 virt) with
    | none => exact nomatch (lookup_none leads).symm.trans found
    | some c =>
        rw [lookup_child (same.trans leads), ← lookup_child leads]
        exact found
  · exact nomatch (mirrors.rest virt (Nat.le_of_not_lt low)).symm.trans found

/-- A change that keeps the root words of the supervisor and all of the user's tree. -/
theorem Mirrors.congr (mirrors : Mirrors mem supervisor user)
    (words : ∀ i, i < 96 → mem'.load32 (supervisor + 4 * i) = mem.load32 (supervisor + 4 * i))
    (children : ∀ i, i < 96 → child mem' 3 user i = child mem 3 user i)
    (views : ∀ virt, 96 ≤ rootTableIndex virt → Frames.lookup mem' 3 user virt = Frames.lookup mem 3 user virt) :
    Mirrors mem' supervisor user := by
  refine ⟨fun i small => ?_, fun virt high => (views virt high).trans (mirrors.rest virt high)⟩
  rw [child_of_word (words i small), children i small]
  exact mirrors.entries i small

theorem Mirrors.of_agree (mirrors : Mirrors mem supervisor user)
    (words : ∀ i, i < 96 → mem'.load32 (supervisor + 4 * i) = mem.load32 (supervisor + 4 * i))
    (agree : Agree mem mem' (tree mem user)) : Mirrors mem' supervisor user :=
  mirrors.congr words
    (fun i small => child_of_word (agree.word List.mem_cons_self (by omega)))
    fun virt _ => (sameView_of_agree agree virt).lookup

/-- A change that keeps all tables of the user. -/
theorem Mirrors.of_tables (mirrors : Mirrors mem supervisor user)
    (words : ∀ i, i < 96 → mem'.load32 (supervisor + 4 * i) = mem.load32 (supervisor + 4 * i))
    (agree : Agree mem mem' (tables mem 3 user)) : Mirrors mem' supervisor user :=
  mirrors.congr words (fun i small => child_of_word (agree.word List.mem_cons_self (by omega)))
    fun virt _ => lookup_tables agree virt

/-- An empty tree that stays empty. -/
theorem Mirrors.of_empty (mirrors : Mirrors mem supervisor user)
    (words : ∀ i, i < 96 → mem'.load32 (supervisor + 4 * i) = mem.load32 (supervisor + 4 * i))
    (empty : below mem 3 user = []) (empty' : below mem' 3 user = []) :
    Mirrors mem' supervisor user := by
  have inTable (i : Nat) (small : i < 96) : i < Frames.entries 3 := Nat.lt_trans small (by decide)
  refine mirrors.congr words (fun i small => ?_) fun virt _ => ?_
  · rw [Frames.Owned.child_of_empty empty (inTable i small), Frames.Owned.child_of_empty empty' (inTable i small)]
  · rw [lookup_none (Frames.Owned.child_of_empty empty (index_lt_entries 2 virt)),
      lookup_none (Frames.Owned.child_of_empty empty' (index_lt_entries 2 virt))]

end Mirrors

end Frames

/-! ## Changes outside the user spaces -/

namespace Frames

section Outside

variable {s : Frames} {frames roots chain : List Nat} {mem : ByteMem} {b virt level table : Nat}
  {supervisor writeProtected : Bool}

/-- A change in a page the allocator does not manage. -/
theorem Owned.outside (owned : Owned frames s roots chain)
    (unchanged : Unchanged pageSize s.mem mem [b]) (aligned : b % pageSize = 0) (apart : b ∉ frames) :
    Owned frames { s with mem := mem } roots chain ∧ Agree s.mem mem (trees s.mem roots) := by
  have known (f : Nat) (member : f ∈ chain ++ trees s.mem roots) : IsFrame f ∧ f ∉ [b] := by
    have inFrames := owned.split.subset member
    exact ⟨owned.valid f inFrames, fun same => apart (List.mem_singleton.mp same ▸ inFrames)⟩
  have alignedB (c : Nat) (member : c ∈ [b]) : c % pageSize = 0 := List.mem_singleton.mp member ▸ aligned
  have agree : Agree s.mem mem (trees s.mem roots) := agree_of_unchanged unchanged alignedB
    (fun f member => (known f (List.mem_append_right _ member)).1.aligned)
    fun f member => (known f (List.mem_append_right _ member)).2
  have same : trees mem roots = trees s.mem roots := trees_agree agree
  refine ⟨⟨owned.pool.unchanged unchanged alignedB
    fun f member => (known f (List.mem_append_left _ member)).2, ?_, owned.distinct, owned.valid⟩, agree⟩
  show (chain ++ trees mem roots).Perm frames
  rw [same]
  exact owned.split

/-- A placement where no page was changes one word of the table it starts at. -/
theorem place_words (pool : Pool s chain)
    (outside : ∀ t ∈ path s.mem virt (level + 2) table, t % pageSize = 0 ∧ t ∉ chain)
    (once : (path s.mem virt (level + 2) table).Nodup)
    (gone : lookup s.mem (level + 2) table virt = none)
    (enough : wanted s.mem virt (level + 2) table ≤ s.freeFrames) {frame : Nat} {s' : Frames}
    (ran : place virt supervisor writeProtected (level + 2) table s = some (frame, s')) {j : Nat}
    (small : j < 128) (other : j ≠ index (level + 2) virt) :
    s'.mem.load32 (table + 4 * j) = s.mem.load32 (table + 4 * j) := by
  obtain ⟨aligned, apart⟩ := outside table (path_self s.mem virt (level + 1) table)
  have bound := index_lt (level + 2) virt
  have inPage : table + 4 * j + 4 ≤ table + pageSize := by
    unfold pageSize
    omega
  cases leads : child s.mem (level + 2) table (index (level + 2) virt) with
  | some c =>
      have way := path_child leads
      rw [way] at outside once
      have same : wanted s.mem virt (level + 2) table = wanted s.mem virt (level + 1) c := by
        show (child s.mem (level + 2) table (index (level + 2) virt)).elim (level + 2) _ = _
        rw [leads, Option.elim_some]
      obtain ⟨frame', s₁, used, rest, ran', took, unchanged⟩ := @place_took s chain virt c supervisor
        writeProtected level pool (fun t member => outside t (List.mem_cons_of_mem _ member))
        ((lookup_child leads).symm.trans gone) (same ▸ enough)
      have known := (bind_ran (tableAt_some aligned bound leads)).trans ran'
      obtain ⟨-, rfl⟩ := Prod.mk.inj (Option.some.inj (ran.symm.trans known))
      refine unchanged.load32 (fun b member => ?_) aligned (fun member => ?_) (Nat.le_add_right ..) inPage
      · rcases List.mem_append.mp member with isUsed | onWay
        · exact pool.aligned b (took.split ▸ List.mem_append_left _ isUsed)
        · exact (outside b (List.mem_cons_of_mem _ onWay)).1
      · rcases List.mem_append.mp member with isUsed | onWay
        · exact apart (took.split ▸ List.mem_append_left _ isUsed)
        · exact (List.nodup_cons.mp once).1 onWay
  | none =>
      have all : wanted s.mem virt (level + 2) table = level + 2 := by
        show (child s.mem (level + 2) table (index (level + 2) virt)).elim (level + 2) _ = _
        rw [leads, Option.elim_none]
      have enough' : level + 2 ≤ s.freeFrames := Nat.le_trans (Nat.le_of_eq all.symm) enough
      have left : s.freeFrames ≠ 0 := Nat.ne_of_gt (Nat.lt_of_lt_of_le (Nat.succ_pos _) enough')
      obtain ⟨f, rest, rfl, -, -⟩ := pool.alloc left
      have frameF := pool.frames f List.mem_cons_self
      obtain ⟨mem, made, pool', -, words, -, zero⟩ := tableAt_made (level + 2) (by omega)
        pool left aligned apart bound leads
      have fresh := (List.nodup_cons.mp pool.distinct).1
      obtain ⟨frame', s₁, used, rest', ran', took, unchanged⟩ := @place_took
        { taken s f with mem := mem } rest virt f supervisor writeProtected level pool'
        (fun t member => by
          rw [path_zero zero] at member
          obtain rfl := List.mem_singleton.mp member
          exact ⟨frameF.aligned, fresh⟩)
        (lookup_zero zero virt)
        (by
          rw [wanted_zero zero]
          exact Nat.le_sub_one_of_lt enough')
      have known := (bind_ran made).trans ran'
      obtain ⟨-, rfl⟩ := Prod.mk.inj (Option.some.inj (ran.symm.trans known))
      rw [path_zero zero] at unchanged
      rw [← words j other small]
      refine unchanged.load32 (fun b member => ?_) aligned (fun member => ?_) (Nat.le_add_right ..) inPage
      · rcases List.mem_append.mp member with isUsed | isNew
        · exact pool'.aligned b (took.split ▸ List.mem_append_left _ isUsed)
        · exact List.mem_singleton.mp isNew ▸ frameF.aligned
      · rcases List.mem_append.mp member with isUsed | isNew
        · exact apart (List.mem_cons_of_mem _ (took.split ▸ List.mem_append_left _ isUsed))
        · exact apart (List.mem_singleton.mp isNew ▸ List.mem_cons_self)

end Outside

end Frames

/-! ## What a request does to the trees of the others -/

namespace Mmu

open Frames

namespace UserSpaces

/-- The root tables a request does not work on. -/
def others (u : UserSpaces) : Request → List Nat
  | .initUserspace => u.roots
  | .allocAt _ _ => u.roots.erase (rootLevelFieldAddr u.mmu.urp)
  | .switchUserspace _ => u.roots
  | .cloneUserspace _ target => u.roots.erase (rootLevelFieldAddr target)
  | .clearUserspace userspace => u.roots.erase (rootLevelFieldAddr userspace)
  | .freeUserspace userspace => u.roots.erase (rootLevelFieldAddr userspace)

/-- What a step of a run leaves alone. -/
structure Effect (frames others : List Nat) (u v : UserSpaces) : Prop where
  owned : v.Owned frames
  srp : v.mmu.srp = u.mmu.srp
  unchanged : Unchanged pageSize u.mmu.mem v.mmu.mem frames
  agree : Agree u.mmu.mem v.mmu.mem (trees u.mmu.mem others)

variable {frames : List Nat} {u v : UserSpaces}

theorem effect_initUserspace (owned : u.Owned frames) (served : u.serve .initUserspace = some v) :
    Effect frames u.roots u v := by
  obtain ⟨w, served', owned'⟩ := serve_initUserspace owned
  obtain rfl := Option.some.inj (served.symm.trans served')
  obtain ⟨chain, roles⟩ := owned.roles
  by_cases empty : u.mmu.memLayout.freeFrames = 0
  · obtain ⟨m, ran, done⟩ := initUserspace_none owned.mapping empty
    have known : u.serve .initUserspace = some ⟨m, u.live⟩ := by
      show (Mmu.initUserspace u.mmu).map _ = _
      rw [ran]
      rfl
    obtain rfl := Option.some.inj (served.symm.trans known)
    have same : m.mem = u.mmu.mem := congrArg Frames.mem done.frames
    exact ⟨owned', done.srp, fun x _ => congrFun same x, fun _ _ x _ => congrFun same x⟩
  · obtain ⟨f, rest, got, valid, -, -, moved⟩ := roles.alloc empty
    obtain ⟨m, ran, frames', -, -, srp⟩ := initUserspace_some owned.mapping got valid
    obtain rfl := Option.some.inj (served.symm.trans (serve_initUserspace_some ran))
    have same : m.mem = (taken u.mmu.frames f).mem := congrArg Frames.mem frames'
    refine ⟨owned', srp, ?_, ?_⟩
    · rw [same]
      exact moved.within roles.split
    · rw [same]
      exact moved.agree

theorem effect_allocAt (owned : u.Owned frames) {virt : Nat} {writeProtected : Bool}
    (current : u.mmu.urp ∈ u.live) (supplied : Supplied u.mmu u.mmu.urp virt)
    (served : u.serve (.allocAt virt writeProtected) = some v) :
    Effect frames (u.roots.erase (rootLevelFieldAddr u.mmu.urp)) u v ∧
      ∃ frame chain used rest, Placement u.mmu.frames v.mmu.frames virt false writeProtected 3
        (rootLevelFieldAddr u.mmu.urp) frame chain used rest := by
  obtain ⟨chain, roles⟩ := owned.roles
  obtain ⟨frame, m, used, rest, ran, done, placement, roles', moved⟩ := allocAt_owned owned.mapping
    false writeProtected virt rfl roles (mem_roots current) supplied
  have known : u.serve (.allocAt virt writeProtected) = some ⟨m, u.live⟩ := by
    show (Mmu.allocAt virt false writeProtected u.mmu).map _ = _
    rw [ran]
    rfl
  obtain rfl := Option.some.inj (served.symm.trans known)
  exact ⟨⟨⟨done.mapping, rest, roles'⟩, done.srp, moved.within (roles.apart (mem_roots current)),
    moved.agree⟩, frame, chain, used, rest, placement⟩

theorem effect_cloneUserspace (owned : u.Owned frames) {source target : Nat}
    (named : u.Named (.cloneUserspace source target))
    (served : u.serve (.cloneUserspace source target) = some v) :
    Effect frames (u.roots.erase (rootLevelFieldAddr target)) u v ∧
      (below u.mmu.mem 3 (rootLevelFieldAddr source) = [] →
        below v.mmu.mem 3 (rootLevelFieldAddr target) = []) := by
  obtain ⟨chain, roles⟩ := owned.roles
  obtain ⟨sourceIn, targetIn, other, empty⟩ := named
  have apart : rootLevelFieldAddr source ≠ rootLevelFieldAddr target :=
    fun same => other (rootLevelFieldAddr_injective same)
  obtain ⟨r, s, used, rest, ran, -, roles', moved, -, enough, copied⟩ :=
    roles.copy (mem_roots sourceIn) (mem_roots targetIn) apart empty
  obtain ⟨m, ran', done⟩ := run_of_simulates
    (fun _ => cloneUserspace_simulates (by decide) source target) owned.mapping ran
  obtain rfl := done.frames
  have known : u.serve (.cloneUserspace source target) = some ⟨m, u.live⟩ := by
    show (Mmu.cloneUserspace source target u.mmu).map _ = _
    rw [ran']
    rfl
  obtain rfl := Option.some.inj (served.symm.trans known)
  refine ⟨⟨⟨done.mapping, rest, roles'⟩, done.srp, moved.within (roles.apart (mem_roots targetIn)),
    moved.agree⟩, fun nothing => ?_⟩
  have none : below u.mmu.frames.mem 3 (rootLevelFieldAddr source) = [] := nothing
  have complete := copied (enough.mpr (by rw [none]; exact Nat.zero_le _))
  refine List.flatMap_eq_nil_iff.mpr fun i member => belowAt_none ?_
  rcases complete i (List.mem_range.mp member) with ⟨-, off⟩ | ⟨c, c', leads, -⟩
  · exact off
  · exact nomatch (Frames.Owned.child_of_empty none (List.mem_range.mp member)).symm.trans leads

theorem effect_clearUserspace (owned : u.Owned frames) {userspace : Nat} (member : userspace ∈ u.live)
    (served : u.serve (.clearUserspace userspace) = some v) :
    Effect frames (u.roots.erase (rootLevelFieldAddr userspace)) u v ∧
      below v.mmu.mem 3 (rootLevelFieldAddr userspace) = [] := by
  obtain ⟨chain, roles⟩ := owned.roles
  obtain ⟨s, freed, ran, -, -, empty, roles', moved⟩ := roles.clear (mem_roots member)
  obtain ⟨m, ran', done⟩ := run_of_simulates
    (fun _ => clearUserspace_simulates (by decide) userspace) owned.mapping ran
  obtain rfl := done.frames
  have known : u.serve (.clearUserspace userspace) = some ⟨m, u.live⟩ := by
    show (Mmu.clearUserspace userspace u.mmu).map _ = _
    rw [ran']
    rfl
  obtain rfl := Option.some.inj (served.symm.trans known)
  exact ⟨⟨⟨done.mapping, _, roles'⟩, done.srp, moved.within (roles.apart (mem_roots member)),
    moved.agree⟩, empty⟩

theorem effect_freeUserspace (owned : u.Owned frames) {userspace : Nat} (member : userspace ∈ u.live)
    (served : u.serve (.freeUserspace userspace) = some v) :
    Effect frames (u.roots.erase (rootLevelFieldAddr userspace)) u v ∧
      v.live = u.live.erase userspace := by
  obtain ⟨chain, roles⟩ := owned.roles
  obtain ⟨s, chain', ran, -, roles', unchanged, agree⟩ := roles.free (mem_roots member)
  obtain ⟨m, ran', done⟩ := run_of_simulates
    (fun _ => freeUserspace_simulates (by decide) userspace) owned.mapping ran
  obtain rfl := done.frames
  have known : u.serve (.freeUserspace userspace) = some ⟨m, u.live.erase userspace⟩ := by
    show (Mmu.freeUserspace userspace u.mmu).map _ = _
    rw [ran']
    rfl
  obtain rfl := Option.some.inj (served.symm.trans known)
  refine ⟨⟨⟨done.mapping, chain', ?_⟩, done.srp, unchanged, agree⟩, rfl⟩
  rw [roots_erase]
  exact roles'

end UserSpaces

/-! ## Moves of the kernel -/

/-- The user spaces, and the one of the process that is current, once one is. -/
structure Running where
  spaces : UserSpaces
  current : Option Nat

/-- `process_switch_to`, or something else that happens to the spaces. -/
inductive Move
  | switchTo (userspace : Nat)
  | event (e : Event)

namespace Running

def supervisorRoot (v : Running) : Nat := rootLevelFieldAddr v.spaces.mmu.srp

/-- A move is made; there is no result when the kernel panics. -/
def act (v : Running) : Move → Option Running
  | .switchTo userspace =>
      (v.spaces.serve (.switchUserspace userspace)).bind fun u =>
        (mapCurrentUserspace u.mmu).map fun result => ⟨⟨result.2, u.live⟩, some userspace⟩
  | .event e => (v.spaces.act e).map fun u => ⟨u, v.current⟩

def Moves (permits : Running → Move → Prop) : Running → List Move → Running → Prop
  | v, [], v' => v' = v
  | v, m :: rest, v' => permits v m ∧ ∃ w, v.act m = some w ∧ Moves permits w rest v'

/-- What is behind an address of the process is behind the same address for the kernel. -/
structure SeesUser (v : Running) (userspace : Nat) : Prop where
  frame : ∀ virt w, lookup v.spaces.mmu.mem 3 (rootLevelFieldAddr userspace) virt = some w →
    ∃ w', lookup v.spaces.mmu.mem 3 v.supervisorRoot virt = some w' ∧ address 1 w' = address 1 w
  read : ∀ virt b, readUser v.spaces.mmu.mem (rootLevelFieldAddr userspace) virt = some b →
    readUser v.spaces.mmu.mem v.supervisorRoot virt = some b
  write : ∀ virt b, lookup v.spaces.mmu.mem 3 (rootLevelFieldAddr userspace) virt ≠ none →
    writeUser v.spaces.mmu.mem v.supervisorRoot virt b =
      writeUser v.spaces.mmu.mem (rootLevelFieldAddr userspace) virt b

/-- No table behind the first 96 root entries of the supervisor is on the free list. -/
def NoneFreed (v : Running) : Prop :=
  ∀ i t, i < 96 → child v.spaces.mmu.mem 3 v.supervisorRoot i = some t →
    ∀ chain, Chain (fun f => v.spaces.mmu.mem.load32 f) v.spaces.mmu.memLayout.freeFrame chain → t ∉ chain

/-- Before the first switch: the frames have their roles, and the root table of the supervisor is
in none of them. -/
structure Started (v : Running) : Prop where
  owned : ∃ frames, v.spaces.Owned frames ∧ base v.supervisorRoot ∉ frames
  current : v.current = none

/-- A request leaves the root entries of the current space as they are. -/
def Spares (v : Running) : Request → Prop
  | .initUserspace => True
  | .allocAt virt _ => v.current = some v.spaces.mmu.urp → rootTableIndex virt < 96 ∧
      child v.spaces.mmu.mem 3 (rootLevelFieldAddr v.spaces.mmu.urp) (rootTableIndex virt) ≠ none
  | .switchUserspace _ => False
  | .cloneUserspace source target => v.current = some target →
      below v.spaces.mmu.mem 3 (rootLevelFieldAddr source) = []
  | .clearUserspace userspace => v.current = some userspace →
      below v.spaces.mmu.mem 3 (rootLevelFieldAddr userspace) = []
  | .freeUserspace userspace => v.current ≠ some userspace

/-- A change of the memory that keeps the free list, the tables of the spaces and the root table
of the supervisor. -/
structure KeepsTables (v : Running) (mem : ByteMem) : Prop where
  links : ∀ chain, Chain (fun f => v.spaces.mmu.mem.load32 f) v.spaces.mmu.memLayout.freeFrame chain →
    ∀ f ∈ chain, v.spaces.mmu.mem.load32 f = mem.load32 f
  tables : ∀ root ∈ v.spaces.roots, Agree v.spaces.mmu.mem mem (tables v.spaces.mmu.mem 3 root)
  words : ∀ i, i < 96 → mem.load32 (v.supervisorRoot + 4 * i) =
    v.spaces.mmu.mem.load32 (v.supervisorRoot + 4 * i)

/-- What the kernel may do: a page for the supervisor is behind one of its own root entries. -/
def May (v : Running) : Move → Prop
  | .switchTo userspace => userspace ∈ v.spaces.live
  | .event (.request r) => v.spaces.Allowed r ∧ ∀ userspace, r ≠ .switchUserspace userspace
  | .event (.allocSupervisor virt writeProtected) =>
      v.spaces.Takes (.allocSupervisor virt writeProtected) ∧
        (path v.spaces.mmu.mem virt 3 v.supervisorRoot).Nodup ∧ 96 ≤ rootTableIndex virt
  | .event (.store mem) => v.KeepsTables mem

/-- The same for moves that keep the copy good. -/
def Keeps (v : Running) : Move → Prop
  | .switchTo userspace => v.May (.switchTo userspace) ∧ ∀ virt, 96 ≤ rootTableIndex virt →
      lookup v.spaces.mmu.mem 3 (rootLevelFieldAddr userspace) virt = none
  | .event (.request r) => v.May (.event (.request r)) ∧ v.Spares r
  | .event e => v.May (.event e)

structure InStep (v : Running) : Prop where
  owned : ∃ frames, v.spaces.Owned frames ∧ base v.supervisorRoot ∉ frames
  mirrors : ∀ c, v.current = some c → c ∈ v.spaces.live ∧
    Mirrors v.spaces.mmu.mem v.supervisorRoot (rootLevelFieldAddr c)

variable {v w : Running} {frames : List Nat}

theorem Started.inStep (started : v.Started) : v.InStep :=
  ⟨started.owned, fun _ here => nomatch started.current.symm.trans here⟩

/-- The root words of the supervisor are outside all frames of the allocator. -/
theorem supervisor_words {mem mem' : ByteMem} {srp i : Nat}
    (unchanged : Unchanged pageSize mem mem' frames) (valid : ∀ f ∈ frames, IsFrame f)
    (apart : base (rootLevelFieldAddr srp) ∉ frames) (small : i < 128) :
    mem'.load32 (rootLevelFieldAddr srp + 4 * i) = mem.load32 (rootLevelFieldAddr srp + 4 * i) := by
  have start : base (rootLevelFieldAddr srp) % pageSize = 0 := Nat.mul_mod_left _ _
  have rest := base_add_mod (rootLevelFieldAddr srp)
  have offset : rootLevelFieldAddr srp % pageSize + 512 ≤ pageSize := by
    unfold rootLevelFieldAddr pageSize
    omega
  exact unchanged.load32 (fun f member => (valid f member).aligned) start apart (by omega) (by omega)

theorem InStep.seesUser (inStep : v.InStep) {c : Nat} (current : v.current = some c) : v.SeesUser c := by
  have mirrors := (inStep.mirrors c current).2
  refine ⟨fun virt w found => ⟨w, mirrors.lookup found, rfl⟩, fun virt b found => ?_,
    fun virt b mapped => ?_⟩
  · unfold readUser at found ⊢
    obtain ⟨w, here, byte⟩ := Option.map_eq_some_iff.mp found
    rw [mirrors.lookup here]
    exact congrArg some byte
  · obtain ⟨w, here⟩ := Option.ne_none_iff_exists'.mp mapped
    rw [writeUser_some here, writeUser_some (mirrors.lookup here)]

theorem InStep.noneFreed (inStep : v.InStep) (running : v.current ≠ none) : v.NoneFreed := by
  obtain ⟨c, current⟩ := Option.ne_none_iff_exists'.mp running
  obtain ⟨live, mirrors⟩ := inStep.mirrors c current
  obtain ⟨frames, ⟨-, chain, roles⟩, -⟩ := inStep.owned
  intro i t small leads chain' linked
  obtain rfl := linked.unique roles.pool.linked
  rw [mirrors.entries i small] at leads
  have inTree := below_child_subset (show i < Frames.entries 3 from Nat.lt_trans small (by decide)) leads
    List.mem_cons_self
  have once := roles.distinct_apart (UserSpaces.mem_roots live)
  exact fun member => (List.nodup_append.mp once).2.2 t member t (List.mem_cons_of_mem _ inTree) rfl

/-! ## What a move keeps -/

/-- A request on the space of another process, or one that only adds a space. -/
theorem mirrors_of_effect {others : List Nat} {u u' : UserSpaces} {c : Nat}
    (effect : UserSpaces.Effect frames others u u') (apart : base (rootLevelFieldAddr u.mmu.srp) ∉ frames)
    (mirrors : Mirrors u.mmu.mem (rootLevelFieldAddr u.mmu.srp) (rootLevelFieldAddr c))
    (other : rootLevelFieldAddr c ∈ others) :
    Mirrors u'.mmu.mem (rootLevelFieldAddr u'.mmu.srp) (rootLevelFieldAddr c) := by
  rw [effect.srp]
  obtain ⟨chain, roles⟩ := effect.owned.roles
  exact mirrors.of_agree (fun i small => supervisor_words effect.unchanged roles.valid apart (by omega))
    (effect.agree.mono (tree_subset other u.mmu.mem))

/-- The same for the space the request works on, when it had no tables and has none. -/
theorem mirrors_of_empty {others : List Nat} {u u' : UserSpaces} {c : Nat}
    (effect : UserSpaces.Effect frames others u u') (apart : base (rootLevelFieldAddr u.mmu.srp) ∉ frames)
    (mirrors : Mirrors u.mmu.mem (rootLevelFieldAddr u.mmu.srp) (rootLevelFieldAddr c))
    (empty : below u.mmu.mem 3 (rootLevelFieldAddr c) = [])
    (empty' : below u'.mmu.mem 3 (rootLevelFieldAddr c) = []) :
    Mirrors u'.mmu.mem (rootLevelFieldAddr u'.mmu.srp) (rootLevelFieldAddr c) := by
  rw [effect.srp]
  obtain ⟨chain, roles⟩ := effect.owned.roles
  exact mirrors.of_empty (fun i small => supervisor_words effect.unchanged roles.valid apart (by omega))
    empty empty'

theorem inStep_of_effect {others : List Nat} {u' : UserSpaces}
    (effect : UserSpaces.Effect frames others v.spaces u') (apart : base v.supervisorRoot ∉ frames)
    (mirrors : ∀ c, v.current = some c → c ∈ u'.live ∧
      Mirrors u'.mmu.mem (rootLevelFieldAddr u'.mmu.srp) (rootLevelFieldAddr c)) :
    InStep ⟨u', v.current⟩ := by
  refine ⟨⟨frames, effect.owned, ?_⟩, mirrors⟩
  show base (rootLevelFieldAddr u'.mmu.srp) ∉ frames
  rw [effect.srp]
  exact apart

/-- A page behind a root entry that is there leaves the root table as it is. -/
theorem mirrors_of_placement {u u' : UserSpaces} {c virt frame : Nat} {writeProtected : Bool}
    {others chain used rest : List Nat} (effect : UserSpaces.Effect frames others u u')
    (apart : base (rootLevelFieldAddr u.mmu.srp) ∉ frames)
    (mirrors : Mirrors u.mmu.mem (rootLevelFieldAddr u.mmu.srp) (rootLevelFieldAddr c))
    (placement : Placement u.mmu.frames u'.mmu.frames virt false writeProtected 3 (rootLevelFieldAddr c)
      frame chain used rest)
    (low : rootTableIndex virt < 96)
    (there : child u.mmu.mem 3 (rootLevelFieldAddr c) (rootTableIndex virt) ≠ none) :
    Mirrors u'.mmu.mem (rootLevelFieldAddr u'.mmu.srp) (rootLevelFieldAddr c) := by
  rw [effect.srp]
  obtain ⟨chain', roles⟩ := effect.owned.roles
  refine mirrors.congr (fun i small => supervisor_words effect.unchanged roles.valid apart (by omega))
    (fun i small => child_of_word (placement.words i (by omega) fun same => ⟨by decide, ?_⟩))
    fun virt' high => (placement.elsewhere virt' fun same => ?_).lookup
  · obtain ⟨t, leads⟩ := Option.ne_none_iff_exists'.mp there
    rw [same]
    exact (child_eq_some leads).1
  · have here : rootTableIndex virt' = rootTableIndex virt := same 2 (by decide)
    omega

theorem InStep.request {r : Request} {u' : UserSpaces} (inStep : v.InStep)
    (keeps : v.Keeps (.event (.request r))) (served : v.spaces.serve r = some u') :
    InStep ⟨u', v.current⟩ := by
  obtain ⟨frames, owned, apart⟩ := inStep.owned
  obtain ⟨⟨⟨named, current⟩, -⟩, spares⟩ := keeps
  cases r with
  | initUserspace =>
      have effect := UserSpaces.effect_initUserspace owned served
      refine inStep_of_effect effect apart fun c here => ?_
      obtain ⟨live, mirrors⟩ := inStep.mirrors c here
      refine ⟨?_, mirrors_of_effect effect apart mirrors (UserSpaces.mem_roots live)⟩
      obtain ⟨⟨result, m⟩, -, rfl⟩ := Option.map_eq_some_iff.mp served
      dsimp only
      split
      · exact List.mem_cons_of_mem _ live
      · exact live
  | allocAt virt writeProtected =>
      obtain ⟨effect, frame, chain, used, rest, placement⟩ :=
        UserSpaces.effect_allocAt owned (current virt writeProtected rfl) named served
      obtain ⟨⟨frame', m⟩, -, rfl⟩ := Option.map_eq_some_iff.mp served
      refine inStep_of_effect effect apart fun c here => ?_
      obtain ⟨live, mirrors⟩ := inStep.mirrors c here
      refine ⟨live, ?_⟩
      by_cases own : c = v.spaces.mmu.urp
      · subst own
        obtain ⟨low, there⟩ := spares here
        exact mirrors_of_placement effect apart mirrors placement low there
      · exact mirrors_of_effect effect apart mirrors ((List.mem_erase_of_ne fun same =>
          own (rootLevelFieldAddr_injective same)).mpr (UserSpaces.mem_roots live))
  | switchUserspace userspace => exact spares.elim
  | cloneUserspace source target =>
      obtain ⟨effect, copied⟩ := UserSpaces.effect_cloneUserspace owned named served
      obtain ⟨result, -, rfl⟩ := Option.map_eq_some_iff.mp served
      refine inStep_of_effect effect apart fun c here => ?_
      obtain ⟨live, mirrors⟩ := inStep.mirrors c here
      refine ⟨live, ?_⟩
      by_cases own : c = target
      · subst own
        exact mirrors_of_empty effect apart mirrors named.2.2.2 (copied (spares here))
      · exact mirrors_of_effect effect apart mirrors ((List.mem_erase_of_ne fun same =>
          own (rootLevelFieldAddr_injective same)).mpr (UserSpaces.mem_roots live))
  | clearUserspace userspace =>
      obtain ⟨effect, empty⟩ := UserSpaces.effect_clearUserspace owned named served
      obtain ⟨result, -, rfl⟩ := Option.map_eq_some_iff.mp served
      refine inStep_of_effect effect apart fun c here => ?_
      obtain ⟨live, mirrors⟩ := inStep.mirrors c here
      refine ⟨live, ?_⟩
      by_cases own : c = userspace
      · subst own
        exact mirrors_of_empty effect apart mirrors (spares here) empty
      · exact mirrors_of_effect effect apart mirrors ((List.mem_erase_of_ne fun same =>
          own (rootLevelFieldAddr_injective same)).mpr (UserSpaces.mem_roots live))
  | freeUserspace userspace =>
      obtain ⟨effect, live'⟩ := UserSpaces.effect_freeUserspace owned named served
      refine inStep_of_effect effect apart fun c here => ?_
      obtain ⟨live, mirrors⟩ := inStep.mirrors c here
      have own : c ≠ userspace := fun same => spares (same ▸ here)
      rw [live']
      exact ⟨(List.mem_erase_of_ne own).mpr live, mirrors_of_effect effect apart mirrors
        ((List.mem_erase_of_ne fun same => own (rootLevelFieldAddr_injective same)).mpr
          (UserSpaces.mem_roots live))⟩

/-- What the copy at a switch has done. -/
structure Mapped (frames : List Nat) (u : UserSpaces) (m : Mmu) : Prop where
  srp : m.srp = u.mmu.srp
  urp : m.urp = u.mmu.urp
  freeFrames : m.memLayout.freeFrames = u.mmu.memLayout.freeFrames
  owned : UserSpaces.Owned frames ⟨m, u.live⟩
  agree : Agree u.mmu.mem m.mem (tree u.mmu.mem (rootLevelFieldAddr u.mmu.urp))
  copied : ∀ i, i < 96 → m.mem.load32 (rootLevelFieldAddr u.mmu.srp + 4 * i) =
    m.mem.load32 (rootLevelFieldAddr u.mmu.urp + 4 * i)
  rest : ∀ i, 96 ≤ i → m.mem.load32 (rootLevelFieldAddr u.mmu.srp + 4 * i) =
    u.mmu.mem.load32 (rootLevelFieldAddr u.mmu.srp + 4 * i)

theorem mapCurrentUserspace_spec {u : UserSpaces} (owned : u.Owned frames)
    (apart : base (rootLevelFieldAddr u.mmu.srp) ∉ frames) (live : u.mmu.urp ∈ u.live) :
    ∃ m, mapCurrentUserspace u.mmu = some ((), m) ∧ Mapped frames u m := by
  obtain ⟨chain, roles⟩ := owned.roles
  have inTrees := tree_subset (UserSpaces.mem_roots live) u.mmu.mem
  have inFrames : rootLevelFieldAddr u.mmu.urp ∈ frames :=
    roles.split.subset (List.mem_append_right _ (inTrees List.mem_cons_self))
  have aligned := (roles.valid _ inFrames).aligned
  have start : base (rootLevelFieldAddr u.mmu.srp) % pageSize = 0 := Nat.mul_mod_left _ _
  have rest := base_add_mod (rootLevelFieldAddr u.mmu.srp)
  have offset : rootLevelFieldAddr u.mmu.srp % pageSize + 512 ≤ pageSize := by
    unfold rootLevelFieldAddr pageSize
    omega
  have differs : base (rootLevelFieldAddr u.mmu.srp) ≠ rootLevelFieldAddr u.mmu.urp := by
    intro same
    rw [same] at apart
    exact apart inFrames
  obtain ⟨mem, ran, copied, only⟩ := @copyRoots_spec u.mmu.frames (rootLevelFieldAddr u.mmu.urp)
    (rootLevelFieldAddr u.mmu.srp) 96 (by decide) (Nat.mul_mod_left _ _) (Nat.mul_mod_left _ _) (by
      unfold pageSize at *
      omega)
  have unchanged : Unchanged pageSize u.mmu.mem mem [base (rootLevelFieldAddr u.mmu.srp)] := by
    refine fun x outside => only x ?_
    have off := outside _ List.mem_cons_self
    unfold InBlock at off
    omega
  obtain ⟨owned', agree⟩ := roles.outside unchanged start apart
  obtain ⟨m, ran', done⟩ := run_of_simulates (fun held =>
    @mapRoots_simulates 0 held (by decide) u.mmu.srp u.mmu.urp)
    owned.mapping ran
  have same : m.mem = mem := congrArg Frames.mem done.frames
  have kept : Agree u.mmu.mem m.mem (tree u.mmu.mem (rootLevelFieldAddr u.mmu.urp)) := by
    rw [same]
    exact agree.mono inTrees
  refine ⟨m, (mapCurrentUserspace_eq u.mmu).trans ran', done.srp, done.urp,
    congrArg Frames.freeFrames done.frames, ⟨done.mapping, chain, ?_⟩, kept, fun i small => ?_,
    fun i high => ?_⟩
  · rw [done.frames]
    exact owned'
  · rw [kept.word List.mem_cons_self (by omega), same]
    exact copied i small
  · rw [same]
    exact only.word (Or.inr (by omega))

/-- The copy makes the root table of the supervisor a mirror. -/
theorem Mapped.mirrors {u : UserSpaces} {m : Mmu} (mapped : Mapped frames u m)
    (low : ∀ virt, 96 ≤ rootTableIndex virt →
      lookup u.mmu.mem 3 (rootLevelFieldAddr u.mmu.urp) virt = none) :
    Mirrors m.mem (rootLevelFieldAddr m.srp) (rootLevelFieldAddr u.mmu.urp) := by
  rw [mapped.srp]
  refine ⟨fun i small => ?_, fun virt high => ?_⟩
  · unfold child
    rw [mapped.copied i small]
  · exact (sameView_of_agree mapped.agree virt).lookup.trans (low virt high)

theorem switchTo_mapped {c : Nat} (owned : v.spaces.Owned frames) (apart : base v.supervisorRoot ∉ frames)
    (live : c ∈ v.spaces.live) :
    ∃ m, v.act (.switchTo c) = some ⟨⟨m, v.spaces.live⟩, some c⟩ ∧
      Mapped frames ⟨{ v.spaces.mmu with urp := c }, v.spaces.live⟩ m := by
  obtain ⟨m, maps, mapped⟩ := @mapCurrentUserspace_spec frames
    ⟨{ v.spaces.mmu with urp := c }, v.spaces.live⟩ (owned.of_frames rfl owned.mapping) apart live
  refine ⟨m, ?_, mapped⟩
  show (Option.map _ (mapCurrentUserspace { v.spaces.mmu with urp := c })) = _
  rw [maps]
  rfl

theorem InStep.switchTo {c : Nat} {w : Running} (inStep : v.InStep) (keeps : v.Keeps (.switchTo c))
    (acts : v.act (.switchTo c) = some w) : w.InStep := by
  obtain ⟨live, low⟩ := keeps
  obtain ⟨frames, owned, apart⟩ := inStep.owned
  obtain ⟨m, known, mapped⟩ := switchTo_mapped owned apart live
  obtain rfl := Option.some.inj (acts.symm.trans known)
  have same : supervisorRoot ⟨⟨m, v.spaces.live⟩, some c⟩ = v.supervisorRoot :=
    congrArg rootLevelFieldAddr mapped.srp
  refine ⟨⟨frames, mapped.owned, ?_⟩, fun c' here => ?_⟩
  · rw [same]
    exact apart
  · obtain rfl := Option.some.inj here
    exact ⟨live, mapped.mirrors low⟩

theorem InStep.allocSupervisor {virt : Nat} {writeProtected : Bool} {u' : UserSpaces} (inStep : v.InStep)
    (keeps : v.Keeps (.event (.allocSupervisor virt writeProtected)))
    (acts : v.spaces.act (.allocSupervisor virt writeProtected) = some u') : InStep ⟨u', v.current⟩ := by
  obtain ⟨takes, once, high⟩ := keeps
  obtain ⟨frames, ⟨mapping, chain, roles⟩, apart⟩ := inStep.owned
  obtain ⟨frame, used, rest, ran, -, mapping', srp, live, agree, within, owned⟩ :=
    UserSpaces.allocSupervisor_owned mapping roles takes acts
  have same : u'.roots = v.spaces.roots := congrArg (List.map rootLevelFieldAddr) live
  rw [← same] at owned
  have root : supervisorRoot ⟨u', v.current⟩ = v.supervisorRoot := congrArg rootLevelFieldAddr srp
  refine ⟨⟨_, ⟨mapping', rest, owned⟩, fun member => apart ?_⟩, fun c here => ?_⟩
  · rw [root, same] at member
    exact within member
  · obtain ⟨isLive, mirrors⟩ := inStep.mirrors c here
    refine ⟨live.symm ▸ isLive, ?_⟩
    rw [root]
    refine mirrors.of_agree (fun i small => ?_)
      (agree.mono (tree_subset (UserSpaces.mem_roots isLive) v.spaces.mmu.mem))
    refine @place_words v.spaces.mmu.frames chain virt 1 v.supervisorRoot true writeProtected
      roles.pool (fun t member => ⟨(takes.2.1 t member).1,
      (takes.2.1 t member).2.1 chain roles.pool.linked⟩) once takes.2.2 takes.1 frame u'.mmu.frames ran i (by omega)
      fun same => ?_
    have here : i = rootTableIndex virt := same
    omega

theorem InStep.store {mem : ByteMem} (inStep : v.InStep) (keeps : v.KeepsTables mem) :
    InStep ⟨⟨{ v.spaces.mmu with mem := mem }, v.spaces.live⟩, v.current⟩ := by
  obtain ⟨frames, ⟨mapping, chain, roles⟩, apart⟩ := inStep.owned
  have linked := roles.pool.linked.congr (keeps.links chain roles.pool.linked)
  have same : trees mem v.spaces.roots = trees v.spaces.mmu.mem v.spaces.roots :=
    List.flatMap_congr fun root member => congrArg (root :: ·) (below_congr (keeps.tables root member))
  have split : (chain ++ trees mem v.spaces.roots).Perm frames := by
    rw [same]
    exact roles.split
  refine ⟨⟨frames, ⟨mapping, chain, ⟨linked, roles.pool.enough, roles.pool.frames⟩, split, roles.distinct,
    roles.valid⟩, apart⟩, fun c here => ?_⟩
  obtain ⟨live, mirrors⟩ := inStep.mirrors c here
  exact ⟨live, mirrors.of_tables keeps.words (keeps.tables _ (UserSpaces.mem_roots live))⟩

theorem InStep.move {m : Move} {w : Running} (inStep : v.InStep) (keeps : v.Keeps m)
    (acts : v.act m = some w) : w.InStep := by
  cases m with
  | switchTo userspace => exact inStep.switchTo keeps acts
  | event e =>
      obtain ⟨u', acts', rfl⟩ := Option.map_eq_some_iff.mp acts
      cases e with
      | request r => exact inStep.request keeps acts'
      | allocSupervisor virt writeProtected => exact inStep.allocSupervisor keeps acts'
      | store mem =>
          obtain rfl := Option.some.inj acts'
          exact inStep.store keeps

theorem InStep.moves {moves : List Move} {v v' : Running} (inStep : v.InStep)
    (run : Moves Keeps v moves v') : v'.InStep := by
  induction moves generalizing v with
  | nil =>
      obtain rfl := run
      exact inStep
  | cons m rest ih =>
      obtain ⟨keeps, w, acts, later⟩ := run
      exact ih (inStep.move keeps acts) later

/-- In every state of a run whose moves keep the copy good, what the process sees the kernel sees,
and none of the tables it sees it through is free. -/
theorem kernel_sees_user {v₀ v : Running} {moves : List Move} {c : Nat} (started : v₀.Started)
    (run : Moves Keeps v₀ moves v) (current : v.current = some c) : v.SeesUser c ∧ v.NoneFreed := by
  have inStep := started.inStep.moves run
  exact ⟨inStep.seesUser current, inStep.noneFreed (current ▸ Option.some_ne_none c)⟩

def fourFrames : Running := ⟨freshFrames 4, none⟩

theorem fourFrames_apart : base (rootLevelFieldAddr 0) ∉ frameList 4 :=
  fun member => (frameList_valid (by decide) _ member).positive rfl

theorem fourFrames_started : fourFrames.Started :=
  ⟨⟨frameList 4, fourFrames_owned, fourFrames_apart⟩, rfl⟩

/-- Nothing but the free list is in the memory. -/
theorem links_low (n : Nat) {x : Nat} (low : x < dramStart) : links n x = 0 := by
  induction n with
  | zero => rfl
  | succ n ih =>
      show (links n).store32 (dramStart + n * pageSize) _ x = 0
      rw [ByteMem.store32_off _ _ (Or.inl (Nat.lt_of_lt_of_le low (Nat.le_add_right ..)))]
      exact ih

theorem links_word {a : Nat} (low : a + 4 ≤ dramStart) (n : Nat) : (links n).load32 a = 0 := by
  unfold ByteMem.load32
  rw [links_low n (by omega), links_low n (by omega), links_low n (by omega), links_low n (by omega)]
  rfl

theorem act_request {r : Request} {u' : UserSpaces} (served : v.spaces.serve r = some u') :
    v.act (.event (.request r)) = some ⟨u', v.current⟩ := by
  show Option.map (fun u => (⟨u, v.current⟩ : Running)) (v.spaces.serve r) = _
  rw [served]
  rfl

/-- The first space: its root table and the one of the supervisor are empty. -/
theorem fourFrames_first : ∃ m, fourFrames.act (.event (.request .initUserspace)) =
      some ⟨⟨m, [4194304]⟩, none⟩ ∧
    UserSpaces.Owned (frameList 4) ⟨m, [4194304]⟩ ∧ m.urp = 4194304 ∧ m.srp = 0 ∧
      m.memLayout.freeFrames = 3 ∧
        (∀ i, i < 128 → m.mem.load32 (rootLevelFieldAddr 4194304 + 4 * i) = 0) ∧
          ∀ i, i < 128 → m.mem.load32 (rootLevelFieldAddr 0 + 4 * i) = 0 := by
  obtain ⟨m, served, mapping, urp, frames⟩ := fourFrames_init
  obtain ⟨w, served', owned⟩ := UserSpaces.serve_initUserspace fourFrames_owned
  obtain rfl := Option.some.inj (served'.symm.trans served)
  have effect := UserSpaces.effect_initUserspace fourFrames_owned served
  have same : m.mem = (taken (freshFrames 4).mmu.frames 0x80000000).mem := congrArg Frames.mem frames
  refine ⟨m, ?_, owned, urp, effect.srp, congrArg Frames.freeFrames frames, fun i small => ?_,
    fun i small => ?_⟩
  · exact act_request served
  · rw [same]
    exact taken_zero _ _ i small
  · rw [supervisor_words effect.unchanged (frameList_valid (by decide)) fourFrames_apart small]
    refine links_word ?_ 3
    unfold rootLevelFieldAddr dramStart
    omega

/-- A page is put into the space before the process runs: the kernel sees it. -/
theorem kernel_sees_user_page : ∃ (v : Running) (c : Nat), c = 4194304 ∧
    lookup v.spaces.mmu.mem 3 (rootLevelFieldAddr c) 0x1000 ≠ none ∧ v.SeesUser c ∧ v.NoneFreed := by
  obtain ⟨m, first, owned, urp, srp, free, zero, -⟩ := fourFrames_first
  have live : m.urp ∈ [4194304] := urp ▸ List.mem_cons_self
  have supplied : Supplied m m.urp 0x1000 := by
    have wants : wanted m.mem 0x1000 3 (rootLevelFieldAddr m.urp) = 3 := by rw [urp, wanted_zero zero]
    exact Nat.le_of_eq (wants.trans free.symm)
  obtain ⟨u, served, -⟩ := @UserSpaces.serve_allocAt (frameList 4) ⟨m, [4194304]⟩ owned 0x1000 false live
    supplied
  obtain ⟨effect, frame, chain, used, rest, placement⟩ :=
    UserSpaces.effect_allocAt owned live supplied served
  obtain ⟨result, -, rfl⟩ := Option.map_eq_some_iff.mp served
  rw [show m.urp = 4194304 from urp] at placement
  have second : act ⟨⟨m, [4194304]⟩, none⟩ (.event (.request (.allocAt 0x1000 false))) =
      some ⟨⟨result.2, [4194304]⟩, none⟩ := act_request served
  have apart : base (supervisorRoot ⟨⟨result.2, [4194304]⟩, none⟩) ∉ frameList 4 := by
    show base (rootLevelFieldAddr result.2.srp) ∉ frameList 4
    rw [effect.srp, srp]
    exact fourFrames_apart
  obtain ⟨m', third, mapped⟩ := @switchTo_mapped ⟨⟨result.2, [4194304]⟩, none⟩ (frameList 4) 4194304
    effect.owned apart List.mem_cons_self
  have low (virt : Nat) (high : 96 ≤ rootTableIndex virt) :
      lookup result.2.mem 3 (rootLevelFieldAddr 4194304) virt = none := by
    refine ((placement.elsewhere virt fun same => ?_).lookup).trans (lookup_zero zero virt)
    have here : rootTableIndex virt = rootTableIndex 0x1000 := same 2 (by decide)
    rw [here] at high
    exact absurd high (by decide)
  have run : Moves Keeps fourFrames
      [.event (.request .initUserspace), .event (.request (.allocAt 0x1000 false)), .switchTo 4194304]
      ⟨⟨m', [4194304]⟩, some 4194304⟩ :=
    ⟨⟨⟨⟨trivial, nofun⟩, nofun⟩, trivial⟩, _, first,
      ⟨⟨⟨supplied, fun _ _ _ => live⟩, nofun⟩, nofun⟩, _, second,
        ⟨List.mem_cons_self, low⟩, _, third, rfl⟩
  refine ⟨_, 4194304, rfl, ?_, kernel_sees_user fourFrames_started run rfl⟩
  obtain ⟨w, here⟩ := placement.here
  have view := (sameView_of_agree mapped.agree 0x1000).lookup.trans here
  exact fun gone => nomatch gone.symm.trans view

/-- A walk ends at a root entry of zeros. -/
theorem lookup_root_zero {mem : ByteMem} {table virt : Nat}
    (zero : mem.load32 (table + 4 * rootTableIndex virt) = 0) : lookup mem 3 table virt = none := by
  refine lookup_none (child_of_not ?_)
  show isResident 3 (mem.load32 (table + 4 * rootTableIndex virt)) = false
  rw [zero]
  rfl

/-- The page `elf_load` puts at the top for the stack of a process that already runs. -/
theorem kernel_misses_stack : ¬ ∀ (v₀ v : Running) (moves : List Move) (c : Nat), v₀.Started →
    Moves May v₀ moves v → v.current = some c → v.SeesUser c ∧ v.NoneFreed := by
  intro sees
  obtain ⟨m, first, owned, urp, srp, free, zero, zeroS⟩ := fourFrames_first
  have apart : base (supervisorRoot ⟨⟨m, [4194304]⟩, none⟩) ∉ frameList 4 := by
    show base (rootLevelFieldAddr m.srp) ∉ frameList 4
    rw [srp]
    exact fourFrames_apart
  obtain ⟨m', second, mapped⟩ := @switchTo_mapped ⟨⟨m, [4194304]⟩, none⟩ (frameList 4) 4194304
    owned apart List.mem_cons_self
  have owned' : UserSpaces.Owned (frameList 4) ⟨m', [4194304]⟩ := mapped.owned
  have srp' : m'.srp = 0 := mapped.srp.trans srp
  have urp' : m'.urp = 4194304 := mapped.urp
  have free' : m'.memLayout.freeFrames = 3 := mapped.freeFrames.trans free
  have live : m'.urp ∈ [4194304] := urp' ▸ List.mem_cons_self
  have zero' (i : Nat) (small : i < 128) : m'.mem.load32 (rootLevelFieldAddr 4194304 + 4 * i) = 0 :=
    (mapped.agree.word List.mem_cons_self small).trans (zero i small)
  have copied : m'.mem.load32 (rootLevelFieldAddr 0 + 4 * 127) = 0 := by
    have kept : m'.mem.load32 (rootLevelFieldAddr m.srp + 4 * 127) =
        m.mem.load32 (rootLevelFieldAddr m.srp + 4 * 127) := mapped.rest 127 (by decide)
    rw [srp] at kept
    exact kept.trans (zeroS 127 (by decide))
  have supplied : Supplied m' m'.urp 0xFFFFF000 := by
    have wants : wanted m'.mem 0xFFFFF000 3 (rootLevelFieldAddr m'.urp) = 3 := by rw [urp', wanted_zero zero']
    exact Nat.le_of_eq (wants.trans free'.symm)
  obtain ⟨u, served, -⟩ := @UserSpaces.serve_allocAt (frameList 4) ⟨m', [4194304]⟩ owned'
    0xFFFFF000 false live supplied
  obtain ⟨effect, frame, chain, used, rest, placement⟩ :=
    UserSpaces.effect_allocAt owned' live supplied served
  have run : Moves May fourFrames
      [.event (.request .initUserspace), .switchTo 4194304, .event (.request (.allocAt 0xFFFFF000 false))]
      ⟨u, some 4194304⟩ :=
    ⟨⟨⟨trivial, nofun⟩, nofun⟩, _, first, List.mem_cons_self, _, second,
      ⟨⟨supplied, fun _ _ _ => live⟩, nofun⟩, _, act_request served, rfl⟩
  obtain ⟨w, here⟩ := placement.here
  have mapped' : lookup u.mmu.mem 3 (rootLevelFieldAddr m'.urp) 0xFFFFF000 =
      some (placed w frame false false) := here
  rw [urp'] at mapped'
  obtain ⟨w', found, -⟩ := (sees _ _ _ _ fourFrames_started run rfl).1.frame 0xFFFFF000 _ mapped'
  have root : supervisorRoot ⟨u, some 4194304⟩ = rootLevelFieldAddr 0 :=
    congrArg rootLevelFieldAddr (effect.srp.trans srp')
  have last : rootTableIndex 0xFFFFF000 = 127 := by decide
  have gone : lookup u.mmu.mem 3 (rootLevelFieldAddr 0) 0xFFFFF000 = none := by
    refine lookup_root_zero ?_
    rw [last, supervisor_words effect.unchanged (frameList_valid (by decide)) fourFrames_apart (by decide)]
    exact copied
  rw [root, gone] at found
  exact nomatch found

end Running

end Mmu

end TrollOS
